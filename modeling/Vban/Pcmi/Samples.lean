import Vban.Emit.AlsaCapture
import Vban.Library.Single

/-! `Alsa_pcmi`: one sample in each of the formats that the device may have. -/
namespace Vban.Pcmi

open Library Vban.Convert

/-- The bits of the `float` nearest to a number. -/
def floatOfRat (x : Rat) : CFloat :=
  UInt32.ofNat ((if x < 0 then 2 ^ 31 else 0) + min (singleBits x) 0x7F800000)

def IsNaN (x : CFloat) : Prop := x.toNat / 2 ^ 23 % 2 ^ 8 = 255 ∧ x.toNat % 2 ^ 23 ≠ 0

instance : DecidablePred IsNaN := fun _ => inferInstanceAs (Decidable (_ ∧ _))

/-- The quotient of two integers, each converted to `float` before. -/
def quotient (s scale : Int) : CFloat :=
  floatOfRat (roundSingle s / roundSingle scale)

/-- The integer of a sample: clipped, or the product cast to `bits` bits. A NaN is neither above
nor below, and its cast has no result. -/
def playCode (bits : Nat) (scale high low : Int) (s : CFloat) : Option Int :=
  if IsNaN s then none
  else if 1 < floatValue s then some high
  else if floatValue s < -1 then some low
  else castInt bits (truncate (roundSingle (roundSingle scale * floatValue s)))

/-- `d >> k` stored in a `char`. -/
def shiftByte (d : Int) (k : Nat) : UInt8 := UInt8.ofInt (d / 2 ^ k)

/-- `0x8001` in a `short int`. -/
def code16 (s : CFloat) : Option Int := playCode 16 0x7fff 0x7fff (Int.bmod 0x8001 (2 ^ 16)) s

def code24 (s : CFloat) : Option Int := playCode 32 0x007fffff 0x007fffff 0x00800001 s

def play16le (s : CFloat) : Option (List UInt8) :=
  (code16 s).map fun d => [shiftByte d 0, shiftByte d 8]

def play16be (s : CFloat) : Option (List UInt8) :=
  (code16 s).map fun d => [shiftByte d 8, shiftByte d 0]

def play24le (s : CFloat) : Option (List UInt8) :=
  (code24 s).map fun d => [shiftByte d 0, shiftByte d 8, shiftByte d 16]

def play24be (s : CFloat) : Option (List UInt8) :=
  (code24 s).map fun d => [shiftByte d 16, shiftByte d 8, shiftByte d 0]

def play32le (s : CFloat) : Option (List UInt8) :=
  (code24 s).map fun d => [0, shiftByte d 0, shiftByte d 8, shiftByte d 16]

def play32be (s : CFloat) : Option (List UInt8) :=
  (code24 s).map fun d => [shiftByte d 16, shiftByte d 8, shiftByte d 0, 0]

def playFloatne (s : CFloat) : Option (List UInt8) := some (floatBytes s)

/-- `bswap_32`. -/
def playFloatre (s : CFloat) : Option (List UInt8) := some (floatBytes s).reverse

/-- The sum is kept in 16 bits. -/
def capt16le (src : List UInt8) : CFloat :=
  quotient (Int.bmod ((src.getD 0 0).toNat + (src.getD 1 0).toNat * 2 ^ 8) (2 ^ 16)) 0x7fff

def capt16be (src : List UInt8) : CFloat :=
  quotient (Int.bmod ((src.getD 0 0).toNat * 2 ^ 8 + (src.getD 1 0).toNat) (2 ^ 16)) 0x7fff

/-- `if (s & 0x00800000) s -= 0x01000000`. -/
def signed24 (s : Nat) : Int := if s.testBit 23 then (s : Int) - 0x01000000 else s

def capt24le (src : List UInt8) : CFloat :=
  quotient (signed24 ((src.getD 0 0).toNat + (src.getD 1 0).toNat * 2 ^ 8 +
    (src.getD 2 0).toNat * 2 ^ 16)) 0x007fffff

def capt24be (src : List UInt8) : CFloat :=
  quotient (signed24 ((src.getD 0 0).toNat * 2 ^ 16 + (src.getD 1 0).toNat * 2 ^ 8 +
    (src.getD 2 0).toNat)) 0x007fffff

/-- The first byte is left out, and the last one is shifted into the sign. -/
def capt32le (src : List UInt8) : CFloat :=
  quotient (Int.bmod ((src.getD 1 0).toNat * 2 ^ 8 + (src.getD 2 0).toNat * 2 ^ 16 +
    (src.getD 3 0).toNat * 2 ^ 24) (2 ^ 32)) 0x7fffff00

def capt32be (src : List UInt8) : CFloat :=
  quotient (Int.bmod ((src.getD 0 0).toNat * 2 ^ 24 + (src.getD 1 0).toNat * 2 ^ 16 +
    (src.getD 2 0).toNat * 2 ^ 8) (2 ^ 32)) 0x7fffff00

def captFloatne (src : List UInt8) : CFloat := floatOfBytes src

def captFloatre (src : List UInt8) : CFloat := floatOfBytes src.reverse

/-- The formats that `initialise` has functions for. -/
inductive PcmFormat
  | floatLE
  | floatBE
  | s32LE
  | s32BE
  | s24LE
  | s24BE
  | s16LE
  | s16BE
deriving DecidableEq

namespace PcmFormat

/-- `_play_func`, for one sample on a little-endian machine. -/
def play : PcmFormat → CFloat → Option (List UInt8)
  | floatLE => playFloatne
  | floatBE => playFloatre
  | s32LE => play32le
  | s32BE => play32be
  | s24LE => play24le
  | s24BE => play24be
  | s16LE => play16le
  | s16BE => play16be

/-- `_capt_func`, for one sample. -/
def capt : PcmFormat → List UInt8 → CFloat
  | floatLE => captFloatne
  | floatBE => captFloatre
  | s32LE => capt32le
  | s32BE => capt32be
  | s24LE => capt24le
  | s24BE => capt24be
  | s16LE => capt16le
  | s16BE => capt16be

/-- The number of bytes that `_clear_func` sets to zero, and that a sample has. -/
def width : PcmFormat → Nat
  | floatLE | floatBE | s32LE | s32BE => 4
  | s24LE | s24BE => 3
  | s16LE | s16BE => 2

/-- The bits of the code without the sign. `none` for floats. -/
def scaleBits : PcmFormat → Option Nat
  | floatLE | floatBE => none
  | s32LE | s32BE | s24LE | s24BE => some 23
  | s16LE | s16BE => some 15

/-- The bytes of a sample in the order that a little-endian machine has. -/
def lowFirst : PcmFormat → List UInt8 → List UInt8
  | floatLE | s32LE | s24LE | s16LE => id
  | floatBE | s32BE | s24BE | s16BE => List.reverse

/-- What 32 bits have below the code. -/
def padding : PcmFormat → Nat
  | s32LE | s32BE => 1
  | _ => 0

/-- The code of a sample. -/
def code (f : PcmFormat) (bytes : List UInt8) : Int := leInt ((f.lowFirst bytes).drop f.padding)

/-- The sample of a code. -/
def encode (f : PcmFormat) (d : Int) : List UInt8 :=
  f.lowFirst (List.replicate f.padding 0 ++ bytesOfInt (f.width - f.padding) d)

end PcmFormat

end Vban.Pcmi
