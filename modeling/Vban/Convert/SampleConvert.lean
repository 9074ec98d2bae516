import Mathlib.Data.Rat.Floor
import Vban.Library.Chunks
import Vban.Library.Window
import Vban.Header

/-! Sample conversion, with floats by their exact values. -/
namespace Vban.Convert

open Library

/-- What a buffer of samples holds: the bytes of integers, or the values of floats. -/
inductive SampleBuffer
  | bytes (mem : List UInt8)
  | floats (values : List Rat)
deriving DecidableEq

def SampleBuffer.Holds (formatBit : UInt8) : SampleBuffer → Prop
  | .bytes _ => formatBit ≠ vbanBitfmt32Float
  | .floats _ => formatBit = vbanBitfmt32Float

instance (formatBit : UInt8) : DecidablePred (SampleBuffer.Holds formatBit)
  | .bytes _ => inferInstanceAs (Decidable (_ ≠ _))
  | .floats _ => inferInstanceAs (Decidable (_ = _))

/-- `1 << k` of the 32-bit `int` constant 1. -/
def intShift (k : Nat) : Int := ((1#32) <<< k).toInt

/-- The conversion of an `int` to `float`: 24 significant bits, ties to even. -/
def floatOfInt (n : Int) : Int :=
  let ulp : Int := 2 ^ (n.natAbs.log2 - 23)
  let q := n / ulp
  let r := n % ulp
  if 2 * r < ulp ∨ 2 * r = ulp ∧ q % 2 = 0 then q * ulp else (q + 1) * ulp

/-- Halves go away from zero. -/
def roundf (x : Rat) : Int := if 0 ≤ x then ⌊x + 1 / 2⌋ else ⌈x - 1 / 2⌉

/-- The conversion of a `float` to a signed integer has no result out of its range. -/
def castInt (bits : Nat) (n : Int) : Option Int :=
  if -2 ^ (bits - 1) ≤ n ∧ n < 2 ^ (bits - 1) then some n else none

def bytesOfInt (size : Nat) (n : Int) : List UInt8 :=
  leBytes size (n % ((256 ^ size : Nat) : Int)).toNat

/-- Between integer formats the upper bytes stay the upper bytes. -/
def alignSample (dstSampleSize : Nat) (sample : List UInt8) : List UInt8 :=
  List.replicate (dstSampleSize - sample.length) 0 ++ sample.drop (sample.length - dstSampleSize)

/-- The `float` of an integer sample. -/
def decodeSample (formatBitSrc : UInt8) (sample : List UInt8) : Rat :=
  if formatBitSrc = vbanBitfmt8Int then (leNat sample : Rat) / floatOfInt (intShift 7)
  else if formatBitSrc = vbanBitfmt16Int then
    (floatOfInt (leInt sample) : Rat) / floatOfInt (intShift 15)
  else if formatBitSrc = vbanBitfmt24Int then
    (floatOfInt (leInt sample) : Rat) / floatOfInt (intShift 23)
  else (floatOfInt (leInt sample) : Rat) / floatOfInt (intShift 31)

/-- The integer sample of a `float`: but for 8 bits, the upper bytes of 32. -/
def encodeSample (formatBitDst : UInt8) (dstSampleSize : Nat) (x : Rat) : Option (List UInt8) :=
  if formatBitDst = vbanBitfmt8Int then
    (castInt 8 (roundf (floatOfInt (intShift 7) * x))).map (bytesOfInt 1)
  else do
    let tmp ← castInt 32 (roundf (floatOfInt (intShift 31) * x))
    return (bytesOfInt 4 tmp).drop (4 - dstSampleSize)

/-- `none` is an access out of bounds. -/
def load {α : Type} (mem : List α) (count : Nat) : Option (List α) :=
  if count ≤ mem.length then some (mem.take count) else none

def store {α : Type} (mem xs : List α) : Option (List α) :=
  if xs.length ≤ mem.length then some (overwrite mem 0 xs) else none

/-- Returns the status and the destination memory. -/
def vbanSampleConvert (dst : SampleBuffer) (formatBitDst : UInt8) (src : SampleBuffer)
    (formatBitSrc : UInt8) (num : Nat) : Option (Nat × SampleBuffer) := do
  guard (dst.Holds formatBitDst ∧ src.Holds formatBitSrc)
  let dstSampleSize ← vbanBitResolutionSize[formatBitDst.toNat]?
  let srcSampleSize ← vbanBitResolutionSize[formatBitSrc.toNat]?
  if formatBitDst ≠ formatBitSrc ∧
      (formatBitDst > vbanBitfmt32Float ∨ formatBitSrc > vbanBitfmt32Float) then
    return (1, dst)
  match dst, src with
  | .bytes dstptr, .bytes srcptr =>
    let src ← load srcptr (num * srcSampleSize)
    if formatBitDst = formatBitSrc then
      return (0, .bytes (← store dstptr src))
    let samples := chunks srcSampleSize num src
    return (0, .bytes (← store dstptr (samples.flatMap (alignSample dstSampleSize))))
  | .floats dstptr, .bytes srcptr =>
    let samples := chunks srcSampleSize num (← load srcptr (num * srcSampleSize))
    return (0, .floats (← store dstptr (samples.map (decodeSample formatBitSrc))))
  | .bytes dstptr, .floats srcptr =>
    let samples ← (← load srcptr num).mapM (encodeSample formatBitDst dstSampleSize)
    return (0, .bytes (← store dstptr samples.flatten))
  | .floats dstptr, .floats srcptr => return (0, .floats (← store dstptr (← load srcptr num)))

variable {formatBit : UInt8} {size num : Nat} {mem : List UInt8} {floats : List Rat}

theorem vbanSampleConvert_to_float (hformat : formatBit < vbanBitfmt32Float)
    (hsize : vbanBitResolutionSize[formatBit.toNat]? = some size) :
    vbanSampleConvert (.floats floats) vbanBitfmt32Float (.bytes mem) formatBit num = do
      let samples := chunks size num (← load mem (num * size))
      return (0, .floats (← store floats (samples.map (decodeSample formatBit)))) := by
  have hle : ¬vbanBitfmt32Float < formatBit := UInt8.lt_asymm hformat
  have hfloat : vbanBitResolutionSize[vbanBitfmt32Float.toNat]? = some 4 := rfl
  simp [vbanSampleConvert, SampleBuffer.Holds, UInt8.ne_of_lt hformat, hsize, hle, hfloat]

theorem vbanSampleConvert_of_float (hformat : formatBit < vbanBitfmt32Float)
    (hsize : vbanBitResolutionSize[formatBit.toNat]? = some size) :
    vbanSampleConvert (.bytes mem) formatBit (.floats floats) vbanBitfmt32Float num = do
      let samples ← (← load floats num).mapM (encodeSample formatBit size)
      return (0, .bytes (← store mem samples.flatten)) := by
  have hle : ¬vbanBitfmt32Float < formatBit := UInt8.lt_asymm hformat
  have hfloat : vbanBitResolutionSize[vbanBitfmt32Float.toNat]? = some 4 := rfl
  simp [vbanSampleConvert, SampleBuffer.Holds, UInt8.ne_of_lt hformat, hsize, hle, hfloat]

end Vban.Convert
