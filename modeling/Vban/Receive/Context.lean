import Vban.Header
import Vban.Library.Arithmetic
import Vban.Ringbuffer.Frames

/-! What the receive path reads and writes: faults, samples, and the stream context. -/
namespace Vban

open Library

/-- Why a turn does not complete: an operation without a defined result, or the end. -/
inductive Fault
  /-- `read()` is asked for this many bytes of `packet.data`. -/
  | readLength (n : Nat)
  /-- A conversion loop reads up to this offset of `packet.data`. -/
  | payload (offset : Nat)
  /-- A lookup in `VBanBitResolutionSize`. -/
  | bitResolution (i : Nat)
  /-- A lookup in `VBanSRList`. -/
  | sampleRate (i : Nat)
  /-- A MIDI event reads up to this offset of `packet.data`. -/
  | midiPayload (offset : Nat)
  | divisionByZero
  | nullPointer
  /-- The MIDI loop spins on a full ring. -/
  | stalled
  | exit
deriving DecidableEq

/-- The audio payload and table accesses that leave their object. -/
def Fault.OutOfBounds : Fault → Prop
  | .readLength _ | .payload _ | .bitResolution _ | .sampleRate _ => True
  | _ => False

def bitResolutionSize (i : UInt8) : Except Fault Nat :=
  match vbanBitResolutionSize[i.toNat]? with
  | some size => .ok size
  | none => .error (.bitResolution i.toNat)

def srList (i : UInt8) : Except Fault Nat :=
  match vbanSRList[i.toNat]? with
  | some sr => .ok sr
  | none => .error (.sampleRate i.toNat)

/-- `n` bytes of the payload from `offset` on. An empty read touches nothing. -/
def readPayload (data : List UInt8) (offset n : Nat) : Except Fault (List UInt8) :=
  if n = 0 ∨ offset + n ≤ vbanDataMaxSize then .ok (bytesAt data offset n)
  else .error (.payload (offset + n))

/-- The bits of a `float`. -/
abbrev CFloat := UInt32

def floatOfBytes (bytes : List UInt8) : CFloat := UInt32.ofNat (leNat bytes)

def floatBytes (x : CFloat) : List UInt8 := leBytes 4 x.toNat

/-- The bytes of consecutive floats in memory. -/
def floatsBytes (xs : List CFloat) : List UInt8 := xs.flatMap floatBytes

structure ResamplerOutput (R : Type) where
  resampler : R
  outCount : Nat
  written : List CFloat

/-- `float` arithmetic and `VResampler::process`, as the receive path calls them. -/
structure RxEnv (R : Type) where
  ofInt : Int → CFloat
  div : CFloat → CFloat → CFloat
  process : R → (inpData : List CFloat) → (inpCount outCount : Nat) → ResamplerOutput R

/-- A little-endian two's complement number. -/
def intOfBytes (bytes : List UInt8) : Int := Int.bmod (leNat bytes) (256 ^ bytes.length)

structure Timespec where
  sec : Int
  nsec : Int
deriving DecidableEq

def correctionOn : UInt16 := 0x0040

def netXrun : UInt16 := 0x4000

/-- The fields of `vban_stream_context_t` that the receive path uses. -/
structure VbanRxContext (R : Type) where
  rxStreamname : StreamName
  txStreamname : StreamName
  servername : List UInt8
  nboutputs : Nat
  nframes : Nat
  samplerate : Int
  samplerateResampler : Int
  ringbuffer : Option Ringbuffer
  ringbufferMidi : Option Ringbuffer
  iprx : UInt32
  iplocal : UInt32
  rxport : UInt16
  ansport : UInt16
  nuFrame : UInt32
  flags : UInt16
  resampler : Option R
  resamplerInbuf : List CFloat
  resamplerInbuflen : Int
  resamplerOutbuf : List CFloat
  resamplerOutbuflen : Int
  inputTs : Timespec
  timeOld : Timespec
  timeCycleStart : Timespec
  cycleFrames : Int
  cframesMarr : List Int
  cframes : Int
  cfind : Nat
  rbfill : Int

namespace VbanRxContext

variable {R : Type}

/-- The zeroed context of a receptor with the options `-s`, `-i` and `-p`. -/
def start (rxStreamname : StreamName) (iprx : UInt32) (rxport : UInt16) : VbanRxContext R where
  rxStreamname := rxStreamname
  txStreamname := .strncpy []
  servername := List.replicate 32 0
  nboutputs := 0
  nframes := 0
  samplerate := 48000
  samplerateResampler := 0
  ringbuffer := none
  ringbufferMidi := none
  iprx := iprx
  iplocal := 0
  rxport := rxport
  ansport := 0
  nuFrame := 0
  flags := correctionOn
  resampler := none
  resamplerInbuf := []
  resamplerInbuflen := 0
  resamplerOutbuf := []
  resamplerOutbuflen := 0
  inputTs := ⟨0, 0⟩
  timeOld := ⟨0, 0⟩
  timeCycleStart := ⟨0, 0⟩
  cycleFrames := 0
  cframesMarr := List.replicate 5 0
  cframes := 0
  cfind := 0
  rbfill := 0

/-- The string at `rx_streamname`: an unterminated name runs into the next fields. -/
def rxStreamnameString (c : VbanRxContext R) : List UInt8 :=
  cString (c.rxStreamname.bytes ++ c.txStreamname.bytes ++ c.servername)

end VbanRxContext

/-- Convert `num` samples of `size` bytes from `srcptr` on. -/
def convertSamples (data : List UInt8) (srcptr size num : Nat) (conv : List UInt8 → CFloat) :
    Except Fault (List CFloat) := do
  let bytes ← readPayload data srcptr (size * num)
  return (List.range num).map fun sample => conv (bytesAt bytes (sample * size) size)

/-- The samples of one frame as floats: `vban_sample_convert` to `VBAN_BITFMT_32_FLOAT`. -/
def vbanSampleConvert {R : Type} (env : RxEnv R) (data : List UInt8) (srcptr : Nat)
    (formatBitSrc : UInt8) (num : Nat) : Except Fault (List CFloat) := do
  let size ← bitResolutionSize formatBitSrc
  if formatBitSrc = vbanBitfmt32Float then convertSamples data srcptr size num floatOfBytes
  else if formatBitSrc = vbanBitfmt8Int then
    convertSamples data srcptr size num fun s => env.div (env.ofInt (leNat s)) (env.ofInt (2 ^ 7))
  else if formatBitSrc = vbanBitfmt16Int then
    convertSamples data srcptr size num fun s =>
      env.div (env.ofInt (intOfBytes s)) (env.ofInt (2 ^ 15))
  else if formatBitSrc = vbanBitfmt24Int then
    convertSamples data srcptr size num fun s =>
      env.div (env.ofInt (intOfBytes s)) (env.ofInt (2 ^ 23))
  else if formatBitSrc = vbanBitfmt32Int then
    -- `1 << 31` is the smallest `int`
    convertSamples data srcptr size num fun s =>
      env.div (env.ofInt (intOfBytes s)) (env.ofInt (-2 ^ 31))
  else return []

/-- The position of the smallest entry from `i` on. -/
def selectMin (array : List Int) (i : Nat) : Nat :=
  (List.range' (i + 1) (4 - i)).foldl
    (fun mind j => if array.getD j 0 < array.getD mind 0 then j else mind) i

def cfmed (medianArray : List Int) : Int :=
  let sorted := (List.range 4).foldl (fun array i =>
    let mind := selectMin array i
    (array.set mind (array.getD i 0)).set i (array.getD mind 0)) medianArray
  sorted.getD 3 0

/-- Returns the status and the context. -/
def calcInputSamplerate {R : Type} (c : VbanRxContext R) (p : VBanPacket) :
    Nat × VbanRxContext R :=
  let timetmp := c.inputTs
  let timedeltatmp := (timetmp.sec - c.timeOld.sec) * 1000000000 + timetmp.nsec - c.timeOld.nsec
  let nbs : Int := p.header.formatNbs.toNat + 1
  if timedeltatmp > 100000 then
    if c.timeCycleStart.sec ≠ 0 then
      let marr := c.cframesMarr.set c.cfind c.cycleFrames
      (0, { c with
        cframesMarr := marr
        cfind := if c.cfind = 4 then 0 else c.cfind + 1
        cframes := cfmed marr
        cycleFrames := nbs
        flags := c.flags &&& ~~~netXrun
        timeCycleStart := timetmp
        timeOld := timetmp })
    else (3, { c with timeCycleStart := timetmp, timeOld := timetmp })
  else
    (1, { c with
      flags := if p.header.nuFrame ≠ c.nuFrame + 1 then c.flags ||| netXrun else c.flags
      cycleFrames := c.cycleFrames + nbs
      timeOld := timetmp })

end Vban
