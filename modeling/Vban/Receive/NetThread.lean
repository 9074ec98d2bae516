import Vban.Receive.RxThread

/-! The network thread of the ALSA utility. Its fill level estimate and its text packets, which
read no audio, are left out. -/
namespace Vban

open Library

/-- The parts of `vban_alsa_util` that are not modelled: the output length in `double`
arithmetic and the set up of a resampler. -/
structure NetEnv (R : Type) extends RxEnv R where
  outLen : (inLen samplerate sr : Nat) → Nat
  setup : (samplerate sr nboutputs : Nat) → Option R

/-- A resampler at ratio one, as it behaves on silence. -/
def silentEnv : NetEnv Unit where
  ofInt _ := 0
  div _ _ := 0
  process _ inpData inpCount outCount := ⟨(), outCount - inpCount, inpData⟩
  outLen inLen _ _ := inLen
  setup _ _ _ := some ()

structure NetThread (R : Type) where
  rxip : UInt32
  streamnamerx : List UInt8
  nboutputs : Nat
  offset : Nat
  samplerate : Nat
  ringbuffer : Ringbuffer
  resampler : Option R
  resamplerInBufLen : Nat
  resamplerInBuf : List CFloat
  resamplerOutBufLen : Nat
  resamplerOutBuf : List CFloat
  rxNuFrame : UInt32
  receiving : Bool

/-- `std::vector<float>::resize`. -/
def vectorResize (xs : List CFloat) (n : Nat) : List CFloat := (xs ++ List.replicate n 0).take n

variable {R : Type}

/-- Formats other than 16 and 24 bits leave the destination as it is. -/
def convertVbanToFloat (env : RxEnv R) (data : List UInt8) (src n : Nat) (format : UInt8) :
    Except Fault (List CFloat) :=
  if n = 0 then .ok []
  else if format = vbanBitfmt16Int then
    convertSamples data src 2 n fun s => env.div (env.ofInt (intOfBytes s)) (env.ofInt 32768)
  else if format = vbanBitfmt24Int then
    convertSamples data src 3 n fun s => env.div (env.ofInt (intOfBytes s)) (env.ofInt 8388608)
  else .ok []

/-- One frame of the conversion loop: floats are copied, the rest is converted. -/
def netFrame (env : RxEnv R) (data : List UInt8) (src n : Nat) (format : UInt8) :
    Except Fault (List CFloat) :=
  if format = vbanBitfmt32Float then convertSamples data src 4 n floatOfBytes
  else convertVbanToFloat env data src n format

namespace NetThread

/-- The resampler buffers follow the sample count, and the rate is looked up only then. -/
def resizeBuffers (env : NetEnv R) (t : NetThread R) (p : VBanPacket) :
    Except Fault (NetThread R) :=
  let n := p.header.formatNbs.toNat + 1
  if t.resamplerInBufLen < n then do
    let sr ← srList (p.header.formatSR &&& vbanSrMask)
    let outLen := env.outLen n t.samplerate sr
    return { t with
      resamplerInBufLen := n
      resamplerInBuf := vectorResize t.resamplerInBuf (n * t.nboutputs)
      resamplerOutBufLen := outLen
      resamplerOutBuf := vectorResize t.resamplerOutBuf (outLen * t.nboutputs) }
  else if t.resamplerInBufLen > n then do
    let sr ← srList (p.header.formatSR &&& vbanSrMask)
    return { t with
      resamplerInBufLen := n
      resamplerOutBufLen := env.outLen n t.samplerate sr }
  else .ok t

def convertFrames (env : NetEnv R) (t : NetThread R) (p : VBanPacket) :
    Except Fault (List CFloat) := do
  let size ← bitResolutionSize p.header.formatBit
  let nboutputsIn := p.header.formatNbc.toNat + 1
  let pacFrameSize := size * nboutputsIn
  let nbcMin := min nboutputsIn t.nboutputs
  let offsetSize := if t.offset > nboutputsIn then 0 else size * t.offset
  (List.range (p.header.formatNbs.toNat + 1)).foldlM (fun inbuf frame => do
    let samples ← netFrame env.toRxEnv p.data (frame * pacFrameSize + offsetSize) nbcMin
      p.header.formatBit
    return overwrite inbuf (frame * t.nboutputs) samples) t.resamplerInBuf

def enqueue (env : NetEnv R) (t : NetThread R) (p : VBanPacket) : Except Fault (NetThread R) := do
  let t ← t.resizeBuffers env p
  let inbuf ← t.convertFrames env p
  match t.resampler with
  | none => .error .nullPointer
  | some resampler =>
    let out := env.process resampler inbuf t.resamplerInBufLen t.resamplerOutBufLen
    let outbuf := overwrite t.resamplerOutBuf 0 out.written
    let frames :=
      enqueuedFrames outbuf t.nboutputs t.nboutputs (t.resamplerOutBufLen - out.outCount)
    return { t with
      resampler := some out.resampler
      resamplerInBuf := inbuf
      resamplerOutBuf := outbuf
      ringbuffer :=
        frames.foldl (fun rb frame => enqueueFrame rb frame (t.nboutputs * 4)) t.ringbuffer
      rxNuFrame := p.header.nuFrame }

def createStream (env : NetEnv R) (t : NetThread R) (p : VBanPacket) (fromIp : UInt32) :
    Except Fault (NetThread R) := do
  let sr ← srList (p.header.formatSR &&& vbanSrMask)
  match env.setup t.samplerate sr t.nboutputs with
  | none => .error .exit
  | some resampler =>
    return { t with
      resampler := some resampler
      rxip := fromIp
      rxNuFrame := p.header.nuFrame
      receiving := true }

/-- `strcmp(rxPacket.header.streamname, streamnamerx.data()) == 0`. -/
def Named (t : NetThread R) (p : VBanPacket) : Prop := p.streamnameString = cString t.streamnamerx

instance {t : NetThread R} {p : VBanPacket} : Decidable (t.Named p) :=
  inferInstanceAs (Decidable (_ = _))

/-- The packet of the turn, in a buffer that starts zeroed. -/
def packetOf (bytes : List UInt8) : VBanPacket :=
  VBanPacket.zero.store 0 vbanProtocolMaxSize VBanPacket.whole_le bytes

/-- One datagram. `fromIp` is arbitrary when the datagram is shorter than a header. -/
def receive (env : NetEnv R) (t : NetThread R) (bytes : List UInt8) (fromIp : UInt32) :
    Except Fault (NetThread R) :=
  let p := packetOf bytes
  if bytes ≠ [] ∧ p.header.vban = vbanHeaderFourc ∧ p.protocol = vbanProtocolAudio then
    if t.rxip = fromIp ∧ t.Named p ∧ t.rxNuFrame ≠ p.header.nuFrame then t.enqueue env p
    else if t.nboutputs ≠ 0 ∧ t.rxip = 0 ∧ t.Named p then t.createStream env p fromIp
    else .ok t
  else .ok t

end NetThread

end Vban
