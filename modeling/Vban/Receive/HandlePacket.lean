import Vban.Receive.Context

/-! `vban_rx_handle_packet`. What it prints and the conditions it signals are left out. -/
namespace Vban

open Library

structure RxResult (R : Type) where
  ret : Nat
  context : VbanRxContext R
  /-- What the enqueue loop offered to the ring, in order. -/
  frames : List (List UInt8)
  /-- The address and port an information request is answered to. -/
  reply : Option (UInt32 × UInt16)

variable {R : Type}

/-- An audio packet of the bound stream that is not a repetition. -/
def VbanRxContext.Accepts (c : VbanRxContext R) (p : VBanPacket) (ipIn : UInt32) : Prop :=
  StreamName.Strncmp p.header.streamname c.rxStreamname ∧ p.header.nuFrame ≠ c.nuFrame ∧
    c.iprx = ipIn

instance {c : VbanRxContext R} {p : VBanPacket} {ipIn : UInt32} :
    Decidable (c.Accepts p ipIn) := inferInstanceAs (Decidable (_ ∧ _))

/-- The resampler buffers are replaced only when the packet has more samples than they hold. -/
def resizeResamplerBuffers (c : VbanRxContext R) (nbs : Nat) : Except Fault (VbanRxContext R) :=
  if c.samplerateResampler = 0 then .error .divisionByZero
  else
    let inbuflen : Int := nbs + 1
    let outbuflen := (inbuflen * c.samplerate).tdiv c.samplerateResampler + 1
    if c.resamplerInbuflen < inbuflen then
      .ok { c with
        resamplerInbuflen := inbuflen
        resamplerInbuf := List.replicate ((nbs + 1) * c.nboutputs) 0
        resamplerOutbuflen := outbuflen
        resamplerOutbuf := List.replicate (outbuflen.toNat * c.nboutputs) 0 }
    else .ok { c with resamplerInbuflen := inbuflen, resamplerOutbuflen := outbuflen }

/-- The conversion loop over the frames of a packet. -/
def convertFrames (env : RxEnv R) (p : VBanPacket) (framesize nbc nboutputs : Nat)
    (inbuf : List CFloat) : Except Fault (List CFloat) :=
  (List.range (p.header.formatNbs.toNat + 1)).foldlM (fun inbuf iframe => do
    let samples ← vbanSampleConvert env p.data (iframe * framesize) p.header.formatBit nbc
    return overwrite inbuf (iframe * nboutputs) samples) inbuf

/-- The memory the enqueue loop copies from: `nboutputs` floats at every `nbc`-th one. -/
def enqueuedFrames (outbuf : List CFloat) (nbc nboutputs n : Nat) : List (List UInt8) :=
  (List.range n).map fun frame => floatsBytes (bytesAt outbuf (frame * nbc) nboutputs)

structure ResampledAudio (R : Type) where
  context : VbanRxContext R
  framesize : Nat
  frames : List (List UInt8)

/-- Decode, resample and enqueue the audio of an accepted packet. -/
def enqueueAudio (env : RxEnv R) (c : VbanRxContext R) (p : VBanPacket)
    (ringbuffer : Ringbuffer) : Except Fault (ResampledAudio R) := do
  let channels := p.header.formatNbc.toNat + 1
  let nbc := if channels < c.nboutputs then channels else c.nboutputs
  let size ← bitResolutionSize p.header.formatBit
  let framesize := channels * size
  let outframesize := c.nboutputs * 4
  let c ← resizeResamplerBuffers c p.header.formatNbs.toNat
  let inbuf ← convertFrames env p framesize nbc c.nboutputs c.resamplerInbuf
  match c.resampler with
  | none => .error .nullPointer
  | some resampler =>
    -- `inp_count` and `out_count` are unsigned
    let out := env.process resampler inbuf (c.resamplerInbuflen % 2 ^ 32).toNat
      (c.resamplerOutbuflen % 2 ^ 32).toNat
    let outbuf := overwrite c.resamplerOutbuf 0 out.written
    let frames := enqueuedFrames outbuf nbc c.nboutputs
      ((c.resamplerOutbuflen - out.outCount) % 2 ^ 32).toNat
    let ringbuffer := frames.foldl (fun rb frame => enqueueFrame rb frame outframesize) ringbuffer
    return {
      context := { c with
        resampler := some out.resampler
        resamplerInbuf := inbuf
        resamplerOutbuf := outbuf
        ringbuffer := some ringbuffer }
      framesize := framesize
      frames := frames }

/-- The fill level estimate of `CORRECTION_ON`. -/
def correctFill (a : ResampledAudio R) (p : VBanPacket) : Except Fault (VbanRxContext R) :=
  if a.context.flags &&& correctionOn = 0 then .ok a.context
  else
    let (srerr, c) := calcInputSamplerate a.context p
    match c.ringbuffer with
    | some ringbuffer =>
      if c.cframes > c.nframes ∧ srerr = 0 then
        if a.framesize = 0 then .error .divisionByZero
        else
          let fill : Int := ringbufferReadSpace ringbuffer / a.framesize
          .ok { c with
            rbfill := Int.bmod (fill + c.cframes - a.frames.length) (2 ^ 32) }
      else .ok c
    | none => .ok c

/-- Before the stream is open a packet only tells the main loop its format. -/
def announceFormat (c : VbanRxContext R) (p : VBanPacket) (sr : Nat) : VbanRxContext R :=
  { c with
    nboutputs := if c.nboutputs = 0 then p.header.formatNbc.toNat + 1 else c.nboutputs
    samplerateResampler := sr }

def handleAudio (env : RxEnv R) (c : VbanRxContext R) (p : VBanPacket) (ipIn : UInt32) :
    Except Fault (RxResult R) :=
  match c.ringbuffer with
  | none => do
    let sr ← srList p.header.formatSR
    return ⟨1, announceFormat c p sr, [], none⟩
  | some ringbuffer =>
    if c.Accepts p ipIn then do
      let a ← enqueueAudio env c p ringbuffer
      let c ← correctFill a p
      return ⟨0, { c with nuFrame := p.header.nuFrame }, a.frames, none⟩
    else .ok ⟨0, c, [], none⟩

/-- The MIDI loop. Each turn first sees how much the reader has taken since the last one. -/
def midiLoop (p : VBanPacket) (packetlen : Int) :
    List Nat → Nat → Ringbuffer → Except Fault Ringbuffer
  | taken, eventptr, ringbuffer =>
    if ((eventptr + vbanHeaderSize : Nat) : Int) < packetlen then
      match taken with
      | [] => .error .stalled
      | n :: taken =>
        let ringbuffer := ringbufferReadAdvance ringbuffer (min n (ringbufferReadSpace ringbuffer))
        if ringbufferWriteSpace ringbuffer ≥ 3 then
          if eventptr + 3 ≤ vbanDataMaxSize then
            midiLoop p packetlen taken (eventptr + 3)
              (ringbufferWrite ringbuffer (bytesAt p.data eventptr 3) 3).2
          else .error (.midiPayload (eventptr + 3))
        else midiLoop p packetlen taken eventptr ringbuffer
    else .ok ringbuffer

/-- The characters of `"MIDI1"`. -/
def midi1 : List UInt8 := [0x4D, 0x49, 0x44, 0x49, 0x31]

def handleSerial (c : VbanRxContext R) (p : VBanPacket) (packetlen : Int) (taken : List Nat) :
    Except Fault (RxResult R) :=
  if p.header.vban = vbanHeaderFourc ∧ p.header.formatSR = 0x2E ∧
      (p.streamnameString = c.rxStreamnameString ∨ p.streamnameString = midi1) then
    match c.ringbufferMidi with
    | some ringbuffer => do
      let ringbuffer ← midiLoop p packetlen taken 0 ringbuffer
      return ⟨0, { c with ringbufferMidi := some ringbuffer }, [], none⟩
    | none => .ok ⟨0, c, [], none⟩
  else .ok ⟨0, c, [], none⟩

/-- `context->command` is null in every receptor, so only information requests are answered. -/
def handleTxt (c : VbanRxContext R) (p : VBanPacket) (packetlen : Int) (ipIn : UInt32)
    (portIn : UInt16) : RxResult R :=
  let name := p.header.streamname.bytes.take 4
  let info := name = [0x69, 0x6E, 0x66, 0x6F] ∨ name = [0x49, 0x4E, 0x46, 0x4F]
  ⟨0, c, [],
    if info ∧ packetlen - vbanHeaderSize ≤ 5 ∧ ipIn ≠ c.iplocal then some (ipIn, portIn) else none⟩

/-- The protocol bits of a packet. -/
def VBanPacket.protocol (p : VBanPacket) : UInt8 := p.header.formatSR &&& vbanProtocolMask

def vbanRxHandlePacket (env : RxEnv R) (p : VBanPacket) (packetlen : Int) (c : VbanRxContext R)
    (ipIn : UInt32) (portIn : UInt16) (taken : List Nat) : Except Fault (RxResult R) :=
  if p.protocol = vbanProtocolAudio then handleAudio env c p ipIn
  else if p.protocol = vbanProtocolSerial then handleSerial c p packetlen taken
  else if p.protocol = vbanProtocolTxt then .ok (handleTxt c p packetlen ipIn portIn)
  else .ok ⟨0, c, [], none⟩

end Vban
