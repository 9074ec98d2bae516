import Vban.Library.Run
import Vban.Receive.HandlePacket

/-! `rxThread`: one turn of its loop for each datagram or pipe read. -/
namespace Vban

open Library

/-- The thread's packet buffer is never initialised and is cleared only after a handled packet. -/
structure RxThread (R : Type) where
  context : VbanRxContext R
  packet : VBanPacket
  /-- `rxsock->c_addr`: the last sender's address and port. -/
  cAddr : UInt32 × UInt16

/-- What the system calls of one turn deliver. -/
inductive RxInput
  /-- `recvmsg` returned. It left the sender's address out when its control data was truncated. -/
  | datagram (bytes : List UInt8) (addr : Option (UInt32 × UInt16)) (ts : Timespec)
      (taken : List Nat)
  /-- `recvmsg` failed. -/
  | recvError (taken : List Nat)
  /-- The results of the reads of the header and of the data. -/
  | pipe (header data : List UInt8) (ts : Timespec)

/-- Which mode an input belongs to. -/
def RxInput.Udp : RxInput → Prop
  | .pipe .. => False
  | _ => True

def htons (port : UInt16) : UInt16 := (port <<< 8) ||| (port >>> 8)

theorem toNat_htons (port : UInt16) :
    (htons port).toNat = port.toNat % 256 * 256 + port.toNat / 256 := by
  have hport := port.toNat_lt
  have hlow : port.toNat <<< 8 % 2 ^ 16 = (port.toNat % 256) <<< 8 := by
    rw [Nat.shiftLeft_eq, Nat.shiftLeft_eq]
    omega
  have hhigh : port.toNat >>> 8 < 2 ^ 8 := by
    rw [Nat.shiftRight_eq_div_pow]
    omega
  change (port.toNat <<< 8 % 2 ^ 16) ||| port.toNat >>> 8 = _
  rw [hlow, ← Nat.shiftLeft_add_eq_or_of_lt hhigh, Nat.shiftLeft_eq, Nat.shiftRight_eq_div_pow]

variable {R : Type}

/-- Handle the packet and clear it. -/
def handleAndClear (env : RxEnv R) (s : RxThread R) (packetlen : Int) (ipIn : UInt32)
    (taken : List Nat) : Except Fault (RxThread R) := do
  let r ← vbanRxHandlePacket env s.packet packetlen s.context ipIn s.context.ansport taken
  return { s with context := r.context, packet := .zero }

/-- The binding cascade for audio and serial packets. Only a full match handles the packet. -/
def bindOrHandle (env : RxEnv R) (s : RxThread R) (packetlen : Int) (ipIn : UInt32)
    (taken : List Nat) : Except Fault (RxThread R) :=
  let c := s.context
  let name := s.packet.header.streamname
  if c.iprx = ipIn ∧ c.rxStreamname = name then handleAndClear env s packetlen ipIn taken
  else if c.iprx = 0 ∧ c.rxStreamname.Empty then
    .ok { s with context := { c with iprx := ipIn, rxStreamname := .strncpy name.bytes } }
  else if c.iprx = ipIn ∧ c.rxStreamname.Empty then
    .ok { s with context := { c with rxStreamname := .strncpy name.bytes } }
  else if c.iprx = 0 ∧ c.rxStreamname = name then
    .ok { s with context := { c with iprx := ipIn } }
  else .ok s

def RxThread.setAnsport (s : RxThread R) : RxThread R :=
  { s with context := { s.context with ansport := htons s.cAddr.2 } }

/-- The rest of a turn in UDP mode, with the received bytes already in the buffer. -/
def dispatchUdp (env : RxEnv R) (s : RxThread R) (packetlen : Int) (taken : List Nat) :
    Except Fault (RxThread R) :=
  let s := s.setAnsport
  if s.packet.protocol = vbanProtocolAudio ∨ s.packet.protocol = vbanProtocolSerial then
    bindOrHandle env s packetlen s.cAddr.1 taken
  else handleAndClear env s packetlen s.cAddr.1 taken

/-- The length a pipe packet declares. -/
def VBanPacket.datalen (p : VBanPacket) : Nat :=
  vbanBitResolutionSize.getD (p.header.formatBit &&& vbanBitResolutionMask).toNat 0 *
    (p.header.formatNbc.toNat + 1) * (p.header.formatNbs.toNat + 1)

theorem VBanPacket.datalen_eq {p : VBanPacket} {h : VBanHeader} (hp : p.header = h) :
    p.datalen = h.datalen := by
  rw [← hp]
  rfl

/-- A receptor without a stream name takes the packet's. -/
def RxThread.bindName (s : RxThread R) : RxThread R :=
  let c := s.context
  let name := if c.rxStreamname.Empty then .strncpy s.packet.header.streamname.bytes
    else c.rxStreamname
  { s with context := { c with rxStreamname := name } }

/-- `packetlen` after the read of the data: it grows only when all of the data arrived. -/
def VBanPacket.lengthWithData (p : VBanPacket) (packetlen : Nat) (data : List UInt8) : Nat :=
  if (data.take p.datalen).length = p.datalen then packetlen + p.datalen else packetlen

/-- The read of the data of an audio or text packet. Returns the thread and `packetlen`. -/
def readData (s : RxThread R) (packetlen : Nat) (data : List UInt8) :
    Except Fault (RxThread R × Nat) :=
  if s.packet.protocol = vbanProtocolAudio ∨ s.packet.protocol = vbanProtocolTxt then
    let datalen := s.packet.datalen
    if h : vbanHeaderSize + datalen ≤ vbanProtocolMaxSize then
      let t := { s with packet := s.packet.store vbanHeaderSize datalen h data }
      .ok (t.bindName, s.packet.lengthWithData packetlen data)
    else .error (.readLength datalen)
  else .ok (s, packetlen)

/-- The thread once a datagram is in its buffer. -/
def RxThread.received (s : RxThread R) (bytes : List UInt8) (addr : Option (UInt32 × UInt16))
    (ts : Timespec) : RxThread R :=
  { packet := s.packet.store 0 vbanProtocolMaxSize VBanPacket.whole_le bytes
    cAddr := addr.getD s.cAddr
    context := { s.context with inputTs := ts } }

/-- The thread once a header is in its buffer. -/
def RxThread.headerRead (s : RxThread R) (header : List UInt8) (ts : Timespec) : RxThread R :=
  { s with
    packet := s.packet.store 0 vbanHeaderSize (by decide) header
    context := { s.context with inputTs := ts } }

/-- One turn of the loop. -/
def RxThread.receive (env : RxEnv R) (s : RxThread R) : RxInput → Except Fault (RxThread R)
  | .datagram bytes addr ts taken =>
    dispatchUdp env (s.received bytes addr ts) (bytes.take vbanProtocolMaxSize).length taken
  | .recvError taken => dispatchUdp env s (-1) taken
  | .pipe header data ts => do
    let (s, packetlen) ← readData (s.headerRead header ts) (header.take vbanHeaderSize).length data
    if vbanHeaderSize ≤ packetlen ∧ s.packet.header.vban = vbanHeaderFourc then
      handleAndClear env s packetlen 0 []
    else return s

/-- The thread at its start, whatever the options were and whatever its packet buffer holds. -/
structure RxThread.Initial (s : RxThread R) : Prop where
  ringbuffer_eq : s.context.ringbuffer = none
  ringbufferMidi_eq : s.context.ringbufferMidi = none
  samplerateResampler_eq : s.context.samplerateResampler = 0
  nuFrame_eq : s.context.nuFrame = 0
  resampler_eq : s.context.resampler = none
  resamplerInbuflen_eq : s.context.resamplerInbuflen = 0

/-- What the main thread and the audio callback may do to the context between two turns: they
open the stream only at a known rate and never close it. -/
structure OtherThreads (c c' : VbanRxContext R) : Prop where
  rxStreamname_eq : c'.rxStreamname = c.rxStreamname
  iprx_eq : c'.iprx = c.iprx
  rxport_eq : c'.rxport = c.rxport
  nuFrame_eq : c'.nuFrame = c.nuFrame
  samplerateResampler_eq : c'.samplerateResampler = c.samplerateResampler
  kept : c'.ringbuffer = none → c.ringbuffer = none
  opened : c.ringbuffer = none → c'.ringbuffer ≠ none → c.samplerateResampler ≠ 0

/-- A turn of the thread with its input, or a step of the others. -/
inductive RxThreadStep (env : RxEnv R) : RxThread R → Option RxInput → RxThread R → Prop
  | receive {s t : RxThread R} {i : RxInput} (hmode : i.Udp ↔ s.context.rxport ≠ 0)
      (h : s.receive env i = .ok t) : RxThreadStep env s (some i) t
  | other {s : RxThread R} {c : VbanRxContext R} (h : OtherThreads s.context c) :
      RxThreadStep env s none { s with context := c }

end Vban
