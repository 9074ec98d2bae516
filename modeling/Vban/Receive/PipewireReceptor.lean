import Vban.Discovery.ReceptorInfo
import Vban.Emit.Emitter
import Vban.Receive.Handed
import Vban.Receive.ThreadBounds

/-! The rings of the PipeWire receptor: its options, its network thread and its process callback. -/
namespace Vban

open Library

/-- The options of `get_receptor_options`, each with its argument as `atoi` or `inet_addr` reads
it. -/
inductive PwReceptorOption
  /-- `-m`, `-d` and `-e`: a flag is set or cleared. -/
  | flag (mask : UInt16) (on : Bool)
  /-- The length of the argument, and its address. -/
  | ipaddr (length : Nat) (addr : UInt32)
  | port (n : Int)
  | streamname (name : StreamName)
  | samplerate (n : Int)
  | bufsize (n : Int)
  | nbchannels (n : Int)
  | redundancy (n : Int)
  /-- `-h`, and `-b`, which falls through to it -/
  | help
  /-- Any other option. -/
  | other

/-- The network thread with its context, and the field of the context that only the ring uses. -/
structure PwReceptor (R : Type) where
  thread : RxThread R
  redundancy : Nat

variable {R : Type}

namespace PwReceptor

abbrev context (s : PwReceptor R) : VbanRxContext R := s.thread.context

def setContext (c : VbanRxContext R) (s : PwReceptor R) : PwReceptor R :=
  { s with thread := { s.thread with context := c } }

@[simp] theorem context_setContext (c : VbanRxContext R) (s : PwReceptor R) :
    (s.setContext c).context = c := rfl

@[simp] theorem setContext_setContext (c d : VbanRxContext R) (s : PwReceptor R) :
    (s.setContext d).setContext c = s.setContext c := rfl

@[simp] theorem redundancy_setContext (c : VbanRxContext R) (s : PwReceptor R) :
    (s.setContext c).redundancy = s.redundancy := rfl

/-- The bytes of a frame in the ring. -/
def stride (s : PwReceptor R) : Nat := s.context.nboutputs * 4

end PwReceptor

/-- What one option does. `none` ends the program. -/
def PwReceptorOption.apply (s : PwReceptor R) : PwReceptorOption → Option (PwReceptor R)
  | flag mask on => some (s.setContext { s.context with
      flags := if on then s.context.flags ||| mask else s.context.flags &&& ~~~mask })
  | ipaddr length addr =>
    if s.context.rxport = 0 then some (s.setContext { s.context with iprx := 0 })
    else if 15 < length then none
    else some (s.setContext { s.context with iprx := addr })
  | port n => some (s.setContext { s.context with rxport := UInt16.ofInt n })
  | streamname name => some (s.setContext { s.context with rxStreamname := name })
  | samplerate n => some (s.setContext { s.context with samplerate := n })
  | bufsize n => some (s.setContext { s.context with nframes := uintOfInt 16 n })
  | nbchannels n => some (s.setContext { s.context with nboutputs := uintOfInt 16 n })
  | redundancy n => some { s with redundancy := uintOfInt 8 n }
  | help => none
  | other => some s

/-- `main` up to its threads. The packet and the address of the network thread are what is in their
memory. Without any option the help is shown. -/
def pwReceptorMain (packet : VBanPacket) (cAddr : UInt32 × UInt16)
    (opts : List PwReceptorOption) : Option (PwReceptor R) :=
  if opts.isEmpty then none
  else opts.foldlM PwReceptorOption.apply ⟨⟨.start (.strncpy []) 0 0, packet, cAddr⟩, 0⟩

/-- A buffer of PipeWire. -/
structure PwRxBuffer where
  mapped : Bool
  maxsize : Nat
  requested : Nat

/-- `n_frames` -/
def PwRxBuffer.frames (stride : Nat) (b : PwRxBuffer) : Int :=
  let frames : Int := b.maxsize / stride
  if b.requested ≠ 0 then min (intOfSize b.requested) frames else frames

/-- `ringbuffer_read_space` with its modulo. -/
def readSpaceOrFault (rb : Ringbuffer) : Except Fault Nat :=
  if rb.writePtr ≤ rb.readPtr ∧ rb.size = 0 then .error .divisionByZero
  else .ok (ringbufferReadSpace rb)

/-- What `read_from_ringbuffer_async` takes from the ring in a period: a frame or none at each
turn. -/
def readSlots (nboutputs : Nat) :
    Nat → Ringbuffer → Except Fault (List (Option (List UInt8)) × Ringbuffer)
  | 0, rb => .ok ([], rb)
  | n + 1, rb => do
    let space ← readSpaceOrFault rb
    if space < nboutputs * 4 then
      let (slots, rb) ← readSlots nboutputs n rb
      return (none :: slots, rb)
    else
      let (_, frame, rb) :=
        vbanReadFrameFromRingbuffer (List.replicate (nboutputs * 4) 0) rb nboutputs
      let (slots, rb) ← readSlots nboutputs n rb
      return (some frame :: slots, rb)

namespace PwReceptor

/-- `vban_compute_rx_ringbuffer` for a period. `vban_nframes_pac` is 0: only emitters set it.
A negative size is too much for `malloc`, and the `memset` goes to a null pointer. -/
def computeRxRingbuffer (nframes : Nat) (s : PwReceptor R) : Except Fault (PwReceptor R) :=
  if intOfSize (sizeMul (2 * nframes * s.context.nboutputs * (s.redundancy + 1)) 4) < 0 then
    .error .nullPointer
  else .ok (s.setContext { s.context with
    ringbuffer :=
      some (vbanComputeRxRingbuffer nframes 0 s.context.nboutputs s.redundancy) })

/-- What `main` waits for. -/
def Ready (s : PwReceptor R) : Prop :=
  ¬s.context.rxStreamname.Empty ∧ s.context.nboutputs ≠ 0 ∧ s.context.samplerateResampler ≠ 0

/-- `main` after the wait: the resampler, as it is after its first `process()`, and the ring. -/
def openStream (resampler : R) (s : PwReceptor R) : Except Fault (PwReceptor R) :=
  (s.setContext { s.context with resampler := some resampler }).computeRxRingbuffer
    s.context.nframes

/-- `correct_samplerate`. `setRratio` is what the new ratio does to the resampler. -/
def correctSamplerate (setRratio : R → R) (s : PwReceptor R) : Except Fault (PwReceptor R) :=
  match s.context.ringbuffer, s.context.resampler with
  | some rb, some resampler =>
    if s.context.cframes ≤ s.context.nframes then do
      let space ← readSpaceOrFault rb
      return s.setContext { s.context with
        rbfill := intOfSize (space / s.stride)
        resampler := some (setRratio resampler) }
    else .ok (s.setContext { s.context with resampler := some (setRratio resampler) })
  | _, _ => .error .nullPointer

def setNframes (nframes : Int) (s : PwReceptor R) : PwReceptor R :=
  s.setContext { s.context with nframes := uintOfInt 16 nframes }

/-- The part of `on_rx_process` for a changed period. A negative period is less than
`vban_nframes_pac`. -/
def changePeriod (nframes : Int) (s : PwReceptor R) : Except Fault (PwReceptor R) :=
  if nframes ≠ s.context.nframes ∨ s.context.ringbuffer = none then
    (s.setNframes nframes).computeRxRingbuffer nframes.toNat
  else .ok s

/-- What a period takes from the ring. What `rxbuf` and the buffer of PipeWire get of it is left
to `Playback.readFromRingbufferAsync`. -/
def readPeriod (s : PwReceptor R) :
    Except Fault (List (Option (List UInt8)) × PwReceptor R) :=
  match s.context.ringbuffer with
  | some rb => do
    let (slots, rb) ← readSlots s.context.nboutputs s.context.nframes rb
    return (slots, s.setContext { s.context with ringbuffer := some rb })
  | none => .error .nullPointer

/-- What `on_rx_process` does with the buffer that it dequeued. -/
def fillBuffer : Option PwRxBuffer → PwReceptor R →
    Except Fault (List (Option (List UInt8)) × PwReceptor R)
  | none, s => .ok ([], s)
  | some b, s =>
    if b.mapped then do
      let s ← s.changePeriod (b.frames s.stride)
      s.readPeriod
    else .ok ([], s)

def correctIfOn (setRratio : R → R) (s : PwReceptor R) : Except Fault (PwReceptor R) :=
  if s.context.flags &&& correctionOn = 0 then .ok s else s.correctSamplerate setRratio

def onRxProcess (setRratio : R → R) (buffer : Option PwRxBuffer) (s : PwReceptor R) :
    Except Fault (List (Option (List UInt8)) × PwReceptor R) :=
  if s.stride = 0 then .ok ([], s)
  else do
    let s ← s.correctIfOn setRratio
    s.fillBuffer buffer

/-- One stream, whose packets this process handles itself. -/
def SingleStream (s : PwReceptor R) : Prop := s.context.flags &&& Discovery.multistream = 0

end PwReceptor

inductive PwRxEvent (R : Type)
  | receive (i : RxInput)
  | openStream (resampler : R)
  | process (setRratio : R → R) (buffer : Option PwRxBuffer)

/-- A turn of the network thread, the opening of the stream, or a process callback. -/
inductive PwRxStep (env : RxEnv R) : PwReceptor R → PwRxEvent R → PwReceptor R → Prop
  | receive {s : PwReceptor R} {i : RxInput} {t : RxThread R} (hsingle : s.SingleStream)
      (hmode : i.Udp ↔ s.context.rxport ≠ 0) (h : s.thread.receive env i = .ok t) :
      PwRxStep env s (.receive i) { s with thread := t }
  | openStream {s t : PwReceptor R} {resampler : R} (hsingle : s.SingleStream) (hready : s.Ready)
      (hclosed : s.context.ringbuffer = none) (h : s.openStream resampler = .ok t) :
      PwRxStep env s (.openStream resampler) t
  | process {s t : PwReceptor R} {setRratio : R → R} {buffer : Option PwRxBuffer}
      {slots : List (Option (List UInt8))} (hopen : s.context.ringbuffer ≠ none)
      (h : s.onRxProcess setRratio buffer = .ok (slots, t)) :
      PwRxStep env s (.process setRratio buffer) t

namespace PwReceptor

/-- A ring for so many frames is created for at least one, in less than 2 GiB. -/
def RoomFor (s : PwReceptor R) (nframes : Nat) : Prop :=
  0 < nframes ∧ 2 * nframes * s.context.nboutputs * (s.redundancy + 1) * 4 < 2 ^ 31

end PwReceptor

/-- The period for which the step creates a ring, if it creates one. -/
def PwRxEvent.period (s : PwReceptor R) : PwRxEvent R → Option Int
  | receive _ | process _ none => none
  | openStream _ => some s.context.nframes
  | process _ (some b) =>
    if b.mapped ∧ b.frames s.stride ≠ s.context.nframes then some (b.frames s.stride) else none

/-- The step creates no ring, or one for a period that is not empty. -/
def PwRxEvent.LeavesRoom (s : PwReceptor R) (e : PwRxEvent R) : Prop :=
  ∀ nframes, e.period s = some nframes → s.RoomFor nframes.toNat

/-- The ring, if there is one, holds two frames at least. -/
structure VbanRxContext.Roomy (c : VbanRxContext R) : Prop where
  wellFormed : ∀ rb, c.ringbuffer = some rb → rb.WellFormed
  two_frames : ∀ rb, c.ringbuffer = some rb → 2 * (c.nboutputs * 4) ≤ rb.size

variable {env : RxEnv R} {c : VbanRxContext R} {p : VBanPacket} {ip : UInt32} {r : RxResult R}
  {s t : PwReceptor R} {e : PwRxEvent R} {rb rb' : Ringbuffer} {nboutputs n : Nat}
  {slots : List (Option (List UInt8))}

theorem VbanRxContext.Roomy.of_none (h : c.ringbuffer = none) : c.Roomy :=
  ⟨by simp [h], by simp [h]⟩

theorem VbanRxContext.Roomy.of_some (h : c.ringbuffer = some rb) (hwell : rb.WellFormed)
    (hsize : 2 * (c.nboutputs * 4) ≤ rb.size) : c.Roomy := by
  constructor
  · rintro _ hrb
    obtain rfl := Option.some.inj (h.symm.trans hrb)
    exact hwell
  · rintro _ hrb
    obtain rfl := Option.some.inj (h.symm.trans hrb)
    exact hsize

theorem enqueueFrames_keeps (frames : List (List UInt8)) (size : Nat) (h : rb.WellFormed) :
    (enqueueFrames rb frames size).WellFormed ∧ (enqueueFrames rb frames size).size = rb.size := by
  induction frames generalizing rb with
  | nil => exact ⟨h, rfl⟩
  | cons frame frames ih =>
    have hframe : (enqueueFrame rb frame size).WellFormed ∧
        (enqueueFrame rb frame size).size = rb.size := by
      rw [enqueueFrame]
      split_ifs
      · exact ringbufferWrite_keeps frame size h
      · exact ⟨h, rfl⟩
    obtain ⟨hwell, hsize⟩ := ih hframe.1
    exact ⟨hwell, hsize.trans hframe.2⟩

/-- A packet writes to the ring that there is. -/
theorem Handled.roomy (h : Handled env c p ip r) (hc : c.Roomy) : r.context.Roomy := by
  cases h with
  | announced _ hclosed => exact .of_none hclosed
  | @enqueued rb a c' _ hopen ha hf =>
    obtain ⟨hsame, hring⟩ := enqueueAudio_spec ha
    obtain ⟨hsame', hring'⟩ := correctFill_spec hf
    have hnboutputs : c'.nboutputs = c.nboutputs := (hsame.trans hsame').nboutputs_eq
    obtain ⟨hwell, hsize⟩ := enqueueFrames_keeps a.frames (c.nboutputs * 4) (hc.wellFormed rb hopen)
    refine .of_some (hring'.trans hring) hwell ?_
    change 2 * (c'.nboutputs * 4) ≤ _
    rw [hnboutputs, hsize]
    exact hc.two_frames rb hopen
  | midi => exact ⟨hc.wellFormed, hc.two_frames⟩
  | ignored => exact hc

theorem receive_roomy {i : RxInput} {t : RxThread R} (h : s.thread.receive env i = .ok t)
    (hs : s.context.Roomy) : t.context.Roomy := by
  refine receive_invariant ?_ ?_ h hs
  · intro c iprx name port ts hc
    exact ⟨hc.wellFormed, hc.two_frames⟩
  · intro c p n ip port taken r hc hr
    exact (vbanRxHandlePacket_cases hr).roomy hc

/-- Where no MIDI ring is, none is made. -/
theorem receive_ringbufferMidi {i : RxInput} {t : RxThread R}
    (h : s.thread.receive env i = .ok t) (hs : s.context.ringbufferMidi = none) :
    t.context.ringbufferMidi = none := by
  refine receive_invariant (I := fun c => c.ringbufferMidi = none) (fun _ _ _ _ _ hc => hc) ?_ h hs
  intro c p n ip port taken r hc hr
  by_cases haudio : p.protocol = vbanProtocolAudio
  · cases vbanRxHandlePacket_cases hr with
    | announced | ignored => exact hc
    | enqueued _ _ ha hf =>
      exact ((enqueueAudio_spec ha).1.trans (correctFill_spec hf).1).ringbufferMidi_eq.trans hc
    | midi hmidi => exact absurd haudio hmidi
  · rw [vbanRxHandlePacket, if_neg haudio, handleSerial, hc] at hr
    split_ifs at hr
    all_goals
      obtain rfl := Except.ok.inj hr
      exact hc

theorem readFrame_keeps (nboutputs : Nat) {dst : List UInt8} (h : rb.WellFormed) :
    (vbanReadFrameFromRingbuffer dst rb nboutputs).2.2.WellFormed ∧
      (vbanReadFrameFromRingbuffer dst rb nboutputs).2.2.size = rb.size := by
  rw [vbanReadFrameFromRingbuffer_eq]
  split_ifs
  · obtain ⟨-, -, hspec⟩ := ringbufferRead_spec dst (nboutputs * 4) h rfl
    exact ⟨hspec.wellFormed, hspec.size_eq⟩
  · exact ⟨h, rfl⟩

theorem readSlots_keeps (h : rb.WellFormed) (hread : readSlots nboutputs n rb = .ok (slots, rb')) :
    rb'.WellFormed ∧ rb'.size = rb.size := by
  induction n generalizing rb slots with
  | zero =>
    obtain ⟨rfl, rfl⟩ := Prod.mk.inj (Except.ok.inj hread)
    exact ⟨h, rfl⟩
  | succ n ih =>
    obtain ⟨space, -, hread⟩ := bind_eq_ok.mp hread
    split_ifs at hread
    · obtain ⟨⟨slots, rb''⟩, hrest, hread⟩ := bind_eq_ok.mp hread
      obtain ⟨rfl, rfl⟩ := Prod.mk.inj (Except.ok.inj hread)
      exact ih h hrest
    · obtain ⟨⟨slots, rb''⟩, hrest, hread⟩ := bind_eq_ok.mp hread
      obtain ⟨rfl, rfl⟩ := Prod.mk.inj (Except.ok.inj hread)
      obtain ⟨hwell, hsize⟩ := readFrame_keeps nboutputs h
      obtain ⟨hwell', hsize'⟩ := ih hwell hrest
      exact ⟨hwell', hsize'.trans hsize⟩

/-- The ring for a period. -/
theorem computeRxRingbuffer_roomy (h : s.computeRxRingbuffer n = .ok t) (hroom : s.RoomFor n)
    (hnboutputs : s.context.nboutputs ≠ 0) :
    t.context.Roomy ∧ t.context.ringbufferMidi = s.context.ringbufferMidi := by
  obtain ⟨hpos, hfits⟩ := hroom
  have hmax : max n 0 = n := Nat.max_zero n
  have hcreated := @frameRefines_create n 0 s.context.nboutputs s.redundancy (by omega)
    (Nat.one_le_iff_ne_zero.mpr hnboutputs) (by rwa [hmax])
  rw [PwReceptor.computeRxRingbuffer] at h
  split_ifs at h
  obtain rfl := Except.ok.inj h
  refine ⟨.of_some rfl hcreated.wellFormed ?_, rfl⟩
  have hframes : 2 * 1 ≤ 2 * max n 0 * (s.redundancy + 1) := by
    rw [hmax]
    calc 2 * 1 ≤ 2 * n := Nat.mul_le_mul_left 2 hpos
      _ ≤ 2 * n * (s.redundancy + 1) := Nat.le_mul_of_pos_right _ (Nat.succ_pos _)
  rw [hcreated.size_eq, Nat.mul_comm]
  exact Nat.mul_le_mul_left _ hframes

/-- The ring is the same, and one for a period would be. -/
structure SameRing (s t : PwReceptor R) : Prop where
  ringbuffer_eq : t.context.ringbuffer = s.context.ringbuffer
  ringbufferMidi_eq : t.context.ringbufferMidi = s.context.ringbufferMidi
  nboutputs_eq : t.context.nboutputs = s.context.nboutputs
  nframes_eq : t.context.nframes = s.context.nframes
  redundancy_eq : t.redundancy = s.redundancy

theorem SameRing.refl (s : PwReceptor R) : SameRing s s := ⟨rfl, rfl, rfl, rfl, rfl⟩

theorem SameRing.roomy (h : SameRing s t) (hs : s.context.Roomy) : t.context.Roomy := by
  constructor
  · rw [h.ringbuffer_eq]
    exact hs.wellFormed
  · rw [h.ringbuffer_eq, h.nboutputs_eq]
    exact hs.two_frames

theorem PwReceptor.RoomFor.congr (hroom : s.RoomFor n)
    (hnboutputs : t.context.nboutputs = s.context.nboutputs)
    (hredundancy : t.redundancy = s.redundancy) : t.RoomFor n := by
  rwa [RoomFor, hnboutputs, hredundancy]

/-- The correction reads how full the ring is. -/
theorem correctIfOn_same {f : R → R} (h : s.correctIfOn f = .ok t) : SameRing s t := by
  rw [PwReceptor.correctIfOn] at h
  split_ifs at h
  · obtain rfl := Except.ok.inj h
    exact .refl s
  · rw [PwReceptor.correctSamplerate] at h
    split at h
    · split_ifs at h
      · obtain ⟨space, -, h⟩ := bind_eq_ok.mp h
        obtain rfl := Except.ok.inj h
        exact ⟨rfl, rfl, rfl, rfl, rfl⟩
      · obtain rfl := Except.ok.inj h
        exact ⟨rfl, rfl, rfl, rfl, rfl⟩
    · cases h

/-- A period only moves the ring on. -/
theorem PwReceptor.readPeriod_cases (h : s.readPeriod = .ok (slots, t)) :
    ∃ rb rb', s.context.ringbuffer = some rb ∧
      readSlots s.context.nboutputs s.context.nframes rb = .ok (slots, rb') ∧
      t = s.setContext { s.context with ringbuffer := some rb' } := by
  rw [readPeriod] at h
  cases hring : s.context.ringbuffer with
  | none =>
    rw [hring] at h
    cases h
  | some rb =>
    rw [hring] at h
    obtain ⟨⟨slots, rb'⟩, hread, h⟩ := bind_eq_ok.mp h
    obtain ⟨rfl, rfl⟩ := Prod.mk.inj (Except.ok.inj h)
    exact ⟨rb, rb', rfl, hread, rfl⟩

theorem readPeriod_roomy (h : s.readPeriod = .ok (slots, t)) (hs : s.context.Roomy) :
    t.context.Roomy ∧ t.context.ringbufferMidi = s.context.ringbufferMidi := by
  obtain ⟨rb, rb', hring, hread, rfl⟩ := PwReceptor.readPeriod_cases h
  obtain ⟨hwell, hsize⟩ := readSlots_keeps (hs.wellFormed rb hring) hread
  refine ⟨.of_some rfl hwell ?_, rfl⟩
  rw [hsize]
  exact hs.two_frames rb hring

theorem changePeriod_roomy {nframes : Int} (h : s.changePeriod nframes = .ok t)
    (hopen : s.context.ringbuffer ≠ none) (hnboutputs : s.context.nboutputs ≠ 0)
    (hroom : nframes ≠ s.context.nframes → s.RoomFor nframes.toNat) (hs : s.context.Roomy) :
    t.context.Roomy ∧ t.context.ringbufferMidi = s.context.ringbufferMidi := by
  rw [PwReceptor.changePeriod] at h
  split_ifs at h with hchange
  · have hroom' := hroom (hchange.resolve_right hopen)
    obtain ⟨hroomy, hmidi⟩ := computeRxRingbuffer_roomy h (hroom'.congr rfl rfl) hnboutputs
    exact ⟨hroomy, hmidi⟩
  · obtain rfl := Except.ok.inj h
    exact ⟨hs, rfl⟩

theorem fillBuffer_roomy {f : R → R} {buffer : Option PwRxBuffer}
    (h : s.fillBuffer buffer = .ok (slots, t)) (hopen : s.context.ringbuffer ≠ none)
    (hnboutputs : s.context.nboutputs ≠ 0)
    (hroom : (PwRxEvent.process f buffer).LeavesRoom s) (hs : s.context.Roomy) :
    t.context.Roomy ∧ t.context.ringbufferMidi = s.context.ringbufferMidi := by
  cases buffer with
  | none =>
    obtain ⟨rfl, rfl⟩ := Prod.mk.inj (Except.ok.inj h)
    exact ⟨hs, rfl⟩
  | some b =>
    rw [PwReceptor.fillBuffer] at h
    split_ifs at h with hmapped
    · obtain ⟨u, hu, hread⟩ := bind_eq_ok.mp h
      have hchange : b.frames s.stride ≠ s.context.nframes →
          s.RoomFor (b.frames s.stride).toNat :=
        fun hne => hroom _ (if_pos ⟨hmapped, hne⟩)
      obtain ⟨hroomy, hmidi⟩ := changePeriod_roomy hu hopen hnboutputs hchange hs
      obtain ⟨hroomy', hmidi'⟩ := readPeriod_roomy hread hroomy
      exact ⟨hroomy', hmidi'.trans hmidi⟩
    · obtain ⟨rfl, rfl⟩ := Prod.mk.inj (Except.ok.inj h)
      exact ⟨hs, rfl⟩

theorem onRxProcess_roomy {f : R → R} {buffer : Option PwRxBuffer}
    (h : s.onRxProcess f buffer = .ok (slots, t)) (hopen : s.context.ringbuffer ≠ none)
    (hroom : (PwRxEvent.process f buffer).LeavesRoom s) (hs : s.context.Roomy) :
    t.context.Roomy ∧ t.context.ringbufferMidi = s.context.ringbufferMidi := by
  rw [PwReceptor.onRxProcess] at h
  split_ifs at h with hstride
  · obtain ⟨rfl, rfl⟩ := Prod.mk.inj (Except.ok.inj h)
    exact ⟨hs, rfl⟩
  · obtain ⟨u, hu, hfill⟩ := bind_eq_ok.mp h
    have hsame := correctIfOn_same hu
    have hstride' : u.stride = s.stride := congrArg (· * 4) hsame.nboutputs_eq
    have hnboutputs : u.context.nboutputs ≠ 0 := by
      intro hzero
      exact hstride (by rw [← hstride', PwReceptor.stride, hzero])
    have hperiod : (PwRxEvent.process f buffer).period u =
        (PwRxEvent.process f buffer).period s := by
      cases buffer with
      | none => rfl
      | some b => rw [PwRxEvent.period, PwRxEvent.period, hstride', hsame.nframes_eq]
    have hroom' : (PwRxEvent.process f buffer).LeavesRoom u := by
      intro nframes hnframes
      rw [hperiod] at hnframes
      exact (hroom nframes hnframes).congr hsame.nboutputs_eq hsame.redundancy_eq
    obtain ⟨hroomy, hmidi⟩ :=
      fillBuffer_roomy hfill (hsame.ringbuffer_eq ▸ hopen) hnboutputs hroom' (hsame.roomy hs)
    exact ⟨hroomy, hmidi.trans hsame.ringbufferMidi_eq⟩

/-- A step that leaves room keeps what the rings hold. -/
theorem PwRxStep.roomy (h : PwRxStep env s e t) (hroom : e.LeavesRoom s)
    (hs : s.context.Roomy ∧ s.context.ringbufferMidi = none) :
    t.context.Roomy ∧ t.context.ringbufferMidi = none := by
  obtain ⟨hroomy, hmidi⟩ := hs
  cases h with
  | receive _ _ hreceive =>
    exact ⟨receive_roomy hreceive hroomy, receive_ringbufferMidi hreceive hmidi⟩
  | openStream _ hready _ hcreate =>
    have hroom' := (hroom _ rfl).congr (t := s.setContext { s.context with resampler := _ }) rfl rfl
    obtain ⟨hroomy', hmidi'⟩ := computeRxRingbuffer_roomy hcreate hroom' hready.2.1
    exact ⟨hroomy', hmidi'.trans hmidi⟩
  | process hopen hprocess =>
    obtain ⟨hroomy', hmidi'⟩ := onRxProcess_roomy hprocess hopen hroom hroomy
    exact ⟨hroomy', hmidi'.trans hmidi⟩

/-- The options create no ring. -/
theorem pwReceptorMain_closed {packet : VBanPacket} {cAddr : UInt32 × UInt16}
    {opts : List PwReceptorOption} (h : pwReceptorMain packet cAddr opts = some s) :
    s.context.ringbuffer = none ∧ s.context.ringbufferMidi = none := by
  rw [pwReceptorMain] at h
  split_ifs at h
  refine foldlM_invariant (I := fun s => s.context.ringbuffer = none ∧
    s.context.ringbufferMidi = none) h ?_ ⟨rfl, rfl⟩
  intro s opt t hs happly
  cases opt with
  | ipaddr length addr =>
    rw [PwReceptorOption.apply] at happly
    split_ifs at happly
    all_goals
      obtain rfl := Option.some.inj happly
      exact hs
  | help => cases happly
  | _ =>
    obtain rfl := Option.some.inj happly
    exact hs

/-- Every ring that there is holds two frames, and the operations on it compute modulo its size and
find less room than its size. -/
def PwReceptor.RingsHold (s : PwReceptor R) : Prop :=
  ∀ rb, s.context.ringbuffer = some rb ∨ s.context.ringbufferMidi = some rb →
    2 * s.stride ≤ rb.size ∧ 0 < rb.size ∧ ringbufferWriteSpace rb < rb.size

/-- While no ring is created for an empty period, every ring holds two frames. A step calls
`ringbuffer_write` and `ringbuffer_read` on the ring before it or on the one that it creates. -/
theorem pw_rings_hold {packet : VBanPacket} {cAddr : UInt32 × UInt16}
    {opts : List PwReceptorOption} {es : List (PwRxEvent R)}
    (hmain : pwReceptorMain packet cAddr opts = some s)
    (hrun : Run (fun s e t => PwRxStep env s e t ∧ e.LeavesRoom s) s es t) : t.RingsHold := by
  obtain ⟨hclosed, hmidi⟩ := pwReceptorMain_closed hmain
  obtain ⟨hroomy, hmidi'⟩ := hrun.invariant
    (I := fun s => s.context.Roomy ∧ s.context.ringbufferMidi = none)
    (fun _ _ _ hs h => h.1.roomy h.2 hs) ⟨.of_none hclosed, hmidi⟩
  intro rb hrb
  rw [hmidi'] at hrb
  have hring := hrb.resolve_right (by simp)
  have hwell := hroomy.wellFormed rb hring
  exact ⟨hroomy.two_frames rb hring, hwell.size_pos, hwell.writeSpace_lt⟩

/-- The first packet of a bound receptor tells its rate, and its channels if no option did. -/
theorem receive_announces (env : RxEnv R) {s : RxThread R} {h : VBanHeader} {sr : Nat}
    (haudio : h.formatSR &&& vbanProtocolMask = vbanProtocolAudio)
    (hip : s.context.iprx = 0x0100007F) (hname : s.context.rxStreamname = h.streamname)
    (hclosed : s.context.ringbuffer = none) (hsr : srList h.formatSR = .ok sr) :
    ∃ t, s.receive env (headerInput h) = .ok t ∧ t.context = { s.context with
      inputTs := ⟨1, 0⟩
      ansport := htons 6980
      nboutputs := if s.context.nboutputs = 0 then h.formatNbc.toNat + 1 else s.context.nboutputs
      samplerateResampler := sr } := by
  set u := (s.received h.toBytes (some (0x0100007F, 6980)) ⟨1, 0⟩).setAnsport with hu
  have hturn : s.receive env (headerInput h) =
      handleAndClear env u (h.toBytes.take vbanProtocolMaxSize).length 0x0100007F [] := by
    have hbound := @receive_bound R s env h [] (0x0100007F, 6980) ⟨1, 0⟩ [] hip hname
    rwa [List.append_nil] at hbound
  have hheader : u.packet.header = h := s.packet.header_store_toBytes h
  have hprotocol : u.packet.protocol = vbanProtocolAudio := by
    rw [VBanPacket.protocol, hheader, haudio]
  have hring : u.context.ringbuffer = none := hclosed
  have hrate : srList u.packet.header.formatSR = .ok sr := by
    rw [hheader, hsr]
  rw [hturn, handleAndClear, vbanRxHandlePacket, if_pos hprotocol, handleAudio, hring]
  simp only [hrate, ok_bind]
  refine ⟨_, rfl, ?_⟩
  simp only [announceFormat, hheader]
  rfl

/-- The options `-p 6980 -i 127.0.0.1 -s A`, and more. -/
def localOptions (opts : List PwReceptorOption) : List PwReceptorOption :=
  [.port 6980, .ipaddr 9 0x0100007F, .streamname (.strncpy [0x41, 0])] ++ opts

theorem openStream_eq (resampler : R)
    (hfits : 0 ≤ intOfSize
      (sizeMul (2 * s.context.nframes * s.context.nboutputs * (s.redundancy + 1)) 4)) :
    s.openStream resampler = .ok (s.setContext { s.context with
      resampler := some resampler
      ringbuffer := some (vbanComputeRxRingbuffer s.context.nframes 0 s.context.nboutputs
        s.redundancy) }) := by
  rw [PwReceptor.openStream, PwReceptor.computeRxRingbuffer]
  split_ifs with hneg
  · exact absurd hfits (Int.not_le.mpr hneg)
  · simp

/-- The receptor of the local options for mono periods, before its first packet. -/
structure PwReceptor.Local (nframes redundancy : Nat) (s : PwReceptor Unit) : Prop where
  context_eq : s.context =
    { VbanRxContext.start (.strncpy [0x41, 0]) 0x0100007F 6980 with nframes }
  redundancy_eq : s.redundancy = redundancy

/-- The same receptor after a mono packet at 48000 Hz. -/
structure PwReceptor.Announced (nframes redundancy : Nat) (s : PwReceptor Unit) : Prop where
  context_eq : s.context =
    { VbanRxContext.start (.strncpy [0x41, 0]) 0x0100007F 6980 with
      nframes
      inputTs := ⟨1, 0⟩
      ansport := htons 6980
      nboutputs := 1
      samplerateResampler := 48000 }
  redundancy_eq : s.redundancy = redundancy

theorem PwReceptor.Local.exists_announced {s : PwReceptor Unit} {nframes redundancy : Nat}
    (hs : s.Local nframes redundancy) :
    ∃ t, PwRxStep silentEnv.toRxEnv s (.receive (headerInput (audioHeader 3 0 0 1 1))) t ∧
      t.Announced nframes redundancy := by
  have hip : s.context.iprx = 0x0100007F := by rw [hs.context_eq]; rfl
  have hname : s.context.rxStreamname = (audioHeader 3 0 0 1 1).streamname := by
    rw [hs.context_eq]
    rfl
  have hport : s.context.rxport ≠ 0 := by
    rw [hs.context_eq]
    exact (by decide : (6980 : UInt16) ≠ 0)
  have hsingle : s.SingleStream := by
    rw [PwReceptor.SingleStream, hs.context_eq]
    exact (by decide : correctionOn &&& Discovery.multistream = 0)
  have hclosed : s.context.ringbuffer = none := by rw [hs.context_eq]; rfl
  obtain ⟨thread, hreceive, hthread⟩ : ∃ t, s.thread.receive silentEnv.toRxEnv
      (headerInput (audioHeader 3 0 0 1 1)) = .ok t ∧ t.context = _ :=
    receive_announces silentEnv.toRxEnv rfl hip hname hclosed rfl
  refine ⟨{ s with thread }, .receive hsingle (iff_of_true trivial hport) hreceive, ?_,
    hs.redundancy_eq⟩
  have hstart : s.thread.context = _ := hs.context_eq
  change thread.context = _
  rw [hthread, hstart]
  rfl

/-- The stream that was announced opens. -/
theorem PwReceptor.Announced.exists_open {t : PwReceptor Unit} {nframes redundancy : Nat}
    (ht : t.Announced nframes redundancy)
    (hfits : 0 ≤ intOfSize (sizeMul (2 * nframes * 1 * (redundancy + 1)) 4)) :
    ∃ u, PwRxStep silentEnv.toRxEnv t (.openStream ()) u ∧
      u.context.ringbuffer = some (vbanComputeRxRingbuffer nframes 0 1 redundancy) ∧
      u.stride = 4 ∧ u.context.resampler = some () ∧ u.context.flags = correctionOn ∧
      u.context.cframes = 0 ∧ u.context.nframes = nframes := by
  obtain ⟨hcontext, rfl⟩ := ht
  have hready : t.Ready := by
    rw [PwReceptor.Ready, hcontext]
    exact ⟨(by decide : ¬(StreamName.strncpy [0x41, 0]).Empty), Nat.one_ne_zero,
      (by decide : (48000 : Int) ≠ 0)⟩
  have hsingle : t.SingleStream := by
    rw [PwReceptor.SingleStream, hcontext]
    exact (by decide : correctionOn &&& Discovery.multistream = 0)
  have hclosed : t.context.ringbuffer = none := by
    rw [hcontext]
    rfl
  have hopen := openStream_eq (s := t) () (by rwa [hcontext])
  rw [hcontext] at hopen
  exact ⟨_, .openStream hsingle hready hclosed hopen, rfl, rfl, rfl, rfl, rfl, rfl⟩

/-- A period of 64 frames. -/
theorem pw_rings_hold_mono :
    ∃ (s u : PwReceptor Unit) (es : List (PwRxEvent Unit)),
      pwReceptorMain .zero (0, 0) (localOptions [.bufsize 64]) = some s ∧
      Run (fun s e t => PwRxStep silentEnv.toRxEnv s e t ∧ e.LeavesRoom s) s es u ∧
      u.context.ringbuffer ≠ none ∧ u.RingsHold := by
  obtain ⟨s, hs⟩ : ∃ s : PwReceptor Unit,
      pwReceptorMain .zero (0, 0) (localOptions [.bufsize 64]) = some s := ⟨_, rfl⟩
  have hlocal : s.Local 64 0 := by
    obtain rfl := Option.some.inj hs
    exact ⟨rfl, rfl⟩
  obtain ⟨t, hreceive, hannounced⟩ := hlocal.exists_announced
  obtain ⟨u, hopen, hring, -⟩ := hannounced.exists_open (by decide)
  have hroom : (PwRxEvent.openStream ()).LeavesRoom t := by
    rintro nframes hperiod
    obtain rfl : nframes = 64 := by
      rw [← Option.some.inj hperiod, hannounced.context_eq]
      rfl
    rw [PwReceptor.RoomFor, hannounced.context_eq, hannounced.redundancy_eq]
    decide
  have hrun : Run (fun s e t => PwRxStep silentEnv.toRxEnv s e t ∧ e.LeavesRoom s) s
      ([.receive (headerInput (audioHeader 3 0 0 1 1))] ++ [.openStream ()]) u := by
    refine (Run.single ⟨hreceive, ?_⟩).snoc ⟨hopen, hroom⟩
    rintro nframes ⟨⟩
  exact ⟨s, u, _, hs, hrun, by simp [hring], pw_rings_hold hs hrun⟩

/-- Without `-q`, the prefill of `-n 1` writes to a ring of no bytes, whose write space wraps, and
the first callback divides by zero. -/
theorem pw_ring_empty :
    ∃ s t u : PwReceptor Unit,
      pwReceptorMain .zero (0, 0) (localOptions [.redundancy 1]) = some s ∧
      PwRxStep silentEnv.toRxEnv s (.receive (headerInput (audioHeader 3 0 0 1 1))) t ∧
      PwRxStep silentEnv.toRxEnv t (.openStream ()) u ∧
      u.context.ringbuffer = some ⟨[], 0, 0, 0⟩ ∧ ¬u.RingsHold ∧
      ringbufferWriteSpace ⟨[], 0, 0, 0⟩ = 2 ^ 64 - 1 ∧
      ∀ setRratio buffer, u.onRxProcess setRratio buffer = .error .divisionByZero := by
  obtain ⟨s, hs⟩ : ∃ s : PwReceptor Unit,
      pwReceptorMain .zero (0, 0) (localOptions [.redundancy 1]) = some s := ⟨_, rfl⟩
  have hlocal : s.Local 0 1 := by
    obtain rfl := Option.some.inj hs
    exact ⟨rfl, rfl⟩
  obtain ⟨t, hreceive, hannounced⟩ := hlocal.exists_announced
  obtain ⟨u, hopen, hring, hstride, hresampler, hflags, hcframes, -⟩ :=
    hannounced.exists_open (by decide)
  have hempty : u.context.ringbuffer = some ⟨[], 0, 0, 0⟩ := by
    rw [hring]
    decide
  refine ⟨s, t, u, hs, hreceive, hopen, hempty, ?_, by decide, ?_⟩
  · intro hrings
    obtain ⟨-, hpos, -⟩ := hrings _ (Or.inl hempty)
    exact Nat.lt_irrefl 0 hpos
  · intro setRratio buffer
    have hnonzero : ¬u.stride = 0 := by
      rw [hstride]
      decide
    have hon : ¬u.context.flags &&& correctionOn = 0 := by
      rw [hflags]
      decide
    have hearly : u.context.cframes ≤ u.context.nframes := by
      rw [hcframes]
      exact Int.natCast_nonneg _
    rw [PwReceptor.onRxProcess, if_neg hnonzero, PwReceptor.correctIfOn, if_neg hon,
      PwReceptor.correctSamplerate, hempty, hresampler]
    simp only [if_pos hearly]
    rfl

end Vban
