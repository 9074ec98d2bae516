import Vban.Library.LittleEndian
import Vban.Library.Queues
import Vban.Playback.Turns
import Vban.Ringbuffer.Frames

/-! While no frame is missing, the reader of JACK is a delay line. -/
namespace Vban.Playback

open Library

variable {S : Type} {nboutputs : Nat} {ops : SampleOps S} {c : RxStream S nboutputs}
  {p : PortTurns S nboutputs}

/-- Frames that follow no missing one are taken over as they are. -/
theorem foldl_portTurn_full (ops : SampleOps S) (L : Nat) (xs : List (Frame S nboutputs))
    (h : p.llost = 0) :
    signal nboutputs L ((xs.map some).foldl (portTurn ops L) p).toTurns =
        signal nboutputs L p.toTurns ++ xs ∧
      ((xs.map some).foldl (portTurn ops L) p).lframe = p.lframe + xs.length ∧
      ((xs.map some).foldl (portTurn ops L) p).lost = p.lost := by
  induction xs generalizing p with
  | nil => simp
  | cons x xs ih =>
    have hturn : (portTurn ops L p (some x)).toTurns =
        ⟨setFrame p.rxbuf (p.lframe + L) x, p.lframe + 1, p.lost, 0⟩ := by
      simp [portTurn, turn, h, nonInterleavedSmooths]
    have hsignal : signal nboutputs L (portTurn ops L p (some x)).toTurns =
        signal nboutputs L p.toTurns ++ [x] := by
      rw [hturn]
      exact signal_append rfl rfl
    obtain ⟨hs, hl, hlost⟩ := ih (p := portTurn ops L p (some x)) (by rw [hturn])
    rw [List.map_cons, List.foldl_cons]
    refine ⟨?_, ?_, ?_⟩
    · rw [hs, hsignal, List.append_assoc, List.singleton_append]
    · have hlframe : (portTurn ops L p (some x)).lframe = p.lframe + 1 := by rw [hturn]
      rw [hl, hlframe, List.length_cons]
      omega
    · rw [hlost, hturn]

/-- The frames at the end of `rxbuf`, which the next period starts with. -/
def RxStream.tail (c : RxStream S nboutputs) : List (Frame S nboutputs) :=
  (List.range c.lagrangeNum).map fun k => frameAt c.rxbuf (c.nframes + k)

theorem signal_start (c : RxStream S nboutputs) :
    signal nboutputs c.lagrangeNum c.start = c.tail := by
  rw [signal, RxStream.tail]
  change (List.range (0 + c.lagrangeNum)).map (frameAt c.tailToHead) = _
  rw [Nat.zero_add]
  apply List.map_congr_left
  intro k hk
  exact frameAt_tailToHead (List.mem_range.mp hk)

/-- The period in the port buffers. -/
def delivered (nframes : Nat) (buffers : Ports S nboutputs) : List (Frame S nboutputs) :=
  (List.range nframes).map fun frame channel => buffers channel frame

/-- A period without a missing frame. -/
theorem nonInterleaved_full (ops : SampleOps S) {xs : List (Frame S nboutputs)}
    (hn : xs.length = c.nframes) (buffers : Ports S nboutputs) :
    delivered c.nframes (readFromRingbufferAsyncNonInterleaved ops c buffers (xs.map some)).2 =
        (c.tail ++ xs).take c.nframes ∧
      (readFromRingbufferAsyncNonInterleaved ops c buffers (xs.map some)).1.tail =
        (c.tail ++ xs).drop c.nframes ∧
      (readFromRingbufferAsyncNonInterleaved ops c buffers (xs.map some)).1.nframes = c.nframes ∧
      (readFromRingbufferAsyncNonInterleaved ops c buffers (xs.map some)).1.lagrangeNum =
        c.lagrangeNum := by
  set p := (xs.map some).foldl (portTurn ops c.lagrangeNum) ⟨c.start, buffers⟩ with hp
  obtain ⟨hsignal, hlframe, hlost⟩ :=
    foldl_portTurn_full ops c.lagrangeNum (p := ⟨c.start, buffers⟩) xs rfl
  have hsent := foldl_portTurn_sent ops (L := c.lagrangeNum) (p := ⟨c.start, buffers⟩)
    (xs.map some) rfl
  rw [← hp] at hsignal hlframe hlost hsent
  have hlframe' : p.lframe = c.nframes := by
    rw [hlframe, ← hn]
    exact Nat.zero_add _
  have hshift : ¬p.lframe < c.nframes >>> 1 := by
    rw [hlframe', Nat.shiftRight_eq_div_pow]
    omega
  have hread : readFromRingbufferAsyncNonInterleaved ops c buffers (xs.map some) =
      ({ c with rxbuf := p.rxbuf }, p.buffers) := by
    have hlost' : p.lost = 0 := hlost
    simp only [readFromRingbufferAsyncNonInterleaved, ← hp, RxStream.shift, if_neg hshift, hlost']
    simp
  rw [hlframe'] at hsent
  rw [signal_start] at hsignal
  rw [hread]
  refine ⟨?_, ?_, rfl, rfl⟩
  · rw [← hsignal, ← hsent, sent, hlframe']
    rfl
  · rw [← hsignal, signal, hlframe', List.range_add, List.map_append,
      List.drop_left' (by simp), List.map_map]
    rfl

/-- The samples of a frame of the ring. -/
def frameOfBytes (ofBytes : List UInt8 → S) (bytes : List UInt8) : Frame S nboutputs :=
  fun channel => ofBytes (bytesAt bytes (channel * 4) 4)

structure JackState (S : Type) (nboutputs : Nat) where
  ringbuffer : Ringbuffer
  context : RxStream S nboutputs

/-- What happens at the ring in a period, and the frames that the port buffers then hold. -/
structure JackPeriod (S : Type) (nboutputs : Nat) where
  events : List FrameEvent
  delivered : List (Frame S nboutputs)

namespace JackPeriod

variable (period : JackPeriod S nboutputs) (ofBytes : List UInt8 → S)

def slots : List (Slot S nboutputs) :=
  (period.events.filterMap FrameEvent.slot?).map (Option.map (frameOfBytes ofBytes))

/-- The frames taken from the ring. -/
def taken : List (Frame S nboutputs) :=
  (period.events.filterMap FrameEvent.read?).map (frameOfBytes ofBytes)

/-- The ring held a whole frame at each read. -/
def Full : Prop := FrameEvent.read none ∉ period.events

end JackPeriod

/-- One period of JACK. The network thread may write to the ring at any time. -/
inductive JackStep (ops : SampleOps S) (ofBytes : List UInt8 → S) :
    JackState S nboutputs → JackPeriod S nboutputs → JackState S nboutputs → Prop
  | process {rb rb' : Ringbuffer} {c : RxStream S nboutputs} {buffers : Ports S nboutputs}
      {period : JackPeriod S nboutputs} (hring : Run (FrameStep nboutputs) rb period.events rb')
      (hslots : (period.slots ofBytes).length = c.nframes)
      -- `memcpy` of the tail to the head.
      (hdisjoint : c.lagrangeNum ≤ c.nframes)
      (hout : period.delivered = delivered c.nframes
        (readFromRingbufferAsyncNonInterleaved ops c buffers (period.slots ofBytes)).2) :
      JackStep ops ofBytes ⟨rb, c⟩ period
        ⟨rb', (readFromRingbufferAsyncNonInterleaved ops c buffers (period.slots ofBytes)).1⟩

variable {ofBytes : List UInt8 → S} {period : JackPeriod S nboutputs} {a b : JackState S nboutputs}
  {periods : List (JackPeriod S nboutputs)}

theorem JackPeriod.Full.slots_eq (h : period.Full) :
    period.slots ofBytes = (period.taken ofBytes).map some := by
  rw [JackPeriod.slots, JackPeriod.taken, slots_of_no_starved h, List.map_map, List.map_map]
  rfl

/-- A full period is one block of a delay line. -/
theorem jack_step_delay (h : JackStep ops ofBytes a period b) (hfull : period.Full) :
    DelayStep a.context.tail (period.taken ofBytes, period.delivered) b.context.tail ∧
      (period.taken ofBytes).length = a.context.nframes ∧
      b.context.nframes = a.context.nframes := by
  cases h with
  | @process rb rb' c buffers _ hring hslots hdisjoint hout =>
    rw [hfull.slots_eq] at hslots hout
    rw [List.length_map] at hslots
    obtain ⟨hdelivered, htail, hn, -⟩ := nonInterleaved_full ops hslots buffers
    rw [hfull.slots_eq, hout, hdelivered]
    refine ⟨?_, hslots, hn⟩
    change DelayStep c.tail _ (readFromRingbufferAsyncNonInterleaved ops c buffers _).1.tail
    rw [htail, ← hslots]
    exact .block _ _

/-- The periods deliver the tail of `rxbuf` and then the frames taken from the ring. -/
theorem delivered_delayed (h : Run (JackStep ops ofBytes) a periods b)
    (hfull : ∀ period ∈ periods, period.Full) :
    a.context.tail.length = a.context.lagrangeNum ∧
      (periods.flatMap (·.delivered)).length = periods.length * a.context.nframes ∧
      periods.flatMap (·.delivered) = (a.context.tail ++ periods.flatMap (·.taken ofBytes)).take
        (periods.length * a.context.nframes) := by
  have hrun := h.restrict hfull
  obtain ⟨held, hspec, -⟩ : ∃ held, Run (fun held (period : JackPeriod S nboutputs) held' =>
      DelayStep held (period.taken ofBytes, period.delivered) held' ∧
        (period.taken ofBytes).length = a.context.nframes) a.context.tail periods held ∧
      b.context.tail = held ∧ b.context.nframes = a.context.nframes := by
    refine hrun.simulation
      (R := fun s held => s.context.tail = held ∧ s.context.nframes = a.context.nframes) ?_
      ⟨rfl, rfl⟩
    rintro s period t _ ⟨rfl, hn⟩ ⟨hstep, hperiod⟩
    obtain ⟨hdelay, htaken, hn'⟩ := jack_step_delay hstep hperiod
    exact ⟨_, ⟨hdelay, htaken.trans hn⟩, rfl, hn'.trans hn⟩
  have hlen : ∀ period ∈ periods, (period.taken ofBytes).length = a.context.nframes :=
    hspec.forall_labels fun _ _ _ hs => hs.2
  have htaken : (periods.flatMap (·.taken ofBytes)).length =
      periods.length * a.context.nframes := by
    rw [List.length_flatMap, List.map_congr_left hlen]
    simp
  have hdelayed := delayed (Run.map (fun period => (period.taken ofBytes, period.delivered))
    (hspec.imp fun _ _ _ hs => hs.1))
  rw [List.flatMap_map, List.flatMap_map, htaken] at hdelayed
  refine ⟨by simp [RxStream.tail], ?_, hdelayed⟩
  rw [hdelayed, List.length_take, List.length_append, htaken]
  omega

/-- Any frames can be what a period takes from the ring. -/
theorem exists_full_period (ops : SampleOps S) (ofBytes : List UInt8 → S) {count : Nat}
    {q : BoundedQueue (List UInt8) (count - 1)} {rb : Ringbuffer} (hcount : 2 ≤ count)
    (frames : List (List UInt8))
    (hlen : ∀ frame ∈ frames, frame.length = nboutputs * 4)
    (hring : FrameRefines (nboutputs * 4) count rb q) (hq : q.items = [])
    (hn : frames.length = c.nframes) (hL : c.lagrangeNum ≤ c.nframes) :
    ∃ period rb' c' q', JackStep ops ofBytes ⟨rb, c⟩ period ⟨rb', c'⟩ ∧ period.Full ∧
      period.taken ofBytes = frames.map (frameOfBytes ofBytes) ∧
      c'.lagrangeNum = c.lagrangeNum ∧ c'.nframes = c.nframes ∧
      FrameRefines (nboutputs * 4) count rb' q' ∧ q'.items = [] := by
  have hsome : ∀ frame, some frame ∈ frames.map some → frame.length = nboutputs * 4 := by
    intro frame hf
    obtain ⟨frame', hf', heq⟩ := List.mem_map.mp hf
    rw [← Option.some.inj heq]
    exact hlen frame' hf'
  obtain ⟨events, rb', q', hrun, hslots, hring', hq'⟩ :=
    exists_ring_run hcount (frames.map some) hsome hring hq
  have hfull : FrameEvent.read none ∉ events := by
    intro hmem
    have hnone : none ∈ events.filterMap FrameEvent.slot? := List.mem_filterMap.mpr ⟨_, hmem, rfl⟩
    rw [hslots] at hnone
    simp at hnone
  have hreads : events.filterMap FrameEvent.read? = frames := by
    rw [slots_of_no_starved hfull] at hslots
    exact List.map_injective_iff.mpr (Option.some_injective _) hslots
  let slots : List (Slot S nboutputs) := (frames.map some).map (Option.map (frameOfBytes ofBytes))
  let out := readFromRingbufferAsyncNonInterleaved ops c (fun _ _ => ops.zero) slots
  have hperiod : (⟨events, delivered c.nframes out.2⟩ : JackPeriod S nboutputs).slots ofBytes =
      slots := by
    rw [JackPeriod.slots, hslots]
  let xs : List (Frame S nboutputs) := frames.map (frameOfBytes ofBytes)
  have hlength : xs.length = c.nframes := by simpa [xs] using hn
  have hxs : slots = xs.map some := by simp [slots, xs]
  obtain ⟨-, -, hn', hL'⟩ := nonInterleaved_full ops hlength (fun _ _ => ops.zero)
  rw [← hxs] at hn' hL'
  refine ⟨⟨events, delivered c.nframes out.2⟩, rb', out.1, q', ?_, hfull, ?_, hL', hn', hring', hq'⟩
  · have hstep : JackStep ops ofBytes ⟨rb, c⟩ ⟨events, delivered c.nframes out.2⟩ ⟨rb', _⟩ :=
      .process hrun (by rw [hperiod]; simpa [slots] using hn) hL (by rw [hperiod])
    rwa [hperiod] at hstep
  · rw [JackPeriod.taken, hreads]

/-- A silent stereo receptor with periods of three frames. -/
def silentStream : RxStream Rat 2 where
  nframes := 3
  lagrangeNum := 3
  rxbuf := fun _ => 0
  rxbuflen := 12
  lostPacCnt := 0
  room := by decide

theorem delivered_delayed_two_periods :
    ∃ (a b : JackState Rat 2) (periods : List (JackPeriod Rat 2)),
      Run (JackStep rationalOps fun bytes => (leNat bytes : Rat)) a periods b ∧
      (periods.flatMap (·.delivered)).map List.ofFn =
        [[0, 0], [0, 0], [0, 0], [1, 2], [3, 4], [5, 6]] := by
  have hring := @frameRefines_create 3 3 2 0 (by decide) (by decide) (by decide)
  let ofBytes : List UInt8 → Rat := fun bytes => leNat bytes
  obtain ⟨p, rb₁, c₁, q₁, hp, hpfull, hptaken, hL₁, hn₁, hring₁, hq₁⟩ :=
    exists_full_period rationalOps ofBytes (c := silentStream) (by decide)
      [[1, 0, 0, 0, 2, 0, 0, 0], [3, 0, 0, 0, 4, 0, 0, 0], [5, 0, 0, 0, 6, 0, 0, 0]]
      (by decide) hring rfl rfl (by decide)
  obtain ⟨p', rb₂, c₂, q₂, hp', hpfull', hptaken', -⟩ :=
    exists_full_period rationalOps ofBytes (c := c₁) (by decide)
      (List.replicate 3 (List.replicate 8 9)) (by decide) hring₁ hq₁ hn₁.symm
      (by rw [hL₁, hn₁]; decide)
  have hrun := (Run.single hp).snoc hp'
  obtain ⟨-, -, hdelivered⟩ := delivered_delayed hrun (by simp [hpfull, hpfull'])
  refine ⟨_, _, _, hrun, ?_⟩
  rw [hdelivered]
  simp only [List.singleton_append, List.flatMap_cons, hptaken, hptaken', List.flatMap_nil,
    List.length_cons, List.length_nil]
  decide +kernel

end Vban.Playback
