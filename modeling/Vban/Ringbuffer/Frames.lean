import Mathlib.Tactic.Ring
import Vban.Library.Queues
import Vban.Library.Run
import Vban.Ringbuffer.Operations

/-! The receive ring holds whole frames: its byte operations refine a queue of frames. -/
namespace Vban

open Library Ringbuffer

/-- The ring of a receptor, cleared, with its prefill. All arguments are `int`. -/
def vbanComputeRxRingbuffer (nframes nframesPac nbchannels redundancy : Nat) : Ringbuffer :=
  let nframes := if nframes > nframesPac then nframes else nframesPac
  let rbsize := intOfSize (sizeMul (2 * nframes * nbchannels * (redundancy + 1)) 4)
  let ringbuffer := ringbufferCreate (sizeOfInt rbsize) (List.replicate (sizeOfInt rbsize) 0)
  if redundancy > 0 then
    let div := if redundancy < 2 then 2 else 1
    let zeros := List.replicate (ringbuffer.size >>> div) 0
    (ringbufferWrite ringbuffer zeros (ringbuffer.size >>> div)).2
  else ringbuffer

/-- One turn of the enqueue loop of `vban_rx_handle_packet`, with the lock held. -/
def enqueueFrame (ringbuffer : Ringbuffer) (src : List UInt8) (outframesize : Nat) : Ringbuffer :=
  if ringbufferWriteSpace ringbuffer ≥ outframesize then
    (ringbufferWrite ringbuffer src outframesize).2
  else ringbuffer

/-- Returns the status, the destination memory and the ring. -/
def vbanReadFrameFromRingbuffer (dst : List UInt8) (ringbuffer : Ringbuffer) (num : Nat) :
    Nat × List UInt8 × Ringbuffer :=
  let size := num * 4
  if ringbufferReadSpace ringbuffer ≥ size then
    let (_, dst, ringbuffer) := ringbufferRead ringbuffer dst size
    (0, dst, ringbuffer)
  else (1, dst, ringbuffer)

/-- A guarded write with whether it was stored, or a read with the frame it delivered. -/
inductive FrameEvent
  | write (frame : List UInt8) (stored : Bool)
  | read (frame : Option (List UInt8))

def FrameEvent.stored? : FrameEvent → Option (List UInt8)
  | .write frame true => some frame
  | _ => none

def FrameEvent.read? : FrameEvent → Option (List UInt8)
  | .read frame => frame
  | _ => none

/-- What a read delivered, if the event is a read. -/
def FrameEvent.slot? : FrameEvent → Option (Option (List UInt8))
  | .read frame => some frame
  | .write _ _ => none

theorem slots_of_no_starved {events : List FrameEvent} (h : .read none ∉ events) :
    events.filterMap FrameEvent.slot? = (events.filterMap FrameEvent.read?).map some := by
  induction events with
  | nil => rfl
  | cons event events ih =>
    have htail := ih fun hmem => h (List.mem_cons_of_mem _ hmem)
    cases event with
    | write frame stored =>
      have hslot : (FrameEvent.write frame stored).slot? = none := rfl
      have hread : (FrameEvent.write frame stored).read? = none := rfl
      rw [List.filterMap_cons_none hslot, List.filterMap_cons_none hread]
      exact htail
    | read slot =>
      cases slot with
      | none => exact absurd List.mem_cons_self h
      | some frame => simpa [FrameEvent.slot?, FrameEvent.read?] using htail

inductive FrameStep (nboutputs : Nat) : Ringbuffer → FrameEvent → Ringbuffer → Prop
  | write {rb : Ringbuffer} {frame : List UInt8} (h : frame.length = nboutputs * 4) :
      FrameStep nboutputs rb (.write frame (decide (ringbufferWriteSpace rb ≥ nboutputs * 4)))
        (enqueueFrame rb frame (nboutputs * 4))
  | read {rb rb' : Ringbuffer} {dst dst' : List UInt8} (h : nboutputs * 4 ≤ dst.length)
      (hr : vbanReadFrameFromRingbuffer dst rb nboutputs = (0, dst', rb')) :
      FrameStep nboutputs rb (.read (some (dst'.take (nboutputs * 4)))) rb'
  | starved {rb rb' : Ringbuffer} {dst dst' : List UInt8}
      (hr : vbanReadFrameFromRingbuffer dst rb nboutputs = (1, dst', rb')) :
      FrameStep nboutputs rb (.read none) rb'

/-- The same events on a bounded queue of frames. -/
inductive FrameQueueStep {cap : Nat} :
    BoundedQueue (List UInt8) cap → FrameEvent → BoundedQueue (List UInt8) cap → Prop
  | write {q : BoundedQueue (List UInt8) cap} {frame : List UInt8} :
      FrameQueueStep q (.write frame (decide (q.free ≠ 0))) (q.push [frame])
  | read {q : BoundedQueue (List UInt8) cap} {frame : List UInt8} {frames : List (List UInt8)}
      (h : q.items = frame :: frames) : FrameQueueStep q (.read (some frame)) (q.pop 1)
  | starved {q : BoundedQueue (List UInt8) cap} (h : q.items = []) :
      FrameQueueStep q (.read none) q

section Queue

variable {cap : Nat} {q p : BoundedQueue (List UInt8) cap} {events : List FrameEvent}

/-- First in, first out: what was there and what was stored is what was read and what is left. -/
theorem frames_conserved (h : Run FrameQueueStep q events p) :
    q.items ++ events.filterMap FrameEvent.stored? =
      events.filterMap FrameEvent.read? ++ p.items := by
  induction h with
  | refl => simp
  | snoc _ hs ih =>
    rw [List.filterMap_append, List.filterMap_append, ← List.append_assoc, ih]
    cases hs with
    | @write frame =>
      rename_i q _ _
      by_cases hf : q.free = 0
      · simp [FrameEvent.stored?, FrameEvent.read?, hf, List.filterMap_cons]
      · have : [frame].length ≤ q.free := by simp; omega
        simp [FrameEvent.stored?, FrameEvent.read?, hf, List.take_of_length_le this]
    | read hq => simp [FrameEvent.stored?, FrameEvent.read?, hq]
    | starved hq => simp [FrameEvent.stored?, FrameEvent.read?, hq, List.filterMap_cons]

end Queue

variable {nframes nframesPac nboutputs redundancy framesize count : Nat} {rb rb' : Ringbuffer}
  {e : FrameEvent}

/-- The ring is a queue of at most `count - 1` frames, and its pointers are frame boundaries. -/
structure FrameRefines (framesize count : Nat) (rb : Ringbuffer)
    (q : BoundedQueue (List UInt8) (count - 1)) : Prop where
  wellFormed : rb.WellFormed
  size_eq : rb.size = framesize * count
  readPtr_dvd : framesize ∣ rb.readPtr
  writePtr_dvd : framesize ∣ rb.writePtr
  contents_eq : rb.contents = q.items.flatten
  frames : ∀ f ∈ q.items, f.length = framesize

theorem length_flatten_frames {fs : List (List UInt8)} (h : ∀ f ∈ fs, f.length = framesize) :
    fs.flatten.length = framesize * fs.length := by
  induction fs with
  | nil => simp
  | cons f fs ih =>
    rw [List.flatten_cons, List.length_append, h f (by simp), ih fun g hg => h g (by simp [hg]),
      List.length_cons]
    ring

variable {q : BoundedQueue (List UInt8) (count - 1)}

theorem FrameRefines.readSpace_eq (h : FrameRefines framesize count rb q) :
    ringbufferReadSpace rb = framesize * q.items.length := by
  rw [← h.wellFormed.length_contents, h.contents_eq, length_flatten_frames h.frames]

theorem FrameRefines.count_pos (h : FrameRefines framesize count rb q) :
    0 < framesize ∧ 0 < count := by
  have := h.wellFormed.size_pos
  rw [h.size_eq] at this
  exact ⟨Nat.pos_of_mul_pos_right this, Nat.pos_of_mul_pos_left this⟩

/-- The reserved byte costs one frame: the guard fails only on `count - 1` queued frames. -/
theorem FrameRefines.writeSpace_iff (h : FrameRefines framesize count rb q) :
    ringbufferWriteSpace rb ≥ framesize ↔ q.free ≠ 0 := by
  obtain ⟨hf, hc⟩ := h.count_pos
  have hsum := h.wellFormed.readSpace_add_writeSpace
  rw [h.readSpace_eq, h.size_eq] at hsum
  have hfree := q.length_add_free
  obtain ⟨k, hk⟩ : ∃ k, count = q.items.length + q.free + k := ⟨1, by omega⟩
  obtain rfl : k = 1 := by omega
  have hmul : framesize * count =
      framesize * q.items.length + framesize * q.free + framesize :=
    calc framesize * count = framesize * (q.items.length + q.free + 1) :=
          congrArg (framesize * ·) hk
      _ = framesize * q.items.length + framesize * q.free + framesize := by ring
  constructor
  · rintro hw hz
    rw [hz, Nat.mul_zero] at hmul
    omega
  · intro hz
    have : framesize * 1 ≤ framesize * q.free := Nat.mul_le_mul_left _ (by omega)
    omega

theorem vbanReadFrameFromRingbuffer_eq {dst : List UInt8} :
    vbanReadFrameFromRingbuffer dst rb nboutputs =
      if ringbufferReadSpace rb ≥ nboutputs * 4 then
        (0, (ringbufferRead rb dst (nboutputs * 4)).2)
      else (1, dst, rb) := rfl

theorem dvd_advance {p : Nat} (hp : framesize ∣ p) (hs : framesize ∣ rb.size) :
    framesize ∣ (p + framesize) % rb.size :=
  (Nat.dvd_mod_iff hs).mpr (Nat.dvd_add hp dvd_rfl)

/-- A pointer at a frame boundary leaves room for a whole frame before the end. -/
theorem add_le_of_dvd {p size : Nat} (hp : framesize ∣ p) (hs : framesize ∣ size) (h : p < size) :
    p + framesize ≤ size := by
  obtain ⟨a, rfl⟩ := hp
  obtain ⟨b, rfl⟩ := hs
  have : a + 1 ≤ b := Nat.lt_of_mul_lt_mul_left h
  calc framesize * a + framesize = framesize * (a + 1) := by ring
    _ ≤ framesize * b := Nat.mul_le_mul_left _ this

/-- A frame is queued whole, or dropped when `count - 1` frames are queued. -/
theorem FrameRefines.write (h : FrameRefines (nboutputs * 4) count rb q) {frame : List UInt8}
    (hl : frame.length = nboutputs * 4) :
    FrameRefines (nboutputs * 4) count (enqueueFrame rb frame (nboutputs * 4))
      (q.push [frame]) := by
  have hdvd : nboutputs * 4 ∣ rb.size := ⟨count, h.size_eq⟩
  rw [enqueueFrame]
  split_ifs with hguard
  · have hfree := h.writeSpace_iff.mp hguard
    obtain ⟨-, hspec⟩ := ringbufferWrite_spec frame h.wellFormed hl.ge
      (Nat.min_eq_left hguard).symm
    have hitems : (q.push [frame]).items = q.items ++ [frame] :=
      BoundedQueue.push_items_of_le (by simp; omega)
    refine ⟨hspec.wellFormed, hspec.size_eq.trans h.size_eq, ?_, ?_, ?_, ?_⟩
    · rw [hspec.readPtr_eq]
      exact h.readPtr_dvd
    · rw [hspec.writePtr_eq]
      exact dvd_advance h.writePtr_dvd hdvd
    · rw [hspec.contents_eq, h.contents_eq, hitems, List.take_of_length_le hl.le]
      simp
    · rw [hitems]
      intro f hf
      rcases List.mem_append.mp hf with hf | hf
      · exact h.frames f hf
      · rw [List.mem_singleton.mp hf, hl]
  · have hfree := (not_congr h.writeSpace_iff).mp hguard
    rw [BoundedQueue.push_of_full (not_not.mp hfree)]
    exact h

/-- A read that succeeds takes the first frame of the queue. -/
theorem FrameRefines.read (h : FrameRefines (nboutputs * 4) count rb q) {dst dst' : List UInt8}
    (hr : vbanReadFrameFromRingbuffer dst rb nboutputs = (0, dst', rb')) :
    (∃ frames, q.items = dst'.take (nboutputs * 4) :: frames) ∧
      FrameRefines (nboutputs * 4) count rb' (q.pop 1) := by
  have hdvd : nboutputs * 4 ∣ rb.size := ⟨count, h.size_eq⟩
  have hspace := h.readSpace_eq
  rw [vbanReadFrameFromRingbuffer_eq] at hr
  split_ifs at hr with hguard
  · have hread : (ringbufferRead rb dst (nboutputs * 4)).2 = (dst', rb') := (Prod.mk.inj hr).2
    obtain ⟨-, hdst, hspec⟩ := ringbufferRead_spec dst _ h.wellFormed
      (Nat.min_eq_left hguard).symm
    simp only [hread] at hdst hspec
    obtain ⟨hf, -⟩ := h.count_pos
    cases hq : q.items with
    | nil =>
      rw [hq, List.length_nil, Nat.mul_zero] at hspace
      omega
    | cons frame frames =>
      have hframe := h.frames frame (by simp [hq])
      have hcont : rb.contents = frame ++ frames.flatten := by
        rw [h.contents_eq, hq, List.flatten_cons]
      have htake : dst'.take (nboutputs * 4) = frame := by
        rw [hdst, hcont, List.take_left' hframe, List.take_left' hframe]
      rw [htake]
      refine ⟨⟨frames, rfl⟩, hspec.wellFormed, hspec.size_eq.trans h.size_eq, ?_, ?_, ?_, ?_⟩
      · rw [hspec.readPtr_eq]
        exact dvd_advance h.readPtr_dvd hdvd
      · rw [hspec.writePtr_eq]
        exact h.writePtr_dvd
      · rw [hspec.contents_eq, hcont, List.drop_left' hframe, BoundedQueue.pop_items, hq]
        rfl
      · intro f hf
        exact h.frames f (List.mem_of_mem_drop hf)
  · exact absurd (Prod.mk.inj hr).1 (by decide)

/-- A read fails on an empty queue only, and takes nothing. -/
theorem FrameRefines.starved (h : FrameRefines (nboutputs * 4) count rb q) {dst dst' : List UInt8}
    (hr : vbanReadFrameFromRingbuffer dst rb nboutputs = (1, dst', rb')) :
    q.items = [] ∧ rb' = rb := by
  have hspace := h.readSpace_eq
  rw [vbanReadFrameFromRingbuffer_eq] at hr
  split_ifs at hr with hguard
  · exact absurd (Prod.mk.inj hr).1 (by decide)
  obtain rfl : rb = rb' := (Prod.mk.inj (Prod.mk.inj hr).2).2
  refine ⟨List.eq_nil_iff_length_eq_zero.mpr ?_, rfl⟩
  by_contra hne
  have : nboutputs * 4 * 1 ≤ nboutputs * 4 * q.items.length :=
    Nat.mul_le_mul_left _ (by omega)
  omega

theorem frameRefines_step (h : FrameRefines (nboutputs * 4) count rb q)
    (hs : FrameStep nboutputs rb e rb') :
    ∃ q', FrameQueueStep q e q' ∧ FrameRefines (nboutputs * 4) count rb' q' := by
  cases hs with
  | @write frame hl =>
    refine ⟨q.push [frame], ?_, h.write hl⟩
    rw [decide_eq_decide.mpr h.writeSpace_iff]
    exact .write
  | read hl hr =>
    obtain ⟨⟨frames, hitems⟩, hrefines⟩ := h.read hr
    exact ⟨q.pop 1, .read hitems, hrefines⟩
  | starved hr =>
    obtain ⟨hitems, rfl⟩ := h.starved hr
    exact ⟨q, .starved hitems, h⟩

/-- A ring that holds one frame delivers it. -/
theorem exists_read (h : FrameRefines (nboutputs * 4) count rb q) {frame : List UInt8}
    (hq : q.items = [frame]) : ∃ rb' q', FrameStep nboutputs rb (.read (some frame)) rb' ∧
      FrameRefines (nboutputs * 4) count rb' q' ∧ q'.items = [] := by
  have hspace : ringbufferReadSpace rb ≥ nboutputs * 4 := by
    rw [h.readSpace_eq, hq, List.length_singleton, Nat.mul_one]
  obtain ⟨dst', rb', hread⟩ : ∃ dst' rb',
      vbanReadFrameFromRingbuffer (List.replicate (nboutputs * 4) 0) rb nboutputs =
        (0, dst', rb') := by
    rw [vbanReadFrameFromRingbuffer_eq, if_pos hspace]
    exact ⟨_, _, rfl⟩
  have hstep := FrameStep.read (by simp) hread
  obtain ⟨q', hqueue, hrefines⟩ := frameRefines_step h hstep
  generalize dst'.take (nboutputs * 4) = got at hstep hqueue
  cases hqueue with
  | read hitems =>
    rw [hq] at hitems
    obtain ⟨rfl, rfl⟩ := List.cons.inj hitems
    exact ⟨rb', q.pop 1, hstep, hrefines, by simp [hq]⟩

/-- From an empty ring any pattern of frames and missing frames can be read. -/
theorem exists_ring_run (hcount : 2 ≤ count) (slots : List (Option (List UInt8)))
    (hlen : ∀ frame, some frame ∈ slots → frame.length = nboutputs * 4)
    (h : FrameRefines (nboutputs * 4) count rb q) (hq : q.items = []) :
    ∃ events rb' q', Run (FrameStep nboutputs) rb events rb' ∧
      events.filterMap FrameEvent.slot? = slots ∧
      FrameRefines (nboutputs * 4) count rb' q' ∧ q'.items = [] := by
  induction slots generalizing rb q with
  | nil => exact ⟨[], rb, q, .refl rb, rfl, h, hq⟩
  | cons slot slots ih =>
    have hlen' : ∀ frame, some frame ∈ slots → frame.length = nboutputs * 4 :=
      fun frame hf => hlen frame (List.mem_cons_of_mem _ hf)
    cases slot with
    | none =>
      obtain ⟨hpos, -⟩ := h.count_pos
      have hspace : ¬ringbufferReadSpace rb ≥ nboutputs * 4 := by
        rw [h.readSpace_eq, hq, List.length_nil, Nat.mul_zero]
        omega
      have hstep : FrameStep nboutputs rb (.read none) rb := by
        have hread : vbanReadFrameFromRingbuffer [] rb nboutputs = (1, [], rb) := by
          rw [vbanReadFrameFromRingbuffer_eq, if_neg hspace]
        exact .starved hread
      obtain ⟨events, rb', q', hrun, hslots, hrefines, hitems⟩ := ih hlen' h hq
      refine ⟨_, rb', q', (Run.single hstep).append hrun, ?_, hrefines, hitems⟩
      rw [List.filterMap_append, hslots]
      rfl
    | some frame =>
      have hwrite : FrameStep nboutputs rb (.write frame _) _ :=
        .write (hlen frame List.mem_cons_self)
      obtain ⟨q₁, hqueue, h₁⟩ := frameRefines_step h hwrite
      have hitems₁ : q₁.items = [frame] := by
        generalize decide (ringbufferWriteSpace rb ≥ nboutputs * 4) = stored at hqueue
        cases hqueue with
        | write =>
          have hfree := q.length_add_free
          rw [hq, List.length_nil] at hfree
          rw [BoundedQueue.push_items_of_le (by simp; omega), hq]
          rfl
      obtain ⟨rb₂, q₂, hread, h₂, hitems₂⟩ := exists_read h₁ hitems₁
      obtain ⟨events, rb', q', hrun, hslots, hrefines, hitems⟩ := ih hlen' h₂ hitems₂
      refine ⟨_, rb', q', ((Run.single hwrite).snoc hread).append hrun, ?_, hrefines, hitems⟩
      rw [List.filterMap_append, hslots]
      rfl

/-- The number of zero frames `vban_compute_rx_ringbuffer` queues for a period of `n` frames. -/
def prefillFrames (n redundancy : Nat) : Nat :=
  if redundancy = 0 then 0 else if redundancy = 1 then n else n * (redundancy + 1)

section Prefill

variable {n : Nat}

theorem prefillFrames_lt (redundancy : Nat) (hn : 1 ≤ n) :
    prefillFrames n redundancy < 2 * n * (redundancy + 1) := by
  have : 1 * 1 ≤ n * (redundancy + 1) := Nat.mul_le_mul hn (by omega)
  have hk : prefillFrames n redundancy ≤ n * (redundancy + 1) := by
    rw [prefillFrames]
    split_ifs
    · omega
    · exact Nat.le_mul_of_pos_right n (by omega)
    · exact le_rfl
  rw [Nat.mul_assoc]
  omega

/-- The shifted ring size is the prefill in bytes. -/
theorem shiftRight_prefill (hr : redundancy > 0) :
    (framesize * (2 * n * (redundancy + 1))) >>> (if redundancy < 2 then 2 else 1) =
      framesize * prefillFrames n redundancy := by
  rw [prefillFrames, if_neg (show redundancy ≠ 0 by omega), Nat.shiftRight_eq_div_pow]
  by_cases h1 : redundancy = 1
  · subst h1
    rw [if_pos (by decide), if_pos rfl,
      show framesize * (2 * n * (1 + 1)) = framesize * n * 2 ^ 2 by ring]
    exact Nat.mul_div_cancel _ (by decide)
  · rw [if_neg (by omega), if_neg h1,
      show framesize * (2 * n * (redundancy + 1)) = framesize * (n * (redundancy + 1)) * 2 ^ 1 by
        ring]
    exact Nat.mul_div_cancel _ (by decide)

end Prefill

/-- The prefill as a queue of silent frames. -/
def prefillQueue (framesize n redundancy : Nat) (h : 1 ≤ n) :
    BoundedQueue (List UInt8) (2 * n * (redundancy + 1) - 1) :=
  ⟨List.replicate (prefillFrames n redundancy) (List.replicate framesize 0), by
    have := prefillFrames_lt redundancy h
    rw [List.length_replicate]
    omega⟩

/-- The ring holds `2 * n * (redundancy + 1)` frames, of which the prefill is written at once. -/
theorem vbanComputeRxRingbuffer_eq {n size : Nat} (hn : n = max nframes nframesPac)
    (hs : size = nboutputs * 4 * (2 * n * (redundancy + 1))) (hsize : size < 2 ^ 31) :
    vbanComputeRxRingbuffer nframes nframesPac nboutputs redundancy =
      if redundancy > 0 then
        (ringbufferWrite (ringbufferCreate size (List.replicate size 0))
          (List.replicate (nboutputs * 4 * prefillFrames n redundancy) 0)
          (nboutputs * 4 * prefillFrames n redundancy)).2
      else ringbufferCreate size (List.replicate size 0) := by
  have hmax : (if nframes > nframesPac then nframes else nframesPac) = n := by
    rw [hn, max_def]
    split_ifs <;> omega
  have hmul : 2 * n * nboutputs * (redundancy + 1) * 4 = size := by
    rw [hs]
    ring
  simp only [vbanComputeRxRingbuffer, hmax]
  rw [sizeMul_of_lt (by omega), hmul, sizeOfInt_intOfSize (by omega)]
  by_cases hr : redundancy > 0
  · simp only [if_pos hr]
    rw [← shiftRight_prefill hr, ← hs]
    rfl
  · simp only [if_neg hr]

theorem frameRefines_create (hn : 1 ≤ max nframes nframesPac) (hb : 1 ≤ nboutputs)
    (hsize : 2 * max nframes nframesPac * nboutputs * (redundancy + 1) * 4 < 2 ^ 31) :
    FrameRefines (nboutputs * 4) (2 * max nframes nframesPac * (redundancy + 1))
      (vbanComputeRxRingbuffer nframes nframesPac nboutputs redundancy)
      (prefillQueue (nboutputs * 4) (max nframes nframesPac) redundancy hn) := by
  set n := max nframes nframesPac with hmax
  set size := nboutputs * 4 * (2 * n * (redundancy + 1)) with hs
  have hmul : 2 * n * nboutputs * (redundancy + 1) * 4 = size := by
    rw [hs]
    ring
  have hpos : 1 * 1 ≤ nboutputs * 4 * (2 * n * (redundancy + 1)) :=
    Nat.mul_le_mul (by omega) (Nat.mul_pos (by omega) (by omega))
  have hcreate : (ringbufferCreate size (List.replicate size 0)).WellFormed :=
    ringbufferCreate_wellFormed (by omega) (by omega) List.length_replicate
  have hempty := ringbufferCreate_contents (List.replicate size 0) (show 1 ≤ size by omega)
    (by omega)
  have hframes : ∀ f ∈ (prefillQueue (nboutputs * 4) n redundancy hn).items,
      f.length = nboutputs * 4 := by
    intro f hf
    rw [List.eq_of_mem_replicate hf, List.length_replicate]
  have hflat : (prefillQueue (nboutputs * 4) n redundancy hn).items.flatten =
      List.replicate (nboutputs * 4 * prefillFrames n redundancy) 0 := by
    rw [prefillQueue, List.flatten_replicate_replicate, Nat.mul_comm]
  rw [vbanComputeRxRingbuffer_eq hmax hs (by omega)]
  split_ifs with hr
  · have hspace := hcreate.readSpace_add_writeSpace
    rw [← hcreate.length_contents, hempty] at hspace
    have hfit : nboutputs * 4 * prefillFrames n redundancy < size :=
      Nat.mul_lt_mul_of_pos_left (prefillFrames_lt redundancy hn) (by omega)
    obtain ⟨-, hspec⟩ := ringbufferWrite_spec
      (List.replicate (nboutputs * 4 * prefillFrames n redundancy) 0) hcreate
      (show nboutputs * 4 * prefillFrames n redundancy ≤ _ from List.length_replicate.ge)
      (n := nboutputs * 4 * prefillFrames n redundancy)
      (by
        change 0 + _ = size - 1 at hspace
        omega)
    refine ⟨hspec.wellFormed, hspec.size_eq, ?_, ?_, ?_, hframes⟩
    · rw [hspec.readPtr_eq]
      exact Nat.dvd_zero _
    · rw [hspec.writePtr_eq]
      exact (Nat.dvd_mod_iff ⟨_, rfl⟩).mpr (Nat.dvd_add (Nat.dvd_zero _) ⟨_, rfl⟩)
    · rw [hspec.contents_eq, hempty, hflat]
      simp
  · have hz : prefillFrames n redundancy = 0 := if_pos (by omega)
    refine ⟨hcreate, rfl, Nat.dvd_zero _, Nat.dvd_zero _, ?_, hframes⟩
    rw [hempty, hflat, hz]
    rfl

/-- In every run the receive ring is a first-in first-out queue of whole frames. -/
theorem rx_ring_holds_whole_frames {events : List FrameEvent} (hn : 1 ≤ nframes)
    (hb : 1 ≤ nboutputs)
    (hsize : 2 * max nframes nframesPac * nboutputs * (redundancy + 1) * 4 < 2 ^ 31)
    (h : Run (FrameStep nboutputs)
      (vbanComputeRxRingbuffer nframes nframesPac nboutputs redundancy) events rb) :
    ∃ queued : List (List UInt8),
      List.replicate (prefillFrames (max nframes nframesPac) redundancy)
          (List.replicate (nboutputs * 4) 0) ++ events.filterMap FrameEvent.stored? =
        events.filterMap FrameEvent.read? ++ queued ∧
      rb.contents = queued.flatten ∧ (∀ f ∈ queued, f.length = nboutputs * 4) ∧
      nboutputs * 4 ∣ rb.size ∧ nboutputs * 4 ∣ rb.readPtr ∧ nboutputs * 4 ∣ rb.writePtr ∧
      nboutputs * 4 ∣ ringbufferReadSpace rb ∧
      rb.readPtr + nboutputs * 4 ≤ rb.size ∧ rb.writePtr + nboutputs * 4 ≤ rb.size ∧
      (ringbufferReadSpace rb < nboutputs * 4 ↔ queued = []) ∧
      (ringbufferWriteSpace rb < nboutputs * 4 ↔
        queued.length = rb.size / (nboutputs * 4) - 1) := by
  have hmax : 1 ≤ max nframes nframesPac := le_trans hn (le_max_left _ _)
  obtain ⟨q, hq, hr⟩ := h.simulation
    (R := FrameRefines (nboutputs * 4) (2 * max nframes nframesPac * (redundancy + 1)))
    (fun _ _ _ _ hr hs => frameRefines_step hr hs) (frameRefines_create hmax hb hsize)
  have hdvd : nboutputs * 4 ∣ rb.size := ⟨_, hr.size_eq⟩
  have hspace := hr.readSpace_eq
  refine ⟨q.items, frames_conserved hq, hr.contents_eq, hr.frames, hdvd, hr.readPtr_dvd,
    hr.writePtr_dvd, ⟨_, hspace⟩, add_le_of_dvd hr.readPtr_dvd hdvd hr.wellFormed.read_lt,
    add_le_of_dvd hr.writePtr_dvd hdvd hr.wellFormed.write_lt, ?_, ?_⟩
  · rw [hspace, ← List.length_eq_zero_iff]
    constructor
    · intro hlt
      exact Nat.lt_one_iff.mp (Nat.lt_of_mul_lt_mul_left (by omega : nboutputs * 4 *
        q.items.length < nboutputs * 4 * 1))
    · intro hz
      rw [hz, Nat.mul_zero]
      omega
  · rw [hr.size_eq, Nat.mul_div_cancel_left _ (by omega), ← BoundedQueue.free_eq_zero_iff]
    have := hr.writeSpace_iff
    omega

/-- One silent frame is queued, a frame is stored and the silent one is read. -/
theorem rx_ring_holds_whole_frames_mono :
    ∃ queued : List (List UInt8),
      [[0, 0, 0, 0]] ++ [[1, 2, 3, 4]] = [[0, 0, 0, 0]] ++ queued ∧
      (⟨[0, 0, 0, 0, 1, 2, 3, 4, 0, 0, 0, 0, 0, 0, 0, 0], 8, 4, 16⟩ : Ringbuffer).contents =
        queued.flatten := by
  have hc : vbanComputeRxRingbuffer 1 1 1 1 =
      ⟨[0, 0, 0, 0, 0, 0, 0, 0, 0, 0, 0, 0, 0, 0, 0, 0], 4, 0, 16⟩ := by decide
  have h1 : FrameStep 1 (vbanComputeRxRingbuffer 1 1 1 1) (.write [1, 2, 3, 4] true)
      ⟨[0, 0, 0, 0, 1, 2, 3, 4, 0, 0, 0, 0, 0, 0, 0, 0], 8, 0, 16⟩ := by
    rw [hc]
    exact .write rfl
  have h2 : FrameStep 1 ⟨[0, 0, 0, 0, 1, 2, 3, 4, 0, 0, 0, 0, 0, 0, 0, 0], 8, 0, 16⟩
      (.read (some [0, 0, 0, 0])) ⟨[0, 0, 0, 0, 1, 2, 3, 4, 0, 0, 0, 0, 0, 0, 0, 0], 8, 4, 16⟩ :=
    @FrameStep.read _ _ _ [9, 9, 9, 9] [0, 0, 0, 0] (by decide) (by decide)
  obtain ⟨queued, hq, hcont, -⟩ := rx_ring_holds_whole_frames (by decide) (by decide) (by decide)
    ((Run.single h1).snoc h2)
  exact ⟨queued, hq, hcont⟩

end Vban
