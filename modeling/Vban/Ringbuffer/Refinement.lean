import Vban.Library.Queues
import Vban.Library.Run
import Vban.Ringbuffer.Operations

/-! Every sequence of ring calls behaves as a bounded byte queue of capacity `size - 1`. -/
namespace Vban

open Library Ringbuffer

/-- A call with its arguments and results. `exposed` are the bytes a write advance publishes. -/
inductive RingCall
  | write (src : List UInt8) (cnt returned : Nat)
  | read (dest : List UInt8) (cnt returned : Nat) (dest' : List UInt8)
  | peek (dest : List UInt8) (cnt returned : Nat) (dest' : List UInt8)
  | reset
  | readAdvance (cnt : Nat)
  | writeAdvance (cnt : Nat) (exposed : List UInt8)

/-- The number of cells behind the write pointer that a call stores to. -/
def RingCall.stored : RingCall → Nat
  | .write _ _ returned => returned
  | _ => 0

inductive RingStep : Ringbuffer → RingCall → Ringbuffer → Prop
  | write {rb : Ringbuffer} {src : List UInt8} {cnt : Nat} (h : cnt ≤ src.length) :
      RingStep rb (.write src cnt (ringbufferWrite rb src cnt).1) (ringbufferWrite rb src cnt).2
  | read {rb : Ringbuffer} {dest : List UInt8} {cnt : Nat} (h : cnt ≤ dest.length) :
      RingStep rb
        (.read dest cnt (ringbufferRead rb dest cnt).1 (ringbufferRead rb dest cnt).2.1)
        (ringbufferRead rb dest cnt).2.2
  | peek {rb : Ringbuffer} {dest : List UInt8} {cnt : Nat} (h : cnt ≤ dest.length) :
      RingStep rb
        (.peek dest cnt (ringbufferPeek rb dest cnt).1 (ringbufferPeek rb dest cnt).2) rb
  | reset {rb : Ringbuffer} : RingStep rb .reset (ringbufferReset rb)
  | readAdvance {rb : Ringbuffer} {cnt : Nat} (h : cnt ≤ ringbufferReadSpace rb) :
      RingStep rb (.readAdvance cnt) (ringbufferReadAdvance rb cnt)
  | writeAdvance {rb : Ringbuffer} {cnt : Nat} (h : cnt ≤ ringbufferWriteSpace rb) :
      RingStep rb (.writeAdvance cnt (rb.behind cnt)) (ringbufferWriteAdvance rb cnt)

/-- The same calls on a bounded queue of bytes. -/
inductive QueueStep {cap : Nat} : BoundedQueue UInt8 cap → RingCall → BoundedQueue UInt8 cap → Prop
  | write {q : BoundedQueue UInt8 cap} {src : List UInt8} {cnt n : Nat}
      (hn : n = min cnt q.free) : QueueStep q (.write src cnt n) (q.push (src.take n))
  | read {q : BoundedQueue UInt8 cap} {dest : List UInt8} {cnt n : Nat}
      (hn : n = min cnt q.items.length) :
      QueueStep q (.read dest cnt n (q.items.take n ++ dest.drop n)) (q.pop n)
  | peek {q : BoundedQueue UInt8 cap} {dest : List UInt8} {cnt n : Nat}
      (hn : n = min cnt q.items.length) :
      QueueStep q (.peek dest cnt n (q.items.take n ++ dest.drop n)) q
  | reset {q : BoundedQueue UInt8 cap} : QueueStep q .reset .empty
  | readAdvance {q : BoundedQueue UInt8 cap} {cnt : Nat} (h : cnt ≤ q.items.length) :
      QueueStep q (.readAdvance cnt) (q.pop cnt)
  | writeAdvance {q : BoundedQueue UInt8 cap} {xs : List UInt8} (h : xs.length ≤ q.free) :
      QueueStep q (.writeAdvance xs.length xs) (q.push xs)

variable {size : Nat} {rb rb' : Ringbuffer} {c : RingCall}

/-- The refinement relation. -/
structure Refines (size : Nat) (rb : Ringbuffer) (q : BoundedQueue UInt8 (size - 1)) : Prop where
  wellFormed : rb.WellFormed
  size_eq : rb.size = size
  contents_eq : rb.contents = q.items

variable {q : BoundedQueue UInt8 (size - 1)}

theorem Refines.length_eq (h : Refines size rb q) : ringbufferReadSpace rb = q.items.length := by
  rw [← h.wellFormed.length_contents, h.contents_eq]

theorem Refines.free_eq (h : Refines size rb q) : ringbufferWriteSpace rb = q.free := by
  have := h.wellFormed.readSpace_add_writeSpace
  have := q.length_add_free
  have := h.length_eq
  have := h.size_eq
  omega

theorem Refines.read (h : Refines size rb q) {n : Nat} (hr : ReadSpec rb n rb') :
    Refines size rb' (q.pop n) :=
  ⟨hr.wellFormed, hr.size_eq.trans h.size_eq, by
    rw [hr.contents_eq, h.contents_eq, BoundedQueue.pop_items]⟩

theorem refines_create {mem : List UInt8} (hpos : 1 ≤ size) (hlt : size < 2 ^ 63)
    (hm : mem.length = size) : Refines size (ringbufferCreate size mem) .empty :=
  ⟨ringbufferCreate_wellFormed hpos hlt hm, rfl, ringbufferCreate_contents mem hpos hlt⟩

/-- One call on the ring is one call on the queue, with the same results. -/
theorem refines_step (h : Refines size rb q) (hs : RingStep rb c rb') :
    ∃ q', QueueStep q c q' ∧ Refines size rb' q' := by
  have hw := h.wellFormed
  have hlen := h.length_eq
  have hfree := h.free_eq
  cases hs with
  | @write src cnt hc =>
    obtain ⟨hret, hspec⟩ := ringbufferWrite_spec _ hw hc rfl
    rw [hret]
    refine ⟨_, .write (by rw [hfree]), hspec.wellFormed, hspec.size_eq.trans h.size_eq, ?_⟩
    rw [hspec.contents_eq, h.contents_eq, BoundedQueue.push_items_of_le]
    rw [List.length_take]
    omega
  | @read dest cnt hc =>
    obtain ⟨hret, hdest, hspec⟩ := ringbufferRead_spec dest cnt hw rfl
    rw [hret, hdest, h.contents_eq]
    exact ⟨_, .read (by rw [hlen]), h.read hspec⟩
  | @peek dest cnt hc =>
    obtain ⟨hret, hdest, -⟩ := ringbufferRead_spec dest cnt hw rfl
    rw [ringbufferPeek_eq, hret, hdest, h.contents_eq]
    exact ⟨q, .peek (by rw [hlen]), h⟩
  | reset =>
    refine ⟨_, .reset, ⟨hw.size_pos, hw.size_lt, hw.length_buf, hw.size_pos, hw.size_pos⟩,
      h.size_eq, ?_⟩
    exact ringbufferCreate_contents rb.buf hw.size_pos hw.size_lt
  | @readAdvance cnt hc =>
    have hlt := hw.readSpace_lt
    have hr := hw.read_lt
    have := hw.size_lt
    rw [ringbufferReadAdvance, sizeAdd_of_lt (by omega)]
    exact ⟨_, .readAdvance (by omega), h.read (readSpec_advance hw hc)⟩
  | @writeAdvance cnt hc =>
    have hlt := hw.writeSpace_lt
    have hwl := hw.write_lt
    have := hw.size_lt
    have hl : (rb.behind cnt).length = cnt := length_window (by rw [hw.length_buf]; omega)
    have hcontents := hw.contents_advanceWrite (hw.cyclicWrite_behind (n := cnt) (by omega))
      (by omega)
    have hq : QueueStep q (.writeAdvance cnt (rb.behind cnt)) (q.push (rb.behind cnt)) := by
      have hstep : QueueStep q (.writeAdvance _ (rb.behind cnt)) _ := .writeAdvance (by omega)
      rwa [hl] at hstep
    rw [hl] at hcontents
    rw [ringbufferWriteAdvance, sizeAdd_of_lt (by omega)]
    refine ⟨_, hq, hw.advanceWrite rfl cnt, h.size_eq, ?_⟩
    rw [hcontents, h.contents_eq, BoundedQueue.push_items_of_le (by omega)]

/-- No call changes a cell other than the ones it stores to. -/
theorem untouched_step (hw : rb.WellFormed) (hs : RingStep rb c rb') {i : Nat} (hi : i < rb.size)
    (hne : ∀ j, j < c.stored → i ≠ (rb.writePtr + j) % rb.size) : rb'.buf[i]? = rb.buf[i]? := by
  cases hs with
  | @write src cnt hc =>
    obtain ⟨hret, hspec⟩ := ringbufferWrite_spec _ hw hc rfl
    apply hspec.cells.untouched i (by rw [hw.length_buf]; exact hi)
    intro j hj
    rw [hw.length_buf]
    apply hne
    rw [List.length_take] at hj
    simp only [RingCall.stored, hret]
    omega
  | @read dest cnt hc =>
    obtain ⟨-, -, hspec⟩ := ringbufferRead_spec dest cnt hw rfl
    rw [hspec.buf_eq]
  | peek | reset | readAdvance | writeAdvance => rfl

/-- From `ringbuffer_create(size)` on, every sequence of calls refines the bounded queue. -/
theorem ringbuffer_refines_queue {mem : List UInt8} (hpos : 1 ≤ size) (hlt : size < 2 ^ 63)
    (hm : mem.length = size) {calls : List RingCall}
    (h : Run RingStep (ringbufferCreate size mem) calls rb) :
    (∃ q : BoundedQueue UInt8 (size - 1), Run QueueStep .empty calls q ∧ rb.contents = q.items) ∧
      rb.readPtr < size ∧ rb.writePtr < size ∧
      ringbufferReadSpace rb + ringbufferWriteSpace rb = size - 1 ∧
      ∀ c rb', RingStep rb c rb' → ∀ i, i < size →
        (∀ j, j < c.stored → i ≠ (rb.writePtr + j) % size) → rb'.buf[i]? = rb.buf[i]? := by
  obtain ⟨q, hq, hr⟩ := h.simulation (R := Refines size)
    (fun _ _ _ _ hr hs => refines_step hr hs) (refines_create hpos hlt hm)
  have hw := hr.wellFormed
  have hs := hr.size_eq
  refine ⟨⟨q, hq, hr.contents_eq⟩, ?_, ?_, ?_, ?_⟩
  · exact hs ▸ hw.read_lt
  · exact hs ▸ hw.write_lt
  · exact hs ▸ hw.readSpace_add_writeSpace
  · intro c rb' hc i hi hne
    exact untouched_step hw hc (hs ▸ hi) (by rw [hs]; exact hne)

/-- Four bytes: a write that is cut short, a read, and a write that wraps. -/
theorem ringbuffer_refines_queue_four :
    ∃ q : BoundedQueue UInt8 3,
      Run QueueStep .empty
        [.write [1, 2, 3, 4, 5] 5 3, .read [0, 0] 2 2 [1, 2], .write [6, 7] 2 2] q ∧
      [3, 6, 7] = q.items := by
  have h1 : RingStep (ringbufferCreate 4 [0, 0, 0, 0]) (.write [1, 2, 3, 4, 5] 5 3)
      ⟨[1, 2, 3, 0], 3, 0, 4⟩ := .write (by decide)
  have h2 : RingStep ⟨[1, 2, 3, 0], 3, 0, 4⟩ (.read [0, 0] 2 2 [1, 2])
      ⟨[1, 2, 3, 0], 3, 2, 4⟩ := .read (by decide)
  have h3 : RingStep ⟨[1, 2, 3, 0], 3, 2, 4⟩ (.write [6, 7] 2 2)
      ⟨[7, 2, 3, 6], 1, 2, 4⟩ := .write (by decide)
  exact (ringbuffer_refines_queue (by decide) (by decide) rfl
    (((Run.single h1).snoc h2).snoc h3)).1

end Vban
