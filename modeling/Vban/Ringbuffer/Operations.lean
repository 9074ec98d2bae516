import Vban.Ringbuffer.Definitions

/-! What each ring operation computes, and what it does to the queued bytes. -/
namespace Vban

open Library

variable {rb rb' : Ringbuffer} {src dest : List UInt8} {cnt n size : Nat}

@[simp] theorem length_bytesAt {α : Type*} {mem : List α} {i : Nat} (h : i + n ≤ mem.length) :
    (bytesAt mem i n).length = n := by
  simp [bytesAt]
  omega

theorem bytesAt_zero {α : Type*} (mem : List α) (n : Nat) : bytesAt mem 0 n = mem.take n := rfl

theorem take_append_bytesAt {α : Type*} (mem : List α) (m n : Nat) :
    mem.take m ++ bytesAt mem m n = mem.take (m + n) := by
  rw [bytesAt, List.take_add]

/-- A piece of a piece. -/
theorem bytesAt_bytesAt {α : Type*} (mem : List α) {i j m n : Nat} (h : j + n ≤ m) :
    bytesAt (bytesAt mem i m) j n = bytesAt mem (i + j) n := by
  rw [bytesAt, bytesAt, bytesAt, List.drop_take, List.drop_drop, List.take_take,
    Nat.min_eq_left (by omega)]

/-- The first pieces, put together again. -/
theorem flatten_bytesAt {α : Type*} (mem : List α) (n len : Nat) :
    ((List.range n).map fun i => bytesAt mem (i * len) len).flatten = mem.take (n * len) := by
  induction n with
  | zero => simp
  | succ n ih =>
    rw [List.range_succ, List.map_append, List.flatten_append, ih, List.map_singleton,
      List.flatten_singleton, take_append_bytesAt, Nat.succ_mul]

namespace Ringbuffer

theorem WellFormed.readSpace_add_writeSpace (h : rb.WellFormed) :
    ringbufferReadSpace rb + ringbufferWriteSpace rb = rb.size - 1 :=
  readSpaceOf_add_writeSpaceOf h.size_lt h.write_lt h.read_lt

theorem WellFormed.readSpace_lt (h : rb.WellFormed) : ringbufferReadSpace rb < rb.size :=
  readSpaceOf_lt h.size_lt h.write_lt h.read_lt

theorem WellFormed.writeSpace_lt (h : rb.WellFormed) : ringbufferWriteSpace rb < rb.size := by
  have := h.readSpace_add_writeSpace
  have := h.size_pos
  omega

theorem WellFormed.length_contents (h : rb.WellFormed) :
    rb.contents.length = ringbufferReadSpace rb :=
  length_window (by rw [h.length_buf]; exact h.readSpace_lt.le)

theorem WellFormed.writePtr_eq (h : rb.WellFormed) :
    rb.writePtr = (rb.readPtr + ringbufferReadSpace rb) % rb.size :=
  (add_readSpaceOf_mod h.size_lt h.write_lt h.read_lt).symm

/-- The bytes of a two-part copy out of the ring. -/
theorem WellFormed.bytes_eq_window (h : rb.WellFormed) {r : Nat} (hr : r < rb.size)
    (hn : n < rb.size) :
    bytesAt rb.buf r (splitCount r n rb.size).1 ++
        bytesAt rb.buf ((r + (splitCount r n rb.size).1) % rb.size) (splitCount r n rb.size).2 =
      window rb.buf r n := by
  have hb := h.length_buf
  rw [splitCount_eq h.size_lt hr hn]
  split_ifs with hfit
  · have hw := window_eq_slice (show r ≤ rb.buf.length by omega) (show r + n ≤ _ by omega)
    simp [bytesAt, hw]
  · rw [window_eq_parts (by omega) (by omega) (by omega)]
    simp only [Nat.add_sub_of_le hr.le, Nat.mod_self, bytesAt, List.drop_zero, hb]

end Ringbuffer

theorem ringbufferCreate_wellFormed {mem : List UInt8} (hpos : 1 ≤ size) (hlt : size < 2 ^ 63)
    (hm : mem.length = size) : (ringbufferCreate size mem).WellFormed :=
  ⟨hpos, hlt, hm, hpos, hpos⟩

theorem ringbufferCreate_contents (mem : List UInt8) (hpos : 1 ≤ size) (hlt : size < 2 ^ 63) :
    (ringbufferCreate size mem).contents = [] := by
  have : ringbufferReadSpace (ringbufferCreate size mem) = 0 := by
    rw [ringbufferReadSpace, ringbufferCreate, readSpaceOf_eq hlt hpos hpos]
    simp
  simp [Ringbuffer.contents, this, window]

/-! What each operation computes. -/

theorem sub_mod_wrap {p : Nat} (hp : p ≤ size) (h : size ≤ p + n) :
    (0 + (n - (size - p))) % size = (p + n) % size := by
  rw [show 0 + (n - (size - p)) = p + n - size by omega, ← Nat.mod_eq_sub_mod h]

theorem min_of_ite (a b : Nat) : (if a > b then b else a) = min a b := by
  split_ifs <;> omega

theorem ringbufferRead_eq (h : rb.WellFormed) (hn : n = min cnt (ringbufferReadSpace rb)) :
    ringbufferRead rb dest cnt =
      (n, overwrite dest 0 (window rb.buf rb.readPtr n),
        { rb with readPtr := (rb.readPtr + n) % rb.size }) := by
  have hs := h.readSpace_lt
  have hr := h.read_lt
  have hlt := h.size_lt
  have hw := h.bytes_eq_window hr (show n < rb.size by omega)
  have hb := h.length_buf
  by_cases hz : ringbufferReadSpace rb = 0
  · obtain rfl : n = 0 := by omega
    simp [ringbufferRead, hz, overwrite_zero, window, Nat.mod_eq_of_lt hr]
  · simp only [ringbufferRead, if_neg hz, min_of_ite, ← hn]
    rw [splitCount_eq hlt hr (by omega)] at hw ⊢
    by_cases hfit : rb.readPtr + n ≤ rb.size
    · simp only [if_pos hfit, ne_eq, not_true, if_false] at hw ⊢
      simp only [bytesAt, List.take_zero, List.append_nil] at hw
      simp only [bytesAt, hw, sizeAdd_of_lt (show rb.readPtr + n < 2 ^ 64 by omega)]
    · have hne : n - (rb.size - rb.readPtr) ≠ 0 := by omega
      simp only [if_neg hfit, if_pos hne, Nat.add_sub_of_le hr.le, Nat.mod_self] at hw ⊢
      rw [sizeAdd_of_lt (by omega), Nat.add_sub_of_le hr.le, Nat.mod_self,
        overwrite_overwrite (by simp [bytesAt]; omega), hw, sizeAdd_of_lt (by omega),
        sub_mod_wrap hr.le (by omega)]

theorem ringbufferPeek_eq :
    ringbufferPeek rb dest cnt =
      ((ringbufferRead rb dest cnt).1, (ringbufferRead rb dest cnt).2.1) := by
  simp only [ringbufferPeek, ringbufferRead]
  split_ifs <;> rfl

theorem ringbufferWrite_eq (h : rb.WellFormed) (hc : cnt ≤ src.length)
    (hn : n = min cnt (ringbufferWriteSpace rb)) :
    ringbufferWrite rb src cnt =
      (n, { rb with
        buf := cyclicOverwrite rb.buf rb.writePtr (src.take n)
        writePtr := (rb.writePtr + n) % rb.size }) := by
  have hs := h.writeSpace_lt
  have hw := h.write_lt
  have hlt := h.size_lt
  have hb := h.length_buf
  have hl : (src.take n).length = n := by simp; omega
  by_cases hz : ringbufferWriteSpace rb = 0
  · obtain rfl : n = 0 := by omega
    have : rb.writePtr ≤ rb.buf.length := by omega
    simp [ringbufferWrite, hz, cyclicOverwrite, overwrite, Nat.mod_eq_of_lt hw, this]
  · simp only [ringbufferWrite, if_neg hz, min_of_ite, ← hn, cyclicOverwrite, hl, hb]
    rw [splitCount_eq hlt hw (by omega)]
    by_cases hfit : rb.writePtr + n ≤ rb.size
    · simp only [if_pos hfit, ne_eq, not_true, if_false, bytesAt_zero,
        sizeAdd_of_lt (show rb.writePtr + n < 2 ^ 64 by omega)]
    · have hne : n - (rb.size - rb.writePtr) ≠ 0 := by omega
      simp only [if_neg hfit, if_pos hne, bytesAt_zero]
      rw [sizeAdd_of_lt (by omega), Nat.add_sub_of_le hw.le, Nat.mod_self,
        sizeAdd_of_lt (by omega)]
      have hd : bytesAt src (rb.size - rb.writePtr) (n - (rb.size - rb.writePtr)) =
          (src.take n).drop (rb.size - rb.writePtr) := by
        rw [bytesAt, List.drop_take]
      rw [hd, List.take_take, Nat.min_eq_left (by omega)]
      rw [sub_mod_wrap hw.le (by omega)]

/-- A write that fits keeps the length, however short its source is. -/
theorem length_overwrite_bytesAt {buf : List UInt8} {w i : Nat} (h : w + n ≤ buf.length) :
    (overwrite buf w (bytesAt src i n)).length = buf.length := by
  apply length_overwrite
  have : (bytesAt src i n).length ≤ n := List.length_take_le _ _
  omega

/-- Whatever the source is, a write keeps the ring well formed. -/
theorem ringbufferWrite_keeps (src : List UInt8) (cnt : Nat) (h : rb.WellFormed) :
    (ringbufferWrite rb src cnt).2.WellFormed ∧ (ringbufferWrite rb src cnt).2.size = rb.size := by
  have hs := h.writeSpace_lt
  have hw := h.write_lt
  have hb := h.length_buf
  by_cases hz : ringbufferWriteSpace rb = 0
  · rw [ringbufferWrite, if_pos hz]
    exact ⟨h, rfl⟩
  · obtain ⟨n, hn⟩ : ∃ n, n = min cnt (ringbufferWriteSpace rb) := ⟨_, rfl⟩
    simp only [ringbufferWrite, if_neg hz, min_of_ite, ← hn]
    rw [splitCount_eq h.size_lt hw (by omega)]
    by_cases hfit : rb.writePtr + n ≤ rb.size
    · simp only [if_pos hfit, ne_eq, not_true, if_false]
      refine ⟨⟨h.size_pos, h.size_lt, ?_, Nat.mod_lt _ h.size_pos, h.read_lt⟩, trivial⟩
      exact (length_overwrite_bytesAt (by omega)).trans hb
    · have hne : n - (rb.size - rb.writePtr) ≠ 0 := by omega
      have hfirst : (overwrite rb.buf rb.writePtr
          (bytesAt src 0 (rb.size - rb.writePtr))).length = rb.size :=
        (length_overwrite_bytesAt (by omega)).trans hb
      simp only [if_neg hfit, if_pos hne]
      rw [sizeAdd_of_lt (by have := h.size_lt; omega), Nat.add_sub_of_le hw.le, Nat.mod_self]
      refine ⟨⟨h.size_pos, h.size_lt, ?_, Nat.mod_lt _ h.size_pos, h.read_lt⟩, trivial⟩
      exact (length_overwrite_bytesAt (by omega)).trans hfirst

/-! Moving one pointer forward keeps the ring well formed and changes one end of the queue. -/

namespace Ringbuffer

theorem WellFormed.advanceRead (h : rb.WellFormed) (n : Nat) :
    { rb with readPtr := (rb.readPtr + n) % rb.size : Ringbuffer }.WellFormed :=
  ⟨h.size_pos, h.size_lt, h.length_buf, h.write_lt, Nat.mod_lt _ h.size_pos⟩

theorem WellFormed.advanceWrite (h : rb.WellFormed) {buf : List UInt8}
    (hb : buf.length = rb.buf.length) (n : Nat) :
    { rb with buf := buf, writePtr := (rb.writePtr + n) % rb.size : Ringbuffer }.WellFormed :=
  ⟨h.size_pos, h.size_lt, hb.trans h.length_buf, Nat.mod_lt _ h.size_pos, h.read_lt⟩

theorem WellFormed.readSpace_advanceRead (h : rb.WellFormed) (hn : n ≤ ringbufferReadSpace rb) :
    ringbufferReadSpace { rb with readPtr := (rb.readPtr + n) % rb.size } =
      ringbufferReadSpace rb - n := by
  have hs := h.readSpace_lt
  obtain ⟨k, hk⟩ := Nat.exists_eq_add_of_le hn
  have hw : rb.writePtr = ((rb.readPtr + n) % rb.size + k) % rb.size := by
    rw [h.writePtr_eq, hk, Nat.mod_add_mod, Nat.add_assoc]
  rw [ringbufferReadSpace, hw, readSpaceOf_add_mod h.size_lt (Nat.mod_lt _ h.size_pos) (by omega)]
  omega

theorem WellFormed.readSpace_advanceWrite (h : rb.WellFormed) {buf : List UInt8}
    (hn : n ≤ ringbufferWriteSpace rb) :
    ringbufferReadSpace
        { rb with buf := buf, writePtr := (rb.writePtr + n) % rb.size } =
      ringbufferReadSpace rb + n := by
  have := h.readSpace_add_writeSpace
  have := h.size_pos
  rw [ringbufferReadSpace, h.writePtr_eq, Nat.mod_add_mod, Nat.add_assoc,
    readSpaceOf_add_mod h.size_lt h.read_lt (by omega)]

theorem WellFormed.contents_advanceRead (h : rb.WellFormed) (hn : n ≤ ringbufferReadSpace rb) :
    { rb with readPtr := (rb.readPtr + n) % rb.size : Ringbuffer }.contents =
      rb.contents.drop n := by
  have := h.readSpace_lt
  have := h.length_buf
  rw [contents, h.readSpace_advanceRead hn, contents, drop_window (by omega) hn, h.length_buf]

theorem WellFormed.contents_advanceWrite (h : rb.WellFormed) {buf xs : List UInt8}
    (hw : CyclicWrite rb.buf rb.writePtr xs buf) (hx : xs.length ≤ ringbufferWriteSpace rb) :
    { rb with buf := buf, writePtr := (rb.writePtr + xs.length) % rb.size : Ringbuffer }.contents =
      rb.contents ++ xs := by
  have := h.readSpace_add_writeSpace
  have := h.length_buf
  rw [contents, h.readSpace_advanceWrite hx, contents]
  exact hw.window (by rw [h.length_buf]; exact h.writePtr_eq) (by omega)

/-- The bytes behind the write pointer, as `ringbuffer_write_advance` exposes them. -/
def behind (rb : Ringbuffer) (n : Nat) : List UInt8 := window rb.buf rb.writePtr n

theorem WellFormed.cyclicWrite_behind (h : rb.WellFormed) (hn : n ≤ rb.size) :
    CyclicWrite rb.buf rb.writePtr (rb.behind n) rb.buf := by
  have hl : (rb.behind n).length = n := length_window (by rw [h.length_buf]; exact hn)
  refine ⟨rfl, fun j hj => ?_, fun _ _ _ => rfl⟩
  rw [behind, getElem?_window (by rw [h.length_buf]; exact hn) (by omega)]

end Ringbuffer

open Ringbuffer

/-- The ring after a write: the bytes that fit are appended and no other cell changes. -/
structure WriteSpec (rb : Ringbuffer) (src : List UInt8) (n : Nat) (rb' : Ringbuffer) : Prop where
  wellFormed : rb'.WellFormed
  size_eq : rb'.size = rb.size
  cells : CyclicWrite rb.buf rb.writePtr (src.take n) rb'.buf
  readPtr_eq : rb'.readPtr = rb.readPtr
  writePtr_eq : rb'.writePtr = (rb.writePtr + n) % rb.size
  contents_eq : rb'.contents = rb.contents ++ src.take n

theorem ringbufferWrite_spec (src : List UInt8) (h : rb.WellFormed) (hc : cnt ≤ src.length)
    (hn : n = min cnt (ringbufferWriteSpace rb)) :
    (ringbufferWrite rb src cnt).1 = n ∧ WriteSpec rb src n (ringbufferWrite rb src cnt).2 := by
  have hl : (src.take n).length = n := by simp; omega
  have hs := h.writeSpace_lt
  have hb := h.length_buf
  have hcells : CyclicWrite rb.buf rb.writePtr (src.take n)
      (cyclicOverwrite rb.buf rb.writePtr (src.take n)) :=
    CyclicWrite.cyclicOverwrite (by rw [hb]; exact h.write_lt) (by omega)
  rw [ringbufferWrite_eq h hc hn]
  refine ⟨rfl, h.advanceWrite hcells.length_eq n, rfl, hcells, rfl, rfl, ?_⟩
  have := h.contents_advanceWrite hcells (by omega)
  rwa [hl] at this

/-- The ring after a read: the oldest bytes are gone and no cell changes. -/
structure ReadSpec (rb : Ringbuffer) (n : Nat) (rb' : Ringbuffer) : Prop where
  wellFormed : rb'.WellFormed
  size_eq : rb'.size = rb.size
  buf_eq : rb'.buf = rb.buf
  readPtr_eq : rb'.readPtr = (rb.readPtr + n) % rb.size
  writePtr_eq : rb'.writePtr = rb.writePtr
  contents_eq : rb'.contents = rb.contents.drop n

theorem readSpec_advance (h : rb.WellFormed) (hn : n ≤ ringbufferReadSpace rb) :
    ReadSpec rb n { rb with readPtr := (rb.readPtr + n) % rb.size } :=
  ⟨h.advanceRead n, rfl, rfl, rfl, rfl, h.contents_advanceRead hn⟩

theorem ringbufferRead_spec (dest : List UInt8) (cnt : Nat) (h : rb.WellFormed)
    (hn : n = min cnt (ringbufferReadSpace rb)) :
    (ringbufferRead rb dest cnt).1 = n ∧
      (ringbufferRead rb dest cnt).2.1 = rb.contents.take n ++ dest.drop n ∧
      ReadSpec rb n (ringbufferRead rb dest cnt).2.2 := by
  have hs := h.readSpace_lt
  have hb := h.length_buf
  rw [ringbufferRead_eq h hn]
  refine ⟨rfl, ?_, readSpec_advance h (by omega)⟩
  rw [overwrite_zero, length_window (by omega), contents, take_window (by omega)]

end Vban
