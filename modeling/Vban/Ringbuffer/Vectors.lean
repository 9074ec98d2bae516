import Vban.Ringbuffer.Operations

/-! The vectors of the ring: its readable and its writable region as at most two blocks. -/
namespace Vban

open Library Ringbuffer

/-- `buf` is an offset into the buffer of the ring. -/
structure RingbufferData where
  buf : Nat
  len : Nat
deriving DecidableEq

/-- A `ringbuffer_data_t` array of two elements. -/
abbrev RingbufferVector := RingbufferData × RingbufferData

/-- A single part leaves `vec[1].buf` as it was. -/
def ringbufferGetReadVector (rb : Ringbuffer) (vec : RingbufferVector) : RingbufferVector :=
  let w := rb.writePtr
  let r := rb.readPtr
  let freeCnt := if w > r then sizeSub w r else sizeAdd (sizeSub w r) rb.size % rb.size
  let cnt2 := sizeAdd r freeCnt
  if cnt2 > rb.size then (⟨r, sizeSub rb.size r⟩, ⟨0, cnt2 % rb.size⟩)
  else (⟨r, freeCnt⟩, ⟨vec.2.buf, 0⟩)

def ringbufferGetWriteVector (rb : Ringbuffer) (vec : RingbufferVector) : RingbufferVector :=
  let w := rb.writePtr
  let r := rb.readPtr
  let freeCnt :=
    if w > r then sizeSub (sizeAdd (sizeSub r w) rb.size % rb.size) 1
    else if w < r then sizeSub (sizeSub r w) 1
    else sizeSub rb.size 1
  let cnt2 := sizeAdd w freeCnt
  if cnt2 > rb.size then (⟨w, sizeSub rb.size w⟩, ⟨0, cnt2 % rb.size⟩)
  else (⟨w, freeCnt⟩, ⟨vec.2.buf, 0⟩)

namespace RingbufferVector

/-- The cells of the parts. -/
def Covers (vec : RingbufferVector) (i : Nat) : Prop :=
  vec.1.buf ≤ i ∧ i < vec.1.buf + vec.1.len ∨ vec.2.buf ≤ i ∧ i < vec.2.buf + vec.2.len

/-- The parts, one after the other. -/
def bytes (vec : RingbufferVector) (buf : List UInt8) : List UInt8 :=
  bytesAt buf vec.1.buf vec.1.len ++ bytesAt buf vec.2.buf vec.2.len

/-- Data stored in the first part, the rest of it in the second. -/
def fill (vec : RingbufferVector) (buf xs : List UInt8) : List UInt8 :=
  overwrite (overwrite buf vec.1.buf (xs.take vec.1.len)) vec.2.buf (xs.drop vec.1.len)

/-- The parts are the `n` cells from `ptr` on, in circular order. -/
structure Describes (vec : RingbufferVector) (ptr n size : Nat) : Prop where
  first : vec.1 = ⟨ptr, min n (size - ptr)⟩
  second : vec.2.len = n - (size - ptr) ∧ (vec.2.len = 0 ∨ vec.2.buf = 0)

variable {vec vec' : RingbufferVector} {buf xs : List UInt8} {ptr n size i : Nat}

theorem Describes.sum (h : vec.Describes ptr n size) : vec.1.len + vec.2.len = n := by
  rw [h.first, h.second.1]
  change min n (size - ptr) + (n - (size - ptr)) = n
  omega

theorem Describes.inside (h : vec.Describes ptr n size) (hptr : ptr < size) (hn : n < size) :
    vec.1.buf + vec.1.len ≤ size ∧ (vec.2.len = 0 ∨ vec.2.buf + vec.2.len ≤ size) := by
  obtain ⟨hlen, hbuf⟩ := h.second
  rw [h.first]
  constructor
  · change ptr + min n (size - ptr) ≤ size
    omega
  · rcases hbuf with hz | hz
    · exact Or.inl hz
    · right
      omega

theorem Describes.covers_iff (h : vec.Describes ptr n size) (hptr : ptr < size) (hn : n < size) :
    vec.Covers i ↔ ∃ j < n, i = (ptr + j) % size := by
  obtain ⟨hlen, hbuf⟩ := h.second
  rw [Covers, h.first]
  constructor
  · rintro (⟨hlow, hhigh⟩ | ⟨hlow, hhigh⟩)
    · change ptr ≤ i at hlow
      change i < ptr + min n (size - ptr) at hhigh
      refine ⟨i - ptr, by omega, ?_⟩
      rw [Nat.add_sub_cancel' hlow, Nat.mod_eq_of_lt (by omega)]
    · obtain hz | hz := hbuf
      · omega
      · refine ⟨i + (size - ptr), by omega, ?_⟩
        rw [show ptr + (i + (size - ptr)) = i + size by omega, Nat.add_mod_right,
          Nat.mod_eq_of_lt (by omega)]
  · rintro ⟨j, hj, rfl⟩
    by_cases hfit : ptr + j < size
    · rw [Nat.mod_eq_of_lt hfit]
      left
      change ptr ≤ ptr + j ∧ ptr + j < ptr + min n (size - ptr)
      omega
    · rw [Nat.mod_eq_sub_mod (by omega), Nat.mod_eq_of_lt (by omega)]
      right
      omega

/-- The parts' bytes are those of the window. -/
theorem Describes.bytes_eq (h : vec.Describes ptr n size) (hbuf : buf.length = size)
    (hptr : ptr < size) (hn : n < size) : vec.bytes buf = window buf ptr n := by
  obtain ⟨hlen, hoffset⟩ := h.second
  rw [bytes, h.first, hlen]
  by_cases hfit : ptr + n ≤ size
  · rw [window_eq_slice (by omega) (by omega), show min n (size - ptr) = n by omega,
      show n - (size - ptr) = 0 by omega]
    exact List.append_nil _
  · rw [window_eq_parts (by omega) (by omega) (by omega), hbuf,
      show min n (size - ptr) = size - ptr by omega, show vec.2.buf = 0 by omega]
    rfl

/-- Data that fits is stored as a write stores it. -/
theorem Describes.fill_eq (h : vec.Describes ptr n size) (hbuf : buf.length = size)
    (hptr : ptr < size) (hxs : xs.length ≤ n) : vec.fill buf xs = cyclicOverwrite buf ptr xs := by
  obtain ⟨hlen, hoffset⟩ := h.second
  rw [fill, h.first, cyclicOverwrite, hbuf]
  change overwrite (overwrite buf ptr (xs.take (min n (size - ptr)))) vec.2.buf
    (xs.drop (min n (size - ptr))) = _
  split_ifs with hfit
  · rw [List.take_of_length_le (by omega), List.drop_of_length_le (by omega), overwrite]
    simp
  · rw [show min n (size - ptr) = size - ptr by omega, show vec.2.buf = 0 by omega]

/-- Regions one behind the other in a ring that is not full are apart. -/
theorem Describes.disjoint {m : Nat} (h : vec.Describes ptr n size)
    (h' : vec'.Describes ((ptr + n) % size) m size) (hptr : ptr < size) (hsum : n + m < size)
    (hi : vec.Covers i) : ¬vec'.Covers i := by
  intro hi'
  obtain ⟨j, hj, rfl⟩ := (h.covers_iff hptr (by omega)).mp hi
  obtain ⟨k, hk, heq⟩ := (h'.covers_iff (Nat.mod_lt _ (by omega)) (by omega)).mp hi'
  rw [Nat.mod_add_mod, Nat.add_assoc] at heq
  have := add_mod_inj (by omega) (by omega) heq
  omega

end RingbufferVector

namespace Ringbuffer

variable {rb : Ringbuffer}

/-- The common form of the two vectors: the split of a copy. -/
theorem describes_split {ptr n size old : Nat} (hsize : size < 2 ^ 63) (hptr : ptr < size)
    (hn : n < size) :
    RingbufferVector.Describes
      (if sizeAdd ptr n > size then (⟨ptr, sizeSub size ptr⟩, ⟨0, sizeAdd ptr n % size⟩)
        else (⟨ptr, n⟩, ⟨old, 0⟩)) ptr n size := by
  rw [sizeAdd_of_lt (by omega), sizeSub_of_le (by omega) (by omega)]
  split_ifs with hsplit
  · refine ⟨?_, ?_, Or.inr rfl⟩
    · rw [show min n (size - ptr) = size - ptr by omega]
    · change (ptr + n) % size = n - (size - ptr)
      rw [Nat.mod_eq_sub_mod (by omega), Nat.mod_eq_of_lt (by omega)]
      omega
  · refine ⟨?_, ?_, Or.inl rfl⟩
    · rw [show min n (size - ptr) = n by omega]
    · change 0 = n - (size - ptr)
      omega

theorem WellFormed.readVector (h : rb.WellFormed) (vec : RingbufferVector) :
    (ringbufferGetReadVector rb vec).Describes rb.readPtr (ringbufferReadSpace rb) rb.size :=
  describes_split h.size_lt h.read_lt h.readSpace_lt

theorem WellFormed.writeVector (h : rb.WellFormed) (vec : RingbufferVector) :
    (ringbufferGetWriteVector rb vec).Describes rb.writePtr (ringbufferWriteSpace rb) rb.size :=
  describes_split h.size_lt h.write_lt h.writeSpace_lt

/-- What the two vectors of a ring are good for. -/
structure VectorsExact (rb : Ringbuffer) (read write : RingbufferVector) : Prop where
  readSpace : read.1.len + read.2.len = ringbufferReadSpace rb
  writeSpace : write.1.len + write.2.len = ringbufferWriteSpace rb
  readInside : read.1.buf + read.1.len ≤ rb.size ∧
    (read.2.len = 0 ∨ read.2.buf + read.2.len ≤ rb.size)
  writeInside : write.1.buf + write.1.len ≤ rb.size ∧
    (write.2.len = 0 ∨ write.2.buf + write.2.len ≤ rb.size)
  readCells : ∀ i, read.Covers i ↔ ∃ j < ringbufferReadSpace rb, i = (rb.readPtr + j) % rb.size
  writeCells : ∀ i, write.Covers i ↔
    ∃ j < ringbufferWriteSpace rb, i = (rb.writePtr + j) % rb.size
  disjoint : ∀ i, read.Covers i → ¬write.Covers i
  peek : ∀ dest cnt, ringbufferPeek rb dest cnt =
    (min cnt (ringbufferReadSpace rb), overwrite dest 0 ((read.bytes rb.buf).take cnt))
  write : ∀ xs : List UInt8, xs.length ≤ ringbufferWriteSpace rb →
    ringbufferWrite rb xs xs.length =
      (xs.length, ringbufferWriteAdvance { rb with buf := write.fill rb.buf xs } xs.length)

theorem WellFormed.peek_bytes (h : rb.WellFormed) (vec : RingbufferVector) (dest : List UInt8)
    (cnt : Nat) :
    ringbufferPeek rb dest cnt = (min cnt (ringbufferReadSpace rb),
      overwrite dest 0 (((ringbufferGetReadVector rb vec).bytes rb.buf).take cnt)) := by
  have hbytes := (h.readVector vec).bytes_eq h.length_buf h.read_lt h.readSpace_lt
  have htake : (window rb.buf rb.readPtr (ringbufferReadSpace rb)).take cnt =
      window rb.buf rb.readPtr (min cnt (ringbufferReadSpace rb)) := by
    rw [window, window, List.take_take]
  rw [ringbufferPeek_eq, ringbufferRead_eq h rfl, hbytes, htake]

theorem WellFormed.write_fill (h : rb.WellFormed) (vec : RingbufferVector) {xs : List UInt8}
    (hxs : xs.length ≤ ringbufferWriteSpace rb) :
    ringbufferWrite rb xs xs.length = (xs.length, ringbufferWriteAdvance
      { rb with buf := (ringbufferGetWriteVector rb vec).fill rb.buf xs } xs.length) := by
  have hspace := h.writeSpace_lt
  have hsize := h.size_lt
  have hptr := h.write_lt
  have hfill := (h.writeVector vec).fill_eq h.length_buf hptr hxs
  rw [ringbufferWrite_eq h le_rfl (Nat.min_eq_left hxs).symm, List.take_length,
    ringbufferWriteAdvance, hfill, sizeAdd_of_lt]
  change rb.writePtr + xs.length < 2 ^ 64
  omega

/-- The vectors are the readable and the writable region, at every pair of pointers. -/
theorem vectors_exact (h : rb.WellFormed) (vec vec' : RingbufferVector) :
    VectorsExact rb (ringbufferGetReadVector rb vec) (ringbufferGetWriteVector rb vec') := by
  have hread := h.readVector vec
  have hwrite := h.writeVector vec'
  have hsum := h.readSpace_add_writeSpace
  have hpos := h.size_pos
  have hbehind : (ringbufferGetWriteVector rb vec').Describes
      ((rb.readPtr + ringbufferReadSpace rb) % rb.size) (ringbufferWriteSpace rb) rb.size := by
    rw [← h.writePtr_eq]
    exact hwrite
  exact {
    readSpace := hread.sum
    writeSpace := hwrite.sum
    readInside := hread.inside h.read_lt h.readSpace_lt
    writeInside := hwrite.inside h.write_lt h.writeSpace_lt
    readCells := fun _ => hread.covers_iff h.read_lt h.readSpace_lt
    writeCells := fun _ => hwrite.covers_iff h.write_lt h.writeSpace_lt
    disjoint := fun _ => hread.disjoint hbehind h.read_lt (by omega)
    peek := h.peek_bytes vec
    write := fun _ => h.write_fill vec' }

/-- Five cells, with the readable region around the end of the buffer. -/
theorem vectors_exact_wrapped :
    VectorsExact ⟨[1, 2, 3, 4, 5], 1, 3, 5⟩
      (ringbufferGetReadVector ⟨[1, 2, 3, 4, 5], 1, 3, 5⟩ (⟨0, 0⟩, ⟨0, 0⟩))
      (ringbufferGetWriteVector ⟨[1, 2, 3, 4, 5], 1, 3, 5⟩ (⟨0, 0⟩, ⟨0, 0⟩)) :=
  vectors_exact ⟨by decide, by decide, rfl, by decide, by decide⟩ _ _

example : (ringbufferGetReadVector ⟨[1, 2, 3, 4, 5], 1, 3, 5⟩ (⟨0, 0⟩, ⟨0, 0⟩)).bytes
    [1, 2, 3, 4, 5] = [4, 5, 1] := by
  decide

end Ringbuffer

end Vban
