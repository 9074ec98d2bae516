import Vban.Library.Arithmetic
import Vban.Library.Window

/-! The byte ring of `ringbuffer.h`. A `size_t` is a natural number with wrapped arithmetic. -/
namespace Vban

open Library

structure Ringbuffer where
  buf : List UInt8
  writePtr : Nat
  readPtr : Nat
  size : Nat
deriving DecidableEq

/-- The bytes a `memcpy` of length `n` reads from offset `i` of a memory block. -/
def bytesAt {α : Type*} (mem : List α) (i n : Nat) : List α := (mem.drop i).take n

/-- `mem` is what `malloc` returned: the bytes in it are arbitrary. -/
def ringbufferCreate (sz : Nat) (mem : List UInt8) : Ringbuffer :=
  { buf := mem, writePtr := 0, readPtr := 0, size := sz }

/-- The readable bytes for loaded pointers `w` and `r`. -/
def readSpaceOf (w r size : Nat) : Nat :=
  if w > r then sizeSub w r
  else sizeAdd (sizeSub w r) size % size

/-- The writable bytes for loaded pointers `w` and `r`. -/
def writeSpaceOf (w r size : Nat) : Nat :=
  if w > r then sizeSub (sizeAdd (sizeSub r w) size % size) 1
  else if w < r then sizeSub (sizeSub r w) 1
  else sizeSub size 1

def ringbufferReadSpace (rb : Ringbuffer) : Nat := readSpaceOf rb.writePtr rb.readPtr rb.size

def ringbufferWriteSpace (rb : Ringbuffer) : Nat := writeSpaceOf rb.writePtr rb.readPtr rb.size

/-- `n1` and `n2`: how a copy of `n` bytes at `ptr` splits at the end of the buffer. -/
def splitCount (ptr n size : Nat) : Nat × Nat :=
  let cnt2 := sizeAdd ptr n
  if cnt2 > size then (sizeSub size ptr, cnt2 % size) else (n, 0)

/-- Returns the count, the destination memory and the ring. -/
def ringbufferRead (rb : Ringbuffer) (dest : List UInt8) (cnt : Nat) :
    Nat × List UInt8 × Ringbuffer :=
  let freeCnt := ringbufferReadSpace rb
  if freeCnt = 0 then (0, dest, rb) else
  let toRead := if cnt > freeCnt then freeCnt else cnt
  let (n1, n2) := splitCount rb.readPtr toRead rb.size
  let dest := overwrite dest 0 (bytesAt rb.buf rb.readPtr n1)
  let rb := { rb with readPtr := sizeAdd rb.readPtr n1 % rb.size }
  if n2 ≠ 0 then
    let dest := overwrite dest n1 (bytesAt rb.buf rb.readPtr n2)
    (toRead, dest, { rb with readPtr := sizeAdd rb.readPtr n2 % rb.size })
  else (toRead, dest, rb)

/-- As `ringbufferRead`, with a local copy of the read pointer. -/
def ringbufferPeek (rb : Ringbuffer) (dest : List UInt8) (cnt : Nat) : Nat × List UInt8 :=
  let tmpReadPtr := rb.readPtr
  let freeCnt := ringbufferReadSpace rb
  if freeCnt = 0 then (0, dest) else
  let toRead := if cnt > freeCnt then freeCnt else cnt
  let (n1, n2) := splitCount tmpReadPtr toRead rb.size
  let dest := overwrite dest 0 (bytesAt rb.buf tmpReadPtr n1)
  let tmpReadPtr := sizeAdd tmpReadPtr n1 % rb.size
  if n2 ≠ 0 then (toRead, overwrite dest n1 (bytesAt rb.buf tmpReadPtr n2))
  else (toRead, dest)

def ringbufferReadAdvance (rb : Ringbuffer) (cnt : Nat) : Ringbuffer :=
  { rb with readPtr := sizeAdd rb.readPtr cnt % rb.size }

def ringbufferReset (rb : Ringbuffer) : Ringbuffer :=
  { rb with readPtr := 0, writePtr := 0 }

/-- `src` is the source memory, of at least `cnt` bytes. Returns the count and the ring. -/
def ringbufferWrite (rb : Ringbuffer) (src : List UInt8) (cnt : Nat) : Nat × Ringbuffer :=
  let freeCnt := ringbufferWriteSpace rb
  if freeCnt = 0 then (0, rb) else
  let toWrite := if cnt > freeCnt then freeCnt else cnt
  let (n1, n2) := splitCount rb.writePtr toWrite rb.size
  let rb := { rb with buf := overwrite rb.buf rb.writePtr (bytesAt src 0 n1) }
  let rb := { rb with writePtr := sizeAdd rb.writePtr n1 % rb.size }
  if n2 ≠ 0 then
    let rb := { rb with buf := overwrite rb.buf rb.writePtr (bytesAt src n1 n2) }
    (toWrite, { rb with writePtr := sizeAdd rb.writePtr n2 % rb.size })
  else (toWrite, rb)

def ringbufferWriteAdvance (rb : Ringbuffer) (cnt : Nat) : Ringbuffer :=
  { rb with writePtr := sizeAdd rb.writePtr cnt % rb.size }

namespace Ringbuffer

/-- What `ringbuffer_create` establishes and every operation keeps. -/
structure WellFormed (rb : Ringbuffer) : Prop where
  size_pos : 0 < rb.size
  size_lt : rb.size < 2 ^ 63
  length_buf : rb.buf.length = rb.size
  write_lt : rb.writePtr < rb.size
  read_lt : rb.readPtr < rb.size

/-- The queued bytes, oldest first. -/
def contents (rb : Ringbuffer) : List UInt8 :=
  window rb.buf rb.readPtr (ringbufferReadSpace rb)

end Ringbuffer

/-! The pointer arithmetic in closed form. -/

section Spaces

variable {w r n size : Nat}

theorem readSpaceOf_eq (hs : size < 2 ^ 63) (hw : w < size) (hr : r < size) :
    readSpaceOf w r size = if r ≤ w then w - r else w + size - r := by
  rw [readSpaceOf]
  split_ifs with h h' h'
  · exact sizeSub_of_le (by omega) (by omega)
  · omega
  · rw [sizeAdd_sizeSub (by omega) (by omega) (by omega),
      show w + size - r = size by omega, Nat.mod_self]
    omega
  · rw [sizeAdd_sizeSub (by omega) (by omega) (by omega)]
    exact Nat.mod_eq_of_lt (by omega)

/-- One byte is reserved: the two spaces always make up `size - 1`. -/
theorem readSpaceOf_add_writeSpaceOf (hs : size < 2 ^ 63) (hw : w < size) (hr : r < size) :
    readSpaceOf w r size + writeSpaceOf w r size = size - 1 := by
  rw [readSpaceOf_eq hs hw hr, writeSpaceOf]
  split_ifs with h h'
  · rw [sizeAdd_sizeSub (by omega) (by omega) (by omega), Nat.mod_eq_of_lt (by omega),
      sizeSub_of_le (by omega) (by omega)]
    omega
  · omega
  · rw [sizeSub_of_le (by omega) (by omega)]
    omega
  · omega
  · rw [sizeSub_of_le (a := r) (by omega) (by omega), sizeSub_of_le (by omega) (by omega)]
    omega
  · omega

theorem readSpaceOf_lt (hs : size < 2 ^ 63) (hw : w < size) (hr : r < size) :
    readSpaceOf w r size < size := by
  have := readSpaceOf_add_writeSpaceOf hs hw hr
  omega

theorem add_readSpaceOf_mod (hs : size < 2 ^ 63) (hw : w < size) (hr : r < size) :
    (r + readSpaceOf w r size) % size = w := by
  rw [readSpaceOf_eq hs hw hr]
  split_ifs with h
  · rw [Nat.add_sub_of_le h, Nat.mod_eq_of_lt hw]
  · rw [show r + (w + size - r) = w + size by omega, Nat.add_mod_right, Nat.mod_eq_of_lt hw]

/-- Pointers `n` bytes apart give a read space of `n`. -/
theorem readSpaceOf_add_mod (hs : size < 2 ^ 63) (hr : r < size) (hn : n < size) :
    readSpaceOf ((r + n) % size) r size = n := by
  have hw : (r + n) % size < size := Nat.mod_lt _ (by omega)
  exact add_mod_inj (readSpaceOf_lt hs hw hr) hn (add_readSpaceOf_mod hs hw hr)

theorem splitCount_eq (hs : size < 2 ^ 63) (hr : r < size) (hn : n < size) :
    splitCount r n size =
      if r + n ≤ size then (n, 0) else (size - r, n - (size - r)) := by
  simp only [splitCount, sizeAdd_of_lt (show r + n < 2 ^ 64 by omega), gt_iff_lt]
  split_ifs with h h' h'
  · omega
  · rw [sizeSub_of_le (by omega) (by omega), Nat.mod_eq_sub_mod h.le,
      Nat.mod_eq_of_lt (by omega)]
    congr 1
    omega
  · rfl
  · omega

end Spaces

end Vban
