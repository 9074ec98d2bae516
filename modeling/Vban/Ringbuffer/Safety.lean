import Vban.Ringbuffer.Interleaving
import Vban.Ringbuffer.Operations

/-! In every interleaving the reader's bytes are a prefix of the writer's accepted bytes. -/
namespace Vban

open Library

variable {size : Nat} {s t : SharedRing} {src : List UInt8} {n n1 n2 i : Nat}

/-- `n` accepted bytes, the first `n` of `src`, are not published yet, and there is room. -/
structure Pending (size : Nat) (s : SharedRing) (src : List UInt8) (n : Nat) : Prop where
  length_eq : s.accepted.length = s.published + n
  le_length : n ≤ src.length
  drop_eq : s.accepted.drop s.published = src.take n
  room : s.published + n < s.released + size

/-- A split of the pending bytes: the first part ends at or before the end of the buffer. -/
structure WriterPart (size : Nat) (s : SharedRing) (src : List UInt8) (n1 n2 : Nat) : Prop where
  pending : Pending size s src (n1 + n2)
  fits : s.published % size + n1 ≤ size
  wraps : n2 ≠ 0 → s.published % size + n1 = size

/-- The first `i` bytes of the part are in the buffer. -/
def Stored (size : Nat) (s : SharedRing) (src : List UInt8) (i : Nat) : Prop :=
  ∀ j, j < i → s.rb.buf[s.published % size + j]? = src[j]?

def WriterAt (size : Nat) (s : SharedRing) : WriterPC → Prop
  | .idle => s.accepted.length = s.published
  | .loadRead _ w => s.accepted.length = s.published ∧ w = s.published % size
  | .loadCnt2 src toWrite => Pending size s src toWrite
  | .loadN1 src cnt2 => ∃ n, Pending size s src n ∧ cnt2 = s.published % size + n ∧ size < cnt2
  | .loadDest src n1 n2 => WriterPart size s src n1 n2
  | .copy src n1 n2 dest i =>
    WriterPart size s src n1 n2 ∧ dest = s.published % size ∧ i ≤ n1 ∧ Stored size s src i
  | .store src n1 n2 ptr =>
    WriterPart size s src n1 n2 ∧ ptr = (s.published + n1) % size ∧ Stored size s src n1

structure ReaderPart (size : Nat) (s : SharedRing) (n1 n2 : Nat) : Prop where
  stored : s.released + (n1 + n2) ≤ s.published
  fits : s.released % size + n1 ≤ size
  wraps : n2 ≠ 0 → s.released % size + n1 = size

/-- A loaded write pointer may be stale: it stands for an earlier count `p`. -/
def ReaderAt (size : Nat) (s : SharedRing) : ReaderPC → Prop
  | .idle => s.obtained.length = s.released
  | .loadRead _ w => s.obtained.length = s.released ∧
    ∃ p, s.released ≤ p ∧ p ≤ s.published ∧ w = p % size
  | .loadCnt2 toRead => s.obtained.length = s.released ∧ s.released + toRead ≤ s.published
  | .loadN1 cnt2 => s.obtained.length = s.released ∧
    ∃ n, s.released + n ≤ s.published ∧ cnt2 = s.released % size + n ∧ size < cnt2
  | .loadSrc n1 n2 => s.obtained.length = s.released ∧ ReaderPart size s n1 n2
  | .copy n1 n2 src i => s.obtained.length = s.released + i ∧ ReaderPart size s n1 n2 ∧
    src = s.released % size ∧ i ≤ n1
  | .store n1 n2 ptr => s.obtained.length = s.released + n1 ∧ ReaderPart size s n1 n2 ∧
    ptr = (s.released + n1) % size

/-- The shared part: the pointers are the counts modulo the size, and the cells between them hold
the accepted bytes. -/
structure Shared (size : Nat) (s : SharedRing) : Prop where
  size_lt : size < 2 ^ 63
  size_eq : s.rb.size = size
  length_buf : s.rb.buf.length = size
  released_le : s.released ≤ s.published
  published_lt : s.published < s.released + size
  writePtr_eq : s.rb.writePtr = s.published % size
  readPtr_eq : s.rb.readPtr = s.released % size
  cells : ∀ k, s.released ≤ k → k < s.published → s.rb.buf[k % size]? = s.accepted[k]?
  obtained_eq : s.obtained = s.accepted.take s.obtained.length

structure SharedRing.Invariant (size : Nat) (s : SharedRing) : Prop where
  shared : Shared size s
  writer : WriterAt size s s.writer
  reader : ReaderAt size s s.reader

theorem Shared.size_pos (h : Shared size s) : 0 < size := by
  have := h.released_le
  have := h.published_lt
  omega

theorem Shared.obtained_le (h : Shared size s) : s.obtained.length ≤ s.accepted.length := by
  have := congrArg List.length h.obtained_eq
  rw [List.length_take] at this
  omega

theorem Shared.setWriter (h : Shared size s) (pc : WriterPC) :
    Shared size { s with writer := pc } :=
  ⟨h.size_lt, h.size_eq, h.length_buf, h.released_le, h.published_lt, h.writePtr_eq,
    h.readPtr_eq, h.cells, h.obtained_eq⟩

theorem Shared.setReader (h : Shared size s) (pc : ReaderPC) :
    Shared size { s with reader := pc } :=
  ⟨h.size_lt, h.size_eq, h.length_buf, h.released_le, h.published_lt, h.writePtr_eq,
    h.readPtr_eq, h.cells, h.obtained_eq⟩

/-- Distinct counts less than one revolution apart are distinct cells. -/
theorem mod_ne_of_lt {k m : Nat} (hkm : k < m) (hmk : m < k + size) : k % size ≠ m % size := by
  intro h
  have := add_mod_inj (r := k) (a := 0) (b := m - k) (L := size) (by omega) (by omega)
    (by rw [Nat.add_zero, Nat.add_sub_of_le hkm.le]; exact h)
  omega

theorem add_mod_of_fits {p j : Nat} (h : p % size + j < size) : (p + j) % size = p % size + j := by
  rw [← Nat.mod_add_mod, Nat.mod_eq_of_lt h]

/-- The second part of a split: what is left behind the end of the buffer. -/
theorem add_mod_of_wraps {p : Nat} (hp : p < size) (hlt : size < p + n) (hn : n < size) :
    (p + n) % size = n - (size - p) := by
  rw [Nat.mod_eq_sub_mod hlt.le, Nat.mod_eq_of_lt (by omega)]
  omega

/-- The read space for a write pointer that stands for the count `p`. -/
theorem readSpaceOf_counts {p r : Nat} (hlt : size < 2 ^ 63) (hrp : r ≤ p) (hp : p < r + size) :
    readSpaceOf (p % size) (r % size) size = p - r := by
  have := readSpaceOf_add_mod (n := p - r) hlt (Nat.mod_lt r (by omega)) (by omega)
  rwa [Nat.mod_add_mod, Nat.add_sub_of_le hrp] at this

theorem writeSpaceOf_counts {p r : Nat} (hlt : size < 2 ^ 63) (hrp : r ≤ p) (hp : p < r + size) :
    writeSpaceOf (p % size) (r % size) size = r + size - 1 - p := by
  have := readSpaceOf_add_writeSpaceOf hlt (Nat.mod_lt p (by omega)) (Nat.mod_lt r (by omega))
  rw [readSpaceOf_counts hlt hrp hp] at this
  omega

/-! Neither party's steps disturb what the other one relies on. -/

theorem Pending.mono (h : Pending size s src n) (ha : t.accepted = s.accepted)
    (hp : t.published = s.published) (hr : s.released ≤ t.released) : Pending size t src n := by
  have := h.room
  exact ⟨by rw [ha, hp]; exact h.length_eq, h.le_length, by rw [ha, hp]; exact h.drop_eq,
    by omega⟩

theorem WriterPart.mono (h : WriterPart size s src n1 n2) (ha : t.accepted = s.accepted)
    (hp : t.published = s.published) (hr : s.released ≤ t.released) :
    WriterPart size t src n1 n2 :=
  ⟨h.pending.mono ha hp hr, by rw [hp]; exact h.fits, by rw [hp]; exact h.wraps⟩

theorem writerAt_mono {pc : WriterPC} (h : WriterAt size s pc) (hb : t.rb.buf = s.rb.buf)
    (ha : t.accepted = s.accepted) (hp : t.published = s.published)
    (hr : s.released ≤ t.released) : WriterAt size t pc := by
  cases pc with
  | idle => simpa [WriterAt, ha, hp] using h
  | loadRead => simpa [WriterAt, ha, hp] using h
  | loadCnt2 => exact Pending.mono h ha hp hr
  | loadN1 =>
    obtain ⟨n, hn, hc⟩ := h
    exact ⟨n, hn.mono ha hp hr, by rw [hp]; exact hc⟩
  | loadDest => exact WriterPart.mono h ha hp hr
  | copy =>
    obtain ⟨hpart, hd, hi, hst⟩ := h
    exact ⟨hpart.mono ha hp hr, by rw [hp]; exact hd, hi, by simpa [Stored, hb, hp] using hst⟩
  | store =>
    obtain ⟨hpart, hd, hst⟩ := h
    exact ⟨hpart.mono ha hp hr, by rw [hp]; exact hd, by simpa [Stored, hb, hp] using hst⟩

theorem ReaderPart.mono (h : ReaderPart size s n1 n2) (hr : t.released = s.released)
    (hp : s.published ≤ t.published) : ReaderPart size t n1 n2 := by
  have := h.stored
  exact ⟨by omega, by rw [hr]; exact h.fits, by rw [hr]; exact h.wraps⟩

theorem readerAt_mono {pc : ReaderPC} (h : ReaderAt size s pc) (ho : t.obtained = s.obtained)
    (hr : t.released = s.released) (hp : s.published ≤ t.published) : ReaderAt size t pc := by
  cases pc with
  | idle => simpa [ReaderAt, ho, hr] using h
  | loadRead =>
    obtain ⟨hl, p, hrp, hpp, hw⟩ := h
    exact ⟨by rw [ho, hr]; exact hl, p, by omega, by omega, hw⟩
  | loadCnt2 =>
    obtain ⟨hl, hn⟩ := h
    exact ⟨by rw [ho, hr]; exact hl, by omega⟩
  | loadN1 =>
    obtain ⟨hl, n, hn, hc⟩ := h
    exact ⟨by rw [ho, hr]; exact hl, n, by omega, by rw [hr]; exact hc⟩
  | loadSrc =>
    obtain ⟨hl, hpart⟩ := h
    exact ⟨by rw [ho, hr]; exact hl, hpart.mono hr hp⟩
  | copy =>
    obtain ⟨hl, hpart, hs, hi⟩ := h
    exact ⟨by rw [ho, hr]; exact hl, hpart.mono hr hp, by rw [hr]; exact hs, hi⟩
  | store =>
    obtain ⟨hl, hpart, hs⟩ := h
    exact ⟨by rw [ho, hr]; exact hl, hpart.mono hr hp, by rw [hr]; exact hs⟩

/-! The writer's steps. -/

theorem Shared.accept (h : Shared size s) (hl : s.accepted.length = s.published)
    (xs : List UInt8) (pc : WriterPC) :
    Shared size { s with writer := pc, accepted := s.accepted ++ xs } := by
  refine ⟨h.size_lt, h.size_eq, h.length_buf, h.released_le, h.published_lt, h.writePtr_eq,
    h.readPtr_eq, fun k hrk hkp => ?_, ?_⟩
  · rw [List.getElem?_append_left (show k < s.accepted.length by rw [hl]; exact hkp)]
    exact h.cells k hrk hkp
  · rw [List.take_append_of_le_length h.obtained_le]
    exact h.obtained_eq

/-- A byte copied into a pending cell leaves the published cells alone. -/
theorem Shared.copyByte (h : Shared size s) (hpart : WriterPart size s src n1 n2) (hi : i < n1)
    (b : UInt8) (pc : WriterPC) :
    Shared size { s with
      rb := { s.rb with buf := s.rb.buf.set (s.published % size + i) b }, writer := pc } := by
  refine ⟨h.size_lt, h.size_eq, by simpa using h.length_buf, h.released_le, h.published_lt,
    h.writePtr_eq, h.readPtr_eq, fun k (hrk : s.released ≤ k) (hkp : k < s.published) => ?_,
    h.obtained_eq⟩
  have hfits := hpart.fits
  have hroom := hpart.pending.room
  have hne : s.published % size + i ≠ k % size := by
    rw [← add_mod_of_fits (by omega)]
    exact (mod_ne_of_lt (by omega) (by omega)).symm
  rw [List.getElem?_set_ne hne]
  exact h.cells k hrk hkp

theorem Stored.copyByte (h : Shared size s) (hst : Stored size s src i)
    (hpart : WriterPart size s src n1 n2) (hi : i < n1) {b : UInt8} (hb : src[i]? = some b) :
    ∀ j, j < i + 1 → (s.rb.buf.set (s.published % size + i) b)[s.published % size + j]? =
      src[j]? := by
  have hfits := hpart.fits
  have hlen := h.length_buf
  intro j hj
  by_cases hji : j = i
  · subst j
    rw [List.getElem?_set_self (by omega), hb]
  · rw [List.getElem?_set_ne (by omega)]
    exact hst j (by omega)

/-- Publishing a stored part: its cells hold the accepted bytes. -/
theorem Shared.publish (h : Shared size s) (hpart : WriterPart size s src n1 n2)
    (hst : Stored size s src n1) (pc : WriterPC) :
    Shared size { s with
      rb := { s.rb with writePtr := (s.published + n1) % size }
      published := s.published + n1
      writer := pc } := by
  have hroom := hpart.pending.room
  have hfits := hpart.fits
  have hrel := h.released_le
  refine ⟨h.size_lt, h.size_eq, h.length_buf, Nat.le_trans hrel (Nat.le_add_right _ _),
    show s.published + n1 < s.released + size by omega, rfl, h.readPtr_eq,
    fun k (hrk : s.released ≤ k) (hkp : k < s.published + n1) => ?_, h.obtained_eq⟩
  by_cases hk : k < s.published
  · exact h.cells k hrk hk
  · obtain ⟨j, rfl⟩ := Nat.exists_eq_add_of_le (show s.published ≤ k by omega)
    have hj : j < n1 := by omega
    have hd := congrArg (·[j]?) hpart.pending.drop_eq
    simp only [List.getElem?_drop] at hd
    have hs := hst j hj
    rw [List.getElem?_take_of_lt (by omega), ← hs] at hd
    by_cases hlt : s.published % size + j < size
    · rw [add_mod_of_fits hlt]
      exact hd.symm
    · omega

/-- After the first part the writer stands at the start of the buffer. -/
theorem WriterPart.second (hpart : WriterPart size s src n1 n2) (hs : Shared size s)
    (hne : n2 ≠ 0) (ht : t.published = s.published + n1) (ha : t.accepted = s.accepted)
    (hr : t.released = s.released) : WriterPart size t (src.drop n1) n2 0 := by
  have hp := hpart.pending
  have hl := hp.length_eq
  have hle := hp.le_length
  have hroom := hp.room
  have hrel := hs.released_le
  have hz : t.published % size = 0 := by
    rw [ht, ← Nat.mod_add_mod, hpart.wraps hne, Nat.mod_self]
  refine ⟨⟨by rw [ha]; omega, by rw [List.length_drop]; omega, ?_, by omega⟩, by omega,
    fun h => (h rfl).elim⟩
  rw [ha, ht, ← List.drop_drop, hp.drop_eq, List.drop_take]
  simp

theorem WriterPart.split (hs : Shared size s) (hp : Pending size s src n)
    (hlt : size < s.published % size + n) :
    WriterPart size s src (size - s.published % size) ((s.published % size + n) % size) := by
  have hroom := hp.room
  have hrel := hs.released_le
  have hmod : s.published % size < size := Nat.mod_lt _ hs.size_pos
  rw [add_mod_of_wraps hmod hlt (by omega)]
  refine ⟨?_, by omega, fun _ => by omega⟩
  rwa [Nat.add_sub_of_le (by omega)]

theorem writerStep_invariant (h : WriterStep s t) (hi : s.Invariant size) : t.Invariant size := by
  have hs := hi.shared
  have hw := hi.writer
  have hr {pc : WriterPC} {ac : List UInt8} : ReaderAt size
      { s with writer := pc, accepted := ac } s.reader :=
    readerAt_mono hi.reader rfl rfl le_rfl
  have hlt := hs.size_lt
  have hmod : s.published % size < size := Nat.mod_lt _ hs.size_pos
  cases h with
  | loadWrite call hpc =>
    rw [hpc] at hw
    exact ⟨hs.setWriter _, ⟨hw, hs.writePtr_eq⟩, hr⟩
  | writeSpace hpc =>
    rw [hpc] at hw
    exact ⟨hs.setWriter _, hw.1, hr⟩
  | full hpc =>
    rw [hpc] at hw
    exact ⟨hs.setWriter _, hw.1, hr⟩
  | @accept src w freeCnt toWrite hpc hfree hne hto =>
    rw [hpc] at hw
    obtain ⟨hl, hwp⟩ := hw
    rw [hwp, hs.readPtr_eq, hs.size_eq,
      writeSpaceOf_counts hlt hs.released_le hs.published_lt] at hfree
    rw [min_of_ite] at hto
    refine ⟨hs.accept hl _ _, ⟨?_, by omega, ?_, ?_⟩, hr⟩
    · show (s.accepted ++ src.take toWrite).length = s.published + toWrite
      rw [List.length_append, List.length_take]
      omega
    · show (s.accepted ++ src.take toWrite).drop s.published = src.take toWrite
      rw [← hl, List.drop_left]
    · show s.published + toWrite < s.released + size
      omega
  | @wraps src toWrite cnt2 hpc hcnt hgt =>
    rw [hpc] at hw
    have hp : Pending size s src toWrite := hw
    have := hp.room
    have := hs.released_le
    rw [hs.writePtr_eq, sizeAdd_of_lt (by omega)] at hcnt
    rw [hs.size_eq] at hgt
    exact ⟨hs.setWriter _, ⟨toWrite, hp.mono rfl rfl le_rfl, hcnt, hgt⟩, hr⟩
  | @fits src toWrite hpc hle =>
    rw [hpc] at hw
    have hp : Pending size s src toWrite := hw
    have := hp.room
    have := hs.released_le
    rw [hs.writePtr_eq, sizeAdd_of_lt (by omega), hs.size_eq] at hle
    exact ⟨hs.setWriter _, ⟨hp.mono rfl rfl le_rfl, Nat.le_of_not_gt hle, fun h => (h rfl).elim⟩,
      hr⟩
  | @loadN1 src cnt2 hpc =>
    rw [hpc] at hw
    obtain ⟨n, hp, rfl, hgt⟩ := hw
    refine ⟨hs.setWriter _, ?_, hr⟩
    rw [hs.size_eq, hs.writePtr_eq, sizeSub_of_le (by omega) hmod.le]
    exact (WriterPart.split hs hp hgt).mono rfl rfl le_rfl
  | loadDest hpc =>
    rw [hpc] at hw
    exact ⟨hs.setWriter _, ⟨WriterPart.mono hw rfl rfl le_rfl, hs.writePtr_eq, Nat.zero_le _,
      fun j hj => by omega⟩, hr⟩
  | copyByte hpc hlt hb =>
    rw [hpc] at hw
    obtain ⟨hpart, rfl, -, hst⟩ := hw
    exact ⟨hs.copyByte hpart hlt _ _,
      ⟨hpart.mono rfl rfl le_rfl, rfl, hlt, hst.copyByte hs hpart hlt hb⟩,
      readerAt_mono hi.reader rfl rfl le_rfl⟩
  | @loadSum src n1 n2 dest hpc =>
    rw [hpc] at hw
    obtain ⟨hpart, -, -, hst⟩ := hw
    have hfits := hpart.fits
    refine ⟨hs.setWriter _, ⟨hpart.mono rfl rfl le_rfl, ?_, hst⟩, hr⟩
    show sizeAdd s.rb.writePtr n1 % s.rb.size = (s.published + n1) % size
    rw [hs.size_eq, hs.writePtr_eq, sizeAdd_of_lt (by omega), Nat.mod_add_mod]
  | @store src n1 n2 ptr hpc =>
    rw [hpc] at hw
    obtain ⟨hpart, rfl, hst⟩ := hw
    refine ⟨hs.publish hpart hst _, ?_, readerAt_mono hi.reader rfl rfl (Nat.le_add_right _ _)⟩
    by_cases hne : n2 = 0
    · subst hne
      exact hpart.pending.length_eq
    · simp only [ne_eq, hne, not_false_eq_true, if_true]
      exact hpart.second hs hne rfl rfl rfl

/-! The reader's steps. -/

theorem Shared.obtain (h : Shared size s) {b : UInt8}
    (hb : s.accepted[s.obtained.length]? = some b) (pc : ReaderPC) :
    Shared size { s with obtained := s.obtained ++ [b], reader := pc } := by
  refine ⟨h.size_lt, h.size_eq, h.length_buf, h.released_le, h.published_lt, h.writePtr_eq,
    h.readPtr_eq, h.cells, ?_⟩
  rw [List.length_append, List.length_singleton, List.take_add_one, hb, Option.toList_some,
    ← h.obtained_eq]

theorem Shared.release (h : Shared size s) (hpart : ReaderPart size s n1 n2) (pc : ReaderPC) :
    Shared size { s with
      rb := { s.rb with readPtr := (s.released + n1) % size }
      released := s.released + n1
      reader := pc } := by
  have hst := hpart.stored
  have hlt := h.published_lt
  exact ⟨h.size_lt, h.size_eq, h.length_buf, show s.released + n1 ≤ s.published by omega,
    show s.published < s.released + n1 + size by omega, h.writePtr_eq, rfl,
    fun k (hrk : s.released + n1 ≤ k) hkp => h.cells k (by omega) hkp, h.obtained_eq⟩

theorem ReaderPart.second (hpart : ReaderPart size s n1 n2) (hs : Shared size s) (hne : n2 ≠ 0)
    (ht : t.released = s.released + n1) (hp : t.published = s.published) :
    ReaderPart size t n2 0 := by
  have hst := hpart.stored
  have hlt := hs.published_lt
  have hz : t.released % size = 0 := by
    rw [ht, ← Nat.mod_add_mod, hpart.wraps hne, Nat.mod_self]
  exact ⟨by omega, by omega, fun h => (h rfl).elim⟩

/-- The next byte of a part is the next accepted byte. -/
theorem ReaderPart.byte (hpart : ReaderPart size s n1 n2) (hs : Shared size s) (hi : i < n1) :
    s.rb.buf[s.released % size + i]? = s.accepted[s.released + i]? := by
  have hst := hpart.stored
  have hfits := hpart.fits
  rw [← hs.cells (s.released + i) (by omega) (by omega), add_mod_of_fits (by omega)]

theorem ReaderPart.split (hs : Shared size s) (hn : s.released + n ≤ s.published)
    (hlt : size < s.released % size + n) :
    ReaderPart size s (size - s.released % size) ((s.released % size + n) % size) := by
  have hpub := hs.published_lt
  have hmod : s.released % size < size := Nat.mod_lt _ hs.size_pos
  rw [add_mod_of_wraps hmod hlt (by omega)]
  exact ⟨by omega, by omega, fun _ => by omega⟩

theorem readerStep_invariant (h : ReaderStep s t) (hi : s.Invariant size) : t.Invariant size := by
  have hs := hi.shared
  have hw {pc : ReaderPC} : WriterAt size { s with reader := pc } s.writer :=
    writerAt_mono hi.writer rfl rfl rfl le_rfl
  have hr := hi.reader
  have hlt := hs.size_lt
  have hmod : s.released % size < size := Nat.mod_lt _ hs.size_pos
  cases h with
  | loadWrite call hpc =>
    rw [hpc] at hr
    exact ⟨hs.setReader _, hw, hr, s.published, hs.released_le, le_rfl, hs.writePtr_eq⟩
  | readSpace hpc =>
    rw [hpc] at hr
    exact ⟨hs.setReader _, hw, hr.1⟩
  | empty hpc =>
    rw [hpc] at hr
    exact ⟨hs.setReader _, hw, hr.1⟩
  | @begin cnt w freeCnt toRead hpc hfree hne hto =>
    rw [hpc] at hr
    obtain ⟨hl, p, hrp, hpp, hwp⟩ := hr
    have := hs.published_lt
    rw [hwp, hs.readPtr_eq, hs.size_eq, readSpaceOf_counts hlt hrp (by omega)] at hfree
    rw [min_of_ite] at hto
    exact ⟨hs.setReader _, hw, hl, show s.released + toRead ≤ s.published by omega⟩
  | @wraps toRead cnt2 hpc hcnt hgt =>
    rw [hpc] at hr
    obtain ⟨hl, hn⟩ := hr
    have := hs.published_lt
    rw [hs.readPtr_eq, sizeAdd_of_lt (by omega)] at hcnt
    rw [hs.size_eq] at hgt
    exact ⟨hs.setReader _, hw, hl, toRead, hn, hcnt, hgt⟩
  | @fits toRead hpc hle =>
    rw [hpc] at hr
    obtain ⟨hl, hn⟩ := hr
    have := hs.published_lt
    rw [hs.readPtr_eq, sizeAdd_of_lt (by omega), hs.size_eq] at hle
    exact ⟨hs.setReader _, hw, hl, hn, Nat.le_of_not_gt hle, fun h => (h rfl).elim⟩
  | @loadN1 cnt2 hpc =>
    rw [hpc] at hr
    obtain ⟨hl, n, hn, rfl, hgt⟩ := hr
    have := hs.published_lt
    refine ⟨hs.setReader _, hw, hl, ?_⟩
    rw [hs.size_eq, hs.readPtr_eq, sizeSub_of_le (by omega) hmod.le]
    exact (ReaderPart.split hs hn hgt).mono rfl le_rfl
  | loadSrc hpc =>
    rw [hpc] at hr
    obtain ⟨hl, hpart⟩ := hr
    exact ⟨hs.setReader _, hw, hl, hpart.mono rfl le_rfl, hs.readPtr_eq, Nat.zero_le _⟩
  | copyByte hpc hin hb =>
    rw [hpc] at hr
    obtain ⟨hl, hpart, rfl, -⟩ := hr
    rw [hpart.byte hs hin, ← hl] at hb
    refine ⟨hs.obtain hb _, writerAt_mono hi.writer rfl rfl rfl le_rfl, ?_, hpart.mono rfl le_rfl,
      rfl, hin⟩
    show (s.obtained ++ [_]).length = _
    rw [List.length_append, hl, List.length_singleton, Nat.add_assoc]
  | @loadSum n1 n2 src hpc =>
    rw [hpc] at hr
    obtain ⟨hl, hpart, -, -⟩ := hr
    have hfits := hpart.fits
    refine ⟨hs.setReader _, hw, hl, hpart.mono rfl le_rfl, ?_⟩
    show sizeAdd s.rb.readPtr n1 % s.rb.size = (s.released + n1) % size
    rw [hs.size_eq, hs.readPtr_eq, sizeAdd_of_lt (by omega), Nat.mod_add_mod]
  | @store n1 n2 ptr hpc =>
    rw [hpc] at hr
    obtain ⟨hl, hpart, rfl⟩ := hr
    refine ⟨hs.release hpart _, writerAt_mono hi.writer rfl rfl rfl (Nat.le_add_right _ _), ?_⟩
    by_cases hne : n2 = 0
    · subst hne
      exact hl
    · simp only [ne_eq, hne, not_false_eq_true, if_true]
      exact ⟨hl, hpart.second hs hne rfl rfl⟩

theorem invariant_initial {mem : List UInt8} (hpos : 1 ≤ size) (hlt : size < 2 ^ 63)
    (hm : mem.length = size) : (SharedRing.initial size mem).Invariant size := by
  refine ⟨⟨hlt, rfl, hm, le_rfl, by simp [SharedRing.initial]; omega, ?_, ?_,
    fun k _ hk => (Nat.not_lt_zero k hk).elim, rfl⟩, rfl, rfl⟩ <;>
  exact (Nat.zero_mod size).symm

theorem invariant_run {ps : List Party} (h : Run PartyStep s ps t) (hs : s.Invariant size) :
    t.Invariant size := by
  refine h.invariant (fun s p t hi hp => ?_) hs
  cases hp with
  | writer hw => exact writerStep_invariant hw hi
  | reader hr => exact readerStep_invariant hr hi

/-! No party ever waits for the other: its next access is always possible. -/

theorem writer_enabled (h : s.Invariant size) : ∃ t, WriterStep s t := by
  have hw := h.writer
  cases hpc : s.writer with
  | idle => exact ⟨_, .loadWrite .writeSpace hpc⟩
  | loadRead call w =>
    cases call with
    | writeSpace => exact ⟨_, .writeSpace hpc⟩
    | write src =>
      by_cases hfree : writeSpaceOf w s.rb.readPtr s.rb.size = 0
      · exact ⟨_, .full hpc hfree⟩
      · exact ⟨_, .accept hpc rfl hfree rfl⟩
  | loadCnt2 src toWrite =>
    by_cases hgt : sizeAdd s.rb.writePtr toWrite > s.rb.size
    · exact ⟨_, .wraps hpc rfl hgt⟩
    · exact ⟨_, .fits hpc hgt⟩
  | loadN1 src cnt2 => exact ⟨_, .loadN1 hpc⟩
  | loadDest src n1 n2 => exact ⟨_, .loadDest hpc⟩
  | copy src n1 n2 dest i =>
    rw [hpc] at hw
    obtain ⟨hpart, -, hi, -⟩ := hw
    have := hpart.pending.le_length
    rcases Nat.lt_or_eq_of_le hi with hlt | rfl
    · exact ⟨_, .copyByte hpc hlt (List.getElem?_eq_getElem (by omega))⟩
    · exact ⟨_, .loadSum hpc⟩
  | store src n1 n2 ptr => exact ⟨_, .store hpc⟩

theorem reader_enabled (h : s.Invariant size) : ∃ t, ReaderStep s t := by
  have hs := h.shared
  have hr := h.reader
  cases hpc : s.reader with
  | idle => exact ⟨_, .loadWrite .readSpace hpc⟩
  | loadRead call w =>
    cases call with
    | readSpace => exact ⟨_, .readSpace hpc⟩
    | read cnt =>
      by_cases hfree : readSpaceOf w s.rb.readPtr s.rb.size = 0
      · exact ⟨_, .empty hpc hfree⟩
      · exact ⟨_, .begin hpc rfl hfree rfl⟩
  | loadCnt2 toRead =>
    by_cases hgt : sizeAdd s.rb.readPtr toRead > s.rb.size
    · exact ⟨_, .wraps hpc rfl hgt⟩
    · exact ⟨_, .fits hpc hgt⟩
  | loadN1 cnt2 => exact ⟨_, .loadN1 hpc⟩
  | loadSrc n1 n2 => exact ⟨_, .loadSrc hpc⟩
  | copy n1 n2 src i =>
    rw [hpc] at hr
    obtain ⟨-, hpart, rfl, hi⟩ := hr
    have hfits := hpart.fits
    have hlen := hs.length_buf
    rcases Nat.lt_or_eq_of_le hi with hlt | rfl
    · exact ⟨_, .copyByte hpc hlt (List.getElem?_eq_getElem (by omega))⟩
    · exact ⟨_, .loadSum hpc⟩
  | store n1 n2 ptr => exact ⟨_, .store hpc⟩

/-- While no call is under way, the ring holds exactly what was accepted and not yet obtained. -/
theorem SharedRing.Invariant.idle_contents (h : s.Invariant size) (hw : s.writer = .idle)
    (hr : s.reader = .idle) : s.accepted = s.obtained ++ s.rb.contents := by
  have hs := h.shared
  have hacc := h.writer
  have hobt := h.reader
  rw [hw] at hacc
  rw [hr] at hobt
  change s.accepted.length = s.published at hacc
  change s.obtained.length = s.released at hobt
  have hlt := hs.published_lt
  have hle := hs.released_le
  have hspace : ringbufferReadSpace s.rb = s.published - s.released := by
    rw [ringbufferReadSpace, hs.writePtr_eq, hs.readPtr_eq, hs.size_eq]
    exact readSpaceOf_counts hs.size_lt hle hlt
  have hcont : s.rb.contents = s.accepted.drop s.released := by
    have hn : s.published - s.released ≤ s.rb.buf.length := by rw [hs.length_buf]; omega
    rw [Ringbuffer.contents, hspace]
    refine ext_of_lt (length_window hn) (by simp [hacc]) fun i hi => ?_
    rw [getElem?_window hn hi, hs.readPtr_eq, hs.length_buf, Nat.mod_add_mod,
      List.getElem?_drop]
    exact hs.cells _ (by omega) (by omega)
  rw [hcont, hs.obtained_eq, hobt, List.take_append_drop]

/-- No byte is lost, duplicated, reordered, or read before it was stored. -/
theorem spsc_prefix_obtained {mem : List UInt8} {ps : List Party} (hpos : 1 ≤ size)
    (hlt : size < 2 ^ 63) (hm : mem.length = size)
    (h : Run PartyStep (SharedRing.initial size mem) ps s) :
    s.obtained <+: s.accepted ∧
      (s.writer = .idle → s.reader = .idle → s.accepted = s.obtained ++ s.rb.contents) := by
  have hi := invariant_run h (invariant_initial hpos hlt hm)
  refine ⟨?_, hi.idle_contents⟩
  rw [hi.shared.obtained_eq]
  exact List.take_prefix _ _

/-- The writer stores one byte; the reader copies it while the writer is in its next call. -/
theorem spsc_prefix_obtained_byte :
    ∃ (ps : List Party) (s : SharedRing), Run PartyStep (SharedRing.initial 2 [0, 0]) ps s ∧
      s.accepted = [7] ∧ s.obtained = [7] ∧ s.obtained <+: s.accepted := by
  have hw : Run PartyStep (SharedRing.initial 2 [0, 0]) _ _ :=
    (((((((Run.single (.writer (.loadWrite (.write [7]) rfl))).snoc
      (.writer (.accept rfl rfl (by decide) rfl))).snoc
      (.writer (.fits rfl (by decide)))).snoc
      (.writer (.loadDest rfl))).snoc
      (.writer (.copyByte rfl (by decide) rfl))).snoc
      (.writer (.loadSum rfl))).snoc
      (.writer (.store rfl))).snoc
      (.writer (.loadWrite (.write [8]) rfl))
  have hr := ((((hw.snoc
      (.reader (.loadWrite (.read 1) rfl))).snoc
      (.reader (.begin rfl rfl (by decide) rfl))).snoc
      (.reader (.fits rfl (by decide)))).snoc
      (.reader (.loadSrc rfl))).snoc
      (.reader (.copyByte rfl (by decide) rfl))
  exact ⟨_, _, hr, rfl, rfl, (spsc_prefix_obtained (by decide) (by decide) rfl hr).1⟩

end Vban
