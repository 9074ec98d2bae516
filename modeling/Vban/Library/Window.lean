import Mathlib.Data.List.Rotate
import Mathlib.Data.Nat.ModEq

/-! Windows into a circular buffer, writes that wrap around its end, and the circular array that
keeps the last values of a sequence. -/
namespace Vban.Library

section Windows

variable {α : Type*} {buf buf' : List α} {r w m n i : Nat} {xs : List α}

/-- The `n` cells from position `r` on, in circular order. -/
def window (buf : List α) (r n : Nat) : List α := (buf.rotate r).take n

/-- Replace the cells from `at` on by `xs`. -/
def overwrite (buf : List α) (start : Nat) (xs : List α) : List α :=
  buf.take start ++ xs ++ buf.drop (start + xs.length)

theorem add_mod_inj {L a b : Nat} (ha : a < L) (hb : b < L) (h : (r + a) % L = (r + b) % L) :
    a = b :=
  Nat.ModEq.eq_of_lt_of_lt (Nat.ModEq.add_left_cancel' r h) ha hb

theorem length_window (hn : n ≤ buf.length) : (window buf r n).length = n := by
  simp [window, hn]

theorem getElem?_window (hn : n ≤ buf.length) (hi : i < n) :
    (window buf r n)[i]? = buf[(r + i) % buf.length]? := by
  rw [window, List.getElem?_take_of_lt hi, List.getElem?_rotate (by omega), Nat.add_comm]

/-- Two lists of one length are equal when they agree below that length. -/
theorem ext_of_lt {ys : List α} {k : Nat} (hx : xs.length = k) (hy : ys.length = k)
    (h : ∀ i, i < k → xs[i]? = ys[i]?) : xs = ys := by
  apply List.ext_getElem?
  intro i
  by_cases hi : i < k
  · exact h i hi
  · rw [List.getElem?_eq_none (by omega), List.getElem?_eq_none (by omega)]

theorem window_add (h : m + n ≤ buf.length) :
    window buf r (m + n) = window buf r m ++ window buf ((r + m) % buf.length) n := by
  have hm := length_window (r := r) (show m ≤ buf.length by omega)
  have hn := length_window (r := (r + m) % buf.length) (show n ≤ buf.length by omega)
  refine ext_of_lt (length_window h) (by simp [hm, hn]) fun i hi => ?_
  rw [getElem?_window h hi]
  by_cases him : i < m
  · rw [List.getElem?_append_left (by omega), getElem?_window (by omega) him]
  · rw [List.getElem?_append_right (by omega), hm, getElem?_window (by omega) (by omega),
      Nat.mod_add_mod]
    congr 2
    omega

theorem take_window (h : m ≤ n) :
    (window buf r n).take m = window buf r m := by
  simp [window, List.take_take, Nat.min_eq_left h]

theorem drop_window (hn : n ≤ buf.length) (h : m ≤ n) :
    (window buf r n).drop m = window buf ((r + m) % buf.length) (n - m) := by
  obtain ⟨k, rfl⟩ := Nat.exists_eq_add_of_le h
  rw [window_add hn, List.drop_left' (length_window (by omega)), Nat.add_sub_cancel_left]

/-- A window that does not reach past the end is a slice. -/
theorem window_eq_slice (hr : r ≤ buf.length) (h : r + n ≤ buf.length) :
    window buf r n = (buf.drop r).take n := by
  rw [window, List.rotate_eq_drop_append_take hr, List.take_append_of_le_length]
  rw [List.length_drop]
  omega

/-- A window that reaches past the end is the rest of the buffer and its start. -/
theorem window_eq_parts (hr : r < buf.length) (h : buf.length ≤ r + n) (hn : n ≤ buf.length) :
    window buf r n =
      (buf.drop r).take (buf.length - r) ++ buf.take (n - (buf.length - r)) := by
  obtain ⟨k, rfl⟩ := Nat.exists_eq_add_of_le (show buf.length - r ≤ n by omega)
  have hz : (r + (buf.length - r)) % buf.length = 0 := by
    rw [Nat.add_sub_of_le hr.le, Nat.mod_self]
  rw [window_add hn, window_eq_slice hr.le (by omega), hz, window_eq_slice (by omega) (by omega)]
  simp

@[simp] theorem length_overwrite (h : w + xs.length ≤ buf.length) :
    (overwrite buf w xs).length = buf.length := by
  simp [overwrite]
  omega

theorem getElem?_overwrite (h : w + xs.length ≤ buf.length) :
    (overwrite buf w xs)[i]? =
      if w ≤ i ∧ i < w + xs.length then xs[i - w]? else buf[i]? := by
  have hw : (buf.take w).length = w := by simp; omega
  rw [overwrite, List.append_assoc]
  split_ifs with hi
  · rw [List.getElem?_append_right (by omega), hw, List.getElem?_append_left (by omega)]
  · by_cases hlt : i < w
    · rw [List.getElem?_append_left (by omega), List.getElem?_take_of_lt hlt]
    · rw [List.getElem?_append_right (by omega), hw, List.getElem?_append_right (by omega),
        List.getElem?_drop]
      congr 1
      omega

theorem overwrite_zero : overwrite buf 0 xs = xs ++ buf.drop xs.length := by
  simp [overwrite]

theorem overwrite_append {ys : List α} (h : w ≤ buf.length) :
    overwrite (overwrite buf w xs) (w + xs.length) ys = overwrite buf w (xs ++ ys) := by
  have htake : (buf.take w).length = w := List.length_take_of_le h
  have hdone : (buf.take w ++ xs).length = w + xs.length := by rw [List.length_append, htake]
  rw [overwrite, overwrite, List.take_left' hdone, ← List.drop_drop, List.drop_left' hdone,
    List.drop_drop, overwrite, List.length_append, Nat.add_assoc, List.append_assoc,
    List.append_assoc, List.append_assoc, List.append_assoc]

theorem overwrite_overwrite {ys : List α} (h : xs.length = n) :
    overwrite (overwrite buf 0 xs) n ys = overwrite buf 0 (xs ++ ys) := by
  have happend : overwrite (overwrite buf 0 xs) (0 + xs.length) ys = overwrite buf 0 (xs ++ ys) :=
    overwrite_append (Nat.zero_le _)
  rwa [Nat.zero_add, h] at happend

theorem set_eq_overwrite {x : α} (h : w < buf.length) : buf.set w x = overwrite buf w [x] := by
  rw [overwrite, List.set_eq_take_append_cons_drop, if_pos h]
  simp

/-- A loop that stores item by item stores the list of them. -/
theorem foldl_set_range (f : Nat → α) (h : w + n ≤ buf.length) :
    (List.range n).foldl (fun buf i => buf.set (w + i) (f i)) buf =
      overwrite buf w ((List.range n).map f) := by
  induction n with
  | zero => simp [overwrite]
  | succ n ih =>
    have hmap : ((List.range n).map f).length = n := by simp
    have hlen : (overwrite buf w ((List.range n).map f)).length = buf.length := by
      apply length_overwrite
      omega
    have happend : overwrite (overwrite buf w ((List.range n).map f))
        (w + ((List.range n).map f).length) [f n] =
          overwrite buf w ((List.range n).map f ++ [f n]) := overwrite_append (by omega)
    rw [hmap] at happend
    rw [List.range_succ, List.foldl_append, ih (by omega), List.foldl_cons, List.foldl_nil,
      set_eq_overwrite (by omega), happend, List.map_append, List.map_singleton]

/-- `buf'` is `buf` with `xs` stored from `w` on in circular order, and nothing else changed. -/
structure CyclicWrite (buf : List α) (w : Nat) (xs buf' : List α) : Prop where
  length_eq : buf'.length = buf.length
  stored : ∀ j, j < xs.length → buf'[(w + j) % buf.length]? = xs[j]?
  untouched : ∀ i, i < buf.length → (∀ j, j < xs.length → i ≠ (w + j) % buf.length) →
    buf'[i]? = buf[i]?

theorem CyclicWrite.overwrite (h : w + xs.length ≤ buf.length) :
    CyclicWrite buf w xs (overwrite buf w xs) := by
  refine ⟨length_overwrite h, fun j hj => ?_, fun i _ hne => ?_⟩
  · rw [Nat.mod_eq_of_lt (by omega), getElem?_overwrite h, if_pos (by omega),
      Nat.add_sub_cancel_left]
  · rw [getElem?_overwrite h, if_neg]
    rintro ⟨hwi, hiw⟩
    apply hne (i - w) (by omega)
    rw [Nat.mod_eq_of_lt (by omega)]
    omega

theorem CyclicWrite.append {ys buf'' : List α} (h : CyclicWrite buf w xs buf')
    (k : CyclicWrite buf' ((w + xs.length) % buf.length) ys buf'')
    (hl : xs.length + ys.length ≤ buf.length) : CyclicWrite buf w (xs ++ ys) buf'' := by
  have hy : ∀ j, j < ys.length → (w + xs.length + j) % buf.length =
      ((w + xs.length) % buf.length + j) % buf'.length := by
    intro j _
    rw [h.length_eq, Nat.mod_add_mod]
  refine ⟨k.length_eq.trans h.length_eq, fun j hj => ?_, fun i hi hne => ?_⟩
  · rw [List.length_append] at hj
    by_cases hjx : j < xs.length
    · rw [List.getElem?_append_left hjx, ← h.stored j hjx]
      apply k.untouched _ (by rw [h.length_eq]; exact Nat.mod_lt _ (by omega))
      intro j' hj' he
      rw [← hy j' hj', Nat.add_assoc] at he
      have := add_mod_inj (by omega) (by omega) he
      omega
    · have hs := k.stored (j - xs.length) (by omega)
      rw [← hy _ (by omega), show w + xs.length + (j - xs.length) = w + j by omega] at hs
      rw [hs, List.getElem?_append_right (by omega)]
  · rw [k.untouched i (by rw [h.length_eq]; exact hi) fun j hj he => ?_,
      h.untouched i hi fun j hj => ?_]
    · exact hne j (by rw [List.length_append]; omega)
    · rw [← hy j hj, Nat.add_assoc] at he
      exact hne (xs.length + j) (by rw [List.length_append]; omega) he

/-- Store `xs` from `w` on: up to the end of the buffer, then from its start. -/
def cyclicOverwrite (buf : List α) (w : Nat) (xs : List α) : List α :=
  if w + xs.length ≤ buf.length then overwrite buf w xs
  else overwrite (overwrite buf w (xs.take (buf.length - w))) 0 (xs.drop (buf.length - w))

theorem CyclicWrite.cyclicOverwrite (hw : w < buf.length) (h : xs.length ≤ buf.length) :
    CyclicWrite buf w xs (cyclicOverwrite buf w xs) := by
  rw [Library.cyclicOverwrite]
  split_ifs with hfit
  · exact CyclicWrite.overwrite hfit
  · have hx : (xs.take (buf.length - w)).length = buf.length - w := by simp; omega
    have hfirst : CyclicWrite buf w (xs.take (buf.length - w)) _ := .overwrite (by omega)
    have hz : (w + (xs.take (buf.length - w)).length) % buf.length = 0 := by
      rw [hx, Nat.add_sub_of_le hw.le, Nat.mod_self]
    have hsecond : CyclicWrite (Library.overwrite buf w (xs.take (buf.length - w))) 0
        (xs.drop (buf.length - w)) _ :=
      .overwrite (by rw [length_overwrite (by omega), List.length_drop]; omega)
    have := hfirst.append (by rw [hz]; exact hsecond)
      (by rw [hx, List.length_drop]; omega)
    rwa [List.take_append_drop] at this

/-- Storing behind a window extends the window by what was stored. -/
theorem CyclicWrite.window (h : CyclicWrite buf w xs buf') (hw : w = (r + n) % buf.length)
    (hl : n + xs.length ≤ buf.length) :
    window buf' r (n + xs.length) = window buf r n ++ xs := by
  have hn := length_window (r := r) (show n ≤ buf.length by omega)
  have hb := h.length_eq
  refine ext_of_lt (length_window (by omega)) (by simp [hn]) fun i hi => ?_
  rw [getElem?_window (by omega) hi, hb]
  by_cases hin : i < n
  · rw [List.getElem?_append_left (by omega), getElem?_window (by omega) hin]
    apply h.untouched _ (Nat.mod_lt _ (by omega))
    intro j hj he
    rw [hw, Nat.mod_add_mod, Nat.add_assoc] at he
    have := add_mod_inj (by omega) (by omega) he
    omega
  · rw [List.getElem?_append_right (by omega), hn, ← h.stored (i - n) (by omega), hw,
      Nat.mod_add_mod]
    congr 2
    omega

end Windows

section Recent

variable {α : Type*} {v x : α} {xs buf : List α} {size i : Nat}

/-- The last `size` of `xs`, behind as many `v` as are missing. -/
def recent (size : Nat) (v : α) (xs : List α) : List α :=
  (List.replicate size v ++ xs).drop xs.length

@[simp] theorem recent_nil : recent size v [] = List.replicate size v := by
  simp [recent]

@[simp] theorem length_recent : (recent size v xs).length = size := by
  simp [recent]

/-- The oldest value goes out when one comes in. -/
theorem recent_snoc (h : 0 < size) :
    recent size v (xs ++ [x]) = (recent size v xs).tail ++ [x] := by
  rw [recent, recent, List.length_append, List.length_singleton, ← List.append_assoc,
    List.drop_append_of_le_length (by rw [List.length_append, List.length_replicate]; omega),
    List.tail_drop]

/-- The array holds the last `size` values, the oldest at position `i`. -/
structure KeepsRecent (size : Nat) (v : α) (xs buf : List α) (i : Nat) : Prop where
  length_eq : buf.length = size
  index_lt : i < size
  rotate_eq : buf.rotate i = recent size v xs

theorem keepsRecent_start (h : 0 < size) :
    KeepsRecent size v [] (List.replicate size v) 0 :=
  ⟨List.length_replicate, h, by rw [List.rotate_zero, recent_nil]⟩

theorem rotate_set_succ (h : i < buf.length) :
    (buf.set i x).rotate ((i + 1) % buf.length) = (buf.rotate i).tail ++ [x] := by
  obtain ⟨front, back, hbuf, rfl, hset⟩ : ∃ front back, buf = front ++ buf[i] :: back ∧
      front.length = i ∧ buf.set i x = front ++ x :: back := List.exists_of_set h
  have hsplit : front ++ x :: back = (front ++ [x]) ++ back := by simp
  have hlength : buf.length = ((front ++ [x]) ++ back).length := by
    rw [hbuf]
    simp
  have hfront : front.length + 1 = (front ++ [x]).length := by simp
  rw [hset, hsplit, hlength, List.rotate_mod, hfront, List.rotate_append_length_eq, hbuf,
    List.rotate_append_length_eq, List.cons_append, List.tail_cons, List.append_assoc]

/-- The newest value replaces the oldest. -/
theorem KeepsRecent.push (h : KeepsRecent size v xs buf i) :
    KeepsRecent size v (xs ++ [x]) (buf.set i x) ((i + 1) % size) := by
  have hpos := Nat.zero_lt_of_lt h.index_lt
  refine ⟨List.length_set.trans h.length_eq, Nat.mod_lt _ hpos, ?_⟩
  rw [recent_snoc hpos, ← h.rotate_eq, ← h.length_eq]
  exact rotate_set_succ (h.length_eq.symm ▸ h.index_lt)

theorem KeepsRecent.perm (h : KeepsRecent size v xs buf i) : buf.Perm (recent size v xs) := by
  rw [← h.rotate_eq]
  exact (List.rotate_perm buf i).symm

end Recent

end Vban.Library
