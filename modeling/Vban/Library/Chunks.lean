import Mathlib.Data.List.Basic

/-! A list cut into pieces of one size. -/
namespace Vban.Library

variable {α : Type*} {size n : Nat} {xs : List α}

/-- The first `n` pieces of `size` items each. -/
def chunks (size : Nat) : Nat → List α → List (List α)
  | 0, _ => []
  | n + 1, xs => xs.take size :: chunks size n (xs.drop size)

@[simp] theorem length_chunks : (chunks size n xs).length = n := by
  induction n generalizing xs with
  | zero => rfl
  | succ n ih => simp [chunks, ih]

theorem length_of_mem_chunks (h : n * size ≤ xs.length) {c : List α} (hc : c ∈ chunks size n xs) :
    c.length = size := by
  induction n generalizing xs with
  | zero => cases hc
  | succ n ih =>
    rw [Nat.succ_mul] at h
    rcases List.mem_cons.mp hc with rfl | hc
    · rw [List.length_take]
      omega
    · apply ih _ hc
      rw [List.length_drop]
      omega

theorem mem_of_mem_chunks {c : List α} {x : α} (hc : c ∈ chunks size n xs) (hx : x ∈ c) :
    x ∈ xs := by
  induction n generalizing xs with
  | zero => cases hc
  | succ n ih =>
    rcases List.mem_cons.mp hc with rfl | hc
    · exact List.mem_of_mem_take hx
    · exact List.mem_of_mem_drop (ih hc)

theorem flatten_chunks (h : xs.length = n * size) : (chunks size n xs).flatten = xs := by
  induction n generalizing xs with
  | zero =>
    rw [Nat.zero_mul] at h
    simp [chunks, List.length_eq_zero_iff.mp h]
  | succ n ih =>
    rw [Nat.succ_mul] at h
    rw [chunks, List.flatten_cons, ih, List.take_append_drop]
    rw [List.length_drop]
    omega

theorem chunks_take : chunks size n (xs.take (n * size)) = chunks size n xs := by
  induction n generalizing xs with
  | zero => rfl
  | succ n ih =>
    have htake : (xs.take ((n + 1) * size)).take size = xs.take size := by
      rw [List.take_take, Nat.min_eq_left (Nat.le_mul_of_pos_left size n.succ_pos)]
    have hdrop : (xs.take ((n + 1) * size)).drop size = (xs.drop size).take (n * size) := by
      rw [List.drop_take, Nat.succ_mul, Nat.add_sub_cancel]
    rw [chunks, chunks, htake, hdrop, ih]

/-- Pieces put together are cut out again. -/
theorem chunks_flatten_append {cs : List (List α)} (h : ∀ c ∈ cs, c.length = size) :
    chunks size cs.length (cs.flatten ++ xs) = cs := by
  induction cs with
  | nil => rfl
  | cons c cs ih =>
    obtain ⟨hc, hcs⟩ := List.forall_mem_cons.mp h
    rw [List.length_cons, chunks, List.flatten_cons, List.append_assoc, List.take_left' hc,
      List.drop_left' hc, ih hcs]

/-- An item of a piece lies that far behind the pieces before. -/
theorem getElem?_flatten_of_length {cs : List (List α)} {i k : Nat}
    (h : ∀ c ∈ cs, c.length = size) (hk : k < size) :
    cs.flatten[i * size + k]? = cs[i]?.bind (·[k]?) := by
  induction cs generalizing i with
  | nil => rfl
  | cons c cs ih =>
    obtain ⟨hc, hcs⟩ := List.forall_mem_cons.mp h
    rw [List.flatten_cons]
    cases i with
    | zero =>
      rw [Nat.zero_mul, Nat.zero_add, List.getElem?_append_left (by omega)]
      rfl
    | succ i =>
      rw [Nat.succ_mul, List.getElem?_append_right (by omega), List.getElem?_cons_succ, ← ih hcs]
      congr 1
      omega

/-- Of items that are written to pieces of one size, each stands in its own piece. -/
theorem drop_take_flatMap {β : Type*} {f : α → List β} {rest : List β} {j : Nat}
    (hf : ∀ x, (f x).length = size) (hj : j < xs.length) :
    ((xs.flatMap f ++ rest).drop (j * size)).take size = f xs[j] := by
  induction xs generalizing j with
  | nil => exact absurd hj (Nat.not_lt_zero j)
  | cons x xs ih =>
    rw [List.flatMap_cons, List.append_assoc]
    cases j with
    | zero => rw [Nat.zero_mul, List.drop_zero, List.take_left' (hf x), List.getElem_cons_zero]
    | succ j =>
      rw [Nat.succ_mul, Nat.add_comm, ← List.drop_drop, List.drop_left' (hf x),
        ih (Nat.lt_of_succ_lt_succ hj), List.getElem_cons_succ]

theorem length_flatMap_chunks {β : Type*} {f : List α → List β} {k : Nat}
    (hf : ∀ c ∈ chunks size n xs, (f c).length = k) :
    ((chunks size n xs).flatMap f).length = n * k := by
  rw [List.length_flatMap, List.map_congr_left hf]
  simp

/-- A function that keeps the size of each piece fixes a list iff it fixes each piece. -/
theorem flatMap_chunks_eq_iff {f : List α → List α} (h : xs.length = n * size)
    (hf : ∀ c ∈ chunks size n xs, (f c).length = c.length) :
    (chunks size n xs).flatMap f = xs ↔ ∀ c ∈ chunks size n xs, f c = c := by
  have hlen : ((chunks size n xs).map f).map List.length = (chunks size n xs).map List.length := by
    rw [List.map_map]
    exact List.map_congr_left hf
  constructor
  · intro heq
    rw [List.flatMap_def] at heq
    have hmap : (chunks size n xs).map f = (chunks size n xs).map id := by
      apply List.eq_iff_flatten_eq.mpr
      rw [List.map_id]
      exact ⟨heq.trans (flatten_chunks h).symm, hlen⟩
    exact List.map_inj_left.mp hmap
  · intro heq
    rw [List.flatMap_def, List.map_congr_left heq, List.map_id'', flatten_chunks h]
    intro c
    rfl

end Vban.Library
