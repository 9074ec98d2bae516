import Mathlib.Data.List.GetD
import Mathlib.Data.List.Sort

/-! The entry of a given rank of a list, and arrays that are put in order by swaps. -/
namespace Vban.Library

variable {α : Type*} {d t x : α} {i j k : Nat} {xs ys u v : List α}

/-- Exchange the entries at `i` and `j`. -/
def swapEntries (d : α) (xs : List α) (i j : Nat) : List α :=
  (xs.set j (xs.getD i d)).set i (xs.getD j d)

@[simp] theorem length_swapEntries (i j : Nat) : (swapEntries d xs i j).length = xs.length := by
  simp [swapEntries]

theorem swapEntries_perm (hi : i < xs.length) (hj : j < xs.length) :
    (swapEntries d xs i j).Perm xs := by
  rw [swapEntries, List.getD_eq_getElem xs d hi, List.getD_eq_getElem xs d hj]
  exact List.set_set_perm hj hi

theorem getD_swapEntries (hi : i < xs.length) (hj : j < xs.length) (k : Nat) :
    (swapEntries d xs i j).getD k d =
      xs.getD (if k = i then j else if k = j then i else k) d := by
  simp only [swapEntries, List.getD_eq_getElem?_getD, List.getElem?_set, List.length_set]
  by_cases hki : k = i
  · rw [if_pos hki.symm, if_pos hi, if_pos hki, List.getElem?_eq_getElem hj]
    rfl
  · rw [if_neg (Ne.symm hki), if_neg hki]
    by_cases hkj : k = j
    · rw [if_pos hkj.symm, if_pos hj, if_pos hkj, List.getElem?_eq_getElem hi]
      rfl
    · rw [if_neg (Ne.symm hkj), if_neg hkj]

/-- Two entries side by side change places. -/
theorem swapEntries_append {a b : α} :
    swapEntries d (u ++ a :: b :: v) u.length (u.length + 1) = u ++ b :: a :: v := by
  simp [swapEntries]

variable [LinearOrder α]

/-- The entry at position `k` of the sorted list. -/
def nthSmallest (d : α) (xs : List α) (k : Nat) : α := (xs.insertionSort (· ≤ ·)).getD k d

def median (d : α) (xs : List α) : α := nthSmallest d xs (xs.length / 2)

theorem nthSmallest_of_sorted (hs : ys.Pairwise (· ≤ ·)) (hp : ys.Perm xs) (k : Nat) :
    nthSmallest d xs k = ys.getD k d := by
  have hsort : xs.insertionSort (· ≤ ·) = ys := by
    apply List.Perm.eq_of_pairwise' (List.pairwise_insertionSort (· ≤ ·) xs) hs
    exact (List.perm_insertionSort (· ≤ ·) xs).trans hp.symm
  rw [nthSmallest, hsort]

theorem nthSmallest_perm (h : xs.Perm ys) (k : Nat) : nthSmallest d xs k = nthSmallest d ys k :=
  nthSmallest_of_sorted (List.pairwise_insertionSort (· ≤ ·) ys)
    ((List.perm_insertionSort (· ≤ ·) ys).trans h.symm) k

/-- In a sorted list the entries with a property of all small values come first. -/
theorem lt_countP_iff (hs : ys.Pairwise (· ≤ ·)) {p : α → Bool} (hp : ∀ a b, a ≤ b → p b → p a)
    (hk : k < ys.length) : k < ys.countP p ↔ p (ys.getD k d) := by
  induction ys generalizing k with
  | nil => exact absurd hk (Nat.not_lt_zero k)
  | cons y ys ih =>
    obtain ⟨hle, hs⟩ := List.pairwise_cons.mp hs
    by_cases hy : p y
    · rw [List.countP_cons_of_pos hy]
      cases k with
      | zero => simp [hy]
      | succ k =>
        rw [Nat.succ_lt_succ_iff, List.getD_cons_succ]
        exact ih hs (Nat.lt_of_succ_lt_succ hk)
    · have hnone : ∀ z ∈ y :: ys, ¬p z := by
        intro z hz h
        rcases List.mem_cons.mp hz with rfl | hz
        · exact hy h
        · exact hy (hp y z (hle z hz) h)
      rw [List.countP_eq_zero.mpr hnone, List.getD_eq_getElem _ d hk]
      exact iff_of_false (Nat.not_lt_zero k) (hnone _ (List.getElem_mem hk))

/-- The entry of rank `k` is told by how many entries are below it and how many are not above. -/
theorem nthSmallest_eq_iff (hk : k < xs.length) :
    nthSmallest d xs k = t ↔
      xs.countP (fun y => decide (y < t)) ≤ k ∧ k < xs.countP (fun y => decide (y ≤ t)) := by
  have hperm := List.perm_insertionSort (· ≤ ·) xs
  have hsorted := List.pairwise_insertionSort (· ≤ ·) xs
  have hlength : k < (xs.insertionSort (· ≤ ·)).length := by rwa [List.length_insertionSort]
  have hbelow := lt_countP_iff (d := d) hsorted (p := fun y => decide (y < t))
    (fun a b hab hb => by simpa using hab.trans_lt (by simpa using hb)) hlength
  have hupto := lt_countP_iff (d := d) hsorted (p := fun y => decide (y ≤ t))
    (fun a b hab hb => by simpa using hab.trans (by simpa using hb)) hlength
  rw [hperm.countP_eq, decide_eq_true_eq] at hbelow hupto
  rw [← Nat.not_lt, hbelow, hupto, not_lt, nthSmallest]
  exact ⟨fun h => ⟨h.ge, h.le⟩, fun h => le_antisymm h.2 h.1⟩

theorem nthSmallest_mem (hk : k < xs.length) : nthSmallest d xs k ∈ xs := by
  have hlength : k < (xs.insertionSort (· ≤ ·)).length := by rwa [List.length_insertionSort]
  rw [nthSmallest, List.getD_eq_getElem _ d hlength]
  exact (List.mem_insertionSort (· ≤ ·)).mp (List.getElem_mem hlength)

theorem pairwise_append_cons (hs : (u ++ v).Pairwise (· ≤ ·)) (hu : ∀ a ∈ u, a ≤ x)
    (hv : ∀ b ∈ v, x ≤ b) : (u ++ x :: v).Pairwise (· ≤ ·) := by
  obtain ⟨hsu, hsv, hle⟩ := List.pairwise_append.mp hs
  refine List.pairwise_append.mpr ⟨hsu, List.pairwise_cons.mpr ⟨hv, hsv⟩, ?_⟩
  intro a ha b hb
  rcases List.mem_cons.mp hb with rfl | hb
  · exact hu a ha
  · exact hle a ha b hb

/-- The first `i` entries are in order, and none after them is smaller. -/
def SortedUpTo (d : α) (xs : List α) (i : Nat) : Prop :=
  ∀ j < i, ∀ k, j ≤ k → k < xs.length → xs.getD j d ≤ xs.getD k d

theorem sortedUpTo_zero : SortedUpTo d xs 0 := by
  intro j hj
  exact absurd hj (Nat.not_lt_zero j)

/-- The smallest of the other entries goes behind the first `i`. -/
theorem SortedUpTo.swap {m : Nat} (h : SortedUpTo d xs i) (hi : i ≤ m) (hm : m < xs.length)
    (hmin : ∀ k, i ≤ k → k < xs.length → xs.getD m d ≤ xs.getD k d) :
    SortedUpTo d (swapEntries d xs i m) (i + 1) := by
  intro j hj k hjk hk
  rw [length_swapEntries] at hk
  rw [getD_swapEntries (hi.trans_lt hm) hm, getD_swapEntries (hi.trans_lt hm) hm]
  rcases Nat.lt_succ_iff_lt_or_eq.mp hj with hj | rfl
  · rw [if_neg (by omega), if_neg (by omega)]
    split_ifs with hki hkm
    · exact h j hj m (by omega) hm
    · exact h j hj i hj.le (hi.trans_lt hm)
    · exact h j hj k hjk hk
  · rw [if_pos rfl]
    split_ifs with hki hkm
    · exact le_refl _
    · exact hmin j (Nat.le_refl j) (hi.trans_lt hm)
    · exact hmin k hjk hk

theorem SortedUpTo.pairwise (h : SortedUpTo d xs i) (hi : xs.length ≤ i + 1) :
    xs.Pairwise (· ≤ ·) := by
  refine List.pairwise_iff_getElem.mpr ?_
  intro j k hj hk hjk
  have hle := h j (by omega) k hjk.le hk
  rwa [List.getD_eq_getElem xs d hj, List.getD_eq_getElem xs d hk] at hle

end Vban.Library
