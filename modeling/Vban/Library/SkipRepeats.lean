import Mathlib.Data.List.Basic
import Mathlib.Order.Basic

/-! A filter that drops an element when it has the key of the element it saw last. -/
namespace Vban.Library

variable {α κ : Type*} {key : α → κ} {last : κ} {x y : α} {xs ys : List α}

/-- The key that is remembered after `xs`. -/
def lastKey (key : α → κ) (last : κ) (xs : List α) : κ := xs.foldl (fun _ x => key x) last

theorem lastKey_append (xs ys : List α) :
    lastKey key last (xs ++ ys) = lastKey key (lastKey key last xs) ys :=
  List.foldl_append

variable [DecidableEq κ]

def skipRepeats (key : α → κ) : κ → List α → List α
  | _, [] => []
  | last, x :: xs =>
    if key x = last then skipRepeats key last xs else x :: skipRepeats key (key x) xs

theorem skipRepeats_cons_eq (h : key x = last) :
    skipRepeats key last (x :: xs) = skipRepeats key last xs := by
  rw [skipRepeats, if_pos h]

theorem skipRepeats_cons_ne (h : key x ≠ last) :
    skipRepeats key last (x :: xs) = x :: skipRepeats key (key x) xs := by
  rw [skipRepeats, if_neg h]

theorem skipRepeats_append : skipRepeats key last (xs ++ ys) =
    skipRepeats key last xs ++ skipRepeats key (lastKey key last xs) ys := by
  induction xs generalizing last with
  | nil => rfl
  | cons x xs ih =>
    by_cases h : key x = last
    · rw [List.cons_append, skipRepeats_cons_eq h, skipRepeats_cons_eq h, ih, lastKey, lastKey,
        List.foldl_cons, h]
    · rw [List.cons_append, skipRepeats_cons_ne h, skipRepeats_cons_ne h, ih, List.cons_append]
      rfl

theorem skipRepeats_sublist : List.Sublist (skipRepeats key last xs) xs := by
  induction xs generalizing last with
  | nil => exact .slnil
  | cons x xs ih =>
    by_cases h : key x = last
    · rw [skipRepeats_cons_eq h]
      exact ih.cons x
    · rw [skipRepeats_cons_ne h]
      exact ih.cons_cons x

/-- What is dropped has the key remembered at the start or that of an element kept. -/
theorem mem_skipRepeats_of_mem (key : α → κ) (last : κ) (hy : y ∈ xs) :
    key y = last ∨ ∃ z ∈ skipRepeats key last xs, key z = key y := by
  induction xs generalizing last with
  | nil => exact nomatch hy
  | cons x xs ih =>
    by_cases h : key x = last
    · rw [skipRepeats_cons_eq h]
      rcases List.mem_cons.mp hy with rfl | hy
      · exact .inl h
      · exact ih last hy
    · rw [skipRepeats_cons_ne h]
      rcases List.mem_cons.mp hy with rfl | hy
      · exact .inr ⟨y, List.mem_cons_self, rfl⟩
      · rcases ih (key x) hy with hx | ⟨z, hz, hzy⟩
        · exact .inr ⟨x, List.mem_cons_self, hx.symm⟩
        · exact .inr ⟨z, List.mem_cons_of_mem x hz, hzy⟩

theorem key_ne_of_skipRepeats_eq (h : skipRepeats key last xs = x :: ys) : key x ≠ last := by
  induction xs with
  | nil => exact nomatch h
  | cons z xs ih =>
    by_cases hz : key z = last
    · rw [skipRepeats_cons_eq hz] at h
      exact ih h
    · rw [skipRepeats_cons_ne hz] at h
      exact (List.cons.inj h).1 ▸ hz

theorem lt_of_mem_skipRepeats [PartialOrder α] (hle : ∀ y ∈ xs, x ≤ y)
    (hlt : (skipRepeats key (key x) xs).Pairwise (· < ·)) (hy : y ∈ skipRepeats key (key x) xs) :
    x < y := by
  cases hkept : skipRepeats key (key x) xs with
  | nil =>
    rw [hkept] at hy
    exact nomatch hy
  | cons z zs =>
    have hz : z ∈ xs := skipRepeats_sublist.subset (hkept ▸ List.mem_cons_self)
    have hxz : x < z := lt_of_le_of_ne (hle z hz) fun heq =>
      key_ne_of_skipRepeats_eq hkept (congrArg key heq.symm)
    rw [hkept] at hy hlt
    rcases List.mem_cons.mp hy with rfl | hy
    · exact hxz
    · exact hxz.trans ((List.pairwise_cons.mp hlt).1 y hy)

theorem pairwise_of_dropWhile [Preorder α] (hkey : ∀ y ∈ xs, key y = key x → y = x)
    (hle : ∀ y ∈ xs, x ≤ y) (h : (xs.dropWhile fun y => key y = key x).Pairwise (· ≤ ·)) :
    xs.Pairwise (· ≤ ·) := by
  induction xs with
  | nil => exact .nil
  | cons z zs ih =>
    by_cases hz : key z = key x
    · rw [List.dropWhile_cons_of_pos (by simpa using hz)] at h
      obtain rfl := hkey z List.mem_cons_self hz
      exact .cons (fun y hy => hle y (List.mem_cons_of_mem z hy))
        (ih (fun y hy => hkey y (List.mem_cons_of_mem z hy))
          (fun y hy => hle y (List.mem_cons_of_mem z hy)) h)
    · rwa [List.dropWhile_cons_of_neg (by simpa using hz)] at h

/-- The filter keeps distinct elements in order exactly if what it gets is in order, apart from
what it drops at the start. -/
theorem skipRepeats_pairwise_iff [PartialOrder α]
    (hinj : ∀ x ∈ xs, ∀ y ∈ xs, key x = key y → x = y) :
    (skipRepeats key last xs).Pairwise (· < ·) ↔
      (xs.dropWhile fun x => key x = last).Pairwise (· ≤ ·) := by
  induction xs generalizing last with
  | nil => exact iff_of_true .nil .nil
  | cons x xs ih =>
    have ih : ∀ last, (skipRepeats key last xs).Pairwise (· < ·) ↔
        (xs.dropWhile fun x => key x = last).Pairwise (· ≤ ·) := by
      intro last
      apply ih
      intro y hy z hz
      exact hinj y (List.mem_cons_of_mem x hy) z (List.mem_cons_of_mem x hz)
    by_cases h : key x = last
    · rw [skipRepeats_cons_eq h, List.dropWhile_cons_of_pos (by simpa using h)]
      exact ih last
    · rw [skipRepeats_cons_ne h, List.dropWhile_cons_of_neg (by simpa using h),
        List.pairwise_cons, List.pairwise_cons, ih (key x)]
      have hkey : ∀ y ∈ xs, key y = key x → y = x := by
        intro y hy
        exact hinj y (List.mem_cons_of_mem x hy) x List.mem_cons_self
      constructor
      · rintro ⟨hlt, hrest⟩
        have hle : ∀ y ∈ xs, x ≤ y := by
          intro y hy
          rcases mem_skipRepeats_of_mem key (key x) hy with hk | ⟨z, hz, hk⟩
          · exact (hkey y hy hk).ge
          · have hzy : z = y := hinj z (List.mem_cons_of_mem x (skipRepeats_sublist.subset hz)) y
              (List.mem_cons_of_mem x hy) hk
            exact hzy ▸ (hlt z hz).le
        exact ⟨hle, pairwise_of_dropWhile hkey hle hrest⟩
      · rintro ⟨hle, hsorted⟩
        have hrest := hsorted.sublist (List.dropWhile_sublist fun y => decide (key y = key x))
        exact ⟨fun y => lt_of_mem_skipRepeats hle ((ih (key x)).mpr hrest), hrest⟩

/-- The elements that the filter keeps behind `x` are the others of a list in order whose
neighbours have one key only if they are equal. -/
theorem skipRepeats_cons_inOrder [PartialOrder α] (horder : (x :: xs).Pairwise (· ≤ ·))
    (hchain : (x :: xs).IsChain fun y z => key y = key z → y = z) :
    (x :: skipRepeats key (key x) xs).Pairwise (· < ·) ∧
      ∀ y, y ∈ x :: skipRepeats key (key x) xs ↔ y ∈ x :: xs := by
  induction xs generalizing x with
  | nil => simp [skipRepeats]
  | cons y ys ih =>
    obtain ⟨hle, horder⟩ := List.pairwise_cons.mp horder
    obtain ⟨hkey, hchain⟩ := List.isChain_cons_cons.mp hchain
    obtain ⟨hlt, hmem⟩ := ih horder hchain
    by_cases h : key y = key x
    · obtain rfl := hkey h.symm
      rw [skipRepeats_cons_eq h]
      refine ⟨hlt, ?_⟩
      intro z
      simp [hmem z]
    · rw [skipRepeats_cons_ne h]
      have hxy : x < y := by
        apply lt_of_le_of_ne (hle y List.mem_cons_self)
        rintro rfl
        exact h rfl
      refine ⟨List.pairwise_cons.mpr ⟨?_, hlt⟩, ?_⟩
      · intro z hz
        rcases List.mem_cons.mp hz with rfl | hz
        · exact hxy
        · exact hxy.trans ((List.pairwise_cons.mp hlt).1 z hz)
      · intro z
        rw [List.mem_cons, hmem z, List.mem_cons (a := z) (b := x)]

/-- Such a list loses nothing but repetitions, whatever keys come back further on. -/
theorem skipRepeats_inOrder [PartialOrder α] (horder : xs.Pairwise (· ≤ ·))
    (hchain : xs.IsChain fun y z => key y = key z → y = z) (hfirst : ∀ x ∈ xs.head?, key x ≠ last) :
    (skipRepeats key last xs).Pairwise (· < ·) ∧ ∀ y, y ∈ skipRepeats key last xs ↔ y ∈ xs := by
  cases xs with
  | nil => simp [skipRepeats]
  | cons x xs =>
    rw [skipRepeats_cons_ne (hfirst x rfl)]
    exact skipRepeats_cons_inOrder horder hchain

end Vban.Library
