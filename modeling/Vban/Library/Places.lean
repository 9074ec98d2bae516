import Mathlib.Data.List.Basic

/-! The first place in a list where a condition holds of the item before and of what follows. -/
namespace Vban.Library

variable {α : Type*} {p : Option α → List α → Bool} {before : Option α} {a b xs : List α} {x : α}

/-- The last item of `a`, or the one before if there is none. -/
def lastOf (before : Option α) (a : List α) : Option α := a.getLast?.or before

@[simp] theorem lastOf_nil : lastOf before [] = before := rfl

@[simp] theorem lastOf_cons : lastOf before (x :: a) = lastOf (some x) a := by
  cases h : a.getLast? with
  | none => simp [lastOf, List.getLast?_cons, h]
  | some y => simp [lastOf, List.getLast?_cons, h]

theorem lastOf_append : lastOf before (a ++ b) = lastOf (lastOf before a) b := by
  induction a generalizing before with
  | nil => rfl
  | cons x a ih => rw [List.cons_append, lastOf_cons, lastOf_cons, ih]

/-- `xs` splits into `a` and `b` where the condition holds. -/
def Place (p : Option α → List α → Bool) (before : Option α) (xs a b : List α) : Prop :=
  xs = a ++ b ∧ p (lastOf before a) b = true

/-- What follows at the first place, the place included. -/
def firstPlace (p : Option α → List α → Bool) : Option α → List α → Option (List α)
  | before, [] => if p before [] then some [] else none
  | before, x :: xs => if p before (x :: xs) then some (x :: xs) else firstPlace p (some x) xs

theorem place_nil : Place p before xs [] b ↔ b = xs ∧ p before xs = true := by
  rw [Place, List.nil_append, lastOf_nil]
  constructor
  · rintro ⟨rfl, h⟩
    exact ⟨rfl, h⟩
  · rintro ⟨rfl, h⟩
    exact ⟨rfl, h⟩

theorem place_cons {y : α} : Place p before (x :: xs) (y :: a) b ↔
    x = y ∧ Place p (some x) xs a b := by
  rw [Place, Place, lastOf_cons, List.cons_append, List.cons.injEq]
  constructor
  · rintro ⟨⟨rfl, h⟩, hp⟩
    exact ⟨rfl, h, hp⟩
  · rintro ⟨rfl, h, hp⟩
    exact ⟨⟨rfl, h⟩, hp⟩

theorem place_of_nil : Place p before [] a b ↔ a = [] ∧ b = [] ∧ p before [] = true := by
  rw [Place]
  constructor
  · rintro ⟨h, hp⟩
    obtain ⟨rfl, rfl⟩ := List.append_eq_nil_iff.mp h.symm
    exact ⟨rfl, rfl, hp⟩
  · rintro ⟨rfl, rfl, hp⟩
    exact ⟨rfl, hp⟩

theorem firstPlace_of_pos (h : p before xs = true) : firstPlace p before xs = some xs := by
  cases xs with
  | nil => rw [firstPlace, if_pos h]
  | cons x xs => rw [firstPlace, if_pos h]

theorem firstPlace_eq_none : firstPlace p before xs = none ↔ ∀ a b, ¬Place p before xs a b := by
  induction xs generalizing before with
  | nil => simp [firstPlace, place_of_nil]
  | cons x xs ih =>
    rw [firstPlace]
    by_cases hp : p before (x :: xs) = true
    · rw [if_pos hp]
      constructor
      · intro h
        cases h
      · intro h
        exact absurd (place_nil.mpr ⟨rfl, hp⟩) (h [] _)
    · rw [if_neg hp, ih]
      constructor
      · intro h a b hplace
        cases a with
        | nil => exact hp (place_nil.mp hplace).2
        | cons y a => exact h a b (place_cons.mp hplace).2
      · intro h a b hplace
        exact h (x :: a) b (place_cons.mpr ⟨rfl, hplace⟩)

/-- What is found is a place, and no place comes before it. -/
theorem firstPlace_spec (h : firstPlace p before xs = some b) :
    ∃ a, Place p before xs a b ∧ ∀ a' b', Place p before xs a' b' → a.length ≤ a'.length := by
  induction xs generalizing before with
  | nil =>
    rw [firstPlace] at h
    split_ifs at h with hp
    obtain rfl : [] = b := Option.some.inj h
    exact ⟨[], place_nil.mpr ⟨rfl, hp⟩, fun _ _ _ => Nat.zero_le _⟩
  | cons x xs ih =>
    rw [firstPlace] at h
    by_cases hp : p before (x :: xs) = true
    · rw [if_pos hp] at h
      obtain rfl : x :: xs = b := Option.some.inj h
      exact ⟨[], place_nil.mpr ⟨rfl, hp⟩, fun _ _ _ => Nat.zero_le _⟩
    · rw [if_neg hp] at h
      obtain ⟨a, hplace, hleast⟩ := ih h
      refine ⟨x :: a, place_cons.mpr ⟨rfl, hplace⟩, ?_⟩
      intro a' b' hplace'
      cases a' with
      | nil => exact absurd (place_nil.mp hplace').2 hp
      | cons y a' => exact Nat.succ_le_succ (hleast a' b' (place_cons.mp hplace').2)

/-- Places with the same number of items before them are the same. -/
theorem Place.eq_of_length {a' b' : List α} (h : Place p before xs a b)
    (h' : Place p before xs a' b') (hlen : a.length = a'.length) : a = a' ∧ b = b' :=
  List.append_inj (h.1.symm.trans h'.1) hlen

end Vban.Library
