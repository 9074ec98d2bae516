import Mathlib.Data.List.Basic
import Mathlib.Logic.Function.Iterate

/-! A list that is swept: its entries age from the front up to one that is due, which is taken. -/
namespace Vban.Library

variable {α : Type*} {due : α → Prop} [DecidablePred due] {age : α → α} {rank : α → Nat}
  {limit k n : Nat} {as : List α}

/-- The list after the sweep, and what was taken out of it. -/
def sweep (due : α → Prop) [DecidablePred due] (age : α → α) : List α → List α × Option α
  | [] => ([], none)
  | a :: as =>
    if due a then (as, some a)
    else
      let swept := sweep due age as
      (age a :: swept.1, swept.2)

/-- A sweep ages all entries, or those before the first that is due. -/
theorem sweep_cases (due : α → Prop) [DecidablePred due] (age : α → α) (as : List α) :
    ((∀ a ∈ as, ¬due a) ∧ sweep due age as = (as.map age, none)) ∨
      ∃ front a back, as = front ++ a :: back ∧ (∀ b ∈ front, ¬due b) ∧ due a ∧
        sweep due age as = (front.map age ++ back, some a) := by
  induction as with
  | nil => exact Or.inl ⟨nofun, rfl⟩
  | cons a as ih =>
    by_cases ha : due a
    · right
      refine ⟨[], a, as, rfl, nofun, ha, ?_⟩
      rw [sweep, if_pos ha]
      rfl
    · rw [sweep, if_neg ha]
      rcases ih with ⟨hnone, hsweep⟩ | ⟨front, b, back, rfl, hfront, hb, hsweep⟩
      · left
        rw [hsweep]
        exact ⟨List.forall_mem_cons.mpr ⟨ha, hnone⟩, rfl⟩
      · right
        rw [hsweep]
        exact ⟨a :: front, b, back, rfl, List.forall_mem_cons.mpr ⟨ha, hfront⟩, hb, rfl⟩

/-- Entries below the limit stay within it as they age. -/
theorem exists_of_mem_map_age (hage : ∀ a, rank a < limit → rank (age a) = rank a + 1)
    (hlt : ∀ a ∈ as, rank a < limit) :
    ∀ b ∈ as.map age, rank b ≤ limit ∧ ∃ a ∈ as, rank b = rank a + 1 := by
  intro b hb
  obtain ⟨a, ha, rfl⟩ := List.mem_map.mp hb
  rw [hage a (hlt a ha)]
  exact ⟨hlt a ha, a, ha, rfl⟩

/-- With ranks from `k` on, each sweep takes one entry or leaves only ranks from `k + 1` on. -/
theorem sweep_iterate_eq_nil_of_le (hdue : ∀ a, due a ↔ rank a = limit)
    (hage : ∀ a, rank a < limit → rank (age a) = rank a + 1) (hk : ∀ a ∈ as, k ≤ rank a)
    (hlimit : ∀ a ∈ as, rank a ≤ limit) (hn : as.length + (limit - k) ≤ n) :
    (fun as => (sweep due age as).1)^[n] as = [] := by
  have hbelow : ∀ front : List α, (∀ a ∈ front, rank a ≤ limit) → (∀ a ∈ front, ¬due a) →
      ∀ a ∈ front, rank a < limit := by
    intro front hle hnot a ha
    exact Nat.lt_of_le_of_ne (hle a ha) (mt (hdue a).mpr (hnot a ha))
  induction n generalizing as k with
  | zero =>
    apply List.eq_nil_of_length_eq_zero
    simp only [Function.iterate_zero, id]
    omega
  | succ n ih =>
    rw [Function.iterate_succ_apply]
    rcases sweep_cases due age as with ⟨hnone, hsweep⟩ | ⟨front, a, back, rfl, hfront, ha, hsweep⟩
    · have hlt := hbelow as hlimit hnone
      have haged := exists_of_mem_map_age hage hlt
      rw [hsweep]
      cases as with
      | nil =>
        apply ih (k := limit)
        · intro a ha
          cases ha
        · intro a ha
          cases ha
        · rw [Nat.sub_self]
          exact Nat.zero_le n
      | cons b as =>
        apply ih (k := k + 1)
        · intro c hc
          obtain ⟨-, a, ha, hrank⟩ := haged c hc
          rw [hrank]
          exact Nat.succ_le_succ (hk a ha)
        · intro c hc
          exact (haged c hc).1
        · have hb := hk b List.mem_cons_self
          have hb' := hlt b List.mem_cons_self
          rw [List.length_map]
          omega
    · rw [hsweep]
      simp only [List.forall_mem_append, List.forall_mem_cons] at hk hlimit
      have haged := exists_of_mem_map_age hage (hbelow front hlimit.1 hfront)
      apply ih (k := k)
      · apply List.forall_mem_append.mpr ⟨?_, hk.2.2⟩
        intro c hc
        obtain ⟨-, b, hb, hrank⟩ := haged c hc
        rw [hrank]
        exact Nat.le_succ_of_le (hk.1 b hb)
      · apply List.forall_mem_append.mpr ⟨?_, hlimit.2.2⟩
        intro c hc
        exact (haged c hc).1
      · simp only [List.length_append, List.length_cons, List.length_map] at hn ⊢
        omega

/-- A list of ranks up to `limit` is empty after one sweep for each entry and `limit` more. -/
theorem sweep_iterate_eq_nil (hdue : ∀ a, due a ↔ rank a = limit)
    (hage : ∀ a, rank a < limit → rank (age a) = rank a + 1) (hlimit : ∀ a ∈ as, rank a ≤ limit) :
    (fun as => (sweep due age as).1)^[as.length + limit] as = [] :=
  sweep_iterate_eq_nil_of_le hdue hage (fun a _ => Nat.zero_le (rank a)) hlimit (Nat.le_refl _)

end Vban.Library
