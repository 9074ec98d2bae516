import Mathlib.Algebra.Order.Group.MinMax
import Mathlib.Algebra.Order.Ring.Int
import Mathlib.Algebra.Order.Ring.Nat

/-! Unsigned 64-bit arithmetic on natural numbers, its conversions to and from 32-bit `int`, and
values kept within bounds. -/
namespace Vban.Library

section SizeT

def sizeAdd (a b : Nat) : Nat := (a + b) % 2 ^ 64

def sizeSub (a b : Nat) : Nat := (a + 2 ^ 64 - b) % 2 ^ 64

def sizeMul (a b : Nat) : Nat := a * b % 2 ^ 64

/-- An unsigned value stored in a 32-bit `int`. -/
def intOfSize (a : Nat) : Int := Int.bmod a (2 ^ 32)

/-- An `int` passed where an unsigned 64-bit value is expected. -/
def sizeOfInt (i : Int) : Nat := (i % 2 ^ 64).toNat

variable {a b c : Nat}

theorem sizeAdd_of_lt (h : a + b < 2 ^ 64) : sizeAdd a b = a + b :=
  Nat.mod_eq_of_lt h

theorem sizeSub_of_le (ha : a < 2 ^ 64) (h : b ≤ a) : sizeSub a b = a - b := by
  simp only [sizeSub]
  omega

/-- A difference that wrapped comes back when enough is added to it. -/
theorem sizeAdd_sizeSub (hb : b < 2 ^ 64) (h : b ≤ a + c) (hc : a + c < b + 2 ^ 64) :
    sizeAdd (sizeSub a b) c = a + c - b := by
  simp only [sizeAdd, sizeSub]
  omega

theorem sizeMul_of_lt (h : a * b < 2 ^ 64) : sizeMul a b = a * b :=
  Nat.mod_eq_of_lt h

theorem intOfSize_of_lt (h : a < 2 ^ 31) : intOfSize a = a := by
  apply Int.bmod_eq_of_le_mul_two
  · omega
  · rw [show ((2 ^ 32 : Nat) : Int) = 4294967296 from rfl]
    omega

theorem sizeOfInt_intOfSize (h : a < 2 ^ 31) : sizeOfInt (intOfSize a) = a := by
  rw [intOfSize_of_lt h, sizeOfInt]
  omega

end SizeT

section Limit

variable {α : Type*} [LinearOrder α] {lo hi x y a b : α}

/-- `x`, or the bound that it is beyond. -/
def limit (lo hi x : α) : α := max lo (min hi x)

theorem limit_mono (h : x ≤ y) : limit lo hi x ≤ limit lo hi y :=
  max_le_max le_rfl (min_le_min le_rfl h)

theorem limit_mem (h : lo ≤ hi) (x : α) : lo ≤ limit lo hi x ∧ limit lo hi x ≤ hi :=
  ⟨le_max_left _ _, max_le h (min_le_left _ _)⟩

theorem lt_limit_iff (hlo : lo ≤ a) (hhi : a < hi) : a < limit lo hi x ↔ a < x := by
  rw [limit, lt_max_iff, lt_min_iff]
  exact ⟨fun h => (h.resolve_left hlo.not_gt).2, fun h => .inr ⟨hhi, h⟩⟩

theorem limit_lt_iff (hlo : lo < b) (hhi : b ≤ hi) : limit lo hi x < b ↔ x < b := by
  rw [limit, max_lt_iff, min_lt_iff]
  exact ⟨fun h => h.2.resolve_left hhi.not_gt, fun h => ⟨hlo, .inr h⟩⟩

/-- The two bounds tested one instead of the other. -/
theorem ite_eq_limit (h : lo ≤ hi) :
    (if hi < x then hi else if x < lo then lo else x) = limit lo hi x := by
  rw [limit]
  split_ifs with hhigh hlow
  · rw [min_eq_left hhigh.le, max_eq_right h]
  · rw [min_eq_right (hlow.le.trans h), max_eq_left hlow.le]
  · rw [min_eq_right (not_lt.mp hhigh), max_eq_right (not_lt.mp hlow)]

/-- The two bounds tested one after the other. -/
theorem ite_ite_eq_limit (h : lo ≤ hi) :
    (if (if hi < x then hi else x) < lo then lo else if hi < x then hi else x) =
      limit lo hi x := by
  rw [← ite_eq_limit h]
  split_ifs with hhigh hlow
  · exact absurd h (not_le.mpr hlow)
  all_goals rfl

/-- Values come no further apart. -/
theorem abs_limit_sub_limit_le {G : Type*} [AddCommGroup G] [LinearOrder G] [IsOrderedAddMonoid G]
    (lo hi x y : G) : |limit lo hi x - limit lo hi y| ≤ |x - y| := by
  have hmin := abs_min_sub_min_le_max hi x hi y
  have hmax := abs_max_sub_max_le_max lo (min hi x) lo (min hi y)
  rw [sub_self, abs_zero] at hmin hmax
  exact hmax.trans (max_le (abs_nonneg _) (hmin.trans (max_le (abs_nonneg _) le_rfl)))

end Limit

end Vban.Library
