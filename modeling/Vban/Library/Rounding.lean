import Mathlib.Data.Int.Log
import Mathlib.Data.Rat.Floor
import Mathlib.Tactic.FieldSimp
import Mathlib.Tactic.Linarith
import Mathlib.Tactic.Positivity
import Mathlib.Tactic.Ring

/-! Rounding to the nearest number of a binary format, of two to the even one. -/
namespace Vban.Library

variable {x y : ℚ} {z e : ℤ} {n d : Nat}

/-- The nearest integer, of two the even one. -/
def roundEven (x : ℚ) : ℤ :=
  if x - ⌊x⌋ < 1 / 2 ∨ x - ⌊x⌋ = 1 / 2 ∧ ⌊x⌋ % 2 = 0 then ⌊x⌋ else ⌊x⌋ + 1

theorem le_roundEven (h : (z : ℚ) ≤ x) : z ≤ roundEven x := by
  have hfloor := Int.le_floor.mpr h
  rw [roundEven]
  split_ifs
  · exact hfloor
  · exact hfloor.trans (Int.le_add_one (le_refl _))

theorem roundEven_eq (h : |x - z| < 1 / 2) : roundEven x = z := by
  rw [abs_lt] at h
  rcases le_or_gt (z : ℚ) x with hz | hz
  · have hfloor : ⌊x⌋ = z := Int.floor_eq_iff.mpr ⟨hz, by linarith⟩
    rw [roundEven, hfloor, if_pos (.inl h.2)]
  · have hfloor : ⌊x⌋ = z - 1 := by
      rw [Int.floor_eq_iff]
      push_cast
      constructor <;> linarith
    have hfar : ¬(x - ⌊x⌋ < 1 / 2 ∨ x - ⌊x⌋ = 1 / 2 ∧ ⌊x⌋ % 2 = 0) := by
      rw [hfloor, not_or]
      push_cast
      exact ⟨by linarith, fun heq => by linarith [heq.1]⟩
    rw [roundEven, if_neg hfar, hfloor, sub_add_cancel]

theorem abs_roundEven_sub_le (x : ℚ) : |(roundEven x : ℚ) - x| ≤ 1 / 2 := by
  have hfloor := Int.floor_le x
  have hlt := Int.lt_floor_add_one x
  rw [roundEven, abs_le]
  split_ifs with h
  · rcases h with h | h <;> constructor <;> linarith
  · rw [not_or, not_lt] at h
    push_cast
    constructor <;> linarith [h.1]

/-- The bounds around a half are next to each other, so one of them is even. -/
theorem roundEven_neg (x : ℚ) : roundEven (-x) = -roundEven x := by
  have hnear := abs_roundEven_sub_le x
  rcases hnear.lt_or_eq with hlt | hhalf
  · apply roundEven_eq
    rw [abs_sub_comm] at hlt
    rwa [Int.cast_neg, ← neg_add', abs_neg, ← sub_eq_add_neg]
  · have hfloor : x - ⌊x⌋ = 1 / 2 := by
      rw [roundEven] at hhalf
      split_ifs at hhalf with h
      · rcases h with h | h
        · rw [abs_sub_comm, abs_of_nonneg (by linarith [Int.floor_le x])] at hhalf
          exact hhalf
        · exact h.1
      · push_cast at hhalf
        rw [abs_of_nonneg (by linarith [Int.lt_floor_add_one x])] at hhalf
        linarith
    have hneg : ⌊-x⌋ = -⌊x⌋ - 1 := by
      rw [Int.floor_eq_iff]
      push_cast
      constructor <;> linarith
    have hhalf' : -x - ⌊-x⌋ = 1 / 2 := by
      rw [hneg]
      push_cast
      linarith
    rw [roundEven, roundEven, hfloor, hhalf', hneg]
    simp only [lt_irrefl, false_or, true_and]
    split_ifs <;> omega

theorem roundEven_le_intCast (h : x ≤ z) : roundEven x ≤ z := by
  have hle : ((-z : ℤ) : ℚ) ≤ -x := by
    push_cast
    exact neg_le_neg h
  have hneg := le_roundEven hle
  rw [roundEven_neg] at hneg
  omega

theorem roundEven_mono (h : x ≤ y) : roundEven x ≤ roundEven y := by
  rcases (Int.floor_mono h).lt_or_eq with hlt | heq
  · have hx : roundEven x ≤ ⌊x⌋ + 1 := by
      rw [roundEven]
      split_ifs <;> omega
    have hy : ⌊y⌋ ≤ roundEven y := le_roundEven (Int.floor_le y)
    omega
  · rw [roundEven, roundEven, ← heq]
    split_ifs with hx hy hy
    · exact le_rfl
    · omega
    · exfalso
      rw [not_or, not_lt] at hx
      rcases hy with hy | ⟨hy, heven⟩
      · linarith [hx.1]
      · exact hx.2 ⟨by linarith [hx.1], heven⟩
    · exact le_rfl

theorem log_eq (h : 2 ^ e ≤ x) (h' : x < 2 ^ (e + 1)) : Int.log 2 x = e := by
  have hpos : 0 < x := (zpow_pos (by norm_num) e).trans_le h
  have hle := (Int.zpow_le_iff_le_log (b := 2) (by norm_num) hpos).mp (by exact_mod_cast h)
  have hlt := (Int.lt_zpow_iff_log_lt (b := 2) (by norm_num) hpos).mp (by exact_mod_cast h')
  omega

/-- A format with so many bits behind the leading one, and its least exponent. The greatest one is
left out. -/
structure FloatFormat where
  fraction : Nat
  least : ℤ
  least_neg : least < 0

namespace FloatFormat

variable (f : FloatFormat)

/-- The exponent of the leading bit, or the least there is. -/
def exponent (x : ℚ) : ℤ := if x = 0 then f.least else max (Int.log 2 |x|) f.least

/-- The distance between the numbers of the format around one. -/
def ulp (x : ℚ) : ℚ := 2 ^ (f.exponent x - f.fraction)

/-- The number of the format for a number, with gradual underflow. -/
def round (x : ℚ) : ℚ := roundEven (x / f.ulp x) * f.ulp x

theorem least_le_exponent (x : ℚ) : f.least ≤ f.exponent x := by
  rw [exponent]
  split_ifs
  · exact le_rfl
  · exact le_max_right _ _

theorem exponent_neg (x : ℚ) : f.exponent (-x) = f.exponent x := by
  simp only [exponent, abs_neg, neg_eq_zero]

theorem ulp_pos (x : ℚ) : 0 < f.ulp x := zpow_pos (by norm_num) _

theorem ulp_neg (x : ℚ) : f.ulp (-x) = f.ulp x := by
  rw [ulp, ulp, exponent_neg]

theorem round_neg (x : ℚ) : f.round (-x) = -f.round x := by
  rw [round, round, ulp_neg, neg_div, roundEven_neg, Int.cast_neg, neg_mul]

theorem round_nonneg (h : 0 ≤ x) : 0 ≤ f.round x := by
  have hulp := f.ulp_pos x
  have hround : 0 ≤ roundEven (x / f.ulp x) := by
    apply le_roundEven
    rw [Int.cast_zero]
    exact div_nonneg h hulp.le
  exact mul_nonneg (by exact_mod_cast hround) hulp.le

theorem round_nonpos (h : x ≤ 0) : f.round x ≤ 0 := by
  have hneg := f.round_nonneg (neg_nonneg.mpr h)
  rw [round_neg] at hneg
  linarith

theorem round_zero : f.round 0 = 0 :=
  le_antisymm (f.round_nonpos le_rfl) (f.round_nonneg le_rfl)

/-- The nearest number of the format. -/
theorem round_eq (h : |x - z * f.ulp x| < f.ulp x / 2) : f.round x = z * f.ulp x := by
  have hulp := f.ulp_pos x
  have hscaled : |x / f.ulp x - z| < 1 / 2 := by
    have heq : x / f.ulp x - z = (x - z * f.ulp x) / f.ulp x := by
      field_simp
    rw [heq, abs_div, abs_of_pos hulp, div_lt_iff₀ hulp]
    linarith
  rw [round, roundEven_eq hscaled]

theorem abs_round_sub_le (x : ℚ) : |f.round x - x| ≤ f.ulp x / 2 := by
  have hulp := f.ulp_pos x
  have heq : f.round x - x = (roundEven (x / f.ulp x) - x / f.ulp x) * f.ulp x := by
    rw [sub_mul, div_mul_cancel₀ _ hulp.ne', round]
  rw [heq, abs_mul, abs_of_pos hulp]
  calc _ ≤ 1 / 2 * f.ulp x := mul_le_mul_of_nonneg_right (abs_roundEven_sub_le _) hulp.le
    _ = f.ulp x / 2 := by ring

theorem ulp_eq (he : f.least ≤ e) (h : 2 ^ e ≤ |x|) (h' : |x| < 2 ^ (e + 1)) :
    f.ulp x = 2 ^ (e - f.fraction) := by
  have hne : x ≠ 0 := by
    rintro rfl
    rw [abs_zero] at h
    exact absurd h (not_le.mpr (zpow_pos (by norm_num) e))
  rw [ulp, exponent, if_neg hne, log_eq h h', max_eq_left he]

/-- Below a power of two the exponent is less. -/
theorem exponent_lt (he : f.least < e) (h : |x| < 2 ^ e) : f.exponent x < e := by
  rw [exponent]
  split_ifs with hzero
  · exact he
  · rw [max_lt_iff]
    exact ⟨(Int.lt_zpow_iff_log_lt (b := 2) (by norm_num) (abs_pos.mpr hzero)).mp
      (by exact_mod_cast h), he⟩

/-- Above the least exponent the number has its leading bit there. -/
theorem zpow_exponent_le (h : f.least < f.exponent x) : 2 ^ f.exponent x ≤ |x| := by
  rw [exponent] at h ⊢
  split_ifs at h ⊢ with hzero
  · exact absurd h (lt_irrefl _)
  · have hlog : f.least ≤ Int.log 2 |x| := by
      by_contra hlt
      rw [max_eq_right (by omega)] at h
      exact absurd h (lt_irrefl _)
    rw [max_eq_left hlog]
    exact_mod_cast Int.zpow_log_le_self (R := ℚ) (b := 2) (by norm_num) (abs_pos.mpr hzero)

theorem abs_lt_zpow_exponent (x : ℚ) : |x| < 2 ^ (f.exponent x + 1) := by
  rw [exponent]
  split_ifs with hzero
  · rw [hzero, abs_zero]
    exact zpow_pos (by norm_num) _
  · have hlt := Int.lt_zpow_succ_log_self (R := ℚ) (b := 2) (by norm_num) |x|
    calc |x| < 2 ^ (Int.log 2 |x| + 1) := by exact_mod_cast hlt
      _ ≤ _ := zpow_le_zpow_right₀ (by norm_num) (by omega)

theorem pow_mul_ulp (k : Nat) (x : ℚ) :
    2 ^ k * f.ulp x = 2 ^ (f.exponent x + (k - f.fraction)) := by
  rw [ulp, ← zpow_natCast, ← zpow_add₀ (by norm_num)]
  congr 1
  ring

theorem abs_div_ulp_lt (x : ℚ) : |x| / f.ulp x < 2 ^ (f.fraction + 1) := by
  rw [div_lt_iff₀ (f.ulp_pos x), pow_mul_ulp]
  refine (f.abs_lt_zpow_exponent x).trans_eq ?_
  congr 1
  push_cast
  ring

theorem le_abs_div_ulp (h : f.least < f.exponent x) : 2 ^ f.fraction ≤ |x| / f.ulp x := by
  rw [le_div_iff₀ (f.ulp_pos x), pow_mul_ulp, sub_self, add_zero]
  exact f.zpow_exponent_le h

theorem exponent_mono (h : |x| ≤ |y|) : f.exponent x ≤ f.exponent y := by
  by_contra hlt
  have hx := f.zpow_exponent_le (x := x) ((f.least_le_exponent y).trans_lt (not_le.mp hlt))
  have hy := f.abs_lt_zpow_exponent y
  have hpow : (2 : ℚ) ^ (f.exponent y + 1) ≤ 2 ^ f.exponent x :=
    zpow_le_zpow_right₀ (by norm_num) (by omega)
  linarith

/-- Whole multiples of a power of two that have few enough bits are kept. -/
theorem round_mul_zpow (hz : |z| < 2 ^ (f.fraction + 1)) (he : f.least - f.fraction ≤ e) :
    f.round (z * 2 ^ e) = z * 2 ^ e := by
  have hlt : |(z : ℚ) * 2 ^ e| < 2 ^ (e + f.fraction + 1) := by
    have hz' : |(z : ℚ)| < 2 ^ (f.fraction + 1) := by exact_mod_cast hz
    have hpow : (2 : ℚ) ^ (e + f.fraction + 1) = 2 ^ (f.fraction + 1) * 2 ^ e := by
      rw [← zpow_natCast, ← zpow_add₀ (by norm_num)]
      congr 1
      push_cast
      ring
    rw [hpow, abs_mul, abs_of_pos (zpow_pos (by norm_num) e : (0 : ℚ) < 2 ^ e)]
    exact mul_lt_mul_of_pos_right hz' (zpow_pos (by norm_num) e)
  have hexp := f.exponent_lt (by omega) hlt
  obtain ⟨i, hi⟩ := Int.eq_ofNat_of_zero_le (a := e + f.fraction - f.exponent (z * 2 ^ e))
    (by omega)
  have hmultiple : (z : ℚ) * 2 ^ e = (z * 2 ^ i : ℤ) * f.ulp (z * 2 ^ e) := by
    have he' : e = i + (f.exponent ((z : ℚ) * 2 ^ e) - f.fraction) := by omega
    have hpow : (2 : ℚ) ^ e = 2 ^ i * f.ulp (z * 2 ^ e) := by
      rw [ulp, ← zpow_natCast, ← zpow_add₀ (by norm_num), ← he']
    push_cast
    rw [mul_assoc, ← hpow]
  refine (f.round_eq ?_).trans hmultiple.symm
  rw [← hmultiple, sub_self, abs_zero]
  exact half_pos (f.ulp_pos _)

/-- What has been rounded is kept. -/
theorem round_round (x : ℚ) : f.round (f.round x) = f.round x := by
  have hleast := f.least_le_exponent x
  have hbound : |roundEven (x / f.ulp x)| ≤ 2 ^ (f.fraction + 1) := by
    have habs := f.abs_div_ulp_lt x
    have hulp := f.ulp_pos x
    rw [← abs_of_pos hulp, ← abs_div, abs_lt] at habs
    rw [abs_le]
    constructor
    · apply le_roundEven
      push_cast
      exact habs.1.le
    · apply roundEven_le_intCast
      push_cast
      exact habs.2.le
  rcases hbound.lt_or_eq with hlt | heq
  · exact f.round_mul_zpow hlt (by omega)
  · have hpow : (2 : ℚ) ^ (f.fraction + 1) * f.ulp x = 1 * 2 ^ (f.exponent x + 1) := by
      rw [pow_mul_ulp, one_mul]
      congr 1
      push_cast
      ring
    have hone : f.round (((1 : ℤ) : ℚ) * 2 ^ (f.exponent x + 1)) =
        ((1 : ℤ) : ℚ) * 2 ^ (f.exponent x + 1) := by
      apply f.round_mul_zpow
      · rw [abs_one]
        exact one_lt_pow₀ (by norm_num) (Nat.succ_ne_zero _)
      · omega
    rw [Int.cast_one, ← hpow] at hone
    have hvalue : f.round x = roundEven (x / f.ulp x) * f.ulp x := rfl
    rcases (abs_eq (by positivity)).mp heq with hpos | hneg
    · rw [hvalue, hpos]
      push_cast
      exact hone
    · rw [hvalue, hneg]
      push_cast
      rw [neg_mul, round_neg, hone]

theorem round_mono (h : x ≤ y) : f.round x ≤ f.round y := by
  have hpos : ∀ a b : ℚ, 0 ≤ a → a ≤ b → f.round a ≤ f.round b := by
    intro a b ha hab
    have habs : |a| ≤ |b| := by
      rwa [abs_of_nonneg ha, abs_of_nonneg (ha.trans hab)]
    rcases (f.exponent_mono habs).lt_or_eq with hlt | heq
    · -- `2 ^ exponent b` lies between them, and is a number of the format
      have hb := f.le_abs_div_ulp ((f.least_le_exponent a).trans_lt hlt)
      have ha' := (f.abs_div_ulp_lt a).le
      rw [abs_of_nonneg (ha.trans hab)] at hb
      rw [abs_of_nonneg ha] at ha'
      have hlow : (2 ^ f.fraction : ℤ) ≤ roundEven (b / f.ulp b) := by
        apply le_roundEven
        exact_mod_cast hb
      have hhigh : roundEven (a / f.ulp a) ≤ (2 ^ (f.fraction + 1) : ℤ) := by
        apply roundEven_le_intCast
        exact_mod_cast ha'
      calc f.round a ≤ 2 ^ (f.fraction + 1) * f.ulp a :=
            mul_le_mul_of_nonneg_right (by exact_mod_cast hhigh) (f.ulp_pos a).le
        _ = 2 ^ (f.exponent a + 1) := by
            rw [pow_mul_ulp]
            congr 1
            push_cast
            ring
        _ ≤ 2 ^ f.exponent b := zpow_le_zpow_right₀ (by norm_num) hlt
        _ = 2 ^ f.fraction * f.ulp b := by
            rw [pow_mul_ulp, sub_self, add_zero]
        _ ≤ f.round b := mul_le_mul_of_nonneg_right (by exact_mod_cast hlow) (f.ulp_pos b).le
    · have hulp : f.ulp a = f.ulp b := by rw [ulp, ulp, heq]
      rw [round, round, hulp]
      have hround := roundEven_mono (div_le_div_of_nonneg_right hab (f.ulp_pos b).le)
      exact mul_le_mul_of_nonneg_right (by exact_mod_cast hround) (f.ulp_pos b).le
  rcases le_total 0 x with hx | hx
  · exact hpos x y hx h
  · rcases le_total 0 y with hy | hy
    · exact (f.round_nonpos hx).trans (f.round_nonneg hy)
    · have hneg := hpos (-y) (-x) (neg_nonneg.mpr hy) (neg_le_neg h)
      rw [round_neg, round_neg] at hneg
      linarith

/-- The error is small against the number, or half the smallest distance there is. -/
theorem round_error (x : ℚ) :
    |f.round x - x| ≤ max (|x| / 2 ^ (f.fraction + 1)) (2 ^ (f.least - f.fraction) / 2) := by
  refine (f.abs_round_sub_le x).trans ?_
  rw [ulp]
  rcases (f.least_le_exponent x).lt_or_eq with hlt | heq
  · refine le_trans ?_ (le_max_left _ _)
    rw [zpow_sub₀ (by norm_num), div_div, zpow_natCast, ← pow_succ]
    exact div_le_div_of_nonneg_right (f.zpow_exponent_le hlt) (by positivity)
  · rw [← heq]
    exact le_max_right _ _

/-- From the least exponent on the error is small against the number. -/
theorem abs_round_sub_le_div (h : 2 ^ f.least ≤ |x|) :
    |f.round x - x| ≤ |x| / 2 ^ (f.fraction + 1) := by
  refine (f.round_error x).trans (max_le le_rfl ?_)
  rw [zpow_sub₀ (by norm_num), div_div, zpow_natCast, ← pow_succ]
  exact div_le_div_of_nonneg_right h (by positivity)

theorem round_intCast (h : |z| < 2 ^ (f.fraction + 1)) : f.round z = z := by
  have hleast := f.least_neg
  have hkept := f.round_mul_zpow h (e := 0) (by omega)
  rwa [zpow_zero, mul_one] at hkept

theorem round_natCast (h : n < 2 ^ (f.fraction + 1)) : f.round n = n := by
  have hkept := f.round_intCast (z := n) (by exact_mod_cast h)
  rwa [Int.cast_natCast] at hkept

end FloatFormat

end Vban.Library
