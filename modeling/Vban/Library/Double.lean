import Vban.Library.Rounding

/-! `double`, and what a program may rely on that counts with it: rounding keeps the order, and the
whole part and the rest of a quotient are exact. -/
namespace Vban.Library

variable {x : ℚ} {m n d k : Nat}

/-- What rounding keeps of the numbers of a format. -/
structure Rounding (round : ℚ → ℚ) : Prop where
  mono : ∀ x y, x ≤ y → round x ≤ round y
  round_round : ∀ x, round (round x) = round x
  neg : ∀ x, round (-x) = -round x
  natCast : ∀ n : Nat, n < 2 ^ 53 → round n = n
  error : ∀ x, 1 / 2 ^ 53 ≤ x → |round x - x| ≤ x / 2 ^ 53
  floor_div : ∀ x (d : Nat), round x = x → 0 ≤ x → x < 2 ^ 53 → 0 < d →
    ⌊round (x / d)⌋₊ = ⌊x / d⌋₊
  sub_floor : ∀ x (d : Nat), round x = x → 0 ≤ x → x < 2 ^ 53 → 0 < d →
    round (x - ⌊x / d⌋₊ * d) = x - ⌊x / d⌋₊ * d
  mul_lt : ∀ x (d : Nat), round x = x → x < 1 → 0 < d → d < 2 ^ 53 → round (x * d) < d

/-- Exact arithmetic. -/
theorem rounding_id : Rounding id := by
  refine ⟨fun _ _ h => h, fun _ => rfl, fun _ => rfl, fun _ _ => rfl, fun x hx => ?_,
    fun _ _ _ _ _ _ => rfl, fun _ _ _ _ _ _ => rfl,
    fun _ _ _ h hd _ => mul_lt_of_lt_one_left (Nat.cast_pos.mpr hd) h⟩
  rw [id, sub_self, abs_zero]
  exact div_nonneg (le_trans (by norm_num) hx) (by norm_num)

namespace Rounding

variable {round : ℚ → ℚ} (h : Rounding round)

include h

theorem zero : round 0 = 0 := by
  have hzero := h.natCast 0 (by norm_num)
  rwa [Nat.cast_zero] at hzero

theorem one : round 1 = 1 := by
  have hone := h.natCast 1 (by norm_num)
  rwa [Nat.cast_one] at hone

theorem nonneg (hx : 0 ≤ x) : 0 ≤ round x := h.zero.ge.trans (h.mono 0 x hx)

theorem nonpos (hx : x ≤ 0) : round x ≤ 0 := (h.mono x 0 hx).trans h.zero.le

/-- Beyond a number of the format is not before it. -/
theorem le_of_le {y : ℚ} (hy : round y = y) (hx : x ≤ y) : round x ≤ y := hy ▸ h.mono x y hx

theorem ge_of_ge {y : ℚ} (hy : round y = y) (hx : y ≤ x) : y ≤ round x := hy ▸ h.mono y x hx

theorem le_natCast (hm : m < 2 ^ 53) (hx : x ≤ m) : round x ≤ m := h.le_of_le (h.natCast m hm) hx

/-- Rounding changes a number by little of it. -/
theorem near (hx : 1 / 2 ^ 53 ≤ x) : 15 / 16 * x ≤ round x ∧ round x ≤ 17 / 16 * x := by
  have hpos : 0 < x := lt_of_lt_of_le (by norm_num) hx
  have hsmall : x / 2 ^ 53 ≤ x / 16 := div_le_div_of_nonneg_left hpos.le (by norm_num) (by norm_num)
  have herror := abs_le.mp (h.error x hx)
  constructor <;> linarith

end Rounding

namespace FloatFormat

variable {f : FloatFormat}

/-- A number of the format is a multiple of the distance. -/
theorem exists_eq_mul_ulp (hx : f.round x = x) : ∃ z : ℤ, x = z * f.ulp x := ⟨_, hx.symm⟩

/-- As long as there are bits for all of it, one is a multiple of the distance. -/
theorem exists_pow_mul_ulp (hx : |x| < 2 ^ (f.fraction + 1)) : ∃ j : Nat, 2 ^ j * f.ulp x = 1 := by
  have hleast := f.least_neg
  have hexp : f.exponent x < f.fraction + 1 :=
    f.exponent_lt (by omega) (by exact_mod_cast hx)
  obtain ⟨j, hj⟩ := Int.eq_ofNat_of_zero_le (a := f.fraction - f.exponent x) (by omega)
  refine ⟨j, ?_⟩
  have hzero : f.exponent x + ((j : ℤ) - f.fraction) = 0 := by omega
  rw [pow_mul_ulp, hzero, zpow_zero]

/-- Below a whole number is at least a distance below it. -/
theorem add_ulp_le (hx : f.round x = x) (habs : |x| < 2 ^ (f.fraction + 1)) (hlt : x < n) :
    x + f.ulp x ≤ n := by
  obtain ⟨z, hz⟩ := exists_eq_mul_ulp hx
  obtain ⟨j, hj⟩ := exists_pow_mul_ulp habs
  have hulp := f.ulp_pos x
  have hn : (n : ℚ) = (n * 2 ^ j : ℤ) * f.ulp x := by
    push_cast
    rw [mul_assoc, hj, mul_one]
  rw [hn] at hlt ⊢
  have hlt' : (z : ℚ) < (n * 2 ^ j : ℤ) :=
    lt_of_mul_lt_mul_right (hz.symm.trans_lt hlt) hulp.le
  have hle : (z : ℚ) + 1 ≤ (n * 2 ^ j : ℤ) := by exact_mod_cast hlt'
  calc x + f.ulp x = (z + 1) * f.ulp x := by
        rw [add_mul, one_mul, ← hz]
    _ ≤ _ := mul_le_mul_of_nonneg_right hle hulp.le

/-- Its own size is less than all the distances that it is made of. -/
theorem div_pow_lt_ulp (f : FloatFormat) (x : ℚ) : |x| / 2 ^ (f.fraction + 1) < f.ulp x := by
  have hlt := f.abs_div_ulp_lt x
  rw [div_lt_iff₀ (f.ulp_pos x)] at hlt
  rw [div_lt_iff₀ (by positivity), mul_comm]
  exact hlt

theorem round_half (f : FloatFormat) (h : n < 2 ^ (f.fraction + 1)) :
    f.round (n / 2) = n / 2 := by
  have hleast := f.least_neg
  have hkept := f.round_mul_zpow (z := n) (e := -1) (by exact_mod_cast h) (by omega)
  rwa [zpow_neg_one, ← div_eq_mul_inv, Int.cast_natCast] at hkept

/-- From a half on the error is small against the number. -/
theorem abs_round_sub_le_of_half (f : FloatFormat) (hx : 1 / 2 ≤ x) :
    |f.round x - x| ≤ x / 2 ^ (f.fraction + 1) := by
  have hleast := f.least_neg
  have habs : |x| = x := abs_of_nonneg (by linarith)
  have hround := f.abs_round_sub_le_div (x := x) ?_
  · rwa [habs] at hround
  · rw [habs]
    calc (2 : ℚ) ^ f.least ≤ 2 ^ (-1 : ℤ) := zpow_le_zpow_right₀ (by norm_num) (by omega)
      _ ≤ x := by
        rw [zpow_neg_one]
        linarith

/-- The quotient of a number of the format stays below the next whole number. -/
theorem round_div_lt (hx : f.round x = x) (hzero : 0 ≤ x) (hlt : x < 2 ^ (f.fraction + 1))
    (hd : 0 < d) (hk : x / d < k) : f.round (x / d) < k := by
  have hd' : (0 : ℚ) < d := Nat.cast_pos.mpr hd
  rcases le_total (x / d) (1 / 2) with hsmall | hlarge
  · have hhalf := f.round_half (n := 1) (one_lt_pow₀ (by norm_num) (Nat.succ_ne_zero _))
    rw [Nat.cast_one] at hhalf
    have hround := f.round_mono hsmall
    have hpos : (1 : ℚ) ≤ k := by
      have hk' : (0 : ℚ) < k := (div_nonneg hzero hd'.le).trans_lt hk
      exact_mod_cast hk'
    linarith
  · have herror := (abs_le.mp (f.abs_round_sub_le_of_half hlarge)).2
    have hulp := f.div_pow_lt_ulp x
    have habs : |x| = x := abs_of_nonneg hzero
    rw [div_lt_iff₀ hd', ← Nat.cast_mul] at hk
    have hnext := add_ulp_le hx (habs.symm ▸ hlt) hk
    rw [habs] at hulp
    calc f.round (x / d) ≤ x / d + x / 2 ^ (f.fraction + 1) / d := by
          rw [div_right_comm]
          linarith
      _ < (x + f.ulp x) / d := by
          rw [← add_div]
          exact div_lt_div_of_pos_right (by linarith) hd'
      _ ≤ k := by
          rw [div_le_iff₀ hd']
          exact_mod_cast hnext

/-- So its whole part is that of the exact quotient. -/
theorem floor_round_div (hx : f.round x = x) (hzero : 0 ≤ x) (hlt : x < 2 ^ (f.fraction + 1))
    (hd : 0 < d) : ⌊f.round (x / d)⌋₊ = ⌊x / d⌋₊ := by
  have hd' : (1 : ℚ) ≤ d := by exact_mod_cast hd
  have hdiv : 0 ≤ x / d := div_nonneg hzero (by linarith)
  have hfloor := Nat.floor_le hdiv
  have hlow : (⌊x / d⌋₊ : ℚ) ≤ f.round (x / d) := by
    have hbound : ⌊x / d⌋₊ < 2 ^ (f.fraction + 1) := by
      have hle : x / d ≤ x := div_le_self hzero hd'
      exact_mod_cast (hfloor.trans hle).trans_lt hlt
    rw [← f.round_natCast hbound]
    exact f.round_mono hfloor
  rw [Nat.floor_eq_iff ((Nat.cast_nonneg _).trans hlow)]
  refine ⟨hlow, ?_⟩
  have hnext := round_div_lt hx hzero hlt hd (k := ⌊x / d⌋₊ + 1) (by
    push_cast
    exact Nat.lt_floor_add_one _)
  exact_mod_cast hnext

/-- The rest has no more bits than the number. -/
theorem round_sub_floor (hx : f.round x = x) (hzero : 0 ≤ x) (hlt : x < 2 ^ (f.fraction + 1))
    (hd : 0 < d) : f.round (x - ⌊x / d⌋₊ * d) = x - ⌊x / d⌋₊ * d := by
  have hd' : (0 : ℚ) < d := Nat.cast_pos.mpr hd
  have hfloor := Nat.floor_le (div_nonneg hzero hd'.le)
  rw [le_div_iff₀ hd'] at hfloor
  have habs : |x| = x := abs_of_nonneg hzero
  obtain ⟨z, hz⟩ := exists_eq_mul_ulp hx
  obtain ⟨j, hj⟩ := exists_pow_mul_ulp (habs.symm ▸ hlt)
  have hulp := f.ulp_pos x
  have hrest : x - ⌊x / d⌋₊ * d = (z - ⌊x / d⌋₊ * d * 2 ^ j : ℤ) * f.ulp x := by
    push_cast
    rw [sub_mul, ← hz, mul_assoc, hj, mul_one]
  have hbits : |z - ⌊x / d⌋₊ * d * 2 ^ j| < 2 ^ (f.fraction + 1) := by
    have hbits' : |((z - ⌊x / d⌋₊ * d * 2 ^ j : ℤ) : ℚ)| < 2 ^ (f.fraction + 1) := by
      have hle : |x - ⌊x / d⌋₊ * d| ≤ |x| := by
        have hprod : (0 : ℚ) ≤ ⌊x / d⌋₊ * d := by positivity
        rw [habs, abs_of_nonneg (by linarith)]
        linarith
      have hsize := f.abs_div_ulp_lt x
      rw [div_lt_iff₀ hulp] at hsize
      rw [hrest, abs_mul, abs_of_pos hulp] at hle
      exact lt_of_mul_lt_mul_right (hle.trans_lt hsize) hulp.le
    exact_mod_cast hbits'
  have hleast := f.least_le_exponent x
  rw [hrest, ulp]
  exact f.round_mul_zpow hbits (by omega)

/-- A number below one takes less than the whole. -/
theorem round_mul_lt (hx : f.round x = x) (hone : x < 1) (hd : 0 < d)
    (hd' : d < 2 ^ (f.fraction + 1)) : f.round (x * d) < d := by
  have hpos : (1 : ℚ) ≤ d := by exact_mod_cast hd
  rcases le_total x (1 / 2) with hsmall | hlarge
  · have hround := f.round_mono (x := x * d) (y := d / 2) (by nlinarith)
    rw [f.round_half hd'] at hround
    linarith
  · have hlarge' : 1 / 2 ≤ x * d := by nlinarith
    have herror := (abs_le.mp (f.abs_round_sub_le_of_half hlarge')).2
    have hulp := f.div_pow_lt_ulp x
    have habs : |x| = x := abs_of_nonneg (by linarith)
    have hnext := add_ulp_le (n := 1) hx (by
      rw [habs]
      exact hone.trans_le (one_le_pow₀ (by norm_num))) (by exact_mod_cast hone)
    rw [habs] at hulp
    rw [Nat.cast_one] at hnext
    have hstep : x * d + x * d / 2 ^ (f.fraction + 1) < (x + f.ulp x) * d := by
      rw [add_mul, mul_div_right_comm]
      have hmul := mul_lt_mul_of_pos_right hulp (by linarith : (0 : ℚ) < d)
      linarith
    nlinarith

/-- `double` -/
def double : FloatFormat := ⟨52, -1022, by decide⟩

end FloatFormat

/-- The `double` for a number. Overflow is left out. -/
def roundDouble (x : ℚ) : ℚ := FloatFormat.double.round x

theorem abs_roundDouble_sub_le (h : 1 / 2 ^ 53 ≤ x) : |roundDouble x - x| ≤ x / 2 ^ 53 := by
  have habs : |x| = x := abs_of_nonneg (le_trans (by norm_num) h)
  have hround := FloatFormat.double.abs_round_sub_le_div (x := x) ?_
  · rwa [habs] at hround
  · rw [habs]
    refine le_trans ?_ h
    rw [one_div, ← zpow_natCast, ← zpow_neg]
    exact zpow_le_zpow_right₀ (by norm_num) (by decide)

theorem rounding_double : Rounding roundDouble :=
  ⟨fun _ _ h => FloatFormat.double.round_mono h, FloatFormat.double.round_round,
    FloatFormat.double.round_neg, fun _ h => FloatFormat.double.round_natCast h,
    fun _ h => abs_roundDouble_sub_le h,
    fun _ _ hx hzero hlt hd => FloatFormat.floor_round_div hx hzero hlt hd,
    fun _ _ hx hzero hlt hd => FloatFormat.round_sub_floor hx hzero hlt hd,
    fun _ _ hx hone hd hd' => FloatFormat.round_mul_lt hx hone hd hd'⟩

theorem roundDouble_natCast (h : n < 2 ^ 53) : roundDouble n = n := rounding_double.natCast n h

theorem le_roundDouble (hx : x < 2 ^ 53) (hm : (m : ℚ) ≤ x) : (m : ℚ) ≤ roundDouble x :=
  rounding_double.ge_of_ge (roundDouble_natCast (by exact_mod_cast hm.trans_lt hx)) hm

theorem roundDouble_le (h : 1 / 2 ^ 53 ≤ x) : roundDouble x ≤ x + x / 2 ^ 53 :=
  sub_le_iff_le_add'.mp (abs_le.mp (abs_roundDouble_sub_le h)).2

/-- Rounding a quotient, and once more after adding to it, does not reach the next whole number:
a quotient by `d` that is not whole is `1 / d` away from it. -/
theorem floor_quotient (hn : 0 < n) (hd : 0 < d) (hk : 0 < k) (h : 3 * n + k * d < 2 ^ 53) :
    ⌊roundDouble (roundDouble (n / d) + k)⌋₊ = n / d + k := by
  have hd' : (0 : ℚ) < d := by exact_mod_cast hd
  have hk' : (1 : ℚ) ≤ k := by exact_mod_cast hk
  have hn' : (1 : ℚ) ≤ n := by exact_mod_cast hn
  have hq : (1 : ℚ) / 2 ^ 53 ≤ n / d := by
    have hle : d ≤ 2 ^ 53 := by nlinarith
    exact div_le_div₀ (by linarith) hn' hd' (by exact_mod_cast hle)
  have hq' : (0 : ℚ) < n / d := lt_of_lt_of_le (by norm_num) hq
  have herror : (3 * (n / d) + k) / 2 ^ 53 < 1 / (d : ℚ) := by
    rw [div_lt_div_iff₀ (by norm_num) hd', one_mul, add_mul, mul_assoc,
      div_mul_cancel₀ _ hd'.ne']
    exact_mod_cast h
  have hsmall : 1 / (d : ℚ) ≤ 1 := by
    rw [div_le_one hd']
    exact_mod_cast hd
  have hfloor : ((n / d : ℕ) : ℚ) ≤ n / d := by
    rw [le_div_iff₀ hd']
    exact_mod_cast Nat.div_mul_le_self n d
  have hbelow : (n : ℚ) / d ≤ (n / d : ℕ) + 1 - 1 / d := by
    have hnat : n + 1 ≤ n / d * d + d := Nat.lt_div_mul_add hd
    have hcast : (n : ℚ) + 1 ≤ ((n / d : ℕ) : ℚ) * d + d := by exact_mod_cast hnat
    rw [le_sub_iff_add_le, ← add_div, div_le_iff₀ hd', add_mul, one_mul]
    exact hcast
  have hupper := roundDouble_le hq
  have hlower := le_roundDouble (by linarith) hfloor
  have hsum : 1 / 2 ^ 53 ≤ roundDouble (n / d) + k := by
    have hzero : (0 : ℚ) ≤ (n / d : ℕ) := Nat.cast_nonneg _
    have hone : (1 : ℚ) / 2 ^ 53 ≤ 1 := by norm_num
    linarith
  have hupper' := roundDouble_le hsum
  have hlower' : ((n / d + k : ℕ) : ℚ) ≤ roundDouble (roundDouble (n / d) + k) := by
    refine le_roundDouble (by linarith) ?_
    push_cast
    linarith
  rw [Nat.floor_eq_iff ((Nat.cast_nonneg _).trans hlower')]
  refine ⟨hlower', ?_⟩
  push_cast
  linarith

end Vban.Library
