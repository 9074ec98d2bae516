import Vban.Library.Rounding

/-! `float`, and the whole part of a rounded product. -/
namespace Vban.Library

variable {x y : ℚ} {z e : ℤ} {s p f : Nat}

/-- `float` -/
def FloatFormat.single : FloatFormat := ⟨23, -126, by decide⟩

open FloatFormat

/-- The `float` for a number. Overflow is left out. -/
def roundSingle (x : ℚ) : ℚ := single.round x

theorem roundSingle_neg (x : ℚ) : roundSingle (-x) = -roundSingle x := single.round_neg x

theorem roundSingle_mono (h : x ≤ y) : roundSingle x ≤ roundSingle y := single.round_mono h

theorem roundSingle_nonneg (h : 0 ≤ x) : 0 ≤ roundSingle x := single.round_nonneg h

theorem roundSingle_nonpos (h : x ≤ 0) : roundSingle x ≤ 0 := single.round_nonpos h

theorem roundSingle_zero : roundSingle 0 = 0 := single.round_zero

/-- Numbers of 24 bits are kept. -/
theorem roundSingle_mul_pow (h : |z| < 2 ^ 24) (j : Nat) : roundSingle (z * 2 ^ j) = z * 2 ^ j := by
  rw [← zpow_natCast]
  refine single.round_mul_zpow h ?_
  change (-126 : ℤ) - 23 ≤ j
  omega

theorem roundSingle_intCast (h : |z| < 2 ^ 24) : roundSingle z = z := single.round_intCast h

theorem le_roundSingle (h : |z| < 2 ^ 24) (hz : (z : ℚ) ≤ x) : (z : ℚ) ≤ roundSingle x :=
  roundSingle_intCast h ▸ roundSingle_mono hz

theorem roundSingle_le (h : |z| < 2 ^ 24) (hz : x ≤ z) : roundSingle x ≤ z :=
  roundSingle_intCast h ▸ roundSingle_mono hz

theorem single_ulp_eq (he : -126 ≤ e) (h : 2 ^ e ≤ |x|) (h' : |x| < 2 ^ (e + 1)) :
    single.ulp x = 2 ^ e / 2 ^ 23 := by
  rw [single.ulp_eq he h h', zpow_sub₀ (by norm_num)]
  rfl

/-- The error is small against the number, or half the smallest distance there is. -/
theorem roundSingle_error (x : ℚ) :
    |roundSingle x - x| ≤ max (|x| / 2 ^ 24) (2 ^ (-150 : ℤ)) := by
  refine (single.round_error x).trans_eq ?_
  rw [single]
  norm_num

/-- The middle between the half and the number before it is rounded to the half, whose last bit is
even. -/
theorem roundSingle_before_half : roundSingle (1 / 2 - 1 / 2 ^ 26) = 1 / 2 := by
  have hulp : single.ulp (1 / 2 - 1 / 2 ^ 26) = 2 ^ (-2 : ℤ) / 2 ^ 23 := by
    apply single_ulp_eq (by decide)
    · norm_num [abs_of_pos]
    · norm_num [abs_of_pos]
  have hfloor : ⌊(2 ^ 24 - 1 / 2 : ℚ)⌋ = 2 ^ 24 - 1 := by
    rw [Int.floor_eq_iff]
    norm_num
  have hscaled : ((1 / 2 - 1 / 2 ^ 26) / (2 ^ (-2 : ℤ) / 2 ^ 23) : ℚ) = 2 ^ 24 - 1 / 2 := by
    norm_num
  rw [roundSingle, FloatFormat.round, hulp, hscaled, roundEven, hfloor]
  norm_num

theorem abs_roundSingle_lt_half : |roundSingle x| < 1 / 2 ↔ |x| < 1 / 2 - 1 / 2 ^ 26 := by
  wlog hx : 0 ≤ x generalizing x with hpos
  · have hneg := hpos (x := -x) (by linarith)
    rwa [roundSingle_neg, abs_neg, abs_neg] at hneg
  rw [abs_of_nonneg hx, abs_of_nonneg (roundSingle_nonneg hx)]
  constructor
  · intro hlt
    by_contra hge
    have hmono := roundSingle_mono (not_lt.mp hge)
    rw [roundSingle_before_half] at hmono
    linarith
  · intro hlt
    have habs : |x| < 2 ^ (-1 : ℤ) := by
      rw [abs_of_nonneg hx]
      norm_num at hlt ⊢
      linarith
    have hulp : single.ulp x ≤ 1 / 2 ^ 25 := by
      have hexp := single.exponent_lt (by decide) habs
      calc single.ulp x ≤ 2 ^ (-25 : ℤ) := by
            apply zpow_le_zpow_right₀ (by norm_num)
            change single.exponent x - 23 ≤ -25
            omega
        _ = 1 / 2 ^ 25 := by norm_num
    have hround := (abs_le.mp (single.abs_round_sub_le x)).2
    change roundSingle x - x ≤ _ at hround
    linarith

/-- A cast to an integer drops the fraction. -/
def truncate (x : ℚ) : ℤ := if 0 ≤ x then ⌊x⌋ else ⌈x⌉

theorem truncate_neg (x : ℚ) : truncate (-x) = -truncate x := by
  rw [truncate, truncate]
  rcases lt_trichotomy x 0 with h | rfl | h
  · rw [if_pos (by linarith), if_neg (by linarith), Int.floor_neg]
  · simp
  · rw [if_neg (by linarith), if_pos h.le, Int.ceil_neg]

theorem truncate_intCast (z : ℤ) : truncate z = z := by
  rw [truncate]
  split_ifs
  · exact Int.floor_intCast z
  · exact Int.ceil_intCast z

theorem truncate_mono (h : x ≤ y) : truncate x ≤ truncate y := by
  rw [truncate, truncate]
  split_ifs with hx hy hy
  · exact Int.floor_mono h
  · linarith
  · have hle : ⌈x⌉ ≤ 0 := Int.ceil_le.mpr (by push_cast; linarith)
    exact hle.trans (Int.floor_nonneg.mpr hy)
  · exact Int.ceil_mono h

theorem truncate_eq (h : (z : ℚ) ≤ x) (h' : x < z + 1) (hz : 0 ≤ z) : truncate x = z := by
  have hx : 0 ≤ x := le_trans (by exact_mod_cast hz) h
  rw [truncate, if_pos hx, Int.floor_eq_iff]
  exact ⟨h, h'⟩

/-- Rounding before the cast loses no more than the cast alone. -/
theorem abs_truncate_roundSingle_sub_lt (h : |x| < 2 ^ 23) :
    |(truncate (roundSingle x) : ℚ) - x| < 1 := by
  wlog hx : 0 ≤ x generalizing x with hpos
  · have hneg := hpos (x := -x) (by rwa [abs_neg]) (by linarith)
    rw [roundSingle_neg, truncate_neg] at hneg
    push_cast at hneg
    rwa [← neg_add', abs_neg, ← sub_eq_add_neg] at hneg
  · have hbits : |⌊x⌋| < 2 ^ 24 := by
      have hlt : ((⌊x⌋ : ℤ) : ℚ) < 2 ^ 24 := by linarith [Int.floor_le x, (abs_lt.mp h).2]
      rw [abs_of_nonneg (Int.floor_nonneg.mpr hx)]
      exact_mod_cast hlt
    have hround := roundSingle_nonneg hx
    have hfloor := le_roundSingle hbits (Int.floor_le x)
    have herror := roundSingle_error x
    have hsmall : max (|x| / 2 ^ 24) (2 ^ (-150 : ℤ)) ≤ 1 / 2 := by
      rw [max_le_iff]
      constructor
      · rw [div_le_iff₀ (by norm_num)]
        linarith
      · norm_num
    have hupper := (abs_le.mp (herror.trans hsmall)).2
    have htruncate : ⌊x⌋ ≤ truncate (roundSingle x) := by
      rw [truncate, if_pos hround]
      exact Int.le_floor.mpr hfloor
    have hle : (truncate (roundSingle x) : ℚ) ≤ roundSingle x := by
      rw [truncate, if_pos hround]
      exact Int.floor_le _
    have hcast : (⌊x⌋ : ℚ) ≤ truncate (roundSingle x) := by exact_mod_cast htruncate
    have hbelow := Int.lt_floor_add_one x
    rw [abs_lt]
    constructor <;> linarith

/-- Next to a number of 24 bits the rounded number is cut to it. -/
theorem truncate_roundSingle_eq (hs : (s : ℚ) ≤ x) (hx : x < s + 1 / 2) (h : s < 2 ^ 23) :
    truncate (roundSingle x) = s := by
  have hzero : (0 : ℚ) ≤ s := Nat.cast_nonneg s
  have hlt : (s : ℚ) + 1 ≤ 2 ^ 23 := by exact_mod_cast h
  have habs : |x| = x := abs_of_nonneg (hzero.trans hs)
  have hlow : ((s : ℤ) : ℚ) ≤ roundSingle x := by
    apply le_roundSingle
    · rw [Nat.abs_cast]
      omega
    · exact_mod_cast hs
  have herror := (abs_le.mp (roundSingle_error x)).2
  have hsmall : max (|x| / 2 ^ 24) (2 ^ (-150 : ℤ)) < 1 / 2 := by
    rw [max_lt_iff]
    constructor
    · rw [habs, div_lt_iff₀ (by norm_num)]
      linarith
    · norm_num
  refine truncate_eq hlow ?_ (Int.natCast_nonneg s)
  push_cast
  linarith

/-- A quotient by the full scale has the exponent of its dividend, less that of the scale. -/
theorem quotient_bounds (hf : 2 ^ f ≤ s) (hf' : s < 2 ^ (f + 1)) (hs : s < 2 ^ p - 1) :
    2 ^ ((f : ℤ) - p) ≤ (s : ℚ) / (2 ^ p - 1) ∧ (s : ℚ) / (2 ^ p - 1) < 2 ^ ((f : ℤ) - p + 1) := by
  have hpow : f + 1 ≤ p := by
    by_contra hlt
    have hle : 2 ^ p ≤ 2 ^ f := Nat.pow_le_pow_right (by norm_num) (by omega)
    omega
  have hdouble : 2 ^ (f + 1) ≤ 2 ^ p := Nat.pow_le_pow_right (by norm_num) hpow
  have htwo : 2 ^ (f + 1) = 2 * 2 ^ f := Nat.pow_succ'
  have hscale : (0 : ℚ) < 2 ^ p - 1 := by
    have hone : (1 : ℚ) < 2 ^ p := by exact_mod_cast (by omega : 1 < 2 ^ p)
    linarith
  have hcast : (2 : ℚ) ^ f ≤ s := by exact_mod_cast hf
  have hsum : (f : ℤ) - p + 1 = (f + 1 : ℕ) - (p : ℤ) := by
    push_cast
    ring
  rw [hsum, zpow_sub₀ (by norm_num), zpow_sub₀ (by norm_num), zpow_natCast, zpow_natCast,
    zpow_natCast]
  constructor
  · rw [div_le_div_iff₀ (by positivity) hscale]
    nlinarith [pow_pos (two_pos : (0 : ℚ) < 2) f, pow_pos (two_pos : (0 : ℚ) < 2) p]
  · rw [div_lt_div_iff₀ hscale (by positivity)]
    have hnat : s * 2 ^ p + 2 ^ (f + 1) < 2 ^ (f + 1) * 2 ^ p := by
      rcases hpow.lt_or_eq with hlt | rfl
      · have hlt' : 2 ^ (f + 1) < 2 ^ p := Nat.pow_lt_pow_right (by norm_num) hlt
        nlinarith
      · have hle : s + 2 ≤ 2 ^ (f + 1) := by omega
        nlinarith
    have hrat : (s : ℚ) * 2 ^ p + 2 ^ (f + 1) < 2 ^ (f + 1) * 2 ^ p := by exact_mod_cast hnat
    linarith

/-- The distance between the numbers around such a quotient. -/
theorem ulp_quotient (hp : p ≤ 23) (hf : 2 ^ f ≤ s) (hf' : s < 2 ^ (f + 1))
    (hs : s < 2 ^ p - 1) :
    single.ulp ((s : ℚ) / (2 ^ p - 1)) = 2 ^ ((f : ℤ) - p) / 2 ^ 23 := by
  obtain ⟨hlow, hhigh⟩ := quotient_bounds hf hf' hs
  have habs : |(s : ℚ) / (2 ^ p - 1)| = (s : ℚ) / (2 ^ p - 1) :=
    abs_of_nonneg ((zpow_nonneg (by norm_num) _).trans hlow)
  exact single_ulp_eq (by omega) (by rwa [habs]) (by rwa [habs])

theorem full_scale_pos (hp : 13 ≤ p) : (2 : ℚ) ^ 13 - 1 ≤ 2 ^ p - 1 := by
  have hle : (2 : ℚ) ^ 13 ≤ 2 ^ p := pow_le_pow_right₀ (by norm_num) hp
  linarith

/-- A power of two over the full scale: the second bit set in the quotient is its last. -/
theorem roundSingle_power_quotient (hp : 13 ≤ p) (hp' : p ≤ 23) (hf : f < p) :
    roundSingle ((2 : ℚ) ^ f / (2 ^ p - 1)) = 2 ^ f / 2 ^ p * (1 + 1 / 2 ^ p) := by
  have hscale := full_scale_pos hp
  have hlt : 2 ^ f < 2 ^ p - 1 := by
    have hhalf : 2 ^ f ≤ 2 ^ (p - 1) := Nat.pow_le_pow_right (by norm_num) (by omega)
    have hbig : 2 ^ 13 ≤ 2 ^ p := Nat.pow_le_pow_right (by norm_num) hp
    have hpow : 2 ^ p = 2 * 2 ^ (p - 1) := by
      rw [← Nat.pow_succ']
      congr 1
      omega
    omega
  have hulp := ulp_quotient (s := 2 ^ f) hp' le_rfl
    (Nat.pow_lt_pow_right (by norm_num) (Nat.lt_succ_self f)) hlt
  rw [zpow_sub₀ (by norm_num), zpow_natCast, zpow_natCast] at hulp
  push_cast at hulp
  have hexp : (2 : ℚ) ^ (23 - p) * 2 ^ p = 2 ^ 23 := by
    rw [← pow_add]
    congr 1
    omega
  have hP : (0 : ℚ) < 2 ^ p := by positivity
  have hF : (0 : ℚ) < 2 ^ f := by positivity
  have hvalue : ((2 ^ 23 + 2 ^ (23 - p) : ℤ) : ℚ) * (2 ^ f / 2 ^ p / 2 ^ 23) =
      2 ^ f / 2 ^ p * (1 + 1 / 2 ^ p) := by
    have hdiv : (2 : ℚ) ^ (23 - p) = 2 ^ 23 / 2 ^ p := by
      rw [eq_div_iff hP.ne', hexp]
    push_cast
    rw [hdiv]
    field_simp
    ring
  have hnear : |(2 : ℚ) ^ f / (2 ^ p - 1) - 2 ^ f / 2 ^ p * (1 + 1 / 2 ^ p)| <
      2 ^ f / 2 ^ p / 2 ^ 23 / 2 := by
    have hgap : (2 : ℚ) ^ f / (2 ^ p - 1) - 2 ^ f / 2 ^ p * (1 + 1 / 2 ^ p) =
        2 ^ f / 2 ^ p * (1 / (2 ^ p * (2 ^ p - 1))) := by
      have hne : (2 : ℚ) ^ p - 1 ≠ 0 := by
        have hpos : (0 : ℚ) < 2 ^ 13 - 1 := by norm_num
        linarith
      field_simp
      ring
    have hprod : (2 : ℚ) ^ 24 < 2 ^ p * (2 ^ p - 1) := by nlinarith
    have hpos : (0 : ℚ) < 2 ^ f / 2 ^ p := by positivity
    have hinv : 1 / ((2 : ℚ) ^ p * (2 ^ p - 1)) < 1 / 2 ^ 24 :=
      one_div_lt_one_div_of_lt (by norm_num) hprod
    rw [hgap, abs_of_nonneg (mul_nonneg hpos.le (one_div_nonneg.mpr (by linarith))), div_div]
    calc _ < 2 ^ f / 2 ^ p * (1 / 2 ^ 24) := mul_lt_mul_of_pos_left hinv hpos
      _ = _ := by ring
  rw [← hvalue, ← hulp]
  apply single.round_eq
  rw [hulp, hvalue]
  exact hnear

/-- Near a whole number of the same exponent, the rounded number is that one. -/
theorem truncate_roundSingle_near {y : ℚ} {e : ℤ} (he : -126 ≤ e) (he' : e ≤ 23)
    (hlow : 2 ^ e ≤ y) (hhigh : y < 2 ^ (e + 1)) (hnear : |y - s| < 2 ^ e / 2 ^ 24) :
    truncate (roundSingle y) = s := by
  have habs : |y| = y := abs_of_nonneg ((zpow_nonneg (by norm_num) _).trans hlow)
  have hulp := single_ulp_eq he (x := y) (by rwa [habs]) (by rwa [habs])
  obtain ⟨j, hj⟩ := Int.eq_ofNat_of_zero_le (sub_nonneg.mpr he')
  have hscale : (2 : ℚ) ^ j * 2 ^ e = 2 ^ 23 := by
    rw [← zpow_natCast, ← zpow_add₀ (by norm_num), ← hj, sub_add_cancel]
    norm_num
  have hvalue : ((s * 2 ^ j : ℤ) : ℚ) * single.ulp y = s := by
    rw [hulp]
    push_cast
    rw [mul_assoc, ← mul_div_assoc, hscale, div_self (by norm_num), mul_one]
  have hround : roundSingle y = s := by
    rw [← hvalue]
    apply single.round_eq
    rw [hvalue, hulp]
    calc |y - s| < 2 ^ e / 2 ^ 24 := hnear
      _ = 2 ^ e / 2 ^ 23 / 2 := by ring
  rw [hround]
  exact truncate_intCast s

theorem truncate_product_power (hp : 13 ≤ p) (hp' : p ≤ 23) (hf : f < p) :
    truncate (roundSingle ((2 ^ p - 1) * roundSingle (2 ^ f / (2 ^ p - 1)))) = (2 ^ f : ℕ) := by
  have hP : (2 : ℚ) ^ 13 ≤ 2 ^ p := pow_le_pow_right₀ (by norm_num) hp
  have hF : (0 : ℚ) < 2 ^ f := by positivity
  have hvalue : ((2 : ℚ) ^ p - 1) * roundSingle (2 ^ f / (2 ^ p - 1)) =
      2 ^ f - 2 ^ f / (2 ^ p * 2 ^ p) := by
    rw [roundSingle_power_quotient hp hp' hf]
    field_simp
    ring
  have hgap : (2 : ℚ) ^ f / (2 ^ p * 2 ^ p) ≤ 2 ^ f / 2 ^ 26 := by
    apply div_le_div_of_nonneg_left hF.le (by norm_num)
    nlinarith
  have hgap' : (0 : ℚ) < 2 ^ f / (2 ^ p * 2 ^ p) := by positivity
  have hhalf : (2 : ℚ) ^ ((f : ℤ) - 1) = 2 ^ f / 2 := by
    rw [zpow_sub₀ (by norm_num), zpow_natCast, zpow_one]
  rw [hvalue]
  apply truncate_roundSingle_near (e := (f : ℤ) - 1) (by omega) (by omega)
  · rw [hhalf]
    linarith
  · rw [sub_add_cancel, zpow_natCast]
    linarith
  · push_cast
    rw [hhalf, sub_sub_cancel_left, abs_neg, abs_of_pos hgap']
    linarith

/-- The product lies within half a distance of the whole number. -/
theorem abs_product_quotient_sub_lt (hp : 13 ≤ p) (hp' : p ≤ 23) (hf : 2 ^ f ≤ s)
    (hf' : s < 2 ^ (f + 1)) (hs : s < 2 ^ p - 1) :
    |(2 ^ p - 1) * roundSingle ((s : ℚ) / (2 ^ p - 1)) - s| < 2 ^ f / 2 ^ 24 := by
  have hpos : (0 : ℚ) < 2 ^ p - 1 := lt_of_lt_of_le (by norm_num) (full_scale_pos hp)
  have hF : (0 : ℚ) < 2 ^ f := by positivity
  have hP : (0 : ℚ) < 2 ^ p := by positivity
  have herror := single.abs_round_sub_le ((s : ℚ) / (2 ^ p - 1))
  rw [ulp_quotient hp' hf hf' hs, zpow_sub₀ (by norm_num), zpow_natCast,
    zpow_natCast] at herror
  have heq : (2 ^ p - 1) * roundSingle ((s : ℚ) / (2 ^ p - 1)) - s =
      (2 ^ p - 1) * (roundSingle (s / (2 ^ p - 1)) - s / (2 ^ p - 1)) := by
    rw [mul_sub, mul_div_cancel₀ _ hpos.ne']
  rw [heq, abs_mul, abs_of_pos hpos]
  calc (2 ^ p - 1) * |roundSingle ((s : ℚ) / (2 ^ p - 1)) - s / (2 ^ p - 1)|
      ≤ (2 ^ p - 1) * (2 ^ f / 2 ^ p / 2 ^ 23 / 2) := mul_le_mul_of_nonneg_left herror hpos.le
    _ < 2 ^ p * (2 ^ f / 2 ^ p / 2 ^ 23 / 2) :=
      mul_lt_mul_of_pos_right (by linarith) (by positivity)
    _ = 2 ^ f / 2 ^ 24 := by
      rw [div_div, div_div, ← mul_div_assoc, mul_div_mul_left _ _ hP.ne']
      norm_num

/-- A whole number over the full scale and back, each rounded. -/
theorem truncate_product_quotient (hp : 13 ≤ p) (hp' : p ≤ 23) (hs : s < 2 ^ p) :
    truncate (roundSingle ((2 ^ p - 1) * roundSingle (s / (2 ^ p - 1)))) = s := by
  have hpos : (0 : ℚ) < 2 ^ p - 1 := lt_of_lt_of_le (by norm_num) (full_scale_pos hp)
  have hbound : 2 ^ p ≤ 2 ^ 23 := Nat.pow_le_pow_right (by norm_num) hp'
  rcases Nat.eq_zero_or_pos s with rfl | hspos
  · rw [Nat.cast_zero, zero_div, roundSingle_zero, mul_zero, roundSingle_zero]
    exact truncate_intCast 0
  rcases (Nat.le_sub_one_of_lt hs).lt_or_eq with hlt | hfull
  · obtain ⟨f, hf, hf'⟩ : ∃ f, 2 ^ f ≤ s ∧ s < 2 ^ (f + 1) :=
      ⟨Nat.log 2 s, Nat.pow_log_le_self 2 hspos.ne', Nat.lt_pow_succ_log_self (by norm_num) s⟩
    have hfp : f < p := (Nat.pow_lt_pow_iff_right (by norm_num)).mp (hf.trans_lt hs)
    have hdist := abs_product_quotient_sub_lt hp hp' hf hf' hlt
    have hdist' := abs_lt.mp hdist
    have hfbound : (2 : ℚ) ^ f / 2 ^ 24 ≤ 1 / 2 := by
      have hle : (2 : ℚ) ^ f ≤ 2 ^ 23 := pow_le_pow_right₀ (by norm_num) (by omega)
      rw [div_le_iff₀ (by norm_num)]
      linarith
    rcases le_or_gt (s : ℚ) ((2 ^ p - 1) * roundSingle (s / (2 ^ p - 1))) with hge | hgt
    · exact truncate_roundSingle_eq hge (by linarith [hdist'.2]) (by omega)
    · rcases hf.lt_or_eq with hless | rfl
      · have hless' : (2 : ℚ) ^ f + 1 ≤ s := by exact_mod_cast hless
        have hhigh : (s : ℚ) < 2 ^ (f + 1) := by exact_mod_cast hf'
        apply truncate_roundSingle_near (e := f) (by omega) (by omega)
        · rw [zpow_natCast]
          linarith [hdist'.1]
        · rw [zpow_add₀ (by norm_num), zpow_natCast, zpow_one]
          rw [pow_succ] at hhigh
          exact hgt.trans hhigh
        · rwa [zpow_natCast]
      · push_cast
        exact_mod_cast truncate_product_power hp hp' hfp
  · have hcast : (s : ℚ) = 2 ^ p - 1 := by
      rw [hfull, Nat.cast_sub Nat.one_le_two_pow]
      push_cast
      rfl
    have hone : roundSingle 1 = 1 := by
      have h := roundSingle_intCast (z := 1) (by norm_num)
      simpa using h
    have hint : roundSingle ((s : ℤ) : ℚ) = (s : ℤ) := by
      apply roundSingle_intCast
      rw [abs_lt]
      omega
    rw [Int.cast_natCast] at hint
    rw [hcast, div_self hpos.ne', hone, mul_one, ← hcast, hint]
    exact truncate_intCast s

theorem truncate_product_quotient_int (hp : 13 ≤ p) (hp' : p ≤ 23) (hz : |z| < 2 ^ p) :
    truncate (roundSingle ((2 ^ p - 1) * roundSingle (z / (2 ^ p - 1)))) = z := by
  obtain ⟨s, rfl | rfl⟩ := z.eq_nat_or_neg
  · rw [Nat.abs_cast] at hz
    exact truncate_product_quotient hp hp' (by exact_mod_cast hz)
  · rw [abs_neg, Nat.abs_cast] at hz
    push_cast
    rw [neg_div, roundSingle_neg, mul_neg, roundSingle_neg, truncate_neg,
      truncate_product_quotient hp hp' (by exact_mod_cast hz)]

/-- Beyond the full scale the quotient stays above one. -/
theorem one_lt_roundSingle (h : 1 + 1 / 2 ^ 23 ≤ x) : 1 < roundSingle x := by
  have hkept := single.round_mul_zpow (z := 2 ^ 23 + 1) (e := -23) (by decide) (by decide)
  have hvalue : ((2 ^ 23 + 1 : ℤ) : ℚ) * 2 ^ (-23 : ℤ) = 1 + 1 / 2 ^ 23 := by norm_num
  rw [hvalue] at hkept
  calc (1 : ℚ) < 1 + 1 / 2 ^ 23 := by norm_num
    _ = roundSingle (1 + 1 / 2 ^ 23) := hkept.symm
    _ ≤ roundSingle x := roundSingle_mono h

/-- The bits of the magnitude: the biased exponent and the fraction, which carries over. -/
def singleBits (x : ℚ) : Nat :=
  (single.exponent x + 126).toNat * 2 ^ 23 + (roundEven (|x| / single.ulp x)).toNat

/-- The number with these bits. -/
def singleOfBits (n : Nat) : ℚ :=
  if n / 2 ^ 23 = 0 then n / 2 ^ 149 else (2 ^ 23 + n % 2 ^ 23 : Nat) * 2 ^ (n / 2 ^ 23) / 2 ^ 150

/-- The fraction may be full: then the exponent is the next one. -/
theorem singleOfBits_eq {k m : Nat} (hm : m ≤ 2 ^ 24) (hk : k = 0 ∨ 2 ^ 23 ≤ m) :
    singleOfBits (k * 2 ^ 23 + m) = m * 2 ^ k / 2 ^ 149 := by
  rw [singleOfBits]
  rcases Nat.lt_or_ge m (2 ^ 23) with hsmall | hlarge
  · obtain rfl : k = 0 := by omega
    rw [if_pos (by omega)]
    simp
  · rcases hm.lt_or_eq with hlt | rfl
    · have hdiv : (k * 2 ^ 23 + m) / 2 ^ 23 = k + 1 := by omega
      have hmod : 2 ^ 23 + (k * 2 ^ 23 + m) % 2 ^ 23 = m := by omega
      rw [hdiv, hmod, if_neg (Nat.succ_ne_zero k), pow_succ]
      ring
    · have hdiv : (k * 2 ^ 23 + 2 ^ 24) / 2 ^ 23 = k + 2 := by omega
      have hmod : 2 ^ 23 + (k * 2 ^ 23 + 2 ^ 24) % 2 ^ 23 = 2 ^ 23 := by omega
      rw [hdiv, hmod, if_neg (by omega)]
      push_cast
      ring

/-- The bits are those of the rounded number. -/
theorem singleOfBits_singleBits (x : ℚ) : singleOfBits (singleBits x) = |roundSingle x| := by
  have hulp := single.ulp_pos x
  have hleast : -126 ≤ single.exponent x := single.least_le_exponent x
  have hnonneg : 0 ≤ roundEven (|x| / single.ulp x) :=
    le_roundEven (by push_cast; positivity)
  obtain ⟨m, hm⟩ := Int.eq_ofNat_of_zero_le hnonneg
  obtain ⟨k, hk⟩ := Int.eq_ofNat_of_zero_le (a := single.exponent x + 126) (by omega)
  have hle : m ≤ 2 ^ 24 := by
    have hround := roundEven_le_intCast (z := 2 ^ 24) (by
      push_cast
      exact (single.abs_div_ulp_lt x).le)
    omega
  have hfull : k = 0 ∨ 2 ^ 23 ≤ m := by
    rcases Nat.eq_zero_or_pos k with hzero | hpos
    · exact .inl hzero
    · right
      have hlead : -126 < single.exponent x := by omega
      have hge : ((2 ^ 23 : ℤ) : ℚ) ≤ |x| / single.ulp x := by
        push_cast
        exact single.le_abs_div_ulp hlead
      have hround := le_roundEven hge
      omega
  have hvalue : |roundSingle x| = m * single.ulp x := by
    rcases le_total 0 x with hx | hx
    · rw [abs_of_nonneg hx] at hm
      rw [abs_of_nonneg (roundSingle_nonneg hx), roundSingle, FloatFormat.round, hm,
        Int.cast_natCast]
    · rw [abs_of_nonpos hx, neg_div, roundEven_neg] at hm
      rw [abs_of_nonpos (roundSingle_nonpos hx), roundSingle, FloatFormat.round, ← neg_mul,
        ← Int.cast_neg, hm, Int.cast_natCast]
  have hexp : single.ulp x = 2 ^ ((k : ℤ) - 149) := by
    have hsub : single.exponent x - 23 = (k : ℤ) - 149 := by omega
    rw [← hsub]
    rfl
  rw [singleBits, hm, hk, Int.toNat_natCast, Int.toNat_natCast, singleOfBits_eq hle hfull, hvalue,
    hexp, zpow_sub₀ (by norm_num), zpow_natCast, mul_div_assoc]
  norm_num

end Vban.Library
