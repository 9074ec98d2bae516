import Vban.Pcmi.Samples

/-! What a sample becomes when it is played and captured again, or captured and played. -/
namespace Vban.Pcmi

open Library Vban.Convert

/-- The code of a float: clipped to the full scale, or the whole part of the product. -/
def level (p : Nat) (s : CFloat) : Int :=
  if 1 < floatValue s then 2 ^ p - 1
  else if floatValue s < -1 then -(2 ^ p - 1)
  else truncate (roundSingle ((2 ^ p - 1) * floatValue s))

variable {f : PcmFormat} {p : Nat} {x : Rat} {s : CFloat} {d : Int} {bytes : List UInt8}

theorem singleBits_lt (h : |x| < 2 ^ 127) : singleBits x < 0x7F800000 := by
  have hexp : FloatFormat.single.exponent x < 127 :=
    FloatFormat.single.exponent_lt (by decide) (by exact_mod_cast h)
  have hround := roundEven_le_intCast (z := 2 ^ 24) (by
    push_cast
    exact (FloatFormat.single.abs_div_ulp_lt x).le)
  rw [singleBits]
  omega

theorem not_isNaN_floatOfRat (x : Rat) : ¬IsNaN (floatOfRat x) := by
  rw [IsNaN, floatOfRat, UInt32.toNat_ofNat']
  split_ifs <;> omega

/-- Sign and magnitude. -/
theorem floatValue_ofNat {m : Nat} (hm : m < 0x7F800000) (negative : Bool) :
    floatValue (UInt32.ofNat ((if negative then 2 ^ 31 else 0) + m)) =
      (if negative then -1 else 1) * singleOfBits m := by
  have hn : (UInt32.ofNat ((if negative then 2 ^ 31 else 0) + m)).toNat =
      (if negative then 2 ^ 31 else 0) + m := by
    rw [UInt32.toNat_ofNat', Nat.mod_eq_of_lt (by split_ifs <;> omega)]
  have hexp : ((if negative then 2 ^ 31 else 0) + m) / 2 ^ 23 % 2 ^ 8 = m / 2 ^ 23 := by
    split_ifs <;> omega
  have hfrac : ((if negative then 2 ^ 31 else 0) + m) % 2 ^ 23 = m % 2 ^ 23 := by
    split_ifs <;> omega
  have hfinite : ¬m / 2 ^ 23 = 255 := by omega
  have hmagnitude : (if m / 2 ^ 23 = 0 then ((m % 2 ^ 23 : Nat) : Rat) / 2 ^ 149
      else (2 ^ 23 + ((m % 2 ^ 23 : Nat) : Rat)) * 2 ^ (m / 2 ^ 23) / 2 ^ 150) =
        singleOfBits m := by
    rw [singleOfBits]
    split_ifs with hzero
    · rw [Nat.mod_eq_of_lt (by omega)]
    · push_cast
      rfl
  simp only [floatValue, hn, hexp, hfrac, hfinite, if_false, false_and, or_false, hmagnitude]
  cases negative
  · rw [if_pos (by simp; omega)]
    simp
  · rw [if_neg (by simp)]
    simp

/-- The bits made for a number are read as the number of 24 bits next to it. -/
theorem floatValue_floatOfRat (h : |x| < 2 ^ 127) : floatValue (floatOfRat x) = roundSingle x := by
  have hlt := singleBits_lt h
  have hread := floatValue_ofNat hlt (decide (x < 0))
  rw [singleOfBits_singleBits] at hread
  rw [floatOfRat, min_eq_left hlt.le]
  simp only [decide_eq_true_eq] at hread
  rw [hread]
  split_ifs with hx
  · rw [abs_of_nonpos (roundSingle_nonpos hx.le)]
    ring
  · rw [abs_of_nonneg (roundSingle_nonneg (not_lt.mp hx)), one_mul]

theorem full_scale_lt (hp : p ≤ 23) : (2 : Int) ^ p - 1 < 2 ^ 23 := by
  have hle : (2 : Int) ^ p ≤ 2 ^ 23 := pow_le_pow_right₀ (by norm_num) hp
  omega

theorem full_scale_nonneg (p : Nat) : (0 : Int) ≤ 2 ^ p - 1 := by
  have hpos : (0 : Int) < 2 ^ p := by positivity
  omega

/-- Inside the full scale the product is that of a float between -1 and 1. -/
theorem abs_product_le {v : Rat} (h : ¬1 < v) (h' : ¬v < -1) :
    |(2 ^ p - 1) * v| ≤ 2 ^ p - 1 := by
  have hscale : (0 : Rat) ≤ 2 ^ p - 1 := by exact_mod_cast full_scale_nonneg p
  rw [abs_mul, abs_of_nonneg hscale]
  exact mul_le_of_le_one_right hscale (abs_le.mpr ⟨not_lt.mp h', not_lt.mp h⟩)

theorem abs_level_le (hp : p ≤ 23) (s : CFloat) : |level p s| ≤ 2 ^ p - 1 := by
  have hnonneg := full_scale_nonneg p
  have hsmall : ((2 : Rat) ^ p - 1) < 2 ^ 23 := by exact_mod_cast full_scale_lt hp
  rw [level]
  split_ifs with h h'
  · rw [abs_of_nonneg hnonneg]
  · rw [abs_neg, abs_of_nonneg hnonneg]
  · have habs := abs_product_le (p := p) h h'
    have hbits : |(2 ^ p - 1 : Int)| < 2 ^ 24 := by
      have hlt := full_scale_lt hp
      have hone : (1 : Int) ≤ 2 ^ p := one_le_pow₀ (by norm_num)
      rw [abs_lt]
      omega
    have hlow := le_roundSingle (z := -(2 ^ p - 1)) (by rwa [abs_neg])
      (by push_cast; exact (abs_le.mp habs).1)
    have hhigh := roundSingle_le hbits (by push_cast; exact (abs_le.mp habs).2)
    rw [abs_le]
    exact ⟨by simpa only [truncate_intCast] using truncate_mono hlow,
      by simpa only [truncate_intCast] using truncate_mono hhigh⟩

/-- A code is less than one step away from the clipped sample. -/
theorem abs_level_sub_lt (hp : p ≤ 23) (s : CFloat) :
    |(level p s : Rat) - (2 ^ p - 1) * max (-1) (min 1 (floatValue s))| < 1 := by
  have hsmall : ((2 : Rat) ^ p - 1) < 2 ^ 23 := by exact_mod_cast full_scale_lt hp
  rw [level]
  split_ifs with h h'
  · rw [min_eq_left h.le, max_eq_right (by norm_num)]
    push_cast
    norm_num
  · rw [max_eq_left ((min_le_right _ _).trans h'.le)]
    push_cast
    norm_num
  · rw [min_eq_right (not_lt.mp h), max_eq_right (not_lt.mp h')]
    exact abs_truncate_roundSingle_sub_lt ((abs_product_le h h').trans_lt hsmall)

/-- Only the code below the full scale depends on the constant in the source. -/
theorem playCode_eq {bits : Nat} {low : Int} (hp : p ≤ 23) (hbits : p < bits) (hs : ¬IsNaN s) :
    playCode bits (2 ^ p - 1) (2 ^ p - 1) low s =
      some (if floatValue s < -1 then low else level p s) := by
  have hscale : roundSingle ((2 ^ p - 1 : Int) : Rat) = (2 ^ p - 1 : Int) := by
    apply roundSingle_intCast
    rw [abs_of_nonneg (full_scale_nonneg p)]
    exact (full_scale_lt hp).trans (by norm_num)
  have hrange := abs_le.mp (abs_level_le hp s)
  have hpow : (2 : Int) ^ p ≤ 2 ^ (bits - 1) := pow_le_pow_right₀ (by norm_num) (by omega)
  rw [playCode, if_neg hs, hscale]
  by_cases h : 1 < floatValue s
  · rw [if_pos h, if_neg (by linarith), level, if_pos h]
  · by_cases h' : floatValue s < -1
    · rw [if_neg h, if_pos h', if_pos h']
    · have hlevel : level p s =
          truncate (roundSingle (((2 ^ p - 1 : Int) : Rat) * floatValue s)) := by
        rw [level, if_neg h, if_neg h']
        push_cast
        rfl
      rw [if_neg h, if_neg h', if_neg h', ← hlevel, castInt, if_pos (by omega)]

/-- Two constants with the same low bytes are the same sample. -/
theorem code16_eq (hs : ¬IsNaN s) : code16 s = some (level 15 s) := by
  have hlow : Int.bmod 0x8001 (2 ^ 16) = -(2 ^ 15 - 1) := by decide
  have heq : playCode 16 (2 ^ 15 - 1) (2 ^ 15 - 1) (-(2 ^ 15 - 1)) s =
      some (if floatValue s < -1 then -(2 ^ 15 - 1) else level 15 s) :=
    playCode_eq (by norm_num) (by norm_num) hs
  rw [code16, hlow]
  refine heq.trans (congrArg some ?_)
  split_ifs with h
  · rw [level, if_neg (by linarith), if_pos h]
  · rfl

theorem code24_bytes (hs : ¬IsNaN s) :
    (code24 s).map (bytesOfInt 3) = some (bytesOfInt 3 (level 23 s)) := by
  have hlow : bytesOfInt 3 0x00800001 = bytesOfInt 3 (-(2 ^ 23 - 1)) := by decide
  have heq : code24 s = some (if floatValue s < -1 then 0x00800001 else level 23 s) :=
    playCode_eq (p := 23) (by norm_num) (by norm_num) hs
  rw [heq, Option.map_some]
  congr 1
  split_ifs with h
  · rw [level, if_neg (by linarith), if_pos h]
    exact hlow
  · rfl

theorem toNat_shiftByte (d : Int) (k : Nat) : ((shiftByte d k).toNat : Int) = d / 2 ^ k % 256 := by
  rw [shiftByte]
  have h : (UInt8.ofInt (d / 2 ^ k)).toNat = (d / 2 ^ k % 256).toNat := by
    simp only [UInt8.ofInt, UInt8.toNat_ofNat']
    omega
  rw [h]
  omega

theorem bytesOfInt_two (d : Int) : bytesOfInt 2 d = [shiftByte d 0, shiftByte d 8] := by
  have h0 := toNat_shiftByte d 0
  have h8 := toNat_shiftByte d 8
  simp only [bytesOfInt, leBytes]
  congr 1
  · apply UInt8.toNat_inj.mp
    rw [UInt8.toNat_ofNat']
    omega
  · congr 1
    apply UInt8.toNat_inj.mp
    rw [UInt8.toNat_ofNat']
    omega

theorem bytesOfInt_three (d : Int) :
    bytesOfInt 3 d = [shiftByte d 0, shiftByte d 8, shiftByte d 16] := by
  have h0 := toNat_shiftByte d 0
  have h8 := toNat_shiftByte d 8
  have h16 := toNat_shiftByte d 16
  simp only [bytesOfInt, leBytes, List.cons.injEq, and_true, ← UInt8.toNat_inj, UInt8.toNat_ofNat']
  omega

theorem play_eq (hp : f.scaleBits = some p) (hs : ¬IsNaN s) :
    f.play s = some (f.encode (level p s)) := by
  have h16 := code16_eq hs
  have h24 := code24_bytes hs
  have hcode : ∀ g : List UInt8 → List UInt8,
      (code24 s).map (fun d => g [shiftByte d 0, shiftByte d 8, shiftByte d 16]) =
        some (g (bytesOfInt 3 (level 23 s))) := by
    intro g
    have h := congrArg (Option.map g) h24
    simp only [Option.map_map, Option.map_some] at h
    rw [← h]
    congr 1
    funext d
    rw [Function.comp_apply, bytesOfInt_three]
  cases f with
  | floatLE => cases hp
  | floatBE => cases hp
  | s32LE => cases hp; exact hcode fun b => 0 :: b
  | s32BE => cases hp; exact hcode fun b => (0 :: b).reverse
  | s24LE => cases hp; exact hcode id
  | s24BE => cases hp; exact hcode List.reverse
  | s16LE =>
    cases hp
    simp only [PcmFormat.play, play16le, h16, Option.map_some, PcmFormat.encode,
      PcmFormat.lowFirst, PcmFormat.padding, PcmFormat.width]
    rw [bytesOfInt_two]
    rfl
  | s16BE =>
    cases hp
    simp only [PcmFormat.play, play16be, h16, Option.map_some, PcmFormat.encode,
      PcmFormat.lowFirst, PcmFormat.padding, PcmFormat.width]
    rw [bytesOfInt_two]
    rfl

theorem quotient_eq {m k : Int} (hm : |m| < 2 ^ 24) (hk : |k| < 2 ^ 24) (j : Nat) :
    quotient (m * 2 ^ j) (k * 2 ^ j) = floatOfRat (m / k) := by
  have hpow : (2 : Rat) ^ j ≠ 0 := by positivity
  have hm' := roundSingle_mul_pow hm j
  have hk' := roundSingle_mul_pow hk j
  rw [quotient]
  push_cast
  rw [hm', hk', mul_div_mul_right _ _ hpow]

theorem leNat_two (b0 b1 : UInt8) : leNat [b0, b1] = b0.toNat + b1.toNat * 2 ^ 8 := by
  simp only [leNat]
  omega

theorem leNat_three (b0 b1 b2 : UInt8) :
    leNat [b0, b1, b2] = b0.toNat + b1.toNat * 2 ^ 8 + b2.toNat * 2 ^ 16 := by
  simp only [leNat]
  omega

theorem abs_leInt_le {k : Nat} (hlen : bytes.length = k + 1) :
    -2 ^ (8 * k + 7) ≤ leInt bytes ∧ leInt bytes < 2 ^ (8 * k + 7) := by
  have hfull : ((256 ^ bytes.length : Nat) : Int) = 2 * 2 ^ (8 * k + 7) := by
    rw [hlen, Nat.cast_pow, Nat.cast_ofNat, show (256 : Int) = 2 ^ 8 by rfl, ← pow_mul,
      ← pow_succ']
    rfl
  have hpos : 0 < 256 ^ bytes.length := Nat.pow_pos (by decide)
  have hlow := Int.le_bmod (x := leNat bytes) hpos
  have hhigh := Int.bmod_lt (x := leNat bytes) hpos
  rw [leInt]
  omega

theorem signed24_eq (b0 b1 b2 : UInt8) :
    signed24 (b0.toNat + b1.toNat * 2 ^ 8 + b2.toNat * 2 ^ 16) = leInt [b0, b1, b2] := by
  have h0 := b0.toNat_lt
  have h1 := b1.toNat_lt
  have h2 := b2.toNat_lt
  rw [leInt, leNat_three, signed24, Int.bmod_def, Nat.testBit_eq_decide_div_mod_eq]
  simp only [List.length_cons, List.length_nil, decide_eq_true_eq]
  split_ifs <;> omega

theorem bmod_two (b0 b1 : UInt8) :
    Int.bmod (b0.toNat + b1.toNat * 2 ^ 8) (2 ^ 16) = leInt [b0, b1] := by
  have h0 := b0.toNat_lt
  have h1 := b1.toNat_lt
  rw [leInt, leNat_two, Int.bmod_def, Int.bmod_def]
  simp only [List.length_cons, List.length_nil]
  split_ifs <;> omega

/-- The sum of 32 bits is 256 times the code. -/
theorem bmod_shifted (b1 b2 b3 : UInt8) :
    Int.bmod (b1.toNat * 2 ^ 8 + b2.toNat * 2 ^ 16 + b3.toNat * 2 ^ 24) (2 ^ 32) =
      leInt [b1, b2, b3] * 2 ^ 8 := by
  have h1 := b1.toNat_lt
  have h2 := b2.toNat_lt
  have h3 := b3.toNat_lt
  rw [leInt, leNat_three, Int.bmod_def, Int.bmod_def]
  simp only [List.length_cons, List.length_nil]
  split_ifs <;> omega

/-- A captured sample is its code over the full scale. -/
theorem capt_eq (hp : f.scaleBits = some p) (hlen : bytes.length = f.width) :
    f.capt bytes = floatOfRat (f.code bytes / (2 ^ p - 1)) := by
  have hquot16 : ∀ {b : List UInt8}, b.length = 2 →
      quotient (leInt b) 0x7fff = floatOfRat (leInt b / (2 ^ 15 - 1)) := by
    intro b hb
    have hrange := abs_leInt_le hb
    have h := quotient_eq (m := leInt b) (k := 0x7fff) (abs_lt.mpr (by omega)) (by norm_num) 0
    rw [pow_zero, mul_one, mul_one] at h
    rw [h]
    norm_num
  have hquot24 : ∀ {b : List UInt8} (j : Nat), b.length = 3 →
      quotient (leInt b * 2 ^ j) (0x007fffff * 2 ^ j) = floatOfRat (leInt b / (2 ^ 23 - 1)) := by
    intro b j hb
    have hrange := abs_leInt_le hb
    have h := quotient_eq (m := leInt b) (k := 0x007fffff) (abs_lt.mpr (by omega)) (by norm_num) j
    rw [h]
    norm_num
  have hscale : (0x007fffff : Int) * 2 ^ 8 = 0x7fffff00 := by norm_num
  cases f with
  | floatLE => cases hp
  | floatBE => cases hp
  | s32LE =>
    cases hp
    obtain ⟨b0, b1, b2, b3, rfl⟩ := List.length_eq_four.mp hlen
    refine Eq.trans ?_ (hquot24 (b := [b1, b2, b3]) 8 rfl)
    rw [hscale, ← bmod_shifted]
    simp only [PcmFormat.capt, capt32le, List.getD_cons_zero, List.getD_cons_succ]
  | s32BE =>
    cases hp
    obtain ⟨b0, b1, b2, b3, rfl⟩ := List.length_eq_four.mp hlen
    refine Eq.trans ?_ (hquot24 (b := [b2, b1, b0]) 8 rfl)
    have hsum : ((b2.toNat : Int) * 2 ^ 8 + b1.toNat * 2 ^ 16 + b0.toNat * 2 ^ 24) =
        b0.toNat * 2 ^ 24 + b1.toNat * 2 ^ 16 + b2.toNat * 2 ^ 8 := by ring
    rw [hscale, ← bmod_shifted, hsum]
    simp only [PcmFormat.capt, capt32be, List.getD_cons_zero, List.getD_cons_succ]
  | s24LE =>
    cases hp
    obtain ⟨b0, b1, b2, rfl⟩ := List.length_eq_three.mp hlen
    refine Eq.trans ?_ (hquot24 (b := [b0, b1, b2]) 0 rfl)
    rw [pow_zero, mul_one, mul_one, ← signed24_eq]
    rfl
  | s24BE =>
    cases hp
    obtain ⟨b0, b1, b2, rfl⟩ := List.length_eq_three.mp hlen
    refine Eq.trans ?_ (hquot24 (b := [b2, b1, b0]) 0 rfl)
    have hsum : b2.toNat + b1.toNat * 2 ^ 8 + b0.toNat * 2 ^ 16 =
        b0.toNat * 2 ^ 16 + b1.toNat * 2 ^ 8 + b2.toNat := by ring
    rw [pow_zero, mul_one, mul_one, ← signed24_eq, hsum]
    rfl
  | s16LE =>
    cases hp
    obtain ⟨b0, b1, rfl⟩ := List.length_eq_two.mp hlen
    refine Eq.trans ?_ (hquot16 (b := [b0, b1]) rfl)
    rw [← bmod_two]
    rfl
  | s16BE =>
    cases hp
    obtain ⟨b0, b1, rfl⟩ := List.length_eq_two.mp hlen
    refine Eq.trans ?_ (hquot16 (b := [b1, b0]) rfl)
    rw [← bmod_two, add_comm]
    rfl

/-- The code comes back, but the one below the full scale becomes the lowest that is clipped. -/
theorem level_floatOfRat {c : Int} (hp : 13 ≤ p) (hp' : p ≤ 23) (hc : -2 ^ p ≤ c ∧ c < 2 ^ p) :
    level p (floatOfRat (c / (2 ^ p - 1))) = max (-(2 ^ p - 1)) c := by
  have hscale : (0 : Rat) < 2 ^ p - 1 := lt_of_lt_of_le (by norm_num) (full_scale_pos hp)
  have hpow : (2 : Rat) ^ p ≤ 2 ^ 23 := pow_le_pow_right₀ (by norm_num) hp'
  have hlow : (-2 ^ p : Rat) ≤ c := by exact_mod_cast hc.1
  have hhigh : (c : Rat) + 1 ≤ 2 ^ p := by exact_mod_cast hc.2
  have hsmall : |(c : Rat) / (2 ^ p - 1)| < 2 := by
    rw [abs_div, abs_of_pos hscale, div_lt_iff₀ hscale, abs_lt]
    have h13 := full_scale_pos hp
    constructor <;> linarith
  have hvalue := floatValue_floatOfRat (hsmall.trans (by norm_num))
  rw [level, hvalue]
  rcases hc.1.lt_or_eq with hlt | heq
  · have habs : |c| < 2 ^ p := abs_lt.mpr ⟨hlt, hc.2⟩
    have hlow' : (-(2 ^ p - 1) : Rat) ≤ c := by
      have h : -(2 ^ p - 1) ≤ c := by omega
      exact_mod_cast h
    have hge := le_roundSingle (x := (c : Rat) / (2 ^ p - 1)) (z := -1) (by norm_num) (by
      rw [le_div_iff₀ hscale]
      push_cast
      linarith)
    have hle := roundSingle_le (x := (c : Rat) / (2 ^ p - 1)) (z := 1) (by norm_num) (by
      rw [div_le_iff₀ hscale]
      push_cast
      linarith)
    push_cast at hge hle
    rw [if_neg (not_lt.mpr hle), if_neg (not_lt.mpr hge), truncate_product_quotient_int hp hp' habs,
      max_eq_right (by omega)]
  · have hbeyond : 1 < roundSingle (-((c : Rat) / (2 ^ p - 1))) := by
      have hcast : (c : Rat) = -2 ^ p := by exact_mod_cast heq.symm
      apply one_lt_roundSingle
      rw [hcast, neg_div, neg_neg, le_div_iff₀ hscale]
      linarith
    rw [roundSingle_neg] at hbeyond
    rw [if_neg (by linarith), if_pos (by linarith), max_eq_left (by omega)]

/-- The captured float is one step of the format and half a step of a float away at most. -/
theorem abs_returned_sub_le (hp : 13 ≤ p) (hp' : p ≤ 23) (s : CFloat) :
    |floatValue (floatOfRat (level p s / (2 ^ p - 1))) - max (-1) (min 1 (floatValue s))| ≤
      1 / (2 ^ p - 1) + 1 / 2 ^ 24 := by
  have hscale : (0 : Rat) < 2 ^ p - 1 := lt_of_lt_of_le (by norm_num) (full_scale_pos hp)
  have hlevel : |(level p s : Rat)| ≤ 2 ^ p - 1 := by exact_mod_cast abs_level_le hp' s
  have hone : |(level p s : Rat) / (2 ^ p - 1)| ≤ 1 := by
    rwa [abs_div, abs_of_pos hscale, div_le_one hscale]
  have herror := roundSingle_error ((level p s : Rat) / (2 ^ p - 1))
  have hsmall : max (|(level p s : Rat) / (2 ^ p - 1)| / 2 ^ 24) (2 ^ (-150 : Int)) ≤
      1 / 2 ^ 24 :=
    max_le (div_le_div_of_nonneg_right hone (by norm_num)) (by norm_num)
  have hstep : |(level p s : Rat) / (2 ^ p - 1) - max (-1) (min 1 (floatValue s))| ≤
      1 / (2 ^ p - 1) := by
    have hlt := abs_level_sub_lt hp' s
    have heq : (level p s : Rat) / (2 ^ p - 1) - max (-1) (min 1 (floatValue s)) =
        (level p s - (2 ^ p - 1) * max (-1) (min 1 (floatValue s))) / (2 ^ p - 1) := by
      rw [sub_div, mul_div_cancel_left₀ _ hscale.ne']
    rw [heq, abs_div, abs_of_pos hscale]
    exact div_le_div_of_nonneg_right hlt.le hscale.le
  rw [floatValue_floatOfRat (hone.trans_lt (by norm_num))]
  calc _ ≤ _ := abs_sub_le _ ((level p s : Rat) / (2 ^ p - 1)) _
    _ ≤ 1 / 2 ^ 24 + 1 / (2 ^ p - 1) := add_le_add (herror.trans hsmall) hstep
    _ = _ := add_comm _ _

namespace PcmFormat

theorem scaleBits_cases (hp : f.scaleBits = some p) :
    13 ≤ p ∧ p ≤ 23 ∧ 8 * (f.width - f.padding) = p + 1 := by
  cases f <;> cases hp <;> decide

theorem length_lowFirst (f : PcmFormat) (bytes : List UInt8) :
    (f.lowFirst bytes).length = bytes.length := by
  cases f <;> simp [lowFirst]

@[simp] theorem lowFirst_lowFirst (f : PcmFormat) (bytes : List UInt8) :
    f.lowFirst (f.lowFirst bytes) = bytes := by
  cases f <;> simp [lowFirst]

theorem length_encode (f : PcmFormat) (d : Int) : (f.encode d).length = f.width := by
  rw [encode, length_lowFirst, List.length_append, List.length_replicate, bytesOfInt,
    length_leBytes]
  cases f <;> decide

theorem code_range (hp : f.scaleBits = some p) (hlen : bytes.length = f.width) :
    -2 ^ p ≤ f.code bytes ∧ f.code bytes < 2 ^ p := by
  obtain ⟨h13, -, hbits⟩ := scaleBits_cases hp
  have hdrop : ((f.lowFirst bytes).drop f.padding).length = (p + 1) / 8 - 1 + 1 := by
    rw [List.length_drop, length_lowFirst, hlen]
    omega
  have hexp : 8 * ((p + 1) / 8 - 1) + 7 = p := by omega
  have hrange := abs_leInt_le hdrop
  rwa [hexp] at hrange

theorem code_encode (hp : f.scaleBits = some p) (hd : |d| ≤ 2 ^ p - 1) :
    f.code (f.encode d) = d := by
  obtain ⟨h13, -, hbits⟩ := scaleBits_cases hp
  have hrange := abs_le.mp hd
  have hexp : 8 * (0 + (f.width - f.padding)) - 1 = p := by omega
  have hcode := leInt_drop_bytesOfInt (j := 0) (k := f.width - f.padding) (n := d) (by omega)
    (by rw [hexp]; omega)
  rw [List.drop_zero, Nat.zero_add, Nat.pow_zero, Nat.cast_one, Int.ediv_one] at hcode
  rw [code, encode, lowFirst_lowFirst, List.drop_left' (List.length_replicate), hcode]

/-- What comes back of a float that was played and is captured. -/
def Returns (f : PcmFormat) (s r : CFloat) : Prop :=
  match f.scaleBits with
  | none => r = s
  | some p => |floatValue r - max (-1) (min 1 (floatValue s))| ≤ 1 / (2 ^ p - 1) + 1 / 2 ^ 24

/-- What a sample becomes that was captured and is played. -/
def restored (f : PcmFormat) (bytes : List UInt8) : List UInt8 :=
  match f.scaleBits with
  | none => bytes
  | some p => f.encode (max (-(2 ^ p - 1)) (f.code bytes))

theorem length_restored (hlen : bytes.length = f.width) :
    (f.restored bytes).length = f.width := by
  rw [restored]
  split
  · exact hlen
  · exact length_encode f _

/-- The samples that have a place below the code, or the one code that is out of scale, differ. -/
theorem restored_eq_iff (hlen : bytes.length = f.width) :
    f.restored bytes = bytes ↔ ∀ p, f.scaleBits = some p →
      f.code bytes ≠ -2 ^ p ∧ (f.lowFirst bytes).take f.padding = List.replicate f.padding 0 := by
  rcases hp : f.scaleBits with _ | p
  · rw [restored, hp]
    simp
  · obtain ⟨h13, -, hbits⟩ := scaleBits_cases hp
    have hrange := code_range hp hlen
    have hd : |max (-(2 ^ p - 1)) (f.code bytes)| ≤ 2 ^ p - 1 := by
      rw [abs_le]
      exact ⟨le_max_left _ _, max_le (by linarith [full_scale_nonneg p]) (by omega)⟩
    simp only [restored, hp, Option.some.injEq, forall_eq']
    constructor
    · intro h
      have hcode := code_encode hp hd
      rw [h] at hcode
      refine ⟨?_, ?_⟩
      · rw [hcode]
        have hge := le_max_left (-(2 ^ p - 1)) (f.code bytes)
        omega
      · rw [← h, encode, lowFirst_lowFirst, List.take_left' List.length_replicate]
    · rintro ⟨hne, hpad⟩
      have hdrop : ((f.lowFirst bytes).drop f.padding).length = f.width - f.padding := by
        rw [List.length_drop, length_lowFirst, hlen]
      have hback : bytesOfInt (f.width - f.padding) (f.code bytes) =
          (f.lowFirst bytes).drop f.padding := by
        rw [bytesOfInt, code, ← hdrop, leInt_emod, Int.toNat_natCast, leBytes_leNat]
      rw [max_eq_right (by omega), encode, hback, ← hpad, List.take_append_drop,
        lowFirst_lowFirst]

/-- Only a float format takes a NaN. -/
def Playable (f : PcmFormat) (s : CFloat) : Prop := f.scaleBits ≠ none → ¬IsNaN s

/-- A sample that is played is captured as it was, or to the nearest steps. -/
theorem exists_play (hs : f.Playable s) : ∃ bytes, f.play s = some bytes ∧
    bytes.length = f.width ∧ f.Returns s (f.capt bytes) := by
  rcases hp : f.scaleBits with _ | p
  · have hfloat : floatOfBytes (floatBytes s) = s := ofNat_leNat_leBytes s
    have hlength : (floatBytes s).length = 4 := length_leBytes 4 _
    cases f with
    | floatLE => exact ⟨floatBytes s, rfl, hlength, hfloat⟩
    | floatBE =>
      refine ⟨(floatBytes s).reverse, rfl, List.length_reverse.trans hlength, ?_⟩
      change floatOfBytes (floatBytes s).reverse.reverse = s
      rw [List.reverse_reverse, hfloat]
    | _ => cases hp
  · obtain ⟨h13, h23, -⟩ := scaleBits_cases hp
    have hlen := f.length_encode (level p s)
    have hlevel := abs_level_le h23 s
    have hplay := play_eq hp (hs (Option.ne_none_iff_exists'.mpr ⟨p, hp⟩))
    refine ⟨f.encode (level p s), hplay, hlen, ?_⟩
    rw [Returns, hp, capt_eq hp hlen, code_encode hp hlevel]
    exact abs_returned_sub_le h13 h23 s

theorem play_capt (hlen : bytes.length = f.width) :
    f.play (f.capt bytes) = some (f.restored bytes) := by
  rcases hp : f.scaleBits with _ | p
  · rw [restored, hp]
    cases f with
    | floatLE => exact congrArg some (leBytes_ofNat_leNat hlen)
    | floatBE =>
      have hback := leBytes_ofNat_leNat (List.length_reverse.trans hlen)
      change some (leBytes 4 (UInt32.ofNat (leNat bytes.reverse)).toNat).reverse = some bytes
      rw [hback, List.reverse_reverse]
    | _ => cases hp
  · obtain ⟨h13, h23, -⟩ := scaleBits_cases hp
    have hnan := not_isNaN_floatOfRat (f.code bytes / (2 ^ p - 1))
    rw [restored, hp, capt_eq hp hlen, play_eq hp hnan,
      level_floatOfRat h13 h23 (code_range hp hlen)]

end PcmFormat

end Vban.Pcmi
