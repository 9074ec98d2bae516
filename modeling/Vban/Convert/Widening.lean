import Vban.Convert.Integers
import Vban.Convert.RoundTrip

/-! Decoding an integer sample before and after it is widened. -/
namespace Vban.Convert

open Library

variable {formatA formatB : UInt8} {sizeA sizeB num j k : Nat} {source mid sample : List UInt8}
  {floats : List Rat} {n : Int}

/-- The floats are the same when the samples are widened first. -/
def DecodesThrough (formatA formatB : UInt8) (num : Nat) (source mid : List UInt8)
    (floats : List Rat) : Prop :=
  ∃ mid' out,
    vbanSampleConvert (.bytes mid) formatB (.bytes source) formatA num = some (0, .bytes mid') ∧
    vbanSampleConvert (.floats floats) vbanBitfmt32Float (.bytes mid') formatB num =
      some (0, .floats out) ∧
    vbanSampleConvert (.floats floats) vbanBitfmt32Float (.bytes source) formatA num =
      some (0, .floats out)

/-- The samples whose sign both decoders read alike. -/
def ReadAlike (formatA formatB : UInt8) (sample : List UInt8) : Prop :=
  if formatA = vbanBitfmt8Int then
    if formatB = vbanBitfmt32Int then leNat sample = 0 ∨ leNat sample = 128
    else leNat sample < 128
  else formatB = vbanBitfmt32Int → leNat sample = 0

instance (formatA formatB : UInt8) : DecidablePred (ReadAlike formatA formatB) := fun _ =>
  inferInstanceAs (Decidable (ite _ _ _))

theorem leNat_replicate_append :
    leNat (List.replicate k 0 ++ sample) = 256 ^ k * leNat sample := by
  induction k with
  | zero => simp
  | succ k ih =>
    rw [List.replicate_succ, List.cons_append, leNat, ih, Nat.pow_succ']
    simp [Nat.mul_assoc]

theorem leInt_alignSample (hs : sample.length = sizeA) (hpos : 0 < sizeA) (hle : sizeA ≤ sizeB) :
    leInt (alignSample sizeB sample) = (256 ^ (sizeB - sizeA) : Nat) * leInt sample := by
  have hpow : 0 < 256 ^ (sizeB - sizeA) := Nat.pow_pos (by decide)
  have heven : 2 ∣ 256 ^ sizeA := dvd_pow (by decide) hpos.ne'
  have hmod : 256 ^ sizeB = 256 ^ (sizeB - sizeA) * 256 ^ sizeA := by
    rw [← Nat.pow_add, Nat.sub_add_cancel hle]
  rw [leInt, length_alignSample, alignSample, hs, Nat.sub_eq_zero_of_le hle, List.drop_zero,
    leNat_replicate_append, hmod, Nat.cast_mul, Int.mod_bmod_mul_of_pos _ _ hpow heven, leInt, hs]

theorem floatOfInt_of_dvd (h : (2 : Int) ^ (n.natAbs.log2 - 23) ∣ n) : floatOfInt n = n := by
  have hpos : (0 : Int) < 2 ^ (n.natAbs.log2 - 23) := Int.pow_pos (by decide)
  have hzero : 2 * (n % 2 ^ (n.natAbs.log2 - 23)) < 2 ^ (n.natAbs.log2 - 23) := by
    rwa [Int.emod_eq_zero_of_dvd h]
  rw [floatOfInt, if_pos (Or.inl hzero), Int.ediv_mul_cancel h]

/-- A number of 24 significant bits is a `float`. -/
theorem floatOfInt_two_pow_mul (h : n.natAbs < 2 ^ 24) :
    floatOfInt ((2 ^ j : Nat) * n) = (2 ^ j : Nat) * n := by
  by_cases hzero : n = 0
  · subst hzero
    simp [floatOfInt]
  · have hne : 2 ^ j * n.natAbs ≠ 0 :=
      Nat.mul_ne_zero (Nat.pow_pos (by decide)).ne' (Int.natAbs_ne_zero.mpr hzero)
    have habs : ((2 ^ j : Nat) * n).natAbs = 2 ^ j * n.natAbs := by
      rw [Int.natAbs_mul, Int.natAbs_natCast]
    have hlog : (2 ^ j * n.natAbs).log2 < j + 24 := by
      rw [Nat.log2_lt hne, Nat.pow_add]
      exact Nat.mul_lt_mul_of_pos_left h (Nat.pow_pos (by decide))
    have hpow : (2 : Int) ^ ((2 ^ j * n.natAbs).log2 - 23) ∣ ((2 ^ j : Nat) : Int) := by
      rw [Nat.cast_pow]
      exact pow_dvd_pow 2 (by omega)
    apply floatOfInt_of_dvd
    rw [habs]
    exact Dvd.dvd.mul_right hpow n

/-- A sample that can be widened is a `float` without rounding. -/
theorem natAbs_leInt_lt (hpos : 0 < sizeA) (hsize : sizeA < 4) (hs : sample.length = sizeA) :
    (leInt sample).natAbs < 2 ^ 24 := by
  have hbytes := leNat_lt sample
  have hcases : sizeA = 1 ∨ sizeA = 2 ∨ sizeA = 3 := by omega
  rw [leInt, Int.bmod_def]
  rcases hcases with rfl | rfl | rfl
  · rw [hs] at hbytes ⊢
    split <;> omega
  · rw [hs] at hbytes ⊢
    split <;> omega
  · rw [hs] at hbytes ⊢
    split <;> omega

/-- A widened sample keeps its level; 32 bits turn its sign. -/
theorem decodeSample_alignSample (ha : IntegerFormat formatA sizeA)
    (hb : IntegerFormat formatB sizeB) (hlt : sizeA < sizeB) (hs : sample.length = sizeA) :
    decodeSample formatB (alignSample sizeB sample) =
      (if formatB = vbanBitfmt32Int then -leInt sample else leInt sample : Int) /
        2 ^ (8 * sizeA - 1) := by
  have hpos := ha.bounds.1
  have hsize : sizeA < 4 := lt_of_lt_of_le hlt hb.bounds.2
  have hshift : 256 ^ (sizeB - sizeA) = 2 ^ (8 * (sizeB - sizeA)) := by
    rw [Nat.pow_mul]
  have hscale : (2 : Rat) ^ (8 * sizeB - 1) =
      (2 ^ (8 * (sizeB - sizeA)) : Nat) * 2 ^ (8 * sizeA - 1) := by
    rw [Nat.cast_pow, Nat.cast_ofNat, ← pow_add]
    congr 1
    omega
  have hvalue := leInt_alignSample hs hpos hlt.le
  have hne : ((2 ^ (8 * (sizeB - sizeA)) : Nat) : Rat) ≠ 0 :=
    Nat.cast_ne_zero.mpr (Nat.pow_pos (by decide)).ne'
  have hwide : WideFormat formatB sizeB ∨ formatB = vbanBitfmt32Int ∧ sizeB = 4 := by
    rcases hb.cases with ⟨-, rfl⟩ | h | h | h
    · omega
    · exact Or.inl (Or.inl h)
    · exact Or.inl (Or.inr h)
    · exact Or.inr h
  rw [hshift] at hvalue
  rcases hwide with hwide | ⟨rfl, rfl⟩
  · have hne32 : formatB ≠ vbanBitfmt32Int := by
      rcases hwide with ⟨rfl, -⟩ | ⟨rfl, -⟩ <;> decide
    rw [decodeSample_eq hwide length_alignSample, hvalue, if_neg hne32, hscale, Int.cast_mul,
      Int.cast_natCast, mul_div_mul_left _ _ hne]
  · have hdivisor : (floatOfInt (intShift 31) : Rat) = -2 ^ (8 * 4 - 1) := by
      have hint : floatOfInt (intShift 31) = -2 ^ 31 := by decide
      rw [hint]
      norm_num
    rw [decodeSample, if_neg (by decide), if_neg (by decide), if_neg (by decide), hvalue,
      floatOfInt_two_pow_mul (natAbs_leInt_lt hpos hsize hs), hdivisor, hscale, if_pos rfl,
      Int.cast_mul, Int.cast_natCast, div_neg, mul_div_mul_left _ _ hne, Int.cast_neg, neg_div]

theorem decodeSample_narrow (ha : IntegerFormat formatA sizeA) (hsize : sizeA < 4)
    (hs : sample.length = sizeA) :
    decodeSample formatA sample =
      (if formatA = vbanBitfmt8Int then (leNat sample : Int) else leInt sample : Int) /
        2 ^ (8 * sizeA - 1) := by
  rcases ha.cases with ⟨rfl, rfl⟩ | h | h | ⟨-, rfl⟩
  · have hint : floatOfInt (intShift 7) = 2 ^ 7 := by decide
    rw [decodeSample, if_pos rfl, if_pos rfl, hint]
    norm_num
  · have hne : formatA ≠ vbanBitfmt8Int := by
      rw [h.1]
      decide
    rw [decodeSample_eq (Or.inl h) hs, if_neg hne]
  · have hne : formatA ≠ vbanBitfmt8Int := by
      rw [h.1]
      decide
    rw [decodeSample_eq (Or.inr h) hs, if_neg hne]
  · omega

theorem leInt_eq_iff_byte (hs : sample.length = 1) :
    (leInt sample = leNat sample ↔ leNat sample < 128) ∧
      (-leInt sample = leNat sample ↔ leNat sample = 0 ∨ leNat sample = 128) := by
  have hbytes := leNat_lt sample
  rw [leInt, Int.bmod_def, hs] at *
  split <;> omega

theorem leInt_eq_zero_iff : leInt sample = 0 ↔ leNat sample = 0 := by
  constructor
  · intro h
    have hmod := leInt_emod sample
    rw [h, Int.zero_emod] at hmod
    exact Int.natCast_eq_zero.mp hmod.symm
  · intro h
    rw [leInt, h, Int.natCast_zero, Int.zero_bmod]

theorem decodeSample_agree_iff (ha : IntegerFormat formatA sizeA)
    (hb : IntegerFormat formatB sizeB) (hlt : sizeA < sizeB) (hs : sample.length = sizeA) :
    decodeSample formatB (alignSample sizeB sample) = decodeSample formatA sample ↔
      ReadAlike formatA formatB sample := by
  have hsize : sizeA < 4 := lt_of_lt_of_le hlt hb.bounds.2
  have hne : (2 : Rat) ^ (8 * sizeA - 1) ≠ 0 := pow_ne_zero _ (by decide)
  rw [decodeSample_alignSample ha hb hlt hs, decodeSample_narrow ha hsize hs, div_left_inj' hne,
    Int.cast_inj, ReadAlike]
  by_cases hbyte : formatA = vbanBitfmt8Int
  · subst hbyte
    obtain rfl : 1 = sizeA := Option.some.inj ha.2
    obtain ⟨hunsigned, hnegated⟩ := leInt_eq_iff_byte hs
    rw [if_pos rfl, if_pos rfl]
    split_ifs
    · exact hnegated
    · exact hunsigned
  · rw [if_neg hbyte, if_neg hbyte, ← leInt_eq_zero_iff]
    by_cases h32 : formatB = vbanBitfmt32Int
    · rw [if_pos h32, neg_eq_self]
      exact ⟨fun h _ => h, fun h => h h32⟩
    · rw [if_neg h32]
      exact ⟨fun _ h => absurd h h32, fun _ => rfl⟩

theorem convert_to_float_eq (ha : IntegerFormat formatA sizeA)
    (hsource : num * sizeA ≤ source.length) (hfloats : num ≤ floats.length) :
    vbanSampleConvert (.floats floats) vbanBitfmt32Float (.bytes source) formatA num =
      some (0, .floats ((chunks sizeA num source).map (decodeSample formatA) ++
        floats.drop num)) := by
  have hload : load source (num * sizeA) = some (source.take (num * sizeA)) := by
    rw [load, if_pos hsource]
  have hlength : ((chunks sizeA num source).map (decodeSample formatA)).length = num := by
    rw [List.length_map, length_chunks]
  have hstore : store floats ((chunks sizeA num source).map (decodeSample formatA)) =
      some ((chunks sizeA num source).map (decodeSample formatA) ++ floats.drop num) := by
    rw [store, hlength, if_pos hfloats, overwrite_zero, hlength]
  rw [vbanSampleConvert_to_float ha.1 ha.2]
  simp [hload, chunks_take, hstore]

/-- Widening goes unheard on the samples that both decoders read alike, and on no other. -/
theorem decodesThrough_iff (ha : IntegerFormat formatA sizeA) (hb : IntegerFormat formatB sizeB)
    (hlt : sizeA < sizeB) (hsource : num * sizeA ≤ source.length)
    (hmid : num * sizeB ≤ mid.length) (hfloats : num ≤ floats.length) :
    DecodesThrough formatA formatB num source mid floats ↔
      ∀ sample ∈ chunks sizeA num source, ReadAlike formatA formatB sample := by
  have hwiden : vbanSampleConvert (.bytes mid) formatB (.bytes source) formatA num =
      some (0, .bytes (alignedSamples sizeB sizeA num source ++ mid.drop (num * sizeB))) := by
    rw [vbanSampleConvert_integers ha hb hsource hmid, convertIntegers_eq ha hb hsource hmid]
    rfl
  have hwide : num * sizeB ≤
      (alignedSamples sizeB sizeA num source ++ mid.drop (num * sizeB)).length := by
    rw [List.length_append, length_alignedSamples]
    exact Nat.le_add_right _ _
  have hdirect := convert_to_float_eq ha hsource hfloats
  have hthrough := convert_to_float_eq hb hwide hfloats
  rw [chunks_alignedSamples, List.map_map] at hthrough
  have hagree : DecodesThrough formatA formatB num source mid floats ↔
      (chunks sizeA num source).map (decodeSample formatB ∘ alignSample sizeB) =
        (chunks sizeA num source).map (decodeSample formatA) := by
    constructor
    · rintro ⟨mid', out, hmid', hout, hout'⟩
      rw [hwiden] at hmid'
      obtain rfl : _ = mid' := by simpa using hmid'
      rw [hthrough] at hout
      rw [hdirect, ← hout] at hout'
      simpa using hout'.symm
    · intro h
      rw [h] at hthrough
      exact ⟨_, _, hwiden, hthrough, hdirect⟩
  rw [hagree, List.map_inj_left]
  apply forall₂_congr
  intro sample hs
  exact decodeSample_agree_iff ha hb hlt (length_of_mem_chunks hsource hs)

theorem decodesThrough_16_24 :
    DecodesThrough vbanBitfmt16Int vbanBitfmt24Int 2 [0, 0x80, 1, 0] [0, 0, 0, 0, 0, 0] [0, 0] := by
  have ha : IntegerFormat vbanBitfmt16Int 2 := ⟨by decide, rfl⟩
  have hb : IntegerFormat vbanBitfmt24Int 3 := ⟨by decide, rfl⟩
  apply (decodesThrough_iff ha hb _ _ _ _).mpr
  all_goals decide

/-- The sample 1 in 16 bits is heard negated in 32. -/
theorem widening_heard :
    IntegerFormat vbanBitfmt16Int 2 ∧ IntegerFormat vbanBitfmt32Int 4 ∧
      vbanSampleConvert (.floats [0]) vbanBitfmt32Float (.bytes [1, 0]) vbanBitfmt16Int 1 =
        some (0, .floats [1 / 2 ^ 15]) ∧
      vbanSampleConvert (.bytes [0, 0, 0, 0]) vbanBitfmt32Int (.bytes [1, 0]) vbanBitfmt16Int 1 =
        some (0, .bytes [0, 0, 1, 0]) ∧
      vbanSampleConvert (.floats [0]) vbanBitfmt32Float (.bytes [0, 0, 1, 0])
        vbanBitfmt32Int 1 = some (0, .floats [-1 / 2 ^ 15]) ∧
      ¬DecodesThrough vbanBitfmt16Int vbanBitfmt32Int 1 [1, 0] [0, 0, 0, 0] [0] := by
  have hdirect : vbanSampleConvert (.floats [0]) vbanBitfmt32Float (.bytes [1, 0])
      vbanBitfmt16Int 1 = some (0, .floats [1 / 2 ^ 15]) := by decide +kernel
  have hwiden : vbanSampleConvert (.bytes [0, 0, 0, 0]) vbanBitfmt32Int (.bytes [1, 0])
      vbanBitfmt16Int 1 = some (0, .bytes [0, 0, 1, 0]) := by decide +kernel
  have hthrough : vbanSampleConvert (.floats [0]) vbanBitfmt32Float (.bytes [0, 0, 1, 0])
      vbanBitfmt32Int 1 = some (0, .floats [-1 / 2 ^ 15]) := by decide +kernel
  refine ⟨⟨by decide, rfl⟩, ⟨by decide, rfl⟩, hdirect, hwiden, hthrough, ?_⟩
  rintro ⟨mid', out, hmid', hout, hout'⟩
  rw [hwiden] at hmid'
  obtain rfl : [0, 0, 1, 0] = mid' := by simpa using hmid'
  rw [hthrough] at hout
  rw [hdirect, ← hout] at hout'
  revert hout'
  decide +kernel

end Vban.Convert
