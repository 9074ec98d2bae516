import Vban.Convert.Integers
import Vban.Convert.RoundTrip
import Vban.Library.Outcome

/-! Range and order of the integer samples of floats. -/
namespace Vban.Convert

open Library

variable {formatBit : UInt8} {size num j k : Nat} {mem bytes : List UInt8} {floats : List Rat}
  {s t x y : Rat} {m n : Int}

/-- `t` is rounded to `n` or more. -/
def RoundsTo (n : Int) (t : Rat) : Prop :=
  if 0 < n then (n : Rat) - 1 / 2 ≤ t else (n : Rat) - 1 / 2 < t

/-- Full scale and what is beyond it get the outermost codes. -/
def Saturates (size : Nat) (x : Rat) (code : Int) : Prop :=
  (1 ≤ x → code = 2 ^ (8 * size - 1) - 1) ∧ (x ≤ -1 → code = -2 ^ (8 * size - 1))

/-- All casts are in range, the codes saturate, and they are in the order of the samples. -/
def Clamps (formatBit : UInt8) (size num : Nat) (floats : List Rat) (mem : List UInt8) : Prop :=
  ∃ mem', vbanSampleConvert (.bytes mem) formatBit (.floats floats) vbanBitfmt32Float num =
      some (0, .bytes mem') ∧
    (∀ p ∈ (floats.take num).zip ((chunks size num mem').map leInt), Saturates size p.1 p.2) ∧
    ∀ p ∈ (floats.take num).zip ((chunks size num mem').map leInt),
      ∀ q ∈ (floats.take num).zip ((chunks size num mem').map leInt), p.1 ≤ q.1 → p.2 ≤ q.2

/-- No rounding boundary between kept codes lies between two samples. -/
def SameStep (size : Nat) (x y : Rat) : Prop :=
  ∀ code : Int, RoundsTo (code * (256 ^ (4 - size) : Nat)) (-2 ^ 31 * x) →
    RoundsTo (code * (256 ^ (4 - size) : Nat)) (-2 ^ 31 * y)

/-- The samples that the encoder takes in order: for 8 bits all that fit, for more bits those
that no code tells apart. -/
def InScale (formatBit : UInt8) (size : Nat) (x y : Rat) : Prop :=
  if formatBit = vbanBitfmt8Int then -257 / 256 < x ∧ y < 255 / 256
  else -1 + 1 / 2 ^ 32 < x ∧ y < 1 ∧ SameStep size x y

theorem le_roundf_iff : n ≤ roundf t ↔ RoundsTo n t := by
  rw [roundf, RoundsTo]
  by_cases ht : 0 ≤ t
  · rw [if_pos ht, Int.le_floor, ← sub_le_iff_le_add]
    split_ifs with hn
    · rfl
    · have hle : (n : Rat) ≤ 0 := Int.cast_nonpos.mpr (by omega)
      constructor
      · intro
        linarith
      · intro
        linarith
  · rw [if_neg ht, ← Int.sub_one_lt_iff, Int.lt_ceil, Int.cast_sub, Int.cast_one]
    split_ifs with hn
    · have hle : (1 : Rat) ≤ n := by exact_mod_cast hn
      constructor
      · intro
        linarith
      · intro
        linarith
    · constructor
      · intro
        linarith
      · intro
        linarith

theorem roundf_mono (h : s ≤ t) : roundf s ≤ roundf t := by
  rw [le_roundf_iff]
  have hs := le_roundf_iff.mp (le_refl (roundf s))
  unfold RoundsTo at hs ⊢
  split_ifs at hs ⊢ with hpos
  · exact hs.trans h
  · exact hs.trans_le h

theorem castInt_eq_some_iff {bits : Nat} :
    castInt bits n = some m ↔ n = m ∧ -2 ^ (bits - 1) ≤ n ∧ n < 2 ^ (bits - 1) := by
  rw [castInt]
  split_ifs with h
  · simp [h]
  · simp [h]

theorem ediv_range {half : Int} {scale : Nat} (hscale : 0 < scale)
    (hn : -(scale * half) ≤ n ∧ n < scale * half) : -half ≤ n / scale ∧ n / scale < half := by
  have hpos : (0 : Int) < scale := Int.natCast_pos.mpr hscale
  constructor
  · rw [Int.le_ediv_iff_mul_le hpos, Int.neg_mul, Int.mul_comm]
    exact hn.1
  · rw [Int.ediv_lt_iff_lt_mul hpos, Int.mul_comm]
    exact hn.2

/-- The upper bytes of a number are its quotient. -/
theorem leInt_drop_bytesOfInt (hk : 0 < k)
    (hn : -2 ^ (8 * (j + k) - 1) ≤ n ∧ n < 2 ^ (8 * (j + k) - 1)) :
    leInt ((bytesOfInt (j + k) n).drop j) = n / (256 ^ j : Nat) := by
  have hj : 0 < 256 ^ j := Nat.pow_pos (by decide)
  have hpow : (256 : Nat) ^ (j + k) = 256 ^ j * 256 ^ k := Nat.pow_add _ _ _
  have hhalf : (2 : Int) ^ (8 * (j + k) - 1) = (256 ^ j : Nat) * 2 ^ (8 * k - 1) := by
    rw [Nat.cast_pow, Nat.cast_ofNat, show (256 : Int) = 2 ^ 8 by rfl, ← pow_mul, ← pow_add]
    congr 1
    omega
  have hfull : ((256 ^ k : Nat) : Int) = 2 ^ (8 * k - 1) * 2 := by
    rw [← pow_succ, Nat.cast_pow, Nat.cast_ofNat, show (256 : Int) = 2 ^ 8 by rfl, ← pow_mul]
    congr 1
    omega
  have hmod : 0 ≤ n % ((256 ^ (j + k) : Nat) : Int) :=
    Int.emod_nonneg _ (Int.natCast_ne_zero.mpr (Nat.pow_pos (by decide)).ne')
  have hlt : n % ((256 ^ (j + k) : Nat) : Int) < ((256 ^ (j + k) : Nat) : Int) :=
    Int.emod_lt_of_pos _ (Int.natCast_pos.mpr (Nat.pow_pos (by decide)))
  obtain ⟨m, hm⟩ := Int.eq_ofNat_of_zero_le hmod
  rw [hm] at hlt
  have hkept : m / 256 ^ j < 256 ^ k :=
    Nat.div_lt_of_lt_mul (hpow ▸ Int.ofNat_lt.mp hlt)
  have hquotient : ((m / 256 ^ j : Nat) : Int) =
      n / (256 ^ j : Nat) - (256 ^ k : Nat) * (n / ((256 ^ (j + k) : Nat) : Int)) := by
    rw [Int.natCast_ediv, ← hm, Int.emod_def, hpow, Nat.cast_mul, Int.mul_assoc,
      Int.sub_mul_ediv_left _ _ (Int.natCast_ne_zero.mpr hj.ne')]
  obtain ⟨hlow, hhigh⟩ := ediv_range hj (hhalf ▸ hn)
  rw [bytesOfInt, hm, Int.toNat_natCast, drop_leBytes, leInt, leNat_leBytes hkept, length_leBytes,
    hquotient, Int.sub_mul_bmod_self_left, Int.bmod_eq_of_le_mul_two]
  · omega
  · omega

/-- The code of a sample. -/
def sampleCode (formatBit : UInt8) (size : Nat) (x : Rat) : Option Int :=
  (encodeSample formatBit size x).map leInt

/-- A cast is in range within half a step of the integers it has. -/
theorem castInt_roundf (t : Rat) {bits : Nat} {half : Int} (hbits : 2 ^ (bits - 1) = half)
    (hhalf : 0 < half) :
    castInt bits (roundf t) =
      if -(half : Rat) - 1 / 2 < t ∧ t < half - 1 / 2 then some (roundf t) else none := by
  have hlow : -half ≤ roundf t ↔ -(half : Rat) - 1 / 2 < t := by
    rw [le_roundf_iff, RoundsTo, if_neg (by omega), Int.cast_neg]
  have hhigh : roundf t < half ↔ t < half - 1 / 2 := by
    rw [← not_le, le_roundf_iff, RoundsTo, if_pos hhalf, not_le]
  rw [castInt, hbits]
  simp only [hlow, hhigh]

theorem sampleCode_byte :
    sampleCode vbanBitfmt8Int 1 x =
      if -257 / 256 < x ∧ x < 255 / 256 then some (roundf (2 ^ 7 * x)) else none := by
  have hscale : (floatOfInt (intShift 7) : Rat) = 2 ^ 7 := by
    rw [show floatOfInt (intShift 7) = 2 ^ 7 by decide]
    norm_num
  have hrange : -((128 : Int) : Rat) - 1 / 2 < 2 ^ 7 * x ∧ 2 ^ 7 * x < ((128 : Int) : Rat) - 1 / 2 ↔
      -257 / 256 < x ∧ x < 255 / 256 := by
    constructor
    · rintro ⟨hlow, hhigh⟩
      constructor <;> linarith
    · rintro ⟨hlow, hhigh⟩
      constructor <;> linarith
  have hcast := castInt_roundf (2 ^ 7 * x) (show 2 ^ (8 - 1) = (128 : Int) by rfl) (by decide)
  rw [sampleCode, encodeSample, if_pos rfl, hscale, hcast, if_congr hrange rfl rfl]
  split_ifs with h
  · rw [if_pos (hrange.mpr h)] at hcast
    obtain ⟨-, hbounds⟩ := castInt_eq_some_iff.mp hcast
    have hcode := leInt_drop_bytesOfInt (j := 0) Nat.one_pos hbounds
    rw [List.drop_zero, Nat.pow_zero, Nat.cast_one, Int.ediv_one] at hcode
    rw [Option.map_some, Option.map_some]
    exact congrArg some hcode
  · rfl

theorem sampleCode_wide (hformat : IntegerFormat formatBit size)
    (hne : formatBit ≠ vbanBitfmt8Int) :
    sampleCode formatBit size x =
      if -1 + 1 / 2 ^ 32 < x ∧ x < 1 + 1 / 2 ^ 32 then
        some (roundf (-2 ^ 31 * x) / (256 ^ (4 - size) : Nat))
      else none := by
  have hscale : (floatOfInt (intShift 31) : Rat) = -2 ^ 31 := by
    rw [show floatOfInt (intShift 31) = -2 ^ 31 by decide]
    norm_num
  have hrange : -((2 ^ 31 : Int) : Rat) - 1 / 2 < -2 ^ 31 * x ∧
      -2 ^ 31 * x < ((2 ^ 31 : Int) : Rat) - 1 / 2 ↔
        -1 + 1 / 2 ^ 32 < x ∧ x < 1 + 1 / 2 ^ 32 := by
    push_cast
    constructor
    · rintro ⟨hlow, hhigh⟩
      constructor <;> linarith
    · rintro ⟨hlow, hhigh⟩
      constructor <;> linarith
  have hcast := castInt_roundf (-2 ^ 31 * x) (show 2 ^ (32 - 1) = (2 ^ 31 : Int) by rfl) (by decide)
  rw [sampleCode, encodeSample, if_neg hne, hscale, hcast, if_congr hrange rfl rfl]
  split_ifs with h
  · rw [if_pos (hrange.mpr h)] at hcast
    obtain ⟨-, hbounds⟩ := castInt_eq_some_iff.mp hcast
    obtain ⟨hpos, hle⟩ := hformat.bounds
    have hsize : 4 - size + size = 4 := Nat.sub_add_cancel hle
    have hcode := leInt_drop_bytesOfInt (j := 4 - size) (k := size) hpos (by rwa [hsize])
    rw [hsize] at hcode
    exact congrArg some hcode
  · rfl

/-- Two samples have codes, saturated and in their order. -/
def OrderedCodes (formatBit : UInt8) (size : Nat) (x y : Rat) : Prop :=
  ∃ m n, sampleCode formatBit size x = some m ∧ sampleCode formatBit size y = some n ∧ m ≤ n ∧
    Saturates size x m ∧ Saturates size y n

theorem saturates_byte (hlow : -257 / 256 < x) (hhigh : x < 255 / 256) :
    Saturates 1 x (roundf (2 ^ 7 * x)) := by
  constructor
  · intro h
    linarith
  · intro h
    have hge : (-128 : Int) ≤ roundf (2 ^ 7 * x) := by
      rw [le_roundf_iff, RoundsTo, if_neg (by decide)]
      push_cast
      linarith
    have hlt : ¬(-127 : Int) ≤ roundf (2 ^ 7 * x) := by
      rw [le_roundf_iff, RoundsTo, if_neg (by decide)]
      push_cast
      linarith
    change roundf (2 ^ 7 * x) = -128
    omega

theorem orderedCodes_byte (hxy : x ≤ y) :
    OrderedCodes vbanBitfmt8Int 1 x y ↔ -257 / 256 < x ∧ y < 255 / 256 := by
  constructor
  · rintro ⟨m, n, hm, hn, -⟩
    rw [sampleCode_byte] at hm hn
    split_ifs at hm hn with hx hy
    exact ⟨hx.1, hy.2⟩
  · rintro ⟨hx, hy⟩
    have hmono : roundf (2 ^ 7 * x) ≤ roundf (2 ^ 7 * y) := roundf_mono (by linarith)
    refine ⟨_, _, ?_, ?_, hmono, saturates_byte hx (by linarith), saturates_byte (by linarith) hy⟩
    · rw [sampleCode_byte, if_pos ⟨hx, hxy.trans_lt hy⟩]
    · rw [sampleCode_byte, if_pos ⟨hx.trans_le hxy, hy⟩]

/-- The wide encoder's factor turns the order of the samples. -/
theorem orderedCodes_wide (hformat : IntegerFormat formatBit size)
    (hne : formatBit ≠ vbanBitfmt8Int) (hxy : x ≤ y) :
    OrderedCodes formatBit size x y ↔ -1 + 1 / 2 ^ 32 < x ∧ y < 1 ∧ SameStep size x y := by
  have hpos : (0 : Int) < (256 ^ (4 - size) : Nat) :=
    Int.natCast_pos.mpr (Nat.pow_pos (by decide))
  constructor
  · rintro ⟨m, n, hm, hn, hmn, -, hsat, -⟩
    rw [sampleCode_wide hformat hne] at hm hn
    split_ifs at hm hn with hx hy
    obtain rfl := Option.some.inj hm
    obtain rfl := Option.some.inj hn
    refine ⟨hx.1, ?_, ?_⟩
    · by_contra hge
      have hneg : ¬(0 : Int) ≤ roundf (-2 ^ 31 * y) := by
        rw [le_roundf_iff, RoundsTo, if_neg (by decide)]
        push_cast
        linarith
      have hcode := hsat (not_lt.mp hge)
      have hquot := Int.ediv_neg_of_neg_of_pos (not_le.mp hneg) hpos
      have hmax : (0 : Int) < 2 ^ (8 * size - 1) := Int.pow_pos (by decide)
      omega
    · intro code hcode
      rw [← le_roundf_iff] at hcode ⊢
      rw [← Int.le_ediv_iff_mul_le hpos] at hcode ⊢
      exact hcode.trans hmn
  · rintro ⟨hx, hy, hstep⟩
    have hlt : (1 : Rat) < 1 + 1 / 2 ^ 32 := by norm_num
    have hle : roundf (-2 ^ 31 * x) / (256 ^ (4 - size) : Nat) ≤
        roundf (-2 ^ 31 * y) / (256 ^ (4 - size) : Nat) := by
      rw [Int.le_ediv_iff_mul_le hpos, le_roundf_iff]
      apply hstep
      rw [← le_roundf_iff, ← Int.le_ediv_iff_mul_le hpos]
    refine ⟨_, _, ?_, ?_, hle, ⟨?_, ?_⟩, ⟨?_, ?_⟩⟩
    · rw [sampleCode_wide hformat hne, if_pos ⟨hx, by linarith⟩]
    · rw [sampleCode_wide hformat hne, if_pos ⟨by linarith, by linarith⟩]
    all_goals
      intro
      linarith

theorem orderedCodes_iff (hformat : IntegerFormat formatBit size) (hxy : x ≤ y) :
    OrderedCodes formatBit size x y ↔ InScale formatBit size x y := by
  rw [InScale]
  split_ifs with hbyte
  · subst hbyte
    obtain rfl : 1 = size := Option.some.inj hformat.2
    exact orderedCodes_byte hxy
  · exact orderedCodes_wide hformat hbyte hxy

theorem length_encodeSample (hformat : IntegerFormat formatBit size)
    (h : encodeSample formatBit size x = some bytes) : bytes.length = size := by
  obtain ⟨hpos, hle⟩ := hformat.bounds
  rw [encodeSample] at h
  split_ifs at h with hbyte
  · subst hbyte
    obtain rfl : 1 = size := Option.some.inj hformat.2
    obtain ⟨n, -, rfl⟩ := Option.map_eq_some_iff.mp h
    exact length_leBytes 1 _
  · obtain ⟨n, -, hn⟩ := Option.bind_eq_some_iff.mp h
    obtain rfl := Option.some.inj hn
    rw [List.length_drop, bytesOfInt, length_leBytes]
    omega

/-- The samples of a list of floats. -/
def Encodes (formatBit : UInt8) (size : Nat) : List Rat → List (List UInt8) → Prop :=
  List.Forall₂ fun x bytes => encodeSample formatBit size x = some bytes

theorem Encodes.length_of_mem {xs : List Rat} {samples : List (List UInt8)}
    (hformat : IntegerFormat formatBit size) (h : Encodes formatBit size xs samples) :
    ∀ sample ∈ samples, sample.length = size := by
  induction h with
  | nil =>
    intro sample hs
    cases hs
  | cons hx _ ih => exact List.forall_mem_cons.mpr ⟨length_encodeSample hformat hx, ih⟩

theorem Encodes.length_flatten {xs : List Rat} {samples : List (List UInt8)}
    (hformat : IntegerFormat formatBit size) (h : Encodes formatBit size xs samples) :
    samples.flatten.length = xs.length * size := by
  rw [List.length_flatten, List.map_congr_left (h.length_of_mem hformat),
    List.Forall₂.length_eq h]
  simp

theorem Encodes.codes {xs : List Rat} {samples : List (List UInt8)}
    (h : Encodes formatBit size xs samples) :
    List.Forall₂ (fun x code => sampleCode formatBit size x = some code) xs
      (samples.map leInt) := by
  induction h with
  | nil => exact List.Forall₂.nil
  | cons hx _ ih =>
    refine List.Forall₂.cons ?_ ih
    rw [sampleCode, hx]
    rfl

theorem exists_encodes {xs : List Rat}
    (h : ∀ x ∈ xs, ∃ code, sampleCode formatBit size x = some code) :
    ∃ samples, Encodes formatBit size xs samples := by
  induction xs with
  | nil => exact ⟨[], List.Forall₂.nil⟩
  | cons x xs ih =>
    obtain ⟨⟨code, hcode⟩, hxs⟩ := List.forall_mem_cons.mp h
    obtain ⟨sample, hsample, -⟩ := Option.map_eq_some_iff.mp hcode
    obtain ⟨samples, hsamples⟩ := ih hxs
    exact ⟨sample :: samples, List.Forall₂.cons hsample hsamples⟩

/-- The conversion of a buffer, by its samples. -/
theorem convert_of_float_iff (hformat : IntegerFormat formatBit size)
    (hfloats : num ≤ floats.length) (hmem : num * size ≤ mem.length) {mem' : List UInt8} :
    vbanSampleConvert (.bytes mem) formatBit (.floats floats) vbanBitfmt32Float num =
        some (0, .bytes mem') ↔
      ∃ samples, Encodes formatBit size (floats.take num) samples ∧
        mem' = samples.flatten ++ mem.drop (num * size) := by
  have hload : load floats num = some (floats.take num) := by rw [load, if_pos hfloats]
  have hstore : ∀ samples, Encodes formatBit size (floats.take num) samples →
      store mem samples.flatten = some (samples.flatten ++ mem.drop (num * size)) := by
    intro samples h
    have hlength := h.length_flatten hformat
    rw [List.length_take_of_le hfloats] at hlength
    rw [store, hlength, if_pos hmem, overwrite_zero, hlength]
  rw [vbanSampleConvert_of_float hformat.1 hformat.2, hload, Option.bind_eq_bind, Option.bind_some]
  constructor
  · intro h
    obtain ⟨samples, hsamples, h⟩ := Option.bind_eq_some_iff.mp h
    have hencodes : Encodes formatBit size _ samples := mapM_eq_some_iff.mp hsamples
    rw [hstore samples hencodes] at h
    refine ⟨samples, hencodes, ?_⟩
    simpa using h.symm
  · rintro ⟨samples, hencodes, rfl⟩
    rw [mapM_eq_some_iff.mpr hencodes, Option.bind_eq_bind, Option.bind_some,
      hstore samples hencodes]
    rfl

/-- A sample of a list stands beside its code. -/
theorem exists_mem_zip {xs : List Rat} {codes : List Int}
    (h : List.Forall₂ (fun x code => sampleCode formatBit size x = some code) xs codes)
    (hx : x ∈ xs) : ∃ code, (x, code) ∈ xs.zip codes := by
  have hfst : (xs.zip codes).map Prod.fst = xs := List.map_fst_zip h.length_eq.le
  rw [← hfst] at hx
  obtain ⟨p, hp, rfl⟩ := List.mem_map.mp hx
  exact ⟨p.2, hp⟩

/-- The encoder clamps the buffers whose samples it takes two by two. -/
theorem clamps_iff (hformat : IntegerFormat formatBit size) (hfloats : num ≤ floats.length)
    (hmem : num * size ≤ mem.length) :
    Clamps formatBit size num floats mem ↔
      ∀ x ∈ floats.take num, ∀ y ∈ floats.take num, x ≤ y → InScale formatBit size x y := by
  have hcount : (floats.take num).length = num := List.length_take_of_le hfloats
  have hcodes : ∀ samples, Encodes formatBit size (floats.take num) samples →
      chunks size num (samples.flatten ++ mem.drop (num * size)) = samples := by
    intro samples h
    have hcut : chunks size samples.length (samples.flatten ++ mem.drop (num * size)) = samples :=
      chunks_flatten_append (h.length_of_mem hformat)
    rwa [← List.Forall₂.length_eq h, hcount] at hcut
  constructor
  · rintro ⟨mem', hconvert, hsat, hmono⟩ x hx y hy hxy
    obtain ⟨samples, hencodes, rfl⟩ := (convert_of_float_iff hformat hfloats hmem).mp hconvert
    rw [hcodes samples hencodes] at hsat hmono
    obtain ⟨m, hm⟩ := exists_mem_zip hencodes.codes hx
    obtain ⟨n, hn⟩ := exists_mem_zip hencodes.codes hy
    rw [← orderedCodes_iff hformat hxy]
    exact ⟨m, n, List.forall₂_zip hencodes.codes hm, List.forall₂_zip hencodes.codes hn,
      hmono _ hm _ hn hxy, hsat _ hm, hsat _ hn⟩
  · intro h
    have hordered : ∀ x ∈ floats.take num, ∀ y ∈ floats.take num, x ≤ y →
        OrderedCodes formatBit size x y :=
      fun x hx y hy hxy => (orderedCodes_iff hformat hxy).mpr (h x hx y hy hxy)
    obtain ⟨samples, hencodes⟩ : ∃ samples, Encodes formatBit size (floats.take num) samples := by
      apply exists_encodes
      intro x hx
      obtain ⟨code, -, hcode, -⟩ := hordered x hx x hx le_rfl
      exact ⟨code, hcode⟩
    refine ⟨_, (convert_of_float_iff hformat hfloats hmem).mpr ⟨samples, hencodes, rfl⟩, ?_, ?_⟩
    · rw [hcodes samples hencodes]
      rintro ⟨x, m⟩ hp
      have hx := (List.of_mem_zip hp).1
      obtain ⟨m', -, hm', -, -, hsat, -⟩ := hordered x hx x hx le_rfl
      obtain rfl := Option.some.inj (hm'.symm.trans (List.forall₂_zip hencodes.codes hp))
      exact hsat
    · rw [hcodes samples hencodes]
      rintro ⟨x, m⟩ hp ⟨y, n⟩ hq hxy
      obtain ⟨m', n', hm', hn', hle, -⟩ :=
        hordered x (List.of_mem_zip hp).1 y (List.of_mem_zip hq).1 hxy
      obtain rfl := Option.some.inj (hm'.symm.trans (List.forall₂_zip hencodes.codes hp))
      obtain rfl := Option.some.inj (hn'.symm.trans (List.forall₂_zip hencodes.codes hq))
      exact hle

theorem clamps_full_scale : Clamps vbanBitfmt8Int 1 3 [-1, 1 / 2, 0] [0, 0, 0] := by
  have hformat : IntegerFormat vbanBitfmt8Int 1 := ⟨by decide, rfl⟩
  apply (clamps_iff hformat _ _).mpr
  · intro x hx y hy _
    rw [InScale, if_pos rfl]
    simp only [List.take_succ_cons, List.take_zero, List.mem_cons, List.not_mem_nil,
      or_false] at hx hy
    constructor
    · rcases hx with rfl | rfl | rfl <;> norm_num
    · rcases hy with rfl | rfl | rfl <;> norm_num
  all_goals decide

/-- At -1 the cast to 32 bits is out of range, at 1 the one to 8 bits; in between the wide
formats turn the order. -/
theorem encoder_not_clamped :
    encodeSample vbanBitfmt16Int 2 (-1) = none ∧
      vbanSampleConvert (.bytes [0, 0]) vbanBitfmt16Int (.floats [-1]) vbanBitfmt32Float 1 = none ∧
      vbanSampleConvert (.bytes [0]) vbanBitfmt8Int (.floats [1]) vbanBitfmt32Float 1 = none ∧
      vbanSampleConvert (.bytes [0, 0, 0, 0]) vbanBitfmt16Int (.floats [0, 1 / 2])
        vbanBitfmt32Float 2 = some (0, .bytes [0, 0, 0, 0xC0]) ∧
      ¬Clamps vbanBitfmt16Int 2 1 [-1] [0, 0] := by
  have hnone : vbanSampleConvert (.bytes [0, 0]) vbanBitfmt16Int (.floats [-1])
      vbanBitfmt32Float 1 = none := by decide +kernel
  refine ⟨by decide +kernel, hnone, by decide +kernel, by decide +kernel, ?_⟩
  rintro ⟨mem', hsome, -⟩
  rw [hnone] at hsome
  cases hsome

end Vban.Convert
