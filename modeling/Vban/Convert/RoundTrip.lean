import Mathlib.Tactic.FieldSimp
import Mathlib.Tactic.Ring
import Vban.Convert.SampleConvert

/-! Integer samples through `float` and back. -/
namespace Vban.Convert

open Library

variable {formatBit : UInt8} {size num k : Nat} {mem back sample : List UInt8} {floats : List Rat}
  {n : Int}

/-- The values of integer samples. -/
def sampleValues (size num : Nat) (mem : List UInt8) : List Int :=
  (chunks size num mem).map leInt

/-- The integer formats of a round trip, with the bytes of a sample. -/
def WideFormat (formatBit : UInt8) (size : Nat) : Prop :=
  formatBit = vbanBitfmt16Int ∧ size = 2 ∨ formatBit = vbanBitfmt24Int ∧ size = 3

/-- Converting `mem` to `float` and the result back returns its bytes. -/
def RoundTrips (formatBit : UInt8) (num : Nat) (mem : List UInt8) (floats : List Rat)
    (back : List UInt8) : Prop :=
  ∃ floats' back',
    vbanSampleConvert (.floats floats) vbanBitfmt32Float (.bytes mem) formatBit num =
      some (0, .floats floats') ∧
    vbanSampleConvert (.bytes back) formatBit (.floats floats') vbanBitfmt32Float num =
      some (0, .bytes back') ∧
    back'.take mem.length = mem

theorem WideFormat.supported (h : WideFormat formatBit size) :
    formatBit < vbanBitfmt32Float ∧ vbanBitResolutionSize[formatBit.toNat]? = some size := by
  rcases h with ⟨rfl, rfl⟩ | ⟨rfl, rfl⟩ <;> decide

theorem roundf_intCast (n : Int) : roundf n = n := by
  have hfloor : ⌊(n : Rat) + 1 / 2⌋ = n := by
    rw [Int.floor_intCast_add]
    norm_num
  have hceil : ⌈(n : Rat) - 1 / 2⌉ = n := by
    rw [sub_eq_add_neg, Int.ceil_intCast_add]
    norm_num
  rw [roundf, hfloor, hceil, ite_self]

theorem floatOfInt_of_lt (h : n.natAbs < 2 ^ 24) : floatOfInt n = n := by
  have hlog : n.natAbs.log2 - 23 = 0 := by
    by_cases hz : n.natAbs = 0
    · simp [hz]
    · have := (Nat.log2_lt hz).mpr h
      omega
  simp [floatOfInt, hlog]

theorem leInt_range (hformat : WideFormat formatBit size) (hs : sample.length = size) :
    -2 ^ (8 * size - 1) ≤ leInt sample ∧ leInt sample < 2 ^ (8 * size - 1) := by
  have hlt := leNat_lt sample
  rw [leInt, Int.bmod_def]
  rcases hformat with ⟨-, rfl⟩ | ⟨-, rfl⟩
  · rw [hs] at hlt ⊢
    split <;> omega
  · rw [hs] at hlt ⊢
    split <;> omega

theorem decodeSample_eq (hformat : WideFormat formatBit size) (hs : sample.length = size) :
    decodeSample formatBit sample = leInt sample / 2 ^ (8 * size - 1) := by
  have hrange := leInt_range hformat hs
  have hfloat : floatOfInt (leInt sample) = leInt sample := by
    apply floatOfInt_of_lt
    rcases hformat with ⟨-, rfl⟩ | ⟨-, rfl⟩ <;> omega
  rw [decodeSample, hfloat]
  rcases hformat with ⟨rfl, rfl⟩ | ⟨rfl, rfl⟩
  · have hscale : floatOfInt (intShift 15) = 2 ^ 15 := by decide
    rw [if_neg (by decide), if_pos rfl, hscale]
    norm_num
  · have hscale : floatOfInt (intShift 23) = 2 ^ 23 := by decide
    rw [if_neg (by decide), if_neg (by decide), if_pos rfl, hscale]
    norm_num

/-- A finite `float`. -/
def IsFloat (x : Rat) : Prop :=
  ∃ m e : Int, |m| < 2 ^ 24 ∧ -149 ≤ e ∧ e ≤ 104 ∧ x = m * 2 ^ e

/-- The decoded sample and the encoder's product are floats: neither conversion rounds. -/
theorem product_exact (hformat : WideFormat formatBit size) (hs : sample.length = size) :
    IsFloat (decodeSample formatBit sample) ∧
      IsFloat (floatOfInt (intShift 31) * decodeSample formatBit sample) := by
  have hrange := leInt_range hformat hs
  have habs : |leInt sample| < 2 ^ 24 := by
    rw [abs_lt]
    rcases hformat with ⟨-, rfl⟩ | ⟨-, rfl⟩ <;> omega
  have hscale : floatOfInt (intShift 31) = -2 ^ 31 := by decide
  rw [decodeSample_eq hformat hs, hscale]
  constructor
  · refine ⟨leInt sample, -(8 * size - 1 : Nat), habs, ?_, ?_, ?_⟩
    · rcases hformat with ⟨-, rfl⟩ | ⟨-, rfl⟩ <;> omega
    · omega
    · rw [zpow_neg, zpow_natCast, div_eq_mul_inv]
  · refine ⟨-leInt sample, (32 - 8 * size : Nat), by rwa [abs_neg], by omega, ?_, ?_⟩
    · omega
    · rcases hformat with ⟨-, rfl⟩ | ⟨-, rfl⟩
      · push_cast
        ring
      · push_cast
        ring

/-- The upper bytes of a number whose lower `j` bytes are zero. -/
theorem drop_bytesOfInt (j : Nat) (n : Int) :
    (bytesOfInt (j + k) ((256 ^ j : Nat) * n)).drop j = bytesOfInt k n := by
  have hpos : (0 : Int) < ((256 ^ j : Nat) : Int) := Int.natCast_pos.mpr (Nat.pow_pos (by decide))
  have hmod : 0 ≤ n % ((256 ^ k : Nat) : Int) :=
    Int.emod_nonneg _ (Int.natCast_ne_zero.mpr (Nat.pow_pos (by decide)).ne')
  obtain ⟨m, hm⟩ := Int.eq_ofNat_of_zero_le hmod
  have hshift : (256 ^ j : Nat) * n % ((256 ^ (j + k) : Nat) : Int) =
      ((256 ^ j * m : Nat) : Int) := by
    rw [Nat.pow_add, Nat.cast_mul (256 ^ j) (256 ^ k), Int.mul_emod_mul_of_pos _ _ hpos, hm]
    exact (Nat.cast_mul _ _).symm
  rw [bytesOfInt, bytesOfInt, drop_leBytes, hshift, hm, Int.toNat_natCast, Int.toNat_natCast,
    Nat.mul_div_cancel_left _ (Nat.pow_pos (by decide))]

/-- The encoder's factor is negative: each sample comes out negated. -/
theorem encodeSample_eq (hformat : WideFormat formatBit size)
    (hn : -2 ^ (8 * size - 1) < n ∧ n < 2 ^ (8 * size - 1)) :
    encodeSample formatBit size (n / 2 ^ (8 * size - 1)) = some (bytesOfInt size (-n)) := by
  have hscale : floatOfInt (intShift 31) = -2 ^ 31 := by decide
  have hround : roundf (floatOfInt (intShift 31) * (n / 2 ^ (8 * size - 1))) =
      (256 ^ (4 - size) : Nat) * -n := by
    rw [← roundf_intCast ((256 ^ (4 - size) : Nat) * -n), hscale]
    congr 1
    rcases hformat with ⟨-, rfl⟩ | ⟨-, rfl⟩
    · push_cast
      ring
    · push_cast
      ring
  have hcast : castInt 32 ((256 ^ (4 - size) : Nat) * -n) =
      some ((256 ^ (4 - size) : Nat) * -n) := by
    rw [castInt, if_pos]
    rcases hformat with ⟨-, rfl⟩ | ⟨-, rfl⟩ <;> omega
  have hdrop := drop_bytesOfInt (k := size) (4 - size) (-n)
  rw [Nat.sub_add_cancel (by rcases hformat with ⟨-, rfl⟩ | ⟨-, rfl⟩ <;> omega)] at hdrop
  rw [encodeSample, if_neg, hround, hcast, ← hdrop]
  · rfl
  · rcases hformat with ⟨rfl, -⟩ | ⟨rfl, -⟩ <;> decide

theorem bytesOfInt_eq_iff (hs : sample.length = size) :
    bytesOfInt size n = sample ↔ n % ((256 ^ size : Nat) : Int) = leNat sample := by
  have hmod : 0 ≤ n % ((256 ^ size : Nat) : Int) :=
    Int.emod_nonneg _ (Int.natCast_ne_zero.mpr (Nat.pow_pos (by decide)).ne')
  have hlt : n % ((256 ^ size : Nat) : Int) < ((256 ^ size : Nat) : Int) :=
    Int.emod_lt_of_pos _ (Int.natCast_pos.mpr (Nat.pow_pos (by decide)))
  constructor
  · intro h
    have hle := congrArg leNat h
    rw [bytesOfInt, leNat_leBytes (by omega)] at hle
    omega
  · intro h
    rw [bytesOfInt, h, Int.toNat_natCast, ← hs, leBytes_leNat]

theorem bytesOfInt_neg_eq_iff (hformat : WideFormat formatBit size) (hs : sample.length = size)
    (hmin : leInt sample ≠ -2 ^ (8 * size - 1)) :
    bytesOfInt size (-leInt sample) = sample ↔ leInt sample = 0 := by
  have hrange := leInt_range hformat hs
  have hmod := leInt_emod sample
  rw [bytesOfInt_eq_iff hs, ← hmod, hs]
  rcases hformat with ⟨-, rfl⟩ | ⟨-, rfl⟩ <;> omega

/-- The values of samples as fractions of full scale. -/
def fractions (size : Nat) (values : List Int) : List Rat :=
  values.map fun n : Int => (n : Rat) / 2 ^ (8 * size - 1)

theorem load_append {xs ys : List Rat} (h : xs.length = num) : load (xs ++ ys) num = some xs := by
  rw [load, if_pos (by simp [h]), List.take_left' h]

theorem convert_to_float (hformat : WideFormat formatBit size) (hlen : mem.length = num * size)
    (hfloats : num ≤ floats.length) :
    vbanSampleConvert (.floats floats) vbanBitfmt32Float (.bytes mem) formatBit num =
      some (0, .floats (fractions size (sampleValues size num mem) ++ floats.drop num)) := by
  have hload : load mem (num * size) = some mem := by
    rw [load, if_pos hlen.ge, ← hlen, List.take_length]
  have hmap : (chunks size num mem).map (decodeSample formatBit) =
      fractions size (sampleValues size num mem) := by
    rw [fractions, sampleValues, List.map_map]
    apply List.map_congr_left
    intro sample hs
    exact decodeSample_eq hformat (length_of_mem_chunks hlen.ge hs)
  have hstore : store floats ((chunks size num mem).map (decodeSample formatBit)) =
      some (fractions size (sampleValues size num mem) ++ floats.drop num) := by
    rw [hmap, store, if_pos (by simpa [fractions, sampleValues] using hfloats), overwrite_zero]
    simp [fractions, sampleValues]
  obtain ⟨hlt, hsize⟩ := hformat.supported
  rw [vbanSampleConvert_to_float hlt hsize]
  simp [hload, hstore]

theorem mapM_encodeSample (hformat : WideFormat formatBit size) {values : List Int}
    (hvalues : ∀ n ∈ values, -2 ^ (8 * size - 1) < n ∧ n < 2 ^ (8 * size - 1)) :
    (fractions size values).mapM (encodeSample formatBit size) =
      some (values.map fun n => bytesOfInt size (-n)) := by
  induction values with
  | nil => rfl
  | cons n values ih =>
    have hhead := encodeSample_eq hformat (hvalues n List.mem_cons_self)
    have htail := ih fun m hm => hvalues m (List.mem_cons_of_mem _ hm)
    rw [fractions] at htail ⊢
    simp [List.mapM_cons, hhead, htail]

theorem length_flatMap_bytesOfInt (values : List Int) :
    (values.flatMap fun n => bytesOfInt size (-n)).length = values.length * size := by
  rw [List.length_flatMap, List.map_congr_left (g := fun _ => size)]
  · simp
  · intro n _
    simp [bytesOfInt]

theorem convert_of_float (hformat : WideFormat formatBit size) (floats : List Rat)
    {values : List Int}
    (hvalues : ∀ n ∈ values, -2 ^ (8 * size - 1) < n ∧ n < 2 ^ (8 * size - 1))
    (hback : values.length * size ≤ back.length) :
    vbanSampleConvert (.bytes back) formatBit (.floats (fractions size values ++ floats))
        vbanBitfmt32Float values.length =
      some (0, .bytes (values.flatMap (fun n => bytesOfInt size (-n)) ++
        back.drop (values.length * size))) := by
  have hload : load (fractions size values ++ floats) values.length =
      some (fractions size values) :=
    load_append (by simp [fractions])
  have hlen : (values.map fun n => bytesOfInt size (-n)).flatten.length = values.length * size :=
    length_flatMap_bytesOfInt values
  have hstore : store back (values.map fun n => bytesOfInt size (-n)).flatten =
      some (values.flatMap (fun n => bytesOfInt size (-n)) ++
        back.drop (values.length * size)) := by
    rw [store, if_pos (by rwa [hlen]), overwrite_zero, hlen]
    rfl
  have hencode := mapM_encodeSample hformat hvalues
  obtain ⟨hlt, hsize⟩ := hformat.supported
  rw [vbanSampleConvert_of_float hlt hsize]
  simp [hload, hencode, hstore]

/-- Encoding undoes decoding on silence only. -/
theorem roundTrips_iff (hformat : WideFormat formatBit size) (hlen : mem.length = num * size)
    (hfloats : num ≤ floats.length) (hback : mem.length ≤ back.length)
    (hmin : ∀ n ∈ sampleValues size num mem, n ≠ -2 ^ (8 * size - 1)) :
    RoundTrips formatBit num mem floats back ↔ ∀ n ∈ sampleValues size num mem, n = 0 := by
  have hcount : (sampleValues size num mem).length = num := by simp [sampleValues]
  have hsamples : ∀ sample ∈ chunks size num mem, sample.length = size :=
    fun sample hs => length_of_mem_chunks hlen.ge hs
  have hvalues : ∀ n ∈ sampleValues size num mem,
      -2 ^ (8 * size - 1) < n ∧ n < 2 ^ (8 * size - 1) := by
    intro n hn
    obtain ⟨sample, hs, rfl⟩ := List.mem_map.mp hn
    obtain ⟨hlow, hhigh⟩ := leInt_range hformat (hsamples sample hs)
    exact ⟨lt_of_le_of_ne hlow (hmin _ hn).symm, hhigh⟩
  have hto := convert_to_float hformat hlen hfloats
  have hroom : (sampleValues size num mem).length * size ≤ back.length := by
    rw [hcount, ← hlen]
    exact hback
  have hof := convert_of_float hformat (floats.drop num) hvalues hroom
  rw [hcount] at hof
  have hnegated : (sampleValues size num mem).flatMap (fun n => bytesOfInt size (-n)) =
      (chunks size num mem).flatMap fun sample => bytesOfInt size (-leInt sample) := by
    rw [sampleValues, List.flatMap_map]
  have hlength : ((sampleValues size num mem).flatMap fun n => bytesOfInt size (-n)).length =
      mem.length := by
    rw [length_flatMap_bytesOfInt, hcount, hlen]
  have htrip : RoundTrips formatBit num mem floats back ↔
      (chunks size num mem).flatMap (fun sample => bytesOfInt size (-leInt sample)) = mem := by
    constructor
    · rintro ⟨floats', back', hf, hb, hmem⟩
      rw [hto] at hf
      obtain rfl : _ = floats' := by simpa using hf
      rw [hof] at hb
      obtain rfl : _ = back' := by simpa using hb
      rwa [List.take_left' hlength, hnegated] at hmem
    · intro hmem
      refine ⟨_, _, hto, hof, ?_⟩
      rw [List.take_left' hlength, hnegated, hmem]
  rw [htrip, flatMap_chunks_eq_iff hlen]
  · constructor
    · intro h n hn
      obtain ⟨sample, hs, rfl⟩ := List.mem_map.mp hn
      exact (bytesOfInt_neg_eq_iff hformat (hsamples sample hs) (hmin _ hn)).mp (h sample hs)
    · intro h sample hs
      have hn : leInt sample ∈ sampleValues size num mem := List.mem_map_of_mem hs
      exact (bytesOfInt_neg_eq_iff hformat (hsamples sample hs) (hmin _ hn)).mpr (h _ hn)
  · intro sample hs
    rw [bytesOfInt, length_leBytes, hsamples sample hs]

theorem roundTrips_silence :
    RoundTrips vbanBitfmt24Int 2 [0, 0, 0, 0, 0, 0] [0, 0] [1, 2, 3, 4, 5, 6] := by
  have hformat : WideFormat vbanBitfmt24Int 3 := Or.inr ⟨rfl, rfl⟩
  apply (roundTrips_iff hformat rfl _ _ _).mpr
  all_goals decide

/-- The sample 1 comes back as -1. -/
theorem sample_negated :
    (∀ n ∈ sampleValues 2 1 [1, 0], n ≠ -2 ^ 15) ∧
      vbanSampleConvert (.floats [0]) vbanBitfmt32Float (.bytes [1, 0]) vbanBitfmt16Int 1 =
        some (0, .floats [1 / 2 ^ 15]) ∧
      vbanSampleConvert (.bytes [0, 0]) vbanBitfmt16Int (.floats [1 / 2 ^ 15])
        vbanBitfmt32Float 1 = some (0, .bytes [0xFF, 0xFF]) ∧
      ¬RoundTrips vbanBitfmt16Int 1 [1, 0] [0] [0, 0] := by
  have hto : vbanSampleConvert (.floats [0]) vbanBitfmt32Float (.bytes [1, 0]) vbanBitfmt16Int 1 =
      some (0, .floats [1 / 2 ^ 15]) := by decide +kernel
  have hof : vbanSampleConvert (.bytes [0, 0]) vbanBitfmt16Int (.floats [1 / 2 ^ 15])
      vbanBitfmt32Float 1 = some (0, .bytes [0xFF, 0xFF]) := by decide +kernel
  refine ⟨by decide, hto, hof, ?_⟩
  rintro ⟨floats', back', hf, hb, hmem⟩
  rw [hto] at hf
  obtain rfl : [1 / 2 ^ 15] = floats' := by simpa using hf
  rw [hof] at hb
  obtain rfl : [0xFF, 0xFF] = back' := by simpa using hb
  revert hmem
  decide

end Vban.Convert
