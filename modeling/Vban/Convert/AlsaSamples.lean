import Vban.Convert.Clamping
import Vban.Library.Arithmetic
import Vban.Library.Single

/-! The sample conversions of the ALSA utility, with floats by their exact values. The products of
the encoder are rounded to `float`. -/
namespace Vban.Convert

open Library

variable {format : UInt8} {size n : Nat} {src sample : List UInt8} {dest : List Rat} {x y : Rat}
  {b0 b1 b2 : UInt8} {m : Int}

/-- Three bytes shifted and joined by `|`: the upper bits are the third byte's sign. -/
def joinBytes (b0 b1 b2 : UInt8) : BitVec 32 :=
  b0.toBitVec.setWidth 32 ||| b1.toBitVec.setWidth 32 <<< 8 ||| b2.toBitVec.signExtend 32 <<< 16

/-- Three bytes shifted and added, as `vban_sample_convert` has it. -/
def addBytes (b0 b1 b2 : UInt8) : Int := b2.toInt8.toInt * 2 ^ 16 + b1.toNat * 2 ^ 8 + b0.toNat

/-- `int16_t` and `int32_t` to `float` and over the full scale. -/
def convertVbanToFloat (src : List UInt8) (dest : List Rat) (n : Nat) (format : UInt8) :
    Option (List Rat) :=
  if n = 0 then some dest
  else if format = vbanBitfmt16Int then do
    let src16 := chunks 2 n (← load src (n * 2))
    store dest (src16.map fun s => (floatOfInt (leInt s) : Rat) / 32768)
  else if format = vbanBitfmt24Int then do
    let samples := chunks 3 n (← load src (n * 3))
    store dest (samples.map fun s =>
      (floatOfInt (joinBytes (s.getD 0 0) (s.getD 1 0) (s.getD 2 0)).toInt : Rat) / 8388608)
  else some dest

/-- The three stores of `val32`. -/
def splitBytes (val32 : BitVec 32) : List UInt8 :=
  [⟨(val32 &&& 0xFF).setWidth 8⟩, ⟨(val32.sshiftRight 8 &&& 0xFF).setWidth 8⟩,
    ⟨(val32.sshiftRight 16 &&& 0xFF).setWidth 8⟩]

/-- The bytes of one sample: `std::max(lo, std::min(hi, scaled))`, then `std::round`. `none` is a
cast out of range. -/
def encode16 (x : Rat) : Option (List UInt8) :=
  (castInt 16 (roundf (limit (-32768) 32767 (roundSingle (x * 32767))))).map (bytesOfInt 2)

def encode24 (x : Rat) : Option (List UInt8) :=
  (castInt 32 (roundf (limit (-8388608) 8388607 (roundSingle (x * 8388607))))).map fun val32 =>
    splitBytes (BitVec.ofInt 32 val32)

def convertFloatToVban (src : List Rat) (dest : List UInt8) (n : Nat) (format : UInt8) :
    Option (List UInt8) :=
  if n = 0 then some dest
  else if format = vbanBitfmt16Int then do
    store dest (← (← load src n).mapM encode16).flatten
  else if format = vbanBitfmt24Int then do
    store dest (← (← load src n).mapM encode24).flatten
  else some dest

/-- The sign, extended over the upper bits, is shifted out of all but eight of them. -/
theorem toNat_signExtend_shiftLeft (b : UInt8) :
    (b.toBitVec.signExtend 32 <<< 16).toNat =
      (if b.toNat < 128 then b.toNat else b.toNat + 0xFF00) <<< 16 := by
  have hb := b.toNat_lt
  rw [BitVec.toNat_shiftLeft, BitVec.toNat_signExtend, BitVec.msb_eq_decide,
    BitVec.toNat_setWidth, UInt8.toNat_toBitVec, Nat.shiftLeft_eq, Nat.shiftLeft_eq]
  simp only [decide_eq_true_eq]
  split_ifs <;> omega

/-- The joined bytes share no bits: joining adds them. -/
theorem toNat_joinBytes (b0 b1 b2 : UInt8) :
    (joinBytes b0 b1 b2).toNat = b0.toNat + 2 ^ 8 * b1.toNat +
      2 ^ 16 * (if b2.toNat < 128 then b2.toNat else b2.toNat + 0xFF00) := by
  have h0 := b0.toNat_lt
  have h1 := b1.toNat_lt
  have hsecond : (b1.toBitVec.setWidth 32 <<< 8).toNat = b1.toNat <<< 8 := by
    rw [BitVec.toNat_shiftLeft, BitVec.toNat_setWidth, UInt8.toNat_toBitVec, Nat.shiftLeft_eq,
      Nat.shiftLeft_eq]
    omega
  have hlower : (b0.toBitVec.setWidth 32 ||| b1.toBitVec.setWidth 32 <<< 8).toNat =
      b1.toNat <<< 8 + b0.toNat := by
    rw [BitVec.toNat_or, hsecond, BitVec.toNat_setWidth, UInt8.toNat_toBitVec,
      Nat.mod_eq_of_lt (by omega), Nat.or_comm, Nat.shiftLeft_add_eq_or_of_lt h0]
  have hlt : b1.toNat <<< 8 + b0.toNat < 2 ^ 16 := by
    rw [Nat.shiftLeft_eq]
    omega
  rw [joinBytes, BitVec.toNat_or, hlower, toNat_signExtend_shiftLeft, Nat.or_comm,
    ← Nat.shiftLeft_add_eq_or_of_lt hlt, Nat.shiftLeft_eq, Nat.shiftLeft_eq]
  omega

theorem toInt_joinBytes (b0 b1 b2 : UInt8) : (joinBytes b0 b1 b2).toInt = leInt [b0, b1, b2] := by
  have h0 := b0.toNat_lt
  have h1 := b1.toNat_lt
  have h2 := b2.toNat_lt
  rw [BitVec.toInt_eq_toNat_bmod, toNat_joinBytes, leInt, Int.bmod_def, Int.bmod_def]
  simp only [leNat, List.length_cons, List.length_nil]
  split_ifs <;> omega

theorem addBytes_eq (b0 b1 b2 : UInt8) : addBytes b0 b1 b2 = leInt [b0, b1, b2] := by
  have h0 := b0.toNat_lt
  have h1 := b1.toNat_lt
  have h2 := b2.toNat_lt
  have hsign : b2.toInt8.toInt = (b2.toNat : Int).bmod 256 := by
    rw [← Int8.toInt_toBitVec, BitVec.toInt_eq_toNat_bmod]
    rfl
  rw [addBytes, hsign, leInt, Int.bmod_def, Int.bmod_def]
  simp only [leNat, List.length_cons, List.length_nil]
  split_ifs <;> omega

/-- The receptors' decoder of 24 bits, with the sum of the source. -/
theorem decodeSample_24 (b0 b1 b2 : UInt8) :
    decodeSample vbanBitfmt24Int [b0, b1, b2] =
      (floatOfInt (addBytes b0 b1 b2) : Rat) / floatOfInt (intShift 23) := by
  rw [addBytes_eq]
  rfl

theorem joinBytes_sample (hs : sample.length = 3) :
    (joinBytes (sample.getD 0 0) (sample.getD 1 0) (sample.getD 2 0)).toInt = leInt sample := by
  obtain ⟨b0, b1, b2, rfl⟩ := List.length_eq_three.mp hs
  exact toInt_joinBytes b0 b1 b2

/-- The decoder of the ALSA utility, by the receptors' decoder of one sample. -/
theorem convertVbanToFloat_eq (hformat : WideFormat format size) :
    convertVbanToFloat src dest n format =
      (load src (n * size)).bind fun bytes =>
        store dest ((chunks size n bytes).map (decodeSample format)) := by
  rw [convertVbanToFloat]
  split_ifs with hn h16 h24
  · subst hn
    simp [load, chunks, store, overwrite_zero]
  · obtain ⟨-, rfl⟩ | ⟨h24, -⟩ := hformat
    · subst h16
      rfl
    · exact absurd (h16.symm.trans h24) (by decide)
  · obtain ⟨h16', -⟩ | ⟨-, rfl⟩ := hformat
    · exact absurd h16' h16
    · subst h24
      cases hload : load src (n * 3) with
      | none => rfl
      | some bytes =>
        have hbytes : bytes.length = n * 3 := by
          rw [load] at hload
          split_ifs at hload with hle
          obtain rfl := Option.some.inj hload
          exact List.length_take_of_le hle
        simp only [Option.bind_eq_bind, Option.bind_some]
        congr 1
        apply List.map_congr_left
        intro s hs
        rw [joinBytes_sample (length_of_mem_chunks hbytes.ge hs)]
        rfl
  · obtain ⟨h16', -⟩ | ⟨h24', -⟩ := hformat
    · exact absurd h16' h16
    · exact absurd h24' h24

/-- A stream of 16 or 24 bits sounds the same on both receivers. -/
theorem receivers_decode_alike (hformat : WideFormat format size) (src : List UInt8)
    (dest : List Rat) (n : Nat) :
    vbanSampleConvert (.floats dest) vbanBitfmt32Float (.bytes src) format n =
      (convertVbanToFloat src dest n format).map fun dest' => (0, .floats dest') := by
  obtain ⟨hlt, hsize⟩ := hformat.supported
  rw [vbanSampleConvert_to_float hlt hsize, convertVbanToFloat_eq hformat, Option.map_bind]
  cases load src (n * size) with
  | none => rfl
  | some bytes =>
    simp only [Option.bind_eq_bind, Option.bind_some, Function.comp_apply]
    cases store dest ((chunks size n bytes).map (decodeSample format)) <;> rfl

theorem receivers_decode_alike_24 :
    vbanSampleConvert (.floats [0]) vbanBitfmt32Float (.bytes [0, 0, 0x80]) vbanBitfmt24Int 1 =
      (convertVbanToFloat [0, 0, 0x80] [0] 1 vbanBitfmt24Int).map fun dest' => (0, .floats dest') :=
  receivers_decode_alike (Or.inr ⟨rfl, rfl⟩) _ _ _

/-- The code of a sample: rounded, and kept within the codes that `size` bytes have. -/
def sampleLevel (size : Nat) (x : Rat) : Int :=
  roundf (limit (-2 ^ (8 * size - 1)) (2 ^ (8 * size - 1) - 1)
    (roundSingle (x * (2 ^ (8 * size - 1) - 1))))

/-- Codes of `size` bytes in the order of the samples, saturated, and within two steps. -/
structure Quantises (size : Nat) (level : Rat → Int) : Prop where
  mono : ∀ x y, x ≤ y → level x ≤ level y
  range : ∀ x, -2 ^ (8 * size - 1) ≤ level x ∧ level x < 2 ^ (8 * size - 1)
  high : ∀ x, 1 ≤ x → level x = 2 ^ (8 * size - 1) - 1
  low : ∀ x, x * (2 ^ (8 * size - 1) - 1) ≤ -2 ^ (8 * size - 1) → level x = -2 ^ (8 * size - 1)
  error : ∀ x, |(level x : Rat) / 2 ^ (8 * size - 1) - max (-1) (min 1 x)| ≤
    2 / 2 ^ (8 * size - 1)

theorem abs_roundf_sub_le (t : Rat) : |(roundf t : Rat) - t| ≤ 1 / 2 := by
  rw [roundf, abs_le]
  split_ifs
  · have hle := Int.floor_le (t + 1 / 2)
    have hlt := Int.lt_floor_add_one (t + 1 / 2)
    constructor <;> linarith
  · have hle := Int.le_ceil (t - 1 / 2)
    have hlt := Int.ceil_lt_add_one (t - 1 / 2)
    constructor <;> linarith

/-- Clamping at the codes and clamping at full scale differ by one step at most. -/
theorem abs_limit_sub_le {half : Rat} (hhalf : 1 ≤ half) (x : Rat) :
    |limit (-half) (half - 1) (x * (half - 1)) - half * max (-1) (min 1 x)| ≤ 1 := by
  rw [limit, abs_le]
  rcases le_total x (-1) with hlow | hlow
  · have hscaled : x * (half - 1) ≤ -(half - 1) := by nlinarith
    rw [min_eq_right (by linarith : x ≤ 1), max_eq_left hlow, min_eq_right (by linarith)]
    have hle : max (-half) (x * (half - 1)) ≤ -(half - 1) := max_le (by linarith) hscaled
    have hge : -half ≤ max (-half) (x * (half - 1)) := le_max_left _ _
    constructor <;> linarith
  · rcases le_total 1 x with hhigh | hhigh
    · have hscaled : half - 1 ≤ x * (half - 1) := by nlinarith
      rw [min_eq_left hhigh, max_eq_right (by norm_num : (-1 : Rat) ≤ 1), min_eq_left hscaled,
        max_eq_right (by linarith)]
      constructor <;> linarith
    · have hupper : x * (half - 1) ≤ half - 1 := by nlinarith
      have hlower : -half ≤ x * (half - 1) := by nlinarith
      rw [min_eq_right hhigh, max_eq_right hlow, min_eq_right hupper, max_eq_right hlower]
      constructor <;> linarith

/-- Rounding the product moves the clamped product by half a code at most. -/
theorem abs_limit_roundSingle_sub_le {m : Int} (hm : 1 ≤ m) (hm' : m ≤ 2 ^ 23) (y : Rat) :
    |limit (-m : Rat) (m - 1) (roundSingle y) - limit (-m : Rat) (m - 1) y| ≤ 1 / 2 := by
  have hcast : (m : Rat) ≤ 2 ^ 23 := by exact_mod_cast hm'
  rcases lt_or_ge |y| (2 ^ 23) with hsmall | hlarge
  · have herror : |roundSingle y - y| ≤ 1 / 2 := by
      refine (roundSingle_error y).trans (max_le ?_ (by norm_num))
      rw [div_le_iff₀ (by norm_num)]
      linarith
    exact (abs_limit_sub_limit_le _ _ _ _).trans herror
  · have hsame : limit (-m : Rat) (m - 1) (roundSingle y) = limit (-m : Rat) (m - 1) y := by
      rcases le_total 0 y with hpos | hneg
      · rw [abs_of_nonneg hpos] at hlarge
        have hround := le_roundSingle (x := y) (z := m - 1) (by rw [abs_lt]; omega)
          (by push_cast; linarith)
        push_cast at hround
        rw [limit, limit, min_eq_left hround, min_eq_left (by linarith)]
      · rw [abs_of_nonpos hneg] at hlarge
        have hround := roundSingle_le (x := y) (z := -m) (by rw [abs_lt]; omega)
          (by push_cast; linarith)
        push_cast at hround
        rw [limit, limit, max_eq_left ((min_le_right _ _).trans hround),
          max_eq_left ((min_le_right _ _).trans (by linarith))]
    rw [hsame, sub_self, abs_zero]
    norm_num

theorem roundf_low (size : Nat) : roundf (-2 ^ (8 * size - 1)) = -2 ^ (8 * size - 1) := by
  have hint := roundf_intCast (-2 ^ (8 * size - 1))
  push_cast at hint
  exact hint

theorem roundf_high (size : Nat) : roundf (2 ^ (8 * size - 1) - 1) = 2 ^ (8 * size - 1) - 1 := by
  have hint := roundf_intCast (2 ^ (8 * size - 1) - 1)
  push_cast at hint
  exact hint

theorem sampleLevel_range (size : Nat) (x : Rat) :
    -2 ^ (8 * size - 1) ≤ sampleLevel size x ∧ sampleLevel size x < 2 ^ (8 * size - 1) := by
  have hone : (1 : Rat) ≤ 2 ^ (8 * size - 1) := one_le_pow₀ (by norm_num)
  have hbounds : -(2 : Rat) ^ (8 * size - 1) ≤ 2 ^ (8 * size - 1) - 1 := by linarith
  obtain ⟨hge, hle⟩ := limit_mem hbounds (roundSingle (x * (2 ^ (8 * size - 1) - 1)))
  have hlower := roundf_mono hge
  have hupper := roundf_mono hle
  rw [roundf_low] at hlower
  rw [roundf_high] at hupper
  exact ⟨hlower, Int.lt_of_le_sub_one hupper⟩

theorem quantises_sampleLevel (hsize : size ≤ 3) : Quantises size (sampleLevel size) := by
  have hone : (1 : Rat) ≤ 2 ^ (8 * size - 1) := one_le_pow₀ (by norm_num)
  have hone' : (1 : Int) ≤ 2 ^ (8 * size - 1) := one_le_pow₀ (by norm_num)
  have hscale : (2 : Int) ^ (8 * size - 1) ≤ 2 ^ 23 :=
    pow_le_pow_right₀ (by norm_num) (by omega)
  refine ⟨?_, sampleLevel_range size, ?_, ?_, ?_⟩
  · intro x y hxy
    have hproduct := mul_le_mul_of_nonneg_right hxy (sub_nonneg_of_le hone)
    exact roundf_mono (limit_mono (roundSingle_mono hproduct))
  · intro x hx
    have hscaled : (2 : Rat) ^ (8 * size - 1) - 1 ≤ x * (2 ^ (8 * size - 1) - 1) :=
      le_mul_of_one_le_left (by linarith) hx
    have hround := le_roundSingle (z := 2 ^ (8 * size - 1) - 1) (by rw [abs_lt]; omega)
      (by push_cast; exact hscaled)
    push_cast at hround
    rw [sampleLevel, limit, min_eq_left hround, max_eq_right (by linarith), roundf_high]
  · intro x hx
    have hround := roundSingle_le (z := -2 ^ (8 * size - 1)) (by rw [abs_lt]; omega)
      (by push_cast; exact hx)
    push_cast at hround
    rw [sampleLevel, limit, min_eq_right (by linarith), max_eq_left hround, roundf_low]
  · intro x
    have hround := abs_le.mp (abs_roundf_sub_le (limit (-2 ^ (8 * size - 1))
      (2 ^ (8 * size - 1) - 1) (roundSingle (x * (2 ^ (8 * size - 1) - 1)))))
    have hproduct := abs_le.mp (abs_limit_roundSingle_sub_le hone' hscale
      (x * (2 ^ (8 * size - 1) - 1)))
    have hclamp := abs_le.mp (abs_limit_sub_le hone x)
    have hpos : (0 : Rat) < 2 ^ (8 * size - 1) := by linarith
    rw [← sampleLevel] at hround
    push_cast at hproduct
    rw [div_sub' hpos.ne', abs_div, abs_of_pos hpos, div_le_div_iff_of_pos_right hpos, abs_le]
    constructor <;> linarith

/-- A byte that is shifted down and masked is a digit of the number. -/
theorem toNat_shifted_byte (m : Int) {k : Nat} (hk : k ≤ 16) :
    (((BitVec.ofInt 32 m).sshiftRight k &&& 0xFF).setWidth 8).toNat =
      (m % (2 ^ 32 : Nat)).toNat / 2 ^ k % 2 ^ 8 := by
  have hbits : ((BitVec.ofInt 32 m).sshiftRight k &&& 0xFF).setWidth 8 =
      (BitVec.ofInt 32 m).extractLsb' k 8 := by
    ext i hi
    have hmask : (0xFF : BitVec 32).getLsbD i = true :=
      (by decide : ∀ i < 8, (0xFF : BitVec 32).getLsbD i = true) i hi
    rw [BitVec.getElem_setWidth, BitVec.getLsbD_and, BitVec.getLsbD_sshiftRight, hmask,
      Bool.and_true, BitVec.getElem_extractLsb', if_pos (by omega)]
    simp [show ¬32 ≤ i by omega]
  rw [hbits, BitVec.extractLsb'_toNat, BitVec.toNat_ofInt, Nat.shiftRight_eq_div_pow]

theorem splitBytes_ofInt (m : Int) : splitBytes (BitVec.ofInt 32 m) = bytesOfInt 3 m := by
  have h0 := toNat_shifted_byte m (k := 0) (by decide)
  have h8 := toNat_shifted_byte m (k := 8) (by decide)
  have h16 := toNat_shifted_byte m (k := 16) (by decide)
  rw [BitVec.sshiftRight_zero] at h0
  simp only [splitBytes, bytesOfInt, leBytes, List.cons.injEq, and_true]
  refine ⟨?_, ?_, ?_⟩
  all_goals
    apply UInt8.toNat_inj.mp
    rw [UInt8.toNat_ofNat', ← UInt8.toNat_toBitVec]
  · rw [h0]
    omega
  · rw [h8]
    omega
  · rw [h16]
    omega

/-- The clamped samples are in range of the casts. -/
theorem castInt_sampleLevel {bits : Nat} (hbits : 8 * size ≤ bits) (hpos : 0 < size) (x : Rat) :
    castInt bits (sampleLevel size x) = some (sampleLevel size x) := by
  obtain ⟨hlow, hhigh⟩ := sampleLevel_range size x
  have hpow : (2 : Int) ^ (8 * size - 1) ≤ 2 ^ (bits - 1) :=
    pow_le_pow_right₀ (by decide) (by omega)
  rw [castInt, if_pos (by omega)]

theorem encode16_eq (x : Rat) : encode16 x = some (bytesOfInt 2 (sampleLevel 2 x)) := by
  have hlevel : roundf (limit (-32768) 32767 (roundSingle (x * 32767))) = sampleLevel 2 x := by
    rw [sampleLevel]
    norm_num
  rw [encode16, hlevel, castInt_sampleLevel (by decide) (by decide), Option.map_some]

theorem encode24_eq (x : Rat) : encode24 x = some (bytesOfInt 3 (sampleLevel 3 x)) := by
  have hlevel :
      roundf (limit (-8388608) 8388607 (roundSingle (x * 8388607))) = sampleLevel 3 x := by
    rw [sampleLevel]
    norm_num
  rw [encode24, hlevel, castInt_sampleLevel (by decide) (by decide), Option.map_some,
    splitBytes_ofInt]

/-- The bytes of a buffer: those of each sample, one after the other. -/
def sampleBytes (size : Nat) (xs : List Rat) : List UInt8 :=
  xs.flatMap fun x => bytesOfInt size (sampleLevel size x)

theorem mapM_some_eq {α β : Type} {f : α → Option β} {g : α → β} (h : ∀ x, f x = some (g x))
    (xs : List α) : xs.mapM f = some (xs.map g) := by
  obtain rfl : f = fun x => some (g x) := funext h
  exact List.mapM_pure

theorem length_sampleBytes (size : Nat) (xs : List Rat) :
    (sampleBytes size xs).length = xs.length * size := by
  rw [sampleBytes, List.length_flatMap, List.map_congr_left (g := fun _ => size)]
  · simp
  · intro x _
    exact length_leBytes size _

theorem roundf_eq_zero_iff : roundf x = 0 ↔ |x| < 1 / 2 := by
  rw [roundf, abs_lt]
  split_ifs with hx
  · rw [Int.floor_eq_zero_iff, Set.mem_Ico]
    constructor
    · rintro ⟨-, h⟩
      constructor <;> linarith
    · rintro ⟨-, h⟩
      constructor <;> linarith
  · rw [Int.ceil_eq_zero_iff, Set.mem_Ioc]
    constructor
    · rintro ⟨h, -⟩
      constructor <;> linarith
    · rintro ⟨h, -⟩
      constructor <;> linarith

theorem sampleLevel_eq_zero_iff (hsize : 0 < size) :
    sampleLevel size x = 0 ↔ |x| * (2 ^ (8 * size - 1) - 1) < 1 / 2 - 1 / 2 ^ 26 := by
  have hhalf : (2 : Rat) ≤ 2 ^ (8 * size - 1) := le_self_pow₀ (by norm_num) (by omega)
  have hnonneg : (0 : Rat) ≤ 2 ^ (8 * size - 1) - 1 := by linarith
  rw [sampleLevel, roundf_eq_zero_iff, abs_lt, lt_limit_iff (by linarith) (by linarith),
    limit_lt_iff (by linarith) (by linarith), ← abs_lt, abs_roundSingle_lt_half, abs_mul,
    abs_of_nonneg hnonneg]

/-- Only the code zero has nothing but zero bytes. -/
theorem bytesOfInt_zero_iff (hsize : 0 < size)
    (hn : -2 ^ (8 * size - 1) ≤ m ∧ m < 2 ^ (8 * size - 1)) :
    (∀ b ∈ bytesOfInt size m, b = 0) ↔ m = 0 := by
  have hcode := leInt_drop_bytesOfInt (j := 0) hsize (by rwa [Nat.zero_add])
  rw [List.drop_zero, Nat.zero_add, Nat.pow_zero, Nat.cast_one, Int.ediv_one] at hcode
  rw [← leNat_eq_zero_iff]
  constructor
  · intro h
    rw [← hcode, leInt, h]
    simp
  · rintro rfl
    rw [bytesOfInt, leNat_leBytes]
    · simp
    · simp

/-- Zero bytes are those of samples within half a step, less half the last bit of its float. -/
theorem sampleBytes_zero_iff (hsize : 0 < size) {xs : List Rat} :
    (∀ b ∈ sampleBytes size xs, b = 0) ↔
      ∀ x ∈ xs, |x| * (2 ^ (8 * size - 1) - 1) < 1 / 2 - 1 / 2 ^ 26 := by
  rw [sampleBytes]
  simp only [List.mem_flatMap, forall_exists_index, and_imp]
  constructor
  · intro h x hx
    rw [← sampleLevel_eq_zero_iff hsize,
      ← bytesOfInt_zero_iff hsize (sampleLevel_range size x)]
    intro b hb
    exact h b x hx hb
  · intro h b x hx hb
    have hlevel := (sampleLevel_eq_zero_iff hsize).mpr (h x hx)
    exact (bytesOfInt_zero_iff hsize (sampleLevel_range size x)).mpr hlevel b hb

theorem convertFloatToVban_eq (hformat : WideFormat format size) {src : List Rat}
    {dest : List UInt8} (hsrc : n ≤ src.length) (hdest : n * size ≤ dest.length) :
    convertFloatToVban src dest n format =
      some (sampleBytes size (src.take n) ++ dest.drop (n * size)) := by
  have hload : load src n = some (src.take n) := by rw [load, if_pos hsrc]
  have hlength : (sampleBytes size (src.take n)).length = n * size := by
    rw [length_sampleBytes, List.length_take_of_le hsrc]
  have hstore : store dest (sampleBytes size (src.take n)) =
      some (sampleBytes size (src.take n) ++ dest.drop (n * size)) := by
    rw [store, hlength, if_pos hdest, overwrite_zero, hlength]
  rw [sampleBytes, List.flatMap_def] at hstore
  rw [convertFloatToVban, sampleBytes, List.flatMap_def]
  by_cases hn : n = 0
  · subst hn
    simp
  · rw [if_neg hn]
    obtain ⟨rfl, rfl⟩ | ⟨rfl, rfl⟩ := hformat
    · rw [if_pos rfl, hload]
      simp only [Option.bind_eq_bind, Option.bind_some, mapM_some_eq encode16_eq, hstore]
    · rw [if_neg (by decide), if_pos rfl, hload]
      simp only [Option.bind_eq_bind, Option.bind_some, mapM_some_eq encode24_eq, hstore]

theorem WideFormat.pos (hformat : WideFormat format size) : 0 < size := by
  obtain ⟨-, rfl⟩ | ⟨-, rfl⟩ := hformat <;> decide

theorem WideFormat.le (hformat : WideFormat format size) : size ≤ 3 := by
  obtain ⟨-, rfl⟩ | ⟨-, rfl⟩ := hformat <;> decide

/-- Decoding a sample's bytes gives its code over the full scale. -/
theorem decodeSample_bytesOfInt (hformat : WideFormat format size) (x : Rat) :
    decodeSample format (bytesOfInt size (sampleLevel size x)) =
      sampleLevel size x / 2 ^ (8 * size - 1) := by
  have hrange := sampleLevel_range size x
  have hcode := leInt_drop_bytesOfInt (j := 0) hformat.pos (by rwa [Nat.zero_add])
  rw [List.drop_zero, Nat.zero_add, Nat.pow_zero, Nat.cast_one, Int.ediv_one] at hcode
  have hlength : (bytesOfInt size (sampleLevel size x)).length = size := length_leBytes size _
  rw [decodeSample_eq hformat hlength, hcode]

/-- The values that come back from the bytes of a buffer. -/
theorem convertVbanToFloat_sampleBytes (hformat : WideFormat format size) (xs : List Rat)
    (tail : List UInt8) (hdest : xs.length ≤ dest.length) :
    convertVbanToFloat (sampleBytes size xs ++ tail) dest xs.length format =
      some (xs.map (fun x => (sampleLevel size x : Rat) / 2 ^ (8 * size - 1)) ++
        dest.drop xs.length) := by
  have hlength := length_sampleBytes size xs
  have hload : load (sampleBytes size xs ++ tail) (xs.length * size) =
      some (sampleBytes size xs) := by
    rw [load, if_pos (by simp [hlength]), List.take_left' hlength]
  have hchunks : chunks size xs.length (sampleBytes size xs) =
      xs.map fun x => bytesOfInt size (sampleLevel size x) := by
    have hsamples : ∀ s ∈ xs.map fun x => bytesOfInt size (sampleLevel size x),
        s.length = size := by
      simp [bytesOfInt]
    have hcut : chunks size _ (sampleBytes size xs ++ []) = _ := chunks_flatten_append hsamples
    rwa [List.append_nil, List.length_map] at hcut
  have hvalues : (chunks size xs.length (sampleBytes size xs)).map (decodeSample format) =
      xs.map fun x => (sampleLevel size x : Rat) / 2 ^ (8 * size - 1) := by
    rw [hchunks, List.map_map]
    exact List.map_congr_left fun x _ => decodeSample_bytesOfInt hformat x
  rw [convertVbanToFloat_eq hformat, hload, Option.bind_some, hvalues, store,
    if_pos (by simpa using hdest), overwrite_zero, List.length_map]

/-- The encoder of the ALSA utility is a quantiser of single samples, and its decoder gives the
codes back. -/
theorem convertFloatToVban_quantises (hformat : WideFormat format size) :
    ∃ level : Rat → Int, Quantises size level ∧
      ∀ (src : List Rat) (mem : List UInt8) (dest : List Rat) (n : Nat),
        n ≤ src.length → n * size ≤ mem.length → n ≤ dest.length →
        ∃ mem', convertFloatToVban src mem n format = some mem' ∧
          mem' = (src.take n).flatMap (fun x => bytesOfInt size (level x)) ++
            mem.drop (n * size) ∧
          convertVbanToFloat mem' dest n format =
            some ((src.take n).map (fun x => (level x : Rat) / 2 ^ (8 * size - 1)) ++
              dest.drop n) := by
  refine ⟨sampleLevel size, quantises_sampleLevel hformat.le, ?_⟩
  intro src mem dest n hsrc hmem hdest
  refine ⟨_, convertFloatToVban_eq hformat hsrc hmem, rfl, ?_⟩
  have hroom : (src.take n).length ≤ dest.length := by rwa [List.length_take_of_le hsrc]
  have hback :=
    convertVbanToFloat_sampleBytes hformat (src.take n) (mem.drop (n * size)) hroom
  rwa [List.length_take_of_le hsrc] at hback

/-- Two samples of 24 bits, in a buffer with room for one byte more. -/
theorem convertFloatToVban_quantises_24 :
    ∃ level : Rat → Int, Quantises 3 level ∧ ∃ mem',
      convertFloatToVban [1, -1 / 2] (List.replicate 7 9) 2 vbanBitfmt24Int = some mem' ∧
      mem' = bytesOfInt 3 (level 1) ++ bytesOfInt 3 (level (-1 / 2)) ++ [9] ∧
      convertVbanToFloat mem' [0, 0] 2 vbanBitfmt24Int =
        some [(level 1 : Rat) / 2 ^ 23, (level (-1 / 2) : Rat) / 2 ^ 23] := by
  obtain ⟨level, hquantises, hbuffers⟩ :=
    convertFloatToVban_quantises (Or.inr ⟨rfl, rfl⟩ : WideFormat vbanBitfmt24Int 3)
  obtain ⟨mem', hencode, hbytes, hdecode⟩ :=
    hbuffers [1, -1 / 2] (List.replicate 7 9) [0, 0] 2 (by decide) (by decide) (by decide)
  refine ⟨level, hquantises, mem', hencode, ?_, hdecode⟩
  simpa using hbytes

end Vban.Convert
