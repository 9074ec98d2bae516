import Vban.Emit.Partition

/-! When the number of frames in a packet is the number that its length holds. -/
namespace Vban

open Library

/-- A `2^k`-th of a period, its length taken in 16 bits, fits into a packet. -/
def PartFits (limit n fs k : Nat) : Prop :=
  n * fs % 2 ^ 16 / 2 ^ k ≤ vbanDataMaxSize ∧ n / 2 ^ k ≤ limit

instance (limit n fs k : Nat) : Decidable (PartFits limit n fs k) :=
  inferInstanceAs (Decidable (_ ∧ _))

variable {limit n fs k trailer : Nat}

theorem succ_part (h : 1 ≤ k) : ∃ q, 2 ^ k = 2 * q ∧ q = 2 ^ (k - 1) := by
  refine ⟨2 ^ (k - 1), ?_, rfl⟩
  rw [← Nat.pow_succ', Nat.succ_eq_add_one, Nat.sub_add_cancel h]

/-- A period that does not fit while a part of it is less than a frame has many channels. -/
theorem frame_lt_part (hlimit : 64 ≤ limit) (hn : 1 ≤ n) (hzero : n / 2 ^ k = 0)
    (hmin : ∀ j, j < k → ¬PartFits limit n fs j) : 718 < fs ∧ 2 ^ k ≤ fs * n := by
  have hlt : n < 2 ^ k := by
    rcases Nat.div_eq_zero_iff.mp hzero with h | h
    · exact absurd h (Nat.two_pow_pos k).ne'
    · exact h
  have hk : 1 ≤ k := by
    rcases Nat.eq_zero_or_pos k with rfl | h
    · simp at hlt
      omega
    · exact h
  obtain ⟨q, hq, hq'⟩ := succ_part hk
  have hpos : 0 < q := hq' ▸ Nat.two_pow_pos _
  have hnot := hmin (k - 1) (by omega)
  rw [PartFits, ← hq'] at hnot
  have hframes : n / q ≤ limit := by
    have : n / q < 2 := Nat.div_lt_of_lt_mul (by omega)
    omega
  have hdata : vbanDataMaxSize + 1 ≤ n * fs % 2 ^ 16 / q :=
    Nat.not_le.mp fun h => hnot ⟨h, hframes⟩
  have hbytes : 1437 * q ≤ n * fs := ((Nat.le_div_iff_mul_le hpos).mp hdata).trans (Nat.mod_le _ _)
  constructor
  · by_contra hle
    have : n * fs ≤ (2 * q - 1) * 718 := Nat.mul_le_mul (by omega) (by omega)
    omega
  · rw [Nat.mul_comm fs]
    omega

/-- A period of more than 16 bits is nowhere near what its parts hold. -/
theorem long_period_rest (hfs : fs ≤ 1024) (hlimit : 64 ≤ limit) (hk : k ≤ 10)
    (hmin : ∀ j, j < k → ¬PartFits limit n fs j) (hpos : 1 ≤ n / 2 ^ k)
    (hparts : fs * (n / 2 ^ k) ≤ 1442) : fs * (n % 2 ^ k) + 6 * 2 ^ k < 65536 := by
  have hmod := Nat.mod_lt n (Nat.two_pow_pos k)
  rcases Nat.eq_zero_or_pos k with rfl | hk1
  · simp [Nat.mod_one]
  obtain ⟨q, hq, hq'⟩ := succ_part hk1
  have hqpos : 0 < q := hq' ▸ Nat.two_pow_pos _
  have hnot := hmin (k - 1) (by omega)
  rw [PartFits, ← hq'] at hnot
  by_cases hframes : n / q ≤ limit
  · -- the data is too long, so there were at most six halvings
    have hdata : vbanDataMaxSize + 1 ≤ n * fs % 2 ^ 16 / q :=
      Nat.not_le.mp fun h => hnot ⟨h, hframes⟩
    have hbytes : 1437 * q ≤ n * fs % 2 ^ 16 := (Nat.le_div_iff_mul_le hqpos).mp hdata
    have hsix : 2 ^ k < 2 ^ 7 := by omega
    have hk6 : k ≤ 6 := Nat.lt_succ_iff.mp ((Nat.pow_lt_pow_iff_right (by decide)).mp hsix)
    have hpow : 2 ^ k ≤ 2 ^ 6 := Nat.pow_le_pow_right (by decide) hk6
    have : fs * (n % 2 ^ k) ≤ 1024 * 63 := Nat.mul_le_mul hfs (by omega)
    omega
  · -- there are too many frames, so the part that fits has many and a frame is short
    have hmany : 32 ≤ n / 2 ^ k := by
      rw [hq, Nat.mul_comm, ← Nat.div_div_eq_div_mul]
      omega
    have hshort : fs ≤ 45 := by
      by_contra hlt
      have : 46 * 32 ≤ fs * (n / 2 ^ k) := Nat.mul_le_mul (by omega) hmany
      omega
    have hpow : 2 ^ k ≤ 2 ^ 10 := Nat.pow_le_pow_right (by decide) hk
    have : fs * (n % 2 ^ k) ≤ 45 * 1023 := Nat.mul_le_mul hshort (by omega)
    omega

theorem long_period_not_described (hfs : fs ≤ 1024) (hlimit : 64 ≤ limit) (hk : k ≤ 10)
    (hfit : PartFits limit n fs k) (hmin : ∀ j, j < k → ¬PartFits limit n fs j)
    (ht : trailer ≤ 6) (hlen : 65536 ≤ n * fs) (hpos : 1 ≤ n / 2 ^ k) :
    fs * (n / 2 ^ k) ≠ n * fs % 2 ^ 16 / 2 ^ k + trailer := by
  intro heq
  have hdata : n * fs % 2 ^ 16 / 2 ^ k ≤ 1436 := hfit.1
  have hrest := long_period_rest hfs hlimit hk hmin hpos (by omega)
  have hn : 2 ^ k * (fs * (n / 2 ^ k)) + fs * (n % 2 ^ k) = n * fs := by
    calc 2 ^ k * (fs * (n / 2 ^ k)) + fs * (n % 2 ^ k)
      _ = fs * (2 ^ k * (n / 2 ^ k) + n % 2 ^ k) := by
          rw [Nat.mul_add, Nat.mul_left_comm]
      _ = n * fs := by rw [Nat.div_add_mod, Nat.mul_comm]
  have hbound : 2 ^ k * (n * fs % 2 ^ 16 / 2 ^ k) ≤ n * fs % 2 ^ 16 := Nat.mul_div_le _ _
  have htrail : 2 ^ k * trailer ≤ 6 * 2 ^ k := by
    rw [Nat.mul_comm]
    exact Nat.mul_le_mul_right _ ht
  rw [heq, Nat.mul_add] at hn
  omega

theorem part_eq_iff (hlen : n * fs ≤ 65535) :
    fs * (n / 2 ^ k) = n * fs % 2 ^ 16 / 2 ^ k + trailer ↔
      trailer = 0 ∧ fs * (n % 2 ^ k) < 2 ^ k := by
  have hdiv : n * fs / 2 ^ k = fs * (n / 2 ^ k) + fs * (n % 2 ^ k) / 2 ^ k := by
    calc n * fs / 2 ^ k = (fs * (n % 2 ^ k) + 2 ^ k * (fs * (n / 2 ^ k))) / 2 ^ k := by
          rw [Nat.mul_left_comm, ← Nat.mul_add, Nat.mod_add_div, Nat.mul_comm]
      _ = fs * (n / 2 ^ k) + fs * (n % 2 ^ k) / 2 ^ k := by
          rw [Nat.add_mul_div_left _ _ (Nat.two_pow_pos k), Nat.add_comm]
  rw [Nat.mod_eq_of_lt (show n * fs < 2 ^ 16 by omega), hdiv,
    ← Nat.div_eq_zero_iff_lt (Nat.two_pow_pos k)]
  generalize fs * (n % 2 ^ k) / 2 ^ k = rest
  omega

/-- When a packet declares exactly what it carries. -/
theorem declared_eq_iff (hfs : 1 ≤ fs) (hfs' : fs ≤ 1024) (hlimit : 64 ≤ limit)
    (hlimit' : limit ≤ 256) (hk : k ≤ 10) (hfit : PartFits limit n fs k)
    (hmin : ∀ j, j < k → ¬PartFits limit n fs j) (ht : trailer ≤ 6) :
    fs * ((UInt8.ofNat (n / 2 ^ k + 255)).toNat + 1) = n * fs % 2 ^ 16 / 2 ^ k + trailer ↔
      trailer = 0 ∧ 1 ≤ n ∧ n * fs ≤ 65535 ∧ fs * (n % 2 ^ k) < 2 ^ k := by
  have hdata : n * fs % 2 ^ 16 / 2 ^ k ≤ 1436 := hfit.1
  rcases Nat.eq_zero_or_pos (n / 2 ^ k) with hzero | hpos
  · have hwhole : (UInt8.ofNat (0 + 255)).toNat + 1 = 256 := rfl
    rw [hzero, hwhole]
    rcases Nat.eq_zero_or_pos n with rfl | hn
    · rw [Nat.zero_mul, Nat.zero_mod, Nat.zero_div]
      omega
    · obtain ⟨hlong, hpart⟩ := frame_lt_part hlimit hn hzero hmin
      have hmod : n % 2 ^ k = n := by
        have := Nat.div_add_mod n (2 ^ k)
        rwa [hzero, Nat.mul_zero, Nat.zero_add] at this
      rw [hmod]
      omega
  · have hn : 1 ≤ n := Nat.lt_of_lt_of_le hpos (Nat.div_le_self _ _)
    rw [formatNbs_add_one hpos (hfit.2.trans hlimit')]
    rcases Nat.lt_or_ge (n * fs) 65536 with hlt | hge
    · rw [part_eq_iff (Nat.le_of_lt_succ hlt)]
      omega
    · exact iff_of_false (long_period_not_described hfs' hlimit hk hfit hmin ht hge hpos)
        fun h => by omega

/-- Periods of `n` frames that are split into packets of exactly the frames they declare. -/
def FillsPackets (limit n fs : Nat) : Prop :=
  1 ≤ n ∧ n * fs ≤ 65535 ∧ ∃ k, PartFits limit n fs k ∧ (∀ j, j < k → ¬PartFits limit n fs j) ∧
    fs * (n % 2 ^ k) < 2 ^ k

/-- Only one number of halvings is the fewest. -/
theorem PartFits.fewest {j : Nat} (hfit : PartFits limit n fs k)
    (hmin : ∀ j, j < k → ¬PartFits limit n fs j) (hfit' : PartFits limit n fs j)
    (hmin' : ∀ i, i < j → ¬PartFits limit n fs i) : j = k :=
  (Nat.not_lt.mp fun h => hmin' k h hfit).antisymm (Nat.not_lt.mp fun h => hmin j h hfit')

theorem fillsPackets_iff (hfit : PartFits limit n fs k)
    (hmin : ∀ j, j < k → ¬PartFits limit n fs j) :
    FillsPackets limit n fs ↔ 1 ≤ n ∧ n * fs ≤ 65535 ∧ fs * (n % 2 ^ k) < 2 ^ k := by
  constructor
  · rintro ⟨hn, hlen, j, hfit', hmin', hrest⟩
    obtain rfl : j = k := hfit.fewest hmin hfit' hmin'
    exact ⟨hn, hlen, hrest⟩
  · rintro ⟨hn, hlen, hrest⟩
    exact ⟨hn, hlen, k, hfit, hmin, hrest⟩

/-- Periods of `n` frames that fill packets of which each has `room` bytes left. -/
def LeavesRoom (room limit n fs : Nat) : Prop :=
  FillsPackets limit n fs ∧ ∃ k, PartFits limit n fs k ∧
    (∀ j, j < k → ¬PartFits limit n fs j) ∧ n * fs / 2 ^ k + room ≤ vbanDataMaxSize

theorem leavesRoom_iff {room : Nat} (hfit : PartFits limit n fs k)
    (hmin : ∀ j, j < k → ¬PartFits limit n fs j) : LeavesRoom room limit n fs ↔
      FillsPackets limit n fs ∧ n * fs / 2 ^ k + room ≤ vbanDataMaxSize := by
  refine and_congr_right' ⟨?_, fun h => ⟨k, hfit, hmin, h⟩⟩
  rintro ⟨j, hfit', hmin', hroom⟩
  obtain rfl : j = k := hfit.fewest hmin hfit' hmin'
  exact hroom

end Vban
