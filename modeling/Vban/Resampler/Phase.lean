import Mathlib.Data.Nat.Count
import Vban.Library.Double

/-! How `VResampler` counts its frames. A `double` is a rational number, and `round` is what each
operation does to its result. -/
namespace Vban

open Library

def nphase : Nat := 120

/-- Where the next frame of the output lies: the frames of the input that are read before it, its
place behind them, and the last step. -/
structure Phase where
  nread : Nat
  phase : ℚ
  pstep : ℚ

namespace Phase

/-- The step moves towards the one that is asked for. -/
def nextStep (round : ℚ → ℚ) (qstep wstep : ℚ) (s : Phase) : ℚ :=
  let dd := round (qstep - s.pstep)
  if |dd| < round (1 / 10 ^ 20) then qstep else round (s.pstep + round (wstep * dd))

/-- The next frame of the output, once all before this one has been read. -/
def next (round : ℚ → ℚ) (np : Nat) (qstep wstep : ℚ) (s : Phase) : Phase :=
  let dp := s.nextStep round qstep wstep
  let ph := round (s.phase + dp)
  if ph ≥ np then
    let nr := ⌊round (ph / np)⌋₊
    ⟨nr, round (ph - nr * np), dp⟩
  else ⟨0, ph, dp⟩

/-- How far the input is read for frame `k` of the output. -/
def reach (round : ℚ → ℚ) (np : Nat) (qstep wstep : ℚ) : Nat → Phase → Nat
  | 0, s => s.nread
  | k + 1, s => s.nread + reach round np qstep wstep k (s.next round np qstep wstep)

/-- How many of `outCount` frames of the output some input reaches. -/
def produced (round : ℚ → ℚ) (np : Nat) (qstep wstep : ℚ) (inpCount outCount : Nat) (s : Phase) :
    Nat :=
  Nat.count (fun k => s.reach round np qstep wstep k ≤ inpCount) outCount

variable {round : ℚ → ℚ} {np : Nat} {qstep wstep : ℚ} {s : Phase} {inpCount outCount k : Nat}

/-- The first frame takes what is to be read before it. -/
theorem nread_le_reach (k : Nat) : s.nread ≤ s.reach round np qstep wstep k := by
  cases k with
  | zero => exact Nat.le_refl _
  | succ k => exact Nat.le_add_right _ _

theorem produced_of_lt (h : inpCount < s.nread) :
    s.produced round np qstep wstep inpCount outCount = 0 :=
  Nat.count_of_forall_not fun k _ => not_le.mpr (h.trans_le (nread_le_reach k))

/-- A frame, and those that the rest of the input reaches. -/
theorem produced_succ (h : s.nread ≤ inpCount) :
    s.produced round np qstep wstep inpCount (outCount + 1) =
      (s.next round np qstep wstep).produced round np qstep wstep (inpCount - s.nread) outCount +
        1 := by
  have hfirst : s.reach round np qstep wstep 0 ≤ inpCount := h
  have hrest : ∀ k, s.reach round np qstep wstep (k + 1) ≤ inpCount ↔
      (s.next round np qstep wstep).reach round np qstep wstep k ≤ inpCount - s.nread :=
    fun k => (Nat.le_sub_iff_add_le' h).symm
  rw [produced, Nat.count_succ', if_pos hfirst, produced]
  congr 2
  exact funext fun k => propext (hrest k)

theorem produced_le : s.produced round np qstep wstep inpCount outCount ≤ outCount :=
  Nat.count_le _

/-- Steps that stay where they are read the same for each frame. -/
theorem reach_of_next_eq (h : s.next round np qstep wstep = s) (k : Nat) :
    s.reach round np qstep wstep k = (k + 1) * s.nread := by
  induction k with
  | zero => exact (Nat.one_mul _).symm
  | succ k ih => rw [reach, h, ih, Nat.succ_mul (k + 1), Nat.add_comm]

/-- A frame of the input for each frame of the output. -/
theorem next_of_one (hround : Rounding round) (hpos : 0 < np) (hnp : np < 2 ^ 53) :
    next round np np 1 ⟨1, 0, np⟩ = ⟨1, 0, np⟩ := by
  have hne : (np : ℚ) ≠ 0 := Nat.cast_ne_zero.mpr hpos.ne'
  have hstep : nextStep round np 1 ⟨1, 0, np⟩ = np := by
    simp only [nextStep, sub_self, hround.zero, one_mul, add_zero, hround.natCast np hnp, ite_self]
  simp only [next, hstep, zero_add, hround.natCast np hnp, ge_iff_le, le_refl, if_true,
    div_self hne, hround.one, Nat.floor_one, Nat.cast_one, one_mul, sub_self, hround.zero]

/-- The phase is less than a frame of the input. -/
structure InFrame (np : Nat) (s : Phase) : Prop where
  nonneg : 0 ≤ s.phase
  lt : s.phase < np

theorem InFrame.np_pos (h : s.InFrame np) : 0 < (np : ℚ) := h.nonneg.trans_lt h.lt

/-- What holds between two frames: no step is longer than `span` frames of the input, and the one
that is asked for is at most half as long. -/
structure Paced (round : ℚ → ℚ) (np span : Nat) (qstep wstep : ℚ) (s : Phase) : Prop where
  size_lt : (span + 1) * np < 2 ^ 53
  inFrame : s.InFrame np
  pstep_eq : round s.pstep = s.pstep
  pstep_nonneg : 0 ≤ s.pstep
  pstep_le : s.pstep ≤ span * np
  qstep_eq : round qstep = qstep
  qstep_nonneg : 0 ≤ qstep
  qstep_le : 2 * qstep ≤ span * np
  wstep_nonneg : 0 ≤ wstep
  wstep_le : wstep ≤ 1

variable {span : Nat}

theorem Paced.withPhase (h : s.Paced round np span qstep wstep) (nread : Nat) {phase : ℚ}
    (hnonneg : 0 ≤ phase) (hlt : phase < np) :
    Paced round np span qstep wstep ⟨nread, phase, s.pstep⟩ :=
  ⟨h.size_lt, ⟨hnonneg, hlt⟩, h.pstep_eq, h.pstep_nonneg, h.pstep_le, h.qstep_eq, h.qstep_nonneg,
    h.qstep_le, h.wstep_nonneg, h.wstep_le⟩

/-- What is to be read is no part of it. -/
theorem Paced.withNread (h : s.Paced round np span qstep wstep) (nread : Nat) :
    Paced round np span qstep wstep ⟨nread, s.phase, s.pstep⟩ :=
  h.withPhase nread h.inFrame.nonneg h.inFrame.lt

theorem Paced.withWstep (h : s.Paced round np span qstep wstep) {wstep' : ℚ} (hnonneg : 0 ≤ wstep')
    (hle : wstep' ≤ 1) : s.Paced round np span qstep wstep' :=
  ⟨h.size_lt, h.inFrame, h.pstep_eq, h.pstep_nonneg, h.pstep_le, h.qstep_eq, h.qstep_nonneg,
    h.qstep_le, hnonneg, hle⟩

theorem Paced.withQstep (h : s.Paced round np span qstep wstep) {qstep' : ℚ}
    (hfixed : round qstep' = qstep') (hnonneg : 0 ≤ qstep') (hle : 2 * qstep' ≤ span * np) :
    s.Paced round np span qstep' wstep :=
  ⟨h.size_lt, h.inFrame, h.pstep_eq, h.pstep_nonneg, h.pstep_le, hfixed, hnonneg, hle,
    h.wstep_nonneg, h.wstep_le⟩

/-- A step for a ratio that is not much less than the one the filter is made for. -/
theorem step_le (hround : Rounding round) {ratio d : ℚ} (hratio : 0 < ratio)
    (hd : 3 / 4 * ratio ≤ d) (hd' : d ≤ 2 ^ 13) (hnp : 0 < np) (hspan : 3 / ratio ≤ span) :
    0 ≤ round (np / d) ∧ 2 * round (np / d) ≤ span * np := by
  have hpos : 0 < d := lt_of_lt_of_le (mul_pos (by norm_num) hratio) hd
  have hone : (1 : ℚ) ≤ np := by exact_mod_cast hnp
  have hleast : 1 / 2 ^ 53 ≤ (np : ℚ) / d := by
    rw [div_le_div_iff₀ (by norm_num) hpos]
    linarith
  refine ⟨hround.nonneg (div_nonneg (Nat.cast_nonneg np) hpos.le), ?_⟩
  have hstep : (np : ℚ) / d ≤ np / (3 / 4 * ratio) :=
    div_le_div_of_nonneg_left (Nat.cast_nonneg np) (mul_pos (by norm_num) hratio) hd
  have hthird : (np : ℚ) / (3 / 4 * ratio) = 4 / 9 * (3 / ratio * np) := by
    field_simp
    norm_num
  have hlong : 3 / ratio * np ≤ span * np := mul_le_mul_of_nonneg_right hspan (Nat.cast_nonneg np)
  have hspan' : (0 : ℚ) ≤ span * np := by positivity
  calc 2 * round (np / d) ≤ 2 * (17 / 16 * (np / d)) := by linarith [(hround.near hleast).2]
    _ ≤ 17 / 18 * (3 / ratio * np) := by linarith
    _ ≤ span * np := by linarith

/-- The next step is not negative, and not too long. -/
theorem Paced.nextStep (hround : Rounding round) (h : s.Paced round np span qstep wstep) :
    round (s.nextStep round qstep wstep) = s.nextStep round qstep wstep ∧
      0 ≤ s.nextStep round qstep wstep ∧ s.nextStep round qstep wstep ≤ span * np := by
  obtain ⟨hsize, -, hp, hp0, hple, hq, hq0, hqle, hw0, hw1⟩ := h
  have hbound : span * np < 2 ^ 53 :=
    (Nat.mul_le_mul_right np (Nat.le_succ span)).trans_lt hsize
  have hdown : -s.pstep ≤ wstep * round (qstep - s.pstep) := by
    have hdd : -s.pstep ≤ round (qstep - s.pstep) := by
      apply hround.ge_of_ge
      · rw [hround.neg, hp]
      · linarith
    rcases le_total 0 (round (qstep - s.pstep)) with hpos | hneg
    · exact (neg_nonpos.mpr hp0).trans (mul_nonneg hw0 hpos)
    · exact hdd.trans (le_mul_of_le_one_left hneg hw1)
  have hup : s.pstep + round (wstep * round (qstep - s.pstep)) ≤ span * np := by
    rcases le_total qstep s.pstep with hle | hle
    · have hdd := hround.nonpos (sub_nonpos.mpr hle)
      have hmove := hround.nonpos (mul_nonpos_of_nonneg_of_nonpos hw0 hdd)
      linarith
    · have hdd : round (qstep - s.pstep) ≤ qstep := hround.le_of_le hq (by linarith)
      have hdd0 := hround.nonneg (sub_nonneg.mpr hle)
      have hmove : round (wstep * round (qstep - s.pstep)) ≤ qstep :=
        hround.le_of_le hq ((mul_le_of_le_one_left hdd0 hw1).trans hdd)
      linarith
  simp only [Phase.nextStep]
  split_ifs
  · exact ⟨hq, hq0, by linarith⟩
  · refine ⟨hround.round_round _, hround.nonneg ?_, ?_⟩
    · have hmove := hround.ge_of_ge (by rw [hround.neg, hp]) hdown
      linarith
    · have hle := hround.le_natCast hbound (by exact_mod_cast hup)
      exact_mod_cast hle

/-- The next frame lies where exact arithmetic divides the phase. -/
theorem Paced.next_eq (hround : Rounding round) (h : s.Paced round np span qstep wstep) :
    let ph := round (s.phase + s.nextStep round qstep wstep)
    0 ≤ ph ∧ ph ≤ (span + 1 : Nat) * np ∧ s.next round np qstep wstep =
      ⟨⌊ph / np⌋₊, ph - ⌊ph / np⌋₊ * np, s.nextStep round qstep wstep⟩ := by
  obtain ⟨-, hdp, hdple⟩ := h.nextStep hround
  have hnp : 0 < np := Nat.cast_pos.mp h.inFrame.np_pos
  have hph : 0 ≤ round (s.phase + s.nextStep round qstep wstep) :=
    hround.nonneg (add_nonneg h.inFrame.nonneg hdp)
  have hle : round (s.phase + s.nextStep round qstep wstep) ≤ ((span + 1) * np : Nat) := by
    apply hround.le_natCast h.size_lt
    have hlt := h.inFrame.lt
    push_cast
    linarith
  have hsize : ((((span + 1) * np : Nat)) : ℚ) < 2 ^ 53 := by exact_mod_cast h.size_lt
  refine ⟨hph, by exact_mod_cast hle, ?_⟩
  have hfixed := hround.round_round (s.phase + s.nextStep round qstep wstep)
  simp only [Phase.next]
  split_ifs with hge
  · rw [hround.floor_div _ _ hfixed hph (hle.trans_lt hsize) hnp,
      hround.sub_floor _ _ hfixed hph (hle.trans_lt hsize) hnp]
  · have hzero : ⌊round (s.phase + s.nextStep round qstep wstep) / np⌋₊ = 0 :=
      Nat.floor_eq_zero.mpr ((div_lt_one h.inFrame.np_pos).mpr (not_le.mp hge))
    rw [hzero, Nat.cast_zero, zero_mul, sub_zero]

/-- So the phase stays less than a frame, and the filter is long enough for what is read. -/
theorem Paced.next (hround : Rounding round) (h : s.Paced round np span qstep wstep) :
    (s.next round np qstep wstep).Paced round np span qstep wstep ∧
      (s.next round np qstep wstep).nread ≤ span + 1 := by
  obtain ⟨hfixed, hdp, hdple⟩ := h.nextStep hround
  obtain ⟨hph, hle, heq⟩ := h.next_eq hround
  have hnp := h.inFrame.np_pos
  have hfloor := Nat.floor_le (div_nonneg hph hnp.le)
  have hfloor' := Nat.lt_floor_add_one
    (round (s.phase + s.nextStep round qstep wstep) / (np : ℚ))
  have hnread : ⌊round (s.phase + s.nextStep round qstep wstep) / np⌋₊ ≤ span + 1 := by
    apply Nat.floor_le_of_le
    rwa [div_le_iff₀ hnp]
  rw [le_div_iff₀ hnp] at hfloor
  rw [div_lt_iff₀ hnp] at hfloor'
  rw [heq]
  exact ⟨⟨h.size_lt, ⟨by simp only; linarith, by simp only; linarith⟩, hfixed, hdp, hdple,
    h.qstep_eq, h.qstep_nonneg, h.qstep_le, h.wstep_nonneg, h.wstep_le⟩, hnread⟩

/-! With exact arithmetic the positions of the frames are equally far apart. -/

/-- The place of the next frame, counted in frames of the input from the next one to read on. -/
def position (np : Nat) (s : Phase) : ℚ := s.nread + s.phase / np

/-- Without a filter on it, the step is the one that is asked for. -/
theorem nextStep_id (s : Phase) : s.nextStep id qstep 1 = qstep := by
  simp only [nextStep, id]
  split_ifs
  · rfl
  · rw [one_mul, add_sub_cancel]

theorem InFrame.floor_position (h : s.InFrame np) : ⌊s.position np⌋₊ = s.nread := by
  have hfract : s.phase / np < 1 := (div_lt_one h.np_pos).mpr h.lt
  have hnonneg : 0 ≤ s.phase / np := div_nonneg h.nonneg h.np_pos.le
  rw [position, Nat.floor_eq_iff (add_nonneg (Nat.cast_nonneg _) hnonneg)]
  exact ⟨le_add_of_nonneg_right hnonneg, by linarith⟩

/-- A frame of the output is the step behind the one before it. -/
theorem InFrame.next (h : s.InFrame np) (hq : 0 ≤ qstep) :
    (s.next id np qstep 1).InFrame np ∧
      (s.next id np qstep 1).position np = s.position np + qstep / np - s.nread := by
  have hnp := h.np_pos
  have hsum : 0 ≤ s.phase + qstep := add_nonneg h.nonneg hq
  have hplace : s.position np + qstep / np - s.nread = (s.phase + qstep) / np := by
    rw [position]
    ring
  simp only [Phase.next, nextStep_id, id, hplace]
  split_ifs with hge
  · have hfloor := Nat.floor_le (div_nonneg hsum hnp.le)
    have hfloor' := Nat.lt_floor_add_one ((s.phase + qstep) / np)
    rw [le_div_iff₀ hnp] at hfloor
    rw [div_lt_iff₀ hnp] at hfloor'
    refine ⟨⟨by simp only; linarith, by simp only; linarith⟩, ?_⟩
    rw [position]
    field_simp
    ring
  · exact ⟨⟨hsum, not_le.mp hge⟩, by rw [position, Nat.cast_zero, zero_add]⟩

theorem InFrame.reach_eq (h : s.InFrame np) (hq : 0 ≤ qstep) (k : Nat) :
    s.reach id np qstep 1 k = ⌊s.position np + k * (qstep / np)⌋₊ := by
  induction k generalizing s with
  | zero => rw [Nat.cast_zero, zero_mul, add_zero, h.floor_position, reach]
  | succ k ih =>
    obtain ⟨hnext, hposition⟩ := h.next hq
    have hplace : s.position np + (k + 1 : Nat) * (qstep / np) =
        (s.next id np qstep 1).position np + k * (qstep / np) + s.nread := by
      rw [hposition]
      push_cast
      ring
    have hnonneg : 0 ≤ (s.next id np qstep 1).position np + k * (qstep / np) :=
      add_nonneg (add_nonneg (Nat.cast_nonneg _) (div_nonneg hnext.nonneg h.np_pos.le))
        (mul_nonneg (Nat.cast_nonneg _) (div_nonneg hq h.np_pos.le))
    rw [reach, ih hnext, hplace, Nat.floor_add_natCast hnonneg, Nat.add_comm]

end Phase

end Vban
