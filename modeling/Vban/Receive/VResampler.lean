import Vban.Resampler.Phase
import Vban.Receive.Context

/-! `VResampler`: what it reads, counts and writes. The delay lines with their coefficients are a
parameter, and how results are rounded. -/
namespace Vban

open Library

/-- The arithmetic of `double`, the delay lines of all channels, where they are read, and the
coefficients. -/
structure ResamplerFilter (M : Type) where
  round : ℚ → ℚ
  /-- A frame of the input goes in, or silence. -/
  store : M → Option (List CFloat) → M
  sample : M → (phase : ℚ) → (channel : Nat) → CFloat
  advance : M → (nr : Nat) → M

/-- Nothing is rounded. -/
def ResamplerFilter.Exact {M : Type} (filter : ResamplerFilter M) : Prop := filter.round = id

/-- The members of the class, and those of its table. -/
structure VResampler (M : Type) extends Phase where
  nchan : Nat
  hl : Nat
  np : Nat
  ratio : ℚ
  qstep : ℚ
  wstep : ℚ
  inpCount : Nat
  outCount : Nat
  inpData : Option (List CFloat)
  /-- `out_data` is not null. -/
  outData : Bool
  memory : M

namespace VResampler

variable {M : Type}

/-- `none` stands for the status 1. -/
def setup (round : ℚ → ℚ) (ratio : ℚ) (nchan hlen : Nat) (memory : M) : Option (VResampler M) :=
  if nchan = 0 ∨ hlen < 8 ∨ hlen > 96 ∨ 64 * ratio < 1 ∨ ratio > 256 then none
  else
    let dp := round (nphase / ratio)
    let hl := if ratio < 1 then ⌈round (hlen / ratio)⌉₊ else hlen
    some {
      nchan := nchan
      hl := hl
      np := nphase
      ratio := ratio
      nread := 2 * hl
      phase := 0
      pstep := dp
      qstep := dp
      wstep := 1
      inpCount := 0
      outCount := 0
      inpData := none
      outData := false
      memory := memory }

def setRratio (round : ℚ → ℚ) (v : VResampler M) (r : ℚ) : VResampler M :=
  let r := if r > 16 then 16 else r
  let r := if r < round (95 / 100) then round (95 / 100) else r
  { v with qstep := round (v.np / round (v.ratio * r)) }

/-- One turn of the loop that reads the input. -/
def readFrame (filter : ResamplerFilter M) (v : VResampler M) : VResampler M :=
  { v with
    memory := filter.store v.memory (v.inpData.map fun data => data.take v.nchan)
    inpData := v.inpData.map fun data => data.drop v.nchan
    nread := v.nread - 1
    inpCount := v.inpCount - 1 }

def readFrames (filter : ResamplerFilter M) : Nat → VResampler M → VResampler M
  | 0, v => v
  | n + 1, v => readFrames filter n (v.readFrame filter)

/-- A frame of the output, and the step to the next one. Nothing is left to read before. -/
def writeFrame (filter : ResamplerFilter M) (v : VResampler M) : VResampler M × List CFloat :=
  let frame := if v.outData then (List.range v.nchan).map (filter.sample v.memory v.phase) else []
  let next := v.toPhase.next filter.round v.np v.qstep v.wstep
  ({ v with
    toPhase := next
    memory := filter.advance v.memory next.nread }, frame)

/-- The loop over `out_count`. The inner one runs until the frames to read or the input are used
up. -/
def frames (filter : ResamplerFilter M) : Nat → VResampler M → VResampler M × List CFloat
  | 0, v => ({ v with outCount := 0 }, [])
  | outCount + 1, v =>
    let v := v.readFrames filter (min v.nread v.inpCount)
    if v.nread ≠ 0 then ({ v with outCount := outCount + 1 }, [])
    else
      let next := v.writeFrame filter
      let rest := frames filter outCount next.1
      (rest.1, next.2 ++ rest.2)

def process (filter : ResamplerFilter M) (v : VResampler M) : VResampler M × List CFloat :=
  frames filter v.outCount v

/-- The first call, on silence, that both receptors make. -/
def prefill (filter : ResamplerFilter M) (v : VResampler M) : VResampler M :=
  ({ v with
    inpCount := 2 * v.hl - 1
    inpData := none
    outCount := 999999
    outData := false }.process filter).1

/-- The resampler of a stream, with the half length that both receptors ask for. -/
def create (filter : ResamplerFilter M) (ratio : ℚ) (nchan : Nat) (memory : M) :
    Option (VResampler M) :=
  (setup filter.round ratio nchan 64 memory).map fun v => v.prefill filter

/-- The input and the room for the output, as `vban_rx_handle_packet` sets them. -/
def load (v : VResampler M) (inpData : List CFloat) (inpCount outCount : Nat) : VResampler M :=
  { v with
    inpCount := inpCount
    inpData := some inpData
    outCount := outCount
    outData := true }

/-- How far the input is read for frame `k` of the output. -/
def reach (round : ℚ → ℚ) (v : VResampler M) (k : Nat) : Nat :=
  v.toPhase.reach round v.np v.qstep v.wstep k

/-- How many of `outCount` frames of the output the input reaches. -/
def produced (round : ℚ → ℚ) (v : VResampler M) (outCount : Nat) : Nat :=
  v.toPhase.produced round v.np v.qstep v.wstep v.inpCount outCount

/-- The frames of the input for each frame of the output. -/
def stride (v : VResampler M) : ℚ := v.qstep / v.np

/-- Where the next frame of the output lies, counted in frames of the input from the next one to
read on. -/
def position (v : VResampler M) : ℚ := v.toPhase.position v.np

variable {filter : ResamplerFilter M} {v v' : VResampler M} {n k outCount nchan : Nat} {ratio : ℚ}

/-- What a number of turns of the reading loop changes. -/
theorem readFrames_eq (filter : ResamplerFilter M) (n : Nat) (v : VResampler M) :
    ∃ inpData memory, v.readFrames filter n = { v with
      nread := v.nread - n
      inpCount := v.inpCount - n
      inpData := inpData
      memory := memory } := by
  induction n generalizing v with
  | zero => exact ⟨_, _, rfl⟩
  | succ n ih =>
    obtain ⟨inpData, memory, h⟩ := ih (v.readFrame filter)
    refine ⟨inpData, memory, ?_⟩
    rw [readFrames, h, readFrame]
    simp only [Nat.sub_sub, Nat.add_comm 1 n]

/-- What the loop over the output comes to. -/
structure Processed (round : ℚ → ℚ) (v : VResampler M) (outCount : Nat) (v' : VResampler M)
    (out : List CFloat) : Prop where
  nchan_eq : v'.nchan = v.nchan
  np_eq : v'.np = v.np
  ratio_eq : v'.ratio = v.ratio
  qstep_eq : v'.qstep = v.qstep
  wstep_eq : v'.wstep = v.wstep
  outCount_eq : v'.outCount + v.produced round outCount = outCount
  length_eq : out.length = v.produced round outCount * if v.outData then v.nchan else 0
  /-- The last frame takes the input up to where it reaches; no frame takes none. -/
  inpCount_eq : ∀ k, outCount = k + 1 → v'.inpCount = v.inpCount - v.reach round k
  idle : outCount = 0 → v'.inpCount = v.inpCount

/-- The loop writes the frames that the input reaches. -/
theorem frames_processed (filter : ResamplerFilter M) (outCount : Nat) (v : VResampler M) :
    Processed filter.round v outCount (v.frames filter outCount).1
      (v.frames filter outCount).2 := by
  induction outCount generalizing v with
  | zero =>
    have hnone : v.produced filter.round 0 = 0 := rfl
    refine ⟨rfl, rfl, rfl, rfl, rfl, ?_, ?_, ?_, fun _ => rfl⟩
    · rw [hnone]
      rfl
    · rw [hnone, Nat.zero_mul]
      rfl
    · intro k hk
      cases hk
  | succ outCount ih =>
    obtain ⟨inpData, memory, hread⟩ := readFrames_eq filter (min v.nread v.inpCount) v
    rw [frames, hread]
    simp only
    by_cases hstop : v.inpCount < v.nread
    · have hnone : v.produced filter.round (outCount + 1) = 0 := Phase.produced_of_lt hstop
      rw [Nat.min_eq_right hstop.le, if_pos (Nat.sub_ne_zero_of_lt hstop), Nat.sub_self]
      refine ⟨rfl, rfl, rfl, rfl, rfl, ?_, ?_, fun k _ => ?_, fun hzero => by cases hzero⟩
      · rw [hnone]
      · rw [hnone, Nat.zero_mul]
        rfl
      · exact (Nat.sub_eq_zero_of_le (hstop.le.trans (Phase.nread_le_reach k))).symm
    · have hle := Nat.not_lt.mp hstop
      rw [Nat.min_eq_left hle, Nat.sub_self, if_neg (not_not_intro rfl)]
      obtain ⟨hnchan, hnp, hratio, hqstep, hwstep, hcount, hlength, hinp, hidle⟩ := ih
        (writeFrame filter { v with
          nread := 0
          inpCount := v.inpCount - v.nread
          inpData := inpData
          memory := memory }).1
      have hproduced : v.produced filter.round (outCount + 1) =
          (writeFrame filter { v with
            nread := 0
            inpCount := v.inpCount - v.nread
            inpData := inpData
            memory := memory }).1.produced filter.round outCount + 1 :=
        Phase.produced_succ hle
      refine ⟨hnchan, hnp, hratio, hqstep, hwstep, ?_, ?_, ?_, fun hzero => by cases hzero⟩
      · rw [hproduced, ← Nat.add_assoc, hcount]
      · rw [List.length_append, hlength, hproduced, Nat.succ_mul, Nat.add_comm]
        congr 1
        rw [writeFrame]
        simp only
        split_ifs
        · rw [List.length_map, List.length_range]
        · rfl
      · intro k hk
        obtain rfl := Nat.succ_injective hk
        cases outCount with
        | zero => exact hidle rfl
        | succ k =>
          refine (hinp k rfl).trans ?_
          exact Nat.sub_sub _ _ _

theorem process_processed (filter : ResamplerFilter M) (v : VResampler M) :
    Processed filter.round v v.outCount (v.process filter).1 (v.process filter).2 :=
  frames_processed filter v.outCount v

/-- The loop reads its whole input exactly if the last frame that is allowed takes all of it. -/
theorem Processed.inpCount_eq_zero_iff {round : ℚ → ℚ} {out : List CFloat}
    (h : Processed round v (k + 1) v' out) : v'.inpCount = 0 ↔ v.inpCount ≤ v.reach round k := by
  rw [h.inpCount_eq k rfl, Nat.sub_eq_zero_iff_le]

/-- The phase is less than a frame of the input, and the filter of the ratio is off. -/
structure Phased (v : VResampler M) : Prop where
  inFrame : v.toPhase.InFrame v.np
  qstep_pos : 0 < v.qstep
  ratio_pos : 0 < v.ratio
  wstep_eq : v.wstep = 1

theorem Phased.reach_eq (h : v.Phased) (k : Nat) :
    v.reach id k = ⌊v.position + k * v.stride⌋₊ := by
  rw [reach, h.wstep_eq, h.inFrame.reach_eq h.qstep_pos.le]
  rfl

theorem Phased.frames (hexact : filter.Exact) (h : v.Phased) :
    (v.frames filter outCount).1.Phased := by
  induction outCount generalizing v with
  | zero => exact ⟨h.inFrame, h.qstep_pos, h.ratio_pos, h.wstep_eq⟩
  | succ outCount ih =>
    obtain ⟨inpData, memory, hread⟩ := readFrames_eq filter (min v.nread v.inpCount) v
    obtain ⟨hframe, hqstep, hratio, hwstep⟩ := h
    rw [VResampler.frames, hread]
    simp only
    split_ifs with hmore
    · exact ⟨⟨hframe.nonneg, hframe.lt⟩, hqstep, hratio, hwstep⟩
    · refine ih ⟨?_, hqstep, hratio, hwstep⟩
      have hzero : Phase.InFrame v.np ⟨v.nread - min v.nread v.inpCount, v.phase, v.pstep⟩ :=
        ⟨hframe.nonneg, hframe.lt⟩
      have hnext := (hzero.next hqstep.le).1
      rw [← hexact, ← hwstep] at hnext
      exact hnext

/-- A resampler in use. -/
structure Running (filter : ResamplerFilter M) (v : VResampler M) (nchan : Nat) : Prop where
  nchan_pos : 0 < nchan
  nchan_eq : v.nchan = nchan
  phased : filter.Exact → v.Phased

theorem Running.load (h : Running filter v nchan) (inpData : List CFloat)
    (inpCount outCount : Nat) : Running filter (v.load inpData inpCount outCount) nchan :=
  ⟨h.nchan_pos, h.nchan_eq, fun hexact =>
    ⟨(h.phased hexact).inFrame, (h.phased hexact).qstep_pos, (h.phased hexact).ratio_pos,
      (h.phased hexact).wstep_eq⟩⟩

theorem Running.process (h : Running filter v nchan) :
    Running filter (v.process filter).1 nchan :=
  ⟨h.nchan_pos, (process_processed filter v).nchan_eq.trans h.nchan_eq,
    fun hexact => (h.phased hexact).frames hexact⟩

theorem Running.setRratio (h : Running filter v nchan) (r : ℚ) :
    Running filter (v.setRratio filter.round r) nchan := by
  refine ⟨h.nchan_pos, h.nchan_eq, fun hexact => ?_⟩
  obtain ⟨hframe, -, hratio, hwstep⟩ := h.phased hexact
  refine ⟨hframe, ?_, hratio, hwstep⟩
  have hr : (0 : ℚ) < if (if r > 16 then 16 else r) < 95 / 100 then 95 / 100
      else if r > 16 then 16 else r := by
    split_ifs <;> linarith
  rw [VResampler.setRratio, hexact]
  exact div_pos hframe.np_pos (mul_pos hratio hr)

/-- A resampler that was set up reads its whole delay line first. -/
theorem setup_spec {round : ℚ → ℚ} {hlen : Nat} {memory : M}
    (h : setup round ratio nchan hlen memory = some v) :
    0 < nchan ∧ 0 < ratio ∧ ∃ hl, v = {
      nchan := nchan
      hl := hl
      np := nphase
      ratio := ratio
      nread := 2 * hl
      phase := 0
      pstep := round (nphase / ratio)
      qstep := round (nphase / ratio)
      wstep := 1
      inpCount := 0
      outCount := 0
      inpData := none
      outData := false
      memory := memory } ∧ hl = if ratio < 1 then ⌈round (hlen / ratio)⌉₊ else hlen := by
  rw [setup] at h
  by_cases hrefused : nchan = 0 ∨ hlen < 8 ∨ hlen > 96 ∨ 64 * ratio < 1 ∨ ratio > 256
  · rw [if_pos hrefused] at h
    cases h
  · rw [if_neg hrefused] at h
    simp only [not_or, not_lt] at hrefused
    exact ⟨Nat.pos_of_ne_zero hrefused.1, by linarith, _, (Option.some.inj h).symm, rfl⟩

/-- Which streams get a resampler. -/
theorem create_isSome (filter : ResamplerFilter M) (memory : M) (hnchan : nchan ≠ 0)
    (hmin : 1 ≤ 64 * ratio) (hmax : ratio ≤ 256) :
    ∃ v, create filter ratio nchan memory = some v := by
  have hrefused : ¬(nchan = 0 ∨ 64 < 8 ∨ 64 > 96 ∨ 64 * ratio < 1 ∨ ratio > 256) := by
    simp only [not_or, not_lt]
    exact ⟨hnchan, by decide, by decide, hmin, hmax⟩
  rw [create, setup, if_neg hrefused]
  exact ⟨_, rfl⟩

theorem create_running {memory : M} (h : create filter ratio nchan memory = some v) :
    Running filter v nchan := by
  obtain ⟨u, hu, rfl⟩ := Option.map_eq_some_iff.mp h
  obtain ⟨hnchan, hratio, hl, rfl, -⟩ := setup_spec hu
  refine Running.process ⟨hnchan, rfl, fun hexact => ?_⟩
  have hnp : (0 : ℚ) < nphase := by norm_num [nphase]
  refine ⟨⟨le_rfl, hnp⟩, ?_, hratio, rfl⟩
  rw [hexact]
  exact div_pos hnp hratio

/-- The resampler of a stream has one frame to read before it writes the first one. -/
theorem create_spec {memory : M} (h : create filter ratio nchan memory = some v)
    (hround : ratio < 1 → 0 < filter.round (64 / ratio)) :
    v.toPhase = ⟨1, 0, filter.round (nphase / ratio)⟩ ∧ v.np = nphase ∧
      v.qstep = filter.round (nphase / ratio) ∧ v.wstep = 1 := by
  obtain ⟨u, hu, rfl⟩ := Option.map_eq_some_iff.mp h
  obtain ⟨-, -, hl, rfl, hlen⟩ := setup_spec hu
  have hpos : 0 < hl := by
    rw [hlen]
    split_ifs with hone
    · exact Nat.ceil_pos.mpr (by exact_mod_cast hround hone)
    · decide
  rw [prefill, process]
  obtain ⟨inpData, memory', hread⟩ := readFrames_eq filter (min (2 * hl) (2 * hl - 1))
    { nchan := nchan
      hl := hl
      np := nphase
      ratio := ratio
      nread := 2 * hl
      phase := 0
      pstep := filter.round (nphase / ratio)
      qstep := filter.round (nphase / ratio)
      wstep := 1
      inpCount := 2 * hl - 1
      outCount := 999999
      inpData := none
      outData := false
      memory := memory }
  have hleft : 2 * hl - min (2 * hl) (2 * hl - 1) = 1 := by omega
  rw [show (999999 : Nat) = 999998 + 1 from rfl, frames]
  simp only [hread, hleft, ne_eq, one_ne_zero, not_false_eq_true, if_true, and_self]

end VResampler

/-- The receive path with `VResampler`. -/
def VResampler.rxEnv {M : Type} (ofInt : Int → CFloat) (div : CFloat → CFloat → CFloat)
    (filter : ResamplerFilter M) : RxEnv (VResampler M) where
  ofInt := ofInt
  div := div
  process := fun v inpData inpCount outCount =>
    let r := (v.load inpData inpCount outCount).process filter
    ⟨r.1, r.1.outCount, r.2⟩

end Vban
