import Mathlib.Algebra.Order.Ring.Rat
import Mathlib.Tactic.Linarith
import Mathlib.Tactic.NormNum
import Vban.Library.Arithmetic
import Vban.Library.Run

/-! The drift controllers of the receivers, in exact arithmetic. -/
namespace Vban.Playback

open Library

/-- The fields of `vban_stream_context_t` that the controller uses. -/
structure DriftContext where
  nframes : Int
  cframes : Int
  lagrangeNum : Int
  addDelayFrames : Int
  rbfill : Int
  rratio : Rat
  rratiof : Rat
  rbfillIntegral : Rat

/-- Returns the ratio and the integral. -/
def calcRbfillPi (rbfillNeeded rbfillReal : Int) (rbfIntegral weight kp ki : Rat) : Rat × Rat :=
  let rbfillDelta := rbfillNeeded - rbfillReal
  let rbfIntegral := rbfIntegral + rbfillDelta
  let rbfIntegral := if rbfIntegral > 1000 then 1000 else rbfIntegral
  let rbfIntegral := if rbfIntegral < -1000 then -1000 else rbfIntegral
  let ppm := weight * (kp * rbfillDelta + ki * rbfIntegral)
  (if ppm < 0 then 1 + ppm else 1 + 2 * ppm, rbfIntegral)

/-- The weight `w` that the source computes as well is not used. -/
def calcRatioCorrection (context : DriftContext) (rbfillTarget : Int) : DriftContext :=
  let rratiof := if |context.rratiof - 1| > 0.0025 then 1 else context.rratiof
  let rbfillPi :=
    calcRbfillPi rbfillTarget context.rbfill context.rbfillIntegral 0.0001 5 0.005
  let rratio := 0.99 * rratiof + 0.01 * rbfillPi.1
  { context with
    rratiof := rratiof
    rbfillIntegral := rbfillPi.2
    rratio := if rratio > 1.003 then 1.003 else if rratio < 0.998 then 0.998 else rratio }

/-- A reading from a cycle longer than the period is not taken. -/
def correctSamplerate (context : DriftContext) (framesize readSpace : Nat) : DriftContext :=
  let ust := context.cframes + context.nframes + context.lagrangeNum
  let context :=
    if context.cframes ≤ context.nframes then { context with rbfill := ↑(readSpace / framesize) }
    else context
  calcRatioCorrection context (ust + context.addDelayFrames)

/-- What one call of `calc_ratio_correction` reads. -/
structure DriftReading where
  rbfill : Int
  rbfillTarget : Int

def DriftContext.read (context : DriftContext) (reading : DriftReading) : DriftContext :=
  calcRatioCorrection { context with rbfill := reading.rbfill } reading.rbfillTarget

/-- The run with the less filled ring is to the left. -/
structure Fuller (s t : DriftContext) : Prop where
  rbfill : s.rbfill ≤ t.rbfill
  rratiof : s.rratiof = t.rratiof
  integral : t.rbfillIntegral ≤ s.rbfillIntegral
  rratio : t.rratio ≤ s.rratio

/-- The ratio and the integral are within their bounds. -/
def DriftContext.Bounded (s : DriftContext) : Prop :=
  (0.998 ≤ s.rratio ∧ s.rratio ≤ 1.003) ∧ -1000 ≤ s.rbfillIntegral ∧ s.rbfillIntegral ≤ 1000

variable {s t : DriftContext} {target : Int}

theorem calcRbfillPi_snd (needed real : Int) (integral weight kp ki : Rat) :
    (calcRbfillPi needed real integral weight kp ki).2 =
      limit (-1000) 1000 (integral + ↑(needed - real)) :=
  ite_ite_eq_limit (by norm_num)

/-- The gain changes its slope at zero, not its sign. -/
theorem gain_mono {x y : Rat} (h : x ≤ y) :
    (if x < 0 then 1 + x else 1 + 2 * x) ≤ if y < 0 then 1 + y else 1 + 2 * y := by
  split_ifs <;> linarith

/-- A fuller ring and a smaller integral give a smaller integral and a smaller ratio. -/
theorem calcRbfillPi_le (needed : Int) {real real' : Int} {integral integral' weight kp ki : Rat}
    (hweight : 0 ≤ weight) (hkp : 0 ≤ kp) (hki : 0 ≤ ki) (hreal : real ≤ real')
    (hintegral : integral' ≤ integral) :
    (calcRbfillPi needed real' integral' weight kp ki).1 ≤
        (calcRbfillPi needed real integral weight kp ki).1 ∧
      (calcRbfillPi needed real' integral' weight kp ki).2 ≤
        (calcRbfillPi needed real integral weight kp ki).2 := by
  have hdelta : (↑(needed - real') : Rat) ≤ ↑(needed - real) := Int.cast_le.mpr (by omega)
  have hsnd : (calcRbfillPi needed real' integral' weight kp ki).2 ≤
      (calcRbfillPi needed real integral weight kp ki).2 := by
    rw [calcRbfillPi_snd, calcRbfillPi_snd]
    exact limit_mono (add_le_add hintegral hdelta)
  refine ⟨gain_mono ?_, hsnd⟩
  apply mul_le_mul_of_nonneg_left _ hweight
  exact add_le_add (mul_le_mul_of_nonneg_left hdelta hkp) (mul_le_mul_of_nonneg_left hsnd hki)

theorem calcRatioCorrection_rratio (s : DriftContext) (target : Int) :
    (calcRatioCorrection s target).rratio =
      limit 0.998 1.003 (0.99 * (calcRatioCorrection s target).rratiof +
        0.01 * (calcRbfillPi target s.rbfill s.rbfillIntegral 0.0001 5 0.005).1) :=
  ite_eq_limit (by norm_num)

theorem calcRatioCorrection_integral (s : DriftContext) (target : Int) :
    (calcRatioCorrection s target).rbfillIntegral =
      (calcRbfillPi target s.rbfill s.rbfillIntegral 0.0001 5 0.005).2 :=
  rfl

theorem calcRatioCorrection_bounded (s : DriftContext) (target : Int) :
    (calcRatioCorrection s target).Bounded := by
  rw [DriftContext.Bounded, calcRatioCorrection_rratio, calcRatioCorrection_integral,
    calcRbfillPi_snd]
  exact ⟨limit_mem (by norm_num) _, limit_mem (by norm_num) _⟩

/-- One call at the same target keeps the order. -/
theorem Fuller.correction (h : Fuller s t) (target : Int) :
    Fuller (calcRatioCorrection s target) (calcRatioCorrection t target) := by
  have hrratiof : (calcRatioCorrection s target).rratiof =
      (calcRatioCorrection t target).rratiof := by
    simp only [calcRatioCorrection, h.rratiof]
  have hweight : (0 : Rat) ≤ 0.0001 := by norm_num
  have hkp : (0 : Rat) ≤ 5 := by norm_num
  have hki : (0 : Rat) ≤ 0.005 := by norm_num
  obtain ⟨hratio, hintegral⟩ :=
    calcRbfillPi_le target hweight hkp hki h.rbfill h.integral
  refine ⟨h.rbfill, hrratiof, hintegral, ?_⟩
  rw [calcRatioCorrection_rratio, calcRatioCorrection_rratio, hrratiof]
  exact limit_mono (by linarith)

theorem Fuller.refl (s : DriftContext) : Fuller s s := ⟨le_rfl, rfl, le_rfl, le_rfl⟩

/-- Readings of which the second ones are from a fuller ring, at the same targets. -/
def FullerReadings : List DriftReading → List DriftReading → Prop :=
  List.Forall₂ fun x y => x.rbfill ≤ y.rbfill ∧ x.rbfillTarget = y.rbfillTarget

/-- The states of a run: the first one, and one after each call. -/
def DriftContext.states (context : DriftContext) (readings : List DriftReading) :
    List DriftContext :=
  readings.scanl DriftContext.read context

theorem states_bounded (context : DriftContext) (readings : List DriftReading) :
    ∀ s ∈ (context.states readings).tail, s.Bounded :=
  forall_mem_tail_scanl fun _ reading => calcRatioCorrection_bounded _ reading.rbfillTarget

/-- A fuller ring never makes the resampler produce more, over runs of any length. -/
theorem ratio_correction_ordered (context : DriftContext) {xs ys : List DriftReading}
    (h : FullerReadings xs ys) :
    List.Forall₂ (fun s t : DriftContext =>
        t.rratio ≤ s.rratio ∧ t.rbfillIntegral ≤ s.rbfillIntegral)
      (context.states xs) (context.states ys) ∧
    (∀ s ∈ (context.states xs).tail, s.Bounded) ∧ ∀ t ∈ (context.states ys).tail, t.Bounded := by
  refine ⟨?_, states_bounded context xs, states_bounded context ys⟩
  have hfuller : List.Forall₂ Fuller (context.states xs) (context.states ys) := by
    refine forall₂_scanl ?_ (Fuller.refl context) h
    intro s t x y hs hread
    have hnext : Fuller { s with rbfill := x.rbfill } { t with rbfill := y.rbfill } :=
      ⟨hread.1, hs.rratiof, hs.integral, hs.rratio⟩
    rw [DriftContext.read, DriftContext.read, hread.2]
    exact hnext.correction y.rbfillTarget
  exact hfuller.imp fun s t h => ⟨h.rratio, h.integral⟩

/-- One ring runs dry, the other one stays at its target. -/
theorem ratio_correction_ordered_dry :
    List.Forall₂ (fun s t : DriftContext =>
        t.rratio ≤ s.rratio ∧ t.rbfillIntegral ≤ s.rbfillIntegral)
      (DriftContext.states ⟨256, 128, 3, 0, 0, 1, 1, 0⟩ [⟨0, 387⟩, ⟨128, 387⟩])
      (DriftContext.states ⟨256, 128, 3, 0, 0, 1, 1, 0⟩ [⟨387, 387⟩, ⟨387, 387⟩]) ∧
    (∀ s ∈ (DriftContext.states ⟨256, 128, 3, 0, 0, 1, 1, 0⟩ [⟨0, 387⟩, ⟨128, 387⟩]).tail,
      s.Bounded) ∧
    ∀ t ∈ (DriftContext.states ⟨256, 128, 3, 0, 0, 1, 1, 0⟩ [⟨387, 387⟩, ⟨387, 387⟩]).tail,
      t.Bounded := by
  refine ratio_correction_ordered _ ?_
  rw [FullerReadings]
  decide

/-- The fields that another thread may set between two callbacks, and the ring's fill. -/
structure Callback where
  cframes : Int
  readSpace : Nat

/-- One callback of the JACK and the PipeWire backend. -/
def DriftContext.callback (framesize : Nat) (context : DriftContext) (callback : Callback) :
    DriftContext :=
  correctSamplerate { context with cframes := callback.cframes } framesize callback.readSpace

/-- The fields that the controller leaves as they are. -/
def SameSettings (s t : DriftContext) : Prop :=
  s.nframes = t.nframes ∧ s.lagrangeNum = t.lagrangeNum ∧ s.addDelayFrames = t.addDelayFrames

theorem correctSamplerate_eq (context : DriftContext) (framesize readSpace : Nat) :
    correctSamplerate context framesize readSpace =
      context.read ⟨if context.cframes ≤ context.nframes then ↑(readSpace / framesize)
        else context.rbfill,
        context.cframes + context.nframes + context.lagrangeNum + context.addDelayFrames⟩ := by
  rw [correctSamplerate, DriftContext.read]
  split_ifs <;> rfl

/-- The callbacks of two receivers, of which the second one has the fuller ring. -/
theorem callbacks_ordered (context : DriftContext) (framesize : Nat) {xs ys : List Callback}
    (h : List.Forall₂ (fun x y => x.cframes = y.cframes ∧ x.readSpace ≤ y.readSpace) xs ys) :
    List.Forall₂ (fun s t => Fuller s t ∧ SameSettings s t)
      (xs.scanl (DriftContext.callback framesize) context)
      (ys.scanl (DriftContext.callback framesize) context) := by
  refine forall₂_scanl ?_ ⟨Fuller.refl context, rfl, rfl, rfl⟩ h
  rintro s t x y ⟨hs, hnframes, hlagrange, hdelay⟩ ⟨hcframes, hspace⟩
  rw [DriftContext.callback, DriftContext.callback, correctSamplerate_eq, correctSamplerate_eq,
    DriftContext.read, DriftContext.read]
  refine ⟨?_, hnframes, hlagrange, hdelay⟩
  simp only [hcframes, hnframes, hlagrange, hdelay]
  apply Fuller.correction
  refine ⟨?_, hs.rratiof, hs.integral, hs.rratio⟩
  change (if _ then _ else _) ≤ (if _ then _ else _)
  split_ifs
  · exact Int.ofNat_le.mpr (Nat.div_le_div_right hspace)
  · exact hs.rbfill

/-! The controller of the ALSA utility. -/

/-- `rratio`, `integral_rr` and `error_rr` of the main loop. -/
structure RRatioState where
  rratio : Rat
  integral : Rat
  error : Rat

def calculateRRatio (s : RRatioState) (bufferFramesNeeded bufferFramesCurrent : Int)
    (kp ki : Rat) : RRatioState :=
  let error := 0.9 * s.error + 0.1 * ((bufferFramesCurrent : Rat) - bufferFramesNeeded)
  let integral := s.integral + error
  let integral := if integral > 0.003 then 0.003 else integral
  let integral := if integral < -0.003 then -0.003 else integral
  let rratio := s.rratio * 0.9 + 0.1 * (1.0 - (kp * error + ki * integral))
  let rratio := if rratio > 1.003 then 1.003 else rratio
  let rratio := if rratio < 0.997 then 0.997 else rratio
  ⟨rratio, integral, error⟩

/-- What one call of `calculateRRatio` reads. -/
structure FrameReading where
  bufferFramesNeeded : Int
  bufferFramesCurrent : Int

def RRatioState.states (kp ki : Rat) (s : RRatioState) (readings : List FrameReading) :
    List RRatioState :=
  readings.scanl (fun s reading =>
    calculateRRatio s reading.bufferFramesNeeded reading.bufferFramesCurrent kp ki) s

/-- The run with the less filled ring is to the left. -/
structure RRatioOrder (s t : RRatioState) : Prop where
  error : s.error ≤ t.error
  integral : s.integral ≤ t.integral
  rratio : t.rratio ≤ s.rratio

theorem calculateRRatio_integral (s : RRatioState) (needed current : Int) (kp ki : Rat) :
    (calculateRRatio s needed current kp ki).integral =
      limit (-0.003) 0.003 (s.integral + (calculateRRatio s needed current kp ki).error) :=
  ite_ite_eq_limit (by norm_num)

theorem calculateRRatio_rratio (s : RRatioState) (needed current : Int) (kp ki : Rat) :
    (calculateRRatio s needed current kp ki).rratio =
      limit 0.997 1.003 (s.rratio * 0.9 +
        0.1 * (1.0 - (kp * (calculateRRatio s needed current kp ki).error +
          ki * (calculateRRatio s needed current kp ki).integral))) :=
  ite_ite_eq_limit (by norm_num)

/-- The three states keep their order together: each one's step uses the new value of the one
before it. -/
theorem RRatioOrder.step {s t : RRatioState} {kp ki : Rat} (h : RRatioOrder s t) (hkp : 0 ≤ kp)
    (hki : 0 ≤ ki) (needed : Int) {current current' : Int} (hcurrent : current ≤ current') :
    RRatioOrder (calculateRRatio s needed current kp ki)
      (calculateRRatio t needed current' kp ki) := by
  have hfill : (current : Rat) ≤ current' := Int.cast_le.mpr hcurrent
  have herror : (calculateRRatio s needed current kp ki).error ≤
      (calculateRRatio t needed current' kp ki).error := by
    change 0.9 * s.error + 0.1 * ((current : Rat) - needed) ≤
      0.9 * t.error + 0.1 * ((current' : Rat) - needed)
    linarith [h.error]
  have hintegral : (calculateRRatio s needed current kp ki).integral ≤
      (calculateRRatio t needed current' kp ki).integral := by
    rw [calculateRRatio_integral, calculateRRatio_integral]
    exact limit_mono (add_le_add h.integral herror)
  refine ⟨herror, hintegral, ?_⟩
  rw [calculateRRatio_rratio, calculateRRatio_rratio]
  have hp := mul_le_mul_of_nonneg_left herror hkp
  have hi := mul_le_mul_of_nonneg_left hintegral hki
  exact limit_mono (by linarith [h.rratio])

theorem rratio_bounded (kp ki : Rat) (s : RRatioState) (readings : List FrameReading) :
    ∀ t ∈ (s.states kp ki readings).tail, 0.997 ≤ t.rratio ∧ t.rratio ≤ 1.003 := by
  refine forall_mem_tail_scanl fun s reading => ?_
  rw [calculateRRatio_rratio]
  exact limit_mem (by norm_num) _

/-- A fuller ring never gives a larger ratio, over runs of any length. -/
theorem rratio_ordered {kp ki : Rat} (hkp : 0 ≤ kp) (hki : 0 ≤ ki) (s : RRatioState)
    {xs ys : List FrameReading}
    (h : List.Forall₂ (fun x y => x.bufferFramesNeeded = y.bufferFramesNeeded ∧
      x.bufferFramesCurrent ≤ y.bufferFramesCurrent) xs ys) :
    List.Forall₂ (fun t u => t.error ≤ u.error ∧ t.integral ≤ u.integral ∧ u.rratio ≤ t.rratio)
      (s.states kp ki xs) (s.states kp ki ys) ∧
    (∀ t ∈ (s.states kp ki xs).tail, 0.997 ≤ t.rratio ∧ t.rratio ≤ 1.003) ∧
    ∀ u ∈ (s.states kp ki ys).tail, 0.997 ≤ u.rratio ∧ u.rratio ≤ 1.003 := by
  refine ⟨?_, rratio_bounded kp ki s xs, rratio_bounded kp ki s ys⟩
  have horder : List.Forall₂ RRatioOrder (s.states kp ki xs) (s.states kp ki ys) := by
    refine forall₂_scanl ?_ ⟨le_rfl, le_rfl, le_rfl⟩ h
    intro t u x y ht hread
    rw [hread.1]
    exact ht.step hkp hki y.bufferFramesNeeded hread.2
  exact horder.imp fun t u h => ⟨h.error, h.integral, h.rratio⟩

/-- The gains of the utility, at the target of a period of 128 frames. -/
theorem rratio_ordered_defaults :
    List.Forall₂ (fun t u => t.error ≤ u.error ∧ t.integral ≤ u.integral ∧ u.rratio ≤ t.rratio)
      (RRatioState.states 0.00002 0.0000005 ⟨1, 0, 0⟩ [⟨195, 0⟩, ⟨195, 190⟩])
      (RRatioState.states 0.00002 0.0000005 ⟨1, 0, 0⟩ [⟨195, 195⟩, ⟨195, 400⟩]) ∧
    (∀ t ∈ (RRatioState.states 0.00002 0.0000005 ⟨1, 0, 0⟩ [⟨195, 0⟩, ⟨195, 190⟩]).tail,
      0.997 ≤ t.rratio ∧ t.rratio ≤ 1.003) ∧
    ∀ u ∈ (RRatioState.states 0.00002 0.0000005 ⟨1, 0, 0⟩ [⟨195, 195⟩, ⟨195, 400⟩]).tail,
      0.997 ≤ u.rratio ∧ u.rratio ≤ 1.003 := by
  refine rratio_ordered ?_ ?_ _ ?_
  · norm_num
  · norm_num
  · decide

end Vban.Playback
