import Mathlib.Data.List.ReduceOption
import Vban.Library.Run
import Vban.Receive.MedianFilter
import Vban.Receive.RingFill

/-! The cycle length that the fill correction takes for the median of the last five. -/
namespace Vban

open Library

variable {R : Type} {env : RxEnv R} {c c' : VbanRxContext R} {p : VBanPacket} {packetlen : Int}
  {ipIn : UInt32} {portIn iprx : UInt16} {taken : List Nat} {r : RxResult R} {marr xs w : List Int}
  {ls : List (Option Int)} {x : Int} {i : Nat}

/-- The inner loop finds a smallest entry. -/
theorem selectMin_spec (marr : List Int) (hi : i ≤ 4) :
    i ≤ selectMin marr i ∧ selectMin marr i ≤ 4 ∧
      ∀ k, i ≤ k → k ≤ 4 → marr.getD (selectMin marr i) 0 ≤ marr.getD k 0 := by
  have hloop := foldl_range'_invariant (s := i) (i + 1) (4 - i)
    (g := fun mind j => if marr.getD j 0 < marr.getD mind 0 then j else mind)
    (I := fun j mind => i ≤ mind ∧ mind < j ∧
      ∀ k, i ≤ k → k < j → marr.getD mind 0 ≤ marr.getD k 0) ?_ ?_
  · have hend : i + 1 + (4 - i) = 5 := by omega
    rw [hend] at hloop
    obtain ⟨hle, hlt, hmin⟩ := hloop
    exact ⟨hle, Nat.le_of_lt_succ hlt, fun k hik hk => hmin k hik (Nat.lt_succ_of_le hk)⟩
  · refine ⟨Nat.le_refl i, Nat.lt_succ_self i, ?_⟩
    intro k hik hk
    obtain rfl : k = i := by omega
    exact le_rfl
  · rintro j mind hj - ⟨hle, hlt, hmin⟩
    by_cases hless : marr.getD j 0 < marr.getD mind 0
    · simp only [if_pos hless]
      refine ⟨by omega, Nat.lt_succ_self j, ?_⟩
      intro k hik hk
      rcases Nat.lt_succ_iff_lt_or_eq.mp hk with hk | rfl
      · exact hless.le.trans (hmin k hik hk)
      · exact le_rfl
    · simp only [if_neg hless]
      refine ⟨hle, by omega, ?_⟩
      intro k hik hk
      rcases Nat.lt_succ_iff_lt_or_eq.mp hk with hk | rfl
      · exact hmin k hik hk
      · exact not_lt.mp hless

/-- The sort runs to its end, and the result is the second largest of the five. -/
theorem cfmed_eq (h : marr.length = 5) : cfmed marr = nthSmallest 0 marr 3 := by
  have hloop := foldl_range'_invariant 0 4
    (g := fun array i => swapEntries 0 array i (selectMin array i))
    (I := fun i array => array.length = 5 ∧ array.Perm marr ∧ SortedUpTo 0 array i)
    ⟨h, .refl _, sortedUpTo_zero⟩ ?_
  · obtain ⟨hlength, hperm, hsorted⟩ := hloop
    rw [nthSmallest_of_sorted (hsorted.pairwise hlength.le) hperm, cfmed, List.range_eq_range']
    rfl
  · rintro i array - hi ⟨hlength, hperm, hsorted⟩
    obtain ⟨hle, hlt, hmin⟩ := selectMin_spec array (i := i) (by omega)
    refine ⟨(length_swapEntries _ _).trans hlength,
      (swapEntries_perm (by omega) (by omega)).trans hperm, hsorted.swap hle (by omega) ?_⟩
    intro k hik hk
    exact hmin k hik (by omega)

/-- A call of `calc_input_samplerate` stores a cycle length, or something happens that leaves the
stored ones alone. -/
inductive CycleStep : VbanRxContext R → Option Int → VbanRxContext R → Prop
  | stored {c : VbanRxContext R} {p : VBanPacket} (h : (calcInputSamplerate c p).1 = 0) :
      CycleStep c (some c.cycleFrames) (calcInputSamplerate c p).2
  | other {c c' : VbanRxContext R} (hmarr : c'.cframesMarr = c.cframesMarr)
      (hcfind : c'.cfind = c.cfind) : CycleStep c none c'

/-- The two ways of a call: it stores the length of the last cycle, or no length. -/
theorem calcInputSamplerate_cases (c : VbanRxContext R) (p : VBanPacket) :
    (calcInputSamplerate c p).1 = 0 ∧
      (calcInputSamplerate c p).2.cframesMarr = c.cframesMarr.set c.cfind c.cycleFrames ∧
      (calcInputSamplerate c p).2.cfind = (if c.cfind = 4 then 0 else c.cfind + 1) ∧
      (calcInputSamplerate c p).2.cframes = cfmed (calcInputSamplerate c p).2.cframesMarr ∨
    (calcInputSamplerate c p).1 ≠ 0 ∧
      (calcInputSamplerate c p).2.cframesMarr = c.cframesMarr ∧
      (calcInputSamplerate c p).2.cfind = c.cfind := by
  simp only [calcInputSamplerate]
  by_cases helapsed :
      (c.inputTs.sec - c.timeOld.sec) * 1000000000 + c.inputTs.nsec - c.timeOld.nsec > 100000
  · rw [if_pos helapsed]
    by_cases hcycle : c.timeCycleStart.sec ≠ 0
    · rw [if_pos hcycle]
      exact .inl ⟨rfl, rfl, rfl, rfl⟩
    · rw [if_neg hcycle]
      exact .inr ⟨Nat.succ_ne_zero 2, rfl, rfl⟩
  · rw [if_neg helapsed]
    exact .inr ⟨Nat.succ_ne_zero 0, rfl, rfl⟩

/-- A handled packet stores the length of the last cycle when it is accepted, the correction is on
and a cycle has ended; it stores nothing otherwise. -/
theorem handle_cycles (h : vbanRxHandlePacket env p packetlen c ipIn portIn taken = .ok r) :
    Enqueues c p ipIn ∧ c.flags &&& correctionOn ≠ 0 ∧ (calcInputSamplerate c p).1 = 0 ∧
        Run CycleStep c [none, some c.cycleFrames, none] r.context ∨
      ¬(Enqueues c p ipIn ∧ c.flags &&& correctionOn ≠ 0 ∧ (calcInputSamplerate c p).1 = 0) ∧
        CycleStep c none r.context := by
  cases vbanRxHandlePacket_cases h with
  | announced _ hn => exact .inr ⟨fun hall => hall.1.2.1 hn, .other rfl rfl⟩
  | midi hp => exact .inr ⟨fun hall => hp hall.1.1, .other rfl rfl⟩
  | ignored hi => exact .inr ⟨fun hall => (hi hall.1.1).2 hall.1.2.2, .other rfl rfl⟩
  | @enqueued rb a d he hrb ha hf =>
    obtain ⟨hstatus, -, -, hflags⟩ := calcInputSamplerate_enqueued ha
    obtain ⟨_, _, _, _, _, ha'⟩ := enqueueAudio_context ha
    have hmarr := congrArg VbanRxContext.cframesMarr ha'
    have hcfind := congrArg VbanRxContext.cfind ha'
    rcases correctFill_cases hf with ⟨hoff, rfl⟩ | ⟨hon, fill, rfl⟩
    · exact .inr ⟨fun hall => hall.2.1 (hflags ▸ hoff), .other hmarr hcfind⟩
    · rw [hflags] at hon
      rcases calcInputSamplerate_cases a.context p with ⟨hzero, -⟩ | ⟨hne, hmarr', hcfind'⟩
      · refine .inl ⟨he, hon, hstatus ▸ hzero, ?_⟩
        have hlength : a.context.cycleFrames = c.cycleFrames := by
          rw [ha']
        have hcalc := CycleStep.stored hzero
        rw [hlength] at hcalc
        exact ((Run.single (.other hmarr hcfind)).snoc hcalc).snoc (.other rfl rfl)
      · refine .inr ⟨fun hall => hne (hstatus.trans hall.2.2), .other ?_ ?_⟩
        · exact hmarr'.trans hmarr
        · exact hcfind'.trans hcfind

/-- The stored cycle lengths. -/
def KeepsCycles (c : VbanRxContext R) (xs : List Int) : Prop :=
  KeepsRecent 5 0 xs c.cframesMarr c.cfind

theorem calcInputSamplerate_stored (h : (calcInputSamplerate c p).1 = 0) :
    (calcInputSamplerate c p).2.cframesMarr = c.cframesMarr.set c.cfind c.cycleFrames ∧
      (calcInputSamplerate c p).2.cfind = (if c.cfind = 4 then 0 else c.cfind + 1) ∧
      (calcInputSamplerate c p).2.cframes = cfmed (calcInputSamplerate c p).2.cframesMarr := by
  rcases calcInputSamplerate_cases c p with ⟨-, hstored⟩ | ⟨hne, -⟩
  · exact hstored
  · exact absurd h hne

theorem KeepsCycles.step {l : Option Int} (hc : KeepsCycles c xs) (h : CycleStep c l c') :
    KeepsCycles c' (xs ++ l.toList) := by
  cases h with
  | @stored p h =>
    obtain ⟨hmarr, hcfind, -⟩ := calcInputSamplerate_stored h
    have hnext : (if c.cfind = 4 then 0 else c.cfind + 1) = (c.cfind + 1) % 5 := by
      have hlt := hc.index_lt
      split_ifs <;> omega
    rw [KeepsCycles, hmarr, hcfind, hnext]
    exact hc.push
  | other hmarr hcfind =>
    rw [KeepsCycles, hmarr, hcfind, Option.toList_none, List.append_nil]
    exact hc

theorem keepsCycles_run {name : StreamName} {ip : UInt32}
    (h : Run CycleStep (VbanRxContext.start name ip iprx : VbanRxContext R) ls c) :
    KeepsCycles c ls.reduceOption := by
  generalize hstart : (VbanRxContext.start name ip iprx : VbanRxContext R) = c₀ at h
  induction h with
  | refl =>
    subst hstart
    exact keepsRecent_start (by decide)
  | @snoc c d ls l _ hs ih =>
    have hl : (ls ++ [l]).reduceOption = ls.reduceOption ++ l.toList := by
      rw [List.reduceOption_append]
      cases l <;> rfl
    rw [hl]
    exact ih.step hs

/-- Some length has at most two smaller ones and one greater one: the third smallest is also the
fourth. -/
def MiddleRepeated (w : List Int) : Prop :=
  ∃ t ∈ w, w.countP (fun y => decide (y < t)) ≤ 2 ∧ w.countP (fun y => decide (t < y)) ≤ 1

instance : Decidable (MiddleRepeated w) := inferInstanceAs (Decidable (∃ _ ∈ _, _))

theorem middleRepeated_iff (h : w.length = 5) :
    nthSmallest 0 w 3 = median 0 w ↔ MiddleRepeated w := by
  have habove (t : Int) : 3 < w.countP (fun y => decide (y ≤ t)) ↔
      w.countP (fun y => decide (t < y)) ≤ 1 := by
    have hsum := List.length_eq_countP_add_countP (l := w) (fun y => decide (y ≤ t))
    have hnot : w.countP (fun y => decide ¬decide (y ≤ t) = true) =
        w.countP (fun y => decide (t < y)) := by
      congr 1
      funext y
      simp
    rw [h, hnot] at hsum
    omega
  rw [median, h]
  constructor
  · intro heq
    obtain ⟨-, hup⟩ := (nthSmallest_eq_iff (by omega)).mp heq
    obtain ⟨hbelow, -⟩ : w.countP (fun y => decide (y < nthSmallest 0 w 2)) ≤ 2 ∧
        2 < w.countP (fun y => decide (y ≤ nthSmallest 0 w 2)) :=
      (nthSmallest_eq_iff (by omega)).mp rfl
    exact ⟨_, nthSmallest_mem (by omega), hbelow, (habove _).mp hup⟩
  · rintro ⟨t, -, hbelow, hover⟩
    have hup := (habove t).mpr hover
    have htwo : nthSmallest 0 w 2 = t :=
      (nthSmallest_eq_iff (by omega)).mpr ⟨hbelow, by omega⟩
    have hthree : nthSmallest 0 w 3 = t :=
      (nthSmallest_eq_iff (by omega)).mpr ⟨by omega, hup⟩
    exact hthree.trans htwo.symm

/-- `cframes` is the median of the last five of `xs`, as a filter of that size computes it. -/
def MedianTaken (c : VbanRxContext R) (xs : List Int) (x : Int) : Prop :=
  c.cframes = median 0 (recent 5 0 (xs ++ [x])) ∧
    c.cframes = ((MedianFilterInt.processAll 5 xs).process x).2

theorem KeepsCycles.median_iff (hc : KeepsCycles c xs) (h : CycleStep c (some x) c') :
    MedianTaken c' xs x ↔ MiddleRepeated (recent 5 0 (xs ++ [x])) := by
  have hkeeps : KeepsCycles c' (xs ++ [x]) := hc.step h
  have hresult : ((MedianFilterInt.processAll 5 xs).process x).2 =
      median 0 (recent 5 0 (xs ++ [x])) := MedianFilterInt.processAll_result 5 xs x
  have hcframes : c'.cframes = nthSmallest 0 (recent 5 0 (xs ++ [x])) 3 := by
    have hmed : c'.cframes = cfmed c'.cframesMarr := by
      cases h with
      | stored h => exact (calcInputSamplerate_stored h).2.2
    rw [hmed, cfmed_eq hkeeps.length_eq]
    exact nthSmallest_perm hkeeps.perm 3
  rw [MedianTaken, hresult, and_self, hcframes]
  exact middleRepeated_iff length_recent

/-- A stored length makes `cframes` the median of the last five exactly if the third smallest of
them is also the fourth. -/
theorem cframes_median_iff {name : StreamName} {ip : UInt32}
    (h : Run CycleStep (VbanRxContext.start name ip iprx : VbanRxContext R) ls c)
    (hs : CycleStep c (some x) c') :
    MedianTaken c' ls.reduceOption x ↔ MiddleRepeated (recent 5 0 (ls.reduceOption ++ [x])) :=
  (keepsCycles_run h).median_iff hs

/-- A stream in its first cycle of 64 frames, at the first packet of the next one. -/
def firstCycle : VbanRxContext Unit :=
  let c : VbanRxContext Unit := .start (.strncpy []) 0 0
  let c := (calcInputSamplerate { c with inputTs := ⟨1, 0⟩ } (streamPacket 63)).2
  let c := (calcInputSamplerate { c with inputTs := ⟨1, 50000⟩ } (streamPacket 63)).2
  { c with inputTs := ⟨2, 0⟩ }

/-- The same at the end of the second cycle. -/
def secondCycle : VbanRxContext Unit :=
  { (calcInputSamplerate firstCycle (streamPacket 63)).2 with inputTs := ⟨3, 0⟩ }

theorem firstCycle_run : Run CycleStep (.start (.strncpy []) 0 0) [none] firstCycle :=
  .single (.other (by decide +kernel) (by decide +kernel))

theorem firstCycle_step :
    CycleStep firstCycle (some 64) (calcInputSamplerate firstCycle (streamPacket 63)).2 :=
  have hlength : firstCycle.cycleFrames = 64 := by decide +kernel
  hlength ▸ .stored (by decide +kernel)

theorem secondCycle_run :
    Run CycleStep (.start (.strncpy []) 0 0) [none, some 64, none] secondCycle :=
  (firstCycle_run.snoc firstCycle_step).snoc (.other rfl rfl)

theorem secondCycle_step :
    CycleStep secondCycle (some 64) (calcInputSamplerate secondCycle (streamPacket 63)).2 :=
  have hlength : secondCycle.cycleFrames = 64 := by decide +kernel
  hlength ▸ .stored (by decide +kernel)

/-- After one cycle the median is one of the missing lengths. -/
theorem first_cycle_median :
    MedianTaken (calcInputSamplerate firstCycle (streamPacket 63)).2 [] 64 :=
  (cframes_median_iff firstCycle_run firstCycle_step).mpr (by decide)

/-- After two cycles the median still is, but the second largest length is taken. -/
theorem second_cycle_not_median : ∃ c' : VbanRxContext Unit,
    Run CycleStep (.start (.strncpy []) 0 0) [none, some 64, none] secondCycle ∧
      CycleStep secondCycle (some 64) c' ∧ c'.cframes = 64 ∧
      median 0 (recent 5 0 [64, 64]) = 0 ∧ ¬MedianTaken c' [64] 64 := by
  refine ⟨_, secondCycle_run, secondCycle_step, by decide +kernel, by decide, ?_⟩
  intro h
  have hmiddle := ((keepsCycles_run secondCycle_run).median_iff secondCycle_step).mp h
  exact absurd hmiddle (by decide)

end Vban
