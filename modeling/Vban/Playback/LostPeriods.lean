import Mathlib.Data.List.Induction
import Vban.Library.Run
import Vban.Playback.Period

/-! What the two readers count as lost periods, over runs with any pattern of losses. -/
namespace Vban.Playback

open Library

variable {S : Type} {nboutputs : Nat} {ops : SampleOps S} {c c' : RxStream S nboutputs}
  {slots : List (Slot S nboutputs)} {history : List (List (Slot S nboutputs))}

/-- A new period length comes with new memory. -/
def RxStream.resize (c : RxStream S nboutputs) (nframes : Nat) (mem : Nat → S) :
    RxStream S nboutputs :=
  if nframes = c.nframes then c
  else
    { nframes
      lagrangeNum := c.lagrangeNum
      rxbuf := mem
      rxbuflen := nboutputs * (nframes + c.lagrangeNum)
      lostPacCnt := c.lostPacCnt
      room := Nat.le_refl _ }

/-- PipeWire plays `read_from_ringbuffer_async`, JACK its sibling. -/
inductive Reader
  | async
  | nonInterleaved
deriving DecidableEq

def Reader.read (reader : Reader) (ops : SampleOps S) (c : RxStream S nboutputs)
    (buffers : Ports S nboutputs) (slots : List (Slot S nboutputs)) : RxStream S nboutputs :=
  match reader with
  | .async => readFromRingbufferAsync ops c slots
  | .nonInterleaved => (readFromRingbufferAsyncNonInterleaved ops c buffers slots).1

/-- The samples that the callback of PipeWire hands over after `read_from_ringbuffer_async`. -/
def pipewireSamples (ops : SampleOps S) (c : RxStream S nboutputs) : Nat → S :=
  if c.lostPacCnt < 9 then c.rxbuf else fun _ => ops.zero

/-- Whether the period that ends in `c` is forced to silence. -/
def Reader.Silences (reader : Reader) (c : RxStream S nboutputs)
    (slots : List (Slot S nboutputs)) : Prop :=
  match reader with
  | .async => ¬c.lostPacCnt < 9
  | .nonInterleaved => WhollyLost slots ∧ c.lostPacCnt ≥ 9

/-- A period, labelled with its slots. -/
inductive PeriodStep (ops : SampleOps S) (reader : Reader) :
    RxStream S nboutputs → List (Slot S nboutputs) → RxStream S nboutputs → Prop
  | process (c : RxStream S nboutputs) (mem : Nat → S) (buffers : Ports S nboutputs)
      (slots : List (Slot S nboutputs)) :
      PeriodStep ops reader c slots (reader.read ops (c.resize slots.length mem) buffers slots)

/-- The number of wholly lost periods in a row at the end of `history`. -/
def lostRun (history : List (List (Slot S nboutputs))) : Nat :=
  (history.reverse.takeWhile fun slots => decide (WhollyLost slots)).length

/-- What a period makes of the counter. -/
def Reader.count (reader : Reader) (lostPacCnt : Nat) (slots : List (Slot S nboutputs)) : Nat :=
  if WhollyLost slots then if lostPacCnt < 10 then lostPacCnt + 1 else lostPacCnt
  else if reader = .async ∧ slots.countP (·.isNone) = 0 then 0
  else lostPacCnt

theorem lostRun_lost (h : WhollyLost slots) :
    lostRun (history ++ [slots]) = lostRun history + 1 := by
  rw [lostRun, List.reverse_append, List.reverse_singleton, List.singleton_append,
    List.takeWhile_cons_of_pos (by simpa using h), List.length_cons, lostRun]

theorem lostRun_received (h : ¬WhollyLost slots) : lostRun (history ++ [slots]) = 0 := by
  rw [lostRun, List.reverse_append, List.reverse_singleton, List.singleton_append,
    List.takeWhile_cons_of_neg (by simpa using h), List.length_nil]

theorem async_lostPacCnt (hn : slots.length = c.nframes) :
    (readFromRingbufferAsync ops c slots).lostPacCnt = Reader.async.count c.lostPacCnt slots := by
  have hlost : (slots.foldl (turn ops c.lagrangeNum asyncSmooths) c.start).lost =
      slots.countP (·.isNone) := asyncTurns_lost
  have hwhole := lost_eq_nframes_iff hn
  rw [readFromRingbufferAsync, hlost, Reader.count]
  by_cases hw : WhollyLost slots
  · obtain ⟨hne, hall⟩ := hwhole.mpr hw
    rw [if_neg hne, if_pos hall, if_pos hw]
  · rw [if_neg hw]
    by_cases hz : slots.countP (·.isNone) = 0
    · rw [if_pos hz, if_pos ⟨rfl, hz⟩]
    · rw [if_neg hz, if_neg fun hall => hw (hwhole.mp ⟨hz, hall⟩), if_neg fun h => hz h.2]

theorem nonInterleaved_lostPacCnt (buffers : Ports S nboutputs) (hn : slots.length = c.nframes) :
    (readFromRingbufferAsyncNonInterleaved ops c buffers slots).1.lostPacCnt =
      Reader.nonInterleaved.count c.lostPacCnt slots := by
  have hlost : (slots.foldl (portTurn ops c.lagrangeNum) ⟨c.start, buffers⟩).lost =
      slots.countP (·.isNone) := portTurns_lost
  have hwhole := lost_eq_nframes_iff hn
  rw [readFromRingbufferAsyncNonInterleaved, hlost, Reader.count]
  by_cases hw : WhollyLost slots
  · rw [if_pos (hwhole.mpr hw), if_pos hw]
  · have hreset : ¬(Reader.nonInterleaved = .async ∧ slots.countP (·.isNone) = 0) := by
      rintro ⟨hreader, -⟩
      cases hreader
    rw [if_neg fun h => hw (hwhole.mp h), if_neg hw, if_neg hreset]

theorem resize_nframes (c : RxStream S nboutputs) (n : Nat) (mem : Nat → S) :
    (c.resize n mem).nframes = n ∧ (c.resize n mem).lostPacCnt = c.lostPacCnt := by
  rw [RxStream.resize]
  split_ifs with h
  · exact ⟨h.symm, rfl⟩
  · exact ⟨rfl, rfl⟩

theorem period_step_count {reader : Reader} (h : PeriodStep ops reader c slots c') :
    c'.lostPacCnt = reader.count c.lostPacCnt slots := by
  cases h with
  | process mem buffers =>
    obtain ⟨hn, hcnt⟩ := resize_nframes c slots.length mem
    cases reader with
    | async => rw [Reader.read, async_lostPacCnt hn.symm, hcnt]
    | nonInterleaved => rw [Reader.read, nonInterleaved_lostPacCnt buffers hn.symm, hcnt]

/-- What a silenced period sounds like. -/
theorem silences_output {reader : Reader} (hn : slots.length = c.nframes)
    (buffers : Ports S nboutputs) (h : reader.Silences (reader.read ops c buffers slots) slots) :
    match reader with
    | .async => pipewireSamples ops (readFromRingbufferAsync ops c slots) = fun _ => ops.zero
    | .nonInterleaved => ∀ channel frame, frame < c.nframes →
        (readFromRingbufferAsyncNonInterleaved ops c buffers slots).2 channel frame = ops.zero := by
  cases reader with
  | async => exact if_neg h
  | nonInterleaved =>
    obtain ⟨hw, h9⟩ := h
    rw [Reader.read, nonInterleaved_lostPacCnt buffers hn, Reader.count, if_pos hw] at h9
    have h8 : 8 ≤ c.lostPacCnt := by
      split_ifs at h9 <;> omega
    intro channel frame hframe
    rw [nonInterleaved_ports hn hframe, if_pos ⟨hw, h8⟩]

/-- A period that the reader does not count afresh comes only when nothing is counted: for
PipeWire one that is lost in part, for JACK any one that is not wholly lost. -/
def Reader.CountsAfresh (reader : Reader) (c : RxStream S nboutputs)
    (slots : List (Slot S nboutputs)) : Prop :=
  ¬WhollyLost slots → ¬(reader = .async ∧ slots.countP (·.isNone) = 0) → c.lostPacCnt = 0

/-- The counter is the length of the run of losses, up to 10. -/
def Counted (c : RxStream S nboutputs) (history : List (List (Slot S nboutputs))) : Prop :=
  c.lostPacCnt = min 10 (lostRun history)

/-- A step keeps the count right exactly under the condition. -/
theorem counted_step_iff {reader : Reader} (hc : Counted c history)
    (h : PeriodStep ops reader c slots c') :
    Counted c' (history ++ [slots]) ↔ reader.CountsAfresh c slots := by
  rw [Counted, period_step_count h, Reader.count, Reader.CountsAfresh]
  rw [Counted] at hc
  by_cases hw : WhollyLost slots
  · rw [if_pos hw, lostRun_lost hw, hc]
    constructor
    · intro _ hnot
      exact absurd hw hnot
    · intro _
      split_ifs <;> omega
  · rw [if_neg hw, lostRun_received hw, Nat.min_zero]
    constructor
    · intro hz _ hnot
      rwa [if_neg hnot] at hz
    · intro hafresh
      split_ifs with hreset
      · rfl
      · exact hafresh hw hreset

/-- The counter of a run in which every step counts afresh. -/
theorem counted_run {reader : Reader} {c₀ : RxStream S nboutputs}
    (h : Run (fun c slots c' => PeriodStep ops reader c slots c' ∧ reader.CountsAfresh c slots)
      c₀ history c) (h₀ : c₀.lostPacCnt = 0) : Counted c history := by
  induction h with
  | refl => exact h₀
  | snoc _ hs ih =>
    obtain ⟨hstep, hafresh⟩ := hs
    exact (counted_step_iff ih hstep).mpr hafresh

/-- As long as every step counts afresh, the counter is the length of the run of wholly lost
periods, a period is silenced only behind eight of them, and one that receives a frame starts the
count again. -/
theorem lost_periods_counted {reader : Reader} {c₀ : RxStream S nboutputs}
    (h : Run (fun c slots c' => PeriodStep ops reader c slots c' ∧ reader.CountsAfresh c slots)
      c₀ history c) (h₀ : c₀.lostPacCnt = 0) :
    c.lostPacCnt = min 10 (lostRun history) ∧
      ∀ before slots, history = before ++ [slots] →
        (reader.Silences c slots → 8 ≤ lostRun before) ∧
        ((∃ slot ∈ slots, slot ≠ none) → c.lostPacCnt = 0) := by
  have hcounted := counted_run h h₀
  refine ⟨hcounted, ?_⟩
  rintro before slots rfl
  rw [Counted] at hcounted
  constructor
  · intro hsilences
    have h9 : 9 ≤ c.lostPacCnt := by
      cases reader with
      | async => exact Nat.not_lt.mp hsilences
      | nonInterleaved => exact hsilences.2
    by_cases hw : WhollyLost slots
    · rw [lostRun_lost hw] at hcounted
      omega
    · rw [lostRun_received hw] at hcounted
      omega
  · rintro ⟨slot, hmem, hne⟩
    have hw : ¬WhollyLost slots := fun hw => hne (hw.2 slot hmem)
    rw [hcounted, lostRun_received hw, Nat.min_zero]

/-- Any pattern of losses is a run. -/
theorem exists_period_run (ops : SampleOps S) (reader : Reader) (c : RxStream S nboutputs)
    (history : List (List (Slot S nboutputs))) :
    ∃ c', Run (PeriodStep ops reader) c history c' ∧
      c'.lostPacCnt = history.foldl reader.count c.lostPacCnt := by
  induction history using List.reverseRecOn with
  | nil => exact ⟨c, .refl c, rfl⟩
  | append_singleton history slots ih =>
    obtain ⟨c', hrun, hcount⟩ := ih
    have hstep : PeriodStep ops reader c' slots _ :=
      .process c' (fun _ => ops.zero) (fun _ _ => ops.zero) slots
    refine ⟨_, hrun.snoc hstep, ?_⟩
    rw [period_step_count hstep, hcount, List.foldl_append, List.foldl_cons, List.foldl_nil]

/-- A mono period of two frames that are all missing, one with the first, and one with both. -/
def lostSlots : List (Slot Rat 1) := [none, none]

def partSlots : List (Slot Rat 1) := [some fun _ => 0, none]

def fullSlots : List (Slot Rat 1) := [some fun _ => 0, some fun _ => 0]

/-- A mono receptor at its start. -/
def freshStream : RxStream Rat 1 where
  nframes := 2
  lagrangeNum := 3
  rxbuf := fun _ => 0
  rxbuflen := 5
  lostPacCnt := 0
  room := by decide

theorem lost_periods_counted_nine : ∃ c,
    Run (PeriodStep rationalOps .async) freshStream (List.replicate 9 lostSlots) c ∧
      Reader.async.Silences c lostSlots ∧ 8 ≤ lostRun (List.replicate 8 lostSlots) := by
  obtain ⟨c, hrun, hcount⟩ :=
    exists_period_run rationalOps .async freshStream (List.replicate 9 lostSlots)
  have hlost : ∀ slots ∈ List.replicate 9 lostSlots, WhollyLost slots := by
    intro slots hs
    rw [List.eq_of_mem_replicate hs]
    decide
  have hafresh := (hrun.restrict hlost).imp
    fun c slots c' h => (⟨h.1, fun hnot => absurd h.2 hnot⟩ :
      PeriodStep rationalOps .async c slots c' ∧ Reader.async.CountsAfresh c slots)
  have hsilences : Reader.async.Silences c lostSlots := by
    rw [Reader.Silences, hcount]
    decide
  obtain ⟨-, hlast⟩ := lost_periods_counted hafresh rfl
  exact ⟨c, hrun, hsilences, (hlast (List.replicate 8 lostSlots) lostSlots rfl).1 hsilences⟩

/-- PipeWire does not count afresh behind a period that was lost in part, JACK behind none. Behind
nine lost periods PipeWire stays silent in partly received ones. -/
theorem losses_accumulated : ∃ c d e,
    Run (PeriodStep rationalOps .async) freshStream [lostSlots, partSlots] c ∧
      c.lostPacCnt = 1 ∧ lostRun [lostSlots, partSlots] = 0 ∧
    Run (PeriodStep rationalOps .nonInterleaved) freshStream [lostSlots, fullSlots] d ∧
      d.lostPacCnt = 1 ∧ lostRun [lostSlots, fullSlots] = 0 ∧
    Run (PeriodStep rationalOps .async) freshStream
        (List.replicate 9 lostSlots ++ [partSlots] ++ [partSlots]) e ∧
      Reader.async.Silences e partSlots ∧
      lostRun (List.replicate 9 lostSlots ++ [partSlots]) = 0 := by
  obtain ⟨c, hc, hcount⟩ := exists_period_run rationalOps .async freshStream [lostSlots, partSlots]
  obtain ⟨d, hd, hdcount⟩ :=
    exists_period_run rationalOps .nonInterleaved freshStream [lostSlots, fullSlots]
  obtain ⟨e, he, hecount⟩ := exists_period_run rationalOps .async freshStream
    (List.replicate 9 lostSlots ++ [partSlots] ++ [partSlots])
  refine ⟨c, d, e, hc, ?_, by decide, hd, ?_, by decide, he, ?_, by decide⟩
  · rw [hcount]
    decide
  · rw [hdcount]
    decide
  · rw [Reader.Silences, hecount]
    decide

end Vban.Playback
