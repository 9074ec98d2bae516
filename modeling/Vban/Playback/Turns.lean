import Mathlib.Tactic.Ring
import Vban.Playback.Reader

/-! What the turns of a reading loop do to `rxbuf` and to the port buffers. -/
namespace Vban.Playback

variable {S : Type} {nboutputs L j k : Nat} {ops : SampleOps S} {rxbuf : Nat → S}
  {c : RxStream S nboutputs} {x : Frame S nboutputs}

@[simp] theorem frameAt_setFrame_self : frameAt (setFrame rxbuf k x) k = x := by
  funext channel
  have := channel.isLt
  rw [frameAt, setFrame, dif_pos ⟨by omega, by omega⟩]
  congr 1
  apply Fin.ext
  exact Nat.add_sub_cancel_left _ _

theorem frameAt_setFrame_ne (h : j ≠ k) :
    (frameAt (setFrame rxbuf k x) j : Frame S nboutputs) = frameAt rxbuf j := by
  funext channel
  have hlt := channel.isLt
  rw [frameAt, setFrame, dif_neg, frameAt]
  rintro ⟨hlow, hhigh⟩
  rcases Nat.lt_or_gt_of_ne h with hjk | hkj
  · have : nboutputs * (j + 1) ≤ nboutputs * k := Nat.mul_le_mul_left _ hjk
    rw [Nat.mul_succ] at this
    omega
  · have : nboutputs * (k + 1) ≤ nboutputs * j := Nat.mul_le_mul_left _ hkj
    rw [Nat.mul_succ] at this
    omega

/-- The head after the copy of the tail. -/
theorem frameAt_tailToHead (h : k < c.lagrangeNum) :
    (frameAt c.tailToHead k : Frame S nboutputs) = frameAt c.rxbuf (c.nframes + k) := by
  funext channel
  have hlt := channel.isLt
  have hk : nboutputs * (k + 1) ≤ nboutputs * c.lagrangeNum := Nat.mul_le_mul_left _ h
  rw [Nat.mul_succ, Nat.mul_comm nboutputs c.lagrangeNum] at hk
  rw [frameAt, RxStream.tailToHead, memmove, if_pos ⟨Nat.zero_le _, by omega⟩, frameAt]
  congr 1
  ring_nf
  omega

/-- The frames of `rxbuf` up to the last one that was read or made up. -/
def signal (nboutputs L : Nat) (s : Turns S) : List (Frame S nboutputs) :=
  (List.range (s.lframe + L)).map (frameAt s.rxbuf)

/-- The frames that were put into the port buffers. -/
def sent (s : PortTurns S nboutputs) : List (Frame S nboutputs) :=
  (List.range s.lframe).map fun frame channel => s.buffers channel frame

variable {s : Turns S} {p : PortTurns S nboutputs} {slot : Slot S nboutputs}
  {smooths : Nat → Bool}

theorem signal_take {m : Nat} (h : m ≤ s.lframe + L) :
    (signal nboutputs L s).take m = (List.range m).map (frameAt s.rxbuf) := by
  rw [signal, ← List.map_take, List.take_range, Nat.min_eq_left h]

@[simp] theorem length_signal : (signal nboutputs L s).length = s.lframe + L := by simp [signal]

theorem map_frameAt_setFrame (k : Nat) :
    (List.range (k + 1)).map (frameAt (setFrame rxbuf k x)) =
      (List.range k).map (frameAt rxbuf) ++ [x] := by
  rw [List.range_succ, List.map_append, List.map_singleton, frameAt_setFrame_self]
  congr 1
  apply List.map_congr_left
  intro j hj
  exact frameAt_setFrame_ne (List.mem_range.mp hj).ne

theorem turn_concealed (ops : SampleOps S) (L : Nat) (smooths : Nat → Bool) (h : s.llost < 2) :
    turn ops L smooths s (none : Slot S nboutputs) =
      ⟨setFrame s.rxbuf (s.lframe + L) (concealed ops s.rxbuf (s.lframe + L) : Frame S nboutputs),
        s.lframe + 1, s.lost + 1, s.llost + 1⟩ :=
  if_pos (Nat.succ_lt_succ h)

/-- A third missing frame in a row gets no frame. -/
theorem turn_dropped (ops : SampleOps S) (L : Nat) (smooths : Nat → Bool) (h : ¬s.llost < 2) :
    turn ops L smooths s (none : Slot S nboutputs) =
      ⟨s.rxbuf, s.lframe, s.lost + 1, s.llost + 1⟩ :=
  if_neg fun hlt => h (Nat.lt_of_succ_lt_succ hlt)

theorem turn_some (ops : SampleOps S) (L : Nat) (smooths : Nat → Bool) (s : Turns S)
    (x : Frame S nboutputs) :
    turn ops L smooths s (some x) =
      ⟨setFrame s.rxbuf (s.lframe + L)
          (if smooths s.llost then smoothed ops s.rxbuf (s.lframe + L) x else x),
        s.lframe + 1, s.lost, 0⟩ := rfl

/-- A turn puts one frame behind the signal, or leaves the memory as it is. -/
theorem turn_cases (ops : SampleOps S) (smooths : Nat → Bool) (L : Nat) (s : Turns S)
    (slot : Slot S nboutputs) :
    (∃ x : Frame S nboutputs,
      (turn ops L smooths s slot).rxbuf = setFrame s.rxbuf (s.lframe + L) x ∧
      (turn ops L smooths s slot).lframe = s.lframe + 1) ∨
    (turn ops L smooths s slot).rxbuf = s.rxbuf ∧
      (turn ops L smooths s slot).lframe = s.lframe := by
  cases slot with
  | none =>
    by_cases hlost : s.llost < 2
    · rw [turn_concealed ops L smooths hlost]
      exact Or.inl ⟨_, rfl, rfl⟩
    · rw [turn_dropped ops L smooths hlost]
      exact Or.inr ⟨rfl, rfl⟩
  | some x => exact Or.inl ⟨_, rfl, rfl⟩

theorem signal_append {t : Turns S} (hrxbuf : t.rxbuf = setFrame s.rxbuf (s.lframe + L) x)
    (hlframe : t.lframe = s.lframe + 1) :
    signal nboutputs L t = signal nboutputs L s ++ [x] := by
  rw [signal, hrxbuf, hlframe, Nat.add_right_comm]
  exact map_frameAt_setFrame _

/-- The port buffers get the signal from its start. -/
theorem portTurn_sent (h : sent p = (signal nboutputs L p.toTurns).take p.lframe) :
    sent (portTurn ops L p slot) =
      (signal nboutputs L (portTurn ops L p slot).toTurns).take (portTurn ops L p slot).lframe := by
  set t := turn ops L nonInterleavedSmooths p.toTurns slot with ht
  have hturns : (portTurn ops L p slot).toTurns = t := rfl
  have hbuffers : (portTurn ops L p slot).buffers =
      if t.lframe = p.lframe then p.buffers else deliver p.buffers t.rxbuf p.lframe := rfl
  have hcases := turn_cases ops nonInterleavedSmooths L p.toTurns slot
  rw [← ht] at hcases
  rw [sent, hturns, hbuffers]
  rcases hcases with ⟨x, hput, hlframe⟩ | ⟨hrxbuf, hlframe⟩
  · have hsignal := signal_append hput hlframe
    have hold : (List.range p.lframe).map (fun frame channel => p.buffers channel frame) =
        (List.range p.lframe).map (frameAt t.rxbuf) := by
      rw [← signal_take (s := t) (L := L) (by omega), hsignal,
        List.take_append_of_le_length (by simp), ← h]
      rfl
    rw [hlframe, if_neg (by omega), signal_take (by omega), List.range_succ, List.map_append,
      List.map_append, ← hold, List.map_singleton, List.map_singleton]
    congr 1
    · apply List.map_congr_left
      intro frame hframe
      funext channel
      exact Function.update_of_ne (List.mem_range.mp hframe).ne _ _
    · simp [deliver]
  · rw [hlframe, if_pos rfl, signal, hrxbuf, hlframe]
    exact h

theorem foldl_portTurn_sent (ops : SampleOps S) (slots : List (Slot S nboutputs))
    (h : sent p = (signal nboutputs L p.toTurns).take p.lframe) :
    sent (slots.foldl (portTurn ops L) p) =
      (signal nboutputs L (slots.foldl (portTurn ops L) p).toTurns).take
        (slots.foldl (portTurn ops L) p).lframe := by
  induction slots generalizing p with
  | nil => exact h
  | cons slot slots ih => exact ih (portTurn_sent h)

variable {slots : List (Slot S nboutputs)}

theorem frameAt_setFrame (rxbuf : Nat → S) (k : Nat) (x : Frame S nboutputs) (j : Nat) :
    (frameAt (setFrame rxbuf k x) j : Frame S nboutputs) =
      if j = k then x else frameAt rxbuf j := by
  split_ifs with h
  · rw [h, frameAt_setFrame_self]
  · exact frameAt_setFrame_ne h

/-- The frames of the signal do not change any more. -/
theorem foldl_turn_frameAt (ops : SampleOps S) (smooths : Nat → Bool)
    (slots : List (Slot S nboutputs)) (h : j < s.lframe + L) :
    (frameAt (slots.foldl (turn ops L smooths) s).rxbuf j : Frame S nboutputs) =
      frameAt s.rxbuf j := by
  induction slots generalizing s with
  | nil => rfl
  | cons slot slots ih =>
    rw [List.foldl_cons]
    rcases turn_cases ops smooths L s slot with ⟨x, hrxbuf, hlframe⟩ | ⟨hrxbuf, hlframe⟩
    · rw [ih (by omega), hrxbuf, frameAt_setFrame_ne (by omega)]
    · rw [ih (by omega), hrxbuf]

theorem foldl_turn_lost (ops : SampleOps S) (smooths : Nat → Bool) (L : Nat) (s : Turns S)
    (slots : List (Slot S nboutputs)) :
    (slots.foldl (turn ops L smooths) s).lost = s.lost + slots.countP (·.isNone) := by
  induction slots generalizing s with
  | nil => rfl
  | cons slot slots ih =>
    rw [List.foldl_cons, ih]
    cases slot with
    | none =>
      have hlost : (turn ops L smooths s (none : Slot S nboutputs)).lost = s.lost + 1 := by
        rw [turn]
        split <;> rfl
      rw [hlost, List.countP_cons_of_pos rfl]
      omega
    | some x =>
      rw [List.countP_cons_of_neg (by simp)]
      rfl

/-- A wholly lost period. -/
def WhollyLost (slots : List (Slot S nboutputs)) : Prop :=
  slots ≠ [] ∧ ∀ slot ∈ slots, slot = none

instance (slots : List (Slot S nboutputs)) : Decidable (WhollyLost slots) :=
  decidable_of_iff (slots ≠ [] ∧ ∀ slot ∈ slots, slot.isNone) (by simp [WhollyLost])

/-- Every turn is lost iff the period is wholly lost. -/
theorem countP_isNone_iff :
    slots.countP (·.isNone) ≠ 0 ∧ slots.countP (·.isNone) = slots.length ↔ WhollyLost slots := by
  rw [List.countP_eq_length, WhollyLost]
  constructor
  · rintro ⟨hne, hall⟩
    refine ⟨?_, ?_⟩
    · rintro rfl
      exact hne rfl
    · intro slot hs
      simpa using hall slot hs
  · rintro ⟨hne, hall⟩
    have hall' : ∀ slot ∈ slots, slot.isNone = true := by
      intro slot hs
      simp [hall slot hs]
    refine ⟨?_, hall'⟩
    rw [List.countP_eq_length.mpr hall']
    simpa using hne

theorem foldl_turn_lframe_le (ops : SampleOps S) (smooths : Nat → Bool) (L : Nat) (s : Turns S)
    (slots : List (Slot S nboutputs)) :
    s.lframe ≤ (slots.foldl (turn ops L smooths) s).lframe ∧
      (slots.foldl (turn ops L smooths) s).lframe ≤ s.lframe + slots.length := by
  induction slots generalizing s with
  | nil => exact ⟨le_rfl, le_rfl⟩
  | cons slot slots ih =>
    obtain ⟨hlow, hhigh⟩ := ih (turn ops L smooths s slot)
    rw [List.foldl_cons, List.length_cons]
    rcases turn_cases ops smooths L s slot with ⟨-, -, hlframe⟩ | ⟨-, hlframe⟩ <;> omega

theorem foldl_deliver (buffers : Ports S nboutputs) (rxbuf : Nat → S) (start count frame : Nat)
    (channel : Fin nboutputs) :
    (List.range' start count).foldl (deliver · rxbuf) buffers channel frame =
      if start ≤ frame ∧ frame < start + count then frameAt rxbuf frame channel
      else buffers channel frame := by
  induction count with
  | zero => simp
  | succ count ih =>
    rw [List.range'_1_concat, List.foldl_append, List.foldl_cons, List.foldl_nil, deliver]
    by_cases heq : frame = start + count
    · subst heq
      rw [Function.update_self, if_pos (by omega)]
    · rw [Function.update_of_ne heq, ih]
      split_ifs <;> first | rfl | omega

theorem foldl_portTurn_toTurns (ops : SampleOps S) (L : Nat) (p : PortTurns S nboutputs)
    (slots : List (Slot S nboutputs)) :
    (slots.foldl (portTurn ops L) p).toTurns =
      slots.foldl (turn ops L nonInterleavedSmooths) p.toTurns := by
  induction slots generalizing p with
  | nil => rfl
  | cons slot slots ih => exact ih (portTurn ops L p slot)

/-- A port buffer has its old content from frame `lframe` on. -/
theorem foldl_portTurn_unwritten (slots : List (Slot S nboutputs)) {frame : Nat}
    (h : (slots.foldl (portTurn ops L) p).lframe ≤ frame) (channel : Fin nboutputs) :
    (slots.foldl (portTurn ops L) p).buffers channel frame = p.buffers channel frame := by
  induction slots generalizing p with
  | nil => rfl
  | cons slot slots ih =>
    rw [List.foldl_cons] at h ⊢
    rw [ih h]
    have hle := (foldl_turn_lframe_le ops nonInterleavedSmooths L (portTurn ops L p slot).toTurns
      slots).1
    rw [← foldl_portTurn_toTurns] at hle
    have hbuffers : (portTurn ops L p slot).buffers =
        if (portTurn ops L p slot).lframe = p.lframe then p.buffers
        else deliver p.buffers (portTurn ops L p slot).rxbuf p.lframe := rfl
    rw [hbuffers]
    split_ifs with hsame
    · rfl
    · have hcases := turn_cases ops nonInterleavedSmooths L p.toTurns slot
      rcases hcases with ⟨-, -, hlframe⟩ | ⟨-, hlframe⟩
      · have hlt : (portTurn ops L p slot).lframe = p.lframe + 1 := hlframe
        exact Function.update_of_ne (by omega) _ _
      · exact absurd hlframe hsame

end Vban.Playback
