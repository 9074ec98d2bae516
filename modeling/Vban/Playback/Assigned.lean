import Mathlib.Data.List.Infix
import Mathlib.Logic.Nontrivial.Basic
import Vban.Playback.Agreement

/-! The samples of a period that `read_from_ringbuffer_async_non_interleaved` assigns. -/
namespace Vban.Playback

variable {S : Type} {nboutputs : Nat} {ops : SampleOps S} {c : RxStream S nboutputs}
  {slots : List (Slot S nboutputs)} {buffers : Ports S nboutputs}

/-- The call decides what is in the port buffers there, whatever the backend left in them. -/
def Assigned (ops : SampleOps S) (c : RxStream S nboutputs) (slots : List (Slot S nboutputs))
    (channel : Fin nboutputs) (frame : Nat) : Prop :=
  ∃ x, ∀ buffers, (readFromRingbufferAsyncNonInterleaved ops c buffers slots).2 channel frame = x

/-- Three frames in a row are missing. -/
def Gap (slots : List (Slot S nboutputs)) : Prop :=
  [true, true, true] <:+: slots.map (·.isNone)

instance (slots : List (Slot S nboutputs)) : Decidable (Gap slots) :=
  inferInstanceAs (Decidable (_ <:+: _))

theorem infix_replicate_append {m : Nat} (hm : m < 3) (missing : List Bool) :
    [true, true, true] <:+: List.replicate m true ++ false :: missing ↔
      [true, true, true] <:+: missing := by
  have hcases : m = 0 ∨ m = 1 ∨ m = 2 := by omega
  rcases hcases with rfl | rfl | rfl
  · simp [List.infix_cons_iff]
  · simp [List.infix_cons_iff]
  · simp [List.infix_cons_iff]

/-- The loop plays each frame of the period when there is no gap, also with the frames that were
missing just before. -/
theorem steady_iff_no_gap (ops : SampleOps S) (llost : Nat) (x₁ x₂ x₃ : Frame S nboutputs)
    (slots : List (Slot S nboutputs)) :
    Steady ops 0 llost x₁ x₂ x₃ slots ↔
      ¬[true, true, true] <:+: List.replicate (min llost 2) true ++ slots.map (·.isNone) := by
  induction slots generalizing llost x₁ x₂ x₃ with
  | nil =>
    refine ⟨fun _ hgap => ?_, fun _ => trivial⟩
    have hlength := hgap.length_le
    simp only [List.map_nil, List.append_nil, List.length_cons, List.length_nil,
      List.length_replicate] at hlength
    omega
  | cons slot slots ih =>
    cases slot with
    | none =>
      rw [Steady, Nat.zero_sub, ih, List.map_cons, Option.isNone_none]
      by_cases hlost : llost < 2
      · have hmin : min llost 2 = llost ∧ min (llost + 1) 2 = llost + 1 := by omega
        rw [hmin.1, hmin.2, List.replicate_succ', List.append_assoc, List.singleton_append]
        exact and_iff_right hlost
      · have hmin : min llost 2 = 2 := by omega
        rw [hmin]
        constructor
        · intro h
          exact absurd h.1 hlost
        · intro h
          exact absurd ⟨[], slots.map (·.isNone), rfl⟩ h
    | some x =>
      rw [Steady, Nat.zero_sub, ih, List.map_cons, Option.isNone_some,
        infix_replicate_append (by omega)]
      constructor
      · intro h
        exact h.2
      · intro h
        exact ⟨fun _ hv => absurd hv (Nat.lt_irrefl 0), h⟩

theorem lframe_full_iff_no_gap (hn : slots.length = c.nframes) :
    (nonInterleavedTurns ops c slots).lframe = c.nframes ↔ ¬Gap slots := by
  have hfull := lframe_eq_iff ops nonInterleavedSmooths c.lagrangeNum c.start slots
    (fun _ => ops.zero) (fun _ => ops.zero) (fun _ => ops.zero)
  have hgap := steady_iff_no_gap ops 0 (fun _ => ops.zero) (fun _ => ops.zero)
    (fun _ => ops.zero) slots
  have hstart : c.start.lframe + slots.length = c.nframes := (Nat.zero_add _).trans hn
  rw [hstart] at hfull
  exact hfull.trans hgap

/-- The first frame that the loop does not reach is not reached by the final move either. -/
theorem not_assigned_lframe [Nontrivial S] (hn : slots.length = c.nframes)
    (hlt : (nonInterleavedTurns ops c slots).lframe < c.nframes)
    (hsound : ¬(WhollyLost slots ∧ 8 ≤ c.lostPacCnt)) (channel : Fin nboutputs) :
    ¬Assigned ops c slots channel (nonInterleavedTurns ops c slots).lframe := by
  rintro ⟨x, hx⟩
  obtain ⟨y, hy⟩ := exists_ne x
  have hmove : ¬((nonInterleavedTurns ops c slots).lframe < c.nframes >>> 1 ∧
      c.nframes - 1 - (nonInterleavedTurns ops c slots).lframe ≤
        (nonInterleavedTurns ops c slots).lframe) := by
    rw [Nat.shiftRight_eq_div_pow]
    omega
  have hports := hx fun _ _ => y
  rw [nonInterleaved_ports hn hlt channel, if_neg hsound, if_neg hmove,
    portTurns_unwritten (Nat.le_refl _)] at hports
  exact hy hports

/-- A period is played in full when no three frames in a row are missing, or when it is silenced. -/
theorem assigned_iff [Nontrivial S] (hn : slots.length = c.nframes) :
    (∀ channel frame, frame < c.nframes → Assigned ops c slots channel frame) ↔
      nboutputs = 0 ∨ ¬Gap slots ∨ WhollyLost slots ∧ 8 ≤ c.lostPacCnt := by
  have hle : (nonInterleavedTurns ops c slots).lframe ≤ c.nframes := by
    have hbound :=
      (foldl_turn_lframe_le ops nonInterleavedSmooths c.lagrangeNum c.start slots).2
    rw [hn] at hbound
    exact hbound.trans_eq (Nat.zero_add _)
  constructor
  · intro hall
    by_contra hnone
    obtain ⟨hoff, hnone⟩ := not_or.mp hnone
    obtain ⟨hgap, hsound⟩ := not_or.mp hnone
    have hlt := Nat.lt_of_le_of_ne hle fun hfull => hgap ((lframe_full_iff_no_gap hn).mp hfull)
    have hpos : 0 < nboutputs := Nat.pos_of_ne_zero hoff
    exact not_assigned_lframe hn hlt hsound ⟨0, hpos⟩ (hall _ _ hlt)
  · rintro (rfl | hgap | hsilent) channel frame hframe
    · exact channel.elim0
    · have hfull : (nonInterleavedTurns ops c slots).lframe = c.nframes :=
        (lframe_full_iff_no_gap hn).mpr hgap
      refine ⟨if WhollyLost slots ∧ 8 ≤ c.lostPacCnt then ops.zero
        else frameAt (nonInterleavedTurns ops c slots).rxbuf frame channel, fun buffers => ?_⟩
      have hmove : ¬((nonInterleavedTurns ops c slots).lframe < c.nframes >>> 1 ∧
          c.nframes - 1 - (nonInterleavedTurns ops c slots).lframe ≤ frame) := by
        rw [hfull, Nat.shiftRight_eq_div_pow]
        omega
      rw [nonInterleaved_ports hn hframe channel, if_neg hmove,
        portTurns_written (by rwa [hfull])]
    · refine ⟨ops.zero, fun buffers => ?_⟩
      rw [nonInterleaved_ports hn hframe channel, if_pos hsilent]

/-- The second of two missing frames. -/
theorem assigned_two_missing :
    Assigned rationalOps monoStream [some fun _ => 3, none, none, some fun _ => 5] 0 2 := by
  have hgap : ¬Gap ([some fun _ => 3, none, none, some fun _ => 5] : List (Slot Rat 1)) := by
    decide
  exact (assigned_iff rfl).mpr (.inr (.inl hgap)) 0 2 (by decide)

/-- The third missing frame and the one after it keep what the backend left in the buffer. -/
theorem not_assigned_four_missing :
    (readFromRingbufferAsyncNonInterleaved rationalOps monoStream (fun _ _ => 9)
        [none, none, none, none]).2 0 2 = 9 ∧
      (readFromRingbufferAsyncNonInterleaved rationalOps monoStream (fun _ _ => 8)
        [none, none, none, none]).2 0 2 = 8 ∧
      ¬∀ channel frame, frame < monoStream.nframes →
        Assigned rationalOps monoStream [none, none, none, none] channel frame := by
  have hnine : (readFromRingbufferAsyncNonInterleaved rationalOps monoStream (fun _ _ => 9)
      [none, none, none, none]).2 0 2 = 9 := by decide +kernel
  have height : (readFromRingbufferAsyncNonInterleaved rationalOps monoStream (fun _ _ => 8)
      [none, none, none, none]).2 0 2 = 8 := by decide +kernel
  refine ⟨hnine, height, fun hall => ?_⟩
  obtain ⟨x, hx⟩ := hall 0 2 (by decide)
  have hsame : (9 : Rat) = 8 := (hnine.symm.trans (hx _)).trans ((hx _).symm.trans height)
  revert hsame
  decide +kernel

end Vban.Playback
