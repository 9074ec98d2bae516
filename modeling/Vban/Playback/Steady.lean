import Vban.Playback.Turns

/-! When the loops of the two readers leave the same period. -/
namespace Vban.Playback

variable {S : Type} {nboutputs L n : Nat} {ops : SampleOps S} {s t : Turns S}
  {slots : List (Slot S nboutputs)}

/-- No third frame in a row is missing, and smoothing does not alter the frames that follow no
missing one, as long as the period plays them. Here `visible` is how many of the frames it plays,
`llost` how many were missing just before, and `x₁`, `x₂`, `x₃` come before them, the last one
first. -/
def Steady (ops : SampleOps S) : (visible llost : Nat) → (x₁ x₂ x₃ : Frame S nboutputs) →
    List (Slot S nboutputs) → Prop
  | _, _, _, _, _, [] => True
  | visible, llost, x₁, x₂, x₃, none :: slots =>
    llost < 2 ∧ Steady ops (visible - 1) (llost + 1)
      (fun channel => ops.lagrange (x₁ channel) (x₂ channel) (x₃ channel)) x₁ x₂ slots
  | visible, llost, x₁, x₂, x₃, some x :: slots =>
    (llost = 0 → 0 < visible →
      (fun channel => ops.smooth (x channel) (x₁ channel) (x₂ channel) (x₃ channel)) = x) ∧
    Steady ops (visible - 1) 0 (if llost = 0 then x else
      fun channel => ops.smooth (x channel) (x₁ channel) (x₂ channel) (x₃ channel)) x₁ x₂ slots

/-- Behind the period only the number of frames counts. -/
theorem lframe_eq_iff (ops : SampleOps S) (smooths : Nat → Bool) (L : Nat) (s : Turns S)
    (slots : List (Slot S nboutputs)) (x₁ x₂ x₃ : Frame S nboutputs) :
    (slots.foldl (turn ops L smooths) s).lframe = s.lframe + slots.length ↔
      Steady ops 0 s.llost x₁ x₂ x₃ slots := by
  induction slots generalizing s x₁ x₂ x₃ with
  | nil => simp [Steady]
  | cons slot slots ih =>
    rw [List.foldl_cons, List.length_cons]
    cases slot with
    | none =>
      rw [Steady]
      by_cases hlost : s.llost < 2
      · rw [turn_concealed ops L smooths hlost, Nat.zero_sub]
        have hih := ih ⟨setFrame s.rxbuf (s.lframe + L)
          (concealed ops s.rxbuf (s.lframe + L) : Frame S nboutputs), s.lframe + 1, s.lost + 1,
          s.llost + 1⟩
        dsimp only at hih
        rw [← hih]
        constructor
        · intro h
          exact ⟨hlost, by omega⟩
        · intro h
          omega
      · rw [turn_dropped ops L smooths hlost]
        have hle := (foldl_turn_lframe_le ops smooths L
          ⟨s.rxbuf, s.lframe, s.lost + 1, s.llost + 1⟩ slots).2
        dsimp only at hle
        constructor
        · intro h
          omega
        · intro h
          exact absurd h.1 hlost
    | some x =>
      have hturn : (turn ops L smooths s (some x)).lframe = s.lframe + 1 ∧
          (turn ops L smooths s (some x)).llost = 0 := ⟨rfl, rfl⟩
      have hih := ih (turn ops L smooths s (some x))
      rw [hturn.1, hturn.2] at hih
      rw [Steady, Nat.zero_sub, ← hih]
      constructor
      · intro h
        exact ⟨fun _ hv => absurd hv (Nat.lt_irrefl 0), by omega⟩
      · intro h
        omega

/-- The two loops agree on the signal so far. -/
structure SameSignal (nboutputs L : Nat) (s t : Turns S) : Prop where
  lframe_eq : t.lframe = s.lframe
  llost_eq : t.llost = s.llost
  frames : ∀ j, j < s.lframe + L →
    (frameAt t.rxbuf j : Frame S nboutputs) = frameAt s.rxbuf j

/-- Both loops put the same frame behind the signal. -/
theorem SameSignal.put (h : SameSignal nboutputs L s t) (x : Frame S nboutputs)
    (lost lost' llost : Nat) :
    SameSignal nboutputs L ⟨setFrame s.rxbuf (s.lframe + L) x, s.lframe + 1, lost, llost⟩
      ⟨setFrame t.rxbuf (t.lframe + L) x, t.lframe + 1, lost', llost⟩ := by
  refine ⟨congrArg (· + 1) h.lframe_eq, rfl, ?_⟩
  intro j hj
  change (frameAt (setFrame t.rxbuf (t.lframe + L) x) j : Frame S nboutputs) =
    frameAt (setFrame s.rxbuf (s.lframe + L) x) j
  change j < s.lframe + 1 + L at hj
  rw [frameAt_setFrame, frameAt_setFrame, h.lframe_eq]
  split_ifs with heq
  · rfl
  · exact h.frames j (by omega)

theorem SameSignal.concealed_eq (h : SameSignal nboutputs L s t) (hL : 3 ≤ L) :
    (concealed ops t.rxbuf (t.lframe + L) : Frame S nboutputs) =
      concealed ops s.rxbuf (s.lframe + L) := by
  funext channel
  rw [concealed, concealed, h.lframe_eq, h.frames _ (by omega), h.frames _ (by omega),
    h.frames _ (by omega)]

theorem SameSignal.smoothed_eq (h : SameSignal nboutputs L s t) (hL : 3 ≤ L)
    (x : Frame S nboutputs) :
    smoothed ops t.rxbuf (t.lframe + L) x = smoothed ops s.rxbuf (s.lframe + L) x := by
  funext channel
  rw [smoothed, smoothed, h.lframe_eq, h.frames _ (by omega), h.frames _ (by omega),
    h.frames _ (by omega)]

/-- The frames of the period that the two loops leave. -/
def SamePeriod (n : Nat) (s t : Turns S) (nboutputs : Nat) : Prop :=
  t.lframe = n ∧ ∀ j, j < n → (frameAt t.rxbuf j : Frame S nboutputs) = frameAt s.rxbuf j

/-- A full period takes all its frames from the slots. -/
theorem SamePeriod.le_length {smooths : Nat → Bool}
    (h : SamePeriod n s (slots.foldl (turn ops L smooths) t) nboutputs) :
    n ≤ t.lframe + slots.length := by
  have hle := (foldl_turn_lframe_le ops smooths L t slots).2
  rwa [h.1] at hle

/-- The period shows what the loops put into it. -/
theorem SamePeriod.put_eq {rx ry : Nat → S} {x y : Frame S nboutputs}
    {smooths smooths' : Nat → Bool} {lframe lost lost' llost llost' : Nat}
    (h : SamePeriod n
      (slots.foldl (turn ops L smooths) ⟨setFrame rx (lframe + L) x, lframe + 1, lost, llost⟩)
      (slots.foldl (turn ops L smooths') ⟨setFrame ry (lframe + L) y, lframe + 1, lost', llost'⟩)
      nboutputs) (hplayed : lframe + L < n) : y = x := by
  have heq := h.2 (lframe + L) hplayed
  rw [foldl_turn_frameAt ops _ slots (by dsimp only; omega),
    foldl_turn_frameAt ops _ slots (by dsimp only; omega)] at heq
  dsimp only at heq
  rwa [frameAt_setFrame_self, frameAt_setFrame_self] at heq

/-- Once the period is full only the number of frames can still differ. -/
theorem samePeriod_iff_of_full (h : SameSignal nboutputs L s t)
    (hn : s.lframe + slots.length = n) (hfull : n ≤ s.lframe + L)
    (x₁ x₂ x₃ : Frame S nboutputs) :
    SamePeriod n (slots.foldl (turn ops L asyncSmooths) s)
        (slots.foldl (turn ops L nonInterleavedSmooths) t) nboutputs ↔
      Steady ops 0 s.llost x₁ x₂ x₃ slots := by
  have hlframe := h.lframe_eq
  rw [← h.llost_eq, ← lframe_eq_iff ops nonInterleavedSmooths L t slots, hlframe, hn]
  constructor
  · rintro ⟨hl, -⟩
    exact hl
  · intro hl
    refine ⟨hl, ?_⟩
    intro j hj
    rw [foldl_turn_frameAt ops nonInterleavedSmooths slots (show j < t.lframe + L by omega),
      foldl_turn_frameAt ops asyncSmooths slots (show j < s.lframe + L by omega)]
    exact h.frames j (by omega)

/-- Once both loops put the same frame behind the signal, the rest of the slots decides. -/
def RestDecides (ops : SampleOps S) (L n : Nat) (s t : Turns S) (slots : List (Slot S nboutputs)) :
    Prop :=
  ∀ (x : Frame S nboutputs) lost lost' llost, llost ≤ 2 →
    (SamePeriod n
      (slots.foldl (turn ops L asyncSmooths)
        ⟨setFrame s.rxbuf (s.lframe + L) x, s.lframe + 1, lost, llost⟩)
      (slots.foldl (turn ops L nonInterleavedSmooths)
        ⟨setFrame t.rxbuf (t.lframe + L) x, t.lframe + 1, lost', llost⟩) nboutputs ↔
      Steady ops (n - (s.lframe + L) - 1) llost x (frameAt s.rxbuf (s.lframe + L - 1))
        (frameAt s.rxbuf (s.lframe + L - 2)) slots)

theorem RestDecides.lost (hrest : RestDecides ops L n s t slots)
    (h : SameSignal nboutputs L s t) (hL : 3 ≤ L) (hn : s.lframe + (slots.length + 1) = n) :
    SamePeriod n
        (slots.foldl (turn ops L asyncSmooths)
          (turn ops L asyncSmooths s (none : Slot S nboutputs)))
        (slots.foldl (turn ops L nonInterleavedSmooths)
          (turn ops L nonInterleavedSmooths t (none : Slot S nboutputs))) nboutputs ↔
      Steady ops (n - (s.lframe + L)) s.llost (frameAt s.rxbuf (s.lframe + L - 1))
        (frameAt s.rxbuf (s.lframe + L - 2)) (frameAt s.rxbuf (s.lframe + L - 3))
        (none :: slots) := by
  by_cases hlost : s.llost < 2
  · rw [turn_concealed ops L _ hlost, turn_concealed ops L _ (by rwa [h.llost_eq]),
      h.concealed_eq hL, h.llost_eq, hrest _ _ _ _ (by omega)]
    constructor
    · intro hsteady
      exact ⟨hlost, hsteady⟩
    · intro hsteady
      exact hsteady.2
  · rw [turn_dropped ops L _ hlost, turn_dropped ops L _ (by rwa [h.llost_eq])]
    constructor
    · intro hsame
      have hle := hsame.le_length
      dsimp only at hle
      rw [h.lframe_eq] at hle
      omega
    · intro hsteady
      exact absurd hsteady.1 hlost

/-- The loops differ in the smoothing of a frame that comes without a loss before it. -/
theorem RestDecides.received (hrest : RestDecides ops L n s t slots)
    (h : SameSignal nboutputs L s t) (hL : 3 ≤ L) (hfull : ¬n ≤ s.lframe + L)
    (hllost : s.llost ≤ 2) (x : Frame S nboutputs) :
    SamePeriod n
        (slots.foldl (turn ops L asyncSmooths) (turn ops L asyncSmooths s (some x)))
        (slots.foldl (turn ops L nonInterleavedSmooths)
          (turn ops L nonInterleavedSmooths t (some x))) nboutputs ↔
      Steady ops (n - (s.lframe + L)) s.llost (frameAt s.rxbuf (s.lframe + L - 1))
        (frameAt s.rxbuf (s.lframe + L - 2)) (frameAt s.rxbuf (s.lframe + L - 3))
        (some x :: slots) := by
  rw [turn_some, turn_some, h.smoothed_eq hL, h.llost_eq]
  by_cases hz : s.llost = 0
  · have hasync : asyncSmooths s.llost = true := by simp [asyncSmooths, hz]
    have hnon : nonInterleavedSmooths s.llost = false := by simp [nonInterleavedSmooths, hz]
    rw [hasync, hnon, if_pos rfl, if_neg Bool.false_ne_true]
    by_cases hfix : smoothed ops s.rxbuf (s.lframe + L) x = x
    · rw [hfix, hrest x _ _ _ (by omega)]
      constructor
      · intro hsteady
        exact ⟨fun _ _ => hfix, by rwa [if_pos hz]⟩
      · intro hsteady
        have := hsteady.2
        rwa [if_pos hz] at this
    · constructor
      · intro hsame
        rw [h.lframe_eq] at hsame
        exact absurd (hsame.put_eq (by omega)).symm hfix
      · intro hsteady
        exact absurd (hsteady.1 hz (by omega)) hfix
  · have hasync : asyncSmooths s.llost = true := by simp [asyncSmooths]; omega
    have hnon : nonInterleavedSmooths s.llost = true := by
      simp [nonInterleavedSmooths]
      omega
    rw [hasync, hnon, if_pos rfl, hrest _ _ _ _ (by omega)]
    constructor
    · intro hsteady
      exact ⟨fun h0 => absurd h0 hz, by rwa [if_neg hz]⟩
    · intro hsteady
      have := hsteady.2
      rwa [if_neg hz] at this

/-- The loops leave the same period iff the slots are steady. -/
theorem samePeriod_iff (ops : SampleOps S) (h : SameSignal nboutputs L s t) (hL : 3 ≤ L)
    (hn : s.lframe + slots.length = n) (hllost : s.llost ≤ 2) :
    SamePeriod n (slots.foldl (turn ops L asyncSmooths) s)
        (slots.foldl (turn ops L nonInterleavedSmooths) t) nboutputs ↔
      Steady ops (n - (s.lframe + L)) s.llost (frameAt s.rxbuf (s.lframe + L - 1))
        (frameAt s.rxbuf (s.lframe + L - 2)) (frameAt s.rxbuf (s.lframe + L - 3)) slots := by
  induction slots generalizing s t with
  | nil =>
    simp only [List.foldl_nil, Steady, iff_true]
    rw [List.length_nil] at hn
    refine ⟨h.lframe_eq.trans hn, ?_⟩
    intro j hj
    exact h.frames j (by omega)
  | cons slot slots ih =>
    by_cases hfull : n ≤ s.lframe + L
    · rw [Nat.sub_eq_zero_of_le hfull]
      exact samePeriod_iff_of_full h hn hfull _ _ _
    rw [List.length_cons] at hn
    have hrest : RestDecides ops L n s t slots := by
      intro x lost lost' llost hle
      have hih := ih (h.put x lost lost' llost) (by dsimp only; omega) hle
      dsimp only at hih
      rw [hih, frameAt_setFrame, frameAt_setFrame, frameAt_setFrame, if_pos (by omega),
        if_neg (by omega), if_neg (by omega), show n - (s.lframe + 1 + L) = n - (s.lframe + L) - 1
          by omega, show s.lframe + 1 + L - 2 = s.lframe + L - 1 by omega,
        show s.lframe + 1 + L - 3 = s.lframe + L - 2 by omega]
    rw [List.foldl_cons, List.foldl_cons]
    cases slot with
    | none => exact hrest.lost h hL hn
    | some x => exact hrest.received h hL hfull hllost x

end Vban.Playback
