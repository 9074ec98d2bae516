import Vban.Playback.Period
import Vban.Playback.Steady

/-! When the two readers play the same period. -/
namespace Vban.Playback

variable {nboutputs : Nat} {c : RxStream Rat nboutputs} {slots : List (Slot Rat nboutputs)}
  {buffers : Ports Rat nboutputs}

/-- What `read_from_ringbuffer_async` leaves in `rxbuf` is what its sibling leaves in the port
buffers, whatever these held before. -/
def ReadersAgree (c : RxStream Rat nboutputs) (slots : List (Slot Rat nboutputs)) : Prop :=
  ∀ (buffers : Ports Rat nboutputs) (frame : Nat) (channel : Fin nboutputs), frame < c.nframes →
    (readFromRingbufferAsync rationalOps c slots).rxbuf (nboutputs * frame + channel) =
      (readFromRingbufferAsyncNonInterleaved rationalOps c buffers slots).2 channel frame

/-- What a wholly lost period takes over of the memory is silent: the tail, and the samples behind
the two frames made up that the final move does not overwrite. -/
def SilentMemory (c : RxStream Rat nboutputs) : Prop :=
  (∀ i, i < nboutputs * c.nframes → i < nboutputs * 3 →
    c.rxbuf (nboutputs * c.nframes + i) = 0) ∧
  ∀ i, i < nboutputs * c.nframes → nboutputs * 5 ≤ i →
    ¬(6 ≤ c.nframes ∧ nboutputs * (c.nframes - 3) + 3 ≤ i ∧
      i < nboutputs * (c.nframes - 1) + 3) → c.rxbuf i = 0

/-- When the readers agree. -/
def AgreeWhen (c : RxStream Rat nboutputs) (slots : List (Slot Rat nboutputs)) : Prop :=
  nboutputs = 0 ∨
  if WhollyLost slots ∧ 8 ≤ c.lostPacCnt then c.lostPacCnt = 8 ∨ SilentMemory c
  else Steady rationalOps (c.nframes - c.lagrangeNum) 0 (frameAt c.rxbuf (c.nframes + 2))
    (frameAt c.rxbuf (c.nframes + 1)) (frameAt c.rxbuf c.nframes) slots

/-- The loops fill the period together. -/
theorem lframe_full_iff (hn : slots.length = c.nframes) :
    (asyncTurns rationalOps c slots).lframe = c.nframes ↔
      (nonInterleavedTurns rationalOps c slots).lframe = c.nframes := by
  let x : Frame Rat nboutputs := fun _ => 0
  have hasync := lframe_eq_iff rationalOps asyncSmooths c.lagrangeNum c.start slots x x x
  have hnon := lframe_eq_iff rationalOps nonInterleavedSmooths c.lagrangeNum c.start slots x x x
  have hstart : c.start.lframe + slots.length = c.nframes := (Nat.zero_add _).trans hn
  rw [hstart] at hasync hnon
  exact hasync.trans hnon.symm

theorem shift_full {s : Turns Rat} (h : s.lframe = c.nframes) : c.shift s = s.rxbuf := by
  rw [RxStream.shift, if_neg]
  rw [h, Nat.shiftRight_eq_div_pow]
  omega

/-- Unless the period is silenced, the readers agree iff their loops do. -/
theorem agree_iff_samePeriod (hb : 0 < nboutputs) (hn : slots.length = c.nframes)
    (hsound : ¬(WhollyLost slots ∧ 8 ≤ c.lostPacCnt)) :
    ReadersAgree c slots ↔
      SamePeriod c.nframes (asyncTurns rationalOps c slots)
        (nonInterleavedTurns rationalOps c slots) nboutputs := by
  have hrxbuf : (readFromRingbufferAsync rationalOps c slots).rxbuf =
      c.shift (asyncTurns rationalOps c slots) := by
    rw [async_rxbuf hn, if_neg]
    rintro ⟨hw, h8⟩
    exact hsound ⟨hw, h8.ge⟩
  by_cases hfull : (nonInterleavedTurns rationalOps c slots).lframe = c.nframes
  · have hports : ∀ buffers frame channel, frame < c.nframes →
        (readFromRingbufferAsyncNonInterleaved rationalOps c buffers slots).2 channel frame =
          frameAt (nonInterleavedTurns rationalOps c slots).rxbuf frame channel := by
      intro buffers frame channel hframe
      rw [nonInterleaved_ports hn hframe, if_neg hsound, if_neg,
        portTurns_written (by rwa [hfull])]
      rw [hfull, Nat.shiftRight_eq_div_pow]
      omega
    rw [shift_full ((lframe_full_iff hn).mpr hfull)] at hrxbuf
    constructor
    · intro h
      refine ⟨hfull, ?_⟩
      intro j hj
      funext channel
      rw [← hports (fun _ _ => 0) j channel hj, ← h _ j channel hj, hrxbuf, frameAt]
    · rintro ⟨-, hframes⟩ buffers frame channel hframe
      rw [hports buffers frame channel hframe, hframes frame hframe, hrxbuf, frameAt]
  · constructor
    · intro h
      exfalso
      have hle := (foldl_turn_lframe_le rationalOps nonInterleavedSmooths c.lagrangeNum c.start
        slots).2
      change (nonInterleavedTurns rationalOps c slots).lframe ≤ 0 + slots.length at hle
      -- The port buffer keeps what it held in the first frame that the loop did not reach.
      let frame := (nonInterleavedTurns rationalOps c slots).lframe
      let buffers : Ports Rat nboutputs := fun channel f =>
        c.shift (asyncTurns rationalOps c slots) (nboutputs * f + channel) + 1
      have hframe : frame < c.nframes := by omega
      have heq := h buffers frame ⟨0, hb⟩ hframe
      rw [nonInterleaved_ports hn hframe, if_neg hsound, if_neg,
        portTurns_unwritten (Nat.le_refl _), hrxbuf] at heq
      · have hne : ∀ x : Rat, x ≠ x + 1 := by
          intro x
          simp
        exact hne _ heq
      · rintro ⟨hmove, hlast⟩
        rw [Nat.shiftRight_eq_div_pow] at hmove
        omega
    · rintro ⟨hl, -⟩
      exact absurd hl hfull

section Silence

variable {rxbuf : Nat → Rat} {k i : Nat} {x : Frame Rat nboutputs}

theorem setFrame_outside (h : i < nboutputs * k ∨ nboutputs * (k + 1) ≤ i) :
    setFrame rxbuf k x i = rxbuf i := by
  rw [Nat.mul_succ] at h
  rw [setFrame, dif_neg]
  omega

/-- Silence is continued with silence. -/
theorem setFrame_concealed_silent (hk : 3 ≤ k) (h : ∀ i, i < nboutputs * k → rxbuf i = 0) :
    ∀ i, i < nboutputs * (k + 1) →
      setFrame rxbuf k (concealed rationalOps rxbuf k : Frame Rat nboutputs) i = 0 := by
  have hzero : ∀ j, j < k → ∀ channel : Fin nboutputs, frameAt rxbuf j channel = 0 := by
    intro j hj channel
    have hlt := channel.isLt
    have : nboutputs * (j + 1) ≤ nboutputs * k := Nat.mul_le_mul_left _ hj
    rw [Nat.mul_succ] at this
    exact h _ (by omega)
  intro i hi
  rw [setFrame]
  split_ifs with hin
  · rw [concealed, hzero _ (by omega), hzero _ (by omega), hzero _ (by omega)]
    simp [rationalOps]
  · rw [Nat.mul_succ] at hi
    exact h i (by omega)

/-- Once two frames in a row were made up the loop only counts. -/
theorem foldl_dropped (nboutputs L m : Nat) (s : Turns Rat) (h : ¬s.llost < 2) :
    ((List.replicate m (none : Slot Rat nboutputs)).foldl
        (turn rationalOps L asyncSmooths) s).rxbuf = s.rxbuf ∧
      ((List.replicate m (none : Slot Rat nboutputs)).foldl
        (turn rationalOps L asyncSmooths) s).lframe = s.lframe := by
  induction m generalizing s with
  | zero => exact ⟨rfl, rfl⟩
  | succ m ih =>
    rw [List.replicate_succ, List.foldl_cons, turn_dropped rationalOps L asyncSmooths h]
    exact ih _ (by dsimp only; omega)

/-- The memory after the loop of a wholly lost period. -/
structure LostMemory (c : RxStream Rat nboutputs) (s : Turns Rat) : Prop where
  lframe_eq : s.lframe = min c.nframes 2
  outside : ∀ i, i < nboutputs * 3 ∨ nboutputs * 5 ≤ i → s.rxbuf i = c.tailToHead i
  silent : 2 ≤ c.nframes → (∀ i, i < nboutputs * 3 → c.tailToHead i = 0) →
    ∀ i, i < nboutputs * 5 → s.rxbuf i = 0

theorem lostMemory (hL : c.lagrangeNum = 3) (hn : slots.length = c.nframes)
    (hw : WhollyLost slots) : LostMemory c (asyncTurns rationalOps c slots) := by
  obtain ⟨hne, hall⟩ := hw
  obtain rfl : slots = List.replicate c.nframes none := List.eq_replicate_iff.mpr ⟨hn, hall⟩
  -- The memory after one frame was made up, and after two.
  let x : Frame Rat nboutputs := concealed rationalOps c.tailToHead 3
  let y : Frame Rat nboutputs := concealed rationalOps (setFrame c.tailToHead 3 x) 4
  have hfirst : turn rationalOps 3 asyncSmooths c.start (none : Slot Rat nboutputs) =
      ⟨setFrame c.tailToHead 3 x, 1, 1, 1⟩ := rfl
  have hsecond : turn rationalOps 3 asyncSmooths ⟨setFrame c.tailToHead 3 x, 1, 1, 1⟩
      (none : Slot Rat nboutputs) = ⟨setFrame (setFrame c.tailToHead 3 x) 4 y, 2, 2, 2⟩ := rfl
  rw [asyncTurns, hL]
  rcases hm : c.nframes with _ | _ | m
  · rw [hm] at hne
    exact absurd rfl hne
  · rw [List.replicate_succ, List.replicate_zero, List.foldl_cons, List.foldl_nil, hfirst]
    refine ⟨?_, ?_, ?_⟩
    · dsimp only
      omega
    · intro i hi
      exact setFrame_outside (by omega)
    · intro h2
      omega
  · rw [List.replicate_succ, List.replicate_succ, List.foldl_cons, List.foldl_cons, hfirst, hsecond]
    obtain ⟨hrxbuf, hlframe⟩ := foldl_dropped nboutputs 3 m
      ⟨setFrame (setFrame c.tailToHead 3 x) 4 y, 2, 2, 2⟩ (Nat.lt_irrefl 2)
    refine ⟨?_, ?_, ?_⟩
    · rw [hlframe]
      dsimp only
      omega
    · intro i hi
      rw [hrxbuf]
      exact (setFrame_outside (by omega)).trans (setFrame_outside (by omega))
    · intro _ hhead i hi
      rw [hrxbuf]
      have hthird := setFrame_concealed_silent le_rfl hhead
      exact setFrame_concealed_silent (by decide) hthird i hi

theorem tailToHead_head (hL : c.lagrangeNum = 3) (hi : i < nboutputs * 3) :
    c.tailToHead i = c.rxbuf (nboutputs * c.nframes + i) := by
  rw [RxStream.tailToHead, memmove, hL, Nat.mul_comm 3, if_pos ⟨Nat.zero_le _, by omega⟩,
    Nat.mul_comm c.nframes, Nat.sub_zero]

theorem tailToHead_rest (hL : c.lagrangeNum = 3) (hi : nboutputs * 3 ≤ i) :
    c.tailToHead i = c.rxbuf i := by
  rw [RxStream.tailToHead, memmove, hL, Nat.mul_comm 3, if_neg]
  omega

/-- The final move of a wholly lost period. -/
theorem LostMemory.shift_eq (hL : c.lagrangeNum = 3) {s : Turns Rat} (h : LostMemory c s)
    (hle : 6 ≤ c.nframes) (i : Nat) :
    c.shift s i =
      if nboutputs * (c.nframes - 3) + 3 ≤ i ∧ i < nboutputs * (c.nframes - 1) + 3 then
        s.rxbuf (nboutputs * 2 + 3 + (i - (nboutputs * (c.nframes - 3) + 3)))
      else s.rxbuf i := by
  have hlframe := h.lframe_eq
  have hlf : s.lframe = 2 := by omega
  have hend : nboutputs * (c.nframes - 1) = nboutputs * (c.nframes - 3) + nboutputs * 2 := by
    rw [← Nat.mul_add]
    congr 1
    omega
  rw [RxStream.shift, Nat.shiftRight_eq_div_pow, hlf, hL, if_pos (by omega), memmove,
    Nat.sub_right_comm, show c.nframes - 2 - 1 = c.nframes - 3 by omega]
  have hcond : nboutputs * (c.nframes - 3) + 3 ≤ i ∧
      i < nboutputs * (c.nframes - 3) + 3 + nboutputs * 2 ↔
      nboutputs * (c.nframes - 3) + 3 ≤ i ∧ i < nboutputs * (c.nframes - 1) + 3 := by omega
  simp only [hcond]

/-- It moves nothing else, and in a period of fewer than six frames nothing at all. -/
theorem LostMemory.shift_kept (hL : c.lagrangeNum = 3) {s : Turns Rat} (h : LostMemory c s)
    (hout : ¬(6 ≤ c.nframes ∧ nboutputs * (c.nframes - 3) + 3 ≤ i ∧
      i < nboutputs * (c.nframes - 1) + 3)) : c.shift s i = s.rxbuf i := by
  have hlframe := h.lframe_eq
  by_cases hle : 6 ≤ c.nframes
  · rw [h.shift_eq hL hle, if_neg fun hin => hout ⟨hle, hin⟩]
  · rw [RxStream.shift, Nat.shiftRight_eq_div_pow, if_neg]
    omega

/-- The memory of a wholly lost period is silent iff what it takes over is. -/
theorem shift_silent_iff (hL : c.lagrangeNum = 3) {s : Turns Rat} (h : LostMemory c s) :
    (∀ i, i < nboutputs * c.nframes → c.shift s i = 0) ↔ SilentMemory c := by
  constructor
  · intro hsilent
    refine ⟨?_, ?_⟩
    · intro i hi hhead
      have hout : ¬(6 ≤ c.nframes ∧ nboutputs * (c.nframes - 3) + 3 ≤ i ∧
          i < nboutputs * (c.nframes - 1) + 3) := by
        rintro ⟨hle, hlow, -⟩
        have : nboutputs * 3 ≤ nboutputs * (c.nframes - 3) := Nat.mul_le_mul_left _ (by omega)
        omega
      rw [← tailToHead_head hL hhead, ← h.outside i (Or.inl hhead), ← h.shift_kept hL hout]
      exact hsilent i hi
    · intro i hi hrest hout
      rw [← tailToHead_rest hL (by omega), ← h.outside i (Or.inr hrest), ← h.shift_kept hL hout]
      exact hsilent i hi
  · rintro ⟨hhead, hrest⟩ i hi
    have hlow : nboutputs * 3 < nboutputs * c.nframes → ∀ i, i < nboutputs * 5 →
        s.rxbuf i = 0 := by
      intro hlt
      have hn : 3 < c.nframes := Nat.lt_of_mul_lt_mul_left hlt
      apply h.silent (by omega)
      intro i hi
      rw [tailToHead_head hL hi]
      exact hhead i (by omega) hi
    have hplain : ¬(6 ≤ c.nframes ∧ nboutputs * (c.nframes - 3) + 3 ≤ i ∧
        i < nboutputs * (c.nframes - 1) + 3) → s.rxbuf i = 0 := by
      intro hout
      by_cases h3 : i < nboutputs * 3
      · rw [h.outside i (Or.inl h3), tailToHead_head hL h3]
        exact hhead i hi h3
      by_cases h5 : i < nboutputs * 5
      · exact hlow (by omega) i h5
      · rw [h.outside i (Or.inr (by omega)), tailToHead_rest hL (by omega)]
        exact hrest i hi (by omega) hout
    by_cases hin : 6 ≤ c.nframes ∧ nboutputs * (c.nframes - 3) + 3 ≤ i ∧
        i < nboutputs * (c.nframes - 1) + 3
    · obtain ⟨hle, hin⟩ := hin
      have hend : nboutputs * c.nframes = nboutputs * (c.nframes - 3) + nboutputs * 3 := by
        rw [← Nat.mul_add]
        congr 1
        omega
      have hpos : 0 < nboutputs := Nat.pos_of_mul_pos_right (by omega : 0 < nboutputs * c.nframes)
      have : nboutputs * 3 ≤ nboutputs * (c.nframes - 3) := Nat.mul_le_mul_left _ (by omega)
      rw [h.shift_eq hL hle, if_pos hin]
      exact hlow (by omega) _ (by omega)
    · rw [h.shift_kept hL hin]
      exact hplain hin

/-- A period that one reader silences is silent in the other one too iff the other one silences it
at the same count, or plays a silent memory. -/
theorem silenced_agree_iff (hb : 0 < nboutputs) (hL : c.lagrangeNum = 3)
    (hn : slots.length = c.nframes) (hw : WhollyLost slots) (h8 : 8 ≤ c.lostPacCnt) :
    ReadersAgree c slots ↔ c.lostPacCnt = 8 ∨ SilentMemory c := by
  have hagree : ReadersAgree c slots ↔ ∀ i, i < nboutputs * c.nframes →
      (readFromRingbufferAsync rationalOps c slots).rxbuf i = 0 := by
    constructor
    · intro h i hi
      have hdiv : i / nboutputs < c.nframes := Nat.div_lt_of_lt_mul hi
      have heq := h (fun _ _ => 0) (i / nboutputs) ⟨i % nboutputs, Nat.mod_lt _ hb⟩ hdiv
      rw [nonInterleaved_ports hn hdiv, if_pos ⟨hw, h8⟩] at heq
      rwa [Nat.div_add_mod] at heq
    · intro h buffers frame channel hframe
      have hlt := channel.isLt
      have : nboutputs * (frame + 1) ≤ nboutputs * c.nframes := Nat.mul_le_mul_left _ hframe
      rw [Nat.mul_succ] at this
      rw [nonInterleaved_ports hn hframe, if_pos ⟨hw, h8⟩]
      exact h _ (by omega)
  rw [hagree, async_rxbuf hn]
  by_cases heq : c.lostPacCnt = 8
  · rw [if_pos ⟨hw, heq⟩]
    have hroom := c.room
    rw [Nat.mul_add] at hroom
    constructor
    · intro _
      exact Or.inl heq
    · intro _ i hi
      rw [memset, if_pos (by omega)]
      rfl
  · rw [if_neg fun h => heq h.2, shift_silent_iff hL (lostMemory hL hn hw)]
    constructor
    · intro h
      exact Or.inr h
    · rintro (h | h)
      · exact absurd h heq
      · exact h

end Silence

/-- The two readers agree exactly on steady slots, and on wholly lost periods that both of them
play as silence. -/
theorem readers_agree_iff (hL : c.lagrangeNum = 3) (hn : slots.length = c.nframes) :
    ReadersAgree c slots ↔ AgreeWhen c slots := by
  rcases Nat.eq_zero_or_pos nboutputs with rfl | hb
  · constructor
    · intro _
      exact Or.inl rfl
    · intro _ _ _ channel
      exact channel.elim0
  rw [AgreeWhen, or_iff_right hb.ne']
  by_cases hsilent : WhollyLost slots ∧ 8 ≤ c.lostPacCnt
  · rw [if_pos hsilent]
    exact silenced_agree_iff hb hL hn hsilent.1 hsilent.2
  · rw [if_neg hsilent, agree_iff_samePeriod hb hn hsilent]
    have hsame : SameSignal nboutputs c.lagrangeNum c.start c.start := ⟨rfl, rfl, fun _ _ => rfl⟩
    have hloops := samePeriod_iff rationalOps hsame hL.ge
      (show c.start.lframe + slots.length = c.nframes from (Nat.zero_add _).trans hn)
      (Nat.zero_le 2)
    have hstart : c.start.lframe + c.lagrangeNum = 3 := by
      rw [hL]
      rfl
    rw [hstart] at hloops
    change SamePeriod c.nframes (asyncTurns rationalOps c slots)
        (nonInterleavedTurns rationalOps c slots) nboutputs ↔
      Steady rationalOps (c.nframes - 3) 0 (frameAt c.tailToHead 2) (frameAt c.tailToHead 1)
        (frameAt c.tailToHead 0) slots at hloops
    rw [hloops, hL, frameAt_tailToHead (by omega), frameAt_tailToHead (by omega),
      frameAt_tailToHead (by omega)]
    rfl

/-- A mono receptor with periods of four frames, after a period that ended with 7, 0, 0. -/
def monoStream : RxStream Rat 1 where
  nframes := 4
  lagrangeNum := 3
  rxbuf := fun i => if i = 4 then 7 else 0
  rxbuflen := 7
  lostPacCnt := 0
  room := by decide

/-- The first frame, the only one of these that the period plays, is a fixed point. -/
theorem readers_agree_steady :
    ReadersAgree monoStream
      [some fun _ => 3, some fun _ => 5, some fun _ => 5, some fun _ => 5] := by
  apply (readers_agree_iff rfl rfl).mpr
  right
  rw [if_neg (by decide)]
  refine ⟨fun _ _ => ?_, fun _ h => absurd h (by decide), fun _ h => absurd h (by decide),
    fun _ h => absurd h (by decide), trivial⟩
  funext channel
  have hchannel : channel = 0 := Subsingleton.elim _ _
  rw [hchannel]
  decide +kernel

/-- No frame is missing, and still the played one is altered. -/
theorem received_frame_altered :
    (∀ slot ∈ List.replicate 4 (some fun _ => 1 : Slot Rat 1), slot ≠ none) ∧
      (readFromRingbufferAsync rationalOps monoStream
        (List.replicate 4 (some fun _ => 1))).rxbuf 3 = 24 / 10 ∧
      (readFromRingbufferAsyncNonInterleaved rationalOps monoStream (fun _ _ => 0)
        (List.replicate 4 (some fun _ => 1))).2 0 3 = 1 ∧
      ¬ReadersAgree monoStream (List.replicate 4 (some fun _ => 1)) := by
  have hasync : (readFromRingbufferAsync rationalOps monoStream
      (List.replicate 4 (some fun _ => 1))).rxbuf 3 = 24 / 10 := by decide +kernel
  have hports : (readFromRingbufferAsyncNonInterleaved rationalOps monoStream (fun _ _ => 0)
      (List.replicate 4 (some fun _ => 1))).2 0 3 = 1 := by decide +kernel
  refine ⟨?_, hasync, hports, ?_⟩
  · intro slot hs
    rw [List.eq_of_mem_replicate hs]
    exact Option.some_ne_none _
  · intro h
    have heq := h (fun _ _ => 0) 3 0 (by decide)
    rw [hports] at heq
    change (readFromRingbufferAsync rationalOps monoStream
      (List.replicate 4 (some fun _ => 1))).rxbuf 3 = 1 at heq
    rw [hasync] at heq
    revert heq
    decide +kernel

end Vban.Playback
