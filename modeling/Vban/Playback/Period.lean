import Vban.Playback.Turns

/-! What a whole period leaves in `rxbuf` and in the port buffers. -/
namespace Vban.Playback

variable {S : Type} {nboutputs : Nat} {ops : SampleOps S} {c : RxStream S nboutputs}
  {slots : List (Slot S nboutputs)} {buffers : Ports S nboutputs}

/-- The loop of each reader. -/
def asyncTurns (ops : SampleOps S) (c : RxStream S nboutputs) (slots : List (Slot S nboutputs)) :
    Turns S :=
  slots.foldl (turn ops c.lagrangeNum asyncSmooths) c.start

def portTurns (ops : SampleOps S) (c : RxStream S nboutputs) (buffers : Ports S nboutputs)
    (slots : List (Slot S nboutputs)) : PortTurns S nboutputs :=
  slots.foldl (portTurn ops c.lagrangeNum) ⟨c.start, buffers⟩

def nonInterleavedTurns (ops : SampleOps S) (c : RxStream S nboutputs)
    (slots : List (Slot S nboutputs)) : Turns S :=
  slots.foldl (turn ops c.lagrangeNum nonInterleavedSmooths) c.start

theorem portTurns_toTurns :
    (portTurns ops c buffers slots).toTurns = nonInterleavedTurns ops c slots :=
  foldl_portTurn_toTurns _ _ _ _

theorem asyncTurns_lost : (asyncTurns ops c slots).lost = slots.countP (·.isNone) := by
  rw [asyncTurns, foldl_turn_lost]
  exact Nat.zero_add _

theorem portTurns_lost : (portTurns ops c buffers slots).lost = slots.countP (·.isNone) := by
  have hlost : (nonInterleavedTurns ops c slots).lost = slots.countP (·.isNone) := by
    rw [nonInterleavedTurns, foldl_turn_lost]
    exact Nat.zero_add _
  have hturns : (portTurns ops c buffers slots).toTurns = nonInterleavedTurns ops c slots :=
    portTurns_toTurns
  rwa [← hturns] at hlost

/-- Before `lframe` the port buffers hold the signal. -/
theorem portTurns_written {frame : Nat}
    (hframe : frame < (nonInterleavedTurns ops c slots).lframe) (channel : Fin nboutputs) :
    (portTurns ops c buffers slots).buffers channel frame =
      frameAt (nonInterleavedTurns ops c slots).rxbuf frame channel := by
  have hsent : sent (portTurns ops c buffers slots) =
      (signal nboutputs c.lagrangeNum (portTurns ops c buffers slots).toTurns).take
        (portTurns ops c buffers slots).lframe :=
    foldl_portTurn_sent ops (L := c.lagrangeNum) (p := ⟨c.start, buffers⟩) slots rfl
  rw [signal_take (Nat.le_add_right _ _), sent, portTurns_toTurns] at hsent
  have hmap := List.map_inj_left.mp hsent frame (List.mem_range.mpr hframe)
  exact congrFun hmap channel

/-- From `lframe` on the loop leaves them as they were. -/
theorem portTurns_unwritten {frame : Nat}
    (hframe : (nonInterleavedTurns ops c slots).lframe ≤ frame) (channel : Fin nboutputs) :
    (portTurns ops c buffers slots).buffers channel frame = buffers channel frame := by
  have hturns : (portTurns ops c buffers slots).toTurns = nonInterleavedTurns ops c slots :=
    portTurns_toTurns
  rw [← hturns] at hframe
  exact foldl_portTurn_unwritten slots hframe channel

/-- The readers' test for a lost period. -/
theorem lost_eq_nframes_iff (hn : slots.length = c.nframes) :
    slots.countP (·.isNone) ≠ 0 ∧ slots.countP (·.isNone) = c.nframes ↔ WhollyLost slots := by
  rw [← hn]
  exact countP_isNone_iff

/-- The memory that `read_from_ringbuffer_async` leaves. -/
theorem async_rxbuf (hn : slots.length = c.nframes) :
    (readFromRingbufferAsync ops c slots).rxbuf =
      if WhollyLost slots ∧ c.lostPacCnt = 8 then
        memset (c.shift (asyncTurns ops c slots)) ops.zero c.rxbuflen
      else c.shift (asyncTurns ops c slots) := by
  have hdef : (slots.foldl (turn ops c.lagrangeNum asyncSmooths) c.start) =
      asyncTurns ops c slots := rfl
  have hwhole := lost_eq_nframes_iff hn
  rw [readFromRingbufferAsync, hdef, asyncTurns_lost]
  by_cases hw : WhollyLost slots
  · obtain ⟨hne, hall⟩ := hwhole.mpr hw
    have hcnt : (if c.lostPacCnt < 10 then c.lostPacCnt + 1 else c.lostPacCnt) = 9 ↔
        c.lostPacCnt = 8 := by
      split_ifs <;> omega
    rw [if_neg hne, if_pos hall]
    simp only [hcnt, hw, true_and]
  · have hnot : ¬(WhollyLost slots ∧ c.lostPacCnt = 8) := fun h => hw h.1
    rw [if_neg hnot]
    by_cases hz : slots.countP (·.isNone) = 0
    · rw [if_pos hz]
    · rw [if_neg hz, if_neg fun hall => hw (hwhole.mp ⟨hz, hall⟩)]

/-- The port buffers that `read_from_ringbuffer_async_non_interleaved` leaves. -/
theorem nonInterleaved_ports (hn : slots.length = c.nframes) {frame : Nat}
    (hframe : frame < c.nframes) (channel : Fin nboutputs) :
    (readFromRingbufferAsyncNonInterleaved ops c buffers slots).2 channel frame =
      if WhollyLost slots ∧ 8 ≤ c.lostPacCnt then ops.zero
      else if (nonInterleavedTurns ops c slots).lframe < c.nframes >>> 1 ∧
          c.nframes - 1 - (nonInterleavedTurns ops c slots).lframe ≤ frame then
        c.shift (nonInterleavedTurns ops c slots) (nboutputs * frame + channel)
      else (portTurns ops c buffers slots).buffers channel frame := by
  have hturns : (portTurns ops c buffers slots).toTurns = nonInterleavedTurns ops c slots :=
    portTurns_toTurns
  have hdef : slots.foldl (portTurn ops c.lagrangeNum) ⟨c.start, buffers⟩ =
      portTurns ops c buffers slots := rfl
  have hwhole := lost_eq_nframes_iff hn
  have hcnt : (if c.lostPacCnt < 10 then c.lostPacCnt + 1 else c.lostPacCnt) ≥ 9 ↔
      8 ≤ c.lostPacCnt := by
    split_ifs <;> omega
  have hmoved : (if (nonInterleavedTurns ops c slots).lframe < c.nframes >>> 1 then
        (List.range' (c.nframes - 1 - (nonInterleavedTurns ops c slots).lframe)
          ((nonInterleavedTurns ops c slots).lframe + 1)).foldl
            (deliver · (c.shift (nonInterleavedTurns ops c slots)))
            (portTurns ops c buffers slots).buffers
      else (portTurns ops c buffers slots).buffers) channel frame =
      if (nonInterleavedTurns ops c slots).lframe < c.nframes >>> 1 ∧
          c.nframes - 1 - (nonInterleavedTurns ops c slots).lframe ≤ frame then
        c.shift (nonInterleavedTurns ops c slots) (nboutputs * frame + channel)
      else (portTurns ops c buffers slots).buffers channel frame := by
    by_cases hmove : (nonInterleavedTurns ops c slots).lframe < c.nframes >>> 1
    · rw [if_pos hmove, foldl_deliver]
      rw [Nat.shiftRight_eq_div_pow] at hmove
      have hrange : c.nframes - 1 - (nonInterleavedTurns ops c slots).lframe ≤ frame ∧
          frame < c.nframes - 1 - (nonInterleavedTurns ops c slots).lframe +
            ((nonInterleavedTurns ops c slots).lframe + 1) ↔
          (nonInterleavedTurns ops c slots).lframe < c.nframes >>> 1 ∧
            c.nframes - 1 - (nonInterleavedTurns ops c slots).lframe ≤ frame := by
        rw [Nat.shiftRight_eq_div_pow]
        omega
      simp only [hrange]
      rfl
    · rw [if_neg hmove, if_neg fun h => hmove h.1]
  rw [readFromRingbufferAsyncNonInterleaved, hdef, portTurns_lost, hturns]
  by_cases hw : WhollyLost slots
  · rw [if_pos (hwhole.mpr hw)]
    by_cases h8 : 8 ≤ c.lostPacCnt
    · have hsilent : WhollyLost slots ∧ 8 ≤ c.lostPacCnt := ⟨hw, h8⟩
      rw [if_pos hsilent]
      simp only [hcnt, if_pos h8, if_pos hframe]
    · have hsound : ¬(WhollyLost slots ∧ 8 ≤ c.lostPacCnt) := fun h => h8 h.2
      rw [if_neg hsound, ← hmoved]
      simp only [hcnt, if_neg h8]
  · have hsound : ¬(WhollyLost slots ∧ 8 ≤ c.lostPacCnt) := fun h => hw h.1
    rw [if_neg fun h => hw (hwhole.mp h), if_neg hsound, ← hmoved]

end Vban.Playback
