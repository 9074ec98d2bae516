import Mathlib.Algebra.BigOperators.Group.List.Basic
import Vban.Emit.Describe

/-! What a run of the emitter sends: packets under consecutive frame numbers, in copies. -/
namespace Vban

open Library

/-- Packets under the frame numbers from `nuFrame` on. -/
def ConsecutiveFrom (nuFrame : UInt32) (packets : List SentPacket) : Prop :=
  ∀ i p, packets[i]? = some p → p.header.nuFrame = nuFrame + UInt32.ofNat i

/-- Each packet in turn, at least `count` times in a row. -/
inductive Copies (count : Nat) : List SentPacket → List SentPacket → Prop
  | nil : Copies count [] []
  | cons {p : SentPacket} {packets sent : List SentPacket} {n : Nat} (hn : count ≤ n)
      (h : Copies count packets sent) :
      Copies count (p :: packets) (List.replicate n p ++ sent)

variable {c : VbanTxContext} {h : VBanHeader} {refusals : Refusals} {poss : List Nat}
  {passport trailer count : Nat} {packets more sent rest : List SentPacket} {p : SentPacket}
  {payloads : List (List UInt8)} {nuFrame : UInt32}

theorem ConsecutiveFrom.append (hp : ConsecutiveFrom nuFrame packets)
    (hm : ConsecutiveFrom (nuFrame + UInt32.ofNat packets.length) more) :
    ConsecutiveFrom nuFrame (packets ++ more) := by
  intro i p hi
  rcases Nat.lt_or_ge i packets.length with hlt | hge
  · rw [List.getElem?_append_left hlt] at hi
    exact hp i p hi
  · rw [List.getElem?_append_right hge] at hi
    rw [hm _ p hi, UInt32.add_assoc, ← UInt32.ofNat_add, Nat.add_sub_cancel' hge]

theorem numbered_getElem? {i : Nat} (hi : (numbered h payloads)[i]? = some p) :
    p.header = h.advance i := by
  induction payloads generalizing h i with
  | nil => simp [numbered] at hi
  | cons payload payloads ih =>
    rw [numbered] at hi
    cases i with
    | zero =>
      obtain rfl := Option.some.inj hi
      exact (VBanHeader.advance_zero h).symm
    | succ i =>
      rw [List.getElem?_cons_succ] at hi
      rw [ih hi, VBanHeader.advance_advance, Nat.add_comm]

theorem numbered_consecutive : ConsecutiveFrom h.nuFrame (numbered h payloads) := by
  intro i p hi
  rw [numbered_getElem? hi]
  rfl

theorem length_numbered : (numbered h payloads).length = payloads.length := by
  induction payloads generalizing h with
  | nil => rfl
  | cons payload payloads ih => rw [numbered, List.length_cons, List.length_cons, ih]

theorem Copies.append (hp : Copies count packets sent) (hm : Copies count more rest) :
    Copies count (packets ++ more) (sent ++ rest) := by
  induction hp with
  | nil => exact hm
  | cons hn _ ih =>
    rw [List.cons_append, List.append_assoc]
    exact .cons hn ih

theorem redundancy_lt_copyCount (c : VbanTxContext) (nuFrame : UInt32) :
    c.redundancy + 1 ≤ c.copyCount refusals nuFrame := by
  rw [VbanTxContext.copyCount]
  have h := List.length_le_sum_of_one_le ((List.range (c.redundancy + 1)).map fun red =>
    1 + c.retries refusals nuFrame red) (by simp)
  rwa [List.length_map, List.length_range] at h

theorem withCopies_copies (packets : List SentPacket) :
    Copies (c.redundancy + 1) packets (c.withCopies refusals packets) := by
  induction packets with
  | nil => exact .nil
  | cons p packets ih => exact .cons (redundancy_lt_copyCount c _) ih

/-- A packet loop that does not stay with one packet numbers what it sends. -/
theorem sendPackets_numbered (refusals : Refusals) (passport trailer : Nat) (poss : List Nat)
    (hred : c.redundancy ≠ 255) : ∃ payloads data,
    (c.sendPackets refusals passport trailer poss).sent =
        c.withCopies refusals (numbered c.header payloads) ∧
      (c.sendPackets refusals passport trailer poss).context =
        { c with data := data, header := c.header.advance payloads.length } ∧
      (c.sendPackets refusals passport trailer poss).ending ≠ .endless := by
  induction poss generalizing c with
  | nil =>
    refine ⟨[], c.data, rfl, ?_, nofun⟩
    rw [List.length_nil, VBanHeader.advance_zero]
    rfl
  | cons pos poss ih =>
    by_cases hpos : pos + c.pacdatalen ≤ c.txbuf.length
    · obtain ⟨payloads, data, hsent, hcontext, hending⟩ :=
        ih (c := (c.load passport pos).advanceFrame 1) hred
      have hheader : ((c.load passport pos).advanceFrame 1).header = c.header.advance 1 := rfl
      rw [sendPackets_cons hred hpos]
      refine ⟨((c.load passport pos).packet trailer).payload :: payloads, data, ?_, ?_, hending⟩
      · simp only [hsent]
        rfl
      · rw [List.length_cons, Nat.add_comm, ← VBanHeader.advance_advance]
        exact hcontext
    · rw [sendPackets_cons_outOfBounds (Nat.not_le.mp hpos)]
      refine ⟨[], c.data, rfl, ?_, nofun⟩
      rw [List.length_nil, VBanHeader.advance_zero]

variable {o : VbanTxContext} {e e' : Emitter} {l : Transmission} {rate bufsize : Nat} {timer : Bool}

/-- What an emitter has sent so far, `sent`, is copies of `packets`. -/
structure Emitter.HasSent (o : VbanTxContext) (rate : Nat) (packets sent : List SentPacket)
    (e : Emitter) : Prop where
  stream : SameStream { o with samplerate := rate } e.context
  consecutive : ConsecutiveFrom o.header.nuFrame packets
  copies : Copies (o.redundancy + 1) packets sent
  format : ∀ p ∈ packets, p.header.formatSR = o.header.formatSR ∧
    p.header.streamname = o.header.streamname
  nuFrame_eq : e.context.header.nuFrame = o.header.nuFrame + UInt32.ofNat packets.length
  ending : e.ending ≠ .endless

/-- A packet loop adds its packets. -/
theorem Emitter.HasSent.sendPackets {d : VbanTxContext} {n : Nat}
    (hi : e.HasSent o rate packets sent) (hd : SameStream e.context d)
    (hnu : d.header.nuFrame = e.context.header.nuFrame) (hred : o.redundancy ≠ 255)
    (hcontext' : e'.context =
      { (d.sendPackets refusals passport trailer poss).context with txdataInd := n })
    (hending' : e'.ending = e.ending ∨
      e'.ending = (d.sendPackets refusals passport trailer poss).ending) :
    ∃ more, e'.HasSent o rate (packets ++ more)
      (sent ++ (d.sendPackets refusals passport trailer poss).sent) := by
  have hstream := hi.stream.trans hd
  have hredundancy : d.redundancy = o.redundancy := hstream.redundancy_eq
  obtain ⟨payloads, data, hsent, hcontext, hending⟩ :=
    sendPackets_numbered refusals passport trailer poss (hredundancy.trans_ne hred)
  have hstart : d.header.nuFrame = o.header.nuFrame + UInt32.ofNat packets.length :=
    hnu.trans hi.nuFrame_eq
  refine ⟨numbered d.header payloads, ?_, ?_, ?_, ?_, ?_, ?_⟩
  · rw [hcontext', hcontext]
    exact hstream.trans (.update d _ _ _ _ _ _)
  · exact hi.consecutive.append (hstart ▸ numbered_consecutive)
  · rw [hsent, ← hredundancy]
    exact (hredundancy ▸ hi.copies).append (withCopies_copies _)
  · intro p hp
    rcases List.mem_append.mp hp with hp | hp
    · exact hi.format p hp
    · obtain ⟨i, hi⟩ := List.mem_iff_getElem?.mp hp
      rw [numbered_getElem? hi]
      exact ⟨hstream.formatSR_eq, hstream.streamname_eq⟩
  · rw [hcontext', hcontext, List.length_append, length_numbered, UInt32.ofNat_add,
      ← UInt32.add_assoc, ← hstart]
    rfl
  · rcases hending' with h | h
    · exact h.trans_ne hi.ending
    · exact h.trans_ne hending

theorem EmitterStep.hasSent (hi : e.HasSent o rate packets sent) (hs : EmitterStep e l e')
    (hred : o.redundancy ≠ 255) : ∃ more, e'.HasSent o rate (packets ++ more) (sent ++ l.sent) := by
  cases hs with
  | process hready hn hsamples h =>
    obtain ⟨d, hd, rfl⟩ := onTxProcess_spec hn h
    by_cases hslicing : d.slicing
    · rw [if_pos hslicing, List.append_nil]
      refine ⟨[], ?_⟩
      rw [List.append_nil]
      refine ⟨hi.stream.trans hd.stream, hi.consecutive, hi.copies, hi.format,
        hd.nuFrame_eq.trans hi.nuFrame_eq, ?_⟩
      simp only
      split_ifs
      · exact hi.ending
      · exact nofun
    · rw [if_neg hslicing]
      refine hi.sendPackets hd.stream hd.nuFrame_eq hred rfl ?_
      simp only
      split_ifs
      · exact .inl rfl
      · exact .inr rfl
  | @tick refusals hending harmed hslicing =>
    obtain ⟨n, htick⟩ := txTimerTick_eq refusals e.context
    rw [htick]
    exact hi.sendPackets (.update e.context _ _ _ _ _ _) rfl hred rfl (.inr rfl)
  | copy hending => exact absurd hending hi.ending

theorem emitterStart_hasSent (h₀ : emitterStart rate bufsize timer o = some e) :
    e.HasSent o rate [] [] := by
  have hstream := emitterStart_stream h₀
  obtain ⟨t, ht, rfl⟩ := Option.map_eq_some_iff.mp h₀
  obtain ⟨k, hspec, -⟩ := tuneTxPackets_splits (Nat.mod_lt _ (by decide)) ht
  refine ⟨hstream, ?_, .nil, nofun, ?_, nofun⟩
  · intro i p h
    simp at h
  · simp [hspec.header_eq]

/-- The audio packets of an emitter stand under consecutive frame numbers and are sent one after
the other, each at least once more than the redundancy. -/
theorem emitter_run_copies {e₀ : Emitter} {ls : List Transmission}
    (h₀ : emitterStart rate bufsize timer o = some e₀) (hrun : Run EmitterStep e₀ ls e)
    (hred : o.redundancy ≠ 255) :
    ∃ packets, e.HasSent o rate packets (ls.flatMap (·.sent)) := by
  induction hrun with
  | refl => exact ⟨[], emitterStart_hasSent h₀⟩
  | snoc _ hstep ih =>
    obtain ⟨packets, hi⟩ := ih
    obtain ⟨more, h⟩ := hstep.hasSent hi hred
    rw [List.flatMap_append, List.flatMap_singleton]
    exact ⟨packets ++ more, h⟩

end Vban
