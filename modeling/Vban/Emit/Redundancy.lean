import Vban.Emit.Copies

/-! What `vban_send_txbuffer` sends for an emitter without slicing, whatever the redundancy. -/
namespace Vban

open Library

/-- The datagrams `sent` are copies of `packets`, numbered on from the stream's header. -/
structure SentAs (o : VbanTxContext) (packets sent : List SentPacket) : Prop where
  consecutive : ConsecutiveFrom o.header.nuFrame packets
  copies : Copies (o.redundancy + 1) packets sent
  format : ∀ p ∈ packets, p.header.formatSR = o.header.formatSR ∧
    p.header.streamname = o.header.streamname

/-- With a redundancy of 255 the counter of the copies never ends the loop. -/
structure Emitter.StuckOn (o : VbanTxContext) (packets sent : List SentPacket) (e : Emitter) :
    Prop where
  sentAs : SentAs o packets sent
  ending : e.ending = .endless
  last : packets.getLast? = some (e.context.packet e.context.trailerLength)

/-- Every sending step of an emitter without slicing is a call of `vban_send_txbuffer`. -/
structure Emitter.Unsliced (o : VbanTxContext) (rate : Nat) (packets sent : List SentPacket)
    (e : Emitter) : Prop where
  slicing : e.context.slicing = false
  sends : e.HasSent o rate packets sent ∨ e.StuckOn o packets sent

variable {o c d : VbanTxContext} {e e' : Emitter} {l : Transmission} {rate bufsize count : Nat}
  {timer : Bool} {packets sent : List SentPacket} {p : SentPacket} {refusals : Refusals}
  {poss : List Nat} {passport trailer : Nat}

theorem Emitter.HasSent.sentAs (h : e.HasSent o rate packets sent) : SentAs o packets sent :=
  ⟨h.consecutive, h.copies, h.format⟩

theorem Emitter.Unsliced.sentAs (h : e.Unsliced o rate packets sent) : SentAs o packets sent := by
  rcases h.sends with h | h
  · exact h.sentAs
  · exact h.sentAs

/-- One more copy of the last packet. -/
theorem Copies.again (h : Copies count packets sent) (hlast : packets.getLast? = some p) :
    Copies count packets (sent ++ [p]) := by
  induction h with
  | nil => simp at hlast
  | @cons q packets sent n hn h ih =>
    cases packets with
    | nil =>
      cases h
      obtain rfl : q = p := by simpa using hlast
      have hone : List.replicate n q ++ [] ++ [q] = List.replicate (n + 1) q ++ [] := by
        simp [List.replicate_succ']
      rw [hone]
      exact .cons (by omega) .nil
    | cons r packets =>
      rw [List.getLast?_cons_cons] at hlast
      rw [List.append_assoc]
      exact .cons hn (ih hlast)

/-- With a redundancy of 255 the loop stays with its first packet, if that is inside the buffer. -/
theorem sendPackets_stuck (refusals : Refusals) (passport trailer : Nat) (poss : List Nat)
    (h255 : c.redundancy = 255) :
    ((c.sendPackets refusals passport trailer poss).sent = [] ∧
      (c.sendPackets refusals passport trailer poss).context = c ∧
      (c.sendPackets refusals passport trailer poss).ending ≠ .endless) ∨
    ∃ data n, 256 ≤ n ∧ (c.sendPackets refusals passport trailer poss).sent =
        List.replicate n (VbanTxContext.packet trailer { c with data := data }) ∧
      (c.sendPackets refusals passport trailer poss).context = { c with data := data } ∧
      (c.sendPackets refusals passport trailer poss).ending = .endless := by
  cases poss with
  | nil => exact .inl ⟨rfl, rfl, nofun⟩
  | cons pos poss =>
    rcases Nat.lt_or_ge c.txbuf.length (pos + c.pacdatalen) with hpos | hpos
    · rw [sendPackets_cons_outOfBounds hpos]
      exact .inl ⟨rfl, rfl, nofun⟩
    · rw [sendPackets_cons_endless h255 hpos]
      refine .inr ⟨_, _, ?_, rfl, rfl, rfl⟩
      have hcount : c.redundancy + 1 ≤ c.copyCount refusals c.header.nuFrame :=
        redundancy_lt_copyCount c _
      omega

theorem vbanSendTxbuffer_slicing (refusals : Refusals) (d : VbanTxContext) :
    (vbanSendTxbuffer refusals d).context.slicing = d.slicing := by
  have hkeeps := sendPackets_keeps refusals d.trailerLength
    ((List.range d.pacnum).map fun pac => pac * d.pacdatalen) d (passportLength_le d)
  obtain ⟨data, n, hcontext⟩ := hkeeps.context
  rw [vbanSendTxbuffer, hcontext]

theorem Readied.slicing_off {nframes : Nat} (hd : Readied nframes c d) (hc : c.slicing = false) :
    d.slicing = false := by
  rcases hd.slicing_eq with h | h
  · exact h.trans hc
  · simp [h, hc]

theorem EmitterStep.slicing_off (hs : EmitterStep e l e') (he : e.context.slicing = false) :
    e'.context.slicing = false := by
  cases hs with
  | process _ hn _ h =>
    obtain ⟨d, hd, rfl⟩ := onTxProcess_spec hn h
    have hoff := hd.slicing_off he
    simp [hoff, vbanSendTxbuffer_slicing]
  | tick _ _ hslicing => simp [he] at hslicing
  | copy => exact he

/-- A call with a redundancy of 255 leaves the emitter stuck, or sends nothing. -/
theorem Emitter.HasSent.stuck (e' : Emitter) (hi : e.HasSent o rate packets sent)
    (hd : SameStream e.context d) (hnu : d.header.nuFrame = e.context.header.nuFrame)
    (h255 : o.redundancy = 255)
    (hcontext' : e'.context = (vbanSendTxbuffer refusals d).context)
    (hending' : e'.ending = (vbanSendTxbuffer refusals d).ending) :
    ∃ more, e'.HasSent o rate (packets ++ more) (sent ++ (vbanSendTxbuffer refusals d).sent) ∨
      e'.StuckOn o (packets ++ more) (sent ++ (vbanSendTxbuffer refusals d).sent) := by
  have hstream := hi.stream.trans hd
  have hredundancy : d.redundancy = o.redundancy := hstream.redundancy_eq
  have hstart : d.header.nuFrame = o.header.nuFrame + UInt32.ofNat packets.length :=
    hnu.trans hi.nuFrame_eq
  rcases sendPackets_stuck refusals d.passportLength d.trailerLength
    ((List.range d.pacnum).map fun pac => pac * d.pacdatalen) (hredundancy.trans h255) with
    ⟨hsent, hcontext, hending⟩ | ⟨data, n, hn, hsent, hcontext, hending⟩
  · refine ⟨[], .inl ?_⟩
    rw [vbanSendTxbuffer] at hcontext' hending' ⊢
    rw [hsent, List.append_nil, List.append_nil]
    refine ⟨?_, hi.consecutive, hi.copies, hi.format, ?_, hending'.trans_ne hending⟩
    · rw [hcontext', hcontext]
      exact hstream
    · rw [hcontext', hcontext]
      exact hstart
  · let q := VbanTxContext.packet d.trailerLength { d with data := data }
    refine ⟨[q], .inr ⟨⟨?_, ?_, ?_⟩, hending'.trans hending, ?_⟩⟩
    · apply hi.consecutive.append
      intro i p hp
      cases i with
      | zero =>
        obtain rfl := Option.some.inj hp
        rw [← hstart]
        exact (UInt32.add_zero _).symm
      | succ i => simp at hp
    · rw [vbanSendTxbuffer, hsent, ← List.append_nil (List.replicate n _)]
      exact hi.copies.append (.cons (by omega) .nil)
    · intro p hp
      rcases List.mem_append.mp hp with hp | hp
      · exact hi.format p hp
      · obtain rfl := List.mem_singleton.mp hp
        exact ⟨hstream.formatSR_eq, hstream.streamname_eq⟩
    · rw [hcontext', vbanSendTxbuffer, hcontext, List.getLast?_append]
      rfl

theorem EmitterStep.unsliced (hi : e.Unsliced o rate packets sent) (hs : EmitterStep e l e') :
    ∃ more, e'.Unsliced o rate (packets ++ more) (sent ++ l.sent) := by
  have hoff := hs.slicing_off hi.slicing
  rcases hi.sends with hsends | hstuck
  · by_cases h255 : o.redundancy = 255
    · cases hs with
      | process hready hn _ h =>
        obtain ⟨d, hd, rfl⟩ := onTxProcess_spec hn h
        have hd' := hd.slicing_off hi.slicing
        simp only [hd', Bool.false_eq_true, if_false, hi.slicing] at hoff ⊢
        obtain ⟨more, h⟩ := hsends.stuck ⟨(vbanSendTxbuffer _ d).context, _, _,
          (vbanSendTxbuffer _ d).ending⟩ hd.stream hd.nuFrame_eq h255 rfl rfl
        exact ⟨more, hoff, h⟩
      | tick _ _ hslicing => simp [hi.slicing] at hslicing
      | copy hending => exact absurd hending hsends.ending
    · obtain ⟨more, h⟩ := hs.hasSent hsends h255
      exact ⟨more, hoff, .inl h⟩
  · refine ⟨[], hoff, .inr ?_⟩
    rw [List.append_nil]
    cases hs with
    | process hready =>
      rcases hready with hready | ⟨-, hslicing⟩
      · exact nomatch hready.symm.trans hstuck.ending
      · simp [hi.slicing] at hslicing
    | tick _ _ hslicing => simp [hi.slicing] at hslicing
    | copy =>
      simp only [hi.slicing, Bool.false_eq_true, if_false]
      exact ⟨⟨hstuck.sentAs.consecutive, hstuck.sentAs.copies.again hstuck.last,
        hstuck.sentAs.format⟩, hstuck.ending, hstuck.last⟩

/-- What an emitter without slicing sends is copies of packets under consecutive frame numbers. -/
theorem emitter_run_sentAs {e₀ : Emitter} {ls : List Transmission}
    (h₀ : emitterStart rate bufsize timer o = some e₀) (hslicing : e₀.context.slicing = false)
    (hrun : Run EmitterStep e₀ ls e) : ∃ packets, SentAs o packets (ls.flatMap (·.sent)) := by
  have hinv : ∃ packets, e.Unsliced o rate packets (ls.flatMap (·.sent)) := by
    induction hrun with
    | refl =>
      exact ⟨[], hslicing, .inl (emitterStart_hasSent h₀)⟩
    | snoc _ hstep ih =>
      obtain ⟨packets, hi⟩ := ih
      obtain ⟨more, h⟩ := hstep.unsliced hi
      rw [List.flatMap_append, List.flatMap_singleton]
      exact ⟨packets ++ more, h⟩
  obtain ⟨packets, h⟩ := hinv
  exact ⟨packets, h.sentAs⟩

/-- Every period of 128 frames goes out in one packet, without another copy. -/
structure Emitter.Cruising (e : Emitter) : Prop where
  ending : e.ending = .returned
  slicing : e.context.slicing = false
  nframes_eq : e.context.nframes = 128
  frameSize_eq : e.context.frameSize = 8
  redundancy_eq : e.context.redundancy = 0
  pacnum_eq : e.context.pacnum = 1
  pacdatalen_eq : e.context.pacdatalen = 1024

theorem Emitter.Cruising.send (h : e.Cruising) : ∃ l e', EmitterStep e l e' ∧
    (∃ payload, l.sent = [⟨e.context.header, payload⟩]) ∧ e'.Cruising ∧
      e'.context.header = e.context.header.advance 1 := by
  obtain ⟨samples, hlen⟩ : ∃ samples : List UInt8, samples.length = 1024 :=
    ⟨List.replicate 1024 0, List.length_replicate⟩
  have hprocess := onTxProcess_same (fun _ _ => 0) samples h.nframes_eq h.slicing
  obtain ⟨data, ret, hsend⟩ := vbanSendTxbuffer_spec (fun _ _ => 0)
    (c := { e.context with txbuf := overwrite e.context.txbuf 0 samples })
    (by simp [h.redundancy_eq]) (by simp [h.pacnum_eq, h.pacdatalen_eq, overwrite, hlen])
  rw [hsend] at hprocess
  have hstep := EmitterStep.process (.inl h.ending) (by decide)
    (by rw [hlen, h.frameSize_eq]) hprocess
  refine ⟨_, _, hstep, ?_, ⟨?_, h.slicing, h.nframes_eq, h.frameSize_eq, h.redundancy_eq,
    h.pacnum_eq, h.pacdatalen_eq⟩, ?_⟩
  · simp [VbanTxContext.withCopies, VbanTxContext.copyCount, VbanTxContext.retries, numbered,
      h.redundancy_eq, h.pacnum_eq]
  · simp [h.slicing]
  · simp [h.pacnum_eq]

/-- Such an emitter sends any number of packets. -/
theorem Emitter.Cruising.run (h : e.Cruising) (n : Nat) : ∃ payloads ls e',
    payloads.length = n ∧ Run EmitterStep e ls e' ∧ e'.Cruising ∧
      ls.flatMap (·.sent) = numbered e.context.header payloads ∧
      e'.context.header = e.context.header.advance n := by
  induction n with
  | zero => exact ⟨[], [], e, rfl, .refl e, h, rfl, (VBanHeader.advance_zero _).symm⟩
  | succ n ih =>
    obtain ⟨payloads, ls, e', hlen, hrun, hcruising, hsent, hheader⟩ := ih
    obtain ⟨l, e'', hstep, ⟨payload, hl⟩, hcruising', hheader'⟩ := hcruising.send
    refine ⟨payloads ++ [payload], ls ++ [l], e'', ?_, hrun.snoc hstep, hcruising', ?_, ?_⟩
    · simp [hlen]
    · rw [List.flatMap_append, List.flatMap_singleton, hsent, hl, numbered_append, hlen, hheader]
      rfl
    · rw [hheader', hheader, VBanHeader.advance_advance]

/-- `-i127.0.0.1 -sA`. -/
def cruisingOptions : List EmitterOption :=
  [.ipaddr 9 0x0100007F, .streamname (.strncpy [0x41, 0])]

/-- The context that `main` makes of them. -/
def cruisingContext : VbanTxContext :=
  { emitterDefaults with
    iptx := 0x0100007F
    txStreamname := .strncpy [0x41, 0] }.createStream

/-- Its header once the period of 128 frames is tuned. -/
def cruisingHeader : VBanHeader := { cruisingContext.header with formatNbs := 127 }

theorem emitterMain_cruising (found : UInt32) :
    emitterMain found cruisingOptions = some cruisingContext := by
  have hiptx : ¬(0x0100007F : UInt32) = 0 := by decide
  simp only [emitterMain, cruisingOptions, getEmitterOptions]
  rfl

theorem exists_cruising : ∃ e₀, emitterStart 48000 128 true cruisingContext = some e₀ ∧
    e₀.Cruising ∧ e₀.context.header = cruisingHeader := by
  let c : VbanTxContext := { cruisingContext with samplerate := 48000, nframes := 128 }
  have hn : 1 ≤ c.nframes := by decide
  obtain ⟨t, ht⟩ := (tuneTxPackets_isSome_iff hn).mpr fun h => nomatch h.1
  have hhalved : c.HalvedBy 0 := by
    refine ⟨?_, ?_⟩
    · rw [fits_iterate_iff]
      decide
    · intro j hj
      exact absurd hj (Nat.not_lt_zero j)
  have hspec := tuneTxPackets_spec hhalved (by decide) ht
  refine ⟨_, congrArg (Option.map _) ht, ⟨rfl, ?_, ?_, ?_, ?_, ?_, ?_⟩, ?_⟩
  · simp [hspec.slicing_eq, c, cruisingContext, emitterDefaults, VbanTxContext.createStream]
  · exact hspec.nframes_eq
  · exact hspec.frameSize_eq
  · exact hspec.redundancy_eq
  · exact hspec.pacnum_eq
  · have hsize : c.nframes * c.frameSize % 2 ^ 16 / 2 ^ 0 = 1024 := by decide
    exact hspec.pacdatalen_eq.trans hsize
  · have hnbs : UInt8.ofNat (c.nframes / 2 ^ 0 + 255) = 127 := by decide
    rw [cruisingHeader, ← hnbs]
    exact hspec.header_eq

end Vban
