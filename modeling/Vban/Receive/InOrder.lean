import Vban.Emit.Redundancy
import Vban.Receive.Delivery

/-! What a bound receptor accepts when the copies of the packets arrive in sending order. -/
namespace Vban

open Library

variable {o : VbanTxContext} {e e₀ : Emitter} {ts : List Transmission} {found : UInt32}
  {opts : List EmitterOption} {rate bufsize : Nat} {timer : Bool}

/-- Whatever copies are lost: as long as fewer than 2^32 - 1 packets in a row are lost with all
their copies, and the first number to arrive is not the one that the receptor has, each packet
that arrives is accepted once, and in order, for every redundancy and across the wrap. -/
theorem sent_copies_accepted_once (ho : emitterMain found opts = some o)
    (h₀ : emitterStart rate bufsize timer o = some e₀) (hslicing : e₀.context.slicing = false)
    (hsend : Run EmitterStep e₀ ts e) :
    (∃ packets, SentAs o packets (ts.flatMap (·.sent))) ∧
      ∀ packets, SentAs o packets (ts.flatMap (·.sent)) →
        ∀ {R : Type} (env : RxEnv R) (c d : VbanRxContext R) (ls : List Delivery),
          c.ringbuffer ≠ none → StreamName.Strncmp o.header.streamname c.rxStreamname →
          Run (DeliveryStep env packets c.iprx) c ls d →
          (deliveredPackets ls).IsChain (fun i j => i ≤ j ∧ j < i + 2 ^ 32) →
          (∀ i ∈ (deliveredPackets ls).head?, o.header.nuFrame + UInt32.ofNat i ≠ c.nuFrame) →
          (enqueuedPackets ls).Pairwise (· < ·) ∧
            ∀ i, i ∈ enqueuedPackets ls ↔ i ∈ deliveredPackets ls := by
  refine ⟨emitter_run_sentAs h₀ hslicing hsend, ?_⟩
  intro packets hsent R env c d ls hopen hname hrun hchain hfirst
  have hbound := (emitterMain_created ho).boundTo hsent.format hopen hname
  obtain ⟨-, -, henq, -⟩ := delivery_run_filter hsent.consecutive hbound hrun
  rw [henq]
  refine skipRepeats_inOrder ?_ ?_ hfirst
  · apply List.IsChain.pairwise
    exact hchain.imp fun i j h => h.1
  · apply hchain.imp
    intro i j hgap heq
    have hmod := nuFrame_mod heq
    omega

/-- A packet of 128 stereo frames. -/
theorem cruising_playable {p : SentPacket} {i : Nat} (hp : p.header = cruisingHeader.advance i) :
    (VBanPacket.zero.receive p).Playable 2 := by
  have hheader := (receive_header .zero p).trans hp
  have hsr : (cruisingHeader.advance i).formatSR = 3 := rfl
  have hbit : (cruisingHeader.advance i).formatBit = 4 := rfl
  have hnbs : (cruisingHeader.advance i).formatNbs = 127 := rfl
  have hnbc : (cruisingHeader.advance i).formatNbc = 1 := rfl
  refine ⟨?_, ⟨?_, ?_⟩, ?_⟩
  · rw [VBanPacket.protocol, hheader, hsr]
    decide
  · rw [hheader, hbit]
    decide
  · intro _
    right
    rw [VBanPacket.samples, VBanPacket.channels, VBanPacket.sampleSize, hheader, hbit, hnbs, hnbc]
    decide
  · rw [VBanPacket.channels, VBanPacket.sampleSize, hheader, hbit, hnbc]
    decide

theorem copies_once (packets : List SentPacket) : Copies 1 packets packets := by
  induction packets with
  | nil => exact .nil
  | cons p packets ih => exact .cons (n := 1) le_rfl ih

/-- The cruising emitter sends any number of packets that a stereo receptor can read. -/
theorem exists_cruising_run (n : Nat) : ∃ e₀ e ts packets,
    emitterStart 48000 128 true cruisingContext = some e₀ ∧ e₀.context.slicing = false ∧
      Run EmitterStep e₀ ts e ∧ SentAs cruisingContext packets (ts.flatMap (·.sent)) ∧
      packets.length = n ∧ ∀ p ∈ packets, (VBanPacket.zero.receive p).Playable 2 := by
  obtain ⟨e₀, h₀, hcruising, hheader⟩ := exists_cruising
  obtain ⟨payloads, ts, e, hlen, hrun, -, hsent, -⟩ := hcruising.run n
  rw [hheader] at hsent
  refine ⟨e₀, e, ts, numbered cruisingHeader payloads, h₀, hcruising.slicing, hrun,
    ⟨numbered_consecutive, ?_, ?_⟩,
    length_numbered.trans hlen, ?_⟩
  · rw [hsent]
    exact copies_once _
  · intro p hp
    obtain ⟨i, hi⟩ := List.mem_iff_getElem?.mp hp
    rw [numbered_getElem? hi]
    exact ⟨rfl, rfl⟩
  · intro p hp
    obtain ⟨i, hi⟩ := List.mem_iff_getElem?.mp hp
    exact cruising_playable (numbered_getElem? hi)

theorem openContext_ready : (openContext 2).Ready 2 :=
  ⟨Option.some_ne_none _, Option.some_ne_none _, by decide, rfl⟩

/-- The first packet and the fourth are lost. -/
theorem sent_copies_accepted_once_lossy : ∃ e₀ e ts packets ls d,
    emitterStart 48000 128 true cruisingContext = some e₀ ∧ Run EmitterStep e₀ ts e ∧
      SentAs cruisingContext packets (ts.flatMap (·.sent)) ∧
      Run (DeliveryStep silentEnv.toRxEnv packets 0x0100007F) (openContext 2) ls d ∧
      deliveredPackets ls = [1, 2, 2, 4] ∧ (enqueuedPackets ls).Pairwise (· < ·) ∧
      ∀ i, i ∈ enqueuedPackets ls ↔ i ∈ [1, 2, 2, 4] := by
  obtain ⟨e₀, e, ts, packets, h₀, hslicing, hsend, hsent, hlen, hplayable⟩ := exists_cruising_run 5
  obtain ⟨ls, d, hrun, hdelivered⟩ : ∃ ls d,
      Run (DeliveryStep silentEnv.toRxEnv packets 0x0100007F) (openContext 2) ls d ∧
        deliveredPackets ls = [1, 2, 2, 4] :=
    exists_delivery_run openContext_ready hplayable _ (by rw [hlen]; decide)
  obtain ⟨-, honce⟩ := sent_copies_accepted_once (emitterMain_cruising 0) h₀ hslicing hsend
  obtain ⟨hpairwise, hmem⟩ := honce packets hsent _ _ d ls openContext_ready.opened rfl hrun
    (by rw [hdelivered]; decide) (by rw [hdelivered]; decide)
  rw [hdelivered] at hmem
  exact ⟨e₀, e, ts, packets, ls, d, h₀, hsend, hsent, hrun, hdelivered, hpairwise, hmem⟩

/-- With 2^32 - 1 packets lost in a row the next one carries the number of the last one. -/
theorem wrapped_packet_rejected : ∃ e₀ e ts packets ls d,
    emitterMain 0 cruisingOptions = some cruisingContext ∧
      emitterStart 48000 128 true cruisingContext = some e₀ ∧ e₀.context.slicing = false ∧
      Run EmitterStep e₀ ts e ∧ SentAs cruisingContext packets (ts.flatMap (·.sent)) ∧
      (openContext 2).BoundTo packets 0x0100007F ∧ (openContext 2).nuFrame = 0 ∧
      Run (DeliveryStep silentEnv.toRxEnv packets 0x0100007F) (openContext 2) ls d ∧
      deliveredPackets ls = [1, 1 + 2 ^ 32] ∧ enqueuedPackets ls = [1] := by
  obtain ⟨e₀, e, ts, packets, h₀, hslicing, hsend, hsent, hlen, hplayable⟩ :=
    exists_cruising_run (2 + 2 ^ 32)
  obtain ⟨ls, d, hrun, hdelivered⟩ : ∃ ls d,
      Run (DeliveryStep silentEnv.toRxEnv packets 0x0100007F) (openContext 2) ls d ∧
        deliveredPackets ls = [1, 1 + 2 ^ 32] :=
    exists_delivery_run openContext_ready hplayable _ (by rw [hlen]; decide)
  have hmain := emitterMain_cruising 0
  have hbound : (openContext 2).BoundTo packets 0x0100007F :=
    (emitterMain_created hmain).boundTo hsent.format openContext_ready.opened rfl
  obtain ⟨-, -, henq, -⟩ := delivery_run_filter hsent.consecutive hbound hrun
  refine ⟨e₀, e, ts, packets, ls, d, hmain, h₀, hslicing, hsend, hsent, hbound, rfl, hrun,
    hdelivered, henq.trans ?_⟩
  rw [hdelivered]
  decide

end Vban
