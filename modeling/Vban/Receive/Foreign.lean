import Vban.Receive.ThreadBounds

/-! Datagrams that are no VBAN packets, and when they leave the receive context alone. -/
namespace Vban

open Library

/-- Shorter than a header, or without the magic number. -/
def NotVban (bytes : List UInt8) : Prop :=
  bytes.length < vbanHeaderSize ∨ leNat (bytes.take 4) ≠ vbanHeaderFourc.toNat

variable {R : Type}

/-- The binding, the format, the frame counter and both rings are the same. -/
structure SameReceiveContext (c c' : VbanRxContext R) : Prop where
  iprx_eq : c'.iprx = c.iprx
  rxStreamname_eq : c'.rxStreamname = c.rxStreamname
  nboutputs_eq : c'.nboutputs = c.nboutputs
  samplerateResampler_eq : c'.samplerateResampler = c.samplerateResampler
  nuFrame_eq : c'.nuFrame = c.nuFrame
  ringbuffer_eq : c'.ringbuffer = c.ringbuffer
  ringbufferMidi_eq : c'.ringbufferMidi = c.ringbufferMidi

/-- What a handled packet changes is already so: the announced format, or the frame counter. -/
def HandledHarmless (c : VbanRxContext R) (p : VBanPacket) : Prop :=
  p.protocol = vbanProtocolAudio →
    (c.ringbuffer = none → c.nboutputs ≠ 0 ∧
      vbanSRList[p.header.formatSR.toNat]?.map Int.ofNat = some c.samplerateResampler) ∧
    (c.ringbuffer ≠ none → p.header.nuFrame = c.nuFrame)

/-- The bytes in the buffer, old and new, agree with no part of the binding that is still open,
and a full match is harmless when handled. -/
def RxThread.Harmless (s : RxThread R) : Prop :=
  s.packet.protocol = vbanProtocolAudio ∨ s.packet.protocol = vbanProtocolSerial →
    if s.context.iprx = s.cAddr.1 ∧ s.context.rxStreamname = s.packet.header.streamname then
      HandledHarmless s.context s.packet
    else if s.context.iprx = s.cAddr.1 ∧ s.context.rxStreamname.Empty then
      .strncpy s.packet.header.streamname.bytes = s.context.rxStreamname
    else ¬(s.context.iprx = 0 ∧
      (s.context.rxStreamname.Empty ∨ s.context.rxStreamname = s.packet.header.streamname))

section

variable {env : RxEnv R} {c : VbanRxContext R} {s t : RxThread R} {p : VBanPacket}
  {packetlen : Int} {ipIn : UInt32} {portIn : UInt16} {taken : List Nat} {bytes : List UInt8}

theorem SameReceiveContext.refl (c : VbanRxContext R) : SameReceiveContext c c :=
  ⟨rfl, rfl, rfl, rfl, rfl, rfl, rfl⟩

/-- The magic number in the buffer can come from a short datagram only. -/
theorem NotVban.short (h : NotVban bytes) {addr : Option (UInt32 × UInt16)} {ts : Timespec}
    (hv : (s.received bytes addr ts).packet.header.vban = vbanHeaderFourc) :
    bytes.length < vbanHeaderSize := by
  by_contra hlen
  obtain hshort | hmagic := h
  · exact hlen hshort
  · have hsize : vbanHeaderSize ≤ vbanProtocolMaxSize := by decide
    have h4 : 4 ≤ vbanHeaderSize := by decide
    have hbytes : bytesAt (s.received bytes addr ts).packet.bytes 0 4 = bytes.take 4 := by
      change ((overwrite s.packet.bytes 0 (bytes.take vbanProtocolMaxSize)).drop 0).take 4 = _
      rw [List.drop_zero, overwrite_zero, List.take_append_of_le_length, List.take_take,
        Nat.min_eq_left (by omega)]
      rw [List.length_take]
      omega
    have hlt : leNat (bytes.take 4) < 2 ^ 32 := by
      have hlt := leNat_lt (bytes.take 4)
      rwa [List.length_take, Nat.min_eq_left (by omega)] at hlt
    apply hmagic
    rw [← hv, VBanPacket.header, hbytes, UInt32.toNat_ofNat', Nat.mod_eq_of_lt hlt]

theorem midiLoop_short {eventptr : Nat} {rb : Ringbuffer} (h : packetlen < vbanHeaderSize) :
    midiLoop p packetlen taken eventptr rb = .ok rb := by
  rw [midiLoop.eq_def]
  apply if_neg
  omega

/-- Serial and text packets that are no VBAN packets change nothing. -/
theorem handle_of_not_audio (hp : p.protocol ≠ vbanProtocolAudio)
    (hv : p.header.vban = vbanHeaderFourc → packetlen < vbanHeaderSize) :
    ∃ r, vbanRxHandlePacket env p packetlen c ipIn portIn taken = .ok r ∧
      SameReceiveContext c r.context := by
  rw [vbanRxHandlePacket, if_neg hp]
  split_ifs with hserial htxt
  · rw [handleSerial]
    split_ifs with hname
    · cases hm : c.ringbufferMidi with
      | none => exact ⟨_, rfl, .refl c⟩
      | some rb =>
        simp only [midiLoop_short (hv hname.1)]
        exact ⟨_, rfl, ⟨rfl, rfl, rfl, rfl, rfl, rfl, hm.symm⟩⟩
    · exact ⟨_, rfl, .refl c⟩
  · exact ⟨_, rfl, .refl c⟩
  · exact ⟨_, rfl, .refl c⟩

/-- The audio of a bound stream is harmless only when it repeats what is known. -/
theorem handle_audio_iff (hp : p.protocol = vbanProtocolAudio)
    (hname : c.rxStreamname = p.header.streamname) (hip : c.iprx = ipIn) :
    (∃ r, vbanRxHandlePacket env p packetlen c ipIn portIn taken = .ok r ∧
      SameReceiveContext c r.context) ↔ HandledHarmless c p := by
  rw [HandledHarmless, imp_iff_right hp]
  constructor
  · rintro ⟨r, hr, hsame⟩
    cases vbanRxHandlePacket_cases hr with
    | @announced sr _ hc hsr =>
      refine ⟨fun _ => ?_, fun ho => absurd hc ho⟩
      have hn := hsame.nboutputs_eq
      have hrate := hsame.samplerateResampler_eq
      simp only [announceFormat] at hn hrate
      refine ⟨fun hz => ?_, ?_⟩
      · rw [if_pos hz] at hn
        omega
      · rw [srList] at hsr
        cases hs : vbanSRList[p.header.formatSR.toNat]? with
        | none =>
          rw [hs] at hsr
          cases hsr
        | some x =>
          rw [hs] at hsr
          obtain rfl := Except.ok.inj hsr
          exact congrArg some hrate
    | enqueued he hc => exact ⟨fun hn => absurd hn he.2.1, fun _ => hsame.nuFrame_eq⟩
    | midi hna => exact absurd hp hna
    | ignored hi =>
      obtain ⟨ho, hacc⟩ := hi hp
      refine ⟨fun hn => absurd hn ho, fun _ => ?_⟩
      by_contra hne
      exact hacc ⟨by rw [StreamName.Strncmp, hname], hne, hip⟩
  · rintro ⟨hnone, hsome⟩
    rw [vbanRxHandlePacket, if_pos hp, handleAudio]
    cases hc : c.ringbuffer with
    | none =>
      obtain ⟨hn, hrate⟩ := hnone hc
      cases hs : vbanSRList[p.header.formatSR.toNat]? with
      | none =>
        rw [hs] at hrate
        cases hrate
      | some x =>
        rw [hs] at hrate
        simp only [srList, hs]
        refine ⟨_, rfl, rfl, rfl, if_neg hn, Option.some.inj hrate, rfl, rfl, rfl⟩
    | some rb =>
      have hacc : ¬c.Accepts p ipIn := fun hacc => hacc.2.1 (hsome (by simp [hc]))
      simp only [if_neg hacc]
      exact ⟨_, rfl, .refl c⟩

theorem handleAndClear_iff {Q : VbanRxContext R → Prop} :
    (∃ t, handleAndClear env s packetlen ipIn taken = .ok t ∧ Q t.context) ↔
      ∃ r, vbanRxHandlePacket env s.packet packetlen s.context ipIn s.context.ansport taken =
        .ok r ∧ Q r.context := by
  constructor
  · rintro ⟨t, ht, hq⟩
    obtain ⟨r, hr, ht⟩ := bind_eq_ok.mp ht
    obtain rfl := Except.ok.inj ht
    exact ⟨r, hr, hq⟩
  · rintro ⟨r, hr, hq⟩
    exact ⟨_, bind_eq_ok.mpr ⟨r, hr, rfl⟩, hq⟩

theorem exists_ok_iff {Q : RxThread R → Prop} :
    (∃ t, (.ok s : Except Fault (RxThread R)) = .ok t ∧ Q t) ↔ Q s := by
  simp

/-- Taking over an address and a name changes nothing when they are already there. -/
theorem sameReceiveContext_bind {ip : UInt32} {name : StreamName} :
    SameReceiveContext c { c with iprx := ip, rxStreamname := name } ↔
      ip = c.iprx ∧ name = c.rxStreamname :=
  ⟨fun h => ⟨h.iprx_eq, h.rxStreamname_eq⟩, fun h => ⟨h.1, h.2, rfl, rfl, rfl, rfl, rfl⟩⟩

theorem bindOrHandle_iff
    (hp : s.packet.protocol = vbanProtocolAudio ∨ s.packet.protocol = vbanProtocolSerial)
    (hv : s.packet.header.vban = vbanHeaderFourc → packetlen < vbanHeaderSize) :
    (∃ t, bindOrHandle env s packetlen s.cAddr.1 taken = .ok t ∧
      SameReceiveContext s.context t.context) ↔ s.Harmless := by
  rw [RxThread.Harmless, imp_iff_right hp]
  simp only [bindOrHandle]
  by_cases hip : s.context.iprx = s.cAddr.1
  · by_cases hname : s.context.rxStreamname = s.packet.header.streamname
    · rw [if_pos ⟨hip, hname⟩, if_pos ⟨hip, hname⟩, handleAndClear_iff]
      by_cases ha : s.packet.protocol = vbanProtocolAudio
      · exact handle_audio_iff ha hname hip
      · exact iff_of_true (handle_of_not_audio ha hv) fun h => absurd h ha
    · simp only [hip, hname, and_false, if_false, true_and, or_false]
      by_cases he : s.context.rxStreamname.Empty
      · simp only [he, and_true, if_true]
        split_ifs with hz
        · rw [exists_ok_iff, sameReceiveContext_bind]
          exact and_iff_right hip.symm
        · rw [exists_ok_iff]
          exact sameReceiveContext_bind.trans (and_iff_right hip.symm)
      · simp only [he, and_false, if_false, not_false_eq_true, iff_true]
        exact ⟨s, rfl, .refl _⟩
  · simp only [hip, false_and, if_false]
    have hne : ∀ {name : StreamName}, ¬SameReceiveContext s.context
        { s.context with iprx := s.cAddr.1, rxStreamname := name } :=
      fun h => hip h.iprx_eq.symm
    split_ifs with hbind hmatch
    · rw [exists_ok_iff]
      exact iff_of_false hne fun h => h ⟨hbind.1, .inl hbind.2⟩
    · rw [exists_ok_iff]
      exact iff_of_false hne fun h => h ⟨hmatch.1, .inr hmatch.2⟩
    · refine iff_of_true ⟨s, rfl, .refl _⟩ ?_
      rintro ⟨hz, he | hname⟩
      · exact hbind ⟨hz, he⟩
      · exact hmatch ⟨hz, hname⟩

theorem dispatchUdp_iff (env : RxEnv R) (taken : List Nat)
    (hv : s.packet.header.vban = vbanHeaderFourc → packetlen < vbanHeaderSize) :
    (∃ t, dispatchUdp env s packetlen taken = .ok t ∧
      SameReceiveContext s.context t.context) ↔ s.Harmless := by
  have hsame : ∀ c, SameReceiveContext s.context c ↔ SameReceiveContext s.setAnsport.context c :=
    fun c => ⟨fun h => ⟨h.1, h.2, h.3, h.4, h.5, h.6, h.7⟩,
      fun h => ⟨h.1, h.2, h.3, h.4, h.5, h.6, h.7⟩⟩
  simp only [hsame, dispatchUdp]
  change _ ↔ s.setAnsport.Harmless
  split_ifs with hp
  · exact bindOrHandle_iff hp hv
  · rw [handleAndClear_iff]
    exact iff_of_true (handle_of_not_audio (fun ha => hp (.inl ha)) hv) fun h => absurd h hp

/-- A datagram that is no VBAN packet leaves the receive context as it was exactly when the buffer
it completes is harmless. -/
theorem receive_harmless_iff {bytes : List UInt8} {addr : Option (UInt32 × UInt16)} {ts : Timespec}
    (hbad : NotVban bytes) :
    (∃ t, s.receive env (.datagram bytes addr ts taken) = .ok t ∧
      SameReceiveContext s.context t.context) ↔ (s.received bytes addr ts).Harmless := by
  have hv : (s.received bytes addr ts).packet.header.vban = vbanHeaderFourc →
      ((bytes.take vbanProtocolMaxSize).length : Int) < vbanHeaderSize := by
    intro h
    have := hbad.short h
    rw [List.length_take]
    omega
  refine Iff.trans ?_ (dispatchUdp_iff env taken hv)
  exact exists_congr fun t => and_congr_right fun _ =>
    ⟨fun h => ⟨h.1, h.2, h.3, h.4, h.5, h.6, h.7⟩, fun h => ⟨h.1, h.2, h.3, h.4, h.5, h.6, h.7⟩⟩

end

/-- This holds in every reachable state. -/
theorem not_vban_datagram_ignored_iff (env : RxEnv R) :
    ∀ s₀ ls s, RxThread.Initial s₀ → Run (RxThreadStep env) s₀ ls s →
      ∀ bytes addr ts taken, NotVban bytes →
        ((∃ t, s.receive env (.datagram bytes addr ts taken) = .ok t ∧
          SameReceiveContext s.context t.context) ↔ (s.received bytes addr ts).Harmless) :=
  fun _ _ _ _ _ _ _ _ _ hbad => receive_harmless_iff hbad

/-- An audio header without the magic number and with an empty name. -/
def blankHeader : VBanHeader := ⟨0, 0, 0, 0, 0, .strncpy [], 0⟩

theorem blankHeader_notVban : NotVban blankHeader.toBytes := .inr (by decide)

/-- A bound receptor ignores it. -/
theorem not_vban_datagram_ignored_bound :
    ∃ t, boundReceptor.receive silentEnv.toRxEnv (headerInput blankHeader) = .ok t ∧
      SameReceiveContext boundReceptor.context t.context := by
  refine (not_vban_datagram_ignored_iff silentEnv.toRxEnv _ [] _ boundReceptor_initial (.refl _)
    _ _ _ _ blankHeader_notVban).mpr fun _ => ?_
  have hname : boundReceptor.context.rxStreamname ≠ blankHeader.streamname := by decide
  have hempty : ¬boundReceptor.context.rxStreamname.Empty := by decide
  rw [headerInput_header, if_neg fun h => hname h.2, if_neg fun h => hempty h.2]
  exact fun h => absurd h.1 (by decide)

/-- A receptor that was started without a stream name and without an address. -/
def unboundReceptor : RxThread Unit := ⟨.start (.strncpy []) 0 6980, .zero, (0, 0)⟩

/-- An unbound one binds to the sender of any 28 zero bytes. -/
theorem not_vban_datagram_binds :
    ¬∀ (env : RxEnv Unit) s₀ ls s, RxThread.Initial s₀ → Run (RxThreadStep env) s₀ ls s →
      ∀ bytes addr ts taken, NotVban bytes →
        ∃ t, s.receive env (.datagram bytes addr ts taken) = .ok t ∧
          SameReceiveContext s.context t.context := by
  intro h
  have hinit : unboundReceptor.Initial := ⟨rfl, rfl, rfl, rfl, rfl, rfl⟩
  have hharmless := (receive_harmless_iff blankHeader_notVban).mp
      (h silentEnv.toRxEnv _ [] _ hinit (.refl _) _ (some (0x0100007F, 6980)) ⟨1, 0⟩ []
        blankHeader_notVban)
  have hip : unboundReceptor.context.iprx ≠ 0x0100007F := by decide
  rw [RxThread.Harmless, VBanPacket.protocol, headerInput_header, imp_iff_right (.inl rfl),
    if_neg fun h => hip h.1, if_neg fun h => hip h.1] at hharmless
  exact hharmless ⟨rfl, .inl (by decide)⟩

end Vban
