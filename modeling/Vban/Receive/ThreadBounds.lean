import Vban.Receive.Bounds

/-! Memory safety of the receive threads: which inputs they handle inside their memory. -/
namespace Vban

open Library

section RxThread

variable {R : Type} {env : RxEnv R} {s t : RxThread R} {i : RxInput} {packetlen : Int}
  {ipIn : UInt32} {taken : List Nat}

/-- An open stream has a sample rate. -/
def RxThread.RateKnown (s : RxThread R) : Prop :=
  s.context.ringbuffer ≠ none → s.context.samplerateResampler ≠ 0

/-- A turn opens and closes no stream, and keeps the rate of an open one. -/
def KeepsStream (s t : RxThread R) : Prop :=
  (t.context.ringbuffer = none ↔ s.context.ringbuffer = none) ∧
    (s.context.ringbuffer ≠ none →
      t.context.samplerateResampler = s.context.samplerateResampler)

theorem receive_keeps (h : s.receive env i = .ok t) : KeepsStream s t := by
  refine receive_invariant (I := fun c => (c.ringbuffer = none ↔ s.context.ringbuffer = none) ∧
    (s.context.ringbuffer ≠ none → c.samplerateResampler = s.context.samplerateResampler))
    (fun _ _ _ _ _ hc => hc) ?_ h ⟨Iff.rfl, fun _ => rfl⟩
  rintro c p n ip port taken r ⟨hring, hrate⟩ hr
  obtain ⟨-, -, -, hring', hrate'⟩ := (vbanRxHandlePacket_cases hr).binding
  refine ⟨hring'.trans hring, fun ho => (hrate' ?_).trans (hrate ho)⟩
  exact fun hn => ho (hring.mp hn)

theorem rateKnown_step {l : Option RxInput} (hs : s.RateKnown) (h : RxThreadStep env s l t) :
    t.RateKnown := by
  cases h with
  | receive _ h =>
    obtain ⟨hring, hrate⟩ := receive_keeps h
    intro ho
    have hopen : s.context.ringbuffer ≠ none := fun hn => ho (hring.mpr hn)
    rw [hrate hopen]
    exact hs hopen
  | @other c h =>
    intro ho
    change c.samplerateResampler ≠ 0
    rw [h.samplerateResampler_eq]
    by_cases hn : s.context.ringbuffer = none
    · exact h.opened hn ho
    · exact hs hn

/-- A matching sender and name: the packet will be handled. -/
def DispatchInBounds (s : RxThread R) : Prop :=
  s.context.iprx = s.cAddr.1 → s.context.rxStreamname = s.packet.header.streamname →
    AudioInBounds s.context s.packet s.cAddr.1

/-- `s` has just read a header of `n` bytes. -/
def PipeInBounds (s : RxThread R) (n : Nat) (data : List UInt8) : Prop :=
  (s.packet.protocol = vbanProtocolAudio ∨ s.packet.protocol = vbanProtocolTxt →
    s.packet.datalen ≤ vbanDataMaxSize) ∧
  (vbanHeaderSize ≤ s.packet.lengthWithData n data → s.packet.header.vban = vbanHeaderFourc →
    AudioInBounds s.bindName.context s.packet 0)

/-- The inputs the thread handles inside its memory. -/
def RxThread.InBounds (s : RxThread R) : RxInput → Prop
  | .datagram bytes addr ts _ => DispatchInBounds (s.received bytes addr ts)
  | .recvError _ => DispatchInBounds s
  | .pipe header data ts =>
    PipeInBounds (s.headerRead header ts) (header.take vbanHeaderSize).length data

theorem handleAndClear_avoids (hs : s.RateKnown) :
    Avoids Fault.OutOfBounds (handleAndClear env s packetlen ipIn taken) ↔
      AudioInBounds s.context s.packet ipIn := by
  rw [handleAndClear, avoids_bind, vbanRxHandlePacket_avoids hs]
  exact ⟨fun h => h.1, fun h => ⟨h, fun _ _ => avoids_ok⟩⟩

theorem dispatchUdp_avoids (hs : s.RateKnown) :
    Avoids Fault.OutOfBounds (dispatchUdp env s packetlen taken) ↔ DispatchInBounds s := by
  have hs' : s.setAnsport.RateKnown := hs
  change _ ↔ DispatchInBounds s.setAnsport
  simp only [dispatchUdp]
  split_ifs with hp
  · simp only [bindOrHandle, DispatchInBounds]
    split_ifs with hm
    · rw [imp_iff_right hm.1, imp_iff_right hm.2]
      exact handleAndClear_avoids hs'
    all_goals exact iff_of_true avoids_ok fun hip hname => absurd ⟨hip, hname⟩ hm
  · have hna : s.setAnsport.packet.protocol ≠ vbanProtocolAudio := fun ha => hp (.inl ha)
    exact iff_of_true ((handleAndClear_avoids hs').mpr fun ha => absurd ha hna)
      fun _ _ ha => absurd ha hna

theorem readData_cases (s : RxThread R) (n : Nat) (data : List UInt8) :
    (¬(s.packet.protocol = vbanProtocolAudio ∨ s.packet.protocol = vbanProtocolTxt) ∧
      readData s n data = .ok (s, n)) ∨
    ((s.packet.protocol = vbanProtocolAudio ∨ s.packet.protocol = vbanProtocolTxt) ∧
      ((vbanDataMaxSize < s.packet.datalen ∧
        readData s n data = .error (.readLength s.packet.datalen)) ∨
      ∃ h, readData s n data =
        .ok ({ s with packet := s.packet.store vbanHeaderSize s.packet.datalen h data }.bindName,
          s.packet.lengthWithData n data))) := by
  simp only [readData]
  split_ifs with hp hle
  · exact .inr ⟨hp, .inr ⟨hle, rfl⟩⟩
  · refine .inr ⟨hp, .inl ⟨?_, rfl⟩⟩
    have : vbanHeaderSize + vbanDataMaxSize = vbanProtocolMaxSize := rfl
    omega
  · exact .inl ⟨hp, rfl⟩

/-- What the pipe turn does once the data has been read. -/
theorem finishPipe_avoids (env : RxEnv R) (n : Nat) (hs : s.RateKnown) :
    Avoids Fault.OutOfBounds (if vbanHeaderSize ≤ n ∧ s.packet.header.vban = vbanHeaderFourc then
        handleAndClear env s n 0 [] else .ok s) ↔
      (vbanHeaderSize ≤ n → s.packet.header.vban = vbanHeaderFourc →
        AudioInBounds s.context s.packet 0) := by
  split_ifs with h
  · rw [handleAndClear_avoids hs, imp_iff_right h.1, imp_iff_right h.2]
  · exact iff_of_true avoids_ok fun hn hv => absurd ⟨hn, hv⟩ h

theorem audioInBounds_congr {R : Type} {c : VbanRxContext R} {p q : VBanPacket} {ip : UInt32}
    (h : p.header = q.header) : AudioInBounds c p ip ↔ AudioInBounds c q ip := by
  simp only [AudioInBounds, VBanPacket.AudioFits, VBanPacket.protocol, VBanPacket.samples,
    VBanPacket.channels, VBanPacket.sampleSize, VbanRxContext.Accepts, h]

theorem pipe_avoids {header data : List UInt8} {ts : Timespec} (hs : s.RateKnown) :
    Avoids Fault.OutOfBounds (s.receive env (.pipe header data ts)) ↔
      s.InBounds (.pipe header data ts) := by
  simp only [RxThread.receive, RxThread.InBounds, PipeInBounds]
  have hs' : (s.headerRead header ts).RateKnown := hs
  set u := s.headerRead header ts
  set n := (header.take vbanHeaderSize).length
  obtain ⟨hp, h⟩ | ⟨hp, ⟨hlt, h⟩ | ⟨hle, h⟩⟩ := readData_cases u n data
  · have hna : u.packet.protocol ≠ vbanProtocolAudio := fun ha => hp (.inl ha)
    rw [h]
    refine iff_of_true ((finishPipe_avoids env n hs').mpr fun _ _ ha => absurd ha hna)
      ⟨fun hq => absurd hq hp, fun _ _ ha => absurd ha hna⟩
  · rw [h]
    exact iff_of_false (fun hf => hf _ rfl trivial) fun hb => absurd (hb.1 hp) (by omega)
  · have hheader := VBanPacket.header_store_data u.packet data hle
    set v := { u with packet := u.packet.store vbanHeaderSize u.packet.datalen hle data }.bindName
    have hv : v.RateKnown := hs'
    have hfinish := finishPipe_avoids env (u.packet.lengthWithData n data) hv
    have hfits : u.packet.datalen ≤ vbanDataMaxSize := by
      have : vbanHeaderSize + vbanDataMaxSize = vbanProtocolMaxSize := rfl
      omega
    have hcontext : v.context = u.bindName.context := by
      simp only [v, RxThread.bindName, hheader]
    rw [h]
    refine hfinish.trans ?_
    rw [show v.packet.header = u.packet.header from hheader, hcontext,
      audioInBounds_congr (show v.packet.header = u.packet.header from hheader)]
    exact ⟨fun hb => ⟨fun _ => hfits, hb⟩, fun hb => hb.2⟩

theorem receive_avoids (hs : s.RateKnown) :
    Avoids Fault.OutOfBounds (s.receive env i) ↔ s.InBounds i := by
  cases i with
  | datagram bytes addr ts =>
    exact dispatchUdp_avoids (s := s.received bytes addr ts) hs
  | recvError => exact dispatchUdp_avoids hs
  | pipe => exact pipe_avoids hs

end RxThread

section NetThread

variable {R : Type} {env : NetEnv R} {t : NetThread R} {p : VBanPacket} {bytes : List UInt8}
  {fromIp : UInt32}

namespace NetThread

/-- An accepted packet is decoded, and the first one of a stream gives its rate. -/
def InBounds (t : NetThread R) (bytes : List UInt8) (fromIp : UInt32) : Prop :=
  let p := packetOf bytes
  bytes ≠ [] → p.header.vban = vbanHeaderFourc → p.protocol = vbanProtocolAudio →
    if t.rxip = fromIp ∧ t.Named p ∧ t.rxNuFrame ≠ p.header.nuFrame then
      (t.resamplerInBufLen ≠ p.samples →
        (p.header.formatSR &&& vbanSrMask).toNat < vbanSrMaxnumber) ∧
      p.NetAudioFits t.nboutputs t.offset
    else t.nboutputs ≠ 0 → t.rxip = 0 → t.Named p →
      (p.header.formatSR &&& vbanSrMask).toNat < vbanSrMaxnumber

theorem resizeBuffers_avoids :
    Avoids Fault.OutOfBounds (t.resizeBuffers env p) ↔
      (t.resamplerInBufLen ≠ p.samples →
        (p.header.formatSR &&& vbanSrMask).toNat < vbanSrMaxnumber) := by
  simp only [resizeBuffers, VBanPacket.samples]
  split_ifs with hlt hgt
  · rw [imp_iff_right (by omega), avoids_bind, srList_avoids]
    exact ⟨fun h => h.1, fun h => ⟨h, fun _ _ => avoids_ok⟩⟩
  · rw [imp_iff_right (by omega), avoids_bind, srList_avoids]
    exact ⟨fun h => h.1, fun h => ⟨h, fun _ _ => avoids_ok⟩⟩
  · exact iff_of_true avoids_ok fun h => absurd h (by omega)

theorem srList_onlyFails {i : UInt8} : OnlyFails Fault.OutOfBounds (srList i) := by
  rw [srList]
  cases vbanSRList[i.toNat]? with
  | none => exact onlyFails_error trivial
  | some sr => exact onlyFails_ok

theorem resizeBuffers_onlyFails : OnlyFails Fault.OutOfBounds (t.resizeBuffers env p) := by
  simp only [resizeBuffers]
  split_ifs
  · exact srList_onlyFails.bind fun _ => onlyFails_ok
  · exact srList_onlyFails.bind fun _ => onlyFails_ok
  · exact onlyFails_ok

/-- Only the buffers change. -/
theorem resizeBuffers_spec {u : NetThread R} (h : t.resizeBuffers env p = .ok u) :
    ∃ inBufLen inBuf outBufLen outBuf, u = { t with
      resamplerInBufLen := inBufLen
      resamplerInBuf := inBuf
      resamplerOutBufLen := outBufLen
      resamplerOutBuf := outBuf } := by
  simp only [resizeBuffers] at h
  split_ifs at h
  · obtain ⟨sr, -, h⟩ := bind_eq_ok.mp h
    obtain rfl := Except.ok.inj h
    exact ⟨_, _, _, _, rfl⟩
  · obtain ⟨sr, -, h⟩ := bind_eq_ok.mp h
    obtain rfl := Except.ok.inj h
    exact ⟨_, _, _, _, rfl⟩
  · obtain rfl := Except.ok.inj h
    exact ⟨_, _, _, _, rfl⟩

end NetThread

section Frame

variable {renv : RxEnv R} {data : List UInt8} {src n : Nat} {format : UInt8}

theorem netFrame_onlyFails : OnlyFails Fault.OutOfBounds (netFrame renv data src n format) := by
  rw [netFrame, convertVbanToFloat]
  split_ifs
  all_goals first | exact convertSamples_onlyFails | exact onlyFails_ok

theorem netFrame_avoids :
    Avoids Fault.OutOfBounds (netFrame renv data src n format) ↔
      (format ∈ [vbanBitfmt16Int, vbanBitfmt24Int, vbanBitfmt32Float] →
        vbanBitResolutionSize.getD format.toNat 0 * n = 0 ∨
          src + vbanBitResolutionSize.getD format.toNat 0 * n ≤ vbanDataMaxSize) := by
  rw [netFrame, convertVbanToFloat]
  split_ifs with h4 hn h1 h2
  · subst h4
    rw [imp_iff_right (by decide), convertSamples_avoids]
    rfl
  · exact iff_of_true avoids_ok fun _ => .inl (by rw [hn, Nat.mul_zero])
  · subst h1
    rw [imp_iff_right (by decide), convertSamples_avoids]
    rfl
  · subst h2
    rw [imp_iff_right (by decide), convertSamples_avoids]
    rfl
  · refine iff_of_true avoids_ok fun hm => ?_
    simp [h1, h2, h4] at hm

end Frame

namespace NetThread

theorem convertFrames_avoids :
    Avoids Fault.OutOfBounds (t.convertFrames env p) ↔ p.NetAudioFits t.nboutputs t.offset := by
  rw [VBanPacket.NetAudioFits]
  by_cases hb : p.header.formatBit.toNat < vbanBitResolutionMax
  · simp only [NetThread.convertFrames, bitResolutionSize_of_lt hb, avoids_bind, avoids_ok,
      Except.ok.injEq, forall_eq', true_and, hb]
    rw [avoids_foldlM fun _ => netFrame_onlyFails, readsFit_iff p.samples (Nat.succ_pos _)]
    simp only [netFrame_avoids]
    exact ⟨fun h hf i hi => h i hi hf, fun h i hi hf => h hf i hi⟩
  · simp only [NetThread.convertFrames, avoids_bind, bitResolutionSize_avoids, hb, false_and]

theorem enqueue_avoids :
    Avoids Fault.OutOfBounds (t.enqueue env p) ↔
      (t.resamplerInBufLen ≠ p.samples →
        (p.header.formatSR &&& vbanSrMask).toNat < vbanSrMaxnumber) ∧
      p.NetAudioFits t.nboutputs t.offset := by
  rw [enqueue, avoids_bind, ← resizeBuffers_avoids]
  refine and_congr_right fun hresize => ?_
  obtain ⟨u, hu⟩ := resizeBuffers_onlyFails.avoids_iff.mp hresize
  rw [hu]
  obtain ⟨inBufLen, inBuf, outBufLen, outBuf, rfl⟩ := resizeBuffers_spec hu
  simp only [Except.ok.injEq, forall_eq', avoids_bind, convertFrames_avoids]
  refine ⟨fun h => h.1, fun h => ⟨h, fun inbuf _ => ?_⟩⟩
  cases t.resampler with
  | none => exact avoids_error.mpr id
  | some resampler => exact avoids_ok

theorem createStream_avoids :
    Avoids Fault.OutOfBounds (t.createStream env p fromIp) ↔
      (p.header.formatSR &&& vbanSrMask).toNat < vbanSrMaxnumber := by
  rw [createStream, avoids_bind, srList_avoids]
  refine ⟨fun h => h.1, fun h => ⟨h, fun sr _ => ?_⟩⟩
  cases env.setup t.samplerate sr t.nboutputs with
  | none => exact avoids_error.mpr id
  | some resampler => exact avoids_ok

theorem receive_avoids :
    Avoids Fault.OutOfBounds (t.receive env bytes fromIp) ↔ t.InBounds bytes fromIp := by
  simp only [receive, InBounds]
  by_cases h : bytes ≠ [] ∧ (packetOf bytes).header.vban = vbanHeaderFourc ∧
      (packetOf bytes).protocol = vbanProtocolAudio
  · obtain ⟨hne, hv, hp⟩ := h
    rw [if_pos ⟨hne, hv, hp⟩, imp_iff_right hne, imp_iff_right hv, imp_iff_right hp]
    split_ifs with hacc hnew
    · exact enqueue_avoids
    · rw [imp_iff_right hnew.1, imp_iff_right hnew.2.1, imp_iff_right hnew.2.2]
      exact createStream_avoids
    · exact iff_of_true avoids_ok fun hn hip hname => absurd ⟨hn, hip, hname⟩ hnew
  · rw [if_neg h]
    exact iff_of_true avoids_ok fun hne hv hp => absurd ⟨hne, hv, hp⟩ h

end NetThread

end NetThread

section Runs

variable {R : Type}

theorem RxThread.Initial.rateKnown {s : RxThread R} (h : s.Initial) : s.RateKnown :=
  fun ho => absurd h.ringbuffer_eq ho

/-- A reachable receptor, and the ALSA utility in any state, make no access outside the packet
and the tables exactly on the inputs whose header describes something inside them. -/
theorem receive_avoids_out_of_bounds_iff (env : RxEnv R) (netEnv : NetEnv R) :
    (∀ s₀ ls s i, s₀.Initial → Run (RxThreadStep env) s₀ ls s →
      (Avoids Fault.OutOfBounds (s.receive env i) ↔ s.InBounds i)) ∧
    ∀ (t : NetThread R) bytes fromIp,
      Avoids Fault.OutOfBounds (t.receive netEnv bytes fromIp) ↔ t.InBounds bytes fromIp := by
  refine ⟨fun s₀ ls s i hinit hrun => ?_, fun t bytes fromIp => NetThread.receive_avoids⟩
  exact receive_avoids (hrun.invariant (fun _ _ _ hs h => rateKnown_step hs h) hinit.rateKnown)

/-- An audio header with the stream name `"A"`. -/
def audioHeader (formatSR nbs nbc bit : UInt8) (nuFrame : UInt32) : VBanHeader where
  vban := vbanHeaderFourc
  formatSR := formatSR
  formatNbs := nbs
  formatNbc := nbc
  formatBit := bit
  streamname := .strncpy [0x41, 0]
  nuFrame := nuFrame

/-- A receptor that was started with the stream name `"A"` and the address `127.0.0.1`. -/
def boundReceptor : RxThread Unit := ⟨.start (.strncpy [0x41, 0]) 0x0100007F 6980, .zero, (0, 0)⟩

theorem boundReceptor_initial : boundReceptor.Initial := ⟨rfl, rfl, rfl, rfl, rfl, rfl⟩

/-- A datagram from `127.0.0.1` that is nothing but a header. -/
def headerInput (h : VBanHeader) : RxInput :=
  .datagram h.toBytes (some (0x0100007F, 6980)) ⟨1, 0⟩ []

theorem headerInput_header {s : RxThread R} {h : VBanHeader} {addr : Option (UInt32 × UInt16)}
    {ts : Timespec} : (s.received h.toBytes addr ts).packet.header = h :=
  s.packet.header_store_toBytes h

/-- A rate inside the table. -/
theorem receive_avoids_out_of_bounds_first :
    Avoids Fault.OutOfBounds
      (boundReceptor.receive silentEnv.toRxEnv (headerInput (audioHeader 3 0 0 1 1))) := by
  refine ((receive_avoids_out_of_bounds_iff silentEnv.toRxEnv silentEnv).1 _ [] _ _
    boundReceptor_initial (.refl _)).mpr fun _ _ _ => ⟨fun _ => ?_, fun hopen => absurd rfl hopen⟩
  rw [headerInput_header]
  decide

/-- The first packet of a known source names a rate that is not in the table. -/
theorem receive_out_of_bounds :
    ¬∀ (env : RxEnv Unit) s₀ ls s i, RxThread.Initial s₀ → Run (RxThreadStep env) s₀ ls s →
      Avoids Fault.OutOfBounds (s.receive env i) := by
  intro h
  have hinit := boundReceptor_initial
  have hbounds := (receive_avoids hinit.rateKnown).mp
    (h silentEnv.toRxEnv _ [] _ (headerInput (audioHeader 21 0 0 1 1)) hinit (.refl _))
  have hname : boundReceptor.context.rxStreamname =
      (boundReceptor.received (audioHeader 21 0 0 1 1).toBytes (some (0x0100007F, 6980))
        ⟨1, 0⟩).packet.header.streamname := by
    rw [headerInput_header]
    rfl
  have haudio : (boundReceptor.received (audioHeader 21 0 0 1 1).toBytes
      (some (0x0100007F, 6980)) ⟨1, 0⟩).packet.protocol = vbanProtocolAudio := by
    rw [VBanPacket.protocol, headerInput_header]
    rfl
  have hsr := (hbounds rfl hname haudio).1 rfl
  rw [headerInput_header] at hsr
  exact absurd hsr (by decide)

end Runs

end Vban
