import Vban.Library.Outcome
import Vban.Receive.RxThread

/-! What a handled packet can do to the context. -/
namespace Vban

open Library

variable {R : Type} {env : RxEnv R} {c c' d : VbanRxContext R} {p : VBanPacket}
  {ringbuffer : Ringbuffer} {packetlen : Int} {ipIn : UInt32} {portIn : UInt16} {taken : List Nat}

/-- The audio path leaves the binding and the MIDI ring alone. -/
structure SameBinding (c c' : VbanRxContext R) : Prop where
  iprx_eq : c'.iprx = c.iprx
  rxStreamname_eq : c'.rxStreamname = c.rxStreamname
  rxport_eq : c'.rxport = c.rxport
  nboutputs_eq : c'.nboutputs = c.nboutputs
  samplerateResampler_eq : c'.samplerateResampler = c.samplerateResampler
  nuFrame_eq : c'.nuFrame = c.nuFrame
  ringbufferMidi_eq : c'.ringbufferMidi = c.ringbufferMidi

theorem SameBinding.refl (c : VbanRxContext R) : SameBinding c c :=
  ⟨rfl, rfl, rfl, rfl, rfl, rfl, rfl⟩

theorem SameBinding.trans (h : SameBinding c c') (k : SameBinding c' d) : SameBinding c d :=
  ⟨k.iprx_eq.trans h.iprx_eq, k.rxStreamname_eq.trans h.rxStreamname_eq,
    k.rxport_eq.trans h.rxport_eq, k.nboutputs_eq.trans h.nboutputs_eq,
    k.samplerateResampler_eq.trans h.samplerateResampler_eq, k.nuFrame_eq.trans h.nuFrame_eq,
    k.ringbufferMidi_eq.trans h.ringbufferMidi_eq⟩

/-- The resize changes only the buffers and their lengths. -/
theorem resizeResamplerBuffers_context {nbs : Nat} (h : resizeResamplerBuffers c nbs = .ok c') :
    ∃ inbuf inbuflen outbuf outbuflen, c' = { c with
      resamplerInbuf := inbuf
      resamplerInbuflen := inbuflen
      resamplerOutbuf := outbuf
      resamplerOutbuflen := outbuflen } := by
  simp only [resizeResamplerBuffers] at h
  split_ifs at h
  · exact ⟨_, _, _, _, (Except.ok.inj h).symm⟩
  · exact ⟨_, _, _, _, (Except.ok.inj h).symm⟩

theorem resizeResamplerBuffers_spec {nbs : Nat} (h : resizeResamplerBuffers c nbs = .ok c') :
    SameBinding c c' ∧ c'.resampler = c.resampler := by
  obtain ⟨inbuf, inbuflen, outbuf, outbuflen, rfl⟩ := resizeResamplerBuffers_context h
  exact ⟨⟨rfl, rfl, rfl, rfl, rfl, rfl, rfl⟩, rfl⟩

/-- The frames an enqueue loop offers go to the ring one by one. -/
def enqueueFrames (ringbuffer : Ringbuffer) (frames : List (List UInt8)) (outframesize : Nat) :
    Ringbuffer :=
  frames.foldl (fun rb frame => enqueueFrame rb frame outframesize) ringbuffer

/-- The enqueue stage changes the resampler, its buffers and the ring. -/
theorem enqueueAudio_context {a : ResampledAudio R}
    (h : enqueueAudio env c p ringbuffer = .ok a) :
    ∃ resampler inbuf inbuflen outbuf outbuflen, a.context = { c with
      resampler := some resampler
      resamplerInbuf := inbuf
      resamplerInbuflen := inbuflen
      resamplerOutbuf := outbuf
      resamplerOutbuflen := outbuflen
      ringbuffer := some (enqueueFrames ringbuffer a.frames (c.nboutputs * 4)) } := by
  simp only [enqueueAudio, bind_eq_ok] at h
  obtain ⟨size, -, c', hc, inbuf, -, h⟩ := h
  obtain ⟨inbuf', inbuflen, outbuf, outbuflen, rfl⟩ := resizeResamplerBuffers_context hc
  cases hr : c.resampler with
  | none =>
    simp only [hr] at h
    cases h
  | some resampler =>
    simp only [hr] at h
    obtain rfl := Except.ok.inj h
    exact ⟨_, _, _, _, _, rfl⟩

theorem enqueueAudio_spec {a : ResampledAudio R} (h : enqueueAudio env c p ringbuffer = .ok a) :
    SameBinding c a.context ∧
      a.context.ringbuffer = some (enqueueFrames ringbuffer a.frames (c.nboutputs * 4)) := by
  obtain ⟨resampler, inbuf, inbuflen, outbuf, outbuflen, hcontext⟩ := enqueueAudio_context h
  rw [hcontext]
  exact ⟨⟨rfl, rfl, rfl, rfl, rfl, rfl, rfl⟩, rfl⟩

theorem calcInputSamplerate_spec :
    SameBinding c (calcInputSamplerate c p).2 ∧
      (calcInputSamplerate c p).2.ringbuffer = c.ringbuffer := by
  simp only [calcInputSamplerate]
  split_ifs <;> exact ⟨⟨rfl, rfl, rfl, rfl, rfl, rfl, rfl⟩, rfl⟩

/-- Without the correction the context is that of the enqueue stage. With it the cycle lengths are
brought up to date, and the fill level may be. -/
theorem correctFill_cases {a : ResampledAudio R} (h : correctFill a p = .ok c') :
    a.context.flags &&& correctionOn = 0 ∧ c' = a.context ∨
      a.context.flags &&& correctionOn ≠ 0 ∧
        ∃ fill, c' = { (calcInputSamplerate a.context p).2 with rbfill := fill } := by
  simp only [correctFill] at h
  by_cases hflag : a.context.flags &&& correctionOn = 0
  · rw [if_pos hflag] at h
    exact .inl ⟨hflag, (Except.ok.inj h).symm⟩
  · rw [if_neg hflag] at h
    refine .inr ⟨hflag, ?_⟩
    cases hr : (calcInputSamplerate a.context p).2.ringbuffer with
    | none =>
      rw [hr] at h
      exact ⟨_, (Except.ok.inj h).symm⟩
    | some rb =>
      rw [hr] at h
      simp only at h
      split_ifs at h
      · obtain rfl := Except.ok.inj h
        rw [← hr]
        exact ⟨_, rfl⟩
      · exact ⟨_, (Except.ok.inj h).symm⟩

theorem correctFill_spec {a : ResampledAudio R} (h : correctFill a p = .ok c') :
    SameBinding a.context c' ∧ c'.ringbuffer = a.context.ringbuffer := by
  obtain ⟨hsame, hring⟩ := calcInputSamplerate_spec (c := a.context) (p := p)
  rcases correctFill_cases h with ⟨-, rfl⟩ | ⟨-, fill, rfl⟩
  · exact ⟨.refl _, rfl⟩
  · exact ⟨hsame.trans ⟨rfl, rfl, rfl, rfl, rfl, rfl, rfl⟩, hring⟩

/-- The packet is audio of the bound stream, the stream is open, and it is not a repetition. -/
def Enqueues (c : VbanRxContext R) (p : VBanPacket) (ipIn : UInt32) : Prop :=
  p.protocol = vbanProtocolAudio ∧ c.ringbuffer ≠ none ∧ c.Accepts p ipIn

/-- What is left to the handler once the packet is enqueued. -/
theorem vbanRxHandlePacket_of_enqueues {a : ResampledAudio R} (he : Enqueues c p ipIn)
    (hc : c.ringbuffer = some ringbuffer) (ha : enqueueAudio env c p ringbuffer = .ok a) :
    vbanRxHandlePacket env p packetlen c ipIn portIn taken =
      correctFill a p >>= fun c' =>
        .ok ⟨0, { c' with nuFrame := p.header.nuFrame }, a.frames, none⟩ := by
  obtain ⟨haudio, -, haccepts⟩ := he
  rw [vbanRxHandlePacket, if_pos haudio, handleAudio, hc]
  simp only
  rw [if_pos haccepts, ha, ok_bind]
  rfl

/-- The four things a handled packet can do. -/
inductive Handled (env : RxEnv R) (c : VbanRxContext R) (p : VBanPacket) (ipIn : UInt32) :
    RxResult R → Prop
  | announced {sr : Nat} (hp : p.protocol = vbanProtocolAudio) (hc : c.ringbuffer = none)
      (hsr : srList p.header.formatSR = .ok sr) :
      Handled env c p ipIn ⟨1, announceFormat c p sr, [], none⟩
  | enqueued {rb : Ringbuffer} {a : ResampledAudio R} {c' : VbanRxContext R}
      (h : Enqueues c p ipIn) (hc : c.ringbuffer = some rb) (ha : enqueueAudio env c p rb = .ok a)
      (hf : correctFill a p = .ok c') :
      Handled env c p ipIn ⟨0, { c' with nuFrame := p.header.nuFrame }, a.frames, none⟩
  | midi {rb : Ringbuffer} (hp : p.protocol ≠ vbanProtocolAudio) :
      Handled env c p ipIn ⟨0, { c with ringbufferMidi := some rb }, [], none⟩
  | ignored {reply : Option (UInt32 × UInt16)}
      (h : p.protocol = vbanProtocolAudio → c.ringbuffer ≠ none ∧ ¬c.Accepts p ipIn) :
      Handled env c p ipIn ⟨0, c, [], reply⟩

theorem vbanRxHandlePacket_cases {r : RxResult R}
    (h : vbanRxHandlePacket env p packetlen c ipIn portIn taken = .ok r) :
    Handled env c p ipIn r := by
  rw [vbanRxHandlePacket] at h
  split_ifs at h with haudio hserial htxt
  · rw [handleAudio] at h
    cases hc : c.ringbuffer with
    | none =>
      rw [hc] at h
      obtain ⟨sr, hsr, h⟩ := bind_eq_ok.mp h
      obtain rfl := Except.ok.inj h
      exact .announced haudio hc hsr
    | some rb =>
      rw [hc] at h
      simp only at h
      split_ifs at h with hacc
      · simp only [bind_eq_ok] at h
        obtain ⟨a, ha, c', hf, h⟩ := h
        obtain rfl := Except.ok.inj h
        exact .enqueued ⟨haudio, by simp [hc], hacc⟩ hc ha hf
      · obtain rfl := Except.ok.inj h
        exact .ignored fun _ => ⟨by simp [hc], hacc⟩
  · rw [handleSerial] at h
    split_ifs at h with hname
    · cases hm : c.ringbufferMidi with
      | none =>
        rw [hm] at h
        obtain rfl := Except.ok.inj h
        exact .ignored fun hp => absurd hp haudio
      | some rb =>
        rw [hm] at h
        obtain ⟨rb', -, h⟩ := bind_eq_ok.mp h
        obtain rfl := Except.ok.inj h
        exact .midi haudio
    · obtain rfl := Except.ok.inj h
      exact .ignored fun hp => absurd hp haudio
  · obtain rfl := Except.ok.inj h
    exact .ignored fun hp => absurd hp haudio
  · obtain rfl := Except.ok.inj h
    exact .ignored fun hp => absurd hp haudio

/-- A packet that enqueues nothing leaves the frame counter and the audio ring as they were. -/
theorem Handled.of_not_enqueues {r : RxResult R} (h : Handled env c p ipIn r)
    (he : ¬Enqueues c p ipIn) :
    r.frames = [] ∧ r.context.nuFrame = c.nuFrame ∧ r.context.ringbuffer = c.ringbuffer := by
  cases h with
  | enqueued hp => exact absurd hp he
  | announced | midi | ignored => exact ⟨rfl, rfl, rfl⟩

/-- No packet changes the binding, closes the stream or changes the rate of an open one. -/
theorem Handled.binding {r : RxResult R} (h : Handled env c p ipIn r) :
    r.context.iprx = c.iprx ∧ r.context.rxStreamname = c.rxStreamname ∧
      r.context.rxport = c.rxport ∧ (r.context.ringbuffer = none ↔ c.ringbuffer = none) ∧
      (c.ringbuffer ≠ none → r.context.samplerateResampler = c.samplerateResampler) := by
  cases h with
  | announced hp hc => exact ⟨rfl, rfl, rfl, Iff.rfl, fun h => absurd hc h⟩
  | enqueued hp hc ha hf =>
    obtain ⟨hs, hrb⟩ := enqueueAudio_spec ha
    obtain ⟨hs', hrb'⟩ := correctFill_spec hf
    have h := hs.trans hs'
    refine ⟨h.iprx_eq, h.rxStreamname_eq, h.rxport_eq, ?_, fun _ => h.samplerateResampler_eq⟩
    simp only
    rw [hrb', hrb, hc]
    simp
  | midi | ignored => exact ⟨rfl, rfl, rfl, Iff.rfl, fun _ => rfl⟩

/-! What a handled packet and a new binding keep, a turn of the thread keeps. -/

section Turn

variable {I : VbanRxContext R → Prop} {s t : RxThread R} {i : RxInput}

/-- A property of the context that binding the receptor does not touch. -/
def IgnoresBinding (I : VbanRxContext R → Prop) : Prop :=
  ∀ (c : VbanRxContext R) (iprx : UInt32) (rxStreamname : StreamName) (ansport : UInt16)
    (inputTs : Timespec), I c → I { c with iprx, rxStreamname, ansport, inputTs }

/-- A property of the context that every handled packet keeps. -/
def HandlingKeeps (env : RxEnv R) (I : VbanRxContext R → Prop) : Prop :=
  ∀ (c : VbanRxContext R) (p : VBanPacket) (packetlen : Int) (ipIn : UInt32) (portIn : UInt16)
    (taken : List Nat) (r : RxResult R),
    I c → vbanRxHandlePacket env p packetlen c ipIn portIn taken = .ok r → I r.context

theorem handleAndClear_invariant
    (hhandled : HandlingKeeps env I)
    (h : handleAndClear env s packetlen ipIn taken = .ok t) (hs : I s.context) : I t.context := by
  obtain ⟨r, hr, h⟩ := bind_eq_ok.mp h
  obtain rfl := Except.ok.inj h
  exact hhandled _ _ _ _ _ _ _ hs hr

theorem dispatchUdp_invariant (hbinding : IgnoresBinding I)
    (hhandled : HandlingKeeps env I)
    (h : dispatchUdp env s packetlen taken = .ok t) (hs : I s.context) : I t.context := by
  have hport : I s.setAnsport.context := hbinding _ _ _ _ _ hs
  simp only [dispatchUdp] at h
  split_ifs at h
  · simp only [bindOrHandle] at h
    split_ifs at h
    · exact handleAndClear_invariant hhandled h hport
    all_goals
      obtain rfl := Except.ok.inj h
      exact hbinding s.setAnsport.context _ _ _ _ hport
  · exact handleAndClear_invariant hhandled h hport

theorem readData_invariant (hbinding : IgnoresBinding I) {n m : Nat} {data : List UInt8}
    (h : readData s n data = .ok (t, m)) (hs : I s.context) : I t.context := by
  simp only [readData] at h
  split_ifs at h
  all_goals
    obtain ⟨rfl, rfl⟩ := Prod.mk.inj (Except.ok.inj h)
    exact hbinding _ _ _ _ _ hs

theorem receive_invariant (hbinding : IgnoresBinding I)
    (hhandled : HandlingKeeps env I)
    (h : s.receive env i = .ok t) (hs : I s.context) : I t.context := by
  cases i with
  | datagram bytes addr ts =>
    have hreceived : I (s.received bytes addr ts).context := hbinding _ _ _ _ _ hs
    exact dispatchUdp_invariant hbinding hhandled h hreceived
  | recvError => exact dispatchUdp_invariant hbinding hhandled h hs
  | pipe header data ts =>
    obtain ⟨⟨u, n⟩, hu, h⟩ := bind_eq_ok.mp h
    have hread : I (s.headerRead header ts).context := hbinding _ _ _ _ _ hs
    have hu' := readData_invariant hbinding hu hread
    simp only at h
    split_ifs at h
    · exact handleAndClear_invariant hhandled h hu'
    · obtain rfl := Except.ok.inj h
      exact hu'

end Turn

end Vban
