import Vban.Discovery.ReceptorInfo
import Vban.Emit.Emitter
import Vban.Library.Inet
import Vban.Receive.ThreadBounds

/-! The ALSA utility: its command line, its network thread and its playback periods. -/
namespace Vban

open Library Discovery

/-- What `main` finds: the addresses and ports that the socket binds to, the playback channels of
the device if it opens, what `malloc` returns, and what is in the memory of `rxResetTimer`. -/
structure AlsaHost where
  binds : (rxip : UInt32) → (rxport : UInt16) → Bool
  nplay : Option Nat
  malloc : (n : Nat) → Vector UInt8 n
  rxResetTimer : UInt16

structure AlsaUtil (R : Type) where
  thread : NetThread R
  /-- `ringbuffer` is not null. -/
  created : Bool
  rxResetTimer : UInt16
  outFrameBuf : List UInt8

def alsaNframes : Nat := 128

/-- `roundf(48000 / (10 * 128)) - 1` -/
def rxResetTimerMax : UInt16 := 37

/-- `args`. The name of the program is left out of `argv`. -/
def commandLine (argv : List (List UInt8)) : List UInt8 := [32].intercalate argv

def rxipOption (args : List UInt8) : UInt32 :=
  let optArg := getVal args (chars "iprx")
  if optArg = [] then 0 else inetAddr optArg

def rxportOption (args : List UInt8) : UInt16 :=
  let optArg := getVal args (chars "portrx")
  if optArg = [] then htons 6980 else htons (UInt16.ofInt (atoi optArg))

/-- A `uint16_t` that an option overwrites. -/
def countOption (args key : List UInt8) (count : Nat) : Nat :=
  let nbc := getVal args key
  if nbc = [] then count else uintOfInt 16 (atoi nbc)

/-- The ring of eight periods, four of them prefilled. -/
def alsaRingbuffer (host : AlsaHost) (nboutputs : Nat) : Ringbuffer :=
  let size := 8 * nboutputs * alsaNframes * 4
  let prefill := 4 * nboutputs * alsaNframes * 4
  (ringbufferWrite (ringbufferCreate size (host.malloc size).toList)
    (List.replicate prefill 0) prefill).2

variable {R : Type}

/-- `main` up to its threads. `none`: the socket or the device does not open. -/
def alsaUtilMain (host : AlsaHost) (argv : List (List UInt8)) : Option (AlsaUtil R) :=
  let args := commandLine argv
  let rxip := rxipOption args
  if host.binds rxip (rxportOption args) then
    host.nplay.map fun nplay =>
      let nboutputs := countOption args (chars "nboutputs") 2
      let nboutputs := if nboutputs ≠ 0 then min nboutputs (nplay % 2 ^ 16) else nboutputs
      { thread :=
          { rxip
            streamnamerx := getVal args (chars "streamnamerx")
            nboutputs
            offset := countOption args (chars "offset") 0
            samplerate := 48000
            ringbuffer := alsaRingbuffer host nboutputs
            resampler := none
            resamplerInBufLen := 0
            resamplerInBuf := [0]
            resamplerOutBufLen := 0
            resamplerOutBuf := [0]
            rxNuFrame := 0
            receiving := false }
        created := 0 < nboutputs
        rxResetTimer := host.rxResetTimer
        outFrameBuf := List.replicate (nboutputs * 4) 0 }
  else none

/-- The datagram goes to the branch that plays. -/
def NetThread.RunsAudio (t : NetThread R) (bytes : List UInt8) (fromIp : UInt32) : Prop :=
  let p := packetOf bytes
  (bytes ≠ [] ∧ p.header.vban = vbanHeaderFourc ∧ p.protocol = vbanProtocolAudio) ∧
    t.rxip = fromIp ∧ t.Named p ∧ t.rxNuFrame ≠ p.header.nuFrame

instance {t : NetThread R} {bytes : List UInt8} {fromIp : UInt32} :
    Decidable (t.RunsAudio bytes fromIp) :=
  inferInstanceAs (Decidable (_ ∧ _))

/-- The frames that a period plays, and the last one, which is played again while the ring is
empty. -/
def playFrames (nboutputs : Nat) :
    Nat → List UInt8 → Ringbuffer → List (List UInt8) × List UInt8 × Ringbuffer
  | 0, outFrameBuf, rb => ([], outFrameBuf, rb)
  | n + 1, outFrameBuf, rb =>
    let (_, outFrameBuf, rb) := vbanReadFrameFromRingbuffer outFrameBuf rb nboutputs
    let (frames, last, rb) := playFrames nboutputs n outFrameBuf rb
    (outFrameBuf :: frames, last, rb)

/-- The ring of a stream that stopped is read empty. -/
def drain (rb : Ringbuffer) : Ringbuffer :=
  let bytesLeft := intOfSize (ringbufferReadSpace rb)
  if 0 < bytesLeft then
    (ringbufferRead rb (List.replicate bytesLeft.toNat 0) bytesLeft.toNat).2.2
  else rb

namespace AlsaUtil

def ringbuffer (s : AlsaUtil R) : Option Ringbuffer :=
  if s.created then some s.thread.ringbuffer else none

/-- One datagram. The branch that plays uses the ring. -/
def receive (env : NetEnv R) (bytes : List UInt8) (fromIp : UInt32) (s : AlsaUtil R) :
    Except Fault (AlsaUtil R) := do
  let thread ← s.thread.receive env bytes fromIp
  if s.thread.RunsAudio bytes fromIp then
    if s.ringbuffer = none then .error .nullPointer
    else return { s with thread, rxResetTimer := 0 }
  else return { s with thread }

/-- A stream that sends nothing for long enough is given up. -/
def checkTimeout (s : AlsaUtil R) : AlsaUtil R :=
  if s.thread.rxip ≠ 0 ∧ s.thread.receiving then
    if s.rxResetTimer < rxResetTimerMax then { s with rxResetTimer := s.rxResetTimer + 1 }
    else if s.rxResetTimer = rxResetTimerMax then
      { s with
        thread := { s.thread with
          rxip := 0
          resampler := none
          ringbuffer := drain s.thread.ringbuffer }
        rxResetTimer := 0 }
    else s
  else s

/-- The playback of one period. `setRratio` is what the new ratio does to the resampler. -/
def period (setRratio : R → R) (s : AlsaUtil R) :
    Except Fault (List (List UInt8) × AlsaUtil R) :=
  if s.thread.nboutputs = 0 then .ok ([], s)
  else match s.ringbuffer with
  | none => .error .nullPointer
  | some rb =>
    let (frames, outFrameBuf, rb) := playFrames s.thread.nboutputs alsaNframes s.outFrameBuf rb
    let s := { s with thread := { s.thread with ringbuffer := rb }, outFrameBuf }.checkTimeout
    .ok (frames,
      { s with thread := { s.thread with resampler := s.thread.resampler.map setRratio } })

/-- `resampler` and `ringbuffer` are not null. -/
def PointersSet (s : AlsaUtil R) : Prop := s.thread.resampler ≠ none ∧ s.ringbuffer ≠ none

/-- A source has a resampler, a resampler has outputs, and outputs have a ring. -/
structure Linked (s : AlsaUtil R) : Prop where
  resampler_ne : s.thread.rxip ≠ 0 → s.thread.resampler ≠ none
  nboutputs_ne : s.thread.resampler ≠ none → s.thread.nboutputs ≠ 0
  created_eq : s.thread.nboutputs ≠ 0 → s.created = true

end AlsaUtil

inductive AlsaEvent (R : Type)
  | receive (bytes : List UInt8) (fromIp : UInt32)
  | period (setRratio : R → R)

/-- A turn of the network thread or of the audio loop. -/
inductive AlsaStep (env : NetEnv R) : AlsaUtil R → AlsaEvent R → AlsaUtil R → Prop
  | receive {s t : AlsaUtil R} {bytes : List UInt8} {fromIp : UInt32}
      (h : s.receive env bytes fromIp = .ok t) : AlsaStep env s (.receive bytes fromIp) t
  | period {s t : AlsaUtil R} {setRratio : R → R} {frames : List (List UInt8)}
      (h : s.period setRratio = .ok (frames, t)) : AlsaStep env s (.period setRratio) t

variable {env : NetEnv R} {s t : AlsaUtil R} {e : AlsaEvent R} {bytes : List UInt8}
  {fromIp : UInt32}

namespace NetThread

variable {t u : NetThread R} {p : VBanPacket}

/-- What a packet leaves: the resized buffers, with what was converted and what was resampled. -/
theorem enqueue_cases (h : t.enqueue env p = .ok u) : ∃ v inbuf resampler out ringbuffer,
    t.resizeBuffers env p = .ok v ∧ v.convertFrames env p = .ok inbuf ∧
      v.resampler = some resampler ∧
      out = env.process resampler inbuf v.resamplerInBufLen v.resamplerOutBufLen ∧
      u = { v with
        resampler := some out.resampler
        resamplerInBuf := inbuf
        resamplerOutBuf := overwrite v.resamplerOutBuf 0 out.written
        ringbuffer := ringbuffer
        rxNuFrame := p.header.nuFrame } := by
  obtain ⟨v, hv, h⟩ := bind_eq_ok.mp h
  obtain ⟨inbuf, hinbuf, h⟩ := bind_eq_ok.mp h
  cases hopen : v.resampler with
  | none =>
    simp only [hopen] at h
    cases h
  | some resampler =>
    simp only [hopen] at h
    exact ⟨v, inbuf, resampler, _, _, hv, hinbuf, hopen, rfl, (Except.ok.inj h).symm⟩

theorem enqueue_spec (h : t.enqueue env p = .ok u) :
    u.rxip = t.rxip ∧ u.nboutputs = t.nboutputs ∧ t.resampler ≠ none ∧ u.resampler ≠ none := by
  obtain ⟨v, inbuf, resampler, out, ringbuffer, hv, -, hopen, -, rfl⟩ := enqueue_cases h
  obtain ⟨inBufLen, inBuf, outBufLen, outBuf, rfl⟩ := resizeBuffers_spec hv
  exact ⟨rfl, rfl, Option.ne_none_iff_exists'.mpr ⟨resampler, hopen⟩, Option.some_ne_none _⟩

/-- A new stream has a resampler and a source. -/
theorem createStream_cases (h : t.createStream env p fromIp = .ok u) :
    ∃ resampler, u = { t with
      resampler := some resampler
      rxip := fromIp
      rxNuFrame := p.header.nuFrame
      receiving := true } := by
  obtain ⟨sr, -, h⟩ := bind_eq_ok.mp h
  cases hsetup : env.setup t.samplerate sr t.nboutputs with
  | none =>
    simp only [hsetup] at h
    cases h
  | some resampler =>
    simp only [hsetup] at h
    exact ⟨resampler, (Except.ok.inj h).symm⟩

/-- A datagram changes nothing, goes to the resampler, or makes one for the outputs. -/
theorem receive_cases (h : t.receive env bytes fromIp = .ok u) :
    u.nboutputs = t.nboutputs ∧
      (u = t ∨ u.resampler ≠ none ∧ (t.resampler ≠ none ∨ t.nboutputs ≠ 0)) := by
  rw [NetThread.receive] at h
  split_ifs at h with haudio hplays hnew
  · obtain ⟨-, hnboutputs, hopen, hopen'⟩ := enqueue_spec h
    exact ⟨hnboutputs, .inr ⟨hopen', .inl hopen⟩⟩
  · obtain ⟨resampler, rfl⟩ := createStream_cases h
    exact ⟨rfl, .inr ⟨Option.some_ne_none _, .inr hnew.1⟩⟩
  · obtain rfl := Except.ok.inj h
    exact ⟨rfl, .inl rfl⟩
  · obtain rfl := Except.ok.inj h
    exact ⟨rfl, .inl rfl⟩

end NetThread

theorem AlsaUtil.Linked.pointersSet (hs : s.Linked) (hrxip : s.thread.rxip ≠ 0) :
    s.PointersSet := by
  have hopen := hs.resampler_ne hrxip
  have hcreated := hs.created_eq (hs.nboutputs_ne hopen)
  refine ⟨hopen, ?_⟩
  rw [ringbuffer, if_pos hcreated]
  simp

theorem receive_thread (h : s.receive env bytes fromIp = .ok t) :
    s.thread.receive env bytes fromIp = .ok t.thread ∧ t.created = s.created := by
  obtain ⟨u, hu, h⟩ := bind_eq_ok.mp h
  rw [hu]
  split_ifs at h
  all_goals
    obtain rfl := Except.ok.inj h
    exact ⟨rfl, rfl⟩

theorem receive_linked (h : s.receive env bytes fromIp = .ok t) (hs : s.Linked) : t.Linked := by
  obtain ⟨hthread, hcreated⟩ := receive_thread h
  obtain ⟨hnboutputs, hcases⟩ := NetThread.receive_cases hthread
  constructor
  · intro hrxip
    rcases hcases with hsame | ⟨hopen, -⟩
    · rw [hsame] at hrxip ⊢
      exact hs.resampler_ne hrxip
    · exact hopen
  · intro hopen
    rw [hnboutputs]
    rcases hcases with hsame | ⟨-, hopen' | houtputs⟩
    · rw [hsame] at hopen
      exact hs.nboutputs_ne hopen
    · exact hs.nboutputs_ne hopen'
    · exact houtputs
  · intro houtputs
    rw [hnboutputs] at houtputs
    rw [hcreated]
    exact hs.created_eq houtputs

theorem checkTimeout_linked (hs : s.Linked) : s.checkTimeout.Linked := by
  rw [AlsaUtil.checkTimeout]
  split_ifs
  · exact ⟨hs.resampler_ne, hs.nboutputs_ne, hs.created_eq⟩
  · exact ⟨fun hrxip => absurd rfl hrxip, fun hopen => absurd rfl hopen, hs.created_eq⟩
  · exact hs
  · exact hs

/-- What the playback, the time-out and the new ratio keep, a period keeps. -/
theorem AlsaUtil.period_invariant {I : AlsaUtil R → Prop} {setRratio : R → R}
    {frames : List (List UInt8)}
    (hplay : ∀ (u : AlsaUtil R) (rb : Ringbuffer) (outFrameBuf : List UInt8), I u →
      I { u with thread := { u.thread with ringbuffer := rb }, outFrameBuf := outFrameBuf })
    (htimeout : ∀ u, I u → I u.checkTimeout)
    (hratio : ∀ u : AlsaUtil R, I u →
      I { u with thread := { u.thread with resampler := u.thread.resampler.map setRratio } })
    (h : s.period setRratio = .ok (frames, t)) (hs : I s) : I t := by
  rw [period] at h
  split_ifs at h
  · obtain ⟨-, rfl⟩ := Prod.mk.inj (Except.ok.inj h)
    exact hs
  · cases hring : s.ringbuffer with
    | none =>
      rw [hring] at h
      cases h
    | some rb =>
      simp only [hring] at h
      obtain ⟨-, rfl⟩ := Prod.mk.inj (Except.ok.inj h)
      exact hratio _ (htimeout _ (hplay s _ _ hs))

theorem period_linked {setRratio : R → R} {frames : List (List UInt8)}
    (h : s.period setRratio = .ok (frames, t)) (hs : s.Linked) : t.Linked := by
  refine AlsaUtil.period_invariant (I := AlsaUtil.Linked) ?_ ?_ ?_ h hs
  · intro u rb outFrameBuf hu
    exact ⟨hu.resampler_ne, hu.nboutputs_ne, hu.created_eq⟩
  · intro u hu
    exact checkTimeout_linked hu
  · intro u hu
    constructor
    · intro hrxip
      simpa using hu.resampler_ne hrxip
    · intro hopen
      exact hu.nboutputs_ne (by simpa using hopen)
    · exact hu.created_eq

theorem AlsaStep.linked (h : AlsaStep env s e t) (hs : s.Linked) : t.Linked := by
  cases h with
  | receive h => exact receive_linked h hs
  | period h => exact period_linked h hs

/-- The options set the source without a resampler for it. -/
theorem alsaUtilMain_spec {host : AlsaHost} {argv : List (List UInt8)}
    (h : alsaUtilMain host argv = some s) :
    s.thread.rxip = rxipOption (commandLine argv) ∧ s.thread.resampler = none ∧
      (s.thread.nboutputs ≠ 0 → s.created = true) := by
  rw [alsaUtilMain] at h
  split_ifs at h
  obtain ⟨nplay, -, rfl⟩ := Option.map_eq_some_iff.mp h
  refine ⟨rfl, rfl, ?_⟩
  intro houtputs
  exact decide_eq_true (Nat.pos_of_ne_zero houtputs)

/-- The pointers are set whenever a source is, and for every datagram with a source address that
goes to the branch that plays, exactly if the command line names no source. -/
theorem alsa_pointers_set_iff {host : AlsaHost} {argv : List (List UInt8)}
    (hmain : alsaUtilMain host argv = some s) :
    (∀ es t, Run (AlsaStep env) s es t →
      (t.thread.rxip ≠ 0 → t.PointersSet) ∧
      ∀ bytes fromIp, fromIp ≠ 0 → t.thread.RunsAudio bytes fromIp → t.PointersSet) ↔
    rxipOption (commandLine argv) = 0 := by
  obtain ⟨hrxip, hclosed, hcreated⟩ := alsaUtilMain_spec hmain
  rw [← hrxip]
  constructor
  · intro h
    by_contra hsource
    exact ((h [] s (.refl s)).1 hsource).1 hclosed
  · intro hsource es t hrun
    have hs : s.Linked :=
      ⟨fun hne => absurd hsource hne, fun hopen => absurd hclosed hopen, hcreated⟩
    have ht := hrun.invariant (fun _ _ _ hs h => h.linked hs) hs
    refine ⟨ht.pointersSet, ?_⟩
    intro bytes fromIp hfrom haudio
    obtain ⟨-, hplaying, -⟩ := haudio
    exact ht.pointersSet (hplaying ▸ hfrom)

/-- The socket binds to any address, and the device has two channels. -/
def stereoHost : AlsaHost where
  binds _ _ := true
  nplay := some 2
  malloc n := Vector.replicate n 0
  rxResetTimer := 0

/-- A stream that starts after a command line without a source. -/
theorem alsa_pointers_set_named :
    ∃ s t : AlsaUtil Unit, alsaUtilMain stereoHost [chars "streamnamerx=A"] = some s ∧
      Run (AlsaStep silentEnv) s
        [.receive (audioHeader 3 0 0 1 1).toBytes 0x0100007F, .period id] t ∧
      t.thread.rxip = 0x0100007F ∧ t.PointersSet := by
  obtain ⟨s, hmain⟩ : ∃ s : AlsaUtil Unit,
      alsaUtilMain stereoHost [chars "streamnamerx=A"] = some s := ⟨_, rfl⟩
  have hsource : rxipOption (commandLine [chars "streamnamerx=A"]) = 0 := by decide
  obtain ⟨t, hrun, hrxip⟩ : ∃ t, Run (AlsaStep silentEnv) s
      [.receive (audioHeader 3 0 0 1 1).toBytes 0x0100007F, .period id] t ∧
      t.thread.rxip = 0x0100007F := by
    obtain rfl := Option.some.inj hmain
    exact ⟨_, (Run.single (.receive rfl)).snoc (.period rfl), rfl⟩
  refine ⟨s, t, hmain, hrun, hrxip, ?_⟩
  apply (((alsa_pointers_set_iff hmain).mpr hsource) _ t hrun).1
  rw [hrxip]
  decide

theorem audioHeader_runsAudio {t : NetThread R} (hname : t.streamnamerx = [65])
    (hnuFrame : t.rxNuFrame = 0) : t.RunsAudio (audioHeader 3 0 0 1 1).toBytes t.rxip := by
  have hheader : (NetThread.packetOf (audioHeader 3 0 0 1 1).toBytes).header =
      audioHeader 3 0 0 1 1 :=
    VBanPacket.zero.header_store_toBytes _
  refine ⟨⟨by decide, ?_, ?_⟩, rfl, ?_, ?_⟩
  · rw [hheader]
    rfl
  · rw [VBanPacket.protocol, hheader]
    rfl
  · rw [NetThread.Named, hname]
    decide +kernel
  · rw [hnuFrame, hheader]
    decide

/-- The option `iprx` sets the source of a stream that was never created, and a datagram without a
source address is taken for the playing stream where there is none. Both fault. -/
theorem alsa_null_pointer :
    (∃ s : AlsaUtil Unit,
      alsaUtilMain stereoHost [chars "streamnamerx=A", chars "iprx=127.0.0.1"] = some s ∧
      s.thread.rxip = 0x0100007F ∧ ¬s.PointersSet ∧
      s.thread.RunsAudio (audioHeader 3 0 0 1 1).toBytes 0x0100007F ∧
      s.receive silentEnv (audioHeader 3 0 0 1 1).toBytes 0x0100007F = .error .nullPointer) ∧
    ∃ s : AlsaUtil Unit,
      alsaUtilMain stereoHost [chars "streamnamerx=A"] = some s ∧ ¬s.PointersSet ∧
      s.thread.RunsAudio (audioHeader 3 0 0 1 1).toBytes 0 ∧
      s.receive silentEnv (audioHeader 3 0 0 1 1).toBytes 0 = .error .nullPointer := by
  constructor
  · exact ⟨_, rfl, rfl, fun hset => hset.1 rfl, audioHeader_runsAudio rfl rfl, rfl⟩
  · exact ⟨_, rfl, fun hset => hset.1 rfl, audioHeader_runsAudio rfl rfl, rfl⟩

end Vban
