import Vban.Emit.Copies
import Vban.Library.SkipRepeats
import Vban.Receive.Enqueue

/-! What a bound receptor enqueues when the network delivers an emitter's packets in any order. -/
namespace Vban

open Library

variable {R : Type}

/-- The packet buffer after a datagram of the emitter arrived in it. -/
def VBanPacket.receive (buffer : VBanPacket) (p : SentPacket) : VBanPacket :=
  buffer.store 0 vbanProtocolMaxSize VBanPacket.whole_le (p.header.toBytes ++ p.payload)

theorem receive_header (buffer : VBanPacket) (p : SentPacket) :
    (buffer.receive p).header = p.header :=
  VBanPacket.header_received buffer p.header p.payload

/-- A copy of the packet with this index arrives, or another thread takes a step. -/
inductive Delivery
  | datagram (index : Nat) (enqueued : Bool)
  | other

/-- The packets in the order in which their copies arrive. -/
def deliveredPackets (ls : List Delivery) : List Nat :=
  ls.filterMap fun
    | .datagram i _ => some i
    | .other => none

/-- The packets in the order in which their audio is enqueued. -/
def enqueuedPackets (ls : List Delivery) : List Nat :=
  ls.filterMap fun
    | .datagram i true => some i
    | _ => none

/-- A copy of any packet may arrive at any time, in whatever buffer the thread has. -/
inductive DeliveryStep (env : RxEnv R) (packets : List SentPacket) (ipIn : UInt32) :
    VbanRxContext R → Delivery → VbanRxContext R → Prop
  | enqueued {c : VbanRxContext R} {i : Nat} {p : SentPacket} {buffer : VBanPacket}
      {packetlen : Int} {portIn : UInt16} {taken : List Nat} {r : RxResult R}
      (hp : packets[i]? = some p) (he : Enqueues c (buffer.receive p) ipIn)
      (h : vbanRxHandlePacket env (buffer.receive p) packetlen c ipIn portIn taken = .ok r) :
      DeliveryStep env packets ipIn c (.datagram i true) r.context
  | skipped {c : VbanRxContext R} {i : Nat} {p : SentPacket} {buffer : VBanPacket}
      {packetlen : Int} {portIn : UInt16} {taken : List Nat} {r : RxResult R}
      (hp : packets[i]? = some p) (he : ¬Enqueues c (buffer.receive p) ipIn)
      (h : vbanRxHandlePacket env (buffer.receive p) packetlen c ipIn portIn taken = .ok r) :
      DeliveryStep env packets ipIn c (.datagram i false) r.context
  | other {c c' : VbanRxContext R} (h : OtherThreads c c') :
      DeliveryStep env packets ipIn c .other c'

/-- An open receptor that takes its audio from the emitter of these packets. -/
structure VbanRxContext.BoundTo (c : VbanRxContext R) (packets : List SentPacket) (ipIn : UInt32) :
    Prop where
  opened : c.ringbuffer ≠ none
  iprx_eq : c.iprx = ipIn
  audio : ∀ p ∈ packets, p.header.formatSR &&& vbanProtocolMask = vbanProtocolAudio
  streamname : ∀ p ∈ packets, StreamName.Strncmp p.header.streamname c.rxStreamname

variable {env : RxEnv R} {packets : List SentPacket} {ipIn : UInt32} {c d : VbanRxContext R}
  {l : Delivery} {ls : List Delivery} {p : SentPacket} {buffer : VBanPacket} {nu : UInt32} {i : Nat}

/-- A bound receptor only looks at the frame number. -/
theorem VbanRxContext.BoundTo.enqueues_iff (hb : c.BoundTo packets ipIn) (hp : p ∈ packets) :
    Enqueues c (buffer.receive p) ipIn ↔ p.header.nuFrame ≠ c.nuFrame := by
  rw [Enqueues, VbanRxContext.Accepts, VBanPacket.protocol, receive_header]
  exact ⟨fun h => h.2.2.2.1, fun h => ⟨hb.audio p hp, hb.opened, hb.streamname p hp, h, hb.iprx_eq⟩⟩

theorem VbanRxContext.BoundTo.congr (hb : c.BoundTo packets ipIn) (hopen : d.ringbuffer ≠ none)
    (hip : d.iprx = c.iprx) (hname : d.rxStreamname = c.rxStreamname) :
    d.BoundTo packets ipIn :=
  ⟨hopen, hip.trans hb.iprx_eq, hb.audio, fun p hp => hname ▸ hb.streamname p hp⟩

/-- The packets of an emitter are audio under one stream name. -/
theorem VbanTxContext.Created.boundTo {o : VbanTxContext} (ho : o.Created)
    (hformat : ∀ p ∈ packets, p.header.formatSR = o.header.formatSR ∧
      p.header.streamname = o.header.streamname)
    (hopen : c.ringbuffer ≠ none)
    (hname : StreamName.Strncmp o.header.streamname c.rxStreamname) : c.BoundTo packets c.iprx := by
  have hmask : vbanSrMask &&& vbanProtocolMask = 0 := by decide
  refine ⟨hopen, rfl, fun p hp => ?_, fun p hp => ?_⟩
  · rw [(hformat p hp).1, ho.formatSR_eq, UInt8.and_comm vbanSrMask, UInt8.and_assoc, hmask,
      UInt8.and_zero]
    rfl
  · rw [(hformat p hp).2]
    exact hname

theorem handled_nuFrame {r : RxResult R} {q : VBanPacket} (h : Handled env c q ipIn r)
    (he : Enqueues c q ipIn) : r.context.nuFrame = q.header.nuFrame := by
  cases h with
  | announced _ hc => exact absurd hc he.2.1
  | enqueued => rfl
  | midi hp => exact absurd he.1 hp
  | ignored hi => exact absurd he.2.2 (hi he.1).2

/-- A delivery goes through the filter that drops repetitions of the last frame number. -/
theorem DeliveryStep.filter (hnum : ConsecutiveFrom nu packets) (hb : c.BoundTo packets ipIn)
    (hs : DeliveryStep env packets ipIn c l d) :
    let key := fun i => nu + UInt32.ofNat i
    d.BoundTo packets ipIn ∧ (∀ i ∈ deliveredPackets [l], i < packets.length) ∧
      enqueuedPackets [l] = skipRepeats key c.nuFrame (deliveredPackets [l]) ∧
      d.nuFrame = lastKey key c.nuFrame (deliveredPackets [l]) := by
  cases hs with
  | @enqueued i p _ _ _ _ r hp he h =>
    have hhandled := vbanRxHandlePacket_cases h
    obtain ⟨hip, hname, -, hopen, -⟩ := hhandled.binding
    have hmem := List.mem_of_getElem? hp
    have hne := (hb.enqueues_iff hmem).mp he
    have hnu := handled_nuFrame hhandled he
    rw [receive_header] at hnu
    rw [hnum i p hp] at hne hnu
    refine ⟨hb.congr (mt hopen.mp hb.opened) hip hname, ?_, ?_, hnu⟩
    · intro j hj
      obtain rfl := List.mem_singleton.mp hj
      exact (List.getElem?_eq_some_iff.mp hp).1
    · change _ = skipRepeats _ _ [i]
      rw [skipRepeats_cons_ne]
      · rfl
      · exact hne
  | @skipped i p _ _ _ _ r hp he h =>
    have hhandled := vbanRxHandlePacket_cases h
    obtain ⟨hip, hname, -, hopen, -⟩ := hhandled.binding
    have hmem := List.mem_of_getElem? hp
    have heq := not_not.mp (mt (hb.enqueues_iff hmem).mpr he)
    obtain ⟨-, hnu, -⟩ := hhandled.of_not_enqueues he
    rw [hnum i p hp] at heq
    refine ⟨hb.congr (mt hopen.mp hb.opened) hip hname, ?_, ?_, hnu.trans heq.symm⟩
    · intro j hj
      obtain rfl := List.mem_singleton.mp hj
      exact (List.getElem?_eq_some_iff.mp hp).1
    · change _ = skipRepeats _ _ [i]
      rw [skipRepeats_cons_eq]
      · rfl
      · exact heq
  | other h =>
    exact ⟨hb.congr (mt h.kept hb.opened) h.iprx_eq h.rxStreamname_eq, nofun, rfl, h.nuFrame_eq⟩

theorem deliveredPackets_append (ls ms : List Delivery) :
    deliveredPackets (ls ++ ms) = deliveredPackets ls ++ deliveredPackets ms :=
  List.filterMap_append

theorem enqueuedPackets_append (ls ms : List Delivery) :
    enqueuedPackets (ls ++ ms) = enqueuedPackets ls ++ enqueuedPackets ms :=
  List.filterMap_append

/-- So does a run. -/
theorem delivery_run_filter (hnum : ConsecutiveFrom nu packets) (hb : c.BoundTo packets ipIn)
    (hrun : Run (DeliveryStep env packets ipIn) c ls d) :
    let key := fun i => nu + UInt32.ofNat i
    d.BoundTo packets ipIn ∧ (∀ i ∈ deliveredPackets ls, i < packets.length) ∧
      enqueuedPackets ls = skipRepeats key c.nuFrame (deliveredPackets ls) ∧
      d.nuFrame = lastKey key c.nuFrame (deliveredPackets ls) := by
  induction hrun with
  | refl => exact ⟨hb, nofun, rfl, rfl⟩
  | snoc _ hstep ih =>
    obtain ⟨hb', hlt, henq, hnu⟩ := ih
    obtain ⟨hb'', hlt', henq', hnu'⟩ := hstep.filter hnum hb'
    rw [deliveredPackets_append, enqueuedPackets_append]
    refine ⟨hb'', fun i hi => ?_, ?_, ?_⟩
    · rcases List.mem_append.mp hi with hi | hi
      · exact hlt i hi
      · exact hlt' i hi
    · rw [skipRepeats_append, ← henq, ← hnu, ← henq']
    · rw [lastKey_append, ← hnu, hnu']

theorem nuFrame_mod {m n : Nat} (h : nu + UInt32.ofNat m = nu + UInt32.ofNat n) :
    m % 2 ^ 32 = n % 2 ^ 32 := by
  have heq : UInt32.ofNat m = UInt32.ofNat n := UInt32.add_right_inj nu |>.mp h
  simpa using congrArg UInt32.toNat heq

/-- Whatever the network does, the receptor enqueues what arrives less the repetitions of the frame
number it enqueued last. Each packet is enqueued at most once and in order exactly if no copy
arrives after a copy of a later packet, apart from what it takes for a repetition at the start. -/
theorem enqueued_in_order_iff (hnum : ConsecutiveFrom nu packets)
    (hcount : packets.length < 2 ^ 31) (hb : c.BoundTo packets ipIn)
    (hrun : Run (DeliveryStep env packets ipIn) c ls d) :
    let key := fun i => nu + UInt32.ofNat i
    enqueuedPackets ls = skipRepeats key c.nuFrame (deliveredPackets ls) ∧
      ((enqueuedPackets ls).Pairwise (· < ·) ↔
        ((deliveredPackets ls).dropWhile fun i => key i = c.nuFrame).Pairwise (· ≤ ·)) := by
  obtain ⟨-, hlt, henq, -⟩ := delivery_run_filter hnum hb hrun
  refine ⟨henq, ?_⟩
  rw [henq]
  apply skipRepeats_pairwise_iff
  intro i hi j hj h
  have := hlt i hi
  have := hlt j hj
  have hmod := nuFrame_mod h
  omega

/-- An open receptor in which the handler cannot fail. -/
structure VbanRxContext.Ready (c : VbanRxContext R) (nboutputs : Nat) : Prop where
  opened : c.ringbuffer ≠ none
  resampler : c.resampler ≠ none
  rate : c.samplerateResampler ≠ 0
  nboutputs_eq : c.nboutputs = nboutputs

theorem enqueueAudio_keeps {q : VBanPacket} {rb : Ringbuffer} {a : ResampledAudio R}
    (hb : q.header.formatBit.toNat < vbanBitResolutionMax) (h : enqueueAudio env c q rb = .ok a) :
    a.context.resampler ≠ none ∧ a.framesize = q.channels * q.sampleSize := by
  simp only [enqueueAudio, bind_eq_ok] at h
  obtain ⟨size, hsize, c', -, inbuf, -, h⟩ := h
  rw [bitResolutionSize_of_lt hb] at hsize
  obtain rfl := Except.ok.inj hsize
  cases hr : c'.resampler with
  | none =>
    rw [hr] at h
    cases h
  | some resampler =>
    rw [hr] at h
    obtain rfl := Except.ok.inj h
    exact ⟨Option.some_ne_none _, rfl⟩

theorem calcInputSamplerate_resampler {q : VBanPacket} :
    (calcInputSamplerate c q).2.resampler = c.resampler := by
  simp only [calcInputSamplerate]
  split_ifs <;> rfl

/-- The correction fails only on a frame of no bytes. -/
theorem correctFill_ok {q : VBanPacket} {a : ResampledAudio R} (h : a.framesize ≠ 0) :
    ∃ c', correctFill a q = .ok c' ∧ c'.resampler = a.context.resampler := by
  have hres := calcInputSamplerate_resampler (c := a.context) (q := q)
  simp only [correctFill, if_neg h]
  by_cases hflag : a.context.flags &&& correctionOn = 0
  · rw [if_pos hflag]
    exact ⟨_, rfl, rfl⟩
  · rw [if_neg hflag]
    cases (calcInputSamplerate a.context q).2.ringbuffer with
    | none => exact ⟨_, rfl, hres⟩
    | some rb =>
      simp only
      split_ifs
      · exact ⟨_, rfl, hres⟩
      · exact ⟨_, rfl, hres⟩

/-- A packet of whole frames that can be read. -/
structure VBanPacket.Playable (q : VBanPacket) (nboutputs : Nat) : Prop where
  audio : q.protocol = vbanProtocolAudio
  fits : q.AudioFits nboutputs
  framesize : q.channels * q.sampleSize ≠ 0

/-- A ready receptor handles every playable packet, and stays ready. -/
theorem handle_ready {q : VBanPacket} {nboutputs : Nat} (hc : c.Ready nboutputs)
    (hq : q.Playable nboutputs) :
    ∃ r, vbanRxHandlePacket env q 0 c ipIn 0 [] = .ok r ∧ r.context.Ready nboutputs := by
  obtain ⟨rb, hrb⟩ := Option.ne_none_iff_exists'.mp hc.opened
  by_cases haccepts : c.Accepts q ipIn
  · obtain ⟨a, ha⟩ := enqueueAudio_ok env rb hc.rate hc.resampler
      (hc.nboutputs_eq.symm ▸ hq.fits)
    obtain ⟨hsame, hring⟩ := enqueueAudio_spec ha
    obtain ⟨hresampler, hframesize⟩ := enqueueAudio_keeps hq.fits.1 ha
    obtain ⟨c', hfill, hres⟩ := correctFill_ok (q := q) (hframesize.trans_ne hq.framesize)
    obtain ⟨hsame', hring'⟩ := correctFill_spec hfill
    have hbinding := hsame.trans hsame'
    rw [vbanRxHandlePacket_of_enqueues ⟨hq.audio, hc.opened, haccepts⟩ hrb ha, hfill, ok_bind]
    refine ⟨_, rfl, ?_, hres.trans_ne hresampler, hbinding.samplerateResampler_eq ▸ hc.rate,
      hbinding.nboutputs_eq.trans hc.nboutputs_eq⟩
    simp [hring', hring]
  · rw [vbanRxHandlePacket, if_pos hq.audio, handleAudio, hrb]
    simp only
    rw [if_neg haccepts]
    exact ⟨_, rfl, hc⟩

/-- So packets that can be read may arrive in any order. -/
theorem exists_delivery_run {nboutputs : Nat} (hc : c.Ready nboutputs)
    (hpackets : ∀ p ∈ packets, (VBanPacket.zero.receive p).Playable nboutputs) (order : List Nat)
    (horder : ∀ i ∈ order, i < packets.length) :
    ∃ ls d, Run (DeliveryStep env packets ipIn) c ls d ∧ deliveredPackets ls = order := by
  induction order generalizing c with
  | nil => exact ⟨[], c, .refl c, rfl⟩
  | cons i order ih =>
    have hlt : i < packets.length := horder i List.mem_cons_self
    have hi := List.getElem?_eq_getElem hlt
    obtain ⟨r, hr, hready⟩ := handle_ready hc
      (hpackets _ (List.mem_of_getElem? hi))
    obtain ⟨ls, d, hrun, hdelivered⟩ := ih hready fun j hj => horder j (List.mem_cons_of_mem i hj)
    by_cases he : Enqueues c (VBanPacket.zero.receive packets[i]) ipIn
    · exact ⟨.datagram i true :: ls, d, (Run.single (.enqueued hi he hr)).append hrun,
        congrArg (i :: ·) hdelivered⟩
    · exact ⟨.datagram i false :: ls, d, (Run.single (.skipped hi he hr)).append hrun,
        congrArg (i :: ·) hdelivered⟩

/-- Two packets of one float frame each, under the frame numbers 1 and 2. -/
def twoPackets : List SentPacket :=
  [⟨audioHeader 3 0 0 4 1, List.replicate 4 0⟩, ⟨audioHeader 3 0 0 4 2, List.replicate 4 0⟩]

theorem twoPackets_consecutive : ConsecutiveFrom 1 twoPackets := by
  intro i p hi
  match i, hi with
  | 0, hi => obtain rfl := Option.some.inj hi; rfl
  | 1, hi => obtain rfl := Option.some.inj hi; rfl

theorem openContext_boundTo : (openContext 1).BoundTo twoPackets 0x0100007F :=
  ⟨nofun, rfl, by decide, by decide⟩

theorem twoPackets_run (order : List Nat) (horder : ∀ i ∈ order, i < 2) : ∃ ls d,
    Run (DeliveryStep silentEnv.toRxEnv twoPackets 0x0100007F) (openContext 1) ls d ∧
      deliveredPackets ls = order := by
  have hready : (openContext 1).Ready 1 := ⟨nofun, nofun, by decide, rfl⟩
  refine exists_delivery_run hready (fun p hp => ?_) order horder
  have hmono : ∀ p ∈ twoPackets, p.header.formatBit = vbanBitfmt32Float ∧
      p.header.formatNbc = 0 := by decide
  obtain ⟨hbit, hnbc⟩ := hmono p hp
  rw [← receive_header .zero] at hbit hnbc
  refine ⟨?_, audioFits_of_mono hbit hnbc, ?_⟩
  · rw [VBanPacket.protocol, receive_header]
    exact openContext_boundTo.audio p hp
  · rw [VBanPacket.channels, VBanPacket.sampleSize, hbit, hnbc]
    decide

/-- Copies in order, with repetitions. -/
theorem enqueued_in_order_repeated : ∃ ls d,
    Run (DeliveryStep silentEnv.toRxEnv twoPackets 0x0100007F) (openContext 1) ls d ∧
      deliveredPackets ls = [0, 0, 1, 1] ∧ (enqueuedPackets ls).Pairwise (· < ·) := by
  obtain ⟨ls, d, hrun, hdelivered⟩ := twoPackets_run [0, 0, 1, 1] (by decide)
  refine ⟨ls, d, hrun, hdelivered, (enqueued_in_order_iff twoPackets_consecutive (by decide)
    openContext_boundTo hrun).2.mpr ?_⟩
  rw [hdelivered]
  decide

/-- A late copy of the first packet is enqueued again. -/
theorem late_copy_enqueued : ConsecutiveFrom 1 twoPackets ∧
    (openContext 1).BoundTo twoPackets 0x0100007F ∧ ∃ ls d,
    Run (DeliveryStep silentEnv.toRxEnv twoPackets 0x0100007F) (openContext 1) ls d ∧
      deliveredPackets ls = [0, 1, 0] ∧ enqueuedPackets ls = [0, 1, 0] := by
  obtain ⟨ls, d, hrun, hdelivered⟩ := twoPackets_run [0, 1, 0] (by decide)
  obtain ⟨-, -, henq, -⟩ := delivery_run_filter twoPackets_consecutive openContext_boundTo hrun
  refine ⟨twoPackets_consecutive, openContext_boundTo, ls, d, hrun, hdelivered, henq.trans ?_⟩
  rw [hdelivered]
  decide

end Vban
