import Vban.Receive.InOrder
import Vban.Transport.Decode

/-! The audio of a JACK emitter on its way through a network that loses, repeats and delays packets,
up to what the receptor's resampler makes of it. -/
namespace Vban

open Library

variable {M : Type}

/-- What the receptor does: it handles a copy of the packet with this index and offers the ring
these frames, or none. Or the process callback sets the ratio, or a thread does something else. -/
inductive Listening
  | heard (index : Nat) (frames : List (List UInt8))
  | skipped (index : Nat)
  | rratio (r : ℚ)
  | other

/-- A copy of any packet may arrive at any time. The process callback does nothing to the resampler
but set its ratio, and no other thread uses it or its buffers. -/
inductive ListenStep (filter : ResamplerFilter M) (ofInt : Int → CFloat)
    (div : CFloat → CFloat → CFloat) (packets : List SentPacket) (ipIn : UInt32) :
    VbanRxContext (VResampler M) → Listening → VbanRxContext (VResampler M) → Prop
  | heard {c : VbanRxContext (VResampler M)} {i : Nat} {p : SentPacket} {buffer : VBanPacket}
      {packetlen : Int} {portIn : UInt16} {taken : List Nat} {r : RxResult (VResampler M)}
      (hp : packets[i]? = some p) (he : Enqueues c (buffer.receive p) ipIn)
      (h : vbanRxHandlePacket (VResampler.rxEnv ofInt div filter) (buffer.receive p) packetlen c
        ipIn portIn taken = .ok r) :
      ListenStep filter ofInt div packets ipIn c (.heard i r.frames) r.context
  | skipped {c : VbanRxContext (VResampler M)} {i : Nat} {p : SentPacket} {buffer : VBanPacket}
      {packetlen : Int} {portIn : UInt16} {taken : List Nat} {r : RxResult (VResampler M)}
      (hp : packets[i]? = some p) (he : ¬Enqueues c (buffer.receive p) ipIn)
      (h : vbanRxHandlePacket (VResampler.rxEnv ofInt div filter) (buffer.receive p) packetlen c
        ipIn portIn taken = .ok r) :
      ListenStep filter ofInt div packets ipIn c (.skipped i) r.context
  | rratio {c c' : VbanRxContext (VResampler M)} {r : ℚ} (h : OtherThreads c c')
      (hsame : SameBuffers c c')
      (hresampler : c'.resampler = c.resampler.map fun v => v.setRratio filter.round r) :
      ListenStep filter ofInt div packets ipIn c (.rratio r) c'
  | other {c c' : VbanRxContext (VResampler M)} (h : OtherThreads c c')
      (hsame : SameBuffers c c') (hresampler : c'.resampler = c.resampler) :
      ListenStep filter ofInt div packets ipIn c .other c'

namespace Listening

def delivery : Listening → Delivery
  | heard i _ => .datagram i true
  | skipped i => .datagram i false
  | rratio _ | other => .other

/-- What it comes to for the resampler, when the packets carry these blocks of frames. -/
def call (nboutputs samplerate samplerateResampler : Nat) (blocks : List (List (List CFloat))) :
    Listening → Option Zita.RxCall
  | heard i _ =>
    let block := blocks.getD i []
    some (.process (audioOf nboutputs block) block.length
      (roomFor samplerate samplerateResampler block.length))
  | rratio r => some (.rratio r)
  | skipped _ | other => none

/-- What the ring is offered. -/
def offered : Listening → List (List UInt8)
  | heard _ frames => frames
  | _ => []

end Listening

/-- The packets of which a copy arrives, with repetitions. -/
def arrivedPackets (ls : List Listening) : List Nat := deliveredPackets (ls.map (·.delivery))

/-- The packets whose audio is played. -/
def heardPackets (ls : List Listening) : List Nat := enqueuedPackets (ls.map (·.delivery))

/-- The resampler after a call. -/
def VResampler.after (filter : ResamplerFilter M) (w : VResampler M) : Zita.RxCall → VResampler M
  | .rratio r => w.setRratio filter.round r
  | .process inpData inpCount outCount => ((w.load inpData inpCount outCount).process filter).1

variable {filter : ResamplerFilter M} {ofInt : Int → CFloat} {div : CFloat → CFloat → CFloat}
  {env : RxEnv (VResampler M)} {packets : List SentPacket} {ipIn : UInt32}
  {c d : VbanRxContext (VResampler M)} {l : Listening} {ls : List Listening} {v w : VResampler M}
  {samplerate samplerateResampler nboutputs nbinputs : Nat} {blocks : List (List (List CFloat))}
  {calls more : List Zita.RxCall} {nu : UInt32}

theorem run_append : Zita.RxCall.run filter (calls ++ more) w =
    Zita.RxCall.run filter calls w ++
      Zita.RxCall.run filter more (calls.foldl (VResampler.after filter) w) := by
  induction calls generalizing w with
  | nil => rfl
  | cons call calls ih =>
    cases call with
    | rratio r => exact ih
    | process inpData inpCount outCount => exact congrArg (List.cons _) ih

/-- What is heard is a delivery. -/
theorem ListenStep.delivery (hs : ListenStep filter ofInt div packets ipIn c l d) :
    DeliveryStep (VResampler.rxEnv ofInt div filter) packets ipIn c l.delivery d := by
  cases hs with
  | heard hp he h => exact .enqueued hp he h
  | skipped hp he h => exact .skipped hp he h
  | rratio h => exact .other h
  | other h => exact .other h

/-- A stream between two packets, when its resampler is as `w`. -/
structure Listens (filter : ResamplerFilter M) (samplerate samplerateResampler nboutputs : Nat)
    (c : VbanRxContext (VResampler M)) (w : VResampler M) : Prop where
  stream : StreamInvariant filter samplerate samplerateResampler c
  nboutputs_eq : c.nboutputs = nboutputs
  resampler : ∃ v, c.resampler = some v ∧ v.SameFilter w

theorem Listens.congr (h : Listens filter samplerate samplerateResampler nboutputs c w)
    (hsame : SameBuffers c d) (hresampler : d.resampler = c.resampler) :
    Listens filter samplerate samplerateResampler nboutputs d w := by
  obtain ⟨v, hv, hsameFilter⟩ := h.resampler
  exact ⟨h.stream.congr hsame (.inl hresampler), hsame.nboutputs_eq.trans h.nboutputs_eq,
    v, hresampler.trans hv, hsameFilter⟩

/-- Each packet carries its block. -/
theorem bears_getD {p : SentPacket} {i : Nat}
    (h : List.Forall₂ (SentPacket.Bears nbinputs) blocks packets) (hp : packets[i]? = some p) :
    p.Bears nbinputs (blocks.getD i []) := by
  obtain ⟨hi, rfl⟩ := List.getElem?_eq_some_iff.mp hp
  have hblock : i < blocks.length := h.length_eq ▸ hi
  have hget := (List.forall₂_iff_get.mp h).2 i hblock hi
  rw [List.getD_eq_getElem _ _ hblock]
  exact hget

/-- A packet that is not enqueued leaves an open stream as it is. -/
theorem handled_skipped {R : Type} {env : RxEnv R} {c : VbanRxContext R} {q : VBanPacket}
    {r : RxResult R} (h : Handled env c q ipIn r) (hopen : c.ringbuffer ≠ none)
    (haudio : q.protocol = vbanProtocolAudio) (he : ¬Enqueues c q ipIn) : r.context = c := by
  cases h with
  | announced _ hn => exact absurd hn hopen
  | enqueued h => exact absurd h he
  | midi hp => exact absurd haudio hp
  | ignored => rfl

/-- A step is at most a call of the resampler, and the ring is offered what it makes. -/
theorem ListenStep.listens (hbears : List.Forall₂ (SentPacket.Bears nbinputs) blocks packets)
    (hle : nboutputs ≤ nbinputs) (hb : c.BoundTo packets ipIn)
    (hc : Listens filter samplerate samplerateResampler nboutputs c w)
    (hs : ListenStep filter ofInt div packets ipIn c l d) :
    let call := (l.call nboutputs samplerate samplerateResampler blocks).toList
    Listens filter samplerate samplerateResampler nboutputs d
        (call.foldl (VResampler.after filter) w) ∧
      l.offered = (Zita.RxCall.run filter call w).flatMap fun r => framesOf nboutputs r.2 := by
  cases hs with
  | @heard i p buffer packetlen portIn taken r hp he h =>
    obtain ⟨hstream, rfl, v, hv, hsame⟩ := hc
    obtain ⟨ringbuffer, a, c', hrb, ha, hc', hr⟩ := exists_enqueueAudio he h
    obtain ⟨b, hb', hframes⟩ := handle_frames he hrb h
    obtain rfl := Except.ok.inj (ha.symm.trans hb')
    obtain ⟨hmade, hnboutputs, u, hu, hfilter⟩ :=
      hstream.heard (bears_getD hbears hp) hle hv hsame ha
    obtain ⟨hbuffers, hresampler⟩ := correctFill_sameBuffers hc'
    refine ⟨⟨(StreamStep.packet he h).invariant hstream, ?_, u, ?_, hfilter⟩, ?_⟩
    · rw [hr]
      exact hbuffers.nboutputs_eq.trans hnboutputs
    · rw [hr]
      exact hresampler.trans hu
    · rw [Listening.offered, hframes, hmade]
      exact (List.append_nil _).symm
  | @skipped i p buffer packetlen portIn taken r hp he h =>
    have hmem := List.mem_of_getElem? hp
    have haudio : (buffer.receive p).protocol = vbanProtocolAudio := by
      rw [VBanPacket.protocol, receive_header]
      exact hb.audio p hmem
    have hkept := handled_skipped (vbanRxHandlePacket_cases h) hb.opened haudio he
    rw [hkept]
    exact ⟨hc, rfl⟩
  | @rratio _ r _ hsame hresampler =>
    obtain ⟨v, hv, hfilter⟩ := hc.resampler
    refine ⟨⟨hc.stream.congr hsame (.inr ⟨r, hresampler⟩),
      hsame.nboutputs_eq.trans hc.nboutputs_eq, v.setRratio filter.round r, ?_,
      hfilter.setRratio filter.round r⟩, rfl⟩
    rw [hresampler, hv]
    rfl
  | other _ hsame hresampler => exact ⟨hc.congr hsame hresampler, rfl⟩

/-- In a run, the ring is offered what the resampler makes of the calls. -/
theorem listen_run (hnum : ConsecutiveFrom nu packets)
    (hbears : List.Forall₂ (SentPacket.Bears nbinputs) blocks packets) (hle : nboutputs ≤ nbinputs)
    (hb : c.BoundTo packets ipIn) (hc : Listens filter samplerate samplerateResampler nboutputs c w)
    (hrun : Run (ListenStep filter ofInt div packets ipIn) c ls d) :
    let calls := ls.filterMap (·.call nboutputs samplerate samplerateResampler blocks)
    d.BoundTo packets ipIn ∧
      Listens filter samplerate samplerateResampler nboutputs d
        (calls.foldl (VResampler.after filter) w) ∧
      ls.flatMap (·.offered) =
        (Zita.RxCall.run filter calls w).flatMap fun r => framesOf nboutputs r.2 := by
  induction hrun with
  | refl => exact ⟨hb, hc, rfl⟩
  | @snoc _ _ ls l _ hstep ih =>
    obtain ⟨hb', hc', hoffered⟩ := ih
    obtain ⟨hc'', hoffered'⟩ := hstep.listens hbears hle hb' hc'
    have hcall : [l].filterMap (·.call nboutputs samplerate samplerateResampler blocks) =
        (l.call nboutputs samplerate samplerateResampler blocks).toList := by
      cases hcall : l.call nboutputs samplerate samplerateResampler blocks with
      | none => simp [hcall]
      | some call => simp [hcall]
    refine ⟨(hstep.delivery.filter hnum hb').1, ?_, ?_⟩
    · rw [List.filterMap_append, List.foldl_append, hcall]
      exact hc''
    · rw [List.filterMap_append, hcall, run_append, List.flatMap_append, List.flatMap_append,
        hoffered, List.flatMap_singleton, hoffered']

/-- The packets that are heard are the ones that arrive, each once and in order. -/
theorem heardPackets_inOrder (hnum : ConsecutiveFrom nu packets) (hb : c.BoundTo packets ipIn)
    (hrun : Run (ListenStep filter ofInt div packets ipIn) c ls d)
    (hchain : (arrivedPackets ls).IsChain fun i j => i ≤ j ∧ j < i + 2 ^ 32)
    (hfirst : ∀ i ∈ (arrivedPackets ls).head?, nu + UInt32.ofNat i ≠ c.nuFrame) :
    (heardPackets ls).Pairwise (· < ·) ∧ ∀ i, i ∈ heardPackets ls ↔ i ∈ arrivedPackets ls := by
  have hdelivery : Run (DeliveryStep (VResampler.rxEnv ofInt div filter) packets ipIn) c
      (ls.map (·.delivery)) d :=
    (hrun.imp fun _ _ _ hs => hs.delivery).map _
  obtain ⟨-, -, henq, -⟩ := delivery_run_filter hnum hb hdelivery
  rw [heardPackets, henq]
  refine skipRepeats_inOrder ?_ ?_ hfirst
  · apply List.IsChain.pairwise
    exact hchain.imp fun i j h => h.1
  · apply hchain.imp
    intro i j hgap heq
    have hmod := nuFrame_mod heq
    omega

/-- The frames of the blocks with these indices. -/
def framesAt (blocks : List (List (List CFloat))) (indices : List Nat) : List (List CFloat) :=
  indices.flatMap fun i => blocks.getD i []

/-- What a call gives the resampler. -/
def inputOf : Zita.RxCall → List CFloat
  | .process inpData _ _ => inpData
  | .rratio _ => []

theorem framesAt_range (blocks : List (List (List CFloat))) :
    framesAt blocks (List.range blocks.length) = blocks.flatten := by
  have hmap : (List.range blocks.length).map (fun i => blocks.getD i []) = blocks := by
    apply List.ext_getElem
    · rw [List.length_map, List.length_range]
    · intro i hi hi'
      rw [List.getElem_map, List.getElem_range, List.getD_eq_getElem _ _ hi']
  rw [framesAt, List.flatMap_def, hmap]

/-- The resampler gets the audio of the packets that are heard. -/
theorem inputOf_calls (ls : List Listening) :
    (ls.filterMap (·.call nboutputs samplerate samplerateResampler blocks)).flatMap inputOf =
      audioOf nboutputs (framesAt blocks (heardPackets ls)) := by
  induction ls with
  | nil => rfl
  | cons l ls ih =>
    cases l with
    | heard i frames =>
      have hrest := congrArg (audioOf nboutputs (blocks.getD i []) ++ ·) ih
      exact hrest.trans List.flatMap_append.symm
    | skipped i => exact ih
    | rratio r => exact ih
    | other => exact ih

/-- Indices in order that are all the indices. -/
theorem eq_range {indices : List Nat} {n : Nat} (horder : indices.Pairwise (· < ·))
    (hmem : ∀ i, i ∈ indices ↔ i < n) : indices = List.range n := by
  refine List.Perm.eq_of_pairwise ?_ horder List.pairwise_lt_range ?_
  · intro i j _ _ hij hji
    exact absurd (hij.trans hji) (Nat.lt_irrefl i)
  · apply (List.perm_ext_iff_of_nodup (horder.imp fun h => Nat.ne_of_lt h) List.nodup_range).mpr
    intro i
    rw [hmem, List.mem_range]

/-- A packet that carries frames can be read. -/
theorem SentPacket.Bears.playable {p : SentPacket} {block : List (List CFloat)}
    (hp : p.Bears nbinputs block) (hle : nboutputs ≤ nbinputs)
    (haudio : p.header.formatSR &&& vbanProtocolMask = vbanProtocolAudio) :
    (VBanPacket.zero.receive p).Playable nboutputs := by
  have hheader := receive_header .zero p
  have hsize : (VBanPacket.zero.receive p).sampleSize = 4 := by
    rw [VBanPacket.sampleSize, hheader, hp.formatBit]
    rfl
  have hchannels : (VBanPacket.zero.receive p).channels = nbinputs := by
    rw [VBanPacket.channels, hheader, hp.formatNbc]
  have hsamples : (VBanPacket.zero.receive p).samples = block.length := by
    rw [VBanPacket.samples, hheader, hp.formatNbs]
  have hpos : 0 < nbinputs := hp.formatNbc ▸ Nat.succ_pos _
  refine ⟨?_, ⟨?_, fun _ => .inr ?_⟩, ?_⟩
  · rw [VBanPacket.protocol, hheader]
    exact haudio
  · rw [hheader, hp.formatBit]
    decide
  · rw [hsize, hchannels, hsamples, Nat.min_eq_right hle]
    have hblock : 1 ≤ block.length := hp.formatNbs ▸ Nat.succ_pos _
    have hfits := hp.fits
    rw [← Nat.sub_add_cancel hblock, Nat.succ_mul] at hfits
    omega
  · rw [hsize, hchannels]
    omega

/-- So its copies may arrive in any order. -/
theorem exists_listen_run (hc : c.Ready nboutputs) (hle : nboutputs ≤ nbinputs)
    (hbears : List.Forall₂ (SentPacket.Bears nbinputs) blocks packets)
    (haudio : ∀ p ∈ packets, p.header.formatSR &&& vbanProtocolMask = vbanProtocolAudio)
    (order : List Nat) (horder : ∀ i ∈ order, i < packets.length) :
    ∃ ls d, Run (ListenStep filter ofInt div packets ipIn) c ls d ∧ arrivedPackets ls = order := by
  induction order generalizing c with
  | nil => exact ⟨[], c, .refl c, rfl⟩
  | cons i order ih =>
    obtain ⟨hi, hrest⟩ := List.forall_mem_cons.mp horder
    have hp := List.getElem?_eq_getElem hi
    obtain ⟨r, hr, hready⟩ := handle_ready hc
      ((bears_getD hbears hp).playable hle (haudio _ (List.getElem_mem hi)))
    obtain ⟨ls, d, hrun, harrived⟩ := ih hready hrest
    by_cases he : Enqueues c (VBanPacket.zero.receive packets[i]) ipIn
    · exact ⟨.heard i r.frames :: ls, d, hrun.cons (.heard hp he hr), congrArg (i :: ·) harrived⟩
    · exact ⟨.skipped i :: ls, d, hrun.cons (.skipped hp he hr), congrArg (i :: ·) harrived⟩

/-- Three periods of 128 stereo frames. -/
def threePeriods : List (List (List CFloat)) :=
  [List.replicate 128 [1, 2], List.replicate 128 [3, 4], List.replicate 128 [5, 6]]

theorem threePeriods_even : ∀ frames ∈ threePeriods, frames.length < 2 ^ 16 ∧
    (∀ f ∈ frames, f.length = cruisingContext.nbinputs) ∧
      SplitsEvenly frames.length (cruisingContext.nbinputs * 4) := by
  have hsplit : SplitsEvenly 128 (cruisingContext.nbinputs * 4) :=
    ⟨by decide, by decide, 0, by decide, by decide, by decide⟩
  have hperiod : ∀ a b : CFloat, (List.replicate 128 [a, b]).length < 2 ^ 16 ∧
      (∀ f ∈ List.replicate 128 [a, b], f.length = cruisingContext.nbinputs) ∧
        SplitsEvenly (List.replicate 128 [a, b]).length (cruisingContext.nbinputs * 4) := by
    intro a b
    rw [List.length_replicate]
    refine ⟨by decide, ?_, hsplit⟩
    intro f hf
    rw [List.eq_of_mem_replicate hf]
    rfl
  intro frames hframes
  simp only [threePeriods, List.mem_cons, List.not_mem_nil, or_false] at hframes
  rcases hframes with rfl | rfl | rfl <;> exact hperiod _ _

end Vban
