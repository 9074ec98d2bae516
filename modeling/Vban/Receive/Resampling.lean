import Vban.Library.Run
import Vban.Receive.Delivery
import Vban.Receive.VResampler

/-! The packets of an open stream and their resampler: its buffers, and how much of each packet it
reads. -/
namespace Vban

open Library

/-- The same rates and the same buffers. -/
structure SameBuffers {R : Type} (c c' : VbanRxContext R) : Prop where
  nboutputs_eq : c'.nboutputs = c.nboutputs
  samplerate_eq : c'.samplerate = c.samplerate
  samplerateResampler_eq : c'.samplerateResampler = c.samplerateResampler
  resamplerInbuf_eq : c'.resamplerInbuf = c.resamplerInbuf
  resamplerInbuflen_eq : c'.resamplerInbuflen = c.resamplerInbuflen
  resamplerOutbuf_eq : c'.resamplerOutbuf = c.resamplerOutbuf
  resamplerOutbuflen_eq : c'.resamplerOutbuflen = c.resamplerOutbuflen

variable {M : Type}

/-- A stream as `main` opens it. -/
structure Opens (filter : ResamplerFilter M) (samplerate samplerateResampler : Nat)
    (c : VbanRxContext (VResampler M)) : Prop where
  samplerate_eq : c.samplerate = samplerate
  samplerateResampler_eq : c.samplerateResampler = samplerateResampler
  samplerateResampler_pos : 0 < samplerateResampler
  resampler_eq : ∃ memory v, c.resampler = some v ∧
    VResampler.create filter (filter.round (samplerate / samplerateResampler)) c.nboutputs memory =
      some v
  resamplerInbuflen_eq : c.resamplerInbuflen = 0

/-- An accepted packet is handled, or something happens that leaves the stream as it is and at most
sets the ratio of the resampler. -/
inductive StreamStep (filter : ResamplerFilter M) (ofInt : Int → CFloat)
    (div : CFloat → CFloat → CFloat) :
    VbanRxContext (VResampler M) → Option VBanPacket → VbanRxContext (VResampler M) → Prop
  | packet {c : VbanRxContext (VResampler M)} {p : VBanPacket} {packetlen : Int} {ipIn : UInt32}
      {portIn : UInt16} {taken : List Nat} {r : RxResult (VResampler M)} (he : Enqueues c p ipIn)
      (h : vbanRxHandlePacket (VResampler.rxEnv ofInt div filter) p packetlen c ipIn portIn taken =
        .ok r) :
      StreamStep filter ofInt div c (some p) r.context
  | other {c c' : VbanRxContext (VResampler M)} (hsame : SameBuffers c c')
      (hresampler : c'.resampler = c.resampler ∨
        ∃ r, c'.resampler = c.resampler.map fun v => v.setRratio filter.round r) :
      StreamStep filter ofInt div c none c'

/-- `resampler_outbuflen` for a packet of `n` samples. -/
def outbuflenFor {R : Type} (c : VbanRxContext R) (n : Nat) : Int :=
  ((n : Int) * c.samplerate).tdiv c.samplerateResampler + 1

/-- The buffers have room for every packet up to the recorded length. -/
def BuffersHold {R : Type} (c : VbanRxContext R) : Prop :=
  ∀ n : Nat, 0 < n → (n : Int) ≤ c.resamplerInbuflen →
    n * c.nboutputs ≤ c.resamplerInbuf.length ∧
      (outbuflenFor c n).toNat * c.nboutputs ≤ c.resamplerOutbuf.length

/-- What holds between the packets of a stream. -/
structure StreamInvariant (filter : ResamplerFilter M) (samplerate samplerateResampler : Nat)
    (c : VbanRxContext (VResampler M)) : Prop where
  samplerate_eq : c.samplerate = samplerate
  samplerateResampler_eq : c.samplerateResampler = samplerateResampler
  samplerateResampler_pos : 0 < samplerateResampler
  buffers : BuffersHold c
  resampler : ∃ v, c.resampler = some v ∧ VResampler.Running filter v c.nboutputs

section General

variable {R : Type} {env : RxEnv R} {c c' d : VbanRxContext R} {p : VBanPacket}
  {ringbuffer : Ringbuffer}

theorem SameBuffers.refl (c : VbanRxContext R) : SameBuffers c c :=
  ⟨rfl, rfl, rfl, rfl, rfl, rfl, rfl⟩

theorem SameBuffers.trans (h : SameBuffers c c') (k : SameBuffers c' d) : SameBuffers c d :=
  ⟨k.nboutputs_eq.trans h.nboutputs_eq, k.samplerate_eq.trans h.samplerate_eq,
    k.samplerateResampler_eq.trans h.samplerateResampler_eq,
    k.resamplerInbuf_eq.trans h.resamplerInbuf_eq,
    k.resamplerInbuflen_eq.trans h.resamplerInbuflen_eq,
    k.resamplerOutbuf_eq.trans h.resamplerOutbuf_eq,
    k.resamplerOutbuflen_eq.trans h.resamplerOutbuflen_eq⟩

theorem BuffersHold.congr (h : SameBuffers c c') (hc : BuffersHold c) : BuffersHold c' := by
  intro n hpos hle
  rw [h.resamplerInbuflen_eq] at hle
  obtain ⟨hin, hout⟩ := hc n hpos hle
  rw [outbuflenFor, h.nboutputs_eq, h.samplerate_eq, h.samplerateResampler_eq,
    h.resamplerInbuf_eq, h.resamplerOutbuf_eq]
  exact ⟨hin, hout⟩

theorem calcInputSamplerate_sameBuffers : SameBuffers c (calcInputSamplerate c p).2 := by
  simp only [calcInputSamplerate]
  split_ifs <;> exact ⟨rfl, rfl, rfl, rfl, rfl, rfl, rfl⟩

theorem correctFill_sameBuffers {a : ResampledAudio R} (h : correctFill a p = .ok c') :
    SameBuffers a.context c' ∧ c'.resampler = a.context.resampler := by
  have hsame := calcInputSamplerate_sameBuffers (c := a.context) (p := p)
  have hresampler := calcInputSamplerate_resampler (c := a.context) (q := p)
  rcases correctFill_cases h with ⟨-, rfl⟩ | ⟨-, fill, rfl⟩
  · exact ⟨.refl _, rfl⟩
  · exact ⟨hsame.trans ⟨rfl, rfl, rfl, rfl, rfl, rfl, rfl⟩, hresampler⟩

/-- A longer packet needs no less room. -/
theorem outbuflenFor_mono (hrate : 0 ≤ c.samplerate) (hresampler : 0 < c.samplerateResampler)
    {m n : Nat} (h : m ≤ n) : outbuflenFor c m ≤ outbuflenFor c n := by
  have hm : 0 ≤ (m : Int) * c.samplerate := Int.mul_nonneg (Int.natCast_nonneg m) hrate
  have hn : 0 ≤ (n : Int) * c.samplerate := Int.mul_nonneg (Int.natCast_nonneg n) hrate
  rw [outbuflenFor, outbuflenFor, Int.tdiv_eq_ediv_of_nonneg hm, Int.tdiv_eq_ediv_of_nonneg hn]
  apply Int.add_le_add_right
  exact Int.ediv_le_ediv hresampler
    (Int.mul_le_mul_of_nonneg_right (Int.ofNat_le.mpr h) hrate)

/-- The lengths after the resize are those of the packet, and the buffers hold it. -/
theorem BuffersHold.resize (hc : BuffersHold c) (hrate : 0 ≤ c.samplerate)
    (hresampler : 0 < c.samplerateResampler)
    (h : resizeResamplerBuffers c p.header.formatNbs.toNat = .ok c') :
    c'.nboutputs = c.nboutputs ∧ c'.samplerate = c.samplerate ∧
      c'.samplerateResampler = c.samplerateResampler ∧ c'.resampler = c.resampler ∧
      c'.resamplerInbuflen = p.samples ∧ c'.resamplerOutbuflen = outbuflenFor c p.samples ∧
      BuffersHold c' := by
  have hsamples : ((p.header.formatNbs.toNat : Int) + 1) = (p.samples : Nat) := rfl
  simp only [resizeResamplerBuffers, hsamples] at h
  split_ifs at h with hzero hgrow
  · obtain rfl := Except.ok.inj h
    refine ⟨rfl, rfl, rfl, rfl, rfl, rfl, ?_⟩
    intro n hpos hle
    have hle' : n ≤ p.samples := Int.ofNat_le.mp hle
    simp only [List.length_replicate]
    refine ⟨Nat.mul_le_mul_right _ hle', Nat.mul_le_mul_right _ (Int.toNat_le_toNat ?_)⟩
    exact outbuflenFor_mono hrate hresampler hle'
  · obtain rfl := Except.ok.inj h
    refine ⟨rfl, rfl, rfl, rfl, rfl, rfl, ?_⟩
    intro n hpos hle
    exact hc n hpos (hle.trans (Int.not_lt.mp hgrow))

theorem length_vbanSampleConvert {data : List UInt8} {srcptr num : Nat} {bit : UInt8}
    {samples : List CFloat} (h : vbanSampleConvert env data srcptr bit num = .ok samples) :
    samples.length ≤ num := by
  have hconvert : ∀ size conv, convertSamples data srcptr size num conv = .ok samples →
      samples.length ≤ num := by
    intro size conv hsamples
    obtain ⟨bytes, -, hsamples⟩ := bind_eq_ok.mp hsamples
    obtain rfl := Except.ok.inj hsamples
    rw [List.length_map, List.length_range]
  obtain ⟨size, -, h⟩ := bind_eq_ok.mp h
  split_ifs at h
  · exact hconvert _ _ h
  · exact hconvert _ _ h
  · exact hconvert _ _ h
  · exact hconvert _ _ h
  · exact hconvert _ _ h
  · obtain rfl := Except.ok.inj h
    exact Nat.zero_le _

/-- The samples of every frame have room in the buffer. -/
theorem length_convertFrames {framesize nbc nboutputs : Nat} {inbuf inbuf' : List CFloat}
    (hnbc : nbc ≤ nboutputs) (hroom : p.samples * nboutputs ≤ inbuf.length)
    (h : convertFrames env p framesize nbc nboutputs inbuf = .ok inbuf') :
    inbuf'.length = inbuf.length := by
  refine foldlM_ok_invariant (I := fun mem => mem.length = inbuf.length) h ?_ rfl
  intro mem iframe hmem mem' hlen hturn
  obtain ⟨samples, hsamples, hturn⟩ := bind_eq_ok.mp hturn
  obtain rfl := Except.ok.inj hturn
  have hframe : (iframe + 1) * nboutputs ≤ p.samples * nboutputs :=
    Nat.mul_le_mul_right _ (List.mem_range.mp hmem)
  have hle := length_vbanSampleConvert hsamples
  rw [Nat.succ_mul] at hframe
  rw [length_overwrite (by omega), hlen]

theorem floatsBytes_length (xs : List CFloat) : (floatsBytes xs).length = xs.length * 4 := by
  rw [floatsBytes, List.length_flatMap]
  have hfour : (fun x => (floatBytes x).length) = fun _ : CFloat => 4 :=
    funext fun x => length_leBytes 4 x.toNat
  rw [hfour, List.map_const', List.sum_replicate_nat]

/-- A frame that is read inside the buffer has all its floats. -/
theorem length_of_mem_enqueuedFrames {outbuf : List CFloat} {nbc nboutputs n : Nat}
    {f : List UInt8} (hnbc : nbc ≤ nboutputs) (hroom : n * nboutputs ≤ outbuf.length)
    (hf : f ∈ enqueuedFrames outbuf nbc nboutputs n) : f.length = nboutputs * 4 := by
  obtain ⟨frame, hframe, rfl⟩ := List.mem_map.mp hf
  have hstride : frame * nbc ≤ frame * nboutputs := Nat.mul_le_mul_left _ hnbc
  have hlast : (frame + 1) * nboutputs ≤ n * nboutputs :=
    Nat.mul_le_mul_right _ (List.mem_range.mp hframe)
  rw [Nat.succ_mul] at hlast
  rw [floatsBytes_length, length_bytesAt (by omega)]

end General

section Stream

variable {filter : ResamplerFilter M} {ofInt : Int → CFloat} {div : CFloat → CFloat → CFloat}
  {samplerate samplerateResampler : Nat} {c c₀ c' : VbanRxContext (VResampler M)}
  {p : VBanPacket} {ringbuffer : Ringbuffer} {a : ResampledAudio (VResampler M)}
  {ls : List (Option VBanPacket)}

/-- The frames that the resampler makes of a packet. -/
def resampledFrames (filter : ResamplerFilter M) (c : VbanRxContext (VResampler M))
    (v : VResampler M) (p : VBanPacket) : Nat :=
  Nat.count (fun k => v.reach filter.round k ≤ p.samples) (outputRoom c p)

/-- What a packet comes to: the resampler processes it, and nothing leaves the buffers. -/
structure Resampled (filter : ResamplerFilter M) (c : VbanRxContext (VResampler M))
    (p : VBanPacket) (v : VResampler M) (a : ResampledAudio (VResampler M)) : Prop where
  processed : ∃ u inbuf out, a.context.resampler = some u ∧ VResampler.Processed filter.round
    (v.load inbuf p.samples (outputRoom c p)) (outputRoom c p) u out
  frames_length : a.frames.length = resampledFrames filter c v p
  frames_whole : ∀ f ∈ a.frames, f.length = c.nboutputs * 4

/-- The buffers of a stream that have been resized for a packet have room for all that is done with
them. -/
structure BuffersFit {R : Type} (c : VbanRxContext R) (p : VBanPacket) : Prop where
  inbuflen_eq : c.resamplerInbuflen = p.samples
  inbuf_le : p.samples * c.nboutputs ≤ c.resamplerInbuf.length
  outbuf_le : c.resamplerOutbuflen.toNat * c.nboutputs ≤ c.resamplerOutbuf.length
  decode_le : ∀ iframe < p.samples,
    iframe * c.nboutputs + min p.channels c.nboutputs ≤ c.resamplerInbuf.length
  output_le : (c.resamplerOutbuflen % 2 ^ 32).toNat * c.nboutputs ≤ c.resamplerOutbuf.length
  enqueue_le : ∀ frame < c.resamplerOutbuflen.toNat,
    frame * min p.channels c.nboutputs + c.nboutputs ≤ c.resamplerOutbuf.length

theorem StreamInvariant.outbuflen_nonneg
    (hc : StreamInvariant filter samplerate samplerateResampler c) (n : Nat) :
    0 ≤ outbuflenFor c n := by
  have hrate := hc.samplerate_eq
  have hresampler := hc.samplerateResampler_eq
  rw [outbuflenFor, hrate, hresampler, ← Int.natCast_mul]
  exact Int.add_nonneg (Int.tdiv_nonneg (Int.natCast_nonneg _) (Int.natCast_nonneg _))
    Int.one_nonneg

theorem StreamInvariant.resize (hc : StreamInvariant filter samplerate samplerateResampler c)
    (h : resizeResamplerBuffers c p.header.formatNbs.toNat = .ok c') :
    StreamInvariant filter samplerate samplerateResampler c' ∧ c'.nboutputs = c.nboutputs ∧
      c'.resampler = c.resampler ∧ c'.resamplerOutbuflen = outbuflenFor c p.samples ∧
      BuffersFit c' p := by
  have hrate : 0 ≤ c.samplerate := hc.samplerate_eq ▸ Int.natCast_nonneg _
  have hresampler : 0 < c.samplerateResampler :=
    hc.samplerateResampler_eq ▸ Int.natCast_pos.mpr hc.samplerateResampler_pos
  obtain ⟨hnboutputs, hrate', hresampler', hsame, hinbuflen, houtbuflen, hbuffers⟩ :=
    hc.buffers.resize hrate hresampler h
  have hpos := hc.outbuflen_nonneg p.samples
  have houtbuflen' : outbuflenFor c' p.samples = c'.resamplerOutbuflen := by
    rw [outbuflenFor, hrate', hresampler', houtbuflen, outbuflenFor]
  obtain ⟨hin, hout⟩ := hbuffers p.samples (Nat.succ_pos _) hinbuflen.ge
  rw [houtbuflen'] at hout
  refine ⟨⟨hrate'.trans hc.samplerate_eq, hresampler'.trans hc.samplerateResampler_eq,
    hc.samplerateResampler_pos, hbuffers, ?_⟩, hnboutputs, hsame, houtbuflen,
    ⟨hinbuflen, hin, hout, ?_, ?_, ?_⟩⟩
  · rw [hsame, hnboutputs]
    exact hc.resampler
  · intro iframe hiframe
    have hframe : (iframe + 1) * c'.nboutputs ≤ p.samples * c'.nboutputs :=
      Nat.mul_le_mul_right _ hiframe
    rw [Nat.succ_mul] at hframe
    omega
  · refine (Nat.mul_le_mul_right _ ?_).trans hout
    rw [houtbuflen]
    omega
  · intro frame hframe
    have hstride : frame * min p.channels c'.nboutputs ≤ frame * c'.nboutputs :=
      Nat.mul_le_mul_left _ (Nat.min_le_right _ _)
    have hlast : (frame + 1) * c'.nboutputs ≤ c'.resamplerOutbuflen.toNat * c'.nboutputs :=
      Nat.mul_le_mul_right _ hframe
    rw [Nat.succ_mul] at hlast
    omega

theorem StreamInvariant.rate_ne (hc : StreamInvariant filter samplerate samplerateResampler c) :
    c.samplerateResampler ≠ 0 := by
  rw [hc.samplerateResampler_eq]
  exact Int.natCast_ne_zero.mpr hc.samplerateResampler_pos.ne'

theorem StreamInvariant.exists_resize
    (hc : StreamInvariant filter samplerate samplerateResampler c) (p : VBanPacket) :
    ∃ c', resizeResamplerBuffers c p.header.formatNbs.toNat = .ok c' :=
  resizeResamplerBuffers_ok hc.rate_ne _

/-- The enqueue stage of a packet, after the resize: one call of the resampler for all samples, with
room for as many frames as the rates ask for. -/
theorem StreamInvariant.enqueueAudio_eq
    (hc : StreamInvariant filter samplerate samplerateResampler c) {v : VResampler M}
    (hv : c.resampler = some v)
    (hresize : resizeResamplerBuffers c p.header.formatNbs.toNat = .ok c')
    (h : enqueueAudio (VResampler.rxEnv ofInt div filter) c p ringbuffer = .ok a) :
    let nbc := if p.channels < c.nboutputs then p.channels else c.nboutputs
    ∃ size inbuf ringbuffer', bitResolutionSize p.header.formatBit = .ok size ∧
      convertFrames (VResampler.rxEnv ofInt div filter) p (p.channels * size) nbc c'.nboutputs
        c'.resamplerInbuf = .ok inbuf ∧
      let loaded := v.load inbuf p.samples (outputRoom c p)
      let r := loaded.process filter
      a = {
        context := { c' with
          resampler := some r.1
          resamplerInbuf := inbuf
          resamplerOutbuf := overwrite c'.resamplerOutbuf 0 r.2
          ringbuffer := some ringbuffer' }
        framesize := p.channels * size
        frames := enqueuedFrames (overwrite c'.resamplerOutbuf 0 r.2) nbc c'.nboutputs
          (loaded.produced filter.round (outputRoom c p)) } := by
  intro nbc
  obtain ⟨-, -, hsame, houtbuflen, hfit⟩ := hc.resize hresize
  have hpos := hc.outbuflen_nonneg p.samples
  have hroom : (c'.resamplerOutbuflen % 2 ^ 32).toNat = outputRoom c p :=
    resizeResamplerBuffers_outbuflen hresize
  have hinput : (c'.resamplerInbuflen % 2 ^ 32).toNat = p.samples := by
    have hlt := p.header.formatNbs.toNat_lt
    have hsamples : p.samples = p.header.formatNbs.toNat + 1 := rfl
    rw [hfit.inbuflen_eq]
    omega
  simp only [enqueueAudio, bind_eq_ok, hresize, Except.ok.injEq, exists_eq_left'] at h
  obtain ⟨size, hsize, inbuf, hinbuf, h⟩ := h
  rw [hsame, hv] at h
  have hcount := (VResampler.process_processed filter
    (v.load inbuf p.samples (outputRoom c p))).outCount_eq
  have hframes : ((c'.resamplerOutbuflen -
      ((v.load inbuf p.samples (outputRoom c p)).process filter).1.outCount) % 2 ^ 32).toNat =
        (v.load inbuf p.samples (outputRoom c p)).produced filter.round (outputRoom c p) := by
    have hasked : (v.load inbuf p.samples (outputRoom c p)).outCount = outputRoom c p := rfl
    rw [hasked] at hcount
    omega
  have ha := Except.ok.inj h
  simp only [VResampler.rxEnv, hinput, hroom, hframes] at ha
  exact ⟨size, inbuf, _, hsize, hinbuf, ha.symm⟩

/-- The resampler gets all samples, and nothing leaves the buffers. -/
theorem StreamInvariant.resampled (hc : StreamInvariant filter samplerate samplerateResampler c)
    {v : VResampler M} (hv : c.resampler = some v)
    (hresize : resizeResamplerBuffers c p.header.formatNbs.toNat = .ok c')
    (h : enqueueAudio (VResampler.rxEnv ofInt div filter) c p ringbuffer = .ok a) :
    Resampled filter c p v a ∧ StreamInvariant filter samplerate samplerateResampler a.context ∧
      a.context.resamplerInbuf.length = c'.resamplerInbuf.length ∧
      a.context.resamplerOutbuf.length = c'.resamplerOutbuf.length ∧
      a.frames.length ≤ c'.resamplerOutbuflen.toNat := by
  obtain ⟨hc', hnboutputs, hsame, houtbuflen, hfit⟩ := hc.resize hresize
  obtain ⟨size, inbuf, ringbuffer', -, hinbuf, rfl⟩ := hc.enqueueAudio_eq hv hresize h
  have hpos := hc.outbuflen_nonneg p.samples
  rw [hnboutputs] at hinbuf
  obtain ⟨w, hw, hrunning⟩ := hc.resampler
  obtain rfl := Option.some.inj (hw.symm.trans hv)
  have hloaded := hrunning.load inbuf p.samples (outputRoom c p)
  set loaded := w.load inbuf p.samples (outputRoom c p) with hload
  have hprocessed : VResampler.Processed filter.round loaded (outputRoom c p) _ _ :=
    VResampler.process_processed filter loaded
  have hproduced : loaded.produced filter.round (outputRoom c p) ≤ outputRoom c p :=
    Phase.produced_le
  have hnbc : (if p.channels < c.nboutputs then p.channels else c.nboutputs) ≤ c.nboutputs := by
    split_ifs with hlt
    · exact hlt.le
    · exact Nat.le_refl _
  have hroom : (c'.resamplerOutbuflen % 2 ^ 32).toNat = outputRoom c p :=
    resizeResamplerBuffers_outbuflen hresize
  have hinlen : inbuf.length = c'.resamplerInbuf.length :=
    length_convertFrames hnbc (hnboutputs ▸ hfit.inbuf_le) hinbuf
  have hroomy : loaded.produced filter.round (outputRoom c p) * c.nboutputs ≤
      c'.resamplerOutbuf.length := by
    refine (Nat.mul_le_mul_right _ hproduced).trans ?_
    rw [← hroom, ← hnboutputs]
    exact hfit.output_le
  have hwritten : (loaded.process filter).2.length ≤ c'.resamplerOutbuf.length := by
    rw [hprocessed.length_eq]
    refine le_trans (le_of_eq ?_) hroomy
    rw [← hrunning.nchan_eq]
    rfl
  have houtlen : (overwrite c'.resamplerOutbuf 0 (loaded.process filter).2).length =
      c'.resamplerOutbuf.length := length_overwrite (by omega)
  refine ⟨⟨⟨_, inbuf, _, rfl, hprocessed⟩, ?_, ?_⟩, ⟨hc'.samplerate_eq,
    hc'.samplerateResampler_eq, hc'.samplerateResampler_pos, ?_, ⟨_, rfl, ?_⟩⟩, hinlen, houtlen,
    ?_⟩
  · exact List.length_map _ |>.trans List.length_range
  · intro f hf
    rw [hnboutputs] at hf
    exact length_of_mem_enqueuedFrames hnbc (houtlen ▸ hroomy) hf
  · intro n hn hle
    obtain ⟨hin, hout⟩ := hc'.buffers n hn hle
    exact ⟨hinlen ▸ hin, houtlen ▸ hout⟩
  · exact hnboutputs ▸ hloaded.process
  · rw [enqueuedFrames, List.length_map, List.length_range]
    omega

theorem StreamInvariant.congr (hc : StreamInvariant filter samplerate samplerateResampler c)
    (hsame : SameBuffers c c') (hresampler : c'.resampler = c.resampler ∨
      ∃ r, c'.resampler = c.resampler.map fun v => v.setRratio filter.round r) :
    StreamInvariant filter samplerate samplerateResampler c' := by
  obtain ⟨v, hv, hrunning⟩ := hc.resampler
  refine ⟨hsame.samplerate_eq.trans hc.samplerate_eq,
    hsame.samplerateResampler_eq.trans hc.samplerateResampler_eq, hc.samplerateResampler_pos,
    hc.buffers.congr hsame, ?_⟩
  rw [hsame.nboutputs_eq]
  rcases hresampler with hkept | ⟨r, hset⟩
  · exact ⟨v, hkept.trans hv, hrunning⟩
  · exact ⟨v.setRratio filter.round r, by rw [hset, hv]; rfl, hrunning.setRratio r⟩

/-- An accepted packet goes through the enqueue stage. -/
theorem exists_enqueueAudio {R : Type} {env : RxEnv R} {c : VbanRxContext R} {packetlen : Int}
    {ipIn : UInt32} {portIn : UInt16} {taken : List Nat} {r : RxResult R}
    (he : Enqueues c p ipIn)
    (h : vbanRxHandlePacket env p packetlen c ipIn portIn taken = .ok r) :
    ∃ ringbuffer a c', c.ringbuffer = some ringbuffer ∧
      enqueueAudio env c p ringbuffer = .ok a ∧ correctFill a p = .ok c' ∧
      r.context = { c' with nuFrame := p.header.nuFrame } := by
  cases vbanRxHandlePacket_cases h with
  | announced _ hn => exact absurd hn he.2.1
  | enqueued _ hrb ha hf => exact ⟨_, _, _, hrb, ha, hf, rfl⟩
  | midi hp => exact absurd he.1 hp
  | ignored hi => exact absurd he.2.2 (hi he.1).2

/-- A step keeps the rates, the buffers and the resampler. -/
theorem StreamStep.invariant {l : Option VBanPacket}
    (hc : StreamInvariant filter samplerate samplerateResampler c)
    (h : StreamStep filter ofInt div c l c') :
    StreamInvariant filter samplerate samplerateResampler c' := by
  cases h with
  | @packet p packetlen ipIn portIn taken r he h =>
    obtain ⟨ringbuffer, a, d, -, ha, hd, hr⟩ := exists_enqueueAudio he h
    obtain ⟨v, hv, -⟩ := hc.resampler
    obtain ⟨c', hc'⟩ := hc.exists_resize p
    obtain ⟨-, hstream, -⟩ := hc.resampled hv hc' ha
    obtain ⟨hsame, hresampler⟩ := correctFill_sameBuffers hd
    rw [hr]
    exact (hstream.congr hsame (.inl hresampler)).congr ⟨rfl, rfl, rfl, rfl, rfl, rfl, rfl⟩
      (.inl rfl)
  | other hsame hresampler => exact hc.congr hsame hresampler

theorem Opens.invariant (h : Opens filter samplerate samplerateResampler c) :
    StreamInvariant filter samplerate samplerateResampler c := by
  obtain ⟨memory, v, hv, hcreate⟩ := h.resampler_eq
  refine ⟨h.samplerate_eq, h.samplerateResampler_eq, h.samplerateResampler_pos, ?_, v, hv,
    VResampler.create_running hcreate⟩
  intro n hpos hle
  rw [h.resamplerInbuflen_eq] at hle
  omega

theorem stream_run_invariant (hopen : Opens filter samplerate samplerateResampler c₀)
    (hrun : Run (StreamStep filter ofInt div) c₀ ls c) :
    StreamInvariant filter samplerate samplerateResampler c :=
  hrun.invariant (fun _ _ _ hc h => h.invariant hc) hopen.invariant

/-- The last frame that the room for the output permits takes all of the packet. -/
def Suffices (v : VResampler M) (samples samplerate samplerateResampler : Nat) : Prop :=
  (samples : ℚ) ≤ v.position + (samples * samplerate / samplerateResampler : Nat) * v.stride

theorem outputRoom_eq (hc : StreamInvariant filter samplerate samplerateResampler c)
    (hrate : samplerate ≤ 705600) :
    outputRoom c p = p.samples * samplerate / samplerateResampler + 1 := by
  have hsamples : p.samples ≤ 256 := p.header.formatNbs.toNat_lt
  have hmul : p.samples * samplerate ≤ 256 * 705600 := Nat.mul_le_mul hsamples hrate
  have hdiv := Nat.div_le_self (p.samples * samplerate) samplerateResampler
  rw [outputRoom, hc.samplerate_eq, hc.samplerateResampler_eq, ← Int.natCast_mul,
    ← Int.ofNat_tdiv]
  generalize p.samples * samplerate / samplerateResampler = room at *
  omega

theorem VResampler.Phased.suffices_iff {v : VResampler M} (h : v.Phased) (samples : Nat) :
    samples ≤ v.reach id (samples * samplerate / samplerateResampler) ↔
      Suffices v samples samplerate samplerateResampler := by
  have hnp := h.inFrame.np_pos
  have hposition : 0 ≤ v.position :=
    add_nonneg (Nat.cast_nonneg _) (div_nonneg h.inFrame.nonneg hnp.le)
  have hstride : 0 ≤ v.stride := div_nonneg h.qstep_pos.le hnp.le
  rw [h.reach_eq, Suffices,
    Nat.le_floor_iff (add_nonneg hposition (mul_nonneg (Nat.cast_nonneg _) hstride))]

/-- What is left of a packet depends on where the resampler stood before it. -/
theorem StreamInvariant.consumed_iff
    (hc : StreamInvariant filter samplerate samplerateResampler c)
    (hsr : samplerate ∈ vbanSRList) {v : VResampler M} (hv : c.resampler = some v)
    {packetlen : Int} {ipIn : UInt32} {portIn : UInt16} {taken : List Nat}
    {r : RxResult (VResampler M)} (he : Enqueues c p ipIn)
    (hr : vbanRxHandlePacket (VResampler.rxEnv ofInt div filter) p packetlen c ipIn portIn taken =
      .ok r) :
    (∃ u, r.context.resampler = some u ∧ u.inpCount = 0) ↔
      p.samples ≤ v.reach filter.round (p.samples * samplerate / samplerateResampler) := by
  have hle : ∀ sr ∈ vbanSRList, sr ≤ 705600 := by decide
  have hroom := outputRoom_eq (p := p) hc (hle samplerate hsr)
  obtain ⟨c', hc'⟩ := hc.exists_resize p
  obtain ⟨ringbuffer, a, d, -, ha, hd, hcontext⟩ := exists_enqueueAudio he hr
  obtain ⟨⟨⟨u, inbuf, out, hu, hprocessed⟩, -, -⟩, -⟩ := hc.resampled hv hc' ha
  have hkept : r.context.resampler = some u := by
    rw [hcontext]
    exact (correctFill_sameBuffers hd).2.trans hu
  rw [hroom] at hprocessed
  have hiff := hprocessed.inpCount_eq_zero_iff
  constructor
  · rintro ⟨u', hu', hzero⟩
    obtain rfl := Option.some.inj (hkept.symm.trans hu')
    exact hiff.mp hzero
  · intro hsuffices
    exact ⟨u, hkept, hiff.mpr hsuffices⟩

/-- The resampler of a stream reads a whole packet exactly if the room for the output suffices. -/
theorem packet_consumed_iff (hexact : filter.Exact) (hsr : samplerate ∈ vbanSRList)
    (hopen : Opens filter samplerate samplerateResampler c₀)
    (hrun : Run (StreamStep filter ofInt div) c₀ ls c)
    {v : VResampler M} (hv : c.resampler = some v) {packetlen : Int} {ipIn : UInt32}
    {portIn : UInt16} {taken : List Nat} {r : RxResult (VResampler M)} (he : Enqueues c p ipIn)
    (hr : vbanRxHandlePacket (VResampler.rxEnv ofInt div filter) p packetlen c ipIn portIn taken =
      .ok r) :
    (∃ u, r.context.resampler = some u ∧ u.inpCount = 0) ↔
      Suffices v p.samples samplerate samplerateResampler := by
  have hc := stream_run_invariant hopen hrun
  obtain ⟨w, hw, hrunning⟩ := hc.resampler
  obtain rfl := Option.some.inj (hw.symm.trans hv)
  have hconsumed := hc.consumed_iff hsr hv he hr
  rw [hexact] at hconsumed
  exact hconsumed.trans ((hrunning.phased hexact).suffices_iff p.samples)

/-- Whether the room for the output of the first packet suffices. -/
theorem Opens.suffices_iff {v : VResampler M}
    (hopen : Opens filter samplerate samplerateResampler c) (hexact : filter.Exact)
    (hsr : 0 < samplerate) (hv : c.resampler = some v) (n : Nat) :
    Suffices v n samplerate samplerateResampler ↔ (n : ℚ) ≤
      1 + (n * samplerate / samplerateResampler : Nat) *
        (1 / (samplerate / samplerateResampler)) := by
  obtain ⟨memory, w, hw, hcreate⟩ := hopen.resampler_eq
  obtain rfl := Option.some.inj (hw.symm.trans hv)
  have hratio : (0 : ℚ) < samplerate / samplerateResampler :=
    div_pos (Nat.cast_pos.mpr hsr) (Nat.cast_pos.mpr hopen.samplerateResampler_pos)
  rw [hexact, id] at hcreate
  obtain ⟨hphase, hnp, hqstep, -⟩ := VResampler.create_spec hcreate fun _ => by
    rw [hexact]
    exact div_pos (by norm_num) hratio
  have hpos : (nphase : ℚ) ≠ 0 := by norm_num [nphase]
  rw [Suffices, VResampler.position, VResampler.stride, hphase, hnp, hqstep, hexact,
    Phase.position, Nat.cast_one, zero_div, add_zero, id, div_right_comm, div_self hpos]

end Stream

/-- A filter that writes silence. -/
def silentFilter (round : ℚ → ℚ) : ResamplerFilter Unit where
  round := round
  store m _ := m
  sample _ _ _ := 0
  advance m _ := m

def silentResampler (round : ℚ → ℚ) : RxEnv (VResampler Unit) :=
  VResampler.rxEnv (fun _ => 0) (fun _ _ => 0) (silentFilter round)

/-- A mono stream of the name `"A"` from `127.0.0.1`, just opened. -/
def openedStream (round : ℚ → ℚ) (samplerate samplerateResampler : Nat) :
    VbanRxContext (VResampler Unit) :=
  { (VbanRxContext.start (.strncpy [0x41, 0]) 0x0100007F 6980 :
      VbanRxContext (VResampler Unit)) with
    nboutputs := 1
    nframes := 64
    samplerate := samplerate
    samplerateResampler := samplerateResampler
    ringbuffer := some (vbanComputeRxRingbuffer 64 0 1 0)
    resampler :=
      VResampler.create (silentFilter round) (round (samplerate / samplerateResampler)) 1 () }

/-- A packet of that stream, of `nbs + 1` float samples. -/
def streamPacket (nbs : UInt8) : VBanPacket := headerPacket (audioHeader 3 nbs 0 4 1)

theorem openedStream_opens (round : ℚ → ℚ) (samplerate samplerateResampler : Nat)
    (hpos : 0 < samplerateResampler) (hmin : 1 ≤ 64 * round (samplerate / samplerateResampler))
    (hmax : round (samplerate / samplerateResampler) ≤ 256) :
    ∃ v, (openedStream round samplerate samplerateResampler).resampler = some v ∧
      Opens (silentFilter round) samplerate samplerateResampler
        (openedStream round samplerate samplerateResampler) := by
  obtain ⟨v, hv⟩ := VResampler.create_isSome (silentFilter round) () Nat.one_ne_zero hmin hmax
  exact ⟨v, hv, rfl, rfl, hpos, ⟨(), v, hv, hv⟩, rfl⟩

/-- At equal rates every rounding opens it. -/
theorem equalStream_opens {round : ℚ → ℚ} (hround : Rounding round) {samplerate : Nat}
    (hpos : 0 < samplerate) :
    ∃ v, (openedStream round samplerate samplerate).resampler = some v ∧
      Opens (silentFilter round) samplerate samplerate
        (openedStream round samplerate samplerate) := by
  have hone : round (samplerate / samplerate) = 1 := by
    rw [div_self (Nat.cast_ne_zero.mpr hpos.ne'), hround.one]
  apply openedStream_opens _ _ _ hpos <;> rw [hone] <;> norm_num

theorem streamPacket_header (nbs : UInt8) :
    (streamPacket nbs).header = audioHeader 3 nbs 0 4 1 :=
  headerPacket_header _

theorem streamPacket_audio (nbs : UInt8) : (streamPacket nbs).protocol = vbanProtocolAudio := by
  rw [VBanPacket.protocol, streamPacket_header]
  exact (by decide : (3 : UInt8) &&& vbanProtocolMask = vbanProtocolAudio)

theorem streamPacket_enqueues (round : ℚ → ℚ) (samplerate samplerateResampler : Nat)
    (nbs : UInt8) :
    Enqueues (openedStream round samplerate samplerateResampler) (streamPacket nbs) 0x0100007F := by
  refine ⟨streamPacket_audio nbs, nofun, ?_, ?_, rfl⟩
  · rw [streamPacket_header]
    rfl
  · rw [streamPacket_header]
    exact (by decide : (1 : UInt32) ≠ 0)

theorem streamPacket_playable (nbs : UInt8) : (streamPacket nbs).Playable 1 := by
  refine ⟨streamPacket_audio nbs, audioFits_of_mono ?_ ?_, ?_⟩
  · rw [streamPacket_header]
    rfl
  · rw [streamPacket_header]
    rfl
  · rw [VBanPacket.channels, VBanPacket.sampleSize, streamPacket_header]
    exact (by decide : ((0 : UInt8).toNat + 1) * vbanBitResolutionSize.getD (4 : UInt8).toNat 0 ≠ 0)

theorem streamPacket_handled {round : ℚ → ℚ} {samplerate samplerateResampler : Nat}
    {v : VResampler Unit} (hpos : 0 < samplerateResampler)
    (hv : (openedStream round samplerate samplerateResampler).resampler = some v) (nbs : UInt8) :
    ∃ r, vbanRxHandlePacket (silentResampler round) (streamPacket nbs) 0
      (openedStream round samplerate samplerateResampler) 0x0100007F 0 [] = .ok r := by
  have hready : (openedStream round samplerate samplerateResampler).Ready 1 :=
    ⟨nofun, hv ▸ Option.some_ne_none v, Int.natCast_ne_zero.mpr hpos.ne', rfl⟩
  obtain ⟨r, hr, -⟩ := handle_ready hready (streamPacket_playable nbs)
  exact ⟨r, hr⟩

/-- At equal rates the first packet is read whole. -/
theorem first_packet_consumed : ∃ r u,
    vbanRxHandlePacket (silentResampler id) (streamPacket 63) 0 (openedStream id 48000 48000)
      0x0100007F 0 [] = .ok r ∧ r.context.resampler = some u ∧ u.inpCount = 0 := by
  have hexact : (silentFilter id).Exact := rfl
  obtain ⟨v, hv, hopen⟩ := equalStream_opens rounding_id (by decide : 0 < 48000)
  obtain ⟨r, hr⟩ := streamPacket_handled (by decide) hv 63
  have hsamples : (streamPacket 63).samples = 64 := by
    rw [VBanPacket.samples, streamPacket_header]
    rfl
  have hsuffices : Suffices v (streamPacket 63).samples 48000 48000 := by
    rw [hopen.suffices_iff hexact (by decide) hv, hsamples]
    norm_num
  obtain ⟨u, hu, hzero⟩ := (packet_consumed_iff hexact (by decide) hopen (Run.refl _) hv
    (streamPacket_enqueues id 48000 48000 63) hr).mpr hsuffices
  exact ⟨r, u, hr, hu, hzero⟩

/-- Of a packet of 25 samples at 48000 Hz the resampler to 44100 Hz leaves some. -/
theorem first_packet_not_consumed : ∃ v r,
    Opens (silentFilter id) 44100 48000 (openedStream id 44100 48000) ∧
      (openedStream id 44100 48000).resampler = some v ∧
      Enqueues (openedStream id 44100 48000) (streamPacket 24) 0x0100007F ∧
      vbanRxHandlePacket (silentResampler id) (streamPacket 24) 0 (openedStream id 44100 48000)
        0x0100007F 0 [] = .ok r ∧
      ¬∃ u, r.context.resampler = some u ∧ u.inpCount = 0 := by
  obtain ⟨v, hv, hopen⟩ := openedStream_opens id 44100 48000 (by decide) (by norm_num) (by norm_num)
  obtain ⟨r, hr⟩ := streamPacket_handled (by decide) hv 24
  have he := streamPacket_enqueues id 44100 48000 24
  have hsamples : (streamPacket 24).samples = 25 := by
    rw [VBanPacket.samples, streamPacket_header]
    rfl
  have hexact : (silentFilter id).Exact := rfl
  obtain ⟨w, hw, hrunning⟩ := hopen.invariant.resampler
  obtain rfl := Option.some.inj (hw.symm.trans hv)
  have hiff := ((hrunning.phased hexact).suffices_iff (streamPacket 24).samples).trans
    (hopen.suffices_iff hexact (by decide) hv _)
  refine ⟨w, r, hopen, hv, he, hr, ?_⟩
  rw [hopen.invariant.consumed_iff (by decide) hv he hr]
  refine fun hle => absurd (hiff.mp hle) ?_
  rw [hsamples]
  norm_num

end Vban
