import Vban.Receive.ChannelFill
import Vban.Resampler.Filter
import Vban.Transport.Capture

/-! What the resampler of a stream gets of a packet that carries frames, and what it makes of it. -/
namespace Vban

open Library

variable {M R : Type}

/-- The first channels of the frames, as they stand in the buffer of the resampler. -/
def audioOf (nboutputs : Nat) (frames : List (List CFloat)) : List CFloat :=
  frames.flatMap (·.take nboutputs)

/-- The frames of an output, as the enqueue loop takes them. -/
def framesOf (nboutputs : Nat) (out : List CFloat) : List (List UInt8) :=
  (chunks nboutputs (out.length / nboutputs) out).map floatsBytes

/-- The room for the output of `n` samples. -/
def roomFor (samplerate samplerateResampler n : Nat) : Nat :=
  (n * samplerate / samplerateResampler + 1) % 2 ^ 32

variable {env : RxEnv R} {filter : ResamplerFilter M} {ofInt : Int → CFloat}
  {div : CFloat → CFloat → CFloat} {v w : VResampler M} {block : List (List CFloat)}
  {p : SentPacket} {q : VBanPacket} {inbuf inbuf' rest : List CFloat}
  {nbinputs nboutputs samplerate samplerateResampler n i : Nat} {ringbuffer : Ringbuffer}

/-- The data of a packet in the buffer starts with what it carries. -/
theorem receive_data (buffer : VBanPacket) {audio behind : List UInt8}
    (hp : p.payload = audio ++ behind) (hlen : audio.length ≤ vbanDataMaxSize) :
    ∃ rest, (buffer.receive p).data = audio ++ rest := by
  let kept := audio ++ behind.take (vbanDataMaxSize - audio.length)
  have hkept : kept.length ≤ vbanDataMaxSize := by
    rw [List.length_append, List.length_take]
    omega
  have hcut : (p.header.toBytes ++ p.payload).take vbanProtocolMaxSize =
      (p.header.toBytes ++ kept).take vbanProtocolMaxSize := by
    have hmax : vbanProtocolMaxSize = p.header.toBytes.length + vbanDataMaxSize := by
      rw [p.header.length_toBytes]
      rfl
    have hsplit : vbanDataMaxSize = audio.length + (vbanDataMaxSize - audio.length) := by omega
    rw [hmax, List.take_length_add_append, List.take_length_add_append,
      List.take_of_length_le hkept, hp, hsplit, List.take_length_add_append]
  have hreceive : buffer.receive p =
      buffer.store 0 vbanProtocolMaxSize VBanPacket.whole_le (p.header.toBytes ++ kept) := by
    simp only [VBanPacket.receive, VBanPacket.store, hcut]
  refine ⟨behind.take (vbanDataMaxSize - audio.length) ++
    buffer.bytes.drop (vbanHeaderSize + kept.length), ?_⟩
  rw [hreceive, VBanPacket.data_received buffer p.header hkept]
  exact List.append_assoc _ _ _

/-- The bytes of a sample of a frame. -/
theorem floatOfBytes_sample {bytes : List UInt8} {c : Nat}
    (hwidth : ∀ f ∈ block, f.length = nbinputs) (hi : i < block.length) (hc : c < nbinputs) :
    (block[i])[c]? = some (floatOfBytes
      (bytesAt (block.flatMap floatsBytes ++ bytes) (i * (nbinputs * 4) + 4 * c) 4)) := by
  have hflat : block.flatten[i * nbinputs + c]? = (block[i])[c]? := by
    rw [getElem?_flatten_of_length hwidth hc, List.getElem?_eq_getElem hi]
    rfl
  have hlen : (block[i]).length = nbinputs := hwidth _ (List.getElem_mem hi)
  have hlt : c < (block[i]).length := by rwa [hlen]
  rw [List.getElem?_eq_getElem hlt] at hflat
  obtain ⟨hj, hx⟩ := List.getElem?_eq_some_iff.mp hflat
  have hbytes : block.flatMap floatsBytes = block.flatten.flatMap floatBytes := by
    have hassoc := List.flatMap_assoc (l := block) (f := id) (g := floatBytes)
    rw [List.flatMap_id] at hassoc
    exact hassoc.symm
  have hfour : ∀ x, (floatBytes x).length = 4 := fun x => length_leBytes 4 x.toNat
  have hstart : i * (nbinputs * 4) + 4 * c = (i * nbinputs + c) * 4 := by ring
  rw [hbytes, bytesAt, hstart, drop_take_flatMap hfour hj, hx, List.getElem?_eq_getElem hlt]
  exact congrArg some (ofNat_leNat_leBytes _).symm

/-- The conversion loop stores the first channels of the frames that the packet carries. -/
theorem convertFrames_bears {bytes : List UInt8} (hbit : q.header.formatBit = vbanBitfmt32Float)
    (hnbs : q.header.formatNbs.toNat + 1 = block.length)
    (hwidth : ∀ f ∈ block, f.length = nbinputs) (hle : nboutputs ≤ nbinputs)
    (hdata : q.data = block.flatMap floatsBytes ++ bytes)
    (hroom : block.length * nboutputs ≤ inbuf.length)
    (h : convertFrames env q (nbinputs * 4) nboutputs nboutputs inbuf = .ok inbuf') :
    inbuf' = audioOf nboutputs block ++ inbuf.drop (block.length * nboutputs) := by
  let stored (i : Nat) : List CFloat := (List.range nboutputs).map fun c =>
    floatOfBytes (bytesAt q.data (i * (nbinputs * 4) + 4 * c) 4)
  have hframe : ∀ i (hi : i < block.length), stored i = block[i].take nboutputs := by
    intro i hi
    apply List.ext_getElem?
    intro c
    by_cases hc : c < nboutputs
    · rw [List.getElem?_take_of_lt hc, floatOfBytes_sample hwidth hi (by omega), List.getElem?_map,
        List.getElem?_range hc, hdata]
      rfl
    · rw [List.getElem?_eq_none (by simpa [stored] using hc),
        List.getElem?_eq_none (by rw [List.length_take]; omega)]
  have hturn : ∀ i, ∀ xs, vbanSampleConvert env q.data (i * (nbinputs * 4)) q.header.formatBit
      nboutputs = .ok xs → xs = stored i := by
    intro i xs hxs
    rw [hbit, vbanSampleConvert] at hxs
    obtain ⟨size, hsize, hxs⟩ := bind_eq_ok.mp hxs
    obtain rfl : size = 4 := by
      have hfour : bitResolutionSize vbanBitfmt32Float = .ok 4 := rfl
      exact (Except.ok.inj (hfour.symm.trans hsize)).symm
    rw [if_pos rfl] at hxs
    exact convertSamples_ok hxs
  rw [convertFrames, hnbs] at h
  rw [writeFrames_of_foldlM hturn h, writeFrames_whole _ hroom]
  · congr 1
    have hmap : (List.range block.length).map stored = block.map (·.take nboutputs) := by
      apply List.ext_getElem
      · rw [List.length_map, List.length_map, List.length_range]
      · intro i hi hi'
        rw [List.length_map] at hi'
        rw [List.getElem_map, List.getElem_range, List.getElem_map, hframe i hi']
    rw [audioOf, List.flatMap_def, List.flatMap_def, hmap]
  · intro i _
    simp [stored]

theorem length_audioOf (hwidth : ∀ f ∈ block, f.length = nbinputs) (hle : nboutputs ≤ nbinputs) :
    (audioOf nboutputs block).length = block.length * nboutputs := by
  have hframe : ∀ f ∈ block, (f.take nboutputs).length = nboutputs := by
    intro f hf
    rw [List.length_take, hwidth f hf, Nat.min_eq_left hle]
  rw [audioOf, List.length_flatMap, List.map_congr_left hframe, List.map_const',
    List.sum_replicate_nat]

/-- The enqueue loop takes the frames as the resampler wrote them. -/
theorem enqueuedFrames_framesOf {out : List CFloat} (hpos : 0 < nboutputs)
    (hlen : out.length = n * nboutputs) :
    enqueuedFrames (out ++ rest) nboutputs nboutputs n = framesOf nboutputs out := by
  have hdiv : out.length / nboutputs = n := by rw [hlen, Nat.mul_div_cancel _ hpos]
  have hchunks : enqueuedFrames ((chunks nboutputs n out).flatten ++ rest) nboutputs nboutputs
      (chunks nboutputs n out).length = _ :=
    enqueuedFrames_eq (fun f hf => length_of_mem_chunks hlen.ge hf) (.inr rfl)
  rw [flatten_chunks hlen, length_chunks] at hchunks
  rw [hchunks, framesOf, hdiv]

namespace VResampler

/-- There is more behind the input that is asked for. -/
def withRest (v : VResampler M) (rest : List CFloat) : VResampler M :=
  { v with inpData := v.inpData.map (· ++ rest) }

/-- The input that is asked for is there. -/
def Fed (v : VResampler M) : Prop :=
  ∀ data, v.inpData = some data → v.inpCount * v.nchan ≤ data.length

theorem Fed.readFrame (filter : ResamplerFilter M) (rest : List CFloat) (hfed : v.Fed)
    (hpos : 0 < v.inpCount) :
    (v.withRest rest).readFrame filter = (v.readFrame filter).withRest rest ∧
      (v.readFrame filter).Fed := by
  cases hdata : v.inpData with
  | none =>
    refine ⟨?_, ?_⟩
    · simp only [VResampler.readFrame, withRest, hdata, Option.map_none]
    · intro data hsome
      simp [VResampler.readFrame, hdata] at hsome
  | some data =>
    have hlen := hfed data hdata
    have hone : v.nchan ≤ data.length := (Nat.le_mul_of_pos_left _ hpos).trans hlen
    refine ⟨?_, ?_⟩
    · simp only [VResampler.readFrame, withRest, hdata, Option.map_some,
        List.take_append_of_le_length hone, List.drop_append_of_le_length hone]
    · intro data' hsome
      obtain rfl : data.drop v.nchan = data' := by simpa [VResampler.readFrame, hdata] using hsome
      change (v.inpCount - 1) * v.nchan ≤ _
      rw [List.length_drop, Nat.sub_mul, Nat.one_mul]
      omega

theorem Fed.readFrames (filter : ResamplerFilter M) (rest : List CFloat) (hfed : v.Fed)
    (hle : n ≤ v.inpCount) :
    (v.withRest rest).readFrames filter n = (v.readFrames filter n).withRest rest ∧
      (v.readFrames filter n).Fed := by
  induction n generalizing v with
  | zero => exact ⟨rfl, hfed⟩
  | succ n ih =>
    obtain ⟨hread, hfed'⟩ := hfed.readFrame filter rest (by omega)
    rw [VResampler.readFrames, VResampler.readFrames, hread]
    apply ih hfed'
    change n ≤ v.inpCount - 1
    omega

/-- What lies behind the input is not read. -/
theorem Fed.frames (filter : ResamplerFilter M) (rest : List CFloat) (n : Nat) (hfed : v.Fed) :
    VResampler.frames filter n (v.withRest rest) =
      ((VResampler.frames filter n v).1.withRest rest, (VResampler.frames filter n v).2) := by
  induction n generalizing v with
  | zero => rfl
  | succ n ih =>
    obtain ⟨hread, hfed'⟩ := hfed.readFrames filter rest
      (Nat.min_le_right v.nread v.inpCount)
    have hread' : (v.withRest rest).readFrames filter
        (min (v.withRest rest).nread (v.withRest rest).inpCount) = _ := hread
    rw [VResampler.frames, VResampler.frames, hread']
    generalize v.readFrames filter (min v.nread v.inpCount) = u at hfed'
    by_cases hstop : u.nread ≠ 0
    · have hstop' : (u.withRest rest).nread ≠ 0 := hstop
      simp only [if_pos hstop, if_pos hstop']
      rfl
    · have hstop' : ¬(u.withRest rest).nread ≠ 0 := hstop
      have hwrite : (u.withRest rest).writeFrame filter =
          ((u.writeFrame filter).1.withRest rest, (u.writeFrame filter).2) := rfl
      have hfed'' : (u.writeFrame filter).1.Fed := hfed'
      simp only [if_neg hstop, if_neg hstop', hwrite, ih hfed'']

/-- The state that is left between two calls is the same. -/
def SameFilter (v w : VResampler M) : Prop := v.load [] 0 0 = w.load [] 0 0

theorem SameFilter.load (h : SameFilter v w) (inpData : List CFloat) (inpCount outCount : Nat) :
    v.load inpData inpCount outCount = w.load inpData inpCount outCount := by
  have hsame : v.load [] 0 0 = w.load [] 0 0 := h
  have hload := congrArg (fun u : VResampler M => u.load inpData inpCount outCount) hsame
  exact hload

theorem SameFilter.setRratio (h : SameFilter v w) (round : ℚ → ℚ) (r : ℚ) :
    SameFilter (v.setRratio round r) (w.setRratio round r) := by
  have hsame : v.load [] 0 0 = w.load [] 0 0 := h
  have hset := congrArg (fun u : VResampler M => u.setRratio round r) hsame
  exact hset

/-- A call only reads the input that it is told of. -/
theorem SameFilter.process (filter : ResamplerFilter M) (rest : List CFloat) (outCount : Nat)
    (h : SameFilter v w) {audio : List CFloat} {inpCount : Nat}
    (hfed : inpCount * w.nchan ≤ audio.length) :
    let left := (v.load (audio ++ rest) inpCount outCount).process filter
    let right := (w.load audio inpCount outCount).process filter
    SameFilter left.1 right.1 ∧ left.1.outCount = right.1.outCount ∧ left.2 = right.2 := by
  have hloaded : (w.load audio inpCount outCount).Fed := by
    intro data hdata
    obtain rfl := Option.some.inj hdata
    exact hfed
  have hleft : v.load (audio ++ rest) inpCount outCount =
      (w.load audio inpCount outCount).withRest rest := h.load _ _ _
  have hframes := hloaded.frames filter rest outCount
  have hprocess : (v.load (audio ++ rest) inpCount outCount).process filter = _ :=
    hleft ▸ hframes
  rw [hprocess]
  exact ⟨rfl, rfl, rfl⟩

end VResampler

theorem VResampler.SameFilter.nchan_eq (h : v.SameFilter w) : v.nchan = w.nchan := by
  have hsame : v.load [] 0 0 = w.load [] 0 0 := h
  have hnchan := congrArg VResampler.nchan hsame
  exact hnchan

theorem StreamInvariant.roomFor_eq {c : VbanRxContext (VResampler M)}
    (hc : StreamInvariant filter samplerate samplerateResampler c) (n : Nat) :
    (outbuflenFor c n % 2 ^ 32).toNat = roomFor samplerate samplerateResampler n := by
  have hrate := hc.samplerate_eq
  have hresampler := hc.samplerateResampler_eq
  rw [outbuflenFor, hrate, hresampler, ← Int.natCast_mul, ← Int.ofNat_tdiv, roomFor]
  omega

/-- What a stream does with a packet that carries these frames: its resampler processes their first
channels, and the ring is offered what it makes of them. -/
theorem StreamInvariant.heard {c : VbanRxContext (VResampler M)} {a : ResampledAudio (VResampler M)}
    {buffer : VBanPacket} (hc : StreamInvariant filter samplerate samplerateResampler c)
    (hp : p.Bears nbinputs block) (hle : c.nboutputs ≤ nbinputs) (hv : c.resampler = some v)
    (hsame : v.SameFilter w)
    (h : enqueueAudio (VResampler.rxEnv ofInt div filter) c (buffer.receive p) ringbuffer =
      .ok a) :
    let result := (w.load (audioOf c.nboutputs block) block.length
      (roomFor samplerate samplerateResampler block.length)).process filter
    a.frames = framesOf c.nboutputs result.2 ∧ a.context.nboutputs = c.nboutputs ∧
      ∃ u, a.context.resampler = some u ∧ u.SameFilter result.1 := by
  intro result
  have hheader : (buffer.receive p).header = p.header := receive_header buffer p
  have hsamples : (buffer.receive p).samples = block.length := by
    rw [VBanPacket.samples, hheader, hp.formatNbs]
  obtain ⟨behind, hpayload⟩ := hp.payload
  obtain ⟨bytes, hdata⟩ := receive_data buffer hpayload (by
    rw [length_flatMap_floatsBytes hp.width]
    exact hp.fits)
  obtain ⟨u, hu, hrunning⟩ := hc.resampler
  obtain rfl := Option.some.inj (hv.symm.trans hu)
  obtain ⟨c', hresize⟩ := hc.exists_resize (buffer.receive p)
  obtain ⟨-, hnboutputs, -, houtbuflen, hfit⟩ := hc.resize hresize
  obtain ⟨size, inbuf, ringbuffer', hsize, hinbuf, rfl⟩ := hc.enqueueAudio_eq hv hresize h
  have hroom : outputRoom c (buffer.receive p) =
      roomFor samplerate samplerateResampler block.length := by
    rw [← resizeResamplerBuffers_outbuflen hresize, houtbuflen, hc.roomFor_eq, hsamples]
  have hchannels : (buffer.receive p).channels = nbinputs := by
    rw [VBanPacket.channels, hheader, hp.formatNbc]
  have hnbc : (if nbinputs < c.nboutputs then nbinputs else c.nboutputs) = c.nboutputs :=
    if_neg (Nat.not_lt.mpr hle)
  obtain rfl : size = 4 := by
    have hfour : bitResolutionSize vbanBitfmt32Float = .ok 4 := rfl
    rw [hheader, hp.formatBit] at hsize
    exact (Except.ok.inj (hfour.symm.trans hsize)).symm
  rw [hchannels, hnbc, hnboutputs] at hinbuf
  have haudio : inbuf = audioOf c.nboutputs block ++
      c'.resamplerInbuf.drop (block.length * c.nboutputs) := by
    refine convertFrames_bears ?_ ?_ hp.width hle hdata ?_ hinbuf
    · rw [hheader, hp.formatBit]
    · rw [hheader, hp.formatNbs]
    · rw [← hsamples, ← hnboutputs]
      exact hfit.inbuf_le
  have hfed : block.length * w.nchan ≤ (audioOf c.nboutputs block).length := by
    rw [length_audioOf hp.width hle, ← hsame.nchan_eq, hrunning.nchan_eq]
  obtain ⟨hfilter, -, hout⟩ := hsame.process filter
    (c'.resamplerInbuf.drop (block.length * c.nboutputs))
    (roomFor samplerate samplerateResampler block.length) hfed
  rw [← haudio] at hfilter hout
  have hpos : 0 < c.nboutputs := hrunning.nchan_eq ▸ hrunning.nchan_pos
  have hprocessed : VResampler.Processed filter.round _
      (roomFor samplerate samplerateResampler block.length) _ _ :=
    VResampler.process_processed filter (v.load inbuf block.length
      (roomFor samplerate samplerateResampler block.length))
  have hwidth : (if (v.load inbuf block.length
      (roomFor samplerate samplerateResampler block.length)).outData then v.nchan else 0) =
        c.nboutputs := hrunning.nchan_eq
  rw [hsamples, hroom]
  refine ⟨?_, hnboutputs, _, rfl, hfilter⟩
  simp only [hchannels, hnbc, hnboutputs, overwrite_zero]
  rw [enqueuedFrames_framesOf hpos (hprocessed.length_eq.trans (congrArg _ hwidth)), hout]

end Vban
