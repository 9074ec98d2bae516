import Mathlib.Data.List.Forall2
import Vban.Emit.Redundancy
import Vban.Library.Chunks
import Vban.Receive.Resampling

/-! What the JACK emitter captures and what its packets carry, for float samples sent without
slicing. -/
namespace Vban

open Library

/-- A period of JACK: its frames, with a float for each channel, and what is sent of it. -/
structure Capture where
  frames : List (List CFloat)
  sent : List SentPacket

/-- The process callback on captured frames, which `vban_sample_convert` leaves as they are. -/
inductive CaptureStep : Emitter → Capture → Emitter → Prop
  | period {e : Emitter} {refusals : Refusals} {frames : List (List CFloat)} {s : Sending}
      (hready : e.ending = .returned) (hformat : e.context.vbanOutputFormat = vbanBitfmt32Float)
      (hn : frames.length < 2 ^ 16) (hframes : ∀ f ∈ frames, f.length = e.context.nbinputs)
      (h : onTxProcess refusals frames.length (frames.flatMap floatsBytes) e.context = some s) :
      CaptureStep e ⟨frames, s.sent⟩
        { context := s.context
          sliced := if e.context.nframes = frames.length then e.sliced else e.context.slicing
          armed := e.armed || e.context.slicing
          ending := if e.context.slicing then e.ending else s.ending }

/-- The period is halved without rest until a part fits into a packet. -/
def SplitsEvenly (n fs : Nat) : Prop :=
  1 ≤ n ∧ n * fs ≤ 65535 ∧
    ∃ k, 2 ^ k ∣ n ∧ n / 2 ^ k * fs ≤ vbanDataMaxSize ∧ n / 2 ^ k ≤ 256

/-- The context is tuned to a period that splits evenly. -/
structure VbanTxContext.Even (c : VbanTxContext) : Prop where
  total : c.pacnum * c.vbanNframesPac = c.nframes
  length_txbuf : c.txbuf.length = c.nframes * c.frameSize
  whole : c.pacdatalen = c.vbanNframesPac * c.frameSize
  fits : c.pacdatalen ≤ vbanDataMaxSize
  formatNbs : c.header.formatNbs.toNat + 1 = c.vbanNframesPac

/-- The packet carries the frames, and says so. -/
structure SentPacket.Bears (nbinputs : Nat) (frames : List (List CFloat)) (p : SentPacket) :
    Prop where
  formatBit : p.header.formatBit = vbanBitfmt32Float
  formatNbs : p.header.formatNbs.toNat + 1 = frames.length
  formatNbc : p.header.formatNbc.toNat + 1 = nbinputs
  width : ∀ f ∈ frames, f.length = nbinputs
  payload : ∃ behind, p.payload = frames.flatMap floatsBytes ++ behind
  fits : frames.length * (nbinputs * 4) ≤ vbanDataMaxSize

/-- An emitter that sends the floats of at most 256 channels. -/
structure VbanTxContext.SendsFloats (o : VbanTxContext) : Prop where
  created : o.Created
  format : o.vbanOutputFormat = vbanBitfmt32Float
  nbinputs_pos : 1 ≤ o.nbinputs
  nbinputs_le : o.nbinputs ≤ 256
  redundancy : o.redundancy ≠ 255

/-- The frames captured so far stand in the packets, block by block. -/
structure Emitter.HasCaptured (o : VbanTxContext) (rate : Nat) (blocks : List (List (List CFloat)))
    (packets sent : List SentPacket) (e : Emitter) : Prop where
  hasSent : e.HasSent o rate packets sent
  ending : e.ending = .returned
  slicing : e.context.slicing = false
  even : SplitsEvenly e.context.nframes e.context.frameSize → e.context.Even
  bears : List.Forall₂ (SentPacket.Bears o.nbinputs) blocks packets

variable {o c d t : VbanTxContext} {e e' e₀ : Emitter} {l : Capture} {ls : List Capture}
  {rate bufsize n nbinputs : Nat} {timer : Bool} {refusals : Refusals}
  {packets sent : List SentPacket} {frames : List (List CFloat)}
  {blocks : List (List (List CFloat))} {payloads : List (List UInt8)} {h : VBanHeader}

theorem length_flatMap_floatsBytes (hframes : ∀ f ∈ frames, f.length = nbinputs) :
    (frames.flatMap floatsBytes).length = frames.length * (nbinputs * 4) := by
  rw [List.length_flatMap, List.map_congr_left (g := fun _ => nbinputs * 4)]
  · rw [List.map_const', List.sum_replicate_nat]
  · intro f hf
    rw [floatsBytes_length, hframes f hf]

/-- A captured period is a period of samples. -/
theorem CaptureStep.emitterStep (hs : CaptureStep e l e') :
    ∃ t, EmitterStep e t e' ∧ t.sent = l.sent := by
  cases hs with
  | period hready hformat hn hframes h =>
    refine ⟨_, .process (.inl hready) hn ?_ h, rfl⟩
    rw [length_flatMap_floatsBytes hframes, VbanTxContext.frameSize, VbanTxContext.sampleSize,
      hformat]
    rfl

theorem tuneTxPackets_even (hslicing : c.slicing = false) (hred : c.redundancy ≠ 255)
    (hfs : 0 < c.frameSize) (hn : c.nframes < 2 ^ 16) (hsplit : SplitsEvenly c.nframes c.frameSize)
    (h : tuneTxPackets c = some t) : t.Even := by
  obtain ⟨hpos, hlen, j, hdvd, hdata, hframes⟩ := hsplit
  obtain ⟨k, hk, hle⟩ := exists_halvedBy hn
  have hspec := tuneTxPackets_spec hk hle h
  have hmax : c.maxPacketFrames = 256 := by
    rw [VbanTxContext.maxPacketFrames, hslicing]
    rfl
  have hkj : k ≤ j := by
    apply hk.le
    rw [fits_iterate_iff, period_mod hlen, hmax,
      ((mul_div_eq_iff hfs (Nat.two_pow_pos j)).mpr hdvd).2]
    exact ⟨hdata, hframes⟩
  have hdvd' : 2 ^ k ∣ c.nframes := (Nat.pow_dvd_pow 2 hkj).trans hdvd
  have hparts := hspec.partitions hpos hred hlen hk.1 hdvd'
  refine ⟨?_, ?_, ?_, hparts.fits, hparts.formatNbs⟩
  · rw [hspec.pacnum_eq, hspec.vbanNframesPac_eq, hspec.nframes_eq, Nat.mul_div_cancel' hdvd']
  · rw [hspec.txbuf_eq, List.length_replicate, hspec.nframes_eq, hspec.frameSize_eq]
  · rw [hparts.whole, hspec.frameSize_eq, VbanTxContext.frameSize, Nat.mul_assoc]

/-- What a period is sent from. -/
structure Loaded (c : VbanTxContext) (samples : List UInt8) (n : Nat) (d : VbanTxContext) :
    Prop where
  stream : SameStream c d
  even : d.Even
  nframes_eq : d.nframes = n
  slicing_eq : d.slicing = false
  nuFrame_eq : d.header.nuFrame = c.header.nuFrame
  txbuf_eq : d.txbuf = samples

/-- A context that is tuned to the samples takes all of them. -/
theorem VbanTxContext.Even.load {samples : List UInt8} (heven : t.Even)
    (hsamples : samples.length = t.nframes * t.frameSize) :
    overwrite t.txbuf 0 samples = samples ∧ VbanTxContext.Even { t with txbuf := samples } := by
  constructor
  · rw [overwrite_zero, List.drop_of_length_le, List.append_nil]
    rw [heven.length_txbuf, hsamples]
  · exact ⟨heven.total, hsamples, heven.whole, heven.fits, heven.formatNbs⟩

theorem onTxProcess_loaded {samples : List UInt8} {s : Sending} (hslicing : c.slicing = false)
    (hred : c.redundancy ≠ 255) (hfs : 0 < c.frameSize)
    (heven : SplitsEvenly c.nframes c.frameSize → c.Even) (hn : n < 2 ^ 16)
    (hsplit : SplitsEvenly n c.frameSize) (hsamples : samples.length = n * c.frameSize)
    (h : onTxProcess refusals n samples c = some s) :
    ∃ d, Loaded c samples n d ∧ s = vbanSendTxbuffer refusals d := by
  by_cases hsame : c.nframes = n
  · rw [onTxProcess_same refusals samples hsame hslicing] at h
    subst hsame
    obtain ⟨hover, heven'⟩ := (heven hsplit).load hsamples
    rw [hover] at h
    exact ⟨{ c with txbuf := samples }, ⟨.update c _ _ _ _ _ _, heven', rfl, hslicing, rfl, rfl⟩,
      (Option.some.inj h).symm⟩
  · obtain ⟨t, ht, rfl⟩ := Option.map_eq_some_iff.mp h
    simp only [if_neg hsame] at ht
    have htuned : t.Even := by
      refine tuneTxPackets_even ?_ ?_ ?_ ?_ ?_ ht
      · exact hslicing
      · exact hred
      · exact hfs
      · exact hn
      · exact hsplit
    obtain ⟨k, hspec, -⟩ := tuneTxPackets_splits hn ht
    have hframe : t.frameSize = c.frameSize := hspec.frameSize_eq
    have hoff : t.slicing = false := by
      rw [hspec.slicing_eq]
      simp [hslicing]
    have hlen : samples.length = t.nframes * t.frameSize := by
      rw [hsamples, hspec.nframes_eq, hframe]
    obtain ⟨hover, heven'⟩ := htuned.load hlen
    refine ⟨{ t with txbuf := samples }, ⟨?_, heven', hspec.nframes_eq, hoff, ?_, rfl⟩, ?_⟩
    · exact (SameStream.update c _ _ _ _ _ _).trans (hspec.sameStream.trans
        (.update t _ _ _ _ _ _))
    · simp only [hspec.header_eq]
    · simp only [hover, if_neg (Bool.eq_false_iff.mp hoff)]

/-- The pieces of the buffer are the blocks of frames. -/
theorem Loaded.pieces (h : Loaded c (frames.flatMap floatsBytes) n d)
    (hwidth : ∀ f ∈ frames, f.length = nbinputs) (hfs : d.frameSize = nbinputs * 4)
    (hn : frames.length = n) : (List.range' 0 d.pacnum).map d.piece =
      (chunks d.vbanNframesPac d.pacnum frames).map fun block => block.flatMap floatsBytes := by
  have htotal : frames.length = d.pacnum * d.vbanNframesPac := by
    rw [h.even.total, h.nframes_eq, hn]
  have hbytes : d.txbuf.length = d.pacnum * d.pacdatalen := by
    rw [h.even.length_txbuf, h.even.whole, ← Nat.mul_assoc, h.even.total]
  apply List.eq_iff_flatten_eq.mpr
  constructor
  · have hcut := List.flatMap_assoc (l := chunks d.vbanNframesPac d.pacnum frames) (f := id)
      (g := floatsBytes)
    rw [List.flatMap_id, flatten_chunks htotal] at hcut
    rw [flatten_pieces, ← hbytes, List.take_length, h.txbuf_eq, ← List.flatMap_def]
    exact hcut
  · rw [List.map_map, List.map_map]
    have hpiece : ∀ i ∈ List.range' 0 d.pacnum, (List.length ∘ d.piece) i = d.pacdatalen := by
      intro i hi
      apply length_piece
      rw [hbytes]
      have hlt : i < d.pacnum := by simpa using hi
      exact Nat.mul_le_mul_right _ hlt
    have hblock : ∀ block ∈ chunks d.vbanNframesPac d.pacnum frames,
        (List.length ∘ fun block => block.flatMap floatsBytes) block = d.pacdatalen := by
      intro block hblock
      rw [Function.comp_apply, length_flatMap_floatsBytes fun f hf =>
        hwidth f (mem_of_mem_chunks hblock hf), length_of_mem_chunks htotal.ge hblock,
        h.even.whole, hfs]
    rw [List.map_congr_left hpiece, List.map_congr_left hblock, List.map_const', List.map_const',
      length_chunks, List.length_range']

theorem numbered_bears (trailer : List UInt8) (hbit : h.formatBit = vbanBitfmt32Float)
    (hnbc : h.formatNbc.toNat + 1 = nbinputs)
    (hblocks : ∀ block ∈ blocks, h.formatNbs.toNat + 1 = block.length ∧
      (∀ f ∈ block, f.length = nbinputs) ∧ block.length * (nbinputs * 4) ≤ vbanDataMaxSize) :
    List.Forall₂ (SentPacket.Bears nbinputs) blocks
      (numbered h ((blocks.map fun block => block.flatMap floatsBytes).map (· ++ trailer))) := by
  induction blocks generalizing h with
  | nil => exact .nil
  | cons block blocks ih =>
    obtain ⟨⟨hnbs, hwidth, hfits⟩, hrest⟩ := List.forall_mem_cons.mp hblocks
    exact .cons ⟨hbit, hnbs, hnbc, hwidth, ⟨trailer, rfl⟩, hfits⟩ (ih hbit hnbc hrest)

/-- Sending numbered packets adds them, in their copies. -/
theorem Emitter.HasSent.numbered {data : List UInt8} (hi : e.HasSent o rate packets sent)
    (hd : SameStream e.context d) (hnu : d.header.nuFrame = e.context.header.nuFrame)
    (hcontext : e'.context =
      { d with data := data, header := d.header.advance payloads.length })
    (hending : e'.ending = .returned) :
    e'.HasSent o rate (packets ++ Vban.numbered d.header payloads)
      (sent ++ d.withCopies refusals (Vban.numbered d.header payloads)) := by
  have hstream := hi.stream.trans hd
  have hredundancy : d.redundancy = o.redundancy := hstream.redundancy_eq
  have hstart : d.header.nuFrame = o.header.nuFrame + UInt32.ofNat packets.length :=
    hnu.trans hi.nuFrame_eq
  refine ⟨?_, ?_, ?_, ?_, ?_, ?_⟩
  · rw [hcontext]
    exact hstream.trans (.update d _ _ _ _ _ _)
  · exact hi.consecutive.append (hstart ▸ numbered_consecutive)
  · rw [← hredundancy]
    exact (hredundancy ▸ hi.copies).append (withCopies_copies _)
  · intro p hp
    rcases List.mem_append.mp hp with hp | hp
    · exact hi.format p hp
    · obtain ⟨i, hi⟩ := List.mem_iff_getElem?.mp hp
      rw [numbered_getElem? hi]
      exact ⟨hstream.formatSR_eq, hstream.streamname_eq⟩
  · rw [hcontext, List.length_append, length_numbered, UInt32.ofNat_add, ← UInt32.add_assoc,
      ← hstart]
    rfl
  · rw [hending]
    exact nofun

/-- A period that splits evenly goes out in blocks of whole frames. -/
theorem CaptureStep.hasCaptured (ho : o.SendsFloats) (hi : e.HasCaptured o rate blocks packets sent)
    (hs : CaptureStep e l e') (hsplit : SplitsEvenly l.frames.length (o.nbinputs * 4)) :
    ∃ more morePackets, more.flatten = l.frames ∧
      e'.HasCaptured o rate (blocks ++ more) (packets ++ morePackets) (sent ++ l.sent) := by
  cases hs with
  | @period refusals frames s hready hformat hn hframes h =>
    have hstream := hi.hasSent.stream
    have hnb : e.context.nbinputs = o.nbinputs := hstream.nbinputs_eq
    have hfs : e.context.frameSize = o.nbinputs * 4 := by
      rw [VbanTxContext.frameSize, VbanTxContext.sampleSize, hnb, hformat]
      rfl
    have hpos : 0 < e.context.frameSize := by
      rw [hfs]
      exact Nat.mul_pos ho.nbinputs_pos (by decide)
    rw [hnb] at hframes
    obtain ⟨d, hd, rfl⟩ := onTxProcess_loaded hi.slicing
      (hstream.redundancy_eq.trans_ne ho.redundancy) hpos hi.even hn (hfs ▸ hsplit)
      (by rw [length_flatMap_floatsBytes hframes, hfs]) h
    have hstream' := hstream.trans hd.stream
    have hfs' : d.frameSize = o.nbinputs * 4 := by
      rw [VbanTxContext.frameSize, VbanTxContext.sampleSize, hstream'.nbinputs_eq,
        hstream'.vbanOutputFormat_eq, ho.format]
      rfl
    have hlen : d.pacnum * d.pacdatalen = d.txbuf.length := by
      rw [hd.even.length_txbuf, hd.even.whole, ← Nat.mul_assoc, hd.even.total]
    have htotal : frames.length = d.pacnum * d.vbanNframesPac := by
      rw [hd.even.total, hd.nframes_eq]
    obtain ⟨data, ret, hsend⟩ := vbanSendTxbuffer_spec refusals
      (hstream'.redundancy_eq.trans_ne ho.redundancy) hlen.le
    rw [hd.pieces hframes hfs' rfl] at hsend
    have hbit : d.header.formatBit = vbanBitfmt32Float := by
      rw [hstream'.formatBit_eq]
      exact ho.created.formatBit_eq.trans ho.format
    have hnbc : d.header.formatNbc.toNat + 1 = o.nbinputs := by
      rw [hstream'.formatNbc_eq]
      exact (congrArg (·.toNat + 1) ho.created.formatNbc_eq).trans
        (formatNbs_add_one ho.nbinputs_pos ho.nbinputs_le)
    have hblocks : ∀ block ∈ chunks d.vbanNframesPac d.pacnum frames,
        d.header.formatNbs.toNat + 1 = block.length ∧ (∀ f ∈ block, f.length = o.nbinputs) ∧
          block.length * (o.nbinputs * 4) ≤ vbanDataMaxSize := by
      intro block hblock
      have hsize := length_of_mem_chunks htotal.ge hblock
      refine ⟨hd.even.formatNbs.trans hsize.symm, ?_, ?_⟩
      · intro f hf
        exact hframes f (mem_of_mem_chunks hblock hf)
      · rw [hsize, ← hfs', ← hd.even.whole]
        exact hd.even.fits
    have hbears := numbered_bears (d.trailerBytes d.passportLength d.trailerLength) hbit hnbc
      hblocks
    refine ⟨chunks d.vbanNframesPac d.pacnum frames, _, flatten_chunks htotal, ?_, ?_, ?_, ?_,
      List.rel_append hi.bears hbears⟩
    · rw [hsend]
      apply hi.hasSent.numbered hd.stream hd.nuFrame_eq
      · rw [List.length_map, List.length_map, length_chunks]
      · simp [hi.slicing]
    · simp [hi.slicing, hsend]
    · rw [hsend]
      exact hd.slicing_eq
    · intro _
      rw [hsend]
      exact ⟨hd.even.total, hd.even.length_txbuf, hd.even.whole, hd.even.fits, hd.even.formatNbs⟩

theorem emitterStart_hasCaptured (ho : o.SendsFloats) (hslicing : o.slicing = false)
    (h₀ : emitterStart rate bufsize timer o = some e₀) : e₀.HasCaptured o rate [] [] [] := by
  have hsent := emitterStart_hasSent h₀
  obtain ⟨t, ht, rfl⟩ := Option.map_eq_some_iff.mp h₀
  have hn : bufsize % 2 ^ 16 < 2 ^ 16 := Nat.mod_lt _ (by decide)
  obtain ⟨k, hspec, -⟩ := tuneTxPackets_splits hn ht
  have hoff : t.slicing = false := by
    rw [hspec.slicing_eq]
    simp [hslicing]
  have hfs : 0 < t.frameSize := by
    rw [VbanTxContext.frameSize, VbanTxContext.sampleSize, hspec.nbinputs_eq,
      hspec.vbanOutputFormat_eq, ho.format]
    exact Nat.mul_pos ho.nbinputs_pos (by decide)
  refine ⟨hsent, rfl, ?_, ?_, .nil⟩
  · simp [hoff]
  · intro hsplit
    have heven : t.Even := by
      refine tuneTxPackets_even ?_ ?_ ?_ ?_ ?_ ht
      · exact hslicing
      · exact ho.redundancy
      · exact hspec.frameSize_eq ▸ hfs
      · exact hn
      · rw [← hspec.nframes_eq, ← hspec.frameSize_eq]
        exact hsplit
    exact ⟨heven.total, heven.length_txbuf, heven.whole, heven.fits, heven.formatNbs⟩

/-- All that is captured is in the packets, and all that is sent is copies of the packets. -/
theorem capture_run (ho : o.SendsFloats) (hslicing : o.slicing = false)
    (h₀ : emitterStart rate bufsize timer o = some e₀) (hrun : Run CaptureStep e₀ ls e)
    (hsplit : ∀ l ∈ ls, SplitsEvenly l.frames.length (o.nbinputs * 4)) :
    ∃ blocks packets, blocks.flatten = ls.flatMap (·.frames) ∧
      e.HasCaptured o rate blocks packets (ls.flatMap (·.sent)) := by
  induction hrun with
  | refl => exact ⟨[], [], rfl, emitterStart_hasCaptured ho hslicing h₀⟩
  | snoc _ hstep ih =>
    rw [List.forall_mem_append] at hsplit
    obtain ⟨blocks, packets, hflat, hi⟩ := ih hsplit.1
    obtain ⟨more, morePackets, hmore, h⟩ := hstep.hasCaptured ho hi
      (hsplit.2 _ (List.mem_singleton_self _))
    refine ⟨blocks ++ more, packets ++ morePackets, ?_, ?_⟩
    · rw [List.flatten_append, hflat, hmore, List.flatMap_append, List.flatMap_singleton]
    · rw [List.flatMap_append, List.flatMap_singleton]
      exact h

/-- An unsliced emitter captures any frames. -/
theorem Emitter.HasCaptured.exists_period (ho : o.SendsFloats)
    (hi : e.HasCaptured o rate blocks packets sent) (hpos : 1 ≤ frames.length)
    (hn : frames.length < 2 ^ 16) (hframes : ∀ f ∈ frames, f.length = o.nbinputs) :
    ∃ l e', CaptureStep e l e' ∧ l.frames = frames := by
  have hnb : e.context.nbinputs = o.nbinputs := hi.hasSent.stream.nbinputs_eq
  obtain ⟨s, hs⟩ : ∃ s, onTxProcess (fun _ _ => 0) frames.length (frames.flatMap floatsBytes)
      e.context = some s := by
    by_cases hsame : e.context.nframes = frames.length
    · exact ⟨_, onTxProcess_same _ _ hsame hi.slicing⟩
    · let c := { e.context with nframes := frames.length }
      have hslicing : c.slicing = false := hi.slicing
      obtain ⟨t, ht⟩ := (tuneTxPackets_isSome_iff (c := c) hpos).mpr fun h => by
        simp [hslicing] at h
      have hoff : ¬e.context.slicing = true := Bool.eq_false_iff.mp hi.slicing
      simp only [onTxProcess, if_neg hsame, if_neg hoff]
      exact ⟨_, congrArg (Option.map _) ht⟩
  have hformat : e.context.vbanOutputFormat = vbanBitfmt32Float :=
    hi.hasSent.stream.vbanOutputFormat_eq.trans ho.format
  exact ⟨_, _, .period hi.ending hformat hn (hnb ▸ hframes) hs, rfl⟩

/-- So it captures any periods that split evenly. -/
theorem Emitter.HasCaptured.exists_run (ho : o.SendsFloats)
    (hi : e.HasCaptured o rate blocks packets sent) (periods : List (List (List CFloat)))
    (hperiods : ∀ frames ∈ periods, frames.length < 2 ^ 16 ∧
      (∀ f ∈ frames, f.length = o.nbinputs) ∧ SplitsEvenly frames.length (o.nbinputs * 4)) :
    ∃ ls e', Run CaptureStep e ls e' ∧ ls.map (·.frames) = periods := by
  induction periods generalizing e blocks packets sent with
  | nil => exact ⟨[], e, .refl e, rfl⟩
  | cons frames periods ih =>
    obtain ⟨⟨hn, hframes, hsplit⟩, hrest⟩ := List.forall_mem_cons.mp hperiods
    obtain ⟨l, e', hstep, rfl⟩ := hi.exists_period ho hsplit.1 hn hframes
    obtain ⟨_, _, -, hi'⟩ := hstep.hasCaptured ho hi hsplit
    obtain ⟨ls, e'', hrun, hls⟩ := ih hi' hrest
    exact ⟨l :: ls, e'', hrun.cons hstep, congrArg (l.frames :: ·) hls⟩

end Vban
