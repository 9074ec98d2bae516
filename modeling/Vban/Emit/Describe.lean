import Vban.Emit.Emitter
import Vban.Emit.PacketLength

/-! When the packets of the JACK emitter describe their own content. -/
namespace Vban

open Library

/-- The header says what is played and what is carried. -/
structure SentPacket.Describes (p : SentPacket) (samplerate nbinputs : Nat) : Prop where
  rate : vbanSRList[(p.header.formatSR &&& vbanSrMask).toNat]? = some samplerate
  length : vbanBitResolutionSize.getD p.header.formatBit.toNat 0 *
    (p.header.formatNbc.toNat + 1) * (p.header.formatNbs.toNat + 1) = p.payload.length
  channels : p.header.formatNbc.toNat + 1 = nbinputs

/-- The most frames of a packet, by whether `SLICING` is set at the tuning. -/
def packetLimit (sliced : Bool) (samplerate : Int) : Nat :=
  if sliced then
    if samplerate < 88200 then 64
    else if samplerate < 176400 then 128
    else 256
  else 256

/-- Whether the timer thread sends the audio. -/
def VbanTxContext.slicesAt (samplerate : Nat) (timer : Bool) (o : VbanTxContext) : Bool :=
  o.slicing && decide ((samplerate : Int) < 352800) && timer

/-- What `main` makes of any options. -/
structure VbanTxContext.Created (o : VbanTxContext) : Prop where
  formatSR_eq : o.header.formatSR = vbanSrMask &&& UInt8.ofInt (vbanGetFormatSR o.samplerate)
  formatBit_eq : o.header.formatBit = o.vbanOutputFormat
  formatNbc_eq : o.header.formatNbc = UInt8.ofNat (o.nbinputs + 255)
  format_mem : o.vbanOutputFormat ∈ [vbanBitfmt16Int, vbanBitfmt24Int, vbanBitfmt32Float]
  xlen_eq : o.xlen = 0 ∨ o.xlen = 6
  length_data : o.data.length = vbanDataMaxSize
  vban_eq : o.header.vban = vbanHeaderFourc

variable {o c d t : VbanTxContext} {e e' : Emitter} {l : Transmission} {p : SentPacket}
  {opts : List EmitterOption} {found : UInt32} {rate bufsize trailer i : Nat} {sr : Int}
  {timer sliced : Bool}
  {refusals : Refusals}

/-- What every option keeps. -/
structure VbanTxContext.Sound (c : VbanTxContext) : Prop where
  format_mem : c.vbanOutputFormat ∈ [vbanBitfmt16Int, vbanBitfmt24Int, vbanBitfmt32Float]
  xlen_eq : c.xlen = 0 ∨ c.xlen = 6
  length_data : c.data.length = vbanDataMaxSize

theorem EmitterOption.apply_sound {opt : EmitterOption} (hc : c.Sound) (h : opt.apply c = some d) :
    d.Sound := by
  cases opt with
  | ipaddr length addr =>
    rw [apply] at h
    split_ifs at h <;> exact Option.some.inj h ▸ ⟨hc.1, hc.2, hc.3⟩
  | format is16 is24 =>
    refine Option.some.inj h ▸ ⟨?_, hc.2, hc.3⟩
    simp only
    split_ifs <;> decide
  | extended passport =>
    cases passport with
    | none => exact Option.some.inj h ▸ ⟨hc.1, .inl rfl, hc.3⟩
    | some passport => exact Option.some.inj h ▸ ⟨hc.1, .inr rfl, hc.3⟩
  | help => exact nomatch h
  | port | streamname | samplerate | bufsize | nbchannels | redundancy | slicing | other =>
    exact Option.some.inj h ▸ ⟨hc.1, hc.2, hc.3⟩

theorem emitterMain_created (h : emitterMain found opts = some o) : o.Created := by
  obtain ⟨c, hc, rfl⟩ := Option.map_eq_some_iff.mp h
  rw [getEmitterOptions] at hc
  split_ifs at hc
  have hsound : c.Sound := foldlM_invariant hc (fun _ _ _ hs ht => EmitterOption.apply_sound hs ht)
    ⟨by decide, .inl rfl, List.length_replicate⟩
  have hscan : (c.scanReceptor found).Sound := by
    rw [VbanTxContext.scanReceptor]
    split_ifs
    · exact ⟨hsound.1, hsound.2, hsound.3⟩
    · exact hsound
  exact ⟨rfl, rfl, rfl, hscan.1, hscan.2, hscan.3, rfl⟩

/-- The rate index of the header is the index of the rate that `main` was told. -/
theorem vbanGetFormatSR_lookup {host : Int} (hrate : rate ∈ vbanSRList) :
    vbanSRList[((vbanSrMask &&& UInt8.ofInt (vbanGetFormatSR host)) &&& vbanSrMask).toNat]? =
      some rate ↔ host = rate := by
  have htable : ∀ a ∈ vbanSRList, ∀ b ∈ vbanSRList,
      vbanSRList[((vbanSrMask &&& UInt8.ofInt (vbanGetFormatSR a)) &&& vbanSrMask).toNat]? =
        some b ↔ (a : Int) = b := by decide
  by_cases hmem : ∃ a : Nat, a ∈ vbanSRList ∧ (a : Int) = host
  · obtain ⟨a, ha, rfl⟩ := hmem
    exact htable a ha rate hrate
  · have hnone : vbanGetFormatSR host = -1 := by
      rw [vbanGetFormatSR, List.findIdx?_eq_none_iff.mpr]
      intro a ha
      exact decide_eq_false fun heq => hmem ⟨a, ha, heq⟩
    have hlast : vbanSRList[((vbanSrMask &&& UInt8.ofInt (-1)) &&& vbanSrMask).toNat]? = none := rfl
    rw [hnone, hlast]
    exact iff_of_false nofun fun heq => hmem ⟨rate, hrate, heq.symm⟩

/-- What no step of the emitter changes. -/
structure SameStream (c d : VbanTxContext) : Prop where
  formatSR_eq : d.header.formatSR = c.header.formatSR
  formatBit_eq : d.header.formatBit = c.header.formatBit
  formatNbc_eq : d.header.formatNbc = c.header.formatNbc
  streamname_eq : d.header.streamname = c.header.streamname
  nbinputs_eq : d.nbinputs = c.nbinputs
  redundancy_eq : d.redundancy = c.redundancy
  samplerate_eq : d.samplerate = c.samplerate
  vbanOutputFormat_eq : d.vbanOutputFormat = c.vbanOutputFormat
  txport_eq : d.txport = c.txport
  iptx_eq : d.iptx = c.iptx
  xlen_eq : d.xlen = c.xlen
  vban_eq : d.header.vban = c.header.vban
  xbytes_eq : d.xbytes = c.xbytes

theorem SameStream.trans {a b c : VbanTxContext} (h : SameStream a b) (k : SameStream b c) :
    SameStream a c :=
  ⟨k.1.trans h.1, k.2.trans h.2, k.3.trans h.3, k.4.trans h.4, k.5.trans h.5, k.6.trans h.6,
    k.7.trans h.7, k.8.trans h.8, k.9.trans h.9, k.10.trans h.10, k.11.trans h.11, k.12.trans h.12,
    k.13.trans h.13⟩

/-- The samples, the packet number, the period and the slice are no part of the stream. -/
theorem SameStream.update (c : VbanTxContext) (txbuf data : List UInt8) (nuFrame : UInt32)
    (slicing : Bool) (nframes n : Nat) :
    SameStream c { c with
      header := { c.header with nuFrame := nuFrame }
      data := data
      nframes := nframes
      slicing := slicing
      txbuf := txbuf
      txdataInd := n } :=
  ⟨rfl, rfl, rfl, rfl, rfl, rfl, rfl, rfl, rfl, rfl, rfl, rfl, rfl⟩

theorem SameStream.frameSize_eq (h : SameStream c d) : d.frameSize = c.frameSize := by
  rw [VbanTxContext.frameSize, VbanTxContext.frameSize, VbanTxContext.sampleSize,
    VbanTxContext.sampleSize, h.nbinputs_eq, h.vbanOutputFormat_eq]

theorem SameStream.passportLength_eq (h : SameStream c d) :
    d.passportLength = c.passportLength := by
  rw [VbanTxContext.passportLength, VbanTxContext.passportLength, h.txport_eq, h.iptx_eq, h.xlen_eq]

theorem TuneSpec.sameStream {k : Nat} (h : TuneSpec c t k) : SameStream c t := by
  refine ⟨?_, ?_, ?_, ?_, h.nbinputs_eq, h.redundancy_eq, h.samplerate_eq, h.vbanOutputFormat_eq,
    h.txport_eq, h.iptx_eq, h.xlen_eq, ?_, h.xbytes_eq⟩ <;> rw [h.header_eq]

/-- How the period is split: by the fewest halvings after which a part fits. -/
def VbanTxContext.SplitAs (sliced : Bool) (c : VbanTxContext) : Prop :=
  ∃ k, k ≤ 10 ∧ PartFits (packetLimit sliced c.samplerate) c.nframes c.frameSize k ∧
    (∀ j, j < k → ¬PartFits (packetLimit sliced c.samplerate) c.nframes c.frameSize j) ∧
    c.pacdatalen = c.nframes * c.frameSize % 2 ^ 16 / 2 ^ k ∧
    c.header.formatNbs = UInt8.ofNat (c.nframes / 2 ^ k + 255)

/-- Tuning a period of 16 bits. -/
theorem tuneTxPackets_splits (hn : c.nframes < 2 ^ 16) (h : tuneTxPackets c = some t) :
    ∃ k, TuneSpec c t k ∧ t.SplitAs c.slicing := by
  obtain ⟨k, hk, hle⟩ := exists_halvedBy hn
  have hspec := tuneTxPackets_spec hk hle h
  have hparts : ∀ j, PartFits (packetLimit c.slicing t.samplerate) t.nframes t.frameSize j ↔
      (PacketSplit.halve^[j] c.periodSplit).Fits c.maxPacketFrames := by
    intro j
    rw [fits_iterate_iff, hspec.samplerate_eq, hspec.nframes_eq, hspec.frameSize_eq]
    rfl
  refine ⟨k, hspec, k, hle, (hparts k).mpr hk.1, fun j hj => mt (hparts j).mp (hk.2 j hj), ?_, ?_⟩
  · rw [hspec.pacdatalen_eq, hspec.nframes_eq, hspec.frameSize_eq]
  · rw [hspec.header_eq, hspec.nframes_eq]

theorem packetLimit_bounds (sliced : Bool) (samplerate : Int) :
    64 ≤ packetLimit sliced samplerate ∧ packetLimit sliced samplerate ≤ 256 := by
  rw [packetLimit]
  split_ifs <;> omega

theorem frameSize_bounds (ho : o.Created) (hb : 1 ≤ o.nbinputs) (hb' : o.nbinputs ≤ 256) :
    1 ≤ o.frameSize ∧ o.frameSize ≤ 1024 := by
  have hsize : o.sampleSize ≤ 4 := by
    have hf := ho.format_mem
    simp only [List.mem_cons, List.not_mem_nil, or_false] at hf
    rw [VbanTxContext.sampleSize]
    rcases hf with hf | hf | hf <;> rw [hf] <;> decide
  exact ⟨Nat.mul_pos hb (sampleSize_pos ho.format_mem), Nat.mul_le_mul hb' hsize⟩

theorem formatBit_of_stream (ho : o.Created) (hc : SameStream { o with samplerate := sr } c)
    (hp : p.header = c.header.advance i) : p.header.formatBit = o.vbanOutputFormat := by
  rw [hp, ← ho.formatBit_eq]
  exact hc.formatBit_eq

theorem formatNbc_of_stream (ho : o.Created) (hc : SameStream { o with samplerate := sr } c)
    (hp : p.header = c.header.advance i) : p.header.formatNbc = UInt8.ofNat (o.nbinputs + 255) := by
  rw [hp, ← ho.formatNbc_eq]
  exact hc.formatNbc_eq

/-- The receivers mask the format, which leaves it as it is. -/
theorem datalen_of_stream (ho : o.Created) (hc : SameStream { o with samplerate := sr } c)
    (hp : p.header = c.header.advance i) :
    p.header.datalen = vbanBitResolutionSize.getD p.header.formatBit.toNat 0 *
      (p.header.formatNbc.toNat + 1) * (p.header.formatNbs.toNat + 1) := by
  have hmask : ∀ f ∈ [vbanBitfmt16Int, vbanBitfmt24Int, vbanBitfmt32Float],
      f &&& vbanBitResolutionMask = f := forall_mem_of_all (by decide)
  rw [VBanHeader.datalen, formatBit_of_stream ho hc hp, hmask _ ho.format_mem]

/-- The header is one of audio. -/
theorem audio_of_stream (ho : o.Created) (hc : SameStream { o with samplerate := sr } c)
    (hp : p.header = c.header.advance i) :
    p.header.vban = vbanHeaderFourc ∧
      p.header.formatSR &&& vbanProtocolMask = vbanProtocolAudio := by
  constructor
  · rw [hp, ← ho.vban_eq]
    exact hc.vban_eq
  · have hSR : p.header.formatSR = vbanSrMask &&& UInt8.ofInt (vbanGetFormatSR o.samplerate) := by
      rw [hp, ← ho.formatSR_eq]
      exact hc.formatSR_eq
    have hmask : vbanSrMask &&& vbanProtocolMask = vbanProtocolAudio := by
      decide
    rw [hSR, UInt8.and_comm vbanSrMask, UInt8.and_assoc, hmask]
    exact UInt8.and_zero

/-- When a packet under the header of a split context declares its own length. -/
theorem declares_iff (ho : o.Created) (hb : 1 ≤ o.nbinputs) (hb' : o.nbinputs ≤ 256)
    (hc : SameStream { o with samplerate := sr } c) (hsplit : c.SplitAs sliced)
    (hp : p.header = c.header.advance i) (hlen : p.payload.length = c.pacdatalen + trailer)
    (ht : trailer ≤ 6) :
    vbanBitResolutionSize.getD p.header.formatBit.toNat 0 *
        (p.header.formatNbc.toNat + 1) * (p.header.formatNbs.toNat + 1) = p.payload.length ↔
      trailer = 0 ∧ FillsPackets (packetLimit sliced sr) c.nframes o.frameSize := by
  obtain ⟨k, hk, hfit, hmin, hpac, hnbs⟩ := hsplit
  obtain ⟨hfs₁, hfs₂⟩ := frameSize_bounds ho hb hb'
  obtain ⟨hlimit, hlimit'⟩ := packetLimit_bounds sliced sr
  have hframe : c.frameSize = o.frameSize := hc.frameSize_eq
  rw [hc.samplerate_eq, hframe] at hfit hmin
  rw [hframe] at hpac
  have hbit := formatBit_of_stream ho hc hp
  have hnbc : p.header.formatNbc.toNat + 1 = o.nbinputs := by
    rw [formatNbc_of_stream ho hc hp, formatNbs_add_one hb hb']
  have hnbs' : p.header.formatNbs = UInt8.ofNat (c.nframes / 2 ^ k + 255) := by
    rw [hp, ← hnbs]
    rfl
  have hfs : vbanBitResolutionSize.getD p.header.formatBit.toNat 0 *
      (p.header.formatNbc.toNat + 1) = o.frameSize := by
    rw [hbit, hnbc, VbanTxContext.frameSize, Nat.mul_comm]
    rfl
  rw [fillsPackets_iff hfit hmin, ← declared_eq_iff hfs₁ hfs₂ hlimit hlimit' hk hfit hmin ht, hfs,
    hnbs', hlen, hpac]

/-- The same for an emitter that may have no channel at all. -/
theorem declares_iff_of_le (ho : o.Created) (hb' : o.nbinputs ≤ 256)
    (hc : SameStream { o with samplerate := sr } c) (hsplit : c.SplitAs sliced)
    (hp : p.header = c.header.advance i) (hlen : p.payload.length = c.pacdatalen + trailer)
    (ht : trailer ≤ 6) :
    vbanBitResolutionSize.getD p.header.formatBit.toNat 0 *
        (p.header.formatNbc.toNat + 1) * (p.header.formatNbs.toNat + 1) = p.payload.length ↔
      trailer = 0 ∧ 1 ≤ o.nbinputs ∧
        FillsPackets (packetLimit sliced sr) c.nframes o.frameSize := by
  rcases Nat.eq_zero_or_pos o.nbinputs with hzero | hb
  · obtain ⟨k, -, -, -, hpac, -⟩ := hsplit
    have hframe : c.frameSize = 0 := by
      rw [hc.frameSize_eq]
      exact (congrArg (· * o.sampleSize) hzero).trans (Nat.zero_mul _)
    have hnone : c.pacdatalen = 0 := by
      rw [hpac, hframe, Nat.mul_zero, Nat.zero_mod, Nat.zero_div]
    have hnbc : p.header.formatNbc = 255 := by
      rw [formatNbc_of_stream ho hc hp, hzero]
      rfl
    have hsize : 1 ≤ vbanBitResolutionSize.getD p.header.formatBit.toNat 0 := by
      rw [formatBit_of_stream ho hc hp]
      exact sampleSize_pos ho.format_mem
    have hdeclared : 256 ≤ vbanBitResolutionSize.getD p.header.formatBit.toNat 0 *
        (p.header.formatNbc.toNat + 1) * (p.header.formatNbs.toNat + 1) := by
      rw [hnbc]
      exact (Nat.mul_le_mul hsize (Nat.le_refl 256)).trans
        (Nat.le_mul_of_pos_right _ (Nat.succ_pos _))
    rw [hlen, hnone]
    omega
  · rw [declares_iff ho hb hb' hc hsplit hp hlen ht]
    exact and_congr_right' (iff_and_self.mpr fun _ => hb)

/-- When a packet under the header of a split context describes itself. -/
theorem describes_iff (ho : o.Created) (hb : 1 ≤ o.nbinputs) (hb' : o.nbinputs ≤ 256)
    (hrate : rate ∈ vbanSRList) (hc : SameStream { o with samplerate := rate } c)
    (hsplit : c.SplitAs sliced) (hp : p.header = c.header.advance i)
    (hlen : p.payload.length = c.pacdatalen + trailer) (ht : trailer ≤ 6) :
    p.Describes rate o.nbinputs ↔ o.samplerate = rate ∧ trailer = 0 ∧
      FillsPackets (packetLimit sliced rate) c.nframes o.frameSize := by
  have hlength := declares_iff ho hb hb' hc hsplit hp hlen ht
  have hSR : p.header.formatSR = vbanSrMask &&& UInt8.ofInt (vbanGetFormatSR o.samplerate) := by
    rw [hp, ← ho.formatSR_eq]
    exact hc.formatSR_eq
  have hnbc : p.header.formatNbc.toNat + 1 = o.nbinputs := by
    rw [formatNbc_of_stream ho hc hp, formatNbs_add_one hb hb']
  constructor
  · rintro ⟨hlook, hcarried, -⟩
    rw [hSR] at hlook
    exact ⟨(vbanGetFormatSR_lookup hrate).mp hlook, hlength.mp hcarried⟩
  · rintro ⟨hrates, hfills⟩
    refine ⟨?_, hlength.mpr hfills, hnbc⟩
    rw [hSR]
    exact (vbanGetFormatSR_lookup hrate).mpr hrates

/-- The period that the process callback sends, or leaves to the timer. -/
structure Readied (nframes : Nat) (c d : VbanTxContext) : Prop where
  stream : SameStream c d
  nframes_eq : d.nframes = nframes
  nuFrame_eq : d.header.nuFrame = c.header.nuFrame
  data_eq : d.data = c.data
  slicing_eq : d.slicing = c.slicing ∨ d.slicing = (c.slicing && decide (c.samplerate < 352800))
  split : ∀ b, c.SplitAs b → d.SplitAs (if c.nframes = nframes then b else c.slicing)

theorem onTxProcess_spec {nframes : Nat} {samples : List UInt8} {s : Sending}
    (hn : nframes < 2 ^ 16) (h : onTxProcess refusals nframes samples c = some s) :
    ∃ d, Readied nframes c d ∧
      s = if d.slicing then ⟨[], d, .returned, 0⟩ else vbanSendTxbuffer refusals d := by
  obtain ⟨t, ht, rfl⟩ := Option.map_eq_some_iff.mp h
  refine ⟨_, ?_, rfl⟩
  simp only at ht
  by_cases heq : c.nframes = nframes
  · rw [if_pos heq] at ht
    obtain rfl := Option.some.inj ht
    exact ⟨.update c _ _ _ _ _ _, heq, rfl, rfl, .inl rfl, fun _ hsplit => by rwa [if_pos heq]⟩
  · rw [if_neg heq] at ht
    obtain ⟨k, hspec, hsplit⟩ := tuneTxPackets_splits hn ht
    refine ⟨?_, hspec.nframes_eq, ?_, hspec.data_eq, .inr hspec.slicing_eq, fun _ _ => ?_⟩
    · exact (SameStream.update c _ _ _ _ _ _).trans (hspec.sameStream.trans (.update t _ _ _ _ _ _))
    · rw [hspec.header_eq]
    · rw [if_neg heq]
      exact hsplit

/-- What holds between two calls. -/
structure Emitter.Inv (o : VbanTxContext) (rate : Nat) (timer : Bool) (e : Emitter) : Prop where
  stream : SameStream { o with samplerate := rate } e.context
  slicing_eq : e.context.slicing = o.slicesAt rate timer
  split : e.context.SplitAs e.sliced
  length_data : vbanDataMaxSize ≤ e.context.data.length
  endless : e.ending = .endless → ¬e.context.slicing → ∃ audio,
    audio.length = e.context.pacdatalen ∧
      (e.context.packet e.context.trailerLength).payload =
        audio ++ o.xbytes.toList.take o.passportLength

/-- What is sent behind the data. -/
def VbanTxContext.trailerAt (rate : Nat) (timer : Bool) (o : VbanTxContext) : Nat :=
  if o.slicesAt rate timer then 0 else o.passportLength

/-- The packet is a part of the period, under the header of the stream. -/
def Transmission.Carries (o : VbanTxContext) (rate : Nat) (timer : Bool) (l : Transmission)
    (p : SentPacket) : Prop :=
  ∃ c i audio, SameStream { o with samplerate := rate } c ∧ c.SplitAs l.sliced ∧
    c.nframes = l.nframes ∧ p.header = c.header.advance i ∧ audio.length = c.pacdatalen ∧
    p.payload = audio ++ o.xbytes.toList.take (o.trailerAt rate timer)

/-- The step sends packets whose header matches: at the rate that `main` was told, without a
passport, and from a period that fills its packets. -/
def Transmission.Matches (o : VbanTxContext) (rate : Nat) (timer : Bool) (l : Transmission) :
    Prop :=
  o.samplerate = rate ∧ (o.slicesAt rate timer ∨ o.passportLength = 0) ∧
    FillsPackets (packetLimit l.sliced rate) l.nframes o.frameSize

theorem emitterStart_stream (h : emitterStart rate bufsize timer o = some e) :
    SameStream { o with samplerate := rate } e.context := by
  obtain ⟨t, ht, rfl⟩ := Option.map_eq_some_iff.mp h
  obtain ⟨k, hspec, -⟩ := tuneTxPackets_splits (Nat.mod_lt _ (by decide)) ht
  exact (SameStream.update { o with samplerate := rate } _ _ _ _ _ _).trans
    (hspec.sameStream.trans (.update t _ _ _ _ _ _))

theorem emitterStart_inv (ho : o.Created) (h : emitterStart rate bufsize timer o = some e) :
    e.Inv o rate timer := by
  have hstream := emitterStart_stream h
  obtain ⟨t, ht, rfl⟩ := Option.map_eq_some_iff.mp h
  obtain ⟨k, hspec, hsplit⟩ := tuneTxPackets_splits (Nat.mod_lt _ (by decide)) ht
  refine ⟨hstream, ?_, hsplit, ?_, nofun⟩
  · exact congrArg (· && timer) hspec.slicing_eq
  · exact (hspec.data_eq.trans rfl ▸ ho.length_data).ge

theorem trailerLength_eq (hx : c.xlen = 0 ∨ c.xlen = 6) : c.trailerLength = c.passportLength := by
  rw [VbanTxContext.trailerLength]
  split_ifs with hport
  · rcases hx with hx | hx <;> simp [VbanTxContext.passportLength, hport, hx]
  · rfl

theorem length_take_xbytes {n : Nat} (hn : n ≤ 6) : (c.xbytes.toList.take n).length = n := by
  simp [hn]

theorem trailerBytes_self {n : Nat} (hn : n ≤ 6) :
    c.trailerBytes n n = c.xbytes.toList.take n := by
  rw [VbanTxContext.trailerBytes, List.take_left' (length_take_xbytes hn)]

/-- The invariant of a context, with the flag of its last tuning. -/
theorem Emitter.Inv.readied {nframes : Nat} (hi : e.Inv o rate timer)
    (hd : Readied nframes e.context d) : d.slicing = o.slicesAt rate timer := by
  have hslicing := hi.slicing_eq
  rcases hd.slicing_eq with h | h
  · exact h.trans hslicing
  · rw [h, hslicing, hi.stream.samplerate_eq, VbanTxContext.slicesAt]
    cases o.slicing <;> cases timer <;> simp

/-- The passport alone is sent behind the data. -/
theorem sendPackets_passport {passport : Nat} {poss : List Nat} (hpass : passport ≤ 6) :
    (c.sendPackets refusals passport passport poss).Keeps c passport
      (c.xbytes.toList.take passport) := by
  have h := sendPackets_keeps refusals passport poss c hpass
  rwa [trailerBytes_self hpass] at h

theorem vbanSendTxbuffer_keeps (refusals : Refusals) (hx : c.xlen = 0 ∨ c.xlen = 6) :
    (vbanSendTxbuffer refusals c).Keeps c c.passportLength
      (c.xbytes.toList.take c.passportLength) := by
  rw [vbanSendTxbuffer, trailerLength_eq hx]
  exact sendPackets_passport (passportLength_le c)

theorem vbanSendT32Fragment_keeps (refusals : Refusals) (c : VbanTxContext) :
    (vbanSendT32Fragment refusals c).Keeps c 0 [] :=
  sendPackets_passport (Nat.zero_le 6)

theorem Sending.Keeps.sameStream {s : Sending} {behind : List UInt8}
    (hs : s.Keeps c trailer behind) : SameStream c s.context := by
  obtain ⟨data, m, h⟩ := hs.context
  rw [h]
  exact .update c _ _ _ _ _ _

theorem Sending.Keeps.splitAs {s : Sending} {behind : List UInt8} (hs : s.Keeps c trailer behind)
    (h : c.SplitAs sliced) : s.context.SplitAs sliced := by
  obtain ⟨data, m, hcontext⟩ := hs.context
  rw [hcontext]
  exact h

theorem SplitAs.pacdatalen_le (h : c.SplitAs sliced) : c.pacdatalen ≤ vbanDataMaxSize := by
  obtain ⟨k, -, hfit, -, hpac, -⟩ := h
  exact hpac ▸ hfit.1

/-- The timer thread only moves on to the next slice after what the fragment did. -/
theorem txTimerTick_eq (refusals : Refusals) (c : VbanTxContext) : ∃ n, txTimerTick refusals c =
    { vbanSendT32Fragment refusals c with
      context := { (vbanSendT32Fragment refusals c).context with txdataInd := n } } := by
  rw [txTimerTick]
  split_ifs
  · exact ⟨_, rfl⟩
  · exact ⟨_, rfl⟩

theorem process_spec {nframes : Nat} {samples : List UInt8} {s : Sending} (ho : o.Created)
    (hi : e.Inv o rate timer) (hn : nframes < 2 ^ 16)
    (h : onTxProcess refusals nframes samples e.context = some s) :
    let sliced := if e.context.nframes = nframes then e.sliced else e.context.slicing
    let ending := if e.context.slicing then e.ending else s.ending
    (∀ armed, Emitter.Inv o rate timer ⟨s.context, sliced, armed, ending⟩) ∧
      ∀ p ∈ s.sent, Transmission.Carries o rate timer ⟨nframes, sliced, s.sent⟩ p := by
  obtain ⟨d, hd, rfl⟩ := onTxProcess_spec hn h
  have hslicing := hi.readied hd
  have hstream := hi.stream.trans hd.stream
  have hsplit := hd.split _ hi.split
  have hdata := hd.data_eq ▸ hi.length_data
  by_cases hs : d.slicing
  · rw [if_pos hs]
    exact ⟨fun _ => ⟨hstream, hslicing, hsplit, hdata, fun _ hnot => absurd hs hnot⟩, nofun⟩
  · rw [if_neg hs]
    have hnot : ¬e.context.slicing := by rwa [hi.slicing_eq, ← hslicing]
    have hxlen : d.xlen = 0 ∨ d.xlen = 6 := hstream.xlen_eq ▸ ho.xlen_eq
    have hkeeps := vbanSendTxbuffer_keeps refusals hxlen
    rw [hstream.passportLength_eq, hstream.xbytes_eq] at hkeeps
    have hsame := hkeeps.sameStream
    obtain ⟨data, m, hcontext⟩ := hkeeps.context
    have hpac : (vbanSendTxbuffer refusals d).context.pacdatalen = d.pacdatalen := by rw [hcontext]
    simp only [if_neg hnot]
    refine ⟨fun _ => ⟨hstream.trans hsame, ?_, hkeeps.splitAs hsplit, hdata.trans hkeeps.data_le,
      fun hend _ => ?_⟩, fun p hp => ?_⟩
    · rw [← hslicing, hcontext]
    · have hxlen' := (hstream.trans hsame).xlen_eq ▸ ho.xlen_eq
      rw [hpac, trailerLength_eq hxlen', (hstream.trans hsame).passportLength_eq]
      exact hkeeps.endless hend
    · obtain ⟨i, audio, hheader, hlen, hpayload⟩ := hkeeps.sent p hp
      refine ⟨d, i, audio, hstream, hsplit, hd.nframes_eq, hheader, hlen, ?_⟩
      rw [hpayload, VbanTxContext.trailerAt, ← hslicing, if_neg hs]
      rfl

theorem EmitterStep.spec (ho : o.Created) (hi : e.Inv o rate timer) (hs : EmitterStep e l e') :
    e'.Inv o rate timer ∧ ∀ p ∈ l.sent, l.Carries o rate timer p := by
  cases hs with
  | process _ hn _ h =>
    obtain ⟨hinv, hsent⟩ := process_spec ho hi hn h
    exact ⟨hinv _, hsent⟩
  | @tick refusals hending harmed hslicing =>
    obtain ⟨n, htick⟩ := txTimerTick_eq refusals e.context
    have hkeeps := vbanSendT32Fragment_keeps refusals e.context
    have hsame := hkeeps.sameStream
    have hstream := hi.stream.trans hsame
    obtain ⟨data, m, hcontext⟩ := hkeeps.context
    have hset : (vbanSendT32Fragment refusals e.context).context.slicing := by
      rw [hcontext]
      exact hslicing
    rw [htick]
    refine ⟨⟨hstream.trans (.update _ _ _ _ _ _ _), ?_, hkeeps.splitAs hi.split,
      hi.length_data.trans hkeeps.data_le, fun _ hnot => absurd hset hnot⟩, fun p hp => ?_⟩
    · rw [← hi.slicing_eq, hslicing]
      exact hset
    · obtain ⟨i, audio, hheader, hlen, hpayload⟩ := hkeeps.sent p hp
      refine ⟨e.context, i, audio, hi.stream, hi.split, rfl, hheader, hlen, ?_⟩
      rw [hpayload, VbanTxContext.trailerAt, ← hi.slicing_eq, if_pos hslicing, List.take_zero]
  | copy hending =>
    refine ⟨hi, ?_⟩
    intro p hp
    obtain rfl := List.mem_singleton.mp hp
    have hheader := (VBanHeader.advance_zero e.context.header).symm
    rw [Transmission.Carries, VbanTxContext.trailerAt, ← hi.slicing_eq]
    by_cases hs : e.context.slicing
    · rw [if_pos hs, if_pos hs]
      refine ⟨e.context, 0, _, hi.stream, hi.split, rfl, hheader, ?_, (List.append_nil _).symm⟩
      rw [VbanTxContext.packet, List.length_take]
      exact Nat.min_eq_left ((SplitAs.pacdatalen_le hi.split).trans hi.length_data)
    · rw [if_neg hs, if_neg hs]
      obtain ⟨audio, hlen, hpayload⟩ := hi.endless hending hs
      exact ⟨e.context, 0, audio, hi.stream, hi.split, rfl, hheader, hlen, hpayload⟩

theorem VbanTxContext.trailerAt_le (rate : Nat) (timer : Bool) (o : VbanTxContext) :
    o.trailerAt rate timer ≤ 6 := by
  rw [trailerAt]
  split_ifs
  · exact Nat.zero_le 6
  · exact passportLength_le o

/-- The packet is as long as its part of the period and what is sent behind it. -/
theorem Transmission.Carries.length (h : l.Carries o rate timer p) :
    ∃ c i, SameStream { o with samplerate := rate } c ∧ c.SplitAs l.sliced ∧
      c.nframes = l.nframes ∧ p.header = c.header.advance i ∧
      p.payload.length = c.pacdatalen + o.trailerAt rate timer := by
  obtain ⟨c, i, audio, hc, hsplit, hn, hheader, hlen, hpayload⟩ := h
  refine ⟨c, i, hc, hsplit, hn, hheader, ?_⟩
  rw [hpayload, List.length_append, hlen, length_take_xbytes (o.trailerAt_le rate timer)]

/-- The packet describes itself iff the step matches. -/
theorem Transmission.Carries.describes_iff (ho : o.Created) (hb : 1 ≤ o.nbinputs)
    (hb' : o.nbinputs ≤ 256) (hrate : rate ∈ vbanSRList) (h : l.Carries o rate timer p) :
    p.Describes rate o.nbinputs ↔ l.Matches o rate timer := by
  obtain ⟨c, i, hc, hsplit, hn, hheader, hlen⟩ := h.length
  rw [Vban.describes_iff ho hb hb' hrate hc hsplit hheader hlen (o.trailerAt_le rate timer),
    Transmission.Matches, hn, VbanTxContext.trailerAt]
  by_cases hs : o.slicesAt rate timer
  · simp only [hs, if_true, true_or]
  · simp only [hs, Bool.false_eq_true, if_false, false_or]

theorem Transmission.Carries.datalen_eq (ho : o.Created) (h : l.Carries o rate timer p) :
    p.header.datalen = vbanBitResolutionSize.getD p.header.formatBit.toNat 0 *
      (p.header.formatNbc.toNat + 1) * (p.header.formatNbs.toNat + 1) := by
  obtain ⟨c, i, -, hc, -, -, hheader, -⟩ := h
  exact datalen_of_stream ho hc hheader

/-- When a packet is as long as a receiver takes it to be. -/
theorem Transmission.Carries.declares_iff (ho : o.Created) (hb' : o.nbinputs ≤ 256)
    (h : l.Carries o rate timer p) :
    p.payload.length = p.header.datalen ↔ o.trailerAt rate timer = 0 ∧ 1 ≤ o.nbinputs ∧
      FillsPackets (packetLimit l.sliced rate) l.nframes o.frameSize := by
  rw [h.datalen_eq ho, eq_comm]
  obtain ⟨c, i, hc, hsplit, hn, hheader, hlen⟩ := h.length
  rw [declares_iff_of_le ho hb' hc hsplit hheader hlen (o.trailerAt_le rate timer), hn]

/-- When a packet is filled before what stands behind its audio, and has room for it. -/
theorem Transmission.Carries.room (ho : o.Created) (hb : 1 ≤ o.nbinputs) (hb' : o.nbinputs ≤ 256)
    (h : l.Carries o rate timer p) (room : Nat) : ∃ audio,
      p.payload = audio ++ o.xbytes.toList.take (o.trailerAt rate timer) ∧
        (audio.length = p.header.datalen ∧ audio.length + room ≤ vbanDataMaxSize ↔
          LeavesRoom room (packetLimit l.sliced rate) l.nframes o.frameSize) := by
  have hdatalen := h.datalen_eq ho
  obtain ⟨c, i, audio, hc, hsplit, hn, hheader, hlen, hpayload⟩ := h
  let bare : SentPacket := ⟨p.header, audio⟩
  have hbare : bare.payload.length = c.pacdatalen + 0 := hlen
  have hdeclares :=
    Vban.declares_iff ho hb hb' hc hsplit (p := bare) hheader hbare (Nat.zero_le 6)
  rw [and_iff_right rfl, hn, eq_comm] at hdeclares
  refine ⟨audio, hpayload, ?_⟩
  rw [hdatalen, hdeclares]
  obtain ⟨k, -, hfit, hmin, hpac, -⟩ := hsplit
  have hframe : c.frameSize = o.frameSize := hc.frameSize_eq
  rw [hc.samplerate_eq, hn, hframe] at hfit hmin
  rw [leavesRoom_iff hfit hmin, hlen, hpac, hn, hframe]
  apply and_congr_right
  rintro ⟨-, hbytes, -⟩
  rw [Nat.mod_eq_of_lt (show l.nframes * o.frameSize < 2 ^ 16 from Nat.lt_succ_of_le hbytes)]

/-- The packet fits, and is an audio packet. -/
theorem Transmission.Carries.header (ho : o.Created) (h : l.Carries o rate timer p) :
    p.header.vban = vbanHeaderFourc ∧
      p.header.formatSR &&& vbanProtocolMask = vbanProtocolAudio ∧
      p.payload.length ≤ vbanDataMaxSize + o.trailerAt rate timer := by
  obtain ⟨c, i, hc, hsplit, -, hheader, hlen⟩ := h.length
  obtain ⟨hvban, haudio⟩ := audio_of_stream ho hc hheader
  refine ⟨hvban, haudio, ?_⟩
  rw [hlen]
  exact Nat.add_le_add_right (SplitAs.pacdatalen_le hsplit) _

theorem onTxProcess_same (refusals : Refusals) {nframes : Nat} (samples : List UInt8)
    (hn : c.nframes = nframes) (hs : c.slicing = false) : onTxProcess refusals nframes samples c =
      some (vbanSendTxbuffer refusals { c with txbuf := overwrite c.txbuf 0 samples }) := by
  simp only [onTxProcess, hs, Bool.false_eq_true, if_false, if_pos hn, Option.map_some]

theorem vbanSendTxbuffer_ne_nil (hpac : c.pacnum ≠ 0) (hlen : c.pacdatalen ≤ c.txbuf.length) :
    (vbanSendTxbuffer refusals c).sent ≠ [] := by
  obtain ⟨n, hn⟩ := Nat.exists_eq_succ_of_ne_zero hpac
  rw [vbanSendTxbuffer, hn, List.range_succ_eq_map, List.map_cons]
  exact sendPackets_ne_nil (by omega)

/-- What holds after a run, and where its packets come from. -/
theorem emitter_run_spec {e₀ : Emitter} {ls : List Transmission} (ho : o.Created)
    (h₀ : emitterStart rate bufsize timer o = some e₀) (hrun : Run EmitterStep e₀ ls e) :
    e.Inv o rate timer ∧ ∀ l ∈ ls, ∀ p ∈ l.sent, l.Carries o rate timer p := by
  induction hrun with
  | refl => exact ⟨emitterStart_inv ho h₀, nofun⟩
  | snoc hrun hstep ih =>
    obtain ⟨hi, hsent⟩ := ih
    obtain ⟨hi', hlast⟩ := hstep.spec ho hi
    refine ⟨hi', ?_⟩
    intro l hl
    rcases List.mem_append.mp hl with hl | hl
    · exact hsent l hl
    · exact List.mem_singleton.mp hl ▸ hlast

/-- Every packet of a run describes itself exactly if every sending step of the run matches. -/
theorem emitter_packets_describe_iff {e₀ : Emitter} {ls : List Transmission}
    (ho : emitterMain found opts = some o) (hb : 1 ≤ o.nbinputs) (hb' : o.nbinputs ≤ 256)
    (hrate : rate ∈ vbanSRList) (h₀ : emitterStart rate bufsize timer o = some e₀)
    (hrun : Run EmitterStep e₀ ls e) :
    (∀ l ∈ ls, ∀ p ∈ l.sent, p.Describes rate o.nbinputs) ↔
      ∀ l ∈ ls, l.sent ≠ [] → l.Matches o rate timer := by
  have hcreated := emitterMain_created ho
  obtain ⟨-, hall⟩ := emitter_run_spec hcreated h₀ hrun
  constructor
  · intro h l hl hne
    obtain ⟨p, hp⟩ := List.exists_mem_of_ne_nil _ hne
    exact ((hall l hl p hp).describes_iff hcreated hb hb' hrate).mp (h l hl p hp)
  · intro h l hl p hp
    exact ((hall l hl p hp).describes_iff hcreated hb hb' hrate).mpr
      (h l hl (List.ne_nil_of_mem hp))

/-- A run of the JACK emitter, with no more channels than `on_tx_process` has buffers for. -/
structure EmitterRun where
  opts : List EmitterOption
  found : UInt32
  rate : Nat
  bufsize : Nat
  timer : Bool
  o : VbanTxContext
  start : Emitter
  steps : List Transmission
  last : Emitter
  main_eq : emitterMain found opts = some o
  channels_le : o.nbinputs ≤ 256
  start_eq : emitterStart rate bufsize timer o = some start
  run : Run EmitterStep start steps last

theorem EmitterRun.created (r : EmitterRun) : r.o.Created := emitterMain_created r.main_eq

theorem EmitterRun.carries (r : EmitterRun) :
    ∀ l ∈ r.steps, ∀ p ∈ l.sent, l.Carries r.o r.rate r.timer p :=
  (emitter_run_spec r.created r.start_eq r.run).2

theorem emitterMain_port_of (found : UInt32) (n : Int) : emitterMain found [.port n] =
    some { emitterDefaults with txport := uintOfInt 16 n }.createStream := by
  have hempty : emitterDefaults.txStreamname.Empty := by decide
  have hscan : { emitterDefaults with txport := uintOfInt 16 n }.scanReceptor found =
      { emitterDefaults with txport := uintOfInt 16 n } := if_neg fun h => h.2.1 hempty
  exact congrArg (fun c => some c.createStream) hscan

theorem emitterMain_port (found : UInt32) :
    emitterMain found [.port 6980] = some emitterDefaults.createStream :=
  emitterMain_port_of found 6980

/-- An emitter without slicing sends the first period. -/
theorem exists_sending_run_of {n : Nat} (rate : Nat) (hn : 1 ≤ n) (hn' : n < 2 ^ 16)
    (hoff : o.slicing = false) : ∃ e₀ e l, emitterStart rate n true o = some e₀ ∧
      Run EmitterStep e₀ [l] e ∧ l.nframes = n ∧ l.sliced = false ∧ l.sent ≠ [] := by
  have hmod : n % 2 ^ 16 = n := Nat.mod_eq_of_lt hn'
  obtain ⟨t, ht⟩ := (tuneTxPackets_isSome_iff (c := { o with
    samplerate := rate, nframes := n })  hn).mpr fun h => by
      rw [hoff] at h
      exact nomatch h.1
  obtain ⟨k, hspec, -⟩ := tuneTxPackets_splits (c := { o with
    samplerate := rate, nframes := n }) hn' ht
  have hslicing : t.slicing = false := by
    rw [hspec.slicing_eq, hoff, Bool.false_and]
  let e₀ : Emitter := ⟨{ t with slicing := t.slicing && true }, o.slicing, false, .returned⟩
  have hoff₀ : e₀.context.slicing = false := by
    change (t.slicing && true) = false
    rw [hslicing]
    rfl
  have hsamples : (List.replicate (n * t.frameSize) (0 : UInt8)).length =
      n * e₀.context.frameSize := List.length_replicate
  have hprocess := onTxProcess_same (c := e₀.context) (fun _ _ => 0)
    (List.replicate (n * t.frameSize) 0) hspec.nframes_eq hoff₀
  have hstart : emitterStart rate n true o = some e₀ := by
    rw [emitterStart, jackInitTxStream, hmod, ht]
    rfl
  refine ⟨e₀, _, _, hstart,
    .single (.process (.inl rfl) hn' hsamples hprocess), rfl, ?_, ?_⟩
  · exact (if_pos hspec.nframes_eq).trans hoff
  · apply vbanSendTxbuffer_ne_nil
    · exact hspec.pacnum_eq.trans_ne (Nat.two_pow_pos k).ne'
    · rw [overwrite_zero, List.length_append, List.length_replicate]
      have hlen : t.txbuflen = n * t.frameSize := by
        rw [hspec.txbuflen_eq, hspec.frameSize_eq]
      have hpac := (Nat.le_mul_of_pos_left _ (Nat.two_pow_pos k)).trans hspec.pacnum_mul_le
      exact (hlen ▸ hpac).trans (Nat.le_add_right _ _)

/-- An emitter started with a port alone sends the first period. -/
theorem exists_sending_run (rate : Nat) : ∃ e₀ e l,
    emitterStart rate 128 true emitterDefaults.createStream = some e₀ ∧
      Run EmitterStep e₀ [l] e ∧ l.nframes = 128 ∧ l.sliced = false ∧ l.sent ≠ [] :=
  exists_sending_run_of rate (by decide) (by decide) rfl

theorem fillsPackets_default :
    FillsPackets (packetLimit false (48000 : Nat)) 128 emitterDefaults.createStream.frameSize :=
  ⟨by decide, by decide, 0, by decide, nofun, by decide⟩

theorem emitter_packets_described_default : ∃ e₀ e l,
    emitterStart 48000 128 true emitterDefaults.createStream = some e₀ ∧
      Run EmitterStep e₀ [l] e ∧ l.sent ≠ [] ∧ ∀ l' ∈ [l], ∀ p ∈ l'.sent, p.Describes 48000 2 := by
  obtain ⟨e₀, e, l, h₀, hrun, hnframes, hsliced, hsent⟩ := exists_sending_run 48000
  refine ⟨e₀, e, l, h₀, hrun, hsent, (emitter_packets_describe_iff
    (emitterMain_port 0) (by decide) (by decide) (by decide) h₀ hrun).mpr
      fun l' hl' _ => ?_⟩
  obtain rfl := List.mem_singleton.mp hl'
  refine ⟨rfl, .inr rfl, ?_⟩
  rw [hnframes, hsliced]
  exact fillsPackets_default

/-- The rate in the header stays what it was before JACK reported its own. -/
theorem emitter_packet_not_described : ∃ e₀ e l p,
    emitterMain 0 [.port 6980] = some emitterDefaults.createStream ∧
      emitterStart 44100 128 true emitterDefaults.createStream = some e₀ ∧
        Run EmitterStep e₀ [l] e ∧ p ∈ l.sent ∧ ¬p.Describes 44100 2 := by
  obtain ⟨e₀, e, l, h₀, hrun, -, -, hsent⟩ := exists_sending_run 44100
  obtain ⟨p, hp⟩ := List.exists_mem_of_ne_nil _ hsent
  refine ⟨e₀, e, l, p, emitterMain_port 0, h₀, hrun, hp, ?_⟩
  intro hdescribes
  have hcreated := emitterMain_created (emitterMain_port 0)
  obtain ⟨-, hall⟩ := emitter_run_spec hcreated h₀ hrun
  obtain ⟨hrate, -⟩ := ((hall l List.mem_cons_self p hp).describes_iff hcreated
    (by decide) (by decide) (by decide)).mp hdescribes
  exact absurd hrate (by decide)

end Vban
