import Vban.Emit.SendBuffer

/-! When the packets of a period partition it. -/
namespace Vban

open Library

/-- Sending `txbuf` sends all its bytes once, in pieces of whole frames. Each piece goes under the
next frame number, with the copies of its packet. -/
def SendsOnce (refusals : Refusals) (c : VbanTxContext) : Prop :=
  ∃ pieces : List (List UInt8), pieces.flatten = c.txbuf ∧
    (∀ piece ∈ pieces, piece.length = c.vbanNframesPac * c.frameSize) ∧
    (vbanSendTxbuffer refusals c).ending = .returned ∧
    (vbanSendTxbuffer refusals c).sent = c.withCopies refusals
      (numbered c.header (pieces.map (· ++ c.trailerBytes c.passportLength c.trailerLength)))

/-- The tuned context `t` splits the period of `c` into packets of whole frames. -/
structure PartitionsPeriod (c t : VbanTxContext) : Prop where
  total : t.pacnum * t.pacdatalen = t.txbuflen
  period : t.txbuflen = c.nframes * c.nbinputs * c.sampleSize
  whole : t.pacdatalen = t.vbanNframesPac * c.nbinputs * c.sampleSize
  frames_pos : 1 ≤ t.vbanNframesPac
  frames_le : t.vbanNframesPac ≤ 256
  fits : t.pacdatalen ≤ vbanDataMaxSize
  formatNbs : t.header.formatNbs.toNat + 1 = t.vbanNframesPac
  sends : ∀ refusals samples, samples.length = t.txbuflen →
    SendsOnce refusals { t with txbuf := samples }

variable {c t : VbanTxContext} {k : Nat} {refusals : Refusals}

theorem vbanSendTxbuffer_spec (refusals : Refusals) (hred : c.redundancy ≠ 255)
    (hlen : c.pacnum * c.pacdatalen ≤ c.txbuf.length) :
    ∃ data ret, vbanSendTxbuffer refusals c =
      ⟨c.withCopies refusals (numbered c.header (((List.range' 0 c.pacnum).map c.piece).map
          (· ++ c.trailerBytes c.passportLength c.trailerLength))),
        { c with data := data, header := c.header.advance c.pacnum }, .returned, ret⟩ := by
  rw [vbanSendTxbuffer, List.range_eq_range']
  exact sendPackets_range' refusals _ (passportLength_le c) hred (by rwa [Nat.zero_add])

theorem vbanSendTxbuffer_endless (h255 : c.redundancy = 255) (hpac : c.pacnum ≠ 0) :
    (vbanSendTxbuffer refusals c).ending ≠ .returned := by
  apply sendPackets_endless h255
  rwa [ne_eq, List.map_eq_nil_iff, List.range_eq_nil]

theorem sendsOnce_of_partition (hred : c.redundancy ≠ 255)
    (htotal : c.pacnum * c.pacdatalen = c.txbuf.length)
    (hwhole : c.pacdatalen = c.vbanNframesPac * c.frameSize) : SendsOnce refusals c := by
  obtain ⟨data, ret, h⟩ := vbanSendTxbuffer_spec refusals hred htotal.le
  refine ⟨(List.range' 0 c.pacnum).map c.piece, ?_, ?_, ?_, ?_⟩
  · rw [flatten_pieces, htotal, List.take_length]
  · intro piece hpiece
    obtain ⟨i, hi, rfl⟩ := List.mem_map.mp hpiece
    have hi : i < c.pacnum := by simpa using hi
    rw [← hwhole]
    apply length_piece
    rw [← htotal]
    exact Nat.mul_le_mul_right _ hi
  · rw [h]
  · rw [h]

/-- No packet is lost to rounding exactly if the frames are halved without rest. -/
theorem mul_div_eq_iff {n fs p : Nat} (hfs : 0 < fs) (hp : 0 < p) :
    p * (n * fs / p) = n * fs ∧ n * fs / p = n / p * fs ↔ p ∣ n := by
  constructor
  · rintro ⟨hmul, hdiv⟩
    rw [hdiv, ← Nat.mul_assoc] at hmul
    exact ⟨n / p, (Nat.eq_of_mul_eq_mul_right hfs hmul).symm⟩
  · rintro ⟨q, rfl⟩
    rw [Nat.mul_assoc, Nat.mul_div_cancel_left _ hp, Nat.mul_div_cancel_left _ hp]
    exact ⟨rfl, rfl⟩

theorem sampleSize_pos
    (hf : c.vbanOutputFormat ∈ [vbanBitfmt16Int, vbanBitfmt24Int, vbanBitfmt32Float]) :
    0 < c.sampleSize := by
  simp only [List.mem_cons, List.not_mem_nil, or_false] at hf
  rw [VbanTxContext.sampleSize]
  rcases hf with hf | hf | hf <;> rw [hf] <;> decide

theorem formatNbs_add_one {n : Nat} (hpos : 1 ≤ n) (hle : n ≤ 256) :
    (UInt8.ofNat (n + 255)).toNat + 1 = n := by
  rw [UInt8.toNat_ofNat']
  omega

theorem TuneSpec.frameSize_eq (h : TuneSpec c t k) : t.frameSize = c.frameSize := by
  rw [VbanTxContext.frameSize, VbanTxContext.frameSize, VbanTxContext.sampleSize,
    VbanTxContext.sampleSize, h.nbinputs_eq, h.vbanOutputFormat_eq]

theorem TuneSpec.partitions (h : TuneSpec c t k) (hn : 1 ≤ c.nframes)
    (hred : c.redundancy ≠ 255) (hlen : c.nframes * c.frameSize ≤ 65535)
    (hfits : (PacketSplit.halve^[k] c.periodSplit).Fits c.maxPacketFrames)
    (hdvd : 2 ^ k ∣ c.nframes) : PartitionsPeriod c t := by
  have hmod := period_mod hlen
  rw [fits_iterate_iff, hmod] at hfits
  obtain ⟨q, hq⟩ := hdvd
  have hq' : c.nframes / 2 ^ k = q := by rw [hq, Nat.mul_div_cancel_left _ (Nat.two_pow_pos k)]
  have hpac : t.pacdatalen = q * c.frameSize := by
    rw [h.pacdatalen_eq, hmod, hq, Nat.mul_assoc, Nat.mul_div_cancel_left _ (Nat.two_pow_pos k)]
  have hframes : t.vbanNframesPac = q := by rw [h.vbanNframesPac_eq, hq']
  have htotal : t.pacnum * t.pacdatalen = t.txbuflen := by
    rw [h.pacnum_eq, hpac, h.txbuflen_eq, ← Nat.mul_assoc, ← hq]
  have hpos : 1 ≤ q := by
    rcases Nat.eq_zero_or_pos q with rfl | hpos
    · omega
    · exact hpos
  have hle : q ≤ 256 := hq' ▸ hfits.2.trans (maxPacketFrames_bounds c).2
  refine ⟨htotal, ?_, ?_, ?_, ?_, ?_, ?_, ?_⟩
  · rw [h.txbuflen_eq, VbanTxContext.frameSize, Nat.mul_assoc]
  · rw [hpac, hframes, VbanTxContext.frameSize, Nat.mul_assoc]
  · rwa [hframes]
  · rwa [hframes]
  · rw [h.pacdatalen_eq, hmod]
    exact hfits.1
  · rw [h.header_eq, hframes, hq']
    exact formatNbs_add_one hpos hle
  · intro refusals samples hsamples
    apply sendsOnce_of_partition
    · exact h.redundancy_eq ▸ hred
    · exact htotal.trans hsamples.symm
    · change t.pacdatalen = t.vbanNframesPac * t.frameSize
      rw [hpac, hframes, h.frameSize_eq]

/-- The packets partition the period exactly if its length has 16 bits and it is halved without
rest until it fits. -/
theorem tuneTxPackets_partitions_iff (hn : 1 ≤ c.nframes) (hn' : c.nframes ≤ 65535)
    (hb : 1 ≤ c.nbinputs)
    (hf : c.vbanOutputFormat ∈ [vbanBitfmt16Int, vbanBitfmt24Int, vbanBitfmt32Float]) :
    (∃ t, tuneTxPackets c = some t ∧ PartitionsPeriod c t) ↔
      ¬(c.slicing ∧ c.samplerate = 0) ∧ c.redundancy ≠ 255 ∧ c.nframes * c.frameSize ≤ 65535 ∧
        ∃ k, 2 ^ k ∣ c.nframes ∧ c.nframes / 2 ^ k * c.frameSize ≤ vbanDataMaxSize ∧
          c.nframes / 2 ^ k ≤ c.maxPacketFrames := by
  have hfs : 0 < c.frameSize := Nat.mul_pos hb (sampleSize_pos hf)
  obtain ⟨k, hk, hle⟩ := exists_halvedBy (c := c) (by omega)
  rw [← tuneTxPackets_isSome_iff hn]
  constructor
  · rintro ⟨t, ht, hp⟩
    have hspec := tuneTxPackets_spec hk hle ht
    have htotal := hp.total
    have hwhole := hp.whole
    rw [hspec.pacnum_eq, hspec.pacdatalen_eq, hspec.txbuflen_eq] at htotal
    rw [hspec.pacdatalen_eq, hspec.vbanNframesPac_eq, Nat.mul_assoc] at hwhole
    have hlen : c.nframes * c.frameSize ≤ 65535 := by
      have := Nat.mul_div_le (c.nframes * c.frameSize % 2 ^ 16) (2 ^ k)
      omega
    have hmod := period_mod hlen
    rw [hmod] at htotal hwhole
    have hdvd := (mul_div_eq_iff hfs (Nat.two_pow_pos k)).mp ⟨htotal, hwhole⟩
    have hfits := fits_iterate_iff.mp hk.1
    rw [hmod, hwhole] at hfits
    refine ⟨⟨t, ht⟩, fun h255 => ?_, hlen, k, hdvd, hfits⟩
    obtain ⟨_, _, _, hend, _⟩ := hp.sends (fun _ _ => 0) (List.replicate t.txbuflen 0)
      List.length_replicate
    refine absurd hend (vbanSendTxbuffer_endless ?_ ?_)
    · exact hspec.redundancy_eq.trans h255
    · exact hspec.pacnum_eq.trans_ne (Nat.two_pow_pos k).ne'
  · rintro ⟨⟨t, ht⟩, hred, hlen, j, hdvd, hdata, hframes⟩
    have hmod := period_mod hlen
    have hkj : k ≤ j := by
      apply hk.le
      rw [fits_iterate_iff, hmod, ((mul_div_eq_iff hfs (Nat.two_pow_pos j)).mpr hdvd).2]
      exact ⟨hdata, hframes⟩
    exact ⟨t, ht, (tuneTxPackets_spec hk hle ht).partitions hn hred hlen hk.1
      ((Nat.pow_dvd_pow 2 hkj).trans hdvd)⟩

/-- A float emitter at 48 kHz before it is tuned. -/
def floatContext (nframes nbinputs : Nat) (slicing : Bool) : VbanTxContext where
  txStreamname := .strncpy []
  header :=
    ⟨vbanHeaderFourc, 3, 255, UInt8.ofNat (nbinputs + 255), vbanBitfmt32Float, .strncpy [], 0⟩
  data := List.replicate vbanDataMaxSize 0
  nframes := nframes
  nbinputs := nbinputs
  samplerate := 48000
  vbanOutputFormat := vbanBitfmt32Float
  redundancy := 0
  slicing := slicing
  txbuf := []
  txbuflen := 0
  pacnum := 0
  vbanNframesPac := 0
  pacdatalen := 0
  pacnumT32 := 0
  txdataInd := 0
  txTransactions := 0
  txNframes := 32
  slicePeriod := 0
  txport := 6980
  iptx := 0
  xlen := 0
  xbytes := Vector.replicate 6 0

theorem tuneTxPackets_partitions_stereo :
    ∃ t, tuneTxPackets (floatContext 1024 2 false) = some t ∧
      PartitionsPeriod (floatContext 1024 2 false) t :=
  (tuneTxPackets_partitions_iff (c := floatContext 1024 2 false) (by decide) (by decide) (by decide)
    (by decide)).mpr ⟨by decide, by decide, by decide, 3, by decide, by decide, by decide⟩

/-- The 65536 bytes of 4096 frames of four channels are no bytes in 16 bits. -/
theorem quad_period_not_partitioned :
    ¬∃ t, tuneTxPackets (floatContext 4096 4 false) = some t ∧
      PartitionsPeriod (floatContext 4096 4 false) t := by
  rintro ⟨t, ht, hp⟩
  obtain ⟨k, hk, hle⟩ := exists_halvedBy (c := floatContext 4096 4 false) (by decide)
  have hspec := tuneTxPackets_spec hk hle ht
  have htotal := hp.total
  have hlen : (floatContext 4096 4 false).nframes *
      (floatContext 4096 4 false).frameSize = 65536 := rfl
  rw [hspec.pacnum_eq, hspec.pacdatalen_eq, hspec.txbuflen_eq, hlen] at htotal
  simp at htotal

end Vban
