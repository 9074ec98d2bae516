import Mathlib.Data.Nat.Prime.Basic
import Mathlib.Algebra.Order.Ring.Nat
import Vban.Emit.Partition

/-! The slices of `tx_timer_thread`, and when a cycle of them sends what one call sends. -/
namespace Vban

open Library

/-- `txdata_ind` after a slice. The comparison is in `int`, so no slices never compare equal. -/
def VbanTxContext.nextSlice (c : VbanTxContext) : VbanTxContext :=
  { c with txdataInd :=
      if (c.txdataInd : Int) = c.txTransactions - 1 then 0 else (c.txdataInd + 1) % 2 ^ 16 }

/-- One expiration of the timer. -/
def txTimerTick (refusals : Refusals) (c : VbanTxContext) : Sending :=
  let s := vbanSendT32Fragment refusals c
  if s.ending = .returned then { s with context := s.context.nextSlice } else s

/-- Expirations until `txdata_ind` is zero again, with all that they sent. -/
inductive SliceCycle (refusals : Refusals) :
    VbanTxContext → List SentPacket → VbanTxContext → Prop
  | last {c : VbanTxContext} {s : Sending} : txTimerTick refusals c = s → s.ending = .returned →
      s.context.txdataInd = 0 → SliceCycle refusals c s.sent s.context
  | more {c d : VbanTxContext} {s : Sending} {sent : List SentPacket} :
      txTimerTick refusals c = s → s.ending = .returned → s.context.txdataInd ≠ 0 →
      SliceCycle refusals s.context sent d → SliceCycle refusals c (s.sent ++ sent) d

/-- A cycle of slices does what one call of `vban_send_txbuffer` does. -/
def SlicesAsWhole (refusals : Refusals) (c : VbanTxContext) : Prop :=
  ∃ d, SliceCycle refusals c (vbanSendTxbuffer refusals c).sent d ∧
    (vbanSendTxbuffer refusals c).ending = .returned ∧ d.txdataInd = 0 ∧
      d.header = c.header.advance c.pacnum

variable {c d t : VbanTxContext} {refusals : Refusals} {sent : List SentPacket} {k m : Nat}

theorem trailerBytes_zero (c : VbanTxContext) : c.trailerBytes 0 0 = [] := List.take_zero

/-- A slice inside the buffer sends its pieces and moves on. -/
theorem txTimerTick_spec (refusals : Refusals) (hred : c.redundancy ≠ 255)
    (hlen : (c.txdataInd * c.pacnumT32 + c.pacnumT32) * c.pacdatalen ≤ c.txbuf.length) :
    ∃ data ret, txTimerTick refusals c =
      ⟨c.withCopies refusals (numbered c.header
          ((List.range' (c.txdataInd * c.pacnumT32) c.pacnumT32).map c.piece)),
        VbanTxContext.nextSlice
          { c with data := data, header := c.header.advance c.pacnumT32 }, .returned, ret⟩ := by
  obtain ⟨data, ret, h⟩ := sendPackets_range' refusals 0 (Nat.zero_le 6) hred hlen
  refine ⟨data, ret, ?_⟩
  have hfragment : vbanSendT32Fragment refusals c = c.sendPackets refusals 0 0
      ((List.range' (c.txdataInd * c.pacnumT32) c.pacnumT32).map (· * c.pacdatalen)) := by
    rw [vbanSendT32Fragment, List.range'_eq_map_range, List.map_map]
    rfl
  simp only [trailerBytes_zero, List.append_nil, List.map_id'] at h
  rw [txTimerTick, hfragment, h]
  rfl

theorem slice_inside (hind : c.txdataInd < c.txTransactions)
    (hlen : c.txTransactions * c.pacnumT32 * c.pacdatalen ≤ c.txbuf.length) :
    (c.txdataInd * c.pacnumT32 + c.pacnumT32) * c.pacdatalen ≤ c.txbuf.length := by
  refine le_trans (Nat.mul_le_mul_right _ ?_) hlen
  rw [← Nat.succ_mul]
  exact Nat.mul_le_mul_right _ hind

/-- The slices from `txdata_ind` on send the rest of the pieces. -/
theorem sliceCycle_rest (refusals : Refusals) (hred : c.redundancy ≠ 255)
    (hT : c.txTransactions ≤ 2 ^ 16) (hind : c.txdataInd + m + 1 = c.txTransactions)
    (hlen : c.txTransactions * c.pacnumT32 * c.pacdatalen ≤ c.txbuf.length) :
    ∃ data, SliceCycle refusals c
      (c.withCopies refusals (numbered c.header
        ((List.range' (c.txdataInd * c.pacnumT32) ((m + 1) * c.pacnumT32)).map c.piece)))
      { c with
        data := data
        header := c.header.advance ((m + 1) * c.pacnumT32)
        txdataInd := 0 } := by
  induction m generalizing c with
  | zero =>
    obtain ⟨data, ret, htick⟩ := txTimerTick_spec refusals hred
      (slice_inside (by omega) hlen)
    have hlast : (c.txdataInd : Int) = c.txTransactions - 1 := by omega
    simp only [VbanTxContext.nextSlice, if_pos hlast] at htick
    simp only [Nat.zero_add, Nat.one_mul]
    exact ⟨data, .last htick rfl rfl⟩
  | succ m ih =>
    obtain ⟨data, ret, htick⟩ := txTimerTick_spec refusals hred
      (slice_inside (by omega) hlen)
    have hnot : ¬(c.txdataInd : Int) = c.txTransactions - 1 := by omega
    have hmod : (c.txdataInd + 1) % 2 ^ 16 = c.txdataInd + 1 := Nat.mod_eq_of_lt (by omega)
    simp only [VbanTxContext.nextSlice, if_neg hnot, hmod] at htick
    obtain ⟨data', hrest⟩ := ih (c := { c with
      data := data, header := c.header.advance c.pacnumT32, txdataInd := c.txdataInd + 1 })
        hred hT (by simp only; omega) hlen
    have hcount : (m + 1 + 1) * c.pacnumT32 = c.pacnumT32 + (m + 1) * c.pacnumT32 := by
      rw [Nat.succ_mul, Nat.add_comm]
    refine ⟨data', ?_⟩
    rw [hcount, ← List.range'_append_1, List.map_append, numbered_append, withCopies_append,
      List.length_map, List.length_range', ← VBanHeader.advance_advance, ← Nat.succ_mul]
    exact .more htick rfl (Nat.succ_ne_zero _) hrest

theorem txTimerTick_context (h : (txTimerTick refusals c).ending = .returned) :
    ∃ data, (txTimerTick refusals c).context = VbanTxContext.nextSlice
      { c with data := data, header := c.header.advance c.pacnumT32 } := by
  rw [txTimerTick] at h ⊢
  by_cases hs : (vbanSendT32Fragment refusals c).ending = .returned
  · obtain ⟨data, hdata⟩ := sendPackets_context hs
    rw [List.length_map, List.length_range] at hdata
    rw [if_pos hs]
    exact ⟨data, congrArg VbanTxContext.nextSlice hdata⟩
  · rw [if_neg hs] at h
    exact absurd h hs

/-- How far a cycle advances the frame number: `n` slices of `pacnum_t32` packets, where without
transactions the index has to wrap in 16 bits. -/
theorem SliceCycle.advance (h : SliceCycle refusals c sent d) :
    ∃ n, d.header = c.header.advance (n * c.pacnumT32) ∧
      (c.txTransactions = 0 → (c.txdataInd + n) % 2 ^ 16 = 0) ∧
      (c.txdataInd < c.txTransactions → c.txTransactions < 2 ^ 16 →
        c.txdataInd + n = c.txTransactions) := by
  induction h with
  | @last c s hs hret hzero =>
    subst hs
    obtain ⟨data, hnext⟩ := txTimerTick_context hret
    rw [hnext] at hzero ⊢
    refine ⟨1, by rw [Nat.one_mul]; rfl, fun hT => ?_, fun hind hT => ?_⟩
    · simp only [VbanTxContext.nextSlice, hT] at hzero
      split_ifs at hzero <;> omega
    · simp only [VbanTxContext.nextSlice] at hzero
      split_ifs at hzero <;> omega
  | @more c d s sent hs hret hne _ ih =>
    subst hs
    obtain ⟨data, hnext⟩ := txTimerTick_context hret
    obtain ⟨n, hheader, hwrap, hcount⟩ := ih
    rw [hnext] at hne hheader hwrap hcount
    simp only [VbanTxContext.nextSlice] at hne hheader hwrap hcount
    rw [VBanHeader.advance_advance] at hheader
    refine ⟨n + 1, ?_, fun hT => ?_, fun hind hT => ?_⟩
    · rw [hheader, Nat.succ_mul, Nat.add_comm]
    · have := hwrap hT
      split_ifs at this <;> omega
    · split_ifs at hne hcount <;> omega

/-- The two divisions agree exactly on the slice length times a power of two. -/
theorem slices_cover_iff {n S : Nat} (hn : 1 ≤ n) (hS : 0 < S) (hfit : n / 2 ^ k ≤ S) :
    n / S * (2 ^ k * S / n) = 2 ^ k ↔ ∃ j, n = S * 2 ^ j := by
  constructor
  · intro h
    obtain ⟨j, -, hj⟩ := (Nat.dvd_prime_pow Nat.prime_two).mp (Dvd.intro _ h)
    have hpos : 0 < 2 ^ k * S / n := by
      apply Nat.pos_of_ne_zero
      intro hzero
      rw [hzero, Nat.mul_zero] at h
      exact (Nat.two_pow_pos k).ne h
    have hle : n ≤ n / S * S := by
      refine Nat.le_of_mul_le_mul_left ?_ hpos
      calc 2 ^ k * S / n * n ≤ 2 ^ k * S := Nat.div_mul_le_self _ _
        _ = n / S * (2 ^ k * S / n) * S := by rw [h]
        _ = 2 ^ k * S / n * (n / S * S) := by rw [Nat.mul_comm (n / S), Nat.mul_assoc]
    refine ⟨j, ?_⟩
    rw [← hj, Nat.mul_comm]
    exact hle.antisymm (Nat.div_mul_le_self n S)
  · rintro ⟨j, rfl⟩
    have hjk : j ≤ k := by
      by_contra hlt
      obtain ⟨i, rfl⟩ := Nat.exists_eq_add_of_lt (Nat.not_le.mp hlt)
      rw [Nat.add_assoc, Nat.pow_add, Nat.mul_left_comm,
        Nat.mul_div_cancel_left _ (Nat.two_pow_pos k),
        Nat.pow_succ] at hfit
      have hone := Nat.le_of_mul_le_mul_left (hfit.trans_eq (Nat.mul_one S).symm) hS
      have := Nat.two_pow_pos i
      omega
    rw [Nat.mul_div_cancel_left _ hS, Nat.mul_comm S, Nat.mul_div_mul_right _ _ hS,
      Nat.mul_div_cancel' (Nat.pow_dvd_pow 2 hjk)]

theorem sliceFrames_bounds (c : VbanTxContext) : 64 ≤ c.sliceFrames ∧ c.sliceFrames ≤ 256 := by
  rw [VbanTxContext.sliceFrames]
  split_ifs <;> omega

theorem TuneSpec.slices_eq (h : TuneSpec c t k) (hs : c.slicing) (hrate : c.samplerate < 352800) :
    t.txTransactions = c.nframes / c.sliceFrames ∧
      t.pacnumT32 = 2 ^ k * c.sliceFrames / c.nframes % 2 ^ 16 := by
  rw [← h.txNframes_eq hs]
  apply h.slices
  rw [h.slicing_eq, hs, decide_eq_true hrate]
  rfl

/-- How many packets the slices of a tuned context hold. -/
theorem TuneSpec.slices_cover_iff (h : TuneSpec c t k) (hs : c.slicing)
    (hrate : c.samplerate < 352800) (hn : 1 ≤ c.nframes) (hk : c.HalvedBy k) (hle : k ≤ 10) :
    t.txTransactions * t.pacnumT32 = 2 ^ k ↔ ∃ j, c.nframes = c.sliceFrames * 2 ^ j := by
  have hS := (sliceFrames_bounds c).1
  obtain ⟨hT, hP⟩ := h.slices_eq hs hrate
  have hfit : c.nframes / 2 ^ k ≤ c.sliceFrames := by
    have := (fits_iterate_iff.mp hk.1).2
    rwa [VbanTxContext.maxPacketFrames, if_pos hs] at this
  rw [← Vban.slices_cover_iff hn (by omega) hfit, hT, hP]
  rcases Nat.eq_zero_or_pos (c.nframes / c.sliceFrames) with hzero | hpos
  · rw [hzero, Nat.zero_mul, Nat.zero_mul]
  · have hSn : c.sliceFrames ≤ c.nframes := (Nat.div_pos_iff.mp hpos).2
    have hsmall : 2 ^ k * c.sliceFrames / c.nframes ≤ 1024 := by
      calc 2 ^ k * c.sliceFrames / c.nframes ≤ 2 ^ k * c.nframes / c.nframes :=
            Nat.div_le_div_right (Nat.mul_le_mul_left _ hSn)
        _ = 2 ^ k := Nat.mul_div_cancel _ hn
        _ ≤ 2 ^ 10 := Nat.pow_le_pow_right (by decide) hle
    rw [Nat.mod_eq_of_lt (Nat.lt_of_le_of_lt hsmall (by decide))]

theorem TuneSpec.slices_lt (h : TuneSpec c t k) (hs : c.slicing) (hrate : c.samplerate < 352800)
    (hn : c.nframes < 2 ^ 16) : t.txTransactions < 2 ^ 16 ∧ t.pacnumT32 < 2 ^ 16 := by
  obtain ⟨hT, hP⟩ := h.slices_eq hs hrate
  rw [hT, hP]
  exact ⟨(Nat.div_le_self _ _).trans_lt hn, Nat.mod_lt _ (by decide)⟩

theorem TuneSpec.pacnum_mul_le (h : TuneSpec c t k) : 2 ^ k * t.pacdatalen ≤ t.txbuflen := by
  rw [h.pacdatalen_eq, h.txbuflen_eq]
  exact (Nat.mul_div_le _ _).trans (Nat.mod_le _ _)

/-- Only slices that hold all packets advance the frame number as one call does. -/
theorem cover_of_slicesAsWhole (h : SlicesAsWhole refusals c) (hind : c.txdataInd = 0)
    (hT : c.txTransactions < 2 ^ 16) (hP : c.pacnumT32 < 2 ^ 16) (hpac : 0 < c.pacnum)
    (hpac' : c.pacnum ≤ 2 ^ 10) : c.txTransactions * c.pacnumT32 = c.pacnum := by
  obtain ⟨d, hcycle, -, -, hheader⟩ := h
  obtain ⟨n, hadvance, hwrap, hcount⟩ := hcycle.advance
  have hmod := VBanHeader.advance_inj (hadvance.symm.trans hheader)
  simp only [hind, Nat.zero_add] at hwrap hcount
  rcases Nat.eq_zero_or_pos c.txTransactions with hzero | hpos
  · -- 65536 slices at least, and a packet number that is no multiple of them
    obtain ⟨q, rfl⟩ := Nat.dvd_of_mod_eq_zero (hwrap hzero)
    rw [Nat.mul_assoc] at hmod
    omega
  · rw [hcount hpos hT] at hmod
    have hprod : c.txTransactions * c.pacnumT32 < 2 ^ 16 * 2 ^ 16 := Nat.mul_lt_mul'' hT hP
    omega

theorem slicesAsWhole_of_cover (hred : c.redundancy ≠ 255) (hx : c.xlen = 0)
    (hind : c.txdataInd = 0) (hT : c.txTransactions < 2 ^ 16)
    (hcover : c.txTransactions * c.pacnumT32 = c.pacnum) (hpac : c.pacnum ≠ 0)
    (hlen : c.pacnum * c.pacdatalen ≤ c.txbuf.length) : SlicesAsWhole refusals c := by
  obtain ⟨m, hm⟩ : ∃ m, c.txTransactions = m + 1 := by
    apply Nat.exists_eq_succ_of_ne_zero
    rintro hzero
    rw [hzero, Nat.zero_mul] at hcover
    exact hpac hcover.symm
  obtain ⟨data, hcycle⟩ := sliceCycle_rest refusals (m := m) hred hT.le (by omega)
    (by rwa [hcover])
  obtain ⟨data', ret, hwhole⟩ := vbanSendTxbuffer_spec refusals hred hlen
  have hpass : c.passportLength = 0 := by simp [VbanTxContext.passportLength, hx]
  have htrail : c.trailerLength = 0 := by simp [VbanTxContext.trailerLength, hpass, hx]
  rw [hpass, htrail, trailerBytes_zero] at hwhole
  simp only [List.append_nil, List.map_id'] at hwhole
  rw [hind, Nat.zero_mul, ← hm, hcover] at hcycle
  rw [SlicesAsWhole, hwhole]
  exact ⟨_, hcycle, rfl, rfl, rfl⟩

/-- A cycle of slices sends what one call sends exactly if the period is a slice length times a
power of two. -/
theorem slicing_as_whole_iff (hs : c.slicing) (hrate : c.samplerate < 352800) (hx : c.xlen = 0)
    (hind : c.txdataInd = 0) (hn : 1 ≤ c.nframes) (hn' : c.nframes ≤ 65535) :
    (∃ t, tuneTxPackets c = some t ∧ ∀ refusals samples, samples.length = t.txbuflen →
      SlicesAsWhole refusals { t with txbuf := samples }) ↔
        c.samplerate ≠ 0 ∧ c.redundancy ≠ 255 ∧ ∃ j, c.nframes = c.sliceFrames * 2 ^ j := by
  obtain ⟨k, hk, hle⟩ := exists_halvedBy (c := c) (by omega)
  constructor
  · rintro ⟨t, ht, hsend⟩
    have hspec := tuneTxPackets_spec hk hle ht
    have hpow := Nat.two_pow_pos k
    have hwhole := hsend (fun _ _ => 0) (List.replicate t.txbuflen 0) List.length_replicate
    refine ⟨fun hzero => ?_, fun h255 => ?_, ?_⟩
    · exact (tuneTxPackets_isSome_iff hn).mp ⟨t, ht⟩ ⟨hs, hzero⟩
    · obtain ⟨d, -, hend, -⟩ := hwhole
      refine absurd hend (vbanSendTxbuffer_endless ?_ ?_)
      · exact hspec.redundancy_eq.trans h255
      · exact hspec.pacnum_eq.trans_ne hpow.ne'
    · rw [← hspec.slices_cover_iff hs hrate hn hk hle, ← hspec.pacnum_eq]
      obtain ⟨hT, hP⟩ := hspec.slices_lt hs hrate (by omega)
      have hcover := cover_of_slicesAsWhole hwhole (hspec.txdataInd_eq.trans hind) hT hP
        (hpow.trans_eq hspec.pacnum_eq.symm)
        (hspec.pacnum_eq.trans_le (Nat.pow_le_pow_right (by decide) hle))
      exact hcover
  · rintro ⟨hzero, hred, hj⟩
    obtain ⟨t, ht⟩ := (tuneTxPackets_isSome_iff hn).mpr fun h => hzero h.2
    have hspec := tuneTxPackets_spec hk hle ht
    have hcover := (hspec.slices_cover_iff hs hrate hn hk hle).mpr hj
    refine ⟨t, ht, fun refusals samples hsamples => ?_⟩
    have hlen : t.pacnum * t.pacdatalen ≤ samples.length := by
      rw [hsamples, hspec.pacnum_eq]
      exact hspec.pacnum_mul_le
    apply slicesAsWhole_of_cover
    · exact hspec.redundancy_eq.trans_ne hred
    · exact hspec.xlen_eq.trans hx
    · exact hspec.txdataInd_eq.trans hind
    · exact (hspec.slices_lt hs hrate (by omega)).1
    · exact hcover.trans hspec.pacnum_eq.symm
    · exact hspec.pacnum_eq.trans_ne (Nat.two_pow_pos k).ne'
    · exact hlen

theorem slicing_as_whole_stereo :
    ∃ t, tuneTxPackets (floatContext 256 2 true) = some t ∧ ∀ refusals samples,
      samples.length = t.txbuflen → SlicesAsWhole refusals { t with txbuf := samples } :=
  (slicing_as_whole_iff (c := floatContext 256 2 true) rfl (by decide) rfl rfl (by decide)
    (by decide)).mpr ⟨by decide, by decide, 2, rfl⟩

/-- A period of 32 frames has no slice of 64. -/
theorem short_period_not_as_whole :
    ¬∃ t, tuneTxPackets (floatContext 32 2 true) = some t ∧ ∀ refusals samples,
      samples.length = t.txbuflen → SlicesAsWhole refusals { t with txbuf := samples } := by
  rintro ⟨t, ht, hsend⟩
  obtain ⟨k, hk, hle⟩ := exists_halvedBy (c := floatContext 32 2 true) (by decide)
  have hspec := tuneTxPackets_spec hk hle ht
  have hpow := Nat.two_pow_pos k
  have hwhole := hsend (fun _ _ => 0) (List.replicate t.txbuflen 0) List.length_replicate
  obtain ⟨hT, hP⟩ := hspec.slices_lt rfl (by decide) (by decide)
  have hcover := cover_of_slicesAsWhole hwhole hspec.txdataInd_eq hT hP
    (hpow.trans_eq hspec.pacnum_eq.symm)
    (hspec.pacnum_eq.trans_le (Nat.pow_le_pow_right (by decide) hle))
  have hzero : t.txTransactions = 0 := (hspec.slices_eq rfl (by decide)).1
  rw [hzero, Nat.zero_mul, hspec.pacnum_eq] at hcover
  omega

end Vban
