import Mathlib.Data.List.GetD
import Vban.Library.Double
import Vban.Receive.AlsaUtil

/-! What the ALSA utility tells the resampler about its buffers, over the packets of a run. -/
namespace Vban

open Library Discovery

/-- `resamplerInBufLen * (double)samplerate / (double)VBanSRList[...] + 2` as a `uint32_t`. -/
def doubleOutLen (inLen samplerate sr : Nat) : Nat :=
  ⌊roundDouble (roundDouble (roundDouble (inLen * samplerate) / sr) + 2)⌋₊

variable {R : Type}

def NetEnv.withDoubles (env : NetEnv R) : NetEnv R := { env with outLen := doubleOutLen }

/-- The frames that `n` frames at the rate `sr` may become. -/
def outAllowance (samplerate n sr : Nat) : Nat := n * samplerate / sr + 2

/-- `VBanSRList[rxPacket.header.format_SR&VBAN_SR_MASK]` -/
def VBanPacket.rate (p : VBanPacket) : Nat :=
  vbanSRList.getD (p.header.formatSR &&& vbanSrMask).toNat 0

/-- The rate index is one of `VBanSRList`. -/
def VBanPacket.Rated (p : VBanPacket) : Prop :=
  (p.header.formatSR &&& vbanSrMask).toNat < vbanSrMaxnumber

/-- The size of the last packet, and the last packets that changed the size and that raised it. -/
structure PacketSizes where
  size : Nat
  changed : Option VBanPacket
  raised : Option VBanPacket

def PacketSizes.next (z : PacketSizes) (p : VBanPacket) : PacketSizes where
  size := p.samples
  changed := if p.samples ≠ z.size then some p else z.changed
  raised := if z.size < p.samples then some p else z.raised

def packetSizes (ps : List VBanPacket) : PacketSizes := ps.foldl PacketSizes.next ⟨0, none, none⟩

/-- A packet of the same size has the allowance that it would have at the rate of the packet that
changed the size, and one that does not raise the size has no more than the packet that did. -/
def PacketSizes.Fits (z : PacketSizes) (samplerate : Nat) (p : VBanPacket) : Prop :=
  (p.samples = z.size → ∀ q, z.changed = some q →
    outAllowance samplerate p.samples q.rate = outAllowance samplerate p.samples p.rate) ∧
  (p.samples ≤ z.size → ∀ q, z.raised = some q →
    outAllowance samplerate p.samples p.rate ≤ outAllowance samplerate q.samples q.rate)

namespace NetThread

/-- `u` is the thread when it calls the resampler for a packet. -/
def Calls (env : NetEnv R) (t : NetThread R) (p : VBanPacket) (u : NetThread R) : Prop :=
  t.resizeBuffers env p = .ok u ∧ (∃ inbuf, u.convertFrames env p = .ok inbuf) ∧
    u.resampler ≠ none

/-- The lengths are those of the packet, and the vectors hold as many frames. -/
structure CallSound (u : NetThread R) (p : VBanPacket) : Prop where
  inBufLen_eq : u.resamplerInBufLen = p.samples
  outBufLen_eq : u.resamplerOutBufLen = outAllowance u.samplerate p.samples p.rate
  in_room : u.resamplerInBufLen * u.nboutputs ≤ u.resamplerInBuf.length
  out_room : u.resamplerOutBufLen * u.nboutputs ≤ u.resamplerOutBuf.length

/-- The resampler writes no more than `out_count` frames. -/
def WritesWithin (env : NetEnv R) (t : NetThread R) (p : VBanPacket) : Prop :=
  ∀ u inbuf resampler, t.resizeBuffers env p = .ok u → u.convertFrames env p = .ok inbuf →
    u.resampler = some resampler →
    (env.process resampler inbuf u.resamplerInBufLen u.resamplerOutBufLen).written.length ≤
      u.resamplerOutBufLen * u.nboutputs

/-- What the buffers are after the packets. -/
structure Buffered (ps : List VBanPacket) (t : NetThread R) : Prop where
  samplerate_eq : t.samplerate = 48000
  nboutputs_ne : t.resampler ≠ none → t.nboutputs ≠ 0
  inBufLen_eq : t.resamplerInBufLen = (packetSizes ps).size
  in_room : t.resamplerInBufLen * t.nboutputs ≤ t.resamplerInBuf.length
  changed : ∀ q, (packetSizes ps).changed = some q →
    t.resamplerOutBufLen = outAllowance 48000 (packetSizes ps).size q.rate
  raised : ∀ q, (packetSizes ps).raised = some q →
    t.resamplerOutBuf.length = outAllowance 48000 q.samples q.rate * t.nboutputs

end NetThread

/-- A datagram or a period, with the packets that went to the resampler so far. -/
inductive CallStep (env : NetEnv R) : AlsaUtil R × List VBanPacket → AlsaEvent R →
    AlsaUtil R × List VBanPacket → Prop
  | packet {s t : AlsaUtil R} {ps : List VBanPacket} {bytes : List UInt8} {fromIp : UInt32}
      (haudio : s.thread.RunsAudio bytes fromIp)
      (hwrites : s.thread.WritesWithin env (NetThread.packetOf bytes))
      (h : s.receive env bytes fromIp = .ok t) :
      CallStep env (s, ps) (.receive bytes fromIp) (t, ps ++ [NetThread.packetOf bytes])
  | datagram {s t : AlsaUtil R} {ps : List VBanPacket} {bytes : List UInt8} {fromIp : UInt32}
      (haudio : ¬s.thread.RunsAudio bytes fromIp) (h : s.receive env bytes fromIp = .ok t) :
      CallStep env (s, ps) (.receive bytes fromIp) (t, ps)
  | period {s t : AlsaUtil R} {ps : List VBanPacket} {setRratio : R → R}
      {frames : List (List UInt8)} (h : s.period setRratio = .ok (frames, t)) :
      CallStep env (s, ps) (.period setRratio) (t, ps)

/-- If the event is a packet for the resampler, it fits those before it. -/
def FitsSizes (x : AlsaUtil R × List VBanPacket) : AlsaEvent R → Prop
  | .receive bytes fromIp => x.1.thread.RunsAudio bytes fromIp →
    (packetSizes x.2).Fits x.1.thread.samplerate (NetThread.packetOf bytes)
  | .period _ => True

variable {env : NetEnv R} {s s' : AlsaUtil R} {t u v : NetThread R} {p q : VBanPacket}
  {ps ps' : List VBanPacket} {e : AlsaEvent R} {es : List (AlsaEvent R)} {bytes : List UInt8}
  {fromIp : UInt32} {sr : Nat}

theorem doubleOutLen_eq {n : Nat} (hn : 0 < n) (hn' : n ≤ 256) (hsr : 0 < sr)
    (hsr' : sr ≤ 705600) : doubleOutLen n 48000 sr = outAllowance 48000 n sr := by
  have hproduct : roundDouble ((n : ℚ) * (48000 : ℕ)) = (n * 48000 : ℕ) := by
    have hexact := roundDouble_natCast (n := n * 48000) (by omega)
    rwa [Nat.cast_mul] at hexact ⊢
  have htwo : (2 : ℚ) = (2 : ℕ) := rfl
  rw [doubleOutLen, hproduct, htwo, floor_quotient (by omega) hsr (by decide) (by omega)]
  rfl

theorem VBanPacket.samples_bounds (p : VBanPacket) : 0 < p.samples ∧ p.samples ≤ 256 := by
  have hlt := p.header.formatNbs.toNat_lt
  rw [samples]
  omega

theorem VBanPacket.Rated.srList_eq (h : p.Rated) :
    srList (p.header.formatSR &&& vbanSrMask) = .ok p.rate ∧ 0 < p.rate ∧ p.rate ≤ 705600 := by
  have hall : ∀ sr ∈ vbanSRList, 0 < sr ∧ sr ≤ 705600 := by decide
  have hlt : (p.header.formatSR &&& vbanSrMask).toNat < vbanSRList.length := h
  have hrate : p.rate = vbanSRList[(p.header.formatSR &&& vbanSrMask).toNat] :=
    List.getD_eq_getElem _ _ hlt
  rw [srList, List.getElem?_eq_getElem hlt, hrate]
  exact ⟨rfl, hall _ (List.getElem_mem hlt)⟩

theorem rated_of_srList (h : srList (p.header.formatSR &&& vbanSrMask) = .ok sr) : p.Rated := by
  by_contra hnone
  rw [srList, List.getElem?_eq_none (not_lt.mp hnone)] at h
  cases h

@[simp] theorem packetSizes_concat :
    packetSizes (ps ++ [p]) = (packetSizes ps).next p := List.foldl_concat _ _ _ _

theorem packetSizes_singleton : packetSizes [p] = ⟨p.samples, some p, some p⟩ := by
  have hpos := p.samples_bounds.1
  change PacketSizes.next ⟨0, none, none⟩ p = _
  rw [PacketSizes.next, if_pos (Nat.pos_iff_ne_zero.mp hpos), if_pos hpos]

theorem packetSizes_nil_fits (samplerate : Nat) (p : VBanPacket) :
    (packetSizes []).Fits samplerate p := by
  constructor
  · intro _ q hq
    cases hq
  · intro _ q hq
    cases hq

/-- A second packet like the first fits. -/
theorem packetSizes_singleton_fits {q : VBanPacket} (samplerate : Nat)
    (hsamples : p.samples = q.samples) (hrate : p.rate = q.rate) :
    (packetSizes [q]).Fits samplerate p := by
  rw [packetSizes_singleton]
  constructor
  · intro _ r hr
    rw [← Option.some.inj hr, hrate]
  · intro _ r hr
    rw [← Option.some.inj hr, hsamples, hrate]

/-- The first packet changes the size and raises it. -/
theorem packetSizes_present (ps : List VBanPacket) (h : 0 < (packetSizes ps).size) :
    (∃ q, (packetSizes ps).changed = some q) ∧ ∃ q, (packetSizes ps).raised = some q := by
  induction ps using List.reverseRecOn with
  | nil => exact absurd h (Nat.lt_irrefl 0)
  | append_singleton ps p ih =>
    rw [packetSizes_concat, PacketSizes.next]
    dsimp only
    obtain ⟨hpos, -⟩ := p.samples_bounds
    rcases Nat.eq_zero_or_pos (packetSizes ps).size with hzero | hsize
    · rw [hzero, if_pos (Nat.pos_iff_ne_zero.mp hpos), if_pos hpos]
      exact ⟨⟨p, rfl⟩, p, rfl⟩
    · obtain ⟨⟨q, hq⟩, q', hq'⟩ := ih hsize
      constructor
      · split_ifs
        · exact ⟨p, rfl⟩
        · exact ⟨q, hq⟩
      · split_ifs
        · exact ⟨p, rfl⟩
        · exact ⟨q', hq'⟩

namespace NetThread

/-- What the resizing does to the length that the resampler is told and to the vectors. -/
structure Resized (t : NetThread R) (p : VBanPacket) (u : NetThread R) : Prop where
  samplerate_eq : u.samplerate = t.samplerate
  nboutputs_eq : u.nboutputs = t.nboutputs
  resampler_eq : u.resampler = t.resampler
  inBufLen_eq : u.resamplerInBufLen = p.samples
  in_room : t.resamplerInBufLen * t.nboutputs ≤ t.resamplerInBuf.length →
    u.resamplerInBufLen * u.nboutputs ≤ u.resamplerInBuf.length
  outBufLen_same : p.samples = t.resamplerInBufLen → u.resamplerOutBufLen = t.resamplerOutBufLen
  outBufLen_changed : p.samples ≠ t.resamplerInBufLen →
    u.resamplerOutBufLen = outAllowance t.samplerate p.samples p.rate
  outBuf_same : p.samples ≤ t.resamplerInBufLen → u.resamplerOutBuf = t.resamplerOutBuf
  outBuf_raised : t.resamplerInBufLen < p.samples →
    u.resamplerOutBuf.length = outAllowance t.samplerate p.samples p.rate * t.nboutputs

theorem length_vectorResize (xs : List CFloat) (n : Nat) : (vectorResize xs n).length = n := by
  rw [vectorResize, List.length_take, List.length_append, List.length_replicate]
  omega

theorem outLen_eq (env : NetEnv R) (hrate : t.samplerate = 48000)
    (hsr : srList (p.header.formatSR &&& vbanSrMask) = .ok sr) :
    env.withDoubles.outLen p.samples t.samplerate sr =
      outAllowance t.samplerate p.samples p.rate := by
  obtain ⟨hpos, hle⟩ := p.samples_bounds
  obtain ⟨hlist, hrpos, hrle⟩ := (rated_of_srList hsr).srList_eq
  obtain rfl := Except.ok.inj (hsr.symm.trans hlist)
  rw [hrate]
  exact doubleOutLen_eq hpos hle hrpos hrle

theorem resized (hrate : t.samplerate = 48000)
    (h : t.resizeBuffers env.withDoubles p = .ok u) : t.Resized p u := by
  rw [resizeBuffers] at h
  change (if t.resamplerInBufLen < p.samples then _ else
    if t.resamplerInBufLen > p.samples then _ else _) = _ at h
  rcases Nat.lt_trichotomy t.resamplerInBufLen p.samples with hlt | heq | hgt
  · rw [if_pos hlt] at h
    obtain ⟨sr, hsr, h⟩ := bind_eq_ok.mp h
    obtain rfl := Except.ok.inj h
    exact
      { samplerate_eq := rfl
        nboutputs_eq := rfl
        resampler_eq := rfl
        inBufLen_eq := rfl
        in_room := fun _ => (length_vectorResize _ _).ge
        outBufLen_same := fun heq => absurd heq hlt.ne'
        outBufLen_changed := fun _ => outLen_eq env hrate hsr
        outBuf_same := fun hle => absurd hlt (not_lt.mpr hle)
        outBuf_raised := fun _ => by
          rw [← outLen_eq env hrate hsr]
          exact length_vectorResize _ _ }
  · rw [if_neg heq.not_lt, if_neg heq.not_gt] at h
    obtain rfl := Except.ok.inj h
    exact
      { samplerate_eq := rfl
        nboutputs_eq := rfl
        resampler_eq := rfl
        inBufLen_eq := heq
        in_room := id
        outBufLen_same := fun _ => rfl
        outBufLen_changed := fun hne => absurd heq.symm hne
        outBuf_same := fun _ => rfl
        outBuf_raised := fun hlt => absurd heq hlt.ne }
  · rw [if_neg hgt.not_gt, if_pos hgt] at h
    obtain ⟨sr, hsr, h⟩ := bind_eq_ok.mp h
    obtain rfl := Except.ok.inj h
    exact
      { samplerate_eq := rfl
        nboutputs_eq := rfl
        resampler_eq := rfl
        inBufLen_eq := rfl
        in_room := fun hroom => (Nat.mul_le_mul_right _ hgt.le).trans hroom
        outBufLen_same := fun heq => absurd heq hgt.ne
        outBufLen_changed := fun _ => outLen_eq env hrate hsr
        outBuf_same := fun _ => rfl
        outBuf_raised := fun hlt => absurd hgt (not_lt.mpr hlt.le) }

/-- The call is sound exactly if the packet fits those before it. -/
theorem Buffered.callSound_iff (ht : t.Buffered ps) (hr : t.Resized p u)
    (hopen : u.resampler ≠ none) :
    u.CallSound p ↔ (packetSizes ps).Fits t.samplerate p := by
  have hnboutputs : 0 < t.nboutputs :=
    Nat.pos_of_ne_zero (ht.nboutputs_ne (hr.resampler_eq ▸ hopen))
  have hsize := ht.inBufLen_eq
  have hrate := ht.samplerate_eq
  constructor
  · rintro ⟨-, hout, -, hroom⟩
    rw [hr.samplerate_eq] at hout
    constructor
    · intro hsame q hq
      rw [← hout, hr.outBufLen_same (hsame.trans hsize.symm), ht.changed q hq, hsame, hrate]
    · intro hle q hq
      rw [hout, hr.nboutputs_eq, hr.outBuf_same (hle.trans hsize.ge), ht.raised q hq] at hroom
      rw [hrate] at hroom ⊢
      exact Nat.le_of_mul_le_mul_right hroom hnboutputs
  · rintro ⟨hsame, hle⟩
    have hpresent := packetSizes_present ps
    have hpos := p.samples_bounds.1
    have hout : u.resamplerOutBufLen = outAllowance t.samplerate p.samples p.rate := by
      by_cases heq : p.samples = (packetSizes ps).size
      · obtain ⟨⟨q, hq⟩, -⟩ := hpresent (heq ▸ hpos)
        rw [hr.outBufLen_same (heq.trans hsize.symm), ht.changed q hq, ← heq, ← hrate]
        exact hsame heq q hq
      · exact hr.outBufLen_changed fun h => heq (h.trans hsize)
    refine ⟨hr.inBufLen_eq, by rw [hr.samplerate_eq, hout], hr.in_room ht.in_room, ?_⟩
    rw [hout, hr.nboutputs_eq]
    rcases Nat.lt_or_ge (packetSizes ps).size p.samples with hlt | hge
    · exact (hr.outBuf_raised (hsize ▸ hlt)).ge
    · obtain ⟨-, q, hq⟩ := hpresent (hpos.trans_le hge)
      rw [hr.outBuf_same (hge.trans hsize.ge), ht.raised q hq, ← hrate]
      exact Nat.mul_le_mul_right _ (hle hge q hq)

theorem Buffered.resize (ht : t.Buffered ps) (hr : t.Resized p u) : u.Buffered (ps ++ [p]) := by
  have hsize := ht.inBufLen_eq
  constructor
  · exact hr.samplerate_eq.trans ht.samplerate_eq
  · rw [hr.resampler_eq, hr.nboutputs_eq]
    exact ht.nboutputs_ne
  · rw [packetSizes_concat]
    exact hr.inBufLen_eq
  · exact hr.in_room ht.in_room
  · rw [packetSizes_concat, PacketSizes.next]
    intro q hq
    dsimp only at hq ⊢
    split_ifs at hq with hne
    · obtain rfl := Option.some.inj hq
      rw [hr.outBufLen_changed (hsize ▸ hne), ht.samplerate_eq]
    · have heq := not_not.mp hne
      rw [hr.outBufLen_same (heq.trans hsize.symm), ht.changed q hq, heq]
  · rw [packetSizes_concat, PacketSizes.next]
    intro q hq
    dsimp only at hq
    rw [hr.nboutputs_eq]
    split_ifs at hq with hlt
    · obtain rfl := Option.some.inj hq
      rw [hr.outBuf_raised (hsize ▸ hlt), ht.samplerate_eq]
    · rw [hr.outBuf_same ((not_lt.mp hlt).trans hsize.ge), ht.raised q hq]

/-- After one packet the buffers are those of that packet. -/
theorem Buffered.single (ht : t.Buffered [p]) : t.resamplerInBufLen = p.samples ∧
    t.resamplerOutBufLen = outAllowance 48000 p.samples p.rate ∧
      t.resamplerOutBuf.length = outAllowance 48000 p.samples p.rate * t.nboutputs := by
  obtain ⟨-, -, hinBufLen, -, hchanged, hraised⟩ := ht
  rw [packetSizes_singleton] at hinBufLen hchanged hraised
  exact ⟨hinBufLen, hchanged p rfl, hraised p rfl⟩

/-- What is written into vectors that have room for it leaves their sizes alone. -/
theorem Buffered.congr (ht : t.Buffered ps) (hsamplerate : u.samplerate = t.samplerate)
    (hnboutputs : u.nboutputs = t.nboutputs) (hopen : u.resampler ≠ none → t.nboutputs ≠ 0)
    (hinBufLen : u.resamplerInBufLen = t.resamplerInBufLen)
    (hinBuf : t.resamplerInBuf.length ≤ u.resamplerInBuf.length)
    (houtBufLen : u.resamplerOutBufLen = t.resamplerOutBufLen)
    (houtBuf : u.resamplerOutBuf.length = t.resamplerOutBuf.length) : u.Buffered ps := by
  constructor
  · exact hsamplerate.trans ht.samplerate_eq
  · rwa [hnboutputs]
  · exact hinBufLen.trans ht.inBufLen_eq
  · rw [hinBufLen, hnboutputs]
    exact ht.in_room.trans hinBuf
  · rw [houtBufLen]
    exact ht.changed
  · rw [houtBuf, hnboutputs]
    exact ht.raised

theorem le_length_overwrite (buf : List CFloat) (start : Nat) (xs : List CFloat) :
    buf.length ≤ (overwrite buf start xs).length := by
  simp only [overwrite, List.length_append, List.length_take, List.length_drop]
  omega

/-- The conversion loop does not make the vector smaller. -/
theorem le_length_convertFrames {inbuf : List CFloat} (h : u.convertFrames env p = .ok inbuf) :
    u.resamplerInBuf.length ≤ inbuf.length := by
  obtain ⟨size, -, h⟩ := bind_eq_ok.mp h
  refine foldlM_ok_invariant (I := fun buf => u.resamplerInBuf.length ≤ buf.length) h ?_ le_rfl
  intro buf frame _ buf' hbuf hframe
  obtain ⟨samples, -, hframe⟩ := bind_eq_ok.mp hframe
  obtain rfl := Except.ok.inj hframe
  exact hbuf.trans (le_length_overwrite buf _ samples)

theorem Buffered.enqueue (ht : t.Buffered ps) (hfits : (packetSizes ps).Fits t.samplerate p)
    (hwrites : t.WritesWithin env.withDoubles p) (h : t.enqueue env.withDoubles p = .ok v) :
    v.Buffered (ps ++ [p]) := by
  obtain ⟨u, inbuf, resampler, out, ringbuffer, hu, hinbuf, hopen, rfl, rfl⟩ := enqueue_cases h
  have hr := resized ht.samplerate_eq hu
  have hne : u.resampler ≠ none := by simp [hopen]
  have hroom := ((ht.callSound_iff hr hne).mpr hfits).out_room
  have hwritten := hwrites u inbuf resampler hu hinbuf hopen
  have hu' := ht.resize hr
  refine hu'.congr rfl rfl (fun _ => hu'.nboutputs_ne hne) rfl (le_length_convertFrames hinbuf)
    rfl ?_
  exact length_overwrite (by omega)

theorem receive_of_runsAudio (h : t.RunsAudio bytes fromIp) :
    t.receive env bytes fromIp = t.enqueue env (packetOf bytes) := by
  rw [receive, if_pos h.1, if_pos h.2]

/-- Other datagrams leave the buffers alone. -/
theorem Buffered.receive (ht : t.Buffered ps) (haudio : ¬t.RunsAudio bytes fromIp)
    (h : t.receive env bytes fromIp = .ok u) : u.Buffered ps := by
  rw [NetThread.receive] at h
  split_ifs at h with hpacket hplays hnew
  · exact absurd ⟨hpacket, hplays⟩ haudio
  · obtain ⟨resampler, rfl⟩ := createStream_cases h
    exact ht.congr rfl rfl (fun _ => hnew.1) rfl le_rfl rfl rfl
  · obtain rfl := Except.ok.inj h
    exact ht
  · obtain rfl := Except.ok.inj h
    exact ht

end NetThread

theorem checkTimeout_buffered (hs : s.thread.Buffered ps) : s.checkTimeout.thread.Buffered ps := by
  rw [AlsaUtil.checkTimeout]
  split_ifs
  · exact hs
  · exact hs.congr rfl rfl (fun hopen => absurd rfl hopen) rfl le_rfl rfl rfl
  · exact hs
  · exact hs

theorem period_buffered {setRratio : R → R} {frames : List (List UInt8)}
    (h : s.period setRratio = .ok (frames, s')) (hs : s.thread.Buffered ps) :
    s'.thread.Buffered ps := by
  refine AlsaUtil.period_invariant (I := fun s => s.thread.Buffered ps) ?_ ?_ ?_ h hs
  · intro u rb outFrameBuf hu
    exact hu.congr rfl rfl hu.nboutputs_ne rfl le_rfl rfl rfl
  · intro u hu
    exact checkTimeout_buffered hu
  · intro u hu
    exact hu.congr rfl rfl (fun hopen => hu.nboutputs_ne (by simpa using hopen)) rfl le_rfl rfl rfl

theorem CallStep.buffered (h : CallStep env.withDoubles (s, ps) e (s', ps'))
    (hfits : FitsSizes (s, ps) e) (hs : s.thread.Buffered ps) : s'.thread.Buffered ps' := by
  cases h with
  | packet haudio hwrites h =>
    obtain ⟨henqueue, -⟩ := receive_thread h
    rw [NetThread.receive_of_runsAudio haudio] at henqueue
    exact hs.enqueue (hfits haudio) hwrites henqueue
  | datagram haudio h => exact hs.receive haudio (receive_thread h).1
  | period h => exact period_buffered h hs

theorem alsaUtilMain_buffered {host : AlsaHost} {argv : List (List UInt8)}
    (h : alsaUtilMain host argv = some s) : s.thread.Buffered [] := by
  rw [alsaUtilMain] at h
  split_ifs at h
  obtain ⟨nplay, -, rfl⟩ := Option.map_eq_some_iff.mp h
  constructor
  · rfl
  · exact fun hopen => absurd rfl hopen
  · rfl
  · exact (Nat.zero_mul _).le.trans (Nat.zero_le _)
  · intro q hq
    cases hq
  · intro q hq
    cases hq

theorem run_buffered {host : AlsaHost} {argv : List (List UInt8)} {s₀ : AlsaUtil R}
    (hmain : alsaUtilMain host argv = some s₀)
    (hrun : Run (fun x e y => CallStep env.withDoubles x e y ∧ FitsSizes x e) (s₀, []) es
      (s, ps)) : s.thread.Buffered ps :=
  hrun.invariant (I := fun x => x.1.thread.Buffered x.2)
    (fun _ _ _ hs h => h.1.buffered h.2 hs) (alsaUtilMain_buffered hmain)

/-- After packets that each fitted those before it, a call of the resampler is sound exactly if its
packet fits as well. -/
theorem call_sound_iff {host : AlsaHost} {argv : List (List UInt8)} {s₀ : AlsaUtil R}
    (hmain : alsaUtilMain host argv = some s₀)
    (hrun : Run (fun x e y => CallStep env.withDoubles x e y ∧ FitsSizes x e) (s₀, []) es (s, ps))
    (hcall : s.thread.Calls env.withDoubles p u) :
    u.CallSound p ↔ (packetSizes ps).Fits s.thread.samplerate p := by
  have hs := run_buffered hmain hrun
  exact hs.callSound_iff (NetThread.resized hs.samplerate_eq hcall.1) hcall.2.2

namespace NetThread

theorem convertFrames_onlyFails : OnlyFails Fault.OutOfBounds (t.convertFrames env p) := by
  refine bitResolutionSize_onlyFails.bind fun size => ?_
  refine onlyFails_foldlM (fun inbuf frame => ?_) _ _
  exact netFrame_onlyFails.bind fun samples => onlyFails_ok

theorem exists_convertFrames (env : NetEnv R) (hrated : t.resamplerInBufLen ≠ p.samples → p.Rated)
    (hfits : p.NetAudioFits t.nboutputs t.offset) :
    ∃ u inbuf, t.resizeBuffers env p = .ok u ∧ u.convertFrames env p = .ok inbuf := by
  have hresize : Avoids Fault.OutOfBounds (t.resizeBuffers env p) :=
    resizeBuffers_avoids.mpr hrated
  obtain ⟨u, hu⟩ := resizeBuffers_onlyFails.avoids_iff.mp hresize
  have hfits' : p.NetAudioFits u.nboutputs u.offset := by
    obtain ⟨inBufLen, inBuf, outBufLen, outBuf, rfl⟩ := resizeBuffers_spec hu
    exact hfits
  have hconvert : Avoids Fault.OutOfBounds (u.convertFrames env p) :=
    convertFrames_avoids.mpr hfits'
  obtain ⟨inbuf, hinbuf⟩ := convertFrames_onlyFails.avoids_iff.mp hconvert
  exact ⟨u, inbuf, hu, hinbuf⟩

/-- A packet whose data and rate are in bounds gets to the resampler. -/
theorem exists_calls (env : NetEnv R) {resampler : R} (hrated : p.Rated)
    (hfits : p.NetAudioFits t.nboutputs t.offset) (hopen : t.resampler = some resampler) :
    ∃ u v, t.Calls env p u ∧ t.enqueue env p = .ok v := by
  obtain ⟨u, inbuf, hu, hinbuf⟩ := exists_convertFrames env (fun _ => hrated) hfits
  have hopen' : u.resampler = some resampler := by
    obtain ⟨inBufLen, inBuf, outBufLen, outBuf, rfl⟩ := resizeBuffers_spec hu
    exact hopen
  obtain ⟨v, hv⟩ : ∃ v, t.enqueue env p = .ok v := by
    rw [NetThread.enqueue, hu, ok_bind, hinbuf, ok_bind, hopen']
    exact ⟨_, rfl⟩
  exact ⟨u, v, ⟨hu, ⟨inbuf, hinbuf⟩, by simp [hopen']⟩, hv⟩

end NetThread

/-- A resampler at ratio one that stops when its output is full. Its state is its channels. -/
def unitRatioEnv : NetEnv Nat where
  ofInt _ := 0
  div _ _ := 0
  process nchan inpData inpCount outCount :=
    ⟨nchan, outCount - inpCount, inpData.take (outCount * nchan)⟩
  outLen := doubleOutLen
  setup _ _ nboutputs := some nboutputs

/-- A stereo utility that plays a stream. -/
structure AlsaUtil.Playing (nuFrame : UInt32) (s : AlsaUtil Nat) : Prop where
  rxip_eq : s.thread.rxip = 0x0100007F
  name_eq : s.thread.streamnamerx = [65]
  nboutputs_eq : s.thread.nboutputs = 2
  offset_eq : s.thread.offset = 0
  resampler_eq : s.thread.resampler = some 2
  created_eq : s.created = true
  rxNuFrame_eq : s.thread.rxNuFrame = nuFrame

/-- A packet of 32-bit samples in one channel. -/
def monoHeader (sr nbs : UInt8) (nuFrame : UInt32) : VBanHeader := audioHeader sr nbs 0 4 nuFrame

theorem monoHeader_header (sr nbs : UInt8) (nuFrame : UInt32) :
    (NetThread.packetOf (monoHeader sr nbs nuFrame).toBytes).header = monoHeader sr nbs nuFrame :=
  VBanPacket.zero.header_store_toBytes _

theorem monoHeader_samples (sr nbs : UInt8) (nuFrame : UInt32) :
    (NetThread.packetOf (monoHeader sr nbs nuFrame).toBytes).samples = nbs.toNat + 1 := by
  rw [VBanPacket.samples, monoHeader_header]
  rfl

theorem monoHeader_rate (sr nbs : UInt8) (nuFrame : UInt32) :
    (NetThread.packetOf (monoHeader sr nbs nuFrame).toBytes).rate =
      vbanSRList.getD (sr &&& vbanSrMask).toNat 0 := by
  rw [VBanPacket.rate, monoHeader_header]
  rfl

/-- The first packet of a stream sets up the resampler. -/
theorem exists_playing : ∃ s₀ s : AlsaUtil Nat,
    alsaUtilMain stereoHost [chars "streamnamerx=A"] = some s₀ ∧
      Run (fun x e y => CallStep unitRatioEnv.withDoubles x e y ∧ FitsSizes x e) (s₀, [])
        [.receive (monoHeader 4 63 1).toBytes 0x0100007F] (s, []) ∧ s.Playing 1 := by
  obtain ⟨s₀, hmain⟩ : ∃ s : AlsaUtil Nat,
      alsaUtilMain stereoHost [chars "streamnamerx=A"] = some s := ⟨_, rfl⟩
  obtain ⟨s, hs, hplaying⟩ : ∃ s, s₀.receive unitRatioEnv.withDoubles (monoHeader 4 63 1).toBytes
      0x0100007F = .ok s ∧ s.Playing 1 := by
    obtain rfl := Option.some.inj hmain
    exact ⟨_, rfl, rfl, rfl, rfl, rfl, rfl, rfl, rfl⟩
  have haudio : ¬s₀.thread.RunsAudio (monoHeader 4 63 1).toBytes 0x0100007F := by
    obtain rfl := Option.some.inj hmain
    exact fun haudio => absurd haudio.2.1 (by decide)
  exact ⟨s₀, s, hmain, .single ⟨.datagram haudio hs, fun h => absurd h haudio⟩, hplaying⟩

namespace AlsaUtil.Playing

variable {s : AlsaUtil Nat} {nuFrame next : UInt32} {sr nbs : UInt8}

/-- A packet of the stream that is played goes to the resampler. -/
theorem runsAudio (hs : s.Playing nuFrame) (hnext : nuFrame ≠ next)
    (haudio : sr &&& vbanProtocolMask = vbanProtocolAudio)
    (hnamed : (NetThread.packetOf (monoHeader sr nbs next).toBytes).streamnameString = [65]) :
    s.thread.RunsAudio (monoHeader sr nbs next).toBytes 0x0100007F := by
  refine ⟨⟨?_, ?_, ?_⟩, hs.rxip_eq, ?_, ?_⟩
  · intro hnil
    have hlength := (monoHeader sr nbs next).length_toBytes
    rw [hnil] at hlength
    cases hlength
  · rw [monoHeader_header]
    rfl
  · rw [VBanPacket.protocol, monoHeader_header]
    exact haudio
  · rw [NetThread.Named, hs.name_eq, hnamed]
    decide
  · rw [hs.rxNuFrame_eq, monoHeader_header]
    exact hnext

theorem netAudioFits (hs : s.Playing nuFrame) (sr nbs : UInt8) (next : UInt32) :
    (NetThread.packetOf (monoHeader sr nbs next).toBytes).NetAudioFits s.thread.nboutputs
      s.thread.offset := by
  have hsmall := nbs.toNat_lt
  rw [hs.nboutputs_eq, hs.offset_eq, VBanPacket.NetAudioFits, VBanPacket.samples,
    VBanPacket.sampleSize, VBanPacket.channels, monoHeader_header]
  refine ⟨(by decide : (4 : UInt8).toNat < vbanBitResolutionMax), fun _ => .inr ?_⟩
  change (nbs.toNat + 1 - 1) * 4 + 0 + 4 ≤ 1436
  omega

theorem exists_packet (hs : s.Playing nuFrame) (sr nbs : UInt8) (next : UInt32)
    (hnext : nuFrame ≠ next) (haudio : sr &&& vbanProtocolMask = vbanProtocolAudio)
    (hrated : (sr &&& vbanSrMask).toNat < vbanSrMaxnumber)
    (hnamed : (NetThread.packetOf (monoHeader sr nbs next).toBytes).streamnameString = [65]) :
    ∃ u s', s.thread.Calls unitRatioEnv.withDoubles
        (NetThread.packetOf (monoHeader sr nbs next).toBytes) u ∧
      (∀ ps, CallStep unitRatioEnv.withDoubles (s, ps)
        (.receive (monoHeader sr nbs next).toBytes 0x0100007F)
        (s', ps ++ [NetThread.packetOf (monoHeader sr nbs next).toBytes])) ∧ s'.Playing next := by
  have hrunsAudio := hs.runsAudio hnext haudio hnamed
  have hrated' : (NetThread.packetOf (monoHeader sr nbs next).toBytes).Rated := by
    rw [VBanPacket.Rated, monoHeader_header]
    exact hrated
  obtain ⟨u, v, hcalls, hv⟩ := NetThread.exists_calls unitRatioEnv.withDoubles hrated'
    (hs.netAudioFits sr nbs next) hs.resampler_eq
  obtain ⟨w, inbuf, resampler, out, ringbuffer, hw, -, hopen, rfl, hspec⟩ :=
    NetThread.enqueue_cases hv
  obtain ⟨_, _, _, _, rfl⟩ := NetThread.resizeBuffers_spec hw
  have hring : ¬s.ringbuffer = none := by
    rw [AlsaUtil.ringbuffer, hs.created_eq]
    exact Option.some_ne_none _
  have hreceive : s.receive unitRatioEnv.withDoubles (monoHeader sr nbs next).toBytes 0x0100007F =
      .ok { s with thread := v, rxResetTimer := 0 } := by
    rw [AlsaUtil.receive, NetThread.receive_of_runsAudio hrunsAudio, hv, ok_bind,
      if_pos hrunsAudio, if_neg hring]
    rfl
  refine ⟨u, _, hcalls, fun ps => .packet hrunsAudio ?_ hreceive, ?_⟩
  · intro u' inbuf' resampler' hu' _ hopen'
    obtain ⟨_, _, _, _, rfl⟩ := NetThread.resizeBuffers_spec hu'
    obtain rfl := Option.some.inj (hs.resampler_eq.symm.trans hopen')
    dsimp only
    rw [hs.nboutputs_eq]
    exact List.length_take_le _ _
  · obtain rfl := Option.some.inj (hs.resampler_eq.symm.trans hopen)
    rw [hspec]
    refine ⟨hs.rxip_eq, hs.name_eq, hs.nboutputs_eq, hs.offset_eq, rfl, hs.created_eq, ?_⟩
    dsimp only
    rw [monoHeader_header]
    rfl

end AlsaUtil.Playing

/-- Packets of 64 frames at 96000 Hz are followed by one like them. -/
theorem next_call_sound : ∃ (s₀ s : AlsaUtil Nat) (u : NetThread Nat),
    alsaUtilMain stereoHost [chars "streamnamerx=A"] = some s₀ ∧
      Run (CallStep unitRatioEnv.withDoubles) (s₀, [])
        [.receive (monoHeader 4 63 1).toBytes 0x0100007F,
          .receive (monoHeader 4 63 2).toBytes 0x0100007F]
        (s, [NetThread.packetOf (monoHeader 4 63 2).toBytes]) ∧
      s.thread.Calls unitRatioEnv.withDoubles
        (NetThread.packetOf (monoHeader 4 63 3).toBytes) u ∧
      u.CallSound (NetThread.packetOf (monoHeader 4 63 3).toBytes) := by
  obtain ⟨s₀, s₁, hmain, hrun, hplaying⟩ := exists_playing
  obtain ⟨-, s, -, hstep, hplaying⟩ := hplaying.exists_packet 4 63 2 (by decide) (by decide)
    (by decide) (by decide +kernel)
  obtain ⟨u, -, hcalls, -, -⟩ := hplaying.exists_packet 4 63 3 (by decide) (by decide)
    (by decide) (by decide +kernel)
  have hrun' := hrun.snoc ⟨hstep [], fun _ => packetSizes_nil_fits _ _⟩
  refine ⟨s₀, s, u, hmain, (hrun.imp fun _ _ _ h => h.1).snoc (hstep []), hcalls,
    (call_sound_iff hmain hrun' hcalls).mpr ?_⟩
  apply packetSizes_singleton_fits
  · rw [monoHeader_samples, monoHeader_samples]
  · rw [monoHeader_rate, monoHeader_rate]

/-- After 64 frames at 96000 Hz, 63 frames at 48000 Hz may write 65 frames into a vector of 34, and
64 frames at 48000 Hz may write 34 frames where 66 are meant. -/
theorem lower_rate_overruns : ∃ (s₀ s : AlsaUtil Nat) (u v : NetThread Nat),
    alsaUtilMain stereoHost [chars "streamnamerx=A"] = some s₀ ∧
      Run (CallStep unitRatioEnv.withDoubles) (s₀, [])
        [.receive (monoHeader 4 63 1).toBytes 0x0100007F,
          .receive (monoHeader 4 63 2).toBytes 0x0100007F]
        (s, [NetThread.packetOf (monoHeader 4 63 2).toBytes]) ∧
      s.thread.Calls unitRatioEnv.withDoubles
        (NetThread.packetOf (monoHeader 3 62 3).toBytes) u ∧
      u.resamplerOutBuf.length < u.resamplerOutBufLen * u.nboutputs ∧
      s.thread.Calls unitRatioEnv.withDoubles
        (NetThread.packetOf (monoHeader 3 63 3).toBytes) v ∧
      v.resamplerOutBufLen < outAllowance v.samplerate
        (NetThread.packetOf (monoHeader 3 63 3).toBytes).samples
        (NetThread.packetOf (monoHeader 3 63 3).toBytes).rate := by
  obtain ⟨s₀, s₁, hmain, hrun, hplaying⟩ := exists_playing
  obtain ⟨-, s, -, hstep, hplaying⟩ := hplaying.exists_packet 4 63 2 (by decide) (by decide)
    (by decide) (by decide +kernel)
  obtain ⟨u, -, hu, -, -⟩ := hplaying.exists_packet 3 62 3 (by decide) (by decide)
    (by decide) (by decide +kernel)
  obtain ⟨v, -, hv, -, -⟩ := hplaying.exists_packet 3 63 3 (by decide) (by decide)
    (by decide) (by decide +kernel)
  have hs := run_buffered hmain (hrun.snoc ⟨hstep [], fun _ => packetSizes_nil_fits _ _⟩)
  obtain ⟨hinBufLen, houtBufLen, houtBuf⟩ := hs.single
  rw [monoHeader_samples] at hinBufLen houtBufLen houtBuf
  rw [monoHeader_rate] at houtBufLen houtBuf
  have hru := NetThread.resized hs.samplerate_eq hu.1
  have hrv := NetThread.resized hs.samplerate_eq hv.1
  refine ⟨s₀, s, u, v, hmain, (hrun.imp fun _ _ _ h => h.1).snoc (hstep []), hu, ?_, hv, ?_⟩
  · have hsmaller : (NetThread.packetOf (monoHeader 3 62 3).toBytes).samples <
        s.thread.resamplerInBufLen := by
      rw [hinBufLen, monoHeader_samples]
      decide
    rw [hru.outBuf_same hsmaller.le, hru.outBufLen_changed hsmaller.ne, houtBuf, hru.nboutputs_eq,
      hplaying.nboutputs_eq, hs.samplerate_eq, monoHeader_samples, monoHeader_rate]
    decide
  · have hsame : (NetThread.packetOf (monoHeader 3 63 3).toBytes).samples =
        s.thread.resamplerInBufLen := by
      rw [hinBufLen, monoHeader_samples]
    rw [hrv.outBufLen_same hsame, houtBufLen, hrv.samplerate_eq, hs.samplerate_eq,
      monoHeader_samples, monoHeader_rate]
    decide

end Vban
