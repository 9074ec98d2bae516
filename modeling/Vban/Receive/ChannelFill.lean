import Vban.Library.FrameWrites
import Vban.Receive.OutAllowance

/-! Which samples of which packets stand in the buffer that the ALSA utility gives the resampler. -/
namespace Vban

open Library Discovery

variable {R : Type}

namespace VBanPacket

/-- The formats that the conversion loop of the network thread stores. -/
def Converted (p : VBanPacket) : Prop :=
  p.header.formatBit ∈ [vbanBitfmt16Int, vbanBitfmt24Int, vbanBitfmt32Float]

instance {p : VBanPacket} : Decidable p.Converted := inferInstanceAs (Decidable (_ ∈ _))

/-- Where channel `k` of a frame starts in the payload. -/
def sampleOffset (p : VBanPacket) (frame k : Nat) : Nat :=
  frame * (p.sampleSize * p.channels) + p.sampleSize * k

/-- The channel that the first output is taken from. -/
def firstChannel (p : VBanPacket) (offset : Nat) : Nat := if offset > p.channels then 0 else offset

/-- How many outputs of a frame are stored. -/
def width (p : VBanPacket) (nboutputs : Nat) : Nat :=
  if p.Converted then min p.channels nboutputs else 0

/-- The sample at an offset of the payload. -/
def sampleAt (env : RxEnv R) (p : VBanPacket) (offset : Nat) : CFloat :=
  let sample := bytesAt p.data offset p.sampleSize
  if p.header.formatBit = vbanBitfmt32Float then floatOfBytes sample
  else if p.header.formatBit = vbanBitfmt16Int then
    env.div (env.ofInt (intOfBytes sample)) (env.ofInt 32768)
  else env.div (env.ofInt (intOfBytes sample)) (env.ofInt 8388608)

end VBanPacket

/-- Where an item of `resamplerInBuf` comes from: a zero of `resize`, or an offset in the payload of
one of the datagrams that were played. -/
inductive Origin
  | zero
  | payload (datagram offset : Nat)
deriving DecidableEq

def Origin.value (env : RxEnv R) (ds : List (List UInt8)) : Origin → CFloat
  | .zero => 0
  | .payload datagram offset =>
    (NetThread.packetOf (ds.getD datagram [])).sampleAt env offset

/-- `resamplerInBufLen`, and the origins of what is in `resamplerInBuf`. -/
structure InBuf where
  len : Nat
  origins : List Origin

namespace InBuf

/-- The origins after `resize`. -/
def resized (nboutputs : Nat) (b : InBuf) (p : VBanPacket) : List Origin :=
  if b.len < p.samples then
    (b.origins ++ List.replicate (p.samples * nboutputs) Origin.zero).take (p.samples * nboutputs)
  else b.origins

/-- The packet is datagram `datagram`. -/
def next (nboutputs offset datagram : Nat) (b : InBuf) (p : VBanPacket) : InBuf where
  len := p.samples
  origins := writeFrames nboutputs
    (fun frame => (List.range (p.width nboutputs)).map fun c =>
      .payload datagram (p.sampleOffset frame (p.firstChannel offset + c)))
    p.samples (b.resized nboutputs p)

/-- After the datagrams that were played. -/
def after (nboutputs offset : Nat) (ds : List (List UInt8)) : InBuf :=
  ds.zipIdx.foldl (fun b d => b.next nboutputs offset d.2 (NetThread.packetOf d.1)) ⟨0, [.zero]⟩

end InBuf

namespace NetThread

/-- `inbuf` is `resamplerInBuf` when the packet goes to the resampler. -/
def Fills (env : NetEnv R) (t : NetThread R) (p : VBanPacket) (inbuf : List CFloat) : Prop :=
  ∃ u, t.resizeBuffers env p = .ok u ∧ u.convertFrames env p = .ok inbuf

/-- The bytes of the payload that a datagram brings. -/
def payloadLength (bytes : List UInt8) : Nat :=
  (bytes.take vbanProtocolMaxSize).length - vbanHeaderSize

/-- Each output is channel `offset` and on of its own frame where the packet has that channel, and
nothing but a channel of its own frame or silence. The datagram brings `received` bytes. -/
structure OwnFrames (nboutputs offset datagram received : Nat) (p : VBanPacket)
    (origins : List Origin) : Prop where
  channel : ∀ f c, f < p.samples → c < nboutputs → offset + c < p.channels →
    origins[f * nboutputs + c]? = some (.payload datagram (p.sampleOffset f (offset + c)))
  own : ∀ f c, f < p.samples → c < nboutputs →
    origins[f * nboutputs + c]? = some .zero ∨ ∃ k < p.channels,
      origins[f * nboutputs + c]? = some (.payload datagram (p.sampleOffset f k)) ∧
      p.sampleOffset f k + p.sampleSize ≤ received

/-- The datagram, after those in `ds`, fills the buffer with its own frames. -/
def FillsRight (env : NetEnv R) (t : NetThread R) (ds : List (List UInt8)) (bytes : List UInt8) :
    Prop :=
  let origins := (InBuf.after t.nboutputs t.offset (ds ++ [bytes])).origins
  t.Fills env (packetOf bytes) (origins.map (Origin.value env.toRxEnv (ds ++ [bytes]))) ∧
    OwnFrames t.nboutputs t.offset ds.length (payloadLength bytes) (packetOf bytes) origins

/-- The rate is in its table if it is looked up, the copied channels are in the frame, the datagram
brings all that is copied, and no packet before stored more outputs. -/
structure FillCondition (t : NetThread R) (ds : List (List UInt8)) (p : VBanPacket)
    (received : Nat) : Prop where
  rated : t.resamplerInBufLen ≠ p.samples → p.Rated
  inside : t.offset ≤ p.channels → t.offset + min p.channels t.nboutputs ≤ p.channels
  received : t.nboutputs ≠ 0 → p.sampleOffset (p.samples - 1)
    (p.firstChannel t.offset + min p.channels t.nboutputs) ≤ received
  widest : ∀ d ∈ ds, (packetOf d).width t.nboutputs ≤ min p.channels t.nboutputs

end NetThread

/-- A datagram or a period, with the datagrams that were played so far. -/
inductive FillStep (env : NetEnv R) : AlsaUtil R × List (List UInt8) → AlsaEvent R →
    AlsaUtil R × List (List UInt8) → Prop
  | packet {s t : AlsaUtil R} {ds : List (List UInt8)} {bytes : List UInt8} {fromIp : UInt32}
      (haudio : s.thread.RunsAudio bytes fromIp) (h : s.receive env bytes fromIp = .ok t) :
      FillStep env (s, ds) (.receive bytes fromIp) (t, ds ++ [bytes])
  | datagram {s t : AlsaUtil R} {ds : List (List UInt8)} {bytes : List UInt8} {fromIp : UInt32}
      (haudio : ¬s.thread.RunsAudio bytes fromIp) (h : s.receive env bytes fromIp = .ok t) :
      FillStep env (s, ds) (.receive bytes fromIp) (t, ds)
  | period {s t : AlsaUtil R} {ds : List (List UInt8)} {setRratio : R → R}
      {frames : List (List UInt8)} (h : s.period setRratio = .ok (frames, t)) :
      FillStep env (s, ds) (.period setRratio) (t, ds)

variable {env : NetEnv R} {renv : RxEnv R} {s s' : AlsaUtil R} {t u v : NetThread R}
  {p : VBanPacket} {ds ds' : List (List UInt8)} {bytes : List UInt8} {fromIp : UInt32}
  {e : AlsaEvent R} {es : List (AlsaEvent R)} {b : InBuf} {nboutputs offset f c : Nat}

namespace VBanPacket

theorem Converted.sampleSize_pos (h : p.Converted) : 0 < p.sampleSize := by
  simp only [VBanPacket.Converted, List.mem_cons, List.not_mem_nil, or_false] at h
  rw [VBanPacket.sampleSize]
  rcases h with hbit | hbit | hbit
  all_goals
    rw [hbit]
    decide

/-- Later channels and later frames stand later. -/
theorem sampleOffset_le {g k m : Nat} (hf : f ≤ g) (hk : k ≤ m) :
    p.sampleOffset f k ≤ p.sampleOffset g m :=
  Nat.add_le_add (Nat.mul_le_mul_right _ hf) (Nat.mul_le_mul_left _ hk)

theorem sampleOffset_add_sampleSize (p : VBanPacket) (f k : Nat) :
    p.sampleOffset f k + p.sampleSize = p.sampleOffset f (k + 1) := by
  rw [VBanPacket.sampleOffset, VBanPacket.sampleOffset, Nat.mul_succ, Nat.add_assoc]

/-- Where the copy of a frame starts, and how far it has come. -/
theorem sampleOffset_firstChannel (p : VBanPacket) (offset frame c : Nat) :
    frame * (p.sampleSize * p.channels) +
        (if offset > p.channels then 0 else p.sampleSize * offset) + p.sampleSize * c =
      p.sampleOffset frame (p.firstChannel offset + c) := by
  rw [VBanPacket.sampleOffset, VBanPacket.firstChannel, Nat.mul_add, Nat.add_assoc]
  split_ifs <;> rfl

theorem width_le (p : VBanPacket) (nboutputs : Nat) : p.width nboutputs ≤ nboutputs := by
  rw [VBanPacket.width]
  split_ifs
  · exact min_le_right _ _
  · exact Nat.zero_le _

end VBanPacket

namespace InBuf

theorem after_concat (nboutputs offset : Nat) (ds : List (List UInt8)) (bytes : List UInt8) :
    after nboutputs offset (ds ++ [bytes]) = (after nboutputs offset ds).next nboutputs offset
      ds.length (NetThread.packetOf bytes) := by
  rw [after, List.zipIdx_append, List.foldl_append]
  simp [after]

/-- The origins that the datagrams can have left. -/
structure Painted (nboutputs : Nat) (ds : List (List UInt8)) (b : InBuf) : Prop where
  room : b.len * nboutputs ≤ b.origins.length
  before : ∀ datagram offset, .payload datagram offset ∈ b.origins → datagram < ds.length
  blank : ∀ f c, c < nboutputs →
    (∀ d ∈ ds, (NetThread.packetOf d).width nboutputs ≤ c) →
    ∀ o, b.origins[f * nboutputs + c]? = some o → o = .zero
  stored : ∀ d ∈ ds, ∀ c, c < (NetThread.packetOf d).width nboutputs →
    ∃ datagram offset, b.origins[c]? = some (.payload datagram offset)

theorem Painted.resized_room (hb : b.Painted nboutputs ds) (p : VBanPacket) :
    p.samples * nboutputs ≤ (b.resized nboutputs p).length := by
  rw [resized]
  split_ifs with hlt
  · simp
  · exact (Nat.mul_le_mul_right _ (not_lt.mp hlt)).trans hb.room

/-- What `resize` leaves was there before, or is a new zero. -/
theorem resized_cases {i : Nat} {o : Origin} (h : (b.resized nboutputs p)[i]? = some o) :
    b.origins[i]? = some o ∨ o = .zero := by
  rw [resized] at h
  split_ifs at h
  · have hlt : i < p.samples * nboutputs := by
      by_contra hge
      rw [List.getElem?_eq_none (by rw [List.length_take]; omega)] at h
      cases h
    rw [List.getElem?_take_of_lt hlt] at h
    rcases Nat.lt_or_ge i b.origins.length with hold | hnew
    · rw [List.getElem?_append_left hold] at h
      exact .inl h
    · rw [List.getElem?_append_right hnew] at h
      exact .inr (List.eq_of_mem_replicate (List.mem_of_getElem? h))
  · exact .inl h

/-- The first frame is kept. -/
theorem resized_first {o : Origin} (hc : c < nboutputs) (h : b.origins[c]? = some o) :
    (b.resized nboutputs p)[c]? = some o := by
  obtain ⟨hold, -⟩ := List.getElem?_eq_some_iff.mp h
  have hpos := p.samples_bounds.1
  have hlt : c < p.samples * nboutputs := hc.trans_le (Nat.le_mul_of_pos_left _ hpos)
  rw [resized]
  split_ifs
  · rw [List.getElem?_take_of_lt hlt, List.getElem?_append_left hold, h]
  · exact h

theorem getElem?_next (hb : b.Painted nboutputs ds) (p : VBanPacket) (offset datagram f : Nat)
    (hc : c < nboutputs) :
    (b.next nboutputs offset datagram p).origins[f * nboutputs + c]? =
      if f < p.samples ∧ c < p.width nboutputs then
        some (.payload datagram (p.sampleOffset f (p.firstChannel offset + c)))
      else (b.resized nboutputs p)[f * nboutputs + c]? := by
  rw [next, getElem?_writeFrames (k := p.width nboutputs) (by simp) (p.width_le nboutputs)
    (hb.resized_room p) hc]
  split_ifs with h
  · rw [List.getElem?_map, List.getElem?_range h.2, Option.map_some]
  · rfl

theorem Painted.start (nboutputs : Nat) : Painted nboutputs [] ⟨0, [.zero]⟩ := by
  constructor
  · simp
  · simp
  · intro f c _ _ o ho
    exact List.mem_singleton.mp (List.mem_of_getElem? ho)
  · intro d hd
    cases hd

theorem length_next (hb : b.Painted nboutputs ds) (offset datagram : Nat) :
    (b.next nboutputs offset datagram p).origins.length = (b.resized nboutputs p).length := by
  apply length_writeFrames
  · intro i _
    simpa using p.width_le nboutputs
  · exact hb.resized_room p

theorem Painted.next (hb : b.Painted nboutputs ds) (offset : Nat) (bytes : List UInt8) :
    (b.next nboutputs offset ds.length (NetThread.packetOf bytes)).Painted nboutputs
      (ds ++ [bytes]) := by
  set p := NetThread.packetOf bytes
  have hconcat : (ds ++ [bytes]).length = ds.length + 1 := by simp
  constructor
  · rw [length_next hb]
    exact hb.resized_room p
  · intro datagram o ho
    rw [hconcat]
    rcases mem_of_mem_writeFrames ho with hresized | ⟨frame, -, hframe⟩
    · obtain ⟨i, hi⟩ := List.mem_iff_getElem?.mp hresized
      rcases resized_cases hi with hold | hzero
      · exact Nat.lt_succ_of_lt (hb.before _ _ (List.mem_of_getElem? hold))
      · cases hzero
    · obtain ⟨c, -, hpayload⟩ := List.mem_map.mp hframe
      obtain ⟨rfl, -⟩ := Origin.payload.inj hpayload
      exact Nat.lt_succ_self _
  · intro f c hc hwidth o ho
    obtain ⟨hds, hp⟩ := List.forall_mem_append.mp hwidth
    have hle : p.width nboutputs ≤ c := hp bytes List.mem_cons_self
    rw [getElem?_next hb _ _ _ _ hc, if_neg (fun h => absurd h.2 (not_lt.mpr hle))] at ho
    rcases resized_cases ho with hold | hzero
    · exact hb.blank f c hc hds o hold
    · exact hzero
  · intro d hd c hc
    have hcn : c < nboutputs := hc.trans_le (VBanPacket.width_le _ nboutputs)
    have hentry := getElem?_next hb p offset ds.length 0 hcn
    rw [Nat.zero_mul, Nat.zero_add] at hentry
    rw [hentry]
    split_ifs with hnew
    · exact ⟨_, _, rfl⟩
    · rcases List.mem_append.mp hd with hold | hlast
      · obtain ⟨datagram, o, ho⟩ := hb.stored d hold c hc
        exact ⟨datagram, o, resized_first hcn ho⟩
      · obtain rfl := List.mem_singleton.mp hlast
        exact absurd ⟨p.samples_bounds.1, hc⟩ hnew

theorem painted_after (nboutputs offset : Nat) (ds : List (List UInt8)) :
    (after nboutputs offset ds).Painted nboutputs ds := by
  induction ds using List.reverseRecOn with
  | nil => exact Painted.start nboutputs
  | append_singleton ds bytes ih =>
    rw [after_concat]
    exact ih.next offset bytes

end InBuf

theorem convertSamples_ok {data : List UInt8} {src size n : Nat} {conv : List UInt8 → CFloat}
    {samples : List CFloat} (h : convertSamples data src size n conv = .ok samples) :
    samples = (List.range n).map fun c => conv (bytesAt data (src + size * c) size) := by
  obtain ⟨bytes, hbytes, h⟩ := bind_eq_ok.mp h
  rw [readPayload] at hbytes
  split_ifs at hbytes
  obtain rfl := Except.ok.inj hbytes
  obtain rfl := Except.ok.inj h
  apply List.map_congr_left
  intro c hc
  have hle : (c + 1) * size ≤ n * size := Nat.mul_le_mul_right _ (List.mem_range.mp hc)
  rw [Nat.succ_mul] at hle
  rw [bytesAt_bytesAt _ (by rwa [Nat.mul_comm size n]), Nat.mul_comm size c]

/-- What the loop stores of a frame. -/
theorem netFrame_ok {src n : Nat} {samples : List CFloat}
    (h : netFrame renv p.data src n p.header.formatBit = .ok samples) :
    samples = (List.range (if p.Converted then n else 0)).map fun c =>
      p.sampleAt renv (src + p.sampleSize * c) := by
  rw [netFrame, convertVbanToFloat] at h
  split_ifs at h with h4 hn h16 h24
  · have hconverted : p.Converted := by simp [VBanPacket.Converted, h4]
    have hsize : p.sampleSize = 4 := by
      rw [VBanPacket.sampleSize, h4]
      rfl
    rw [if_pos hconverted, convertSamples_ok h]
    simp only [VBanPacket.sampleAt, if_pos h4, hsize]
  · obtain rfl := Except.ok.inj h
    rw [hn, ite_self]
    rfl
  · have hconverted : p.Converted := by simp [VBanPacket.Converted, h16]
    have hsize : p.sampleSize = 2 := by
      rw [VBanPacket.sampleSize, h16]
      rfl
    rw [if_pos hconverted, convertSamples_ok h]
    simp only [VBanPacket.sampleAt, if_neg h4, if_pos h16, hsize]
  · have hconverted : p.Converted := by simp [VBanPacket.Converted, h24]
    have hsize : p.sampleSize = 3 := by
      rw [VBanPacket.sampleSize, h24]
      rfl
    rw [if_pos hconverted, convertSamples_ok h]
    simp only [VBanPacket.sampleAt, if_neg h4, if_neg h16, hsize]
  · have hconverted : ¬p.Converted := by simp [VBanPacket.Converted, h4, h16, h24]
    obtain rfl := Except.ok.inj h
    rw [if_neg hconverted]
    rfl

theorem bitResolutionSize_ok {size : Nat} (h : bitResolutionSize p.header.formatBit = .ok size) :
    size = p.sampleSize := by
  have havoids : Avoids Fault.OutOfBounds (bitResolutionSize p.header.formatBit) := by
    rw [h]
    exact avoids_ok
  rw [bitResolutionSize_of_lt (bitResolutionSize_avoids.mp havoids)] at h
  exact (Except.ok.inj h).symm

namespace NetThread

theorem convertFrames_ok {inbuf : List CFloat} (h : u.convertFrames env p = .ok inbuf) :
    inbuf = writeFrames u.nboutputs
      (fun frame => (List.range (p.width u.nboutputs)).map fun c =>
        p.sampleAt env.toRxEnv (p.sampleOffset frame (p.firstChannel u.offset + c)))
      p.samples u.resamplerInBuf := by
  obtain ⟨size, hsize, h⟩ := bind_eq_ok.mp h
  obtain rfl := bitResolutionSize_ok hsize
  refine writeFrames_of_foldlM (fun frame samples hframe => ?_) h
  rw [netFrame_ok hframe]
  apply List.map_congr_left
  intro c _
  rw [← VBanPacket.sampleOffset_firstChannel]
  rfl

theorem resizeBuffers_inBuf (h : t.resizeBuffers env p = .ok u) :
    u.resamplerInBufLen = p.samples ∧ u.resamplerInBuf =
      if t.resamplerInBufLen < p.samples then
        vectorResize t.resamplerInBuf (p.samples * t.nboutputs)
      else t.resamplerInBuf := by
  rw [resizeBuffers] at h
  change (if t.resamplerInBufLen < p.samples then _ else
    if t.resamplerInBufLen > p.samples then _ else _) = _ at h
  rcases Nat.lt_trichotomy t.resamplerInBufLen p.samples with hlt | heq | hgt
  · rw [if_pos hlt] at h ⊢
    obtain ⟨sr, -, h⟩ := bind_eq_ok.mp h
    obtain rfl := Except.ok.inj h
    exact ⟨rfl, rfl⟩
  · rw [if_neg heq.not_lt, if_neg heq.not_gt] at h
    obtain rfl := Except.ok.inj h
    rw [if_neg heq.not_lt]
    exact ⟨heq, rfl⟩
  · rw [if_neg hgt.not_gt, if_pos hgt] at h
    obtain ⟨sr, -, h⟩ := bind_eq_ok.mp h
    obtain rfl := Except.ok.inj h
    rw [if_neg hgt.not_gt]
    exact ⟨rfl, rfl⟩

/-- The buffer holds what the origins say. -/
structure Traced (env : RxEnv R) (ds : List (List UInt8)) (t : NetThread R) : Prop where
  len_eq : t.resamplerInBufLen = (InBuf.after t.nboutputs t.offset ds).len
  inBuf_eq : t.resamplerInBuf =
    (InBuf.after t.nboutputs t.offset ds).origins.map (Origin.value env ds)

theorem Traced.congr (ht : t.Traced renv ds) (hnboutputs : u.nboutputs = t.nboutputs)
    (hoffset : u.offset = t.offset) (hlen : u.resamplerInBufLen = t.resamplerInBufLen)
    (hinBuf : u.resamplerInBuf = t.resamplerInBuf) : u.Traced renv ds := by
  constructor
  · rw [hnboutputs, hoffset, hlen, ht.len_eq]
  · rw [hnboutputs, hoffset, hinBuf, ht.inBuf_eq]

/-- An origin in an earlier datagram has the value that it had. -/
theorem map_value_concat (bytes : List UInt8) (hb : b.Painted nboutputs ds) :
    b.origins.map (Origin.value renv (ds ++ [bytes])) = b.origins.map (Origin.value renv ds) := by
  apply List.map_congr_left
  intro o ho
  cases o with
  | zero => rfl
  | payload datagram offset =>
    rw [Origin.value, Origin.value, List.getD_append _ _ _ _ (hb.before _ _ ho)]

/-- The origins of what goes to the resampler. -/
theorem Traced.fills {inbuf : List CFloat} (ht : t.Traced env.toRxEnv ds)
    (h : t.Fills env (packetOf bytes) inbuf) :
    inbuf = (InBuf.after t.nboutputs t.offset (ds ++ [bytes])).origins.map
      (Origin.value env.toRxEnv (ds ++ [bytes])) := by
  obtain ⟨u, hu, h⟩ := h
  obtain ⟨-, hinBuf⟩ := resizeBuffers_inBuf hu
  obtain ⟨_, _, _, _, rfl⟩ := resizeBuffers_spec hu
  have hb := InBuf.painted_after t.nboutputs t.offset ds
  have hlast : (ds ++ [bytes]).getD ds.length [] = bytes := by
    simp [List.getD_eq_getElem?_getD]
  rw [convertFrames_ok h, InBuf.after_concat, InBuf.next, map_writeFrames]
  congr 1
  · funext frame
    rw [List.map_map]
    apply List.map_congr_left
    intro c _
    rw [Function.comp_apply, Origin.value, hlast]
  · dsimp only at hinBuf ⊢
    rw [hinBuf, InBuf.resized, ← ht.len_eq, ht.inBuf_eq]
    split_ifs
    · rw [vectorResize, List.map_take, List.map_append, List.map_replicate, map_value_concat _ hb]
      rfl
    · rw [map_value_concat _ hb]

theorem Traced.enqueue (ht : t.Traced env.toRxEnv ds)
    (h : t.enqueue env (packetOf bytes) = .ok v) : v.Traced env.toRxEnv (ds ++ [bytes]) := by
  obtain ⟨u, inbuf, resampler, out, ringbuffer, hu, hinbuf, -, -, rfl⟩ := enqueue_cases h
  have hfills := ht.fills ⟨u, hu, hinbuf⟩
  obtain ⟨hlen, -⟩ := resizeBuffers_inBuf hu
  obtain ⟨_, _, _, _, rfl⟩ := resizeBuffers_spec hu
  constructor
  · dsimp only at hlen ⊢
    rw [hlen, InBuf.after_concat]
    rfl
  · exact hfills

theorem Traced.receive (ht : t.Traced env.toRxEnv ds) (haudio : ¬t.RunsAudio bytes fromIp)
    (h : t.receive env bytes fromIp = .ok u) : u.Traced env.toRxEnv ds := by
  rw [NetThread.receive] at h
  split_ifs at h with hpacket hplays hnew
  · exact absurd ⟨hpacket, hplays⟩ haudio
  · obtain ⟨resampler, rfl⟩ := createStream_cases h
    exact ht.congr rfl rfl rfl rfl
  · obtain rfl := Except.ok.inj h
    exact ht
  · obtain rfl := Except.ok.inj h
    exact ht

end NetThread

theorem checkTimeout_traced (hs : s.thread.Traced renv ds) :
    s.checkTimeout.thread.Traced renv ds := by
  rw [AlsaUtil.checkTimeout]
  split_ifs
  · exact hs
  · exact hs.congr rfl rfl rfl rfl
  · exact hs
  · exact hs

theorem FillStep.traced (h : FillStep env (s, ds) e (s', ds'))
    (hs : s.thread.Traced env.toRxEnv ds) : s'.thread.Traced env.toRxEnv ds' := by
  cases h with
  | packet haudio h =>
    obtain ⟨henqueue, -⟩ := receive_thread h
    rw [NetThread.receive_of_runsAudio haudio] at henqueue
    exact hs.enqueue henqueue
  | datagram haudio h => exact hs.receive haudio (receive_thread h).1
  | period h =>
    refine AlsaUtil.period_invariant (I := fun s => s.thread.Traced env.toRxEnv ds) ?_ ?_ ?_ h hs
    · intro u rb outFrameBuf hu
      exact hu.congr rfl rfl rfl rfl
    · intro u hu
      exact checkTimeout_traced hu
    · intro u hu
      exact hu.congr rfl rfl rfl rfl

theorem alsaUtilMain_traced {host : AlsaHost} {argv : List (List UInt8)}
    (h : alsaUtilMain host argv = some s) : s.thread.Traced renv [] := by
  rw [alsaUtilMain] at h
  split_ifs at h
  obtain ⟨nplay, -, rfl⟩ := Option.map_eq_some_iff.mp h
  exact ⟨rfl, rfl⟩

theorem run_traced {host : AlsaHost} {argv : List (List UInt8)} {s₀ : AlsaUtil R}
    (hmain : alsaUtilMain host argv = some s₀)
    (hrun : Run (FillStep env) (s₀, []) es (s, ds)) : s.thread.Traced env.toRxEnv ds :=
  hrun.invariant (I := fun x => x.1.thread.Traced env.toRxEnv x.2)
    (fun _ _ _ hs h => h.traced hs) (alsaUtilMain_traced hmain)

namespace NetThread

theorem exists_fills (env : NetEnv R) (hrated : t.resamplerInBufLen ≠ p.samples → p.Rated)
    (hfits : p.NetAudioFits t.nboutputs t.offset) : ∃ inbuf, t.Fills env p inbuf := by
  obtain ⟨u, inbuf, hu, hinbuf⟩ := exists_convertFrames env hrated hfits
  exact ⟨inbuf, u, hu, hinbuf⟩

theorem Fills.rated {inbuf : List CFloat} (h : t.Fills env p inbuf)
    (hne : t.resamplerInBufLen ≠ p.samples) : p.Rated := by
  obtain ⟨u, hu, -⟩ := h
  have havoids : Avoids Fault.OutOfBounds (t.resizeBuffers env p) := by
    rw [hu]
    exact avoids_ok
  exact resizeBuffers_avoids.mp havoids hne

theorem payloadLength_le (bytes : List UInt8) : payloadLength bytes ≤ vbanDataMaxSize := by
  rw [payloadLength, List.length_take]
  have : vbanProtocolMaxSize - vbanHeaderSize = vbanDataMaxSize := rfl
  omega

/-- What ends in the payload fits the packet. -/
theorem FillCondition.fits {received : Nat} (h : t.FillCondition ds p received)
    (hreceived : received ≤ vbanDataMaxSize) (hconverted : p.Converted) :
    p.NetAudioFits t.nboutputs t.offset := by
  constructor
  · simp only [VBanPacket.Converted, List.mem_cons, List.not_mem_nil, or_false] at hconverted
    rcases hconverted with hbit | hbit | hbit
    all_goals
      rw [hbit]
      decide
  · intro _
    by_cases hnboutputs : t.nboutputs = 0
    · left
      rw [hnboutputs, Nat.min_zero, Nat.mul_zero]
    · right
      rw [VBanPacket.sampleOffset_firstChannel]
      exact (h.received hnboutputs).trans hreceived

theorem OwnFrames.of_condition {received datagram : Nat}
    (hb : b.Painted t.nboutputs ds) (h : t.FillCondition ds p received)
    (hconverted : p.Converted) :
    OwnFrames t.nboutputs t.offset datagram received p
      (b.next t.nboutputs t.offset datagram p).origins := by
  have hwidth : p.width t.nboutputs = min p.channels t.nboutputs := if_pos hconverted
  constructor
  · intro f c hf hc hchannel
    have hfirst : p.firstChannel t.offset = t.offset := if_neg (by omega)
    rw [InBuf.getElem?_next hb p t.offset datagram f hc, if_pos ⟨hf, by omega⟩, hfirst]
  · intro f c hf hc
    have hentry := InBuf.getElem?_next hb p t.offset datagram f hc
    by_cases hcw : c < p.width t.nboutputs
    · right
      have hinside : p.firstChannel t.offset + min p.channels t.nboutputs ≤ p.channels := by
        rw [VBanPacket.firstChannel]
        split_ifs with hoffset
        · rw [Nat.zero_add]
          exact min_le_left _ _
        · exact h.inside (not_lt.mp hoffset)
      refine ⟨p.firstChannel t.offset + c, by omega, ?_, ?_⟩
      · rw [hentry, if_pos ⟨hf, hcw⟩]
      · rw [VBanPacket.sampleOffset_add_sampleSize]
        exact (VBanPacket.sampleOffset_le (by omega) (by omega)).trans (h.received (by omega))
    · left
      rw [if_neg (fun h => hcw h.2)] at hentry
      have hroom := hb.resized_room p
      have hle : (f + 1) * t.nboutputs ≤ p.samples * t.nboutputs := Nat.mul_le_mul_right _ hf
      rw [Nat.succ_mul] at hle
      obtain ⟨o, ho⟩ : ∃ o, (b.resized t.nboutputs p)[f * t.nboutputs + c]? = some o :=
        ⟨_, List.getElem?_eq_getElem (by omega)⟩
      rw [hentry, ho]
      rcases InBuf.resized_cases ho with hold | hzero
      · have hwidest : ∀ d ∈ ds, (packetOf d).width t.nboutputs ≤ c := by
          intro d hd
          exact (h.widest d hd).trans (by omega)
        rw [hb.blank f c hc hwidest o hold]
      · rw [hzero]

/-- A stored output is a channel of the frame that the datagram brings. -/
theorem OwnFrames.stored {received datagram : Nat} (hb : b.Painted nboutputs ds)
    (h : OwnFrames nboutputs offset datagram received p
      (b.next nboutputs offset datagram p).origins)
    (hconverted : p.Converted) (hf : f < p.samples) (hc : c < p.width nboutputs) :
    p.firstChannel offset + c < p.channels ∧
      p.sampleOffset f (p.firstChannel offset + c + 1) ≤ received := by
  have hcn := hc.trans_le (VBanPacket.width_le p nboutputs)
  have hentry := InBuf.getElem?_next hb p offset datagram f hcn
  rw [if_pos ⟨hf, hc⟩] at hentry
  rcases h.own f c hf hcn with hzero | ⟨k, hk, hpayload, hle⟩
  · rw [hentry] at hzero
    cases hzero
  · rw [hentry, Option.some_inj] at hpayload
    obtain ⟨-, hoffset⟩ := Origin.payload.inj hpayload
    have heq : p.firstChannel offset + c = k :=
      Nat.eq_of_mul_eq_mul_left hconverted.sampleSize_pos (Nat.add_left_cancel hoffset)
    rw [← VBanPacket.sampleOffset_add_sampleSize, heq]
    exact ⟨hk, hle⟩

/-- An output that no earlier packet may have stored. -/
theorem OwnFrames.widest {received : Nat} (hb : b.Painted nboutputs ds)
    (h : OwnFrames nboutputs offset ds.length received p
      (b.next nboutputs offset ds.length p).origins)
    {d : List UInt8} (hd : d ∈ ds) : (packetOf d).width nboutputs ≤ p.width nboutputs := by
  by_contra hwider
  have hcn := (not_le.mp hwider).trans_le (VBanPacket.width_le (packetOf d) nboutputs)
  obtain ⟨datagram, o, ho⟩ := hb.stored d hd _ (not_le.mp hwider)
  have hentry := InBuf.getElem?_next hb p offset ds.length 0 hcn
  rw [if_neg (fun h => lt_irrefl _ h.2), Nat.zero_mul, Nat.zero_add,
    InBuf.resized_first hcn ho] at hentry
  have hown := h.own 0 _ p.samples_bounds.1 hcn
  rw [Nat.zero_mul, Nat.zero_add, hentry] at hown
  rcases hown with hzero | ⟨k, -, hpayload, -⟩
  · cases hzero
  · obtain ⟨rfl, -⟩ := Origin.payload.inj (Option.some.inj hpayload)
    exact absurd (hb.before _ _ (List.mem_of_getElem? ho)) (lt_irrefl _)

theorem OwnFrames.condition {received : Nat} (hb : b.Painted t.nboutputs ds)
    (h : OwnFrames t.nboutputs t.offset ds.length received p
      (b.next t.nboutputs t.offset ds.length p).origins)
    (hconverted : p.Converted) (hrated : t.resamplerInBufLen ≠ p.samples → p.Rated) :
    t.FillCondition ds p received := by
  have hwidth : p.width t.nboutputs = min p.channels t.nboutputs := if_pos hconverted
  have hsamples := p.samples_bounds.1
  have hchannels : 0 < p.channels := Nat.succ_pos _
  -- the last channel that is copied of a frame
  have hlast : ∀ f, f < p.samples → t.nboutputs ≠ 0 →
      p.firstChannel t.offset + min p.channels t.nboutputs ≤ p.channels ∧
        p.sampleOffset f (p.firstChannel t.offset + min p.channels t.nboutputs) ≤ received := by
    intro f hf hn
    obtain ⟨hchannel, hle⟩ := h.stored (c := min p.channels t.nboutputs - 1) hb hconverted hf
      (by omega)
    rw [Nat.add_assoc, Nat.sub_add_cancel (by omega)] at hle
    exact ⟨by omega, hle⟩
  constructor
  · exact hrated
  · intro hoffset
    have hfirst : p.firstChannel t.offset = t.offset := if_neg (not_lt.mpr hoffset)
    by_cases hn : t.nboutputs = 0
    · omega
    · have hchannel := (hlast 0 hsamples hn).1
      omega
  · intro hn
    exact (hlast (p.samples - 1) (by omega) hn).2
  · intro d hd
    rw [← hwidth]
    exact h.widest hb hd

theorem Traced.fillsRight_iff (ht : t.Traced env.toRxEnv ds)
    (hconverted : (packetOf bytes).Converted) :
    t.FillsRight env ds bytes ↔
      t.FillCondition ds (packetOf bytes) (payloadLength bytes) := by
  have hb := InBuf.painted_after t.nboutputs t.offset ds
  rw [FillsRight, InBuf.after_concat]
  constructor
  · rintro ⟨hfills, hown⟩
    exact hown.condition hb hconverted hfills.rated
  · intro h
    obtain ⟨inbuf, hinbuf⟩ :=
      exists_fills env h.rated (h.fits (payloadLength_le bytes) hconverted)
    have horigins := ht.fills hinbuf
    rw [InBuf.after_concat] at horigins
    exact ⟨horigins ▸ hinbuf, OwnFrames.of_condition hb h hconverted⟩

end NetThread

/-- After any run, a datagram fills the buffer with its own frames exactly under the condition. -/
theorem fills_right_iff {host : AlsaHost} {argv : List (List UInt8)} {s₀ : AlsaUtil R}
    (hmain : alsaUtilMain host argv = some s₀) (hrun : Run (FillStep env) (s₀, []) es (s, ds))
    (hconverted : (NetThread.packetOf bytes).Converted) :
    s.thread.FillsRight env ds bytes ↔ s.thread.FillCondition ds (NetThread.packetOf bytes)
      (NetThread.payloadLength bytes) :=
  (run_traced hmain hrun).fillsRight_iff hconverted

/-- Two frames of two channels, as floats. -/
def twoFrames (nuFrame : UInt32) : List UInt8 :=
  (audioHeader 3 1 1 4 nuFrame).toBytes ++ (List.range 16).map UInt8.ofNat

theorem twoFrames_header (nuFrame : UInt32) :
    (NetThread.packetOf (twoFrames nuFrame)).header = audioHeader 3 1 1 4 nuFrame :=
  VBanPacket.zero.header_received _ _

/-- A stream that plays from the second channel on. -/
theorem exists_second_channel : ∃ s₀ s : AlsaUtil Unit,
    alsaUtilMain stereoHost [chars "streamnamerx=A", chars "offset=1"] = some s₀ ∧
      Run (FillStep silentEnv) (s₀, []) [.receive (twoFrames 1) 0x0100007F] (s, []) ∧
      s.thread.RunsAudio (twoFrames 2) 0x0100007F ∧ s.thread.nboutputs = 2 ∧
      s.thread.offset = 1 := by
  obtain ⟨s₀, hmain⟩ : ∃ s : AlsaUtil Unit,
      alsaUtilMain stereoHost [chars "streamnamerx=A", chars "offset=1"] = some s := ⟨_, rfl⟩
  obtain ⟨s, hs, hrxip, hname, hnuFrame, hnboutputs, hoffset⟩ : ∃ s,
      s₀.receive silentEnv (twoFrames 1) 0x0100007F = .ok s ∧ s.thread.rxip = 0x0100007F ∧
        s.thread.streamnamerx = [65] ∧ s.thread.rxNuFrame = 1 ∧ s.thread.nboutputs = 2 ∧
        s.thread.offset = 1 := by
    obtain rfl := Option.some.inj hmain
    exact ⟨_, rfl, rfl, rfl, rfl, rfl, rfl⟩
  have haudio : ¬s₀.thread.RunsAudio (twoFrames 1) 0x0100007F := by
    obtain rfl := Option.some.inj hmain
    exact fun haudio => absurd haudio.2.1 (by decide)
  refine ⟨s₀, s, hmain, .single (.datagram haudio hs), ⟨⟨?_, ?_, ?_⟩, hrxip, ?_, ?_⟩,
    hnboutputs, hoffset⟩
  · decide
  · rw [twoFrames_header]
    rfl
  · rw [VBanPacket.protocol, twoFrames_header]
    rfl
  · rw [NetThread.Named, hname]
    decide +kernel
  · rw [hnuFrame, twoFrames_header]
    decide

theorem fills_right_iff_second_channel : ∃ s₀ s : AlsaUtil Unit,
    alsaUtilMain stereoHost [chars "streamnamerx=A", chars "offset=1"] = some s₀ ∧
      Run (FillStep silentEnv) (s₀, []) [.receive (twoFrames 1) 0x0100007F] (s, []) ∧
      (s.thread.FillsRight silentEnv [] (twoFrames 2) ↔
        s.thread.FillCondition [] (NetThread.packetOf (twoFrames 2))
          (NetThread.payloadLength (twoFrames 2))) := by
  obtain ⟨s₀, s, hmain, hrun, -⟩ := exists_second_channel
  refine ⟨s₀, s, hmain, hrun, fills_right_iff hmain hrun ?_⟩
  rw [VBanPacket.Converted, twoFrames_header]
  decide

/-- The second output of the first frame is the first channel of the second frame. -/
theorem second_channel_from_next_frame : ∃ s₀ s : AlsaUtil Unit,
    alsaUtilMain stereoHost [chars "streamnamerx=A", chars "offset=1"] = some s₀ ∧
      Run (FillStep silentEnv) (s₀, []) [.receive (twoFrames 1) 0x0100007F] (s, []) ∧
      s.thread.RunsAudio (twoFrames 2) 0x0100007F ∧
      (InBuf.after s.thread.nboutputs s.thread.offset [twoFrames 2]).origins[1]? =
        some (.payload 0 ((NetThread.packetOf (twoFrames 2)).sampleOffset 1 0)) ∧
      ¬s.thread.FillsRight silentEnv [] (twoFrames 2) := by
  obtain ⟨s₀, s, hmain, hrun, haudio, hnboutputs, hoffset⟩ := exists_second_channel
  have hchannels : (NetThread.packetOf (twoFrames 2)).channels = 2 := by
    rw [VBanPacket.channels, twoFrames_header]
    rfl
  have hconverted : (NetThread.packetOf (twoFrames 2)).Converted := by
    rw [VBanPacket.Converted, twoFrames_header]
    decide
  refine ⟨s₀, s, hmain, hrun, haudio, ?_, ?_⟩
  · rw [hnboutputs, hoffset]
    decide +kernel
  · rw [(run_traced hmain hrun).fillsRight_iff hconverted]
    intro h
    have hinside := h.inside (by omega)
    omega

end Vban
