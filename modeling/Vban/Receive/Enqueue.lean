import Mathlib.Data.List.Basic
import Vban.Receive.ThreadBounds

/-! Which frames the enqueue loop takes from the output of the resampler. -/
namespace Vban

open Library

variable {R : Type} {c : VbanRxContext R} {p : VBanPacket} {ringbuffer : Ringbuffer}
  {env : RxEnv R} {out : List (List CFloat)} {rest : List CFloat} {nbc nboutputs n k : Nat}

/-- `VResampler::process` writes the frames `out` back to back and counts them off. -/
def RxEnv.Writes (env : RxEnv R) (out : List (List CFloat)) : Prop :=
  ∀ resampler inpData inpCount outCount, out.length ≤ outCount →
    (env.process resampler inpData inpCount outCount).outCount = outCount - out.length ∧
    (env.process resampler inpData inpCount outCount).written = out.flatten

/-- `out_count` as the packet sets it. -/
def outputRoom (c : VbanRxContext R) (p : VBanPacket) : Nat :=
  (((p.samples * c.samplerate).tdiv c.samplerateResampler + 1) % 2 ^ 32).toNat

theorem resizeResamplerBuffers_outbuflen {c' : VbanRxContext R}
    (h : resizeResamplerBuffers c p.header.formatNbs.toNat = .ok c') :
    (c'.resamplerOutbuflen % 2 ^ 32).toNat = outputRoom c p := by
  simp only [resizeResamplerBuffers] at h
  split_ifs at h
  · obtain rfl := Except.ok.inj h
    rfl
  · obtain rfl := Except.ok.inj h
    rfl

/-- Frame `k` of back to back frames starts `nboutputs` floats after the one before. -/
theorem bytesAt_flatten (hout : ∀ f ∈ out, f.length = nboutputs) (hk : k < out.length) :
    bytesAt (out.flatten ++ rest) (k * nboutputs) nboutputs = out[k] := by
  induction out generalizing k with
  | nil => exact absurd hk (Nat.not_lt_zero k)
  | cons f out ih =>
    have hf : f.length = nboutputs := hout f (by simp)
    rw [List.flatten_cons, List.append_assoc, bytesAt]
    cases k with
    | zero =>
      rw [Nat.zero_mul, List.drop_zero, List.take_left' hf]
      rfl
    | succ k =>
      rw [Nat.succ_mul, Nat.add_comm, ← List.drop_drop, List.drop_left' hf]
      exact ih (fun g hg => hout g (by simp [hg])) (by simpa using hk)

/-- With equal strides, and for the first frame with any, the loop takes the frames as written. -/
theorem enqueuedFrames_eq (hout : ∀ f ∈ out, f.length = nboutputs)
    (h : out.length ≤ 1 ∨ nbc = nboutputs) :
    enqueuedFrames (out.flatten ++ rest) nbc nboutputs out.length = out.map floatsBytes := by
  refine List.ext_getElem (by simp [enqueuedFrames]) fun k hk hk' => ?_
  have hlt : k < out.length := by simpa using hk'
  have hstart : k * nbc = k * nboutputs := by
    obtain hone | rfl := h
    · obtain rfl : k = 0 := by omega
      rw [Nat.zero_mul, Nat.zero_mul]
    · rfl
  simp only [enqueuedFrames, List.getElem_map, List.getElem_range, hstart,
    bytesAt_flatten hout hlt]

/-- A readable packet of an open stream is always enqueued. -/
theorem enqueueAudio_ok (env : RxEnv R) (ringbuffer : Ringbuffer)
    (hrate : c.samplerateResampler ≠ 0) (hres : c.resampler ≠ none)
    (hfits : p.AudioFits c.nboutputs) : ∃ a, enqueueAudio env c p ringbuffer = .ok a := by
  obtain ⟨resampler, hres⟩ := Option.ne_none_iff_exists'.mp hres
  obtain ⟨c', hc'⟩ := resizeResamplerBuffers_ok hrate p.header.formatNbs.toNat
  obtain ⟨-, hkeep⟩ := resizeResamplerBuffers_spec hc'
  have honly : OnlyFails Fault.OutOfBounds (enqueueAudio env c p ringbuffer) := by
    simp only [enqueueAudio, hc', ok_bind, hkeep, hres]
    exact bitResolutionSize_onlyFails.bind fun size =>
      (convertFrames_onlyFails hfits.1).bind fun inbuf => onlyFails_ok
  exact honly.avoids_iff.mp ((enqueueAudio_avoids env ringbuffer hrate).mpr hfits)

/-- The result of the enqueue stage for a resampler that writes `out`. -/
theorem enqueueAudio_frames {a : ResampledAudio R} (hw : env.Writes out)
    (hroom : out.length ≤ outputRoom c p) (h : enqueueAudio env c p ringbuffer = .ok a) :
    ∃ rest, a.frames = enqueuedFrames (out.flatten ++ rest) (min p.channels c.nboutputs)
      c.nboutputs out.length := by
  simp only [enqueueAudio, bind_eq_ok] at h
  obtain ⟨size, -, c', hc, inbuf, -, h⟩ := h
  obtain ⟨hsame, -⟩ := resizeResamplerBuffers_spec hc
  have hlen := resizeResamplerBuffers_outbuflen hc
  cases hr : c'.resampler with
  | none =>
    rw [hr] at h
    cases h
  | some resampler =>
    rw [hr] at h
    obtain rfl := Except.ok.inj h
    obtain ⟨hcount, hwritten⟩ := hw resampler inbuf (c'.resamplerInbuflen % 2 ^ 32).toNat
      (c'.resamplerOutbuflen % 2 ^ 32).toNat (by rw [hlen]; exact hroom)
    have hmin : (if p.header.formatNbc.toNat + 1 < c.nboutputs then
        p.header.formatNbc.toNat + 1 else c.nboutputs) = min p.channels c.nboutputs := by
      rw [VBanPacket.channels]
      split_ifs <;> omega
    have hframes : ((c'.resamplerOutbuflen - ((c'.resamplerOutbuflen % 2 ^ 32).toNat -
        out.length : Nat)) % 2 ^ 32).toNat = out.length := by
      have hroom' : out.length ≤ (c'.resamplerOutbuflen % 2 ^ 32).toNat := by rwa [hlen]
      omega
    refine ⟨c'.resamplerOutbuf.drop out.flatten.length, ?_⟩
    simp only [hcount, hwritten, hmin, hframes, overwrite_zero, hsame.nboutputs_eq]

theorem head?_floatsBytes (xs : List CFloat) :
    (floatsBytes xs).head? = xs.head?.map fun x => UInt8.ofNat x.toNat := by
  cases xs with
  | nil => rfl
  | cons x xs => rfl

/-- Constant frames, each with its own number in every channel. -/
def numberedFrames (nboutputs n : Nat) : List (List CFloat) :=
  (List.range n).map fun k => List.replicate nboutputs (UInt32.ofNat k)

/-- A shorter stride makes the second frame start inside the first one. -/
theorem enqueuedFrames_ne (hlt : nbc < nboutputs) (hn : 2 ≤ n) :
    enqueuedFrames ((numberedFrames nboutputs n).flatten ++ rest) nbc nboutputs n ≠
      (numberedFrames nboutputs n).map floatsBytes := by
  obtain ⟨m, rfl⟩ := Nat.exists_eq_add_of_le' hn
  obtain ⟨frames, hframes⟩ : ∃ frames, numberedFrames nboutputs (m + 2) =
      List.replicate nboutputs 0 :: List.replicate nboutputs 1 :: frames := by
    rw [numberedFrames, List.range_succ_eq_map, List.map_cons, List.range_succ_eq_map,
      List.map_cons, List.map_cons]
    exact ⟨_, rfl⟩
  intro h
  have hsecond := congrArg (fun frames => frames[1]?.bind List.head?) h
  have hhead : (bytesAt ((numberedFrames nboutputs (m + 2)).flatten ++ rest) nbc
      nboutputs).head? = some 0 := by
    rw [bytesAt, List.head?_take, if_neg (by omega), List.head?_drop, hframes, List.flatten_cons,
      List.append_assoc, List.getElem?_append_left (by simpa using hlt),
      List.getElem?_replicate_of_lt hlt]
  have hone : (List.replicate nboutputs (1 : CFloat)).head? = some 1 := by
    rw [List.head?_replicate, if_neg (by omega)]
  simp only [enqueuedFrames, List.getElem?_map, List.getElem?_range (show 1 < m + 2 by omega),
    Option.map_some, Option.bind_some, Nat.one_mul, head?_floatsBytes, hhead] at hsecond
  rw [hframes] at hsecond
  simp [head?_floatsBytes, hone] at hsecond

/-- The frames of a handled packet are those of its enqueue stage. -/
theorem handle_frames {r : RxResult R} {packetlen : Int} {ipIn : UInt32} {portIn : UInt16}
    {taken : List Nat} (he : Enqueues c p ipIn) (hc : c.ringbuffer = some ringbuffer)
    (h : vbanRxHandlePacket env p packetlen c ipIn portIn taken = .ok r) :
    ∃ a, enqueueAudio env c p ringbuffer = .ok a ∧ r.frames = a.frames := by
  cases vbanRxHandlePacket_cases h with
  | announced _ hn => exact absurd hn he.2.1
  | enqueued _ hrb ha =>
    obtain rfl := Option.some.inj (hrb.symm.trans hc)
    exact ⟨_, ha, rfl⟩
  | midi hp => exact absurd he.1 hp
  | ignored hi => exact absurd he.2.2 (hi he.1).2

/-- A resampler that always writes the numbered frames. -/
def numberingEnv (R : Type) (nboutputs n : Nat) : RxEnv R where
  ofInt := fun _ => 0
  div := fun _ _ => 0
  process := fun r _ _ outCount => ⟨r, outCount - n, (numberedFrames nboutputs n).flatten⟩

theorem length_numberedFrames : (numberedFrames nboutputs n).length = n := by
  simp [numberedFrames]

theorem length_of_mem_numberedFrames {f : List CFloat} (hf : f ∈ numberedFrames nboutputs n) :
    f.length = nboutputs := by
  obtain ⟨k, -, rfl⟩ := List.mem_map.mp hf
  exact List.length_replicate

theorem numberingEnv_writes (R : Type) (nboutputs n : Nat) :
    (numberingEnv R nboutputs n).Writes (numberedFrames nboutputs n) := by
  intro r inp inpCount outCount _
  rw [length_numberedFrames]
  exact ⟨rfl, rfl⟩

theorem enqueueAudio_frames_iff (ringbuffer : Ringbuffer)
    (hrate : c.samplerateResampler ≠ 0) (hres : c.resampler ≠ none) (hroom : n ≤ outputRoom c p) :
    (∀ (env : RxEnv R) (out : List (List CFloat)), out.length = n →
      (∀ f ∈ out, f.length = c.nboutputs) → env.Writes out →
      ∀ a, enqueueAudio env c p ringbuffer = .ok a → a.frames = out.map floatsBytes) ↔
    ¬p.AudioFits c.nboutputs ∨ n ≤ 1 ∨ c.nboutputs ≤ p.channels := by
  constructor
  · intro h
    by_contra hc
    simp only [not_or, not_not, Nat.not_le] at hc
    obtain ⟨hfits, hn, hch⟩ := hc
    have hlen : (numberedFrames c.nboutputs n).length = n := length_numberedFrames
    have hout : ∀ f ∈ numberedFrames c.nboutputs n, f.length = c.nboutputs := by
      intro f hf
      exact length_of_mem_numberedFrames hf
    have hw := numberingEnv_writes R c.nboutputs n
    obtain ⟨a, ha⟩ := enqueueAudio_ok (numberingEnv R c.nboutputs n) ringbuffer hrate hres hfits
    obtain ⟨rest, hframes⟩ := enqueueAudio_frames hw (by rwa [hlen]) ha
    rw [hlen, Nat.min_eq_left hch.le] at hframes
    exact enqueuedFrames_ne hch hn (hframes.symm.trans (h _ _ hlen hout hw a ha))
  · rintro (hfits | h) env out hlen hout hw a ha
    · refine absurd ((enqueueAudio_avoids env ringbuffer hrate).mp ?_) hfits
      rw [ha]
      exact avoids_ok
    · obtain ⟨rest, hframes⟩ := enqueueAudio_frames hw (by rwa [hlen]) ha
      rw [hframes]
      apply enqueuedFrames_eq hout
      omega

/-- An accepted packet offers the ring the frames of its enqueue stage, and these are the
resampler's frames, whatever they are, exactly when there is at most one or the packet has all
the channels. A packet that is read past its end has no defined audio and is left out. -/
theorem enqueued_frames_iff {ipIn : UInt32} (he : Enqueues c p ipIn)
    (hc : c.ringbuffer = some ringbuffer) (hrate : c.samplerateResampler ≠ 0)
    (hres : c.resampler ≠ none) (hroom : n ≤ outputRoom c p) :
    (∀ (env : RxEnv R) packetlen portIn taken r,
      vbanRxHandlePacket env p packetlen c ipIn portIn taken = .ok r →
      ∃ a, enqueueAudio env c p ringbuffer = .ok a ∧ r.frames = a.frames) ∧
    ((∀ (env : RxEnv R) (out : List (List CFloat)), out.length = n →
      (∀ f ∈ out, f.length = c.nboutputs) → env.Writes out →
      ∀ a, enqueueAudio env c p ringbuffer = .ok a → a.frames = out.map floatsBytes) ↔
    ¬p.AudioFits c.nboutputs ∨ n ≤ 1 ∨ c.nboutputs ≤ p.channels) :=
  ⟨fun _ _ _ _ _ h => handle_frames he hc h, enqueueAudio_frames_iff ringbuffer hrate hres hroom⟩

/-- An open stream of the name `"A"` from `127.0.0.1` at 48000 Hz. -/
def openContext (nboutputs : Nat) : VbanRxContext Unit :=
  { (VbanRxContext.start (.strncpy [0x41, 0]) 0x0100007F 6980 : VbanRxContext Unit) with
    nboutputs := nboutputs
    nframes := 1
    samplerateResampler := 48000
    ringbuffer := some (vbanComputeRxRingbuffer 1 0 nboutputs 1)
    resampler := some () }

/-- A packet that is nothing but a header, as it stands in the cleared buffer. -/
def headerPacket (h : VBanHeader) : VBanPacket :=
  VBanPacket.zero.store 0 vbanProtocolMaxSize VBanPacket.whole_le (h.toBytes ++ [])

theorem headerPacket_header (h : VBanHeader) : (headerPacket h).header = h :=
  VBanPacket.header_received _ h _

theorem headerPacket_enqueues {h : VBanHeader} {nboutputs : Nat}
    (hp : h.formatSR &&& vbanProtocolMask = vbanProtocolAudio)
    (hname : h.streamname = .strncpy [0x41, 0]) (hnu : h.nuFrame ≠ 0) :
    Enqueues (openContext nboutputs) (headerPacket h) 0x0100007F := by
  refine ⟨?_, nofun, ⟨?_, ?_, rfl⟩⟩
  · rw [VBanPacket.protocol, headerPacket_header]
    exact hp
  · rw [headerPacket_header, hname]
    rfl
  · rw [headerPacket_header]
    exact hnu

theorem audioFits_of_mono {nboutputs : Nat} (hbit : p.header.formatBit = vbanBitfmt32Float)
    (hnbc : p.header.formatNbc = 0) : p.AudioFits nboutputs := by
  have hnbs := p.header.formatNbs.toNat_lt
  simp only [VBanPacket.AudioFits, VBanPacket.samples, VBanPacket.channels, VBanPacket.sampleSize,
    ReadsFit, hbit, hnbc]
  refine ⟨by decide, fun _ => .inr ?_⟩
  have hone : min ((0 : UInt8).toNat + 1) nboutputs ≤ 1 := by simp
  have hsize : vbanBitResolutionSize.getD vbanBitfmt32Float.toNat 0 = 4 := rfl
  have hmax : vbanDataMaxSize = 1436 := rfl
  rw [hsize, hmax]
  simp only [UInt8.toNat_zero, Nat.zero_add, Nat.one_mul] at hone ⊢
  omega

/-- Mono into mono, two frames. -/
theorem enqueued_frames_mono : ∃ a,
    enqueueAudio (numberingEnv Unit 1 2) (openContext 1) (headerPacket (audioHeader 3 1 0 4 1))
      (vbanComputeRxRingbuffer 1 0 1 1) = .ok a ∧ a.frames = [[0, 0, 0, 0], [1, 0, 0, 0]] := by
  let p := headerPacket (audioHeader 3 1 0 4 1)
  have he : Enqueues (openContext 1) p 0x0100007F := headerPacket_enqueues rfl rfl (by decide)
  have hroom : 2 ≤ outputRoom (openContext 1) p := by
    rw [outputRoom, VBanPacket.samples, headerPacket_header]
    decide
  have hfits : p.AudioFits 1 := by
    apply audioFits_of_mono <;> rw [headerPacket_header] <;> decide
  have hchannels : (openContext 1).nboutputs ≤ p.channels := Nat.succ_pos _
  obtain ⟨a, ha⟩ := enqueueAudio_ok (numberingEnv Unit 1 2) (c := openContext 1)
    (vbanComputeRxRingbuffer 1 0 1 1) (by decide) (Option.some_ne_none ()) hfits
  obtain ⟨-, hframes⟩ := enqueued_frames_iff he rfl (by decide)
    (Option.some_ne_none ()) hroom
  refine ⟨a, ha, ?_⟩
  rw [hframes.mpr (.inr (.inr hchannels)) (numberingEnv Unit 1 2) _ length_numberedFrames
    (fun f hf => length_of_mem_numberedFrames hf) (numberingEnv_writes Unit 1 2) a ha]
  decide

/-- Mono into stereo: the second frame is not the resampler's second frame. -/
theorem enqueued_frames_stereo :
    ¬∀ (c : VbanRxContext Unit) p ringbuffer ipIn (env : RxEnv Unit) (out : List (List CFloat)) a,
      Enqueues c p ipIn → c.ringbuffer = some ringbuffer → out.length ≤ outputRoom c p →
      (∀ f ∈ out, f.length = c.nboutputs) → env.Writes out →
      enqueueAudio env c p ringbuffer = .ok a → a.frames = out.map floatsBytes := by
  intro h
  let p := headerPacket (audioHeader 3 1 0 4 1)
  have he : Enqueues (openContext 2) p 0x0100007F := headerPacket_enqueues rfl rfl (by decide)
  have hroom : 2 ≤ outputRoom (openContext 2) p := by
    rw [outputRoom, VBanPacket.samples, headerPacket_header]
    decide
  have hiff := enqueueAudio_frames_iff (c := openContext 2) (vbanComputeRxRingbuffer 1 0 2 1)
    (by decide) (Option.some_ne_none ()) hroom
  have hchannels : p.channels = 1 := by
    rw [VBanPacket.channels, headerPacket_header]
    rfl
  obtain hfits | hn | hch := hiff.mp fun env out hlen hout hw a ha =>
    h _ p _ _ env out a he rfl (by rwa [hlen]) hout hw ha
  · refine hfits (audioFits_of_mono ?_ ?_) <;> rw [headerPacket_header] <;> decide
  · exact absurd hn (by decide)
  · rw [hchannels] at hch
    exact absurd hch (by decide)

end Vban
