import Vban.Receive.Resampling

/-! The receive ring after a packet: what it dropped, and the fill level that is computed of it. -/
namespace Vban

open Library

variable {M : Type} {filter : ResamplerFilter M} {ofInt : Int → CFloat}
  {div : CFloat → CFloat → CFloat}
  {samplerate samplerateResampler nframes nframesPac redundancy count framesize : Nat}
  {c c₀ : VbanRxContext (VResampler M)} {p : VBanPacket} {v : VResampler M} {rb : Ringbuffer}
  {ls : List (Option VBanPacket)} {events : List FrameEvent} {packetlen : Int} {ipIn : UInt32}
  {portIn : UInt16} {taken : List Nat} {r : RxResult (VResampler M)}
  {a : ResampledAudio (VResampler M)}

/-- The frames of an enqueue loop go through the queue in order, and those that do not fit are
dropped. -/
theorem FrameRefines.enqueueFrames {nboutputs : Nat}
    {q : BoundedQueue (List UInt8) (count - 1)} (h : FrameRefines (nboutputs * 4) count rb q)
    {frames : List (List UInt8)} (hframes : ∀ f ∈ frames, f.length = nboutputs * 4) :
    FrameRefines (nboutputs * 4) count (enqueueFrames rb frames (nboutputs * 4))
      (q.push frames) := by
  induction frames generalizing rb q with
  | nil =>
    have hnone : q.push [] = q := by
      ext1
      simp
    rw [hnone]
    exact h
  | cons frame frames ih =>
    rw [BoundedQueue.push_cons]
    exact ih (h.write (hframes frame List.mem_cons_self)) fun f hf =>
      hframes f (List.mem_cons_of_mem frame hf)

/-- The ring of a receptor refines a queue in every run. -/
theorem ring_run_refines {nboutputs : Nat} (hn : 1 ≤ nframes) (hnboutputs : 1 ≤ nboutputs)
    (hsize : 2 * max nframes nframesPac * nboutputs * (redundancy + 1) * 4 < 2 ^ 31)
    (h : Run (FrameStep nboutputs)
      (vbanComputeRxRingbuffer nframes nframesPac nboutputs redundancy) events rb) :
    ∃ q, FrameRefines (nboutputs * 4) (2 * max nframes nframesPac * (redundancy + 1)) rb q := by
  have hmax : 1 ≤ max nframes nframesPac := hn.trans (le_max_left _ _)
  obtain ⟨q, -, hq⟩ := h.simulation
    (R := FrameRefines (nboutputs * 4) (2 * max nframes nframesPac * (redundancy + 1)))
    (fun _ _ _ _ hr hs => frameRefines_step hr hs) (frameRefines_create hmax hnboutputs hsize)
  exact ⟨q, hq⟩

/-- The ring of a stream after the enqueue stage of a packet. -/
theorem StreamInvariant.ring_refines (hc : StreamInvariant filter samplerate samplerateResampler c)
    (hv : c.resampler = some v) {q : BoundedQueue (List UInt8) (count - 1)}
    (hq : FrameRefines (c.nboutputs * 4) count rb q)
    (ha : enqueueAudio (VResampler.rxEnv ofInt div filter) c p rb = .ok a) :
    a.frames.length = resampledFrames filter c v p ∧ ∃ rb', a.context.ringbuffer = some rb' ∧
      FrameRefines (c.nboutputs * 4) count rb' (q.push a.frames) := by
  obtain ⟨c', hc'⟩ := hc.exists_resize p
  obtain ⟨⟨-, hframes, hwhole⟩, -⟩ := hc.resampled hv hc' ha
  exact ⟨hframes, _, (enqueueAudio_spec ha).2, hq.enqueueFrames hwhole⟩

theorem StreamInvariant.nboutputs_pos
    (hc : StreamInvariant filter samplerate samplerateResampler c) :
    1 ≤ c.nboutputs := by
  obtain ⟨v, -, hrunning⟩ := hc.resampler
  exact hrunning.nchan_pos

/-- Frames that go into an empty queue all stay there if they fit. -/
theorem contents_eq_flatten_iff {q : BoundedQueue (List UInt8) (count - 1)}
    {frames : List (List UInt8)} (hempty : q.items = [])
    (h : FrameRefines framesize count rb (q.push frames))
    (hframes : ∀ f ∈ frames, f.length = framesize) :
    rb.contents = frames.flatten ↔ frames.length ≤ count - 1 := by
  obtain ⟨hpos, -⟩ := h.count_pos
  have hlength := q.length_push frames
  rw [hempty, List.length_nil, Nat.zero_add] at hlength
  constructor
  · intro heq
    have hlen := congrArg List.length heq
    rw [h.contents_eq, length_flatten_frames h.frames, length_flatten_frames hframes,
      hlength] at hlen
    have hsame := Nat.eq_of_mul_eq_mul_left hpos hlen
    omega
  · intro hle
    have hfree := q.length_add_free
    rw [hempty, List.length_nil, Nat.zero_add] at hfree
    rw [h.contents_eq, BoundedQueue.push_items_of_le (hle.trans hfree.ge), hempty, List.nil_append]

theorem StreamInvariant.enqueued_iff (hc : StreamInvariant filter samplerate samplerateResampler c)
    (hv : c.resampler = some v) (hn : 1 ≤ nframes)
    (hsize : 2 * max nframes nframesPac * c.nboutputs * (redundancy + 1) * 4 < 2 ^ 31)
    (hring : Run (FrameStep c.nboutputs)
      (vbanComputeRxRingbuffer nframes nframesPac c.nboutputs redundancy) events rb)
    (hrb : c.ringbuffer = some rb) (hempty : ringbufferReadSpace rb = 0) (he : Enqueues c p ipIn)
    (hr : vbanRxHandlePacket (VResampler.rxEnv ofInt div filter) p packetlen c ipIn portIn taken =
      .ok r) :
    r.context.ringbuffer.map Ringbuffer.contents = some r.frames.flatten ↔
      resampledFrames filter c v p ≤ 2 * max nframes nframesPac * (redundancy + 1) - 1 := by
  obtain ⟨q, hq⟩ := ring_run_refines hn hc.nboutputs_pos hsize hring
  obtain ⟨hpos, -⟩ := hq.count_pos
  have hnone : q.items = [] := by
    have hspace := hq.readSpace_eq
    rw [hempty] at hspace
    rcases Nat.mul_eq_zero.mp hspace.symm with hzero | hzero
    · omega
    · exact List.length_eq_zero_iff.mp hzero
  obtain ⟨ringbuffer, a, d, hrb', ha, hd, hcontext⟩ := exists_enqueueAudio he hr
  obtain rfl := Option.some.inj (hrb'.symm.trans hrb)
  obtain ⟨hframes, rb', hring', hq'⟩ := hc.ring_refines hv hq ha
  obtain ⟨a', ha', hsame⟩ := handle_frames he hrb hr
  obtain rfl := Except.ok.inj (ha'.symm.trans ha)
  obtain ⟨c', hc'⟩ := hc.exists_resize p
  obtain ⟨⟨-, -, hwhole⟩, -⟩ := hc.resampled hv hc' ha
  have hafter : r.context.ringbuffer = some rb' := by
    rw [hcontext]
    exact (correctFill_spec hd).2.trans hring'
  rw [hafter, Option.map_some, Option.some_inj, hsame, ← hframes]
  exact contents_eq_flatten_iff hnone hq' hwhole

/-- The whole frames that a ring holds. -/
def ringFrames (rb : Ringbuffer) (nboutputs : Nat) : Nat := ringbufferReadSpace rb / (nboutputs * 4)

/-- The fill level that counts the frames of the ring as the enqueue loop stores them. -/
def FillInFrames (c : VbanRxContext (VResampler M)) (r : RxResult (VResampler M)) : Prop :=
  ∃ rb, r.context.ringbuffer = some rb ∧ r.context.rbfill =
    Int.bmod (ringFrames rb c.nboutputs + r.context.cframes - r.frames.length) (2 ^ 32)

/-- The frames of the ring after a packet, for a ring with `q` frames before it. -/
def framesAfter (filter : ResamplerFilter M) (c : VbanRxContext (VResampler M))
    (v : VResampler M) (p : VBanPacket) (rb : Ringbuffer) : Nat :=
  min (ringFrames rb c.nboutputs + resampledFrames filter c v p) (rb.size / (c.nboutputs * 4) - 1)

/-- With `k` frames of `outframesize` bytes in the ring, a count of frames of `framesize` bytes
gives `k` as well. -/
def SameCount (framesize outframesize k : Nat) : Prop :=
  framesize = outframesize ∨ k = 0 ∧ framesize ≠ 0 ∨
    framesize < outframesize ∧ k * (outframesize - framesize) < framesize

instance {outframesize k : Nat} : Decidable (SameCount framesize outframesize k) :=
  inferInstanceAs (Decidable (_ ∨ _ ∨ _))

theorem sameCount_iff {outframesize k : Nat} (hpos : 0 < outframesize) :
    framesize ≠ 0 ∧ outframesize * k / framesize = k ↔ SameCount framesize outframesize k := by
  rw [SameCount]
  rcases Nat.eq_zero_or_pos framesize with rfl | hframesize
  · refine iff_of_false (fun h => h.1 rfl) ?_
    rintro (h | ⟨-, h⟩ | ⟨-, h⟩)
    · omega
    · exact h rfl
    · exact absurd h (Nat.not_lt_zero _)
  · rw [Nat.div_eq_iff hframesize, Nat.mul_comm outframesize]
    rcases Nat.lt_trichotomy framesize outframesize with hlt | rfl | hgt
    · obtain ⟨d, rfl⟩ := Nat.exists_eq_add_of_lt hlt
      rw [Nat.add_assoc, Nat.mul_add, Nat.add_sub_cancel_left]
      constructor
      · rintro ⟨hne, -, hle⟩
        exact .inr (.inr ⟨by omega, by omega⟩)
      · rintro (heq | ⟨rfl, -⟩ | ⟨-, hless⟩)
        · omega
        · omega
        · omega
    · exact iff_of_true ⟨hframesize.ne', Nat.le_refl _, by omega⟩ (.inl rfl)
    · obtain ⟨d, rfl⟩ := Nat.exists_eq_add_of_lt hgt
      rw [Nat.add_assoc, Nat.mul_add]
      constructor
      · rintro ⟨-, hle, -⟩
        have hzero : k * (d + 1) = 0 := by omega
        exact .inr (.inl ⟨by simpa using hzero, by omega⟩)
      · rintro (heq | ⟨rfl, -⟩ | ⟨hlt, -⟩)
        · omega
        · omega
        · omega

/-- Numbers of frames are told apart by the `int` that is computed of them. -/
theorem bmod_add_inj {m n : Nat} {x : Int} (hm : m < 2 ^ 31) (hn : n < 2 ^ 31) :
    Int.bmod (m + x) (2 ^ 32) = Int.bmod (n + x) (2 ^ 32) ↔ m = n := by
  rw [Int.bmod_eq_bmod_iff_bmod_sub_eq_zero, Int.bmod_eq_of_le_mul_two (by omega) (by omega)]
  omega

/-- The enqueue stage changes nothing that the cycle lengths are computed of. -/
theorem calcInputSamplerate_enqueued {R : Type} {env : RxEnv R} {c : VbanRxContext R}
    {a : ResampledAudio R} (h : enqueueAudio env c p rb = .ok a) :
    (calcInputSamplerate a.context p).1 = (calcInputSamplerate c p).1 ∧
      (calcInputSamplerate a.context p).2.cframes = (calcInputSamplerate c p).2.cframes ∧
      (calcInputSamplerate a.context p).2.nframes = c.nframes ∧ a.context.flags = c.flags := by
  obtain ⟨resampler, inbuf, inbuflen, outbuf, outbuflen, heq⟩ := enqueueAudio_context h
  rw [heq]
  simp only [calcInputSamplerate]
  split_ifs <;> exact ⟨rfl, rfl, rfl, trivial⟩

/-- What the correction assigns when it has a cycle length. -/
theorem correctFill_eq {R : Type} {env : RxEnv R} {c : VbanRxContext R} {a : ResampledAudio R}
    {rb' : Ringbuffer} (ha : enqueueAudio env c p rb = .ok a)
    (hring : a.context.ringbuffer = some rb') (hflag : c.flags &&& correctionOn ≠ 0)
    (hsrerr : (calcInputSamplerate c p).1 = 0)
    (hcframes : (calcInputSamplerate c p).2.cframes > c.nframes) :
    correctFill a p = if a.framesize = 0 then .error .divisionByZero
      else .ok { (calcInputSamplerate a.context p).2 with
        rbfill := Int.bmod (((ringbufferReadSpace rb' / a.framesize : Nat) : Int) +
          (calcInputSamplerate c p).2.cframes - a.frames.length) (2 ^ 32) } := by
  obtain ⟨hsame, hcframes', hnframes, hflags⟩ := calcInputSamplerate_enqueued ha
  have hring' := (calcInputSamplerate_spec (c := a.context) (p := p)).2.trans hring
  simp only [correctFill]
  rw [hflags, if_neg hflag, hring']
  simp only
  rw [hsame, hcframes', hnframes, if_pos ⟨hcframes, hsrerr⟩]
  rfl

/-- The frames in the ring after the enqueue stage. -/
theorem StreamInvariant.ringFrames_eq (hc : StreamInvariant filter samplerate samplerateResampler c)
    (hv : c.resampler = some v) {q : BoundedQueue (List UInt8) (count - 1)}
    (hq : FrameRefines (c.nboutputs * 4) count rb q)
    (ha : enqueueAudio (VResampler.rxEnv ofInt div filter) c p rb = .ok a) :
    ∃ rb', a.context.ringbuffer = some rb' ∧
      ringbufferReadSpace rb' = c.nboutputs * 4 * framesAfter filter c v p rb ∧
      ringFrames rb' c.nboutputs = framesAfter filter c v p rb ∧
      c.nboutputs * 4 * framesAfter filter c v p rb < rb.size := by
  obtain ⟨hframes, rb', hring, hq'⟩ := hc.ring_refines hv hq ha
  obtain ⟨hpos, hcount⟩ := hq.count_pos
  have hbefore : ringFrames rb c.nboutputs = q.items.length := by
    rw [ringFrames, hq.readSpace_eq, Nat.mul_div_cancel_left _ hpos]
  have hafter : (q.push a.frames).items.length = framesAfter filter c v p rb := by
    rw [q.length_push, framesAfter, hbefore, hq.size_eq, Nat.mul_div_cancel_left _ hpos, hframes]
  have hspace : ringbufferReadSpace rb' = c.nboutputs * 4 * framesAfter filter c v p rb := by
    rw [hq'.readSpace_eq, hafter]
  have hsize : rb'.size = rb.size := hq'.size_eq.trans hq.size_eq.symm
  refine ⟨rb', hring, hspace, ?_, ?_⟩
  · rw [ringFrames, hspace, Nat.mul_div_cancel_left _ hpos]
  · rw [← hspace, ← hsize]
    exact hq'.wellFormed.readSpace_lt

theorem StreamInvariant.fill_iff (hc : StreamInvariant filter samplerate samplerateResampler c)
    (hv : c.resampler = some v) (hn : 1 ≤ nframes)
    (hsize : 2 * max nframes nframesPac * c.nboutputs * (redundancy + 1) * 4 < 2 ^ 31)
    (hring : Run (FrameStep c.nboutputs)
      (vbanComputeRxRingbuffer nframes nframesPac c.nboutputs redundancy) events rb)
    (hrb : c.ringbuffer = some rb) (he : Enqueues c p ipIn)
    (ha : enqueueAudio (VResampler.rxEnv ofInt div filter) c p rb = .ok a)
    (hflag : c.flags &&& correctionOn ≠ 0) (hsrerr : (calcInputSamplerate c p).1 = 0)
    (hcframes : (calcInputSamplerate c p).2.cframes > c.nframes) :
    (∃ r, vbanRxHandlePacket (VResampler.rxEnv ofInt div filter) p packetlen c ipIn portIn taken =
      .ok r ∧ FillInFrames c r) ↔
      SameCount (p.channels * p.sampleSize) (c.nboutputs * 4) (framesAfter filter c v p rb) := by
  obtain ⟨q, hq⟩ := ring_run_refines hn hc.nboutputs_pos hsize hring
  obtain ⟨hpos, -⟩ := hq.count_pos
  obtain ⟨rb', hring', hspace, hframes, hbound⟩ := hc.ringFrames_eq hv hq ha
  have hfits : p.AudioFits c.nboutputs := by
    apply (enqueueAudio_avoids (VResampler.rxEnv ofInt div filter) rb hc.rate_ne).mp
    rw [ha]
    exact avoids_ok
  have hframesize : a.framesize = p.channels * p.sampleSize := (enqueueAudio_keeps hfits.1 ha).2
  have hfill := correctFill_eq ha hring' hflag hsrerr hcframes
  have hsmall : rb.size < 2 ^ 31 := by
    have hcount : c.nboutputs * 4 * (2 * max nframes nframesPac * (redundancy + 1)) =
        2 * max nframes nframesPac * c.nboutputs * (redundancy + 1) * 4 := by ring
    rw [hq.size_eq, hcount]
    exact hsize
  rw [← sameCount_iff hpos, vbanRxHandlePacket_of_enqueues he hrb ha, hfill, hframesize]
  generalize p.channels * p.sampleSize = size at *
  by_cases hzero : size = 0
  · rw [if_pos hzero]
    refine iff_of_false ?_ fun h => h.1 hzero
    rintro ⟨r, hr, -⟩
    cases hr
  · rw [if_neg hzero, ok_bind, hspace]
    have hring'' := (calcInputSamplerate_spec (c := a.context) (p := p)).2.trans hring'
    have hcframes' := (calcInputSamplerate_enqueued ha).2.1
    have hdiv := Nat.div_le_self (c.nboutputs * 4 * framesAfter filter c v p rb) size
    have hle : framesAfter filter c v p rb ≤ c.nboutputs * 4 * framesAfter filter c v p rb :=
      Nat.le_mul_of_pos_left _ hpos
    have hinj := bmod_add_inj (m := c.nboutputs * 4 * framesAfter filter c v p rb / size)
      (n := framesAfter filter c v p rb)
      (x := (calcInputSamplerate c p).2.cframes - a.frames.length) (by omega) (by omega)
    rw [← Int.add_sub_assoc, ← Int.add_sub_assoc] at hinj
    constructor
    · rintro ⟨r, hr, rb'', hrb'', hequal⟩
      obtain rfl := Except.ok.inj hr
      obtain rfl := Option.some.inj (hring''.symm.trans hrb'')
      simp only [hframes, hcframes'] at hequal
      exact ⟨hzero, hinj.mp hequal⟩
    · rintro ⟨-, hequal⟩
      refine ⟨_, rfl, rb', hring'', ?_⟩
      simp only [hframes, hcframes']
      exact hinj.mpr hequal

/-- The first packet of a stream at equal rates gives as many frames as it has samples. -/
theorem Opens.resampledFrames_eq (hopen : Opens filter samplerate samplerate c)
    (hround : Rounding filter.round) (hrate : samplerate ≤ 705600) (hv : c.resampler = some v)
    (p : VBanPacket) : resampledFrames filter c v p = p.samples := by
  have hpos := hopen.samplerateResampler_pos
  obtain ⟨memory, w, hw, hcreate⟩ := hopen.resampler_eq
  obtain rfl := Option.some.inj (hw.symm.trans hv)
  rw [div_self (Nat.cast_ne_zero.mpr hpos.ne'), hround.one] at hcreate
  obtain ⟨hphase, hnp, hqstep, hwstep⟩ := VResampler.create_spec hcreate
    fun hlt => absurd hlt (lt_irrefl _)
  have hsmall : nphase < 2 ^ 53 := by decide
  rw [div_one, hround.natCast _ hsmall] at hphase hqstep
  have hreach : ∀ k, w.reach filter.round k = k + 1 := fun k => by
    rw [VResampler.reach, hphase, hnp, hqstep, hwstep,
      Phase.reach_of_next_eq (Phase.next_of_one hround (by decide) hsmall), Nat.mul_one]
  rw [resampledFrames, outputRoom_eq hopen.invariant hrate, Nat.mul_div_cancel _ hpos,
    Nat.count_succ, if_neg (by rw [hreach]; exact Nat.not_succ_le_self _), Nat.add_zero]
  exact Nat.count_of_forall fun k hk => (hreach k).trans_le hk

theorem openedStream_ring_run : ∃ rb, (openedStream roundDouble 48000 48000).ringbuffer = some rb ∧
    Run (FrameStep (openedStream roundDouble 48000 48000).nboutputs)
      (vbanComputeRxRingbuffer 64 0 (openedStream roundDouble 48000 48000).nboutputs 0) [] rb ∧
    ringbufferReadSpace rb = 0 :=
  ⟨_, rfl, .refl _, by decide +kernel⟩

/-- The stream at the start of a cycle, after five cycles of 128 frames. -/
def cycleStream : VbanRxContext (VResampler Unit) :=
  { openedStream roundDouble 48000 48000 with
    inputTs := ⟨2, 0⟩
    timeOld := ⟨1, 0⟩
    timeCycleStart := ⟨1, 0⟩
    cycleFrames := 128
    cframesMarr := List.replicate 5 128 }

theorem cycleStream_opens : ∃ v, cycleStream.resampler = some v ∧
    Opens (silentFilter roundDouble) 48000 48000 cycleStream := by
  obtain ⟨v, hv, hopen⟩ := equalStream_opens rounding_double (by decide : 0 < 48000)
  exact ⟨v, hv, rfl, rfl, by decide, hopen.resampler_eq, rfl⟩

theorem cycleStream_calc (p : VBanPacket) : (calcInputSamplerate cycleStream p).1 = 0 ∧
    (calcInputSamplerate cycleStream p).2.cframes = 128 := by
  have hcycle : cycleStream.timeCycleStart.sec ≠ 0 := by decide
  have helapsed : (cycleStream.inputTs.sec - cycleStream.timeOld.sec) * 1000000000 +
      cycleStream.inputTs.nsec - cycleStream.timeOld.nsec > 100000 := by decide
  have hmedian : cfmed (cycleStream.cframesMarr.set cycleStream.cfind cycleStream.cycleFrames) =
      128 := by decide
  simp only [calcInputSamplerate]
  rw [if_pos helapsed, if_pos hcycle]
  exact ⟨rfl, hmedian⟩

/-- A packet of 16 bit samples. -/
def shortPacket : VBanPacket := headerPacket (audioHeader 3 63 0 1 1)

theorem shortPacket_header : shortPacket.header = audioHeader 3 63 0 1 1 := headerPacket_header _

theorem shortPacket_fits : shortPacket.AudioFits 1 := by
  simp only [VBanPacket.AudioFits, VBanPacket.samples, VBanPacket.channels, VBanPacket.sampleSize,
    shortPacket_header]
  exact ⟨by decide, fun _ => .inr (by decide)⟩

end Vban
