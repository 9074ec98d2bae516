import Vban.Library.Run
import Vban.Pcmi.Device

/-! `Alsa_pcmi`: what the device plays, from `pcm_start` on and period after period. The library is
a parameter; the memory is the ring it documents, and the object writes it in whole fragments. -/
namespace Vban.Pcmi

open Library

variable {n frames width : Nat} {σ : Type}

/-- The sample bytes of all channels. -/
abbrev Frame (n : Nat) := Fin n → List UInt8

/-- The functions of libasound that the object calls on its playback handle, over the state of the
library. The number is the error where it is negative. -/
structure PcmHandle (σ : Type) where
  prepare : σ → Int × σ
  availUpdate : σ → Int × σ
  /-- The offset and the frames granted of those asked for, or `none` for an error. -/
  mmapBegin : (len : Nat) → σ → Option (Nat × Nat) × σ
  mmapCommit : (offs len : Nat) → σ → Int × σ
  start : σ → Int × σ

/-- The playback side of the object. -/
structure Playback (n : Nat) (σ : Type) where
  dir : Direction n
  handle : σ

namespace Playback

variable (lib : PcmHandle σ)

def playInit [NeZero n] (b : PcmAreas n frames width) (len : Nat) (s : Playback n σ) :
    Nat × Playback n σ :=
  let (answer, handle) := lib.mmapBegin len s.handle
  let (granted, dir) := s.dir.init b answer
  (granted, ⟨dir, handle⟩)

def playDone (len : Nat) (s : Playback n σ) : Int × Playback n σ :=
  let (err, handle) := lib.mmapCommit s.dir.offs len s.handle
  (err, { s with handle := handle })

/-- One fragment of silence. -/
def clearFragment [NeZero n] (b : PcmAreas n frames width) (fsize : Nat) (s : Playback n σ) :
    Option (Playback n σ) := do
  let (_, s) := s.playInit lib b fsize
  let dir ← (List.finRange n).foldlM (fun d j => d.clearChan width j fsize) s.dir
  return (playDone lib fsize { s with dir := dir }).2

/-- The playback part of `pcm_start`. The frames available are stored in an `unsigned int`. -/
def pcmStart [NeZero n] (b : PcmAreas n frames width) (fsize nfrag : Nat) (s : Playback n σ) :
    Option (Int × Playback n σ) :=
  let (err, handle) := lib.prepare s.handle
  let s := { s with handle := handle }
  if err < 0 then some (-1, s)
  else
    let (avail, handle) := lib.availUpdate s.handle
    let s := { s with handle := handle }
    if avail % 2 ^ 32 ≠ (fsize * nfrag % 2 ^ 32 : Nat) then some (-1, s)
    else do
      let s ← (List.range nfrag).foldlM (fun s _ => s.clearFragment lib b fsize) s
      let (err, handle) := lib.start s.handle
      return (if err < 0 then -1 else 0, { s with handle := handle })

/-- What `main` does with a period of `outbuf`. -/
def playPeriod [NeZero n] (f : PcmFormat) (b : PcmAreas n frames f.width) (nboutputs : Nat)
    (outbuf : Fin n → List CFloat) (nframes : Nat) (s : Playback n σ) :
    Option (Playback n σ) := do
  let (_, s) := s.playInit lib b nframes
  let dir ← ((List.finRange n).filter (·.val < nboutputs)).foldlM
    (fun d channel => d.playChan f channel (outbuf channel) nframes 1) s.dir
  return (playDone lib nframes { s with dir := dir }).2

end Playback

/-- The device behind a handle: how many frames have been committed since the stream was prepared,
how many of them are played, and how the device goes on to play from the memory. -/
structure PcmDevice (n : Nat) (σ : Type) where
  appl : σ → Nat
  hw : σ → Nat
  plays : σ → List UInt8 → List (Frame n) → σ → Prop

/-- What libasound documents of a ring of `frames` frames: the place of the next frame is granted
where it has room, a commit goes on from there, and the committed frames are played in order. -/
structure PcmDevice.IsRing [NeZero frames] (dev : PcmDevice n σ) (lib : PcmHandle σ)
    (b : PcmAreas n frames width) : Prop where
  prepare : ∀ s, 0 ≤ (lib.prepare s).1 →
    dev.appl (lib.prepare s).2 = 0 ∧ dev.hw (lib.prepare s).2 = 0
  availUpdate : ∀ s, dev.appl s = 0 → dev.hw s = 0 →
    dev.appl (lib.availUpdate s).2 = 0 ∧ dev.hw (lib.availUpdate s).2 = 0
  mmapBegin : ∀ s len, dev.appl s + len ≤ dev.hw s + frames → dev.appl s % frames + len ≤ frames →
    ∃ t, lib.mmapBegin len s = (some (dev.appl s % frames, len), t) ∧
      dev.appl t = dev.appl s ∧ dev.hw t = dev.hw s
  mmapCommit : ∀ s len, dev.appl s + len ≤ dev.hw s + frames →
    dev.appl s % frames + len ≤ frames →
    dev.appl (lib.mmapCommit (dev.appl s % frames) len s).2 = dev.appl s + len ∧
      dev.hw (lib.mmapCommit (dev.appl s % frames) len s).2 = dev.hw s
  start : ∀ s, 0 ≤ (lib.start s).1 →
    dev.appl (lib.start s).2 = dev.appl s ∧ dev.hw (lib.start s).2 = dev.hw s
  plays : ∀ s mem played t, dev.plays s mem played t →
    dev.appl t = dev.appl s ∧ dev.hw t = dev.hw s + played.length ∧ dev.hw t ≤ dev.appl t ∧
      ∀ j frame, played[j]? = some frame →
        ∀ c, frame c = b.grid.cell mem (c, Fin.ofNat frames (dev.hw s + j))

/-- A library whose state is the frames committed and the frames played. -/
def ringHandle (frames : Nat) : PcmHandle (Nat × Nat) where
  prepare _ := (0, (0, 0))
  availUpdate s := (s.2 + frames - s.1, s)
  mmapBegin len s :=
    (some (s.1 % frames, min len (min (s.2 + frames - s.1) (frames - s.1 % frames))), s)
  mmapCommit _ len s := (len, (s.1 + len, s.2))
  start s := (0, s)

/-- A device that plays any of the committed frames. -/
def ringDevice [NeZero frames] (b : PcmAreas n frames width) : PcmDevice n (Nat × Nat) where
  appl := Prod.fst
  hw := Prod.snd
  plays s mem played t := ∃ k, s.2 + k ≤ s.1 ∧ t = (s.1, s.2 + k) ∧
    played = (List.range k).map fun j c => b.grid.cell mem (c, Fin.ofNat frames (s.2 + j))

theorem ringDevice_isRing [NeZero frames] (b : PcmAreas n frames width) :
    (ringDevice b).IsRing (ringHandle frames) b := by
  refine ⟨fun _ _ => ⟨rfl, rfl⟩, fun _ happl hhw => ⟨happl, hhw⟩, ?_, fun _ _ _ _ => ⟨rfl, rfl⟩,
    fun _ _ => ⟨rfl, rfl⟩, ?_⟩
  · intro s len hroom hfit
    have hgranted : min len (min (s.2 + frames - s.1) (frames - s.1 % frames)) = len := by
      simp only [ringDevice] at hroom hfit
      omega
    refine ⟨s, ?_, rfl, rfl⟩
    simp only [ringHandle, hgranted]
    rfl
  · rintro s mem played t ⟨k, hk, rfl, rfl⟩
    refine ⟨rfl, by simp [ringDevice], hk, fun j frame hj c => ?_⟩
    obtain ⟨i, hi, rfl⟩ := List.mem_map.mp (List.mem_of_getElem? hj)
    rw [List.getElem?_map, Option.map_eq_some_iff] at hj
    obtain ⟨m, hm, heq⟩ := hj
    rw [List.getElem?_range (by simpa using (List.getElem?_eq_some_iff.mp hm).1)] at hm
    rw [← heq, Option.some.inj hm]
    rfl

theorem exists_ringDevice_plays [NeZero frames] (b : PcmAreas n frames width) (mem : List UInt8)
    {appl hw k : Nat} (h : hw + k ≤ appl) :
    ∃ played, (ringDevice b).plays (appl, hw) mem played (appl, hw + k) :=
  ⟨_, k, h, rfl, rfl⟩

inductive PlayEvent (n : Nat)
  | period (outbuf : Fin n → List CFloat)
  | played (frames : List (Frame n))

/-- The channels hold samples for the period, and no NaN for an integer format. -/
def Sounding (f : PcmFormat) (nboutputs nframes : Nat) (outbuf : Fin n → List CFloat) : Prop :=
  ∀ c : Fin n, c.val < nboutputs → ∀ j, j < nframes →
    ∃ s, (outbuf c)[j]? = some s ∧ f.Playable s

/-- A period when there is room for it, which `main` does not ask for; or the device plays. -/
inductive PlayStep [NeZero n] (lib : PcmHandle σ) (dev : PcmDevice n σ) (f : PcmFormat)
    (b : PcmAreas n frames f.width) (nboutputs nframes : Nat) :
    Playback n σ → PlayEvent n → Playback n σ → Prop
  | period {s t : Playback n σ} {outbuf : Fin n → List CFloat} :
      dev.appl s.handle + nframes ≤ dev.hw s.handle + frames →
      Sounding f nboutputs nframes outbuf →
      s.playPeriod lib f b nboutputs outbuf nframes = some t →
      PlayStep lib dev f b nboutputs nframes s (.period outbuf) t
  | played {s : Playback n σ} {played : List (Frame n)} {handle : σ} :
      dev.plays s.handle s.dir.mem played handle →
      PlayStep lib dev f b nboutputs nframes s (.played played) { s with handle := handle }

/-- What is played of a channel: a channel that is not used stays silent. -/
def periodFrames (f : PcmFormat) (nboutputs nframes : Nat) (outbuf : Fin n → List CFloat) :
    List (Frame n) :=
  (List.range nframes).map fun j c =>
    if c.val < nboutputs then (((outbuf c)[j]?).bind f.play).getD []
    else List.replicate f.width 0

def committedFrames (f : PcmFormat) (nboutputs nframes : Nat) (ls : List (PlayEvent n)) :
    List (Frame n) :=
  ls.flatMap fun
    | .period outbuf => periodFrames f nboutputs nframes outbuf
    | .played _ => []

def playedFrames (ls : List (PlayEvent n)) : List (Frame n) :=
  ls.flatMap fun
    | .period _ => []
    | .played frames => frames

/-- The last frames of the stream are in the memory, each in its place. -/
structure Holds [NeZero frames] (b : PcmAreas n frames width) (used : Fin n → Prop)
    (stream : List (Frame n)) (mem : List UInt8) : Prop where
  length_mem : mem.length = b.size
  cell_eq : ∀ t frame, stream[t]? = some frame → stream.length ≤ t + frames →
    ∀ c, b.grid.cell mem (c, Fin.ofNat frames t) = frame c
  idle : ∀ c, ¬used c → ∀ k, b.grid.cell mem (c, k) = List.replicate width 0

variable {b : PcmAreas n frames width} {used : Fin n → Prop} {stream : List (Frame n)}
  {d : Direction n} {mem mem' : List UInt8} {len offs : Nat}

/-- What a loop over channels stores. -/
def block (used : Fin n → Prop) [DecidablePred used] (offs len : Nat)
    (bs : Fin n → Nat → List UInt8) (k : Fin n × Fin frames) : Option (List UInt8) :=
  if used k.1 ∧ offs ≤ k.2 ∧ k.2 < offs + len then some (bs k.1 (k.2 - offs)) else none

/-- A place in the ring is taken again only after as many frames as it has. -/
theorem place_ne {t j appl : Nat} (ht : t < appl) (hj : j < len)
    (hroom : appl + len ≤ t + frames) : t % frames ≠ (appl + j) % frames := by
  intro h
  have hdvd : frames ∣ appl + j - t := (Nat.modEq_iff_dvd' (by omega)).mp h
  have hle := Nat.le_of_dvd (by omega) hdvd
  omega

/-- The stream goes on with a block that does not pass the end of the memory. -/
theorem Holds.extend [NeZero frames] [DecidablePred used] {bs : Fin n → Nat → List UInt8}
    (h : Holds b used stream mem) (hroom : stream.length % frames + len ≤ frames)
    (hmem : b.grid.Rewritten (block used (stream.length % frames) len bs) mem mem') :
    Holds b used
      (stream ++ (List.range len).map fun j c => if used c then bs c j else List.replicate width 0)
      mem' := by
  refine ⟨hmem.length_eq.trans h.length_mem, ?_, ?_⟩
  · intro t frame ht hlast c
    rw [List.length_append, List.length_map, List.length_range] at hlast
    have hplace : ((Fin.ofNat frames t : Fin frames) : Nat) = t % frames := rfl
    rcases Nat.lt_or_ge t stream.length with hlt | hge
    · rw [List.getElem?_append_left hlt] at ht
      have hold := h.cell_eq t frame ht (by omega) c
      rw [hmem.cell_eq, block, if_neg, Option.getD_none, hold]
      rintro ⟨-, hlow, hhigh⟩
      simp only [hplace] at hlow hhigh
      apply place_ne hlt (j := t % frames - stream.length % frames) (by omega) hlast
      rw [Nat.add_mod, Nat.mod_eq_of_lt (a := t % frames - stream.length % frames) (by omega),
        Nat.add_sub_cancel' hlow, Nat.mod_mod]
    · obtain ⟨j, rfl⟩ := Nat.exists_eq_add_of_le hge
      rw [List.getElem?_append_right hge, Nat.add_sub_cancel_left] at ht
      have hj : j < len := by
        by_contra hj
        rw [List.getElem?_eq_none (by simp; omega)] at ht
        cases ht
      rw [List.getElem?_map, List.getElem?_range hj] at ht
      obtain rfl := Option.some.inj ht
      have hmod : (stream.length + j) % frames = stream.length % frames + j := by
        rw [Nat.add_mod, Nat.mod_eq_of_lt (a := j) (by omega), Nat.mod_eq_of_lt (by omega)]
      rw [hmem.cell_eq, block]
      simp only [hplace, hmod]
      by_cases hc : used c
      · rw [if_pos ⟨hc, by omega, by omega⟩, if_pos hc, Option.getD_some, Nat.add_sub_cancel_left]
      · rw [if_neg (fun hk => hc hk.1), if_neg hc, Option.getD_none, h.idle c hc]
  · intro c hc k
    rw [hmem.cell_eq, block, if_neg (fun hk => hc hk.1), Option.getD_none, h.idle c hc]

/-- A loop over channels stores the block of these channels. -/
theorem channels_loop (op : Direction n → Fin n → Option (Direction n))
    (bs : Fin n → Nat → List UInt8) (offs len : Nat) {cs : List (Fin n)} (hnodup : cs.Nodup)
    (hop : ∀ d c, c ∈ cs → d.At b c → d.offs = offs → ∃ mem', op d c = some { d with
        mem := mem'
        ptr := Function.update d.ptr c (b.pointer c (d.offs + len)) } ∧
      b.grid.Rewritten (PcmAreas.stretch c d.offs len (bs c)) d.mem mem')
    (hd : ∀ c ∈ cs, d.At b c) (hoffs : d.offs = offs) :
    ∃ mem' ptr', cs.foldlM op d = some { d with mem := mem', ptr := ptr' } ∧
      b.grid.Rewritten (block (· ∈ cs) offs len bs) d.mem mem' := by
  induction cs generalizing d with
  | nil =>
    refine ⟨d.mem, d.ptr, rfl, (Grid.Rewritten.refl b.grid d.mem).congr fun k => ?_⟩
    rw [block, if_neg (fun hk => absurd hk.1 List.not_mem_nil)]
  | cons c cs ih =>
    obtain ⟨hnot, hnodup⟩ := List.nodup_cons.mp hnodup
    obtain ⟨first, hfirst, hmem⟩ := hop d c List.mem_cons_self (hd c List.mem_cons_self) hoffs
    obtain ⟨mem', ptr', hrest, hmem'⟩ := ih (d := { d with
        mem := first
        ptr := Function.update d.ptr c (b.pointer c (d.offs + len)) }) hnodup
      (fun d e he => hop d e (List.mem_cons_of_mem c he))
      (fun e he => by
        have hat := hd e (List.mem_cons_of_mem c he)
        have hne : e ≠ c := by
          rintro rfl
          exact hnot he
        exact ⟨hmem.length_eq.trans hat.length_mem, hat.step_eq,
          (Function.update_of_ne hne _ _).trans hat.ptr_eq⟩) hoffs
    refine ⟨mem', ptr', ?_, (hmem.trans hmem').congr fun k => ?_⟩
    · rw [List.foldlM_cons, hfirst, some_bind, hrest]
    · rw [hoffs]
      simp only [block, PcmAreas.stretch, List.mem_cons]
      by_cases hk : offs ≤ k.2 ∧ k.2 < offs + len
      · by_cases hkc : k.1 = c
        · rw [if_neg (fun h => hnot (hkc ▸ h.1)), if_pos ⟨hkc, hk⟩, if_pos ⟨.inl hkc, hk⟩, hkc]
          rfl
        · by_cases hin : k.1 ∈ cs
          · rw [if_pos ⟨hin, hk⟩, Option.some_or, if_pos ⟨.inr hin, hk⟩]
          · rw [if_neg (fun h => hin h.1), if_neg (fun h => hkc h.1),
              if_neg (fun h => h.1.elim hkc hin)]
            rfl
      · rw [if_neg (fun h => hk h.2), if_neg (fun h => hk h.2), if_neg (fun h => hk h.2)]
        rfl

section Run

variable [NeZero n] [NeZero frames] {lib : PcmHandle σ} {dev : PcmDevice n σ}
  {s t : Playback n σ}

/-- The stream is committed, and what may still be played of it is in the memory. -/
structure Streaming (dev : PcmDevice n σ) (b : PcmAreas n frames width) (used : Fin n → Prop)
    (stream : List (Frame n)) (s : Playback n σ) : Prop where
  holds : Holds b used stream s.dir.mem
  appl_eq : dev.appl s.handle = stream.length

/-- Where there is room, a loop over the channels between `play_init` and `play_done` puts a block
on the stream. -/
theorem Streaming.extend [DecidablePred used] (ring : dev.IsRing lib b)
    (h : Streaming dev b used stream s) (hroom : dev.appl s.handle + len ≤ dev.hw s.handle + frames)
    (hfit : stream.length % frames + len ≤ frames) {cs : List (Fin n)} (hnodup : cs.Nodup)
    (hused : ∀ c, c ∈ cs ↔ used c) (op : Direction n → Fin n → Option (Direction n))
    (bs : Fin n → Nat → List UInt8)
    (hop : ∀ d c, used c → d.At b c → d.offs + len ≤ frames → ∃ mem', op d c = some { d with
        mem := mem'
        ptr := Function.update d.ptr c (b.pointer c (d.offs + len)) } ∧
      b.grid.Rewritten (PcmAreas.stretch c d.offs len (bs c)) d.mem mem') :
    ∃ t, ((cs.foldlM op (s.playInit lib b len).2.dir).bind fun dir =>
        some (Playback.playDone lib len { (s.playInit lib b len).2 with dir := dir }).2) = some t ∧
      Streaming dev b used (stream ++ (List.range len).map fun j c =>
        if used c then bs c j else List.replicate width 0) t ∧
      dev.hw t.handle = dev.hw s.handle := by
  have hfit' : dev.appl s.handle % frames + len ≤ frames := h.appl_eq ▸ hfit
  obtain ⟨handle, hbegin, happl, hhw⟩ := ring.mmapBegin s.handle len hroom hfit'
  have hinit : (s.playInit lib b len).2 =
      ⟨(s.dir.init b (some (dev.appl s.handle % frames, len))).2, handle⟩ := by
    rw [Playback.playInit, hbegin]
  obtain ⟨mem', ptr', hloop, hmem'⟩ := channels_loop (b := b)
    (d := (s.dir.init b (some (dev.appl s.handle % frames, len))).2) op bs
    (dev.appl s.handle % frames) len hnodup
    (fun d c hc hat hoffs => hop d c ((hused c).mp hc) hat (hoffs ▸ hfit'))
    (fun c _ => Direction.at_init h.holds.length_mem c) rfl
  have hcommit := ring.mmapCommit handle len (by rw [happl, hhw]; exact hroom)
    (by rw [happl]; exact hfit')
  rw [happl, hhw] at hcommit
  have hall : b.grid.Rewritten (block used (stream.length % frames) len bs) s.dir.mem mem' := by
    refine hmem'.congr fun k => ?_
    simp only [block, hused, h.appl_eq]
  let dir : Direction n :=
    ⟨mem', dev.appl s.handle % frames, b.byteStep 0, ptr'⟩
  refine ⟨⟨dir, (lib.mmapCommit (dev.appl s.handle % frames) len handle).2⟩, ?_,
    ⟨h.holds.extend hfit hall, ?_⟩, ?_⟩
  · rw [hinit, hloop]
    rfl
  · rw [List.length_append, List.length_map, List.length_range, ← h.appl_eq]
    exact hcommit.1
  · exact hcommit.2

/-- A fragment of silence goes on the stream. -/
theorem Streaming.clearFragment (ring : dev.IsRing lib b)
    (h : Streaming dev b (fun _ => True) stream s)
    (hroom : dev.appl s.handle + len ≤ dev.hw s.handle + frames)
    (hfit : stream.length % frames + len ≤ frames) :
    ∃ t, s.clearFragment lib b len = some t ∧
      Streaming dev b (fun _ => True)
        (stream ++ List.replicate len fun _ => List.replicate width 0) t ∧
      dev.hw t.handle = dev.hw s.handle := by
  obtain ⟨t, ht, hstream, hhw⟩ := h.extend ring hroom hfit (List.nodup_finRange n)
    (fun c => iff_true_intro (List.mem_finRange c)) (fun d j => d.clearChan width j len)
    (fun _ _ => List.replicate width 0) (fun d c _ hat hin => hat.clearChan hin)
  refine ⟨t, ht, ?_, hhw⟩
  simpa [List.map_const'] using hstream

/-- After `pcm_start` the whole memory is silent, and all of it is committed. -/
theorem pcmStart_streaming {fsize nfrag : Nat} (ring : dev.IsRing lib b)
    (hframes : frames = fsize * nfrag) (hmem : s.dir.mem.length = b.size)
    (h : s.pcmStart lib b fsize nfrag = some (0, t)) :
    Streaming dev b (fun _ => True) (List.replicate frames fun _ => List.replicate width 0) t ∧
      dev.hw t.handle = 0 := by
  rw [Playback.pcmStart] at h
  dsimp only at h
  split at h
  · simp at h
  rename_i hprepare
  split at h
  · simp at h
  obtain ⟨happl, hhw⟩ := ring.prepare s.handle (not_lt.mp hprepare)
  obtain ⟨happl, hhw⟩ := ring.availUpdate _ happl hhw
  generalize (lib.availUpdate (lib.prepare s.handle).2).2 = handle at h happl hhw
  have hloop : ∀ k, k ≤ nfrag → ∃ t, (List.range k).foldlM
      (fun s _ => s.clearFragment lib b fsize) { s with handle := handle } = some t ∧
      Streaming dev b (fun _ => True)
        (List.replicate (k * fsize) fun _ => List.replicate width 0) t ∧
      dev.hw t.handle = 0 := by
    intro k hk
    induction k with
    | zero =>
      refine ⟨_, rfl, ⟨⟨hmem, ?_, fun c hc => absurd trivial hc⟩, ?_⟩, hhw⟩
      · intro t frame ht
        simp at ht
      · rw [Nat.zero_mul]
        exact happl
    | succ k ih =>
      obtain ⟨t, ht, hstream, hzero⟩ := ih (by omega)
      have hend : k * fsize + fsize ≤ frames := by
        rw [← Nat.succ_mul, hframes, Nat.mul_comm fsize]
        exact Nat.mul_le_mul_right _ hk
      have hroom : dev.appl t.handle + fsize ≤ dev.hw t.handle + frames := by
        rw [hstream.appl_eq, List.length_replicate, hzero, Nat.zero_add]
        exact hend
      obtain ⟨t', ht', hstream', hhw'⟩ := hstream.clearFragment ring hroom (by
        rw [List.length_replicate]
        exact (Nat.add_le_add_right (Nat.mod_le _ _) _).trans hend)
      refine ⟨t', ?_, ?_, hhw'.trans hzero⟩
      · rw [List.range_succ, List.foldlM_append, ht, some_bind, List.foldlM_cons, ht']
        rfl
      · rwa [List.replicate_append_replicate, ← Nat.succ_mul] at hstream'
  obtain ⟨u, hu, hstream, hzero⟩ := hloop nfrag le_rfl
  rw [hu, some_bind] at h
  obtain ⟨herr, rfl⟩ := Prod.mk.inj (Option.some.inj h)
  have hstart : 0 ≤ (lib.start u.handle).1 := by
    by_contra hneg
    rw [if_pos (not_le.mp hneg)] at herr
    cases herr
  obtain ⟨happl', hhw'⟩ := ring.start u.handle hstart
  rw [Nat.mul_comm, ← hframes] at hstream
  exact ⟨⟨hstream.holds, happl'.trans hstream.appl_eq⟩, hhw'.trans hzero⟩

variable {f : PcmFormat} {bf : PcmAreas n frames f.width} {nboutputs nframes : Nat}
  {outbuf : Fin n → List CFloat} {ls : List (PlayEvent n)}

/-- A period goes on the stream. -/
theorem Streaming.playPeriod (ring : dev.IsRing lib bf)
    (h : Streaming dev bf (·.val < nboutputs) stream s)
    (hroom : dev.appl s.handle + nframes ≤ dev.hw s.handle + frames)
    (hfit : stream.length % frames + nframes ≤ frames)
    (hout : Sounding f nboutputs nframes outbuf) :
    ∃ t, s.playPeriod lib f bf nboutputs outbuf nframes = some t ∧
      Streaming dev bf (·.val < nboutputs)
        (stream ++ periodFrames f nboutputs nframes outbuf) t ∧
      dev.hw t.handle = dev.hw s.handle := by
  let bs : Fin n → Nat → List UInt8 := fun c j => (((outbuf c)[j]?).bind f.play).getD []
  have hbs : ∀ c : Fin n, c.val < nboutputs → ∀ j, j < nframes →
      ∃ s, (outbuf c)[j * 1]? = some s ∧ f.play s = some (bs c j) ∧
        (bs c j).length = f.width := by
    intro c hc j hj
    obtain ⟨s, hs, hplayable⟩ := hout c hc j hj
    obtain ⟨bytes, hplay, hlen, -⟩ := PcmFormat.exists_play hplayable
    have hbytes : bs c j = bytes := by
      simp only [bs, hs, Option.bind_some, hplay, Option.getD_some]
    exact ⟨s, by rwa [Nat.mul_one], by rw [hbytes, hplay], by rw [hbytes, hlen]⟩
  exact h.extend ring hroom hfit
    ((List.nodup_finRange n).filter fun c => decide (c.val < nboutputs)) (fun c => by simp)
    (fun d channel => d.playChan f channel (outbuf channel) nframes 1) bs
    (fun d c hc hat hin => hat.playChan hin (hbs c hc))

/-- The invariant: the stream is the silence and the periods, and a part of it is played. -/
structure Playing (dev : PcmDevice n σ) (b : PcmAreas n frames f.width) (nboutputs nframes : Nat)
    (ls : List (PlayEvent n)) (s : Playback n σ) : Prop where
  streaming : Streaming dev b (·.val < nboutputs)
    (List.replicate frames (fun _ => List.replicate f.width 0) ++
      committedFrames f nboutputs nframes ls) s
  dvd_appl : nframes ∣ dev.appl s.handle
  hw_le : dev.hw s.handle ≤ dev.appl s.handle
  appl_le : dev.appl s.handle ≤ dev.hw s.handle + frames
  played_eq : playedFrames ls = (List.replicate frames (fun _ => List.replicate f.width 0) ++
    committedFrames f nboutputs nframes ls).take (dev.hw s.handle)

/-- After `pcm_start` the silence waits to be played. -/
theorem playing_start {nfrag : Nat} (ring : dev.IsRing lib bf) (hframes : frames = nframes * nfrag)
    (hmem : s.dir.mem.length = bf.size) (h : s.pcmStart lib bf nframes nfrag = some (0, t)) :
    Playing dev bf nboutputs nframes [] t := by
  obtain ⟨hstream, hzero⟩ := pcmStart_streaming ring hframes hmem h
  have happl : dev.appl t.handle = frames := by rw [hstream.appl_eq, List.length_replicate]
  have hnone : List.replicate frames (fun _ => List.replicate f.width 0) ++
      committedFrames f nboutputs nframes [] =
        (List.replicate frames fun _ : Fin n => List.replicate f.width (0 : UInt8)) := by
    rw [committedFrames, List.flatMap_nil, List.append_nil]
  refine ⟨⟨?_, ?_⟩, ?_, ?_, ?_, ?_⟩
  · rw [hnone]
    refine ⟨hstream.holds.length_mem, hstream.holds.cell_eq, fun c _ k => ?_⟩
    have hk := hstream.holds.cell_eq k (fun _ => List.replicate f.width 0)
      (by rw [List.getElem?_replicate, if_pos k.isLt]) (by rw [List.length_replicate]; omega) c
    rwa [Fin.ofNat_eq_cast, Fin.cast_val_eq_self] at hk
  · rw [hnone]
    exact hstream.appl_eq
  · rw [happl, hframes]
    exact Nat.dvd_mul_right _ _
  · rw [hzero]
    exact Nat.zero_le _
  · rw [happl]
    exact Nat.le_add_left _ _
  · rw [hzero, List.take_zero]
    rfl

/-- What the ring has room for does not pass its end: periods and ring are whole fragments. -/
theorem mod_add_le {appl nfrag : Nat} (hframes : frames = nframes * nfrag) (hdvd : nframes ∣ appl) :
    appl % frames + nframes ≤ frames := by
  obtain ⟨k, rfl⟩ := hdvd
  have hfrag : 0 < nfrag := by
    rcases Nat.eq_zero_or_pos nfrag with rfl | hpos
    · exact absurd (hframes.trans (Nat.mul_zero _)) (NeZero.ne frames)
    · exact hpos
  rw [hframes, Nat.mul_mod_mul_left, ← Nat.mul_succ]
  exact Nat.mul_le_mul_left _ (Nat.mod_lt _ hfrag)

/-- Where there is room, the next period is written. -/
theorem Playing.period {nfrag : Nat} (ring : dev.IsRing lib bf)
    (hframes : frames = nframes * nfrag) (h : Playing dev bf nboutputs nframes ls s)
    (hroom : dev.appl s.handle + nframes ≤ dev.hw s.handle + frames)
    (hout : Sounding f nboutputs nframes outbuf) :
    ∃ t, s.playPeriod lib f bf nboutputs outbuf nframes = some t ∧
      Playing dev bf nboutputs nframes (ls ++ [.period outbuf]) t := by
  have hfit := mod_add_le hframes h.dvd_appl
  rw [h.streaming.appl_eq] at hfit
  obtain ⟨t, ht, hstream, hhw⟩ := h.streaming.playPeriod ring hroom hfit hout
  have hlength : (periodFrames f nboutputs nframes outbuf).length = nframes := by
    rw [periodFrames, List.length_map, List.length_range]
  have happl : dev.appl t.handle = dev.appl s.handle + nframes := by
    rw [hstream.appl_eq, h.streaming.appl_eq]
    exact List.length_append.trans (congrArg _ hlength)
  have hcommitted : committedFrames f nboutputs nframes (ls ++ [.period outbuf]) =
      committedFrames f nboutputs nframes ls ++ periodFrames f nboutputs nframes outbuf := by
    rw [committedFrames, List.flatMap_append, List.flatMap_singleton]
    rfl
  have hplayed : playedFrames (ls ++ [.period outbuf]) = playedFrames ls := by
    rw [playedFrames, List.flatMap_append, List.flatMap_singleton, List.append_nil]
    rfl
  refine ⟨t, ht, ?_, ?_, ?_, ?_, ?_⟩
  · rw [hcommitted, ← List.append_assoc]
    exact hstream
  · rw [happl]
    exact h.dvd_appl.add (Nat.dvd_refl _)
  · rw [happl, hhw]
    exact h.hw_le.trans (Nat.le_add_right _ _)
  · rw [happl, hhw]
    exact hroom
  · rw [hplayed, h.played_eq, hcommitted, ← List.append_assoc, hhw]
    exact (List.take_append_of_le_length (h.hw_le.trans_eq h.streaming.appl_eq)).symm

omit [NeZero n] in
/-- The device plays on in the stream. -/
theorem Playing.played {played : List (Frame n)} {handle : σ} (ring : dev.IsRing lib bf)
    (h : Playing dev bf nboutputs nframes ls s)
    (hplays : dev.plays s.handle s.dir.mem played handle) :
    Playing dev bf nboutputs nframes (ls ++ [.played played]) { s with handle := handle } := by
  obtain ⟨happl, hhw, hle, hframe⟩ := ring.plays _ _ _ _ hplays
  have hcommitted : committedFrames f nboutputs nframes (ls ++ [.played played]) =
      committedFrames f nboutputs nframes ls := by
    rw [committedFrames, List.flatMap_append, List.flatMap_singleton, List.append_nil]
    rfl
  have hplayed : playedFrames (ls ++ [.played played]) = playedFrames ls ++ played := by
    rw [playedFrames, List.flatMap_append, List.flatMap_singleton]
    rfl
  have hwle := h.hw_le
  have happle := h.appl_le
  have hlength := h.streaming.appl_eq
  refine ⟨⟨?_, ?_⟩, ?_, hle, ?_, ?_⟩
  · rw [hcommitted]
    exact h.streaming.holds
  · rw [hcommitted]
    exact happl.trans hlength
  · exact happl.symm ▸ h.dvd_appl
  · rw [happl, hhw]
    omega
  · rw [hplayed, hcommitted, h.played_eq, hhw, List.take_add]
    congr 1
    refine ext_of_lt (k := played.length) rfl (by rw [List.length_take, List.length_drop]; omega)
      fun j hj => ?_
    have hlt : dev.hw s.handle + j < (List.replicate frames (fun _ => List.replicate f.width 0) ++
        committedFrames f nboutputs nframes ls).length := by
      rw [← hlength]
      omega
    rw [List.getElem?_take_of_lt hj, List.getElem?_drop, List.getElem?_eq_getElem hlt,
      List.getElem?_eq_getElem hj]
    congr 1
    funext c
    rw [hframe j _ (List.getElem?_eq_getElem hj) c]
    exact h.streaming.holds.cell_eq _ _ (List.getElem?_eq_getElem hlt)
      (by rw [← hlength]; omega) c

theorem Playing.step {nfrag : Nat} {e : PlayEvent n} (ring : dev.IsRing lib bf)
    (hframes : frames = nframes * nfrag) (h : Playing dev bf nboutputs nframes ls s)
    (hs : PlayStep lib dev f bf nboutputs nframes s e t) :
    Playing dev bf nboutputs nframes (ls ++ [e]) t := by
  cases hs with
  | period hroom hout ht =>
    obtain ⟨t', ht', hplaying⟩ := h.period ring hframes hroom hout
    obtain rfl := Option.some.inj (ht.symm.trans ht')
    exact hplaying
  | played hplays => exact h.played ring hplays

/-- Whatever the order of periods and playing: what the device has played is the silence of
`pcm_start` and then every period, each frame once and in order, and the channels that are not used
stay silent. Whenever there is room, the next period can be written inside the memory. -/
theorem played_run {nfrag : Nat} {p : Playback n σ} (ring : dev.IsRing lib bf)
    (hframes : frames = nframes * nfrag) (hmem : p.dir.mem.length = bf.size)
    (hstart : p.pcmStart lib bf nframes nfrag = some (0, s))
    (hrun : Run (PlayStep lib dev f bf nboutputs nframes) s ls t) :
    playedFrames ls <+: List.replicate frames (fun _ => List.replicate f.width 0) ++
        committedFrames f nboutputs nframes ls ∧
      (playedFrames ls).length = dev.hw t.handle ∧
      dev.appl t.handle = frames + (committedFrames f nboutputs nframes ls).length ∧
      ∀ outbuf, Sounding f nboutputs nframes outbuf →
        dev.appl t.handle + nframes ≤ dev.hw t.handle + frames →
        ∃ u, PlayStep lib dev f bf nboutputs nframes t (.period outbuf) u := by
  have hplaying : Playing dev bf nboutputs nframes ls t := by
    induction hrun with
    | refl => exact playing_start ring hframes hmem hstart
    | snoc _ hstep ih => exact ih.step ring hframes hstep
  have hlength := hplaying.streaming.appl_eq
  refine ⟨?_, ?_, ?_, fun outbuf hout hroom => ?_⟩
  · rw [hplaying.played_eq]
    exact List.take_prefix _ _
  · rw [hplaying.played_eq, List.length_take, ← hlength]
    exact min_eq_left hplaying.hw_le
  · rw [hlength, List.length_append, List.length_replicate]
  · obtain ⟨u, hu, -⟩ := hplaying.period ring hframes hroom hout
    exact ⟨u, .period hroom hout hu⟩

theorem played_run_mono :
    let areas := PcmAreas.interleaved 2 4 PcmFormat.s16LE.width
    let p : Playback 2 (Nat × Nat) := ⟨⟨List.replicate 16 7, 0, 0, fun _ => 0⟩, (0, 0)⟩
    let outbuf : Fin 2 → List CFloat := fun _ => [0x3F000000, 0xBF800000]
    ∃ s t before after,
      p.pcmStart (ringHandle 4) areas 2 2 = some (0, s) ∧
      Run (PlayStep (ringHandle 4) (ringDevice areas) .s16LE areas 1 2) s
        [.played before, .period outbuf, .played after] t ∧
      before ++ after =
        List.replicate 4 (fun _ => List.replicate 2 0) ++ periodFrames .s16LE 1 2 outbuf := by
  intro areas p outbuf
  have hring : (ringDevice areas).IsRing (ringHandle 4) areas := ringDevice_isRing areas
  have hmem : p.dir.mem.length = areas.size := rfl
  have hout : Sounding .s16LE 1 2 outbuf := by
    intro c _ j hj
    obtain rfl | rfl : j = 0 ∨ j = 1 := by omega
    · exact ⟨0x3F000000, rfl, fun _ => by decide⟩
    · exact ⟨0xBF800000, rfl, fun _ => by decide⟩
  have hanswers : (p.pcmStart (ringHandle 4) areas 2 2).map
      (fun r => (r.1, r.2.handle)) = some (0, (4, 0)) := by decide
  obtain ⟨⟨z, ⟨dir, handle⟩⟩, hs, hz⟩ := Option.map_eq_some_iff.mp hanswers
  obtain ⟨rfl, rfl⟩ : z = 0 ∧ handle = (4, 0) := Prod.mk.inj hz
  -- two frames of the silence are played, which makes room for a period
  obtain ⟨before, hbefore⟩ := exists_ringDevice_plays areas dir.mem (by decide : 0 + 2 ≤ 4)
  have hfirst : Run (PlayStep (ringHandle 4) (ringDevice areas) .s16LE areas 1 2) ⟨dir, (4, 0)⟩
      [.played before] ⟨dir, (4, 0 + 2)⟩ := Run.single (.played hbefore)
  obtain ⟨-, htwo, -, hnext⟩ := played_run hring rfl hmem hs hfirst
  obtain ⟨⟨dir', appl, hw⟩, hperiod⟩ := hnext outbuf hout (Nat.le_refl 6)
  -- all that was committed is played
  obtain ⟨-, hhw, happl, -⟩ := played_run hring rfl hmem hs (hfirst.snoc hperiod)
  simp only [playedFrames, committedFrames, periodFrames, ringDevice, List.flatMap_append,
    List.flatMap_singleton, List.append_nil, List.nil_append, List.length_map,
    List.length_range] at htwo hhw happl
  obtain rfl : hw = 2 := hhw.symm.trans htwo
  obtain rfl : appl = 6 := happl
  obtain ⟨after, hafter⟩ := exists_ringDevice_plays areas dir'.mem (by decide : 2 + 4 ≤ 6)
  have hrun := (hfirst.snoc hperiod).snoc (.played hafter)
  obtain ⟨hplayed, hlength, -, -⟩ := played_run hring rfl hmem hs hrun
  simp only [playedFrames, committedFrames, List.flatMap_append, List.flatMap_singleton,
    List.append_nil, List.nil_append] at hplayed hlength
  exact ⟨_, _, before, after, hs, hrun, hplayed.eq_of_length hlength⟩

end Run

end Vban.Pcmi
