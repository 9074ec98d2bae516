import Vban.Pcmi.Channels

/-! `Alsa_pcmi`: the pointers into the mapped memory, and what a channel returns. -/
namespace Vban.Pcmi

open Library

/-- One direction of the object, with the memory of its device. -/
structure Direction (n : Nat) where
  mem : List UInt8
  /-- `_play_offs` or `_capt_offs`. -/
  offs : Nat
  /-- `_play_step` or `_capt_step`. -/
  step : Nat
  /-- `_play_ptr` or `_capt_ptr`. -/
  ptr : Fin n → Nat

namespace Direction

variable {n frames width : Nat} [NeZero n] {b : PcmAreas n frames width}
  {f : PcmFormat} {c : Fin n} {d d' : Direction n}

/-- `play_init` and `capt_init`, from the answer of `snd_pcm_mmap_begin` on: the offset and the
frames it grants, or `none` where it fails. The distance is that of the first channel. -/
def init (b : PcmAreas n frames width) (answer : Option (Nat × Nat)) (d : Direction n) :
    Nat × Direction n :=
  match answer with
  | none => (0, d)
  | some (offs, len) =>
    (len, { d with
      offs := offs
      step := b.byteStep 0
      ptr := fun c => b.pointer c offs })

def clearChan (width : Nat) (chan : Fin n) (len : Nat) (d : Direction n) :
    Option (Direction n) := do
  let (dst, mem) ← clearLoop width d.step len (d.ptr chan) d.mem
  return { d with mem := mem, ptr := Function.update d.ptr chan dst }

def playChan (f : PcmFormat) (chan : Fin n) (src : List CFloat) (len step : Nat)
    (d : Direction n) : Option (Direction n) := do
  let (dst, mem) ← playLoop f.play d.step step src len 0 (d.ptr chan) d.mem
  return { d with mem := mem, ptr := Function.update d.ptr chan dst }

/-- Returns the floats too. -/
def captChan (f : PcmFormat) (chan : Fin n) (dst : List CFloat) (len step : Nat)
    (d : Direction n) : Option (List CFloat × Direction n) := do
  let (src, dst) ← captLoop f.capt f.width d.step step d.mem len 0 (d.ptr chan) dst
  return (dst, { d with ptr := Function.update d.ptr chan src })

/-- The pointer of the channel is where its sample at `offs` lies. -/
structure At (b : PcmAreas n frames width) (c : Fin n) (d : Direction n) : Prop where
  length_mem : d.mem.length = b.size
  step_eq : d.step = b.byteStep c
  ptr_eq : d.ptr c = b.pointer c d.offs

theorem byteStep_eq (b : PcmAreas n frames width) (c : Fin n) : b.byteStep 0 = b.byteStep c := by
  rw [PcmAreas.byteStep, PcmAreas.byteStep, b.step_eq 0 c]

theorem at_init {offs len : Nat} (hmem : d.mem.length = b.size) (c : Fin n) :
    (d.init b (some (offs, len))).2.At b c :=
  ⟨hmem, byteStep_eq b c, rfl⟩

variable {bf : PcmAreas n frames f.width} {src dst : List CFloat} {len step : Nat}

omit [NeZero n] in
/-- A channel is played into its own cells. -/
theorem At.playChan (h : d.At bf c) (hroom : d.offs + len ≤ frames) {bs : Nat → List UInt8}
    (hbs : ∀ j, j < len → ∃ s, src[j * step]? = some s ∧ f.play s = some (bs j) ∧
      (bs j).length = f.width) :
    ∃ mem', d.playChan f c src len step = some { d with
        mem := mem'
        ptr := Function.update d.ptr c (bf.pointer c (d.offs + len)) } ∧
      bf.grid.Rewritten (PcmAreas.stretch c d.offs len bs) d.mem mem' := by
  have hsamples : ∀ j, j < len → (bs j).length = f.width ∧
      ∃ s, src[0 + j * step]? = some s ∧ f.play s = some (bs j) := by
    intro j hj
    obtain ⟨s, hs, hplay, hlen⟩ := hbs j hj
    exact ⟨hlen, s, by rwa [Nat.zero_add], hplay⟩
  obtain ⟨mem', hloop, hmem'⟩ := PcmAreas.playLoop_spec (c := c) h.length_mem hroom hsamples
  refine ⟨mem', ?_, hmem'⟩
  rw [Direction.playChan, h.step_eq, h.ptr_eq, hloop]
  rfl

omit [NeZero n] in
theorem At.clearChan (h : d.At b c) (hroom : d.offs + len ≤ frames) :
    ∃ mem', d.clearChan width c len = some { d with
        mem := mem'
        ptr := Function.update d.ptr c (b.pointer c (d.offs + len)) } ∧
      b.grid.Rewritten (PcmAreas.stretch c d.offs len fun _ => List.replicate width 0)
        d.mem mem' := by
  obtain ⟨mem', hloop, hmem'⟩ := PcmAreas.clearLoop_spec (c := c) h.length_mem hroom
  refine ⟨mem', ?_, hmem'⟩
  rw [Direction.clearChan, h.step_eq, h.ptr_eq, hloop]
  rfl

omit [NeZero n] in
/-- A channel is captured from its own cells. -/
theorem At.captChan (h : d.At bf c) (hroom : d.offs + len ≤ frames) (hstep : 0 < step)
    (hdst : ∀ j, j < len → j * step < dst.length) :
    ∃ dst', d.captChan f c dst len step =
        some (dst', { d with ptr := Function.update d.ptr c (bf.pointer c (d.offs + len)) }) ∧
      dst'.length = dst.length ∧
      (∀ j, (hj : j < len) → dst'[j * step]? =
        some (f.capt (bf.grid.cell d.mem (c, ⟨d.offs + j, by omega⟩)))) ∧
      ∀ m, (∀ j, j < len → m ≠ j * step) → dst'[m]? = dst[m]? := by
  have hplaces : ∀ j, j < len → 0 + j * step < dst.length := by
    intro j hj
    rw [Nat.zero_add]
    exact hdst j hj
  obtain ⟨dst', hloop, hlength, hread, hkept⟩ :=
    PcmAreas.captLoop_spec f.capt (c := c) h.length_mem hroom hstep hplaces
  simp only [Nat.zero_add] at hread hkept
  refine ⟨dst', ?_, hlength, hread, hkept⟩
  rw [Direction.captChan, h.step_eq, h.ptr_eq, hloop]
  rfl

omit [NeZero n] in
/-- What is played is captured again: floats as they were, integers to the nearest steps. Nothing
outside the samples of the channel is touched. -/
theorem captChan_playChan (h : d.At bf c) (hroom : d.offs + len ≤ frames)
    (hsrc : ∀ j, j < len → ∃ s, src[j * step]? = some s ∧ f.Playable s) {captStep : Nat}
    (hstep : 0 < captStep) (hdst : ∀ j, j < len → j * captStep < dst.length) :
    ∃ d' r d'', d.playChan f c src len step = some d' ∧
      captChan f c dst len captStep { d' with ptr := d.ptr } = some (r, d'') ∧
      r.length = dst.length ∧
      (∀ j, j < len → ∃ s r', src[j * step]? = some s ∧ r[j * captStep]? = some r' ∧
        f.Returns s r') ∧
      (∀ m, (∀ j, j < len → m ≠ j * captStep) → r[m]? = dst[m]?) ∧
      ∀ i, (∀ k, bf.grid.Covers k i → ¬(k.1 = c ∧ d.offs ≤ k.2 ∧ k.2 < d.offs + len)) →
        d'.mem[i]? = d.mem[i]? := by
  have hbytes : ∀ j, j < len → ∃ bytes, ∃ s, src[j * step]? = some s ∧ f.play s = some bytes ∧
      bytes.length = f.width ∧ f.Returns s (f.capt bytes) := by
    intro j hj
    obtain ⟨s, hs, hplayable⟩ := hsrc j hj
    obtain ⟨bytes, hplay, hlen, hreturns⟩ := PcmFormat.exists_play hplayable
    exact ⟨bytes, s, hs, hplay, hlen, hreturns⟩
  choose! bs s hs hplay hlen hreturns using hbytes
  have hsamples : ∀ j, j < len → ∃ s, src[j * step]? = some s ∧ f.play s = some (bs j) ∧
      (bs j).length = f.width := fun j hj => ⟨s j, hs j hj, hplay j hj, hlen j hj⟩
  obtain ⟨mem', hplayed, hmem'⟩ := h.playChan hroom hsamples
  have hat : At bf c { d with mem := mem' } :=
    ⟨hmem'.length_eq.trans h.length_mem, h.step_eq, h.ptr_eq⟩
  obtain ⟨r, hcapt, hlength, hread, hkept⟩ := hat.captChan hroom hstep hdst
  refine ⟨_, r, _, hplayed, hcapt, hlength, fun j hj => ?_, hkept, fun i hi => ?_⟩
  · have hcell := hmem'.cell_eq (c, ⟨d.offs + j, by omega⟩)
    rw [PcmAreas.stretch, if_pos ⟨rfl, by simp, by simpa using hj⟩, Option.getD_some,
      Nat.add_sub_cancel_left] at hcell
    refine ⟨s j, _, hs j hj, hread j hj, ?_⟩
    rw [hcell]
    exact hreturns j hj
  · apply hmem'.outside
    intro k hk
    rw [PcmAreas.stretch, if_neg (hi k hk)]

theorem captChan_playChan_stereo :
    let d := (init (.interleaved 2 4 2) (some (1, 2)) ⟨List.replicate 16 0, 0, 0, fun _ => 0⟩).2
    ∃ d' r d'', playChan .s16LE 1 [0x3F000000, 0xBF800000] 2 1 d = some d' ∧
      captChan .s16LE 1 [0, 0] 2 1 { d' with ptr := d.ptr } = some (r, d'') ∧
      ∀ j, j < 2 → ∃ s r', [(0x3F000000 : CFloat), 0xBF800000][j * 1]? = some s ∧
        r[j * 1]? = some r' ∧ PcmFormat.s16LE.Returns s r' := by
  intro d
  have hat : d.At (.interleaved 2 4 PcmFormat.s16LE.width) 1 := at_init rfl 1
  have hsrc : ∀ j, j < 2 → ∃ s, [(0x3F000000 : CFloat), 0xBF800000][j * 1]? = some s ∧
      PcmFormat.s16LE.Playable s := by
    intro j hj
    obtain rfl | rfl : j = 0 ∨ j = 1 := by omega
    · exact ⟨0x3F000000, rfl, fun _ => by decide⟩
    · exact ⟨0xBF800000, rfl, fun _ => by decide⟩
  obtain ⟨d', r, d'', hplay, hcapt, -, hreturns, -, -⟩ :=
    captChan_playChan (f := .s16LE) hat (by decide) hsrc Nat.one_pos
      (by decide : ∀ j, j < 2 → j * 1 < [(0 : CFloat), 0].length)
  exact ⟨d', r, d'', hplay, hcapt, hreturns⟩

omit [NeZero n] in
/-- What is captured is played again as it was, but for the code below the full scale and for the
byte that 32 bits have below the code. -/
theorem playChan_captChan (h : d.At bf c) (hroom : d.offs + len ≤ frames) (hstep : 0 < step)
    (hdst : ∀ j, j < len → j * step < dst.length) :
    ∃ r d' d'', captChan f c dst len step d = some (r, d') ∧
      playChan f c r len step { d' with ptr := d.ptr } = some d'' ∧
      (∀ k, bf.grid.cell d''.mem k = if k.1 = c ∧ d.offs ≤ k.2 ∧ k.2 < d.offs + len then
        f.restored (bf.grid.cell d.mem k) else bf.grid.cell d.mem k) ∧
      ((∀ k, k.1 = c → d.offs ≤ k.2 → k.2 < d.offs + len → ∀ p, f.scaleBits = some p →
        f.code (bf.grid.cell d.mem k) ≠ -2 ^ p ∧
          (f.lowFirst (bf.grid.cell d.mem k)).take f.padding = List.replicate f.padding 0) →
        d''.mem = d.mem) := by
  obtain ⟨r, hcapt, hlength, hread, hkept⟩ := h.captChan hroom hstep hdst
  have hcells := fun k => Grid.length_cell (g := bf.grid) (k := k) h.length_mem
  let bs : Nat → List UInt8 := fun j =>
    if hj : d.offs + j < frames then f.restored (bf.grid.cell d.mem (c, ⟨d.offs + j, hj⟩)) else []
  have hsamples : ∀ j, j < len → ∃ s, r[j * step]? = some s ∧ f.play s = some (bs j) ∧
      (bs j).length = f.width := by
    intro j hj
    have hlt : d.offs + j < frames := by omega
    refine ⟨_, hread j hj, ?_, ?_⟩
    · rw [PcmFormat.play_capt (hcells _)]
      simp only [bs, dif_pos hlt]
    · simp only [bs, dif_pos hlt]
      exact PcmFormat.length_restored (hcells _)
  obtain ⟨mem', hplayed, hmem'⟩ := h.playChan hroom hsamples
  have hcell : ∀ k, bf.grid.cell mem' k = if k.1 = c ∧ d.offs ≤ k.2 ∧ k.2 < d.offs + len then
      f.restored (bf.grid.cell d.mem k) else bf.grid.cell d.mem k := by
    rintro ⟨e, j, hj⟩
    rw [hmem'.cell_eq, PcmAreas.stretch]
    split_ifs with hk
    · obtain ⟨rfl, hlow, hhigh⟩ := hk
      have hindex : d.offs + (j - d.offs) = j := by
        simp only at hlow
        omega
      simp only [Option.getD_some, bs, hindex, dif_pos hj]
    · rfl
  refine ⟨r, _, _, hcapt, hplayed, hcell, fun hscale => ?_⟩
  apply hmem'.eq
  intro k
  rw [hcell]
  split_ifs with hk
  · exact (PcmFormat.restored_eq_iff (hcells k)).mpr (hscale k hk.1 hk.2.1 hk.2.2)
  · rfl

theorem playChan_captChan_stereo :
    let d := (init (.interleaved 2 2 2) (some (0, 2))
      ⟨[1, 2, 3, 4, 5, 6, 7, 8], 0, 0, fun _ => 0⟩).2
    ∃ r d' d'', captChan .s16LE 1 [0, 0] 2 1 d = some (r, d') ∧
      playChan .s16LE 1 r 2 1 { d' with ptr := d.ptr } = some d'' ∧ d''.mem = d.mem := by
  intro d
  have hat : d.At (.interleaved 2 2 PcmFormat.s16LE.width) 1 := at_init rfl 1
  obtain ⟨r, d', d'', hcapt, hplay, -, hmem⟩ := playChan_captChan (f := .s16LE) hat
    (by decide) Nat.one_pos (by decide : ∀ j, j < 2 → j * 1 < [(0 : CFloat), 0].length)
  refine ⟨r, d', d'', hcapt, hplay, hmem ?_⟩
  rintro ⟨c, k⟩ - - - p hp
  obtain rfl := Option.some.inj hp
  revert c k
  decide

end Direction

end Vban.Pcmi
