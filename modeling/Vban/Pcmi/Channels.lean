import Mathlib.Logic.Equiv.Fin.Basic
import Vban.Library.Grid
import Vban.Pcmi.Levels

/-! `Alsa_pcmi`: the loops over the samples of one channel in the memory of the device. -/
namespace Vban.Pcmi

open Library

/-- `snd_pcm_channel_area_t`: an address in bytes, and the distance of the first sample from it
and of the samples from each other, in bits. -/
structure ChannelArea where
  addr : Nat
  first : Nat
  step : Nat

/-- What `snd_pcm_mmap_begin` describes: the samples of all channels lie apart, at whole bytes, and
at one distance in every channel. -/
structure PcmAreas (n frames width : Nat) where
  area : Fin n → ChannelArea
  size : Nat
  grid : Grid (Fin n × Fin frames) width size
  place_eq : ∀ c k, grid.place (c, k) =
    (area c).addr + ((area c).first + (area c).step * k) / 8
  first_dvd : ∀ c, 8 ∣ (area c).first
  step_dvd : ∀ c, 8 ∣ (area c).step
  step_eq : ∀ c d, (area c).step = (area d).step

/-- `none` is outside the memory. -/
def storeBytes (mem : List UInt8) (dst : Nat) (bytes : List UInt8) : Option (List UInt8) :=
  if dst + bytes.length ≤ mem.length then some (overwrite mem dst bytes) else none

def loadBytes (mem : List UInt8) (src w : Nat) : Option (List UInt8) :=
  if src + w ≤ mem.length then some ((mem.drop src).take w) else none

/-- The loop of the `play_*` functions over `nfrm` floats from `src[i]` on. Returns `dst` and the
memory. -/
def playLoop (sample : CFloat → Option (List UInt8)) (playStep step : Nat) (src : List CFloat) :
    (nfrm i dst : Nat) → List UInt8 → Option (Nat × List UInt8)
  | 0, _, dst, mem => some (dst, mem)
  | nfrm + 1, i, dst, mem => do
    let s ← src[i]?
    let mem ← storeBytes mem dst (← sample s)
    playLoop sample playStep step src nfrm (i + step) (dst + playStep) mem

/-- The loop of the `clear_*` functions. -/
def clearLoop (width playStep : Nat) : (nfrm dst : Nat) → List UInt8 → Option (Nat × List UInt8)
  | 0, dst, mem => some (dst, mem)
  | nfrm + 1, dst, mem => do
    let mem ← storeBytes mem dst (List.replicate width 0)
    clearLoop width playStep nfrm (dst + playStep) mem

/-- The loop of the `capt_*` functions into `dst[i]` and on. Returns `src` and the floats. -/
def captLoop (sample : List UInt8 → CFloat) (width captStep step : Nat) (mem : List UInt8) :
    (nfrm i src : Nat) → List CFloat → Option (Nat × List CFloat)
  | 0, _, src, dst => some (src, dst)
  | nfrm + 1, i, src, dst => do
    let bytes ← loadBytes mem src width
    let dst ← if i < dst.length then some (dst.set i (sample bytes)) else none
    captLoop sample width captStep step mem nfrm (i + step) (src + captStep) dst

namespace PcmAreas

variable {n frames width : Nat} {b : PcmAreas n frames width} {c : Fin n} {offs nfrm i step : Nat}
  {mem : List UInt8} {src dst : List CFloat} {bs : Nat → List UInt8}

/-- `SND_PCM_ACCESS_MMAP_INTERLEAVED`: frame after frame. -/
def interleaved (n frames width : Nat) : PcmAreas n frames width where
  area c := ⟨0, 8 * (width * c), 8 * (width * n)⟩
  size := width * (frames * n)
  grid := .ofIndex (fun k => (finProdFinEquiv (k.2, k.1)).val) (frames * n)
    (fun _ _ h => Prod.swap_injective (finProdFinEquiv.injective (Fin.ext h))) fun _ => Fin.isLt _
  place_eq c k := by
    rw [Nat.mul_assoc, ← Nat.mul_add, Nat.mul_div_cancel_left _ (by norm_num), Nat.zero_add,
      Nat.mul_assoc, ← Nat.mul_add]
    rfl
  first_dvd _ := Nat.dvd_mul_right _ _
  step_dvd _ := Nat.dvd_mul_right _ _
  step_eq _ _ := rfl

/-- `SND_PCM_ACCESS_MMAP_NONINTERLEAVED`: channel after channel. -/
def noninterleaved (n frames width : Nat) : PcmAreas n frames width where
  area c := ⟨0, 8 * (width * (frames * c)), 8 * width⟩
  size := width * (n * frames)
  grid := .ofIndex (fun k => (finProdFinEquiv k).val) (n * frames)
    (fun _ _ h => finProdFinEquiv.injective (Fin.ext h)) fun _ => Fin.isLt _
  place_eq c k := by
    rw [Nat.mul_assoc, ← Nat.mul_add, Nat.mul_div_cancel_left _ (by norm_num), Nat.zero_add,
      ← Nat.mul_add, Nat.add_comm]
    rfl
  first_dvd _ := Nat.dvd_mul_right _ _
  step_dvd _ := Nat.dvd_mul_right _ _
  step_eq _ _ := rfl

/-- Where the sample of a channel at an offset lies: `_play_ptr` and `_capt_ptr`. -/
def pointer (b : PcmAreas n frames width) (c : Fin n) (offs : Nat) : Nat :=
  (b.area c).addr + ((b.area c).first + (b.area c).step * offs) / 8

/-- The distance in bytes, as the channel has it. -/
def byteStep (b : PcmAreas n frames width) (c : Fin n) : Nat := (b.area c).step / 8

theorem pointer_add (b : PcmAreas n frames width) (c : Fin n) (offs : Nat) :
    b.pointer c (offs + 1) = b.pointer c offs + b.byteStep c := by
  obtain ⟨first, hfirst⟩ := b.first_dvd c
  obtain ⟨step, hstep⟩ := b.step_dvd c
  rw [pointer, pointer, byteStep, hfirst, hstep, Nat.mul_assoc, Nat.mul_assoc, ← Nat.mul_add,
    ← Nat.mul_add, Nat.mul_div_cancel_left _ (by norm_num), Nat.mul_div_cancel_left _ (by norm_num),
    Nat.mul_div_cancel_left _ (by norm_num), Nat.mul_succ]
  omega

/-- The samples of one channel from an offset on. -/
def stretch (c : Fin n) (offs nfrm : Nat) (bs : Nat → List UInt8) (k : Fin n × Fin frames) :
    Option (List UInt8) :=
  if k.1 = c ∧ offs ≤ k.2 ∧ k.2 < offs + nfrm then some (bs (k.2 - offs)) else none

theorem stretch_succ (c : Fin n) (hoffs : offs < frames) (nfrm : Nat) (bs : Nat → List UInt8)
    (k : Fin n × Fin frames) :
    (stretch c (offs + 1) nfrm (fun i => bs (i + 1)) k).or
        (if k = (c, ⟨offs, hoffs⟩) then some (bs 0) else none) =
      stretch c offs (nfrm + 1) bs k := by
  obtain ⟨d, j, hj⟩ := k
  simp only [stretch, Prod.mk.injEq, Fin.mk.injEq]
  by_cases hd : d = c
  · rcases Nat.lt_trichotomy j offs with hlt | rfl | hgt
    · rw [if_neg (by omega), if_neg (by omega), if_neg (by omega)]
      rfl
    · rw [if_neg (by omega), if_pos ⟨hd, rfl⟩, if_pos (by omega), Nat.sub_self]
      rfl
    · by_cases hend : j < offs + 1 + nfrm
      · have hindex : j - (offs + 1) + 1 = j - offs := by omega
        rw [if_pos (by omega), Option.some_or, if_pos (by omega), hindex]
      · rw [if_neg (by omega), if_neg (by omega), if_neg (by omega)]
        rfl
  · rw [if_neg (by tauto), if_neg (by tauto), if_neg (by tauto)]
    rfl

/-- One sample is stored in its cell. -/
theorem storeBytes_spec {bytes : List UInt8} (hmem : mem.length = b.size)
    (hoffs : offs < frames) (hbytes : bytes.length = width) :
    ∃ mem', storeBytes mem (b.pointer c offs) bytes = some mem' ∧
      b.grid.Rewritten (fun k => if k = (c, ⟨offs, hoffs⟩) then some bytes else none) mem mem' := by
  have hplace : b.grid.place (c, ⟨offs, hoffs⟩) = b.pointer c offs := b.place_eq c ⟨offs, hoffs⟩
  have hinside := b.grid.inside (c, ⟨offs, hoffs⟩)
  rw [hplace] at hinside
  refine ⟨overwrite mem (b.pointer c offs) bytes, ?_, ?_⟩
  · rw [storeBytes, if_pos (by omega)]
  · rw [← hplace]
    exact Grid.rewritten_overwrite hmem hbytes

/-- The loop stores the samples of its channel, and nothing else. -/
theorem playLoop_spec {sample : CFloat → Option (List UInt8)} (hmem : mem.length = b.size)
    (hroom : offs + nfrm ≤ frames) (hbs : ∀ j, j < nfrm → (bs j).length = width ∧
      ∃ s, src[i + j * step]? = some s ∧ sample s = some (bs j)) :
    ∃ mem', playLoop sample (b.byteStep c) step src nfrm i (b.pointer c offs) mem =
        some (b.pointer c (offs + nfrm), mem') ∧
      b.grid.Rewritten (stretch c offs nfrm bs) mem mem' := by
  induction nfrm generalizing i offs mem bs with
  | zero =>
    refine ⟨mem, rfl, (Grid.Rewritten.refl b.grid mem).congr fun k => ?_⟩
    rw [stretch, if_neg (by omega)]
  | succ nfrm ih =>
    obtain ⟨hlen, s, hs, hbytes⟩ := hbs 0 (Nat.succ_pos _)
    rw [Nat.zero_mul, Nat.add_zero] at hs
    obtain ⟨stored, hstore, hfirst⟩ := storeBytes_spec (c := c) hmem (by omega : offs < frames) hlen
    have hnext : ∀ j, j < nfrm → (bs (j + 1)).length = width ∧
        ∃ s, src[i + step + j * step]? = some s ∧ sample s = some (bs (j + 1)) := by
      intro j hj
      have h := hbs (j + 1) (by omega)
      rwa [Nat.succ_mul, Nat.add_comm (j * step), ← Nat.add_assoc] at h
    have hroom' : offs + 1 + nfrm ≤ frames := by omega
    obtain ⟨mem', hloop, hrest⟩ := ih (hfirst.length_eq.trans hmem) hroom' hnext
    refine ⟨mem', ?_, (hfirst.trans hrest).congr (stretch_succ c (by omega) nfrm bs)⟩
    rw [playLoop, hs, some_bind, hbytes, some_bind, hstore, some_bind, ← pointer_add, hloop,
      Nat.add_assoc, Nat.add_comm 1]

theorem clearLoop_spec (hmem : mem.length = b.size) (hroom : offs + nfrm ≤ frames) :
    ∃ mem', clearLoop width (b.byteStep c) nfrm (b.pointer c offs) mem =
        some (b.pointer c (offs + nfrm), mem') ∧
      b.grid.Rewritten (stretch c offs nfrm fun _ => List.replicate width 0) mem mem' := by
  induction nfrm generalizing offs mem with
  | zero =>
    refine ⟨mem, rfl, (Grid.Rewritten.refl b.grid mem).congr fun k => ?_⟩
    rw [stretch, if_neg (by omega)]
  | succ nfrm ih =>
    obtain ⟨stored, hstore, hfirst⟩ := storeBytes_spec (c := c) hmem (by omega : offs < frames)
      (List.length_replicate : (List.replicate width (0 : UInt8)).length = width)
    have hroom' : offs + 1 + nfrm ≤ frames := by omega
    obtain ⟨mem', hloop, hrest⟩ := ih (hfirst.length_eq.trans hmem) hroom'
    refine ⟨mem', ?_, (hfirst.trans hrest).congr
      (stretch_succ c (by omega) nfrm fun _ => List.replicate width 0)⟩
    rw [clearLoop, hstore, some_bind, ← pointer_add, hloop, Nat.add_assoc, Nat.add_comm 1]

theorem loadBytes_eq (hmem : mem.length = b.size) (hoffs : offs < frames) :
    loadBytes mem (b.pointer c offs) width = some (b.grid.cell mem (c, ⟨offs, hoffs⟩)) := by
  have hplace : b.grid.place (c, ⟨offs, hoffs⟩) = b.pointer c offs := b.place_eq c ⟨offs, hoffs⟩
  have hinside := b.grid.inside (c, ⟨offs, hoffs⟩)
  rw [hplace] at hinside
  rw [loadBytes, if_pos (by omega), Grid.cell, hplace]

/-- The loop reads the samples of its channel, and changes no other float. -/
theorem captLoop_spec (sample : List UInt8 → CFloat) (hmem : mem.length = b.size)
    (hroom : offs + nfrm ≤ frames) (hstep : 0 < step)
    (hdst : ∀ j, j < nfrm → i + j * step < dst.length) :
    ∃ dst', captLoop sample width (b.byteStep c) step mem nfrm i (b.pointer c offs) dst =
        some (b.pointer c (offs + nfrm), dst') ∧ dst'.length = dst.length ∧
      (∀ j, (hj : j < nfrm) →
        dst'[i + j * step]? = some (sample (b.grid.cell mem (c, ⟨offs + j, by omega⟩)))) ∧
      ∀ m, (∀ j, j < nfrm → m ≠ i + j * step) → dst'[m]? = dst[m]? := by
  induction nfrm generalizing i offs dst with
  | zero => exact ⟨dst, rfl, rfl, fun j hj => absurd hj (Nat.not_lt_zero j), fun _ _ => rfl⟩
  | succ nfrm ih =>
    have hi : i < dst.length := by
      have h := hdst 0 (Nat.succ_pos _)
      rwa [Nat.zero_mul, Nat.add_zero] at h
    have hnext : ∀ j, i + step + j * step = i + (j + 1) * step := by
      intro j
      rw [Nat.succ_mul]
      omega
    let first := sample (b.grid.cell mem (c, ⟨offs, by omega⟩))
    have hroom' : offs + 1 + nfrm ≤ frames := by omega
    have hdst' : ∀ j, j < nfrm → i + step + j * step < (dst.set i first).length := by
      intro j hj
      rw [List.length_set, hnext]
      exact hdst (j + 1) (by omega)
    obtain ⟨dst', hloop, hlength, hread, hkept⟩ := ih hroom' hdst'
    refine ⟨dst', ?_, hlength.trans List.length_set, ?_, ?_⟩
    · rw [captLoop, loadBytes_eq hmem (by omega), some_bind, if_pos hi, some_bind, ← pointer_add]
      refine hloop.trans ?_
      rw [Nat.add_assoc, Nat.add_comm 1]
    · intro j hj
      cases j with
      | zero =>
        rw [Nat.zero_mul, Nat.add_zero, hkept i, List.getElem?_set_self hi]
        · rfl
        · intro j _
          rw [hnext, Nat.succ_mul]
          omega
      | succ j =>
        rw [← hnext, hread j (by omega)]
        simp only [Nat.add_assoc, Nat.add_comm 1 j]
    · intro m hm
      have hne : m ≠ i := by
        have h := hm 0 (Nat.succ_pos _)
        rwa [Nat.zero_mul, Nat.add_zero] at h
      rw [hkept m, List.getElem?_set_ne hne.symm]
      intro j hj
      rw [hnext]
      exact hm (j + 1) (by omega)

end PcmAreas

end Vban.Pcmi
