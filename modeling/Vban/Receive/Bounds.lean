import Mathlib.Algebra.Order.Ring.Nat
import Vban.Receive.NetThread
import Vban.Receive.Spec

/-! When the receive paths stay inside the packet and the tables. -/
namespace Vban

open Library

/-- `turns` reads of `bytes` bytes each, `stride` apart and from `start` on, end in the payload. -/
def ReadsFit (turns stride start bytes : Nat) : Prop :=
  bytes = 0 ∨ (turns - 1) * stride + start + bytes ≤ vbanDataMaxSize

theorem readsFit_iff (turns : Nat) {stride start bytes : Nat} (ht : 0 < turns) :
    ReadsFit turns stride start bytes ↔
      ∀ i ∈ List.range turns, bytes = 0 ∨ i * stride + start + bytes ≤ vbanDataMaxSize := by
  constructor
  · rintro (h | h) i hi
    · exact .inl h
    · have : i * stride ≤ (turns - 1) * stride :=
        Nat.mul_le_mul_right _ (by have := List.mem_range.mp hi; omega)
      exact .inr (by omega)
  · intro h
    exact h (turns - 1) (List.mem_range.mpr (by omega))

namespace VBanPacket

variable (p : VBanPacket)

def samples : Nat := p.header.formatNbs.toNat + 1

def channels : Nat := p.header.formatNbc.toNat + 1

/-- The bytes of one sample, for a format inside the table. -/
def sampleSize : Nat := vbanBitResolutionSize.getD p.header.formatBit.toNat 0

/-- The format is in the table and what the conversion loop reads of it is in the packet. -/
def AudioFits (nboutputs : Nat) : Prop :=
  p.header.formatBit.toNat < vbanBitResolutionMax ∧
    (p.header.formatBit.toNat ≤ 4 → ReadsFit p.samples (p.channels * p.sampleSize) 0
      (p.sampleSize * min p.channels nboutputs))

/-- The same for the network thread, which starts `offset` channels later and knows fewer
formats. -/
def NetAudioFits (nboutputs offset : Nat) : Prop :=
  p.header.formatBit.toNat < vbanBitResolutionMax ∧
    (p.header.formatBit ∈ [vbanBitfmt16Int, vbanBitfmt24Int, vbanBitfmt32Float] →
      ReadsFit p.samples (p.sampleSize * p.channels)
        (if offset > p.channels then 0 else p.sampleSize * offset)
        (p.sampleSize * min p.channels nboutputs))

end VBanPacket

section Accesses

variable {i : UInt8} {data : List UInt8} {srcptr size num : Nat} {conv : List UInt8 → CFloat}

theorem srList_avoids : Avoids Fault.OutOfBounds (srList i) ↔ i.toNat < vbanSrMaxnumber := by
  rw [srList]
  cases h : vbanSRList[i.toNat]? with
  | none =>
    have := List.getElem?_eq_none_iff.mp h
    rw [length_vbanSRList] at this
    simp only [avoids_error, Fault.OutOfBounds, not_true, false_iff]
    omega
  | some sr =>
    obtain ⟨hlt, -⟩ := List.getElem?_eq_some_iff.mp h
    simpa [length_vbanSRList] using hlt

theorem bitResolutionSize_of_lt (h : i.toNat < vbanBitResolutionMax) :
    bitResolutionSize i = .ok (vbanBitResolutionSize.getD i.toNat 0) := by
  have hlt : i.toNat < vbanBitResolutionSize.length := h
  rw [bitResolutionSize, List.getD_eq_getElem?_getD, List.getElem?_eq_getElem hlt]
  rfl

theorem bitResolutionSize_avoids :
    Avoids Fault.OutOfBounds (bitResolutionSize i) ↔ i.toNat < vbanBitResolutionMax := by
  by_cases h : i.toNat < vbanBitResolutionMax
  · simp [bitResolutionSize_of_lt h, h]
  · have : vbanBitResolutionSize[i.toNat]? = none :=
      List.getElem?_eq_none (by rw [length_vbanBitResolutionSize]; omega)
    simp [bitResolutionSize, this, Fault.OutOfBounds, h]

theorem bitResolutionSize_onlyFails : OnlyFails Fault.OutOfBounds (bitResolutionSize i) := by
  rw [bitResolutionSize]
  cases vbanBitResolutionSize[i.toNat]? with
  | none => exact onlyFails_error trivial
  | some size => exact onlyFails_ok

theorem readPayload_onlyFails {offset n : Nat} :
    OnlyFails Fault.OutOfBounds (readPayload data offset n) := by
  rw [readPayload]
  split_ifs
  · exact onlyFails_ok
  · exact onlyFails_error trivial

theorem convertSamples_onlyFails :
    OnlyFails Fault.OutOfBounds (convertSamples data srcptr size num conv) :=
  readPayload_onlyFails.bind fun _ => onlyFails_ok

theorem convertSamples_avoids (data : List UInt8) (conv : List UInt8 → CFloat) :
    Avoids Fault.OutOfBounds (convertSamples data srcptr size num conv) ↔
      size * num = 0 ∨ srcptr + size * num ≤ vbanDataMaxSize := by
  rw [convertSamples, avoids_bind, readPayload]
  split_ifs with h
  · exact ⟨fun _ => h, fun _ => ⟨avoids_ok, fun _ _ => avoids_ok⟩⟩
  · exact ⟨fun hf => absurd trivial (hf.1 _ rfl), fun hf => absurd hf h⟩

end Accesses

section Packet

variable {R : Type} {env : RxEnv R} {c : VbanRxContext R} {p : VBanPacket}
  {ringbuffer : Ringbuffer} {packetlen : Int} {ipIn : UInt32} {portIn : UInt16} {taken : List Nat}
  {framesize nbc nboutputs num srcptr : Nat} {bit : UInt8} {data : List UInt8}

theorem vbanSampleConvert_onlyFails (hb : bit.toNat < vbanBitResolutionMax) :
    OnlyFails Fault.OutOfBounds (vbanSampleConvert env data srcptr bit num) := by
  rw [vbanSampleConvert, bitResolutionSize_of_lt hb]
  refine onlyFails_ok.bind fun size => ?_
  split_ifs
  all_goals first | exact convertSamples_onlyFails | exact onlyFails_ok

/-- The formats above `VBAN_BITFMT_32_FLOAT` are not converted, and nothing of them is read. -/
theorem vbanSampleConvert_avoids (hb : bit.toNat < vbanBitResolutionMax) :
    Avoids Fault.OutOfBounds (vbanSampleConvert env data srcptr bit num) ↔
      (bit.toNat ≤ 4 → vbanBitResolutionSize.getD bit.toNat 0 * num = 0 ∨
        srcptr + vbanBitResolutionSize.getD bit.toNat 0 * num ≤ vbanDataMaxSize) := by
  rw [vbanSampleConvert, bitResolutionSize_of_lt hb, avoids_bind]
  simp only [avoids_ok, true_and, Except.ok.injEq, forall_eq']
  by_cases hle : bit.toNat ≤ 4
  · have hbit : bit = vbanBitfmt32Float ∨ bit = vbanBitfmt8Int ∨ bit = vbanBitfmt16Int ∨
        bit = vbanBitfmt24Int ∨ bit = vbanBitfmt32Int := by
      simp only [← UInt8.toNat_inj, vbanBitfmt32Float, vbanBitfmt8Int, vbanBitfmt16Int,
        vbanBitfmt24Int, vbanBitfmt32Int, UInt8.reduceToNat]
      omega
    rw [imp_iff_right hle, ← convertSamples_avoids]
    split_ifs with h4 h0 h1 h2 h3
    · rfl
    · rw [convertSamples_avoids, convertSamples_avoids]
    · rw [convertSamples_avoids, convertSamples_avoids]
    · rw [convertSamples_avoids, convertSamples_avoids]
    · rw [convertSamples_avoids, convertSamples_avoids]
    · tauto
  · have hne : ∀ k : UInt8, k.toNat ≤ 4 → bit ≠ k := by
      rintro k hk rfl
      exact hle hk
    rw [if_neg (hne _ (by decide)), if_neg (hne _ (by decide)), if_neg (hne _ (by decide)),
      if_neg (hne _ (by decide)), if_neg (hne _ (by decide))]
    simp [hle]

theorem convertFrames_onlyFails (hb : p.header.formatBit.toNat < vbanBitResolutionMax)
    {inbuf : List CFloat} :
    OnlyFails Fault.OutOfBounds (convertFrames env p framesize nbc nboutputs inbuf) :=
  onlyFails_foldlM (fun _ _ => (vbanSampleConvert_onlyFails hb).bind fun _ => onlyFails_ok) _ _

theorem convertFrames_avoids (hb : p.header.formatBit.toNat < vbanBitResolutionMax)
    {inbuf : List CFloat} :
    Avoids Fault.OutOfBounds (convertFrames env p framesize nbc nboutputs inbuf) ↔
      (p.header.formatBit.toNat ≤ 4 → ReadsFit p.samples framesize 0 (p.sampleSize * nbc)) := by
  rw [convertFrames, avoids_foldlM fun _ => vbanSampleConvert_onlyFails hb,
    readsFit_iff p.samples (Nat.succ_pos _)]
  simp only [vbanSampleConvert_avoids hb, Nat.add_zero]
  exact ⟨fun h hle i hi => h i hi hle, fun h i hi hle => h hle i hi⟩

theorem resizeResamplerBuffers_ok (h : c.samplerateResampler ≠ 0) (nbs : Nat) :
    ∃ c', resizeResamplerBuffers c nbs = .ok c' := by
  simp only [resizeResamplerBuffers, if_neg h]
  split_ifs <;> exact ⟨_, rfl⟩

theorem enqueueAudio_avoids (env : RxEnv R) (ringbuffer : Ringbuffer)
    (hsr : c.samplerateResampler ≠ 0) :
    Avoids Fault.OutOfBounds (enqueueAudio env c p ringbuffer) ↔ p.AudioFits c.nboutputs := by
  have hmin : (if p.header.formatNbc.toNat + 1 < c.nboutputs then p.header.formatNbc.toNat + 1
      else c.nboutputs) = min p.channels c.nboutputs := by
    rw [VBanPacket.channels]
    split_ifs <;> omega
  rw [VBanPacket.AudioFits]
  by_cases hb : p.header.formatBit.toNat < vbanBitResolutionMax
  · obtain ⟨c', hc'⟩ := resizeResamplerBuffers_ok hsr p.header.formatNbs.toNat
    simp only [enqueueAudio, bitResolutionSize_of_lt hb, hc', hmin, avoids_bind, avoids_ok,
      Except.ok.injEq, forall_eq', true_and, convertFrames_avoids hb, hb]
    refine ⟨fun h => h.1, fun h => ⟨h, fun inbuf _ => ?_⟩⟩
    cases c'.resampler with
    | none => exact avoids_error.mpr id
    | some resampler => exact avoids_ok
  · simp only [enqueueAudio, avoids_bind, bitResolutionSize_avoids, hb, false_and]

theorem correctFill_avoids {a : ResampledAudio R} :
    Avoids Fault.OutOfBounds (correctFill a p) := by
  intro f hf hbad
  simp only [correctFill] at hf
  by_cases hflag : a.context.flags &&& correctionOn = 0
  · rw [if_pos hflag] at hf
    cases hf
  · rw [if_neg hflag] at hf
    cases hr : (calcInputSamplerate a.context p).2.ringbuffer with
    | none =>
      rw [hr] at hf
      cases hf
    | some rb =>
      rw [hr] at hf
      simp only at hf
      split_ifs at hf
      cases hf
      exact hbad

/-- Before the stream is open the rate is looked up, later an accepted packet is decoded. -/
def AudioInBounds (c : VbanRxContext R) (p : VBanPacket) (ipIn : UInt32) : Prop :=
  p.protocol = vbanProtocolAudio →
    (c.ringbuffer = none → p.header.formatSR.toNat < vbanSrMaxnumber) ∧
    (c.ringbuffer ≠ none → c.Accepts p ipIn → p.AudioFits c.nboutputs)

theorem handleAudio_avoids (hsr : c.ringbuffer ≠ none → c.samplerateResampler ≠ 0)
    (hp : p.protocol = vbanProtocolAudio) :
    Avoids Fault.OutOfBounds (handleAudio env c p ipIn) ↔ AudioInBounds c p ipIn := by
  rw [AudioInBounds, imp_iff_right hp, handleAudio]
  cases hc : c.ringbuffer with
  | none =>
    simp only [avoids_bind, avoids_pure, implies_true, and_true, srList_avoids, ne_eq,
      not_true, false_implies, forall_const]
  | some rb =>
    have hsr' := hsr (by simp [hc])
    simp only [reduceCtorEq, false_implies, true_and, ne_eq, not_false_eq_true, forall_const]
    split_ifs with hacc
    · simp only [avoids_bind, avoids_pure, implies_true, and_true, enqueueAudio_avoids env _ hsr',
        correctFill_avoids, hacc]
      exact ⟨fun h _ => h, fun h => h trivial⟩
    · simp [hacc]

theorem midiLoop_avoids {eventptr : Nat} :
    Avoids Fault.OutOfBounds (midiLoop p packetlen taken eventptr ringbuffer) := by
  induction taken generalizing eventptr ringbuffer with
  | nil =>
    rw [midiLoop]
    split_ifs
    · exact avoids_error.mpr id
    · exact avoids_ok
  | cons n taken ih =>
    rw [midiLoop]
    simp only
    split_ifs
    · exact ih
    · exact avoids_error.mpr id
    · exact ih
    · exact avoids_ok

theorem vbanRxHandlePacket_avoids (hsr : c.ringbuffer ≠ none → c.samplerateResampler ≠ 0) :
    Avoids Fault.OutOfBounds (vbanRxHandlePacket env p packetlen c ipIn portIn taken) ↔
      AudioInBounds c p ipIn := by
  rw [vbanRxHandlePacket]
  split_ifs with haudio hserial htxt
  · exact handleAudio_avoids hsr haudio
  · simp only [AudioInBounds, haudio, false_implies, iff_true, handleSerial]
    split_ifs
    · cases c.ringbufferMidi with
      | none => exact avoids_ok
      | some rb => exact avoids_bind.mpr ⟨midiLoop_avoids, fun _ _ => avoids_ok⟩
    · exact avoids_ok
  · simp [AudioInBounds, haudio]
  · simp [AudioInBounds, haudio]

end Packet

end Vban
