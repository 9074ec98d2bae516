import Mathlib.RingTheory.Int.Basic
import Vban.Receive.PipewireReceptor
import Vban.Receive.RingFill

/-! What the PipeWire callback fills of a buffer, and what it reports. -/
namespace Vban

open Library

/-- The receptor and the length of `rxbuf`. -/
structure PwPlayer (R : Type) where
  receptor : PwReceptor R
  rxbuflen : Int

/-- The length that `vban_compute_rx_buffer` sets, with its default `lagrange_add`. -/
def vbanComputeRxBuffer (nframes : Int) (nbchannels : Nat) : Int :=
  Int.bmod (nbchannels * (nframes + 3)) (2 ^ 32)

/-- What becomes of the buffer of PipeWire. -/
structure PwChunk where
  /-- The bytes that `memcpy` or, without packets for long, `memset` writes from its start on. -/
  filled : Nat
  offset : Nat
  stride : Nat
  size : Nat
deriving DecidableEq

/-- The buffer has room for what is filled, and that is what the chunk says. -/
def PwChunk.Sound (chunk : PwChunk) (b : PwRxBuffer) : Prop :=
  chunk.filled ≤ b.maxsize ∧ chunk.filled = chunk.size

variable {R : Type}

namespace PwPlayer

/-- The part of `on_rx_process` for a changed period. -/
def changePeriod (nframes : Int) (s : PwPlayer R) : Except Fault (PwPlayer R) := do
  let c := s.receptor.context
  let rxbuflen :=
    if nframes ≠ c.nframes ∨ c.ringbuffer = none then vbanComputeRxBuffer nframes c.nboutputs
    else s.rxbuflen
  let receptor ← s.receptor.changePeriod nframes
  return { receptor, rxbuflen }

def chunk (nframes : Int) (s : PwPlayer R) : PwChunk where
  filled := sizeMul (sizeOfInt s.rxbuflen) 4
  offset := 0
  stride := s.receptor.stride
  size := uintOfInt 32 (nframes * s.receptor.stride)

def fillBuffer : Option PwRxBuffer → PwPlayer R → Except Fault (Option PwChunk × PwPlayer R)
  | none, s => .ok (none, s)
  | some b, s =>
    if b.mapped then do
      let nframes := b.frames s.receptor.stride
      let s ← s.changePeriod nframes
      let (_, receptor) ← s.receptor.readPeriod
      return (some (s.chunk nframes), { s with receptor })
    else .ok (none, s)

/-- `on_rx_process` with what it does to `rxbuflen` and to the buffer. -/
def onRxProcess (setRratio : R → R) (buffer : Option PwRxBuffer) (s : PwPlayer R) :
    Except Fault (Option PwChunk × PwPlayer R) :=
  if s.receptor.stride = 0 then .ok (none, s)
  else do
    let receptor ← s.receptor.correctIfOn setRratio
    { s with receptor }.fillBuffer buffer

/-- The callback gets to the copy. -/
def Fills (s : PwPlayer R) (buffer : Option PwRxBuffer) : Prop :=
  s.receptor.stride ≠ 0 ∧ ∃ b, buffer = some b ∧ b.mapped

end PwPlayer

/-- The steps of the receptor, with `rxbuf`. -/
inductive PwPlayerStep (env : RxEnv R) : PwPlayer R → PwRxEvent R → PwPlayer R → Prop
  | receive {s : PwPlayer R} {i : RxInput} {t : PwReceptor R}
      (h : PwRxStep env s.receptor (.receive i) t) :
      PwPlayerStep env s (.receive i) { s with receptor := t }
  | openStream {s : PwPlayer R} {resampler : R} {t : PwReceptor R}
      (h : PwRxStep env s.receptor (.openStream resampler) t) :
      PwPlayerStep env s (.openStream resampler) ⟨t, vbanComputeRxBuffer
        s.receptor.context.nframes s.receptor.context.nboutputs⟩
  | process {s t : PwPlayer R} {setRratio : R → R} {buffer : Option PwRxBuffer}
      {chunk : Option PwChunk} (hopen : s.receptor.context.ringbuffer ≠ none)
      (h : s.onRxProcess setRratio buffer = .ok (chunk, t)) :
      PwPlayerStep env s (.process setRratio buffer) t

variable {env : RxEnv R} {s t : PwPlayer R} {e : PwRxEvent R} {es : List (PwRxEvent R)}
  {f : R → R} {buffer : Option PwRxBuffer} {chunk : Option PwChunk} {b : PwRxBuffer}
  {c : VbanRxContext R} {p : VBanPacket} {ip : UInt32} {r : RxResult R} {rxbuflen m n : Int}
  {nboutputs : Nat}

theorem changePeriod_ok (h : s.changePeriod n = .ok t) :
    s.receptor.changePeriod n = .ok t.receptor ∧ t.rxbuflen =
      if n ≠ s.receptor.context.nframes ∨ s.receptor.context.ringbuffer = none then
        vbanComputeRxBuffer n s.receptor.context.nboutputs
      else s.rxbuflen := by
  obtain ⟨receptor, hreceptor, h⟩ := bind_eq_ok.mp h
  obtain rfl := Except.ok.inj h
  exact ⟨hreceptor, rfl⟩

/-- With `rxbuf` left out the callback is that of the receptor. -/
theorem onRxProcess_receptor (h : s.onRxProcess f buffer = .ok (chunk, t)) :
    ∃ slots, s.receptor.onRxProcess f buffer = .ok (slots, t.receptor) := by
  rw [PwPlayer.onRxProcess] at h
  rw [PwReceptor.onRxProcess]
  split_ifs at h ⊢ with hstride
  · obtain ⟨rfl, rfl⟩ := Prod.mk.inj (Except.ok.inj h)
    exact ⟨_, rfl⟩
  · obtain ⟨u, hu, hfill⟩ := bind_eq_ok.mp h
    rw [hu, ok_bind]
    cases buffer with
    | none =>
      obtain ⟨rfl, rfl⟩ := Prod.mk.inj (Except.ok.inj hfill)
      exact ⟨_, rfl⟩
    | some b =>
      rw [PwPlayer.fillBuffer] at hfill
      rw [PwReceptor.fillBuffer]
      split_ifs at hfill ⊢ with hmapped
      · obtain ⟨w, hw, hread⟩ := bind_eq_ok.mp hfill
        obtain ⟨⟨slots, receptor⟩, hreceptor, hread⟩ := bind_eq_ok.mp hread
        obtain ⟨rfl, rfl⟩ := Prod.mk.inj (Except.ok.inj hread)
        rw [(changePeriod_ok hw).1, ok_bind, hreceptor]
        exact ⟨_, rfl⟩
      · obtain ⟨rfl, rfl⟩ := Prod.mk.inj (Except.ok.inj hfill)
        exact ⟨_, rfl⟩

/-- Every step is one of the receptor. -/
theorem PwPlayerStep.receptor (h : PwPlayerStep env s e t) :
    PwRxStep env s.receptor e t.receptor := by
  cases h with
  | receive h => exact h
  | openStream h => exact h
  | process hopen h =>
    obtain ⟨slots, hslots⟩ := onRxProcess_receptor h
    exact .process hopen hslots

/-- While there is a ring, `rxbuf` is one for a period that `nframes` has the low 16 bits of. -/
structure Allocated (rxbuflen : Int) (c : VbanRxContext R) : Prop where
  nboutputs_lt : c.nboutputs < 2 ^ 16
  nframes_lt : c.nframes < 2 ^ 16
  rxbuflen_eq : c.ringbuffer ≠ none →
    ∃ m : Int, rxbuflen = vbanComputeRxBuffer m c.nboutputs ∧ uintOfInt 16 m = c.nframes

theorem Allocated.congr {c' : VbanRxContext R} (h : Allocated rxbuflen c)
    (hnboutputs : c'.nboutputs = c.nboutputs) (hnframes : c'.nframes = c.nframes)
    (hring : c'.ringbuffer ≠ none → c.ringbuffer ≠ none) : Allocated rxbuflen c' := by
  constructor
  · rw [hnboutputs]
    exact h.nboutputs_lt
  · rw [hnframes]
    exact h.nframes_lt
  · intro hopen
    rw [hnboutputs, hnframes]
    exact h.rxbuflen_eq (hring hopen)

theorem uintOfInt_natCast {k : Nat} (h : k < 2 ^ 16) : uintOfInt 16 k = k := by
  rw [uintOfInt]
  omega

/-- Packets leave the period alone, and the channels while the stream is open. -/
theorem Handled.allocated (h : Handled env c p ip r) (hc : Allocated rxbuflen c) :
    Allocated rxbuflen r.context := by
  cases h with
  | announced _ hclosed =>
    refine ⟨?_, hc.nframes_lt, fun hopen => absurd hclosed hopen⟩
    have hchannels := p.header.formatNbc.toNat_lt
    simp only [announceFormat]
    split_ifs
    · omega
    · exact hc.nboutputs_lt
  | @enqueued rb a d _ hopen ha hf =>
    obtain ⟨_, _, _, _, _, ha'⟩ := enqueueAudio_context ha
    have hring : c.ringbuffer ≠ none := by simp [hopen]
    have hnframes : (calcInputSamplerate a.context p).2.nframes = c.nframes :=
      (calcInputSamplerate_enqueued ha).2.2.1
    have hnboutputs : d.nboutputs = c.nboutputs :=
      ((enqueueAudio_spec ha).1.trans (correctFill_spec hf).1).nboutputs_eq
    rcases correctFill_cases hf with ⟨-, rfl⟩ | ⟨-, fill, rfl⟩
    · exact hc.congr hnboutputs (by rw [ha']) fun _ => hring
    · exact hc.congr hnboutputs hnframes fun _ => hring
  | midi => exact hc.congr rfl rfl id
  | ignored => exact hc

theorem receive_allocated {u v : RxThread R} {i : RxInput} (h : u.receive env i = .ok v)
    (hu : Allocated rxbuflen u.context) : Allocated rxbuflen v.context := by
  refine receive_invariant ?_ ?_ h hu
  · intro c iprx name port ts hc
    exact hc.congr rfl rfl id
  · intro c p n ip port taken r hc hr
    exact (vbanRxHandlePacket_cases hr).allocated hc

theorem PwReceptor.computeRxRingbuffer_ok {u v : PwReceptor R} {k : Nat}
    (h : u.computeRxRingbuffer k = .ok v) : v.context.nframes = u.context.nframes ∧
      v.context.nboutputs = u.context.nboutputs ∧ v.context.ringbuffer ≠ none := by
  rw [computeRxRingbuffer] at h
  split_ifs at h
  obtain rfl := Except.ok.inj h
  exact ⟨rfl, rfl, Option.some_ne_none _⟩

/-- The period that `rxbuf` is for: that of the callback if it is a new one. -/
structure RxbufPeriod (s t : PwPlayer R) (n m : Int) : Prop where
  rxbuflen_eq : t.rxbuflen = vbanComputeRxBuffer m s.receptor.context.nboutputs
  low_eq : uintOfInt 16 m = uintOfInt 16 n
  changed : n ≠ s.receptor.context.nframes → m = n

theorem changePeriod_allocated (h : s.changePeriod n = .ok t)
    (hs : Allocated s.rxbuflen s.receptor.context) :
    Allocated t.rxbuflen t.receptor.context ∧
      t.receptor.context.nboutputs = s.receptor.context.nboutputs ∧
      t.receptor.context.ringbuffer ≠ none ∧ ∃ m, RxbufPeriod s t n m := by
  obtain ⟨hreceptor, hrxbuflen⟩ := changePeriod_ok h
  rw [PwReceptor.changePeriod] at hreceptor
  split_ifs at hreceptor hrxbuflen with hchange
  · obtain ⟨hnframes, hnboutputs, hring⟩ := PwReceptor.computeRxRingbuffer_ok hreceptor
    have hnframes' : t.receptor.context.nframes = uintOfInt 16 n := hnframes
    have hnboutputs' : t.receptor.context.nboutputs = s.receptor.context.nboutputs := hnboutputs
    refine ⟨⟨?_, ?_, fun _ => ⟨n, ?_, hnframes'.symm⟩⟩, hnboutputs', hring, n, hrxbuflen, rfl,
      fun _ => rfl⟩
    · rw [hnboutputs']
      exact hs.nboutputs_lt
    · rw [hnframes']
      exact uintOfInt_lt 16 n
    · rw [hrxbuflen, hnboutputs']
  · rw [not_or, not_not] at hchange
    obtain ⟨m, hlength, hm⟩ := hs.rxbuflen_eq hchange.2
    rw [hrxbuflen, ← Except.ok.inj hreceptor]
    refine ⟨hs, rfl, hchange.2, m, hrxbuflen.trans hlength, ?_, fun hne => absurd hchange.1 hne⟩
    rw [hm, hchange.1, uintOfInt_natCast hs.nframes_lt]

/-- What is filled is never what is reported: the lengths differ by an odd multiple of the
bytes of a frame, in 32 bits. -/
theorem filled_ne_size (hpos : 0 < nboutputs) (hlt : nboutputs < 2 ^ 16)
    (hperiod : uintOfInt 16 m = uintOfInt 16 n) :
    sizeMul (sizeOfInt (vbanComputeRxBuffer m nboutputs)) 4 ≠
      uintOfInt 32 (n * (nboutputs * 4 : Nat)) := by
  intro heq
  have hodd : ¬(2 : Int) ∣ m - n + 3 := by
    have hsame : m % 2 ^ 16 = n % 2 ^ 16 := by
      rw [uintOfInt, uintOfInt] at hperiod
      omega
    omega
  have hcongr : (2 : Int) ^ 30 ∣ nboutputs * (m - n + 3) := by
    have hlength : vbanComputeRxBuffer m nboutputs % 2 ^ 32 = nboutputs * (m + 3) % 2 ^ 32 :=
      Int.bmod_emod
    have hsize : n * (nboutputs * 4 : Nat) = nboutputs * n * 4 := by
      push_cast
      ring
    have hdiff : (nboutputs : Int) * (m - n + 3) = nboutputs * (m + 3) - nboutputs * n := by ring
    rw [hsize] at heq
    rw [hdiff]
    generalize vbanComputeRxBuffer m nboutputs = rxbuflen at heq hlength
    generalize (nboutputs : Int) * (m + 3) = x at *
    generalize (nboutputs : Int) * n = y at *
    rw [sizeMul, sizeOfInt, uintOfInt] at heq
    omega
  have hdvd := Prime.pow_dvd_of_dvd_mul_right Int.prime_two 30 hodd hcongr
  omega

/-- The callback leaves the buffer alone, or reports the period and fills it with `rxbuf`. -/
theorem fillBuffer_allocated (h : s.fillBuffer buffer = .ok (chunk, t))
    (hs : Allocated s.rxbuflen s.receptor.context) :
    Allocated t.rxbuflen t.receptor.context ∧
      (chunk = none ∧ (∀ b, buffer = some b → ¬b.mapped) ∨
        ∃ b m, buffer = some b ∧ b.mapped ∧ RxbufPeriod s t (b.frames s.receptor.stride) m ∧
          t.receptor.stride = s.receptor.stride ∧
          chunk = some (t.chunk (b.frames s.receptor.stride))) := by
  cases buffer with
  | none =>
    obtain ⟨rfl, rfl⟩ := Prod.mk.inj (Except.ok.inj h)
    refine ⟨hs, .inl ⟨rfl, ?_⟩⟩
    rintro _ ⟨⟩
  | some b =>
    rw [PwPlayer.fillBuffer] at h
    split_ifs at h with hmapped
    · obtain ⟨u, hu, h⟩ := bind_eq_ok.mp h
      obtain ⟨⟨slots, receptor⟩, hread, h⟩ := bind_eq_ok.mp h
      obtain ⟨rfl, rfl⟩ := Prod.mk.inj (Except.ok.inj h)
      obtain ⟨hu', hnboutputs, hopen, m, hm⟩ := changePeriod_allocated hu hs
      obtain ⟨rb, rb', -, -, rfl⟩ := PwReceptor.readPeriod_cases hread
      have hstride : u.receptor.stride = s.receptor.stride := congrArg (· * 4) hnboutputs
      exact ⟨hu'.congr rfl rfl fun _ => hopen, .inr ⟨b, m, rfl, hmapped,
        ⟨hm.rxbuflen_eq, hm.low_eq, hm.changed⟩, hstride, rfl⟩⟩
    · obtain ⟨rfl, rfl⟩ := Prod.mk.inj (Except.ok.inj h)
      refine ⟨hs, .inl ⟨rfl, ?_⟩⟩
      rintro _ ⟨⟩
      exact hmapped

theorem onRxProcess_allocated (h : s.onRxProcess f buffer = .ok (chunk, t))
    (hs : Allocated s.rxbuflen s.receptor.context) :
    Allocated t.rxbuflen t.receptor.context ∧
      (chunk = none ∧ ¬s.Fills buffer ∨
        ∃ b m, buffer = some b ∧ s.Fills buffer ∧ RxbufPeriod s t (b.frames s.receptor.stride) m ∧
          t.receptor.stride = s.receptor.stride ∧
          chunk = some (t.chunk (b.frames s.receptor.stride))) := by
  rw [PwPlayer.onRxProcess] at h
  split_ifs at h with hstride
  · obtain ⟨rfl, rfl⟩ := Prod.mk.inj (Except.ok.inj h)
    exact ⟨hs, .inl ⟨rfl, fun hfills => hfills.1 hstride⟩⟩
  · obtain ⟨u, hu, h⟩ := bind_eq_ok.mp h
    have hsame := correctIfOn_same hu
    have hstride' : u.stride = s.receptor.stride := congrArg (· * 4) hsame.nboutputs_eq
    have hu' : Allocated s.rxbuflen u.context :=
      hs.congr hsame.nboutputs_eq hsame.nframes_eq fun hopen => hsame.ringbuffer_eq ▸ hopen
    obtain ⟨ht, hchunk⟩ := fillBuffer_allocated h hu'
    refine ⟨ht, ?_⟩
    rcases hchunk with ⟨hnone, hunmapped⟩ | ⟨b, m, hb, hmapped, hm, hstride'', hchunk⟩
    · refine .inl ⟨hnone, ?_⟩
      rintro ⟨-, b, hb, hmapped⟩
      exact hunmapped b hb hmapped
    · simp only [hstride'] at hm hstride'' hchunk
      refine .inr ⟨b, m, hb, ⟨hstride, b, hb, hmapped⟩, ⟨?_, hm.low_eq, ?_⟩, hstride'', hchunk⟩
      · rw [← hsame.nboutputs_eq]
        exact hm.rxbuflen_eq
      · rw [← hsame.nframes_eq]
        exact hm.changed

theorem PwPlayerStep.allocated (h : PwPlayerStep env s e t)
    (hs : Allocated s.rxbuflen s.receptor.context) : Allocated t.rxbuflen t.receptor.context := by
  cases h with
  | receive h =>
    cases h with
    | receive _ _ hreceive => exact receive_allocated hreceive hs
  | openStream h =>
    cases h with
    | openStream _ _ _ hcreate =>
      obtain ⟨hnframes, hnboutputs, -⟩ := PwReceptor.computeRxRingbuffer_ok hcreate
      rw [PwReceptor.context_setContext] at hnframes hnboutputs
      constructor
      · exact hnboutputs ▸ hs.nboutputs_lt
      · exact hnframes ▸ hs.nframes_lt
      · intro _
        rw [hnboutputs, hnframes]
        refine ⟨s.receptor.context.nframes, ?_, uintOfInt_natCast hs.nframes_lt⟩
        dsimp only
  | process _ h => exact (onRxProcess_allocated h hs).1

theorem pwReceptorMain_allocated {packet : VBanPacket} {cAddr : UInt32 × UInt16}
    {opts : List PwReceptorOption} {u : PwReceptor R}
    (h : pwReceptorMain packet cAddr opts = some u) : Allocated rxbuflen u.context := by
  have hclosed := (pwReceptorMain_closed h).1
  rw [pwReceptorMain] at h
  split_ifs at h
  suffices hfields : u.context.nboutputs < 2 ^ 16 ∧ u.context.nframes < 2 ^ 16 from
    ⟨hfields.1, hfields.2, fun hopen => absurd hclosed hopen⟩
  refine foldlM_invariant (I := fun s => s.context.nboutputs < 2 ^ 16 ∧
    s.context.nframes < 2 ^ 16) h ?_ ⟨Nat.two_pow_pos 16, Nat.two_pow_pos 16⟩
  intro s opt t hs happly
  cases opt with
  | ipaddr length addr =>
    rw [PwReceptorOption.apply] at happly
    split_ifs at happly
    all_goals
      obtain rfl := Option.some.inj happly
      exact hs
  | help => cases happly
  | bufsize n =>
    obtain rfl := Option.some.inj happly
    exact ⟨hs.1, uintOfInt_lt 16 n⟩
  | nbchannels n =>
    obtain rfl := Option.some.inj happly
    exact ⟨uintOfInt_lt 16 n, hs.2⟩
  | _ =>
    obtain rfl := Option.some.inj happly
    exact hs

/-- Whatever the callback fills and reports is sound. -/
def ChunkSound (buffer : Option PwRxBuffer) (chunk : Option PwChunk) : Prop :=
  ∀ c, chunk = some c → ∃ b, buffer = some b ∧ c.Sound b

theorem Allocated.sound_iff (hs : Allocated s.rxbuflen s.receptor.context)
    (h : s.onRxProcess f buffer = .ok (chunk, t)) : ChunkSound buffer chunk ↔ ¬s.Fills buffer := by
  obtain ⟨-, hchunk⟩ := onRxProcess_allocated h hs
  rcases hchunk with ⟨rfl, hnone⟩ | ⟨b, m, hb, hfills, hm, hstride, rfl⟩
  · refine iff_of_true ?_ hnone
    rintro c ⟨⟩
  · refine iff_of_false ?_ fun hnone => hnone hfills
    intro hsound
    obtain ⟨-, -, -, heq⟩ := hsound _ rfl
    have hpos := hfills.1
    rw [PwReceptor.stride] at hpos
    simp only [PwPlayer.chunk] at heq
    rw [hm.rxbuflen_eq, hstride] at heq
    exact filled_ne_size (by omega) hs.nboutputs_lt hm.low_eq heq

theorem frames_le (stride : Nat) (b : PwRxBuffer) :
    b.frames stride ≤ (b.maxsize / stride : Nat) := by
  simp only [PwRxBuffer.frames]
  split_ifs
  · exact min_le_right _ _
  · exact le_rfl

/-- The copy of `rxbuf` for a period that fits into less than 4 GiB. -/
theorem vbanComputeRxBuffer_filled {k : Nat} (hk : k ≤ 2 ^ 32 / (nboutputs * 4))
    (hlt : nboutputs < 2 ^ 16) :
    sizeMul (sizeOfInt (vbanComputeRxBuffer k nboutputs)) 4 = (k + 3) * (nboutputs * 4) := by
  have hbytes : k * (nboutputs * 4) ≤ 2 ^ 32 :=
    (Nat.mul_le_mul_right _ hk).trans (Nat.div_mul_le_self _ _)
  have hlength : (nboutputs : Int) * (k + 3) = (nboutputs * (k + 3) : Nat) := by
    push_cast
    ring
  have hfits : (nboutputs * (k + 3)) * 4 = k * (nboutputs * 4) + 3 * (nboutputs * 4) := by ring
  have hshort : nboutputs * (k + 3) < 2 ^ 31 := by omega
  have hint : vbanComputeRxBuffer k nboutputs = (nboutputs * (k + 3) : Nat) := by
    rw [vbanComputeRxBuffer, hlength]
    exact intOfSize_of_lt hshort
  have hbytes' : (k + 3) * (nboutputs * 4) = nboutputs * (k + 3) * 4 := by ring
  rw [hint, hbytes', sizeMul, sizeOfInt]
  generalize nboutputs * (k + 3) = length at *
  omega

/-- A callback with a new period overruns the buffer unless it has room for three more frames. -/
theorem Allocated.filled_le_maxsize_iff (hs : Allocated s.rxbuflen s.receptor.context)
    {c : PwChunk} (h : s.onRxProcess f (some b) = .ok (some c, t))
    (hchange : b.frames s.receptor.stride ≠ s.receptor.context.nframes)
    (hframes : 0 ≤ b.frames s.receptor.stride) (hmaxsize : b.maxsize < 2 ^ 32) :
    c.filled ≤ b.maxsize ↔
      b.frames s.receptor.stride + 3 ≤ (b.maxsize / s.receptor.stride : Nat) := by
  obtain ⟨-, hchunk⟩ := onRxProcess_allocated h hs
  rcases hchunk with ⟨hnone, -⟩ | ⟨b', m, hb, hfills, hm, hstride, hchunk⟩
  · cases hnone
  · obtain rfl := Option.some.inj hb
    obtain rfl := Option.some.inj hchunk
    obtain rfl := hm.changed hchange
    obtain ⟨k, hk⟩ := Int.eq_ofNat_of_zero_le hframes
    have hpos : 0 < s.receptor.stride := Nat.pos_of_ne_zero hfills.1
    have hle : k ≤ b.maxsize / s.receptor.stride := by
      have hbound := frames_le s.receptor.stride b
      omega
    have hlength := hm.rxbuflen_eq
    rw [hk] at hlength ⊢
    rw [PwPlayer.chunk, hlength, vbanComputeRxBuffer_filled (hle.trans (Nat.div_le_div_right
      hmaxsize.le)) hs.nboutputs_lt, ← PwReceptor.stride, ← Nat.le_div_iff_mul_le hpos]
    omega

/-- The callback is sound exactly if it does not get to the copy: what it fills is never what it
reports. -/
theorem chunk_sound_iff {packet : VBanPacket} {cAddr : UInt32 × UInt16}
    {opts : List PwReceptorOption} {u : PwReceptor R}
    (hmain : pwReceptorMain packet cAddr opts = some u)
    (hrun : Run (PwPlayerStep env) ⟨u, 0⟩ es s)
    (h : s.onRxProcess f buffer = .ok (chunk, t)) : ChunkSound buffer chunk ↔ ¬s.Fills buffer := by
  have hs := hrun.invariant (I := fun s => Allocated s.rxbuflen s.receptor.context)
    (fun _ _ _ hs h => h.allocated hs) (pwReceptorMain_allocated hmain)
  exact hs.sound_iff h

/-- The receptor of the local options for mono periods of one frame, after its first packet. -/
structure PwPlayer.Mono (s : PwPlayer Unit) : Prop where
  ringbuffer_eq : s.receptor.context.ringbuffer = some (vbanComputeRxRingbuffer 1 0 1 0)
  stride_eq : s.receptor.stride = 4
  resampler_eq : s.receptor.context.resampler = some ()
  flags_eq : s.receptor.context.flags = correctionOn
  cframes_eq : s.receptor.context.cframes = 0
  nframes_eq : s.receptor.context.nframes = 1
  rxbuflen_eq : s.rxbuflen = 4

theorem exists_mono : ∃ (s : PwReceptor Unit) (es : List (PwRxEvent Unit)) (u : PwPlayer Unit),
    pwReceptorMain .zero (0, 0) (localOptions [.bufsize 1]) = some s ∧
      Run (PwPlayerStep silentEnv.toRxEnv) ⟨s, 0⟩ es u ∧ u.Mono := by
  obtain ⟨s, hs⟩ : ∃ s : PwReceptor Unit,
      pwReceptorMain .zero (0, 0) (localOptions [.bufsize 1]) = some s := ⟨_, rfl⟩
  have hlocal : s.Local 1 0 := by
    obtain rfl := Option.some.inj hs
    exact ⟨rfl, rfl⟩
  obtain ⟨t, hreceive, hannounced⟩ := hlocal.exists_announced
  obtain ⟨u, hopen, hring, hstride, hresampler, hflags, hcframes, hnframes⟩ :=
    hannounced.exists_open (by decide)
  have hlength : vbanComputeRxBuffer t.context.nframes t.context.nboutputs = 4 := by
    rw [hannounced.context_eq]
    decide
  have hstep := PwPlayerStep.openStream (s := ⟨t, 0⟩) hopen
  dsimp only at hstep
  rw [hlength] at hstep
  exact ⟨s, _, ⟨u, 4⟩, hs, (Run.single (.receive (s := ⟨s, 0⟩) hreceive)).snoc hstep, hring,
    hstride, hresampler, hflags, hcframes, hnframes, rfl⟩

namespace PwPlayer.Mono

variable {u : PwPlayer Unit}

theorem stride_ne (hu : u.Mono) : ¬u.receptor.stride = 0 := by
  rw [hu.stride_eq]
  decide

theorem correctIfOn (hu : u.Mono) :
    ∃ v, u.receptor.correctIfOn id = .ok v ∧ PwPlayer.Mono ⟨v, u.rxbuflen⟩ := by
  have hon : ¬u.receptor.context.flags &&& correctionOn = 0 := by
    rw [hu.flags_eq]
    decide
  have hearly : u.receptor.context.cframes ≤ u.receptor.context.nframes := by
    rw [hu.cframes_eq]
    exact Int.natCast_nonneg _
  have hspace : readSpaceOrFault (vbanComputeRxRingbuffer 1 0 1 0) = .ok 0 := by decide
  rw [PwReceptor.correctIfOn, if_neg hon, PwReceptor.correctSamplerate, hu.ringbuffer_eq,
    hu.resampler_eq]
  simp only [if_pos hearly, hspace, ok_bind]
  exact ⟨_, rfl, hu.ringbuffer_eq, hu.stride_eq, rfl, hu.flags_eq, hu.cframes_eq, hu.nframes_eq,
    hu.rxbuflen_eq⟩

theorem changePeriod (hu : u.Mono) : u.changePeriod 1 = .ok u := by
  have hsame : ¬((1 : Int) ≠ u.receptor.context.nframes ∨
      u.receptor.context.ringbuffer = none) := by
    rw [hu.nframes_eq, hu.ringbuffer_eq]
    decide
  rw [PwPlayer.changePeriod, PwReceptor.changePeriod, if_neg hsame, if_neg hsame]
  rfl

theorem readPeriod (hu : u.Mono) : ∃ slots v, u.receptor.readPeriod = .ok (slots, v) := by
  have hnboutputs : u.receptor.context.nboutputs = 1 := by
    have hstride := hu.stride_eq
    rw [PwReceptor.stride] at hstride
    omega
  have hread : readSlots 1 1 (vbanComputeRxRingbuffer 1 0 1 0) =
      .ok ([none], vbanComputeRxRingbuffer 1 0 1 0) := by decide
  rw [PwReceptor.readPeriod, hu.ringbuffer_eq, hnboutputs, hu.nframes_eq]
  simp only [hread, ok_bind]
  exact ⟨_, _, rfl⟩

end PwPlayer.Mono

/-- Without a buffer nothing is filled. -/
theorem chunk_sound_without_buffer : ∃ (u : PwPlayer Unit) (chunk : Option PwChunk)
    (t : PwPlayer Unit), u.Mono ∧ u.onRxProcess id none = .ok (chunk, t) ∧
      ChunkSound none chunk := by
  obtain ⟨s, es, u, hs, hrun, hu⟩ := exists_mono
  obtain ⟨v, hv, -⟩ := hu.correctIfOn
  have hprocess : u.onRxProcess id none = .ok (none, ⟨v, u.rxbuflen⟩) := by
    rw [PwPlayer.onRxProcess, if_neg hu.stride_ne, hv]
    rfl
  refine ⟨u, _, _, hu, hprocess, (chunk_sound_iff hs hrun hprocess).mpr ?_⟩
  rintro ⟨-, b, hb, -⟩
  cases hb

/-- Into a buffer of one frame the callback copies four. -/
theorem chunk_overruns_buffer : ∃ (s : PwReceptor Unit) (es : List (PwRxEvent Unit))
    (u : PwPlayer Unit) (chunk : PwChunk) (t : PwPlayer Unit),
    pwReceptorMain .zero (0, 0) (localOptions [.bufsize 1]) = some s ∧
      Run (PwPlayerStep silentEnv.toRxEnv) ⟨s, 0⟩ es u ∧
      u.onRxProcess id (some ⟨true, 4, 0⟩) = .ok (some chunk, t) ∧
      chunk.filled = 16 ∧ chunk.size = 4 ∧ ¬ChunkSound (some ⟨true, 4, 0⟩) (some chunk) := by
  obtain ⟨s, es, u, hs, hrun, hu⟩ := exists_mono
  obtain ⟨v, hv, hv'⟩ := hu.correctIfOn
  obtain ⟨slots, w, hw⟩ := hv'.readPeriod
  have hframes : PwRxBuffer.frames 4 ⟨true, 4, 0⟩ = 1 := by decide
  have hprocess : u.onRxProcess id (some ⟨true, 4, 0⟩) =
      .ok (some (PwPlayer.chunk 1 ⟨v, u.rxbuflen⟩), ⟨w, u.rxbuflen⟩) := by
    rw [PwPlayer.onRxProcess, if_neg hu.stride_ne, hv, ok_bind, PwPlayer.fillBuffer, if_pos rfl,
      hv'.stride_eq, hframes]
    simp only [hv'.changePeriod, ok_bind, hw]
    rfl
  have hchunk : PwPlayer.chunk 1 ⟨v, u.rxbuflen⟩ = ⟨16, 0, 4, 4⟩ := by
    rw [PwPlayer.chunk, hv'.stride_eq, hu.rxbuflen_eq]
    decide
  rw [hchunk] at hprocess
  refine ⟨s, es, u, _, _, hs, hrun, hprocess, rfl, rfl, ?_⟩
  intro hsound
  obtain ⟨b, hb, hle, -⟩ := hsound _ rfl
  obtain rfl := Option.some.inj hb
  exact absurd hle (by decide)

end Vban
