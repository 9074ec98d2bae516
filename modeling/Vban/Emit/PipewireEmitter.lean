import Vban.Emit.Emitter
import Vban.Library.Heap

/-! Who frees the buffer that `txbuf` of the PipeWire emitter points to. -/
namespace Vban

open Library

def pwEmitterDefaults : VbanTxContext := { emitterDefaults with nframes := 128, txNframes := 0 }

/-- The options of the PipeWire emitter. There is no slicing: `-e` is read and ignored. -/
def EmitterOption.applyPw (c : VbanTxContext) : EmitterOption → Option VbanTxContext
  | slicing _ => some c
  | opt => opt.apply c

/-- `main` up to the start of the backend. -/
def pwEmitterMain (found : UInt32) (opts : List EmitterOption) : Option VbanTxContext :=
  if opts.isEmpty then none
  else (opts.foldlM EmitterOption.applyPw pwEmitterDefaults).map fun c =>
    (c.scanReceptor found).createStream

inductive PwTxFault
  /-- `free` of what is no live allocation -/
  | badFree (p : Pointer Nat)
  /-- `memset` of a null pointer -/
  | nullWrite
  | divisionByZero
  /-- The packet loop does not return. -/
  | sending (s : Sending)

def PwTxFault.IsBadFree (e : PwTxFault) : Prop := ∃ p, e = badFree p

/-- The bytes of `context.txbuf` are those that the pointer `txbuf` leads to. -/
structure PwTxStream where
  context : VbanTxContext
  txbuf : Pointer Nat
  heap : Heap

/-- A buffer of PipeWire: its samples, if they are mapped, the channels of the negotiated format,
and the size of the chunk. -/
structure PwBuffer where
  id : Nat
  data : Option (List UInt8)
  channels : Nat
  size : Nat

/-- What a callback meets. `room` is whether `malloc` finds memory. -/
structure PwTxCallback where
  buffer : Option PwBuffer
  room : Bool
  refusals : Refusals

/-- `n_frames`. The samples and the channels have 16 bits. -/
def PwBuffer.nframes (c : VbanTxContext) (b : PwBuffer) : Except PwTxFault Nat :=
  if c.sampleSize = 0 ∨ b.channels % 2 ^ 16 = 0 then .error .divisionByZero
  else .ok (b.size / c.sampleSize % 2 ^ 16 / (b.channels % 2 ^ 16))

namespace PwTxStream

/-- `free(txbuf)`. The pointer stays as it is. -/
def freeTxbuf (s : PwTxStream) : Except PwTxFault PwTxStream :=
  match s.heap.free s.txbuf with
  | none => .error (.badFree s.txbuf)
  | some heap => .ok { s with heap }

def mallocTxbuf (room : Bool) (s : PwTxStream) : PwTxStream :=
  if room then { s with txbuf := .block s.heap.allocated, heap := s.heap.malloc }
  else { s with txbuf := .null }

/-- `tune_tx_packets` after its `malloc`. -/
def tunePackets (s : PwTxStream) : Except PwTxFault PwTxStream :=
  if s.txbuf = .null ∧ s.context.nframes * s.context.frameSize ≠ 0 then .error .nullWrite
  else match Vban.tuneTxPackets s.context with
    | none => .error .divisionByZero
    | some context => .ok { s with context }

def tuneTxPackets (room : Bool) (s : PwTxStream) : Except PwTxFault PwTxStream := do
  let s ← s.freeTxbuf
  (s.mallocTxbuf room).tunePackets

/-- The part of `on_tx_process` for a changed period. -/
def changePeriod (room : Bool) (nframes : Nat) (s : PwTxStream) : Except PwTxFault PwTxStream := do
  if nframes = s.context.nframes then return s
  let s ← { s with context := { s.context with nframes } }.tuneTxPackets room
  s.freeTxbuf

/-- `txbuf` becomes the buffer of PipeWire, and is sent. -/
def sendBuffer (refusals : Refusals) (id : Nat) (samples : List UInt8) (s : PwTxStream) :
    Except PwTxFault (List SentPacket × PwTxStream) :=
  let sending := vbanSendTxbuffer refusals { s.context with txbuf := samples }
  if sending.ending = .returned then
    .ok (sending.sent, { s with context := sending.context, txbuf := .foreign id })
  else .error (.sending sending)

/-- Without a buffer, or without its samples, nothing is done. -/
def onTxProcess (k : PwTxCallback) (s : PwTxStream) :
    Except PwTxFault (List SentPacket × PwTxStream) :=
  match k.buffer with
  | none => .ok ([], s)
  | some b =>
    match b.data with
    | none => .ok ([], s)
    | some samples => do
      let nframes ← b.nframes s.context
      let s ← s.changePeriod k.room nframes
      s.sendBuffer k.refusals b.id samples

end PwTxStream

/-- The end of `pw_init_tx_stream`. -/
def pwInitTxStream (room : Bool) (c : VbanTxContext) : Except PwTxFault PwTxStream := do
  let s ← PwTxStream.tuneTxPackets room ⟨c, .null, .empty⟩
  s.freeTxbuf

/-- The start of the stream and its callbacks. -/
def pwRunTxStream (room : Bool) (c : VbanTxContext) (ks : List PwTxCallback) :
    Except PwTxFault PwTxStream := do
  let s ← pwInitTxStream room c
  ks.foldlM (fun s k => do return (← s.onTxProcess k).2) s

/-- The callback comes with samples of so many frames. -/
def PwTxCallback.Brings (c : VbanTxContext) (nframes : Nat) (k : PwTxCallback) : Prop :=
  ∃ b samples, k.buffer = some b ∧ b.data = some samples ∧ b.nframes c = .ok nframes

/-- What the callback brings has the period of the context, unless `txbuf` is null. -/
def PwTxCallback.KeepsPeriod (s : PwTxStream) (k : PwTxCallback) : Prop :=
  s.txbuf = .null ∨ ∀ nframes, k.Brings s.context nframes → nframes = s.context.nframes

namespace PwTxStream

variable {s t : PwTxStream} {k : PwTxCallback} {room : Bool} {c : VbanTxContext}
  {ks : List PwTxCallback} {nframes : Nat} {refusals : Refusals} {id : Nat}
  {samples : List UInt8} {r : List SentPacket × PwTxStream}

def owner (s : PwTxStream) : Ownership := s.heap.ownership s.txbuf

/-- Between two calls the emitter owns no buffer. -/
def Disowned (s : PwTxStream) : Prop := s.owner ≠ .owned

theorem owner_eq_null_iff : s.owner = .null ↔ s.txbuf = .null := by
  rw [owner]
  cases htxbuf : s.txbuf with
  | null => simp [Heap.ownership]
  | block i =>
    rw [Heap.ownership]
    split_ifs <;> simp
  | foreign b => simp [Heap.ownership]

theorem freeTxbuf_cases (s : PwTxStream) :
    (s.freeTxbuf = .error (.badFree s.txbuf) ∧ (s.owner = .freed ∨ s.owner = .borrowed)) ∨
      ∃ heap, s.freeTxbuf = .ok { s with heap } ∧ s.heap.free s.txbuf = some heap := by
  rw [freeTxbuf]
  cases hfree : s.heap.free s.txbuf with
  | none => exact Or.inl ⟨rfl, Heap.free_eq_none_iff.mp hfree⟩
  | some heap => exact Or.inr ⟨heap, rfl, rfl⟩

/-- Only what the emitter owns, or null, is freed well. -/
theorem avoids_freeTxbuf :
    Avoids PwTxFault.IsBadFree s.freeTxbuf ↔ s.owner = .null ∨ s.owner = .owned := by
  rcases s.freeTxbuf_cases with ⟨herror, howner⟩ | ⟨heap, hok, hfree⟩
  · rw [herror, avoids_error]
    rcases howner with howner | howner <;> simp [howner, PwTxFault.IsBadFree]
  · rw [hok]
    rcases Heap.ownership_of_free hfree with ⟨hnull, -⟩ | ⟨howned, -⟩
    · simp [owner, hnull]
    · simp [owner, howned]

/-- After a `free` the buffer is no longer owned. -/
theorem disowned_freeTxbuf (h : s.freeTxbuf = .ok t) : t.Disowned := by
  rcases s.freeTxbuf_cases with ⟨herror, -⟩ | ⟨heap, hok, hfree⟩
  · rw [herror] at h
    cases h
  · rw [hok] at h
    obtain rfl := Except.ok.inj h
    rcases Heap.ownership_of_free hfree with ⟨-, hnull⟩ | ⟨-, hfreed⟩
    · simp [Disowned, owner, hnull]
    · simp [Disowned, owner, hfreed]

theorem owner_mallocTxbuf : (s.mallocTxbuf room).owner = .null ∨
    (s.mallocTxbuf room).owner = .owned := by
  cases room with
  | false => exact Or.inl rfl
  | true => exact Or.inr s.heap.ownership_malloc

theorem avoids_tunePackets : Avoids PwTxFault.IsBadFree s.tunePackets := by
  rw [tunePackets]
  split_ifs
  · simp [PwTxFault.IsBadFree]
  · cases Vban.tuneTxPackets s.context with
    | none => simp [PwTxFault.IsBadFree]
    | some context => simp

theorem owner_tunePackets (h : s.tunePackets = .ok t) : t.owner = s.owner := by
  rw [tunePackets] at h
  split_ifs at h
  cases hcontext : Vban.tuneTxPackets s.context with
  | none =>
    rw [hcontext] at h
    cases h
  | some context =>
    rw [hcontext] at h
    obtain rfl := Except.ok.inj h
    rfl

/-- A tuning frees what `txbuf` points to. -/
theorem avoids_tuneTxPackets : Avoids PwTxFault.IsBadFree (s.tuneTxPackets room) ↔
    s.owner = .null ∨ s.owner = .owned := by
  rw [tuneTxPackets, avoids_bind, avoids_freeTxbuf]
  exact and_iff_left fun _ _ => avoids_tunePackets

/-- The buffer of a tuning can be freed. -/
theorem owner_tuneTxPackets (h : s.tuneTxPackets room = .ok t) :
    t.owner = .null ∨ t.owner = .owned := by
  obtain ⟨u, -, htune⟩ := bind_eq_ok.mp h
  rw [owner_tunePackets htune]
  exact owner_mallocTxbuf

/-- A disowned buffer is only tuned well where there is none. -/
theorem avoids_changePeriod (hs : s.Disowned) :
    Avoids PwTxFault.IsBadFree (s.changePeriod room nframes) ↔
      s.txbuf = .null ∨ nframes = s.context.nframes := by
  rw [changePeriod]
  by_cases hnframes : nframes = s.context.nframes
  · rw [if_pos hnframes]
    simp [hnframes]
  · rw [if_neg hnframes, or_iff_left hnframes, ← owner_eq_null_iff]
    rw [avoids_bind, avoids_tuneTxPackets]
    constructor
    · rintro ⟨hnull | howned, -⟩
      · exact hnull
      · exact absurd howned hs
    · intro hnull
      exact ⟨Or.inl hnull, fun t ht => avoids_freeTxbuf.mpr (owner_tuneTxPackets ht)⟩

theorem avoids_sendBuffer : Avoids PwTxFault.IsBadFree (s.sendBuffer refusals id samples) := by
  rw [sendBuffer]
  split_ifs
  · exact avoids_ok
  · simp [PwTxFault.IsBadFree]

theorem owner_sendBuffer (h : s.sendBuffer refusals id samples = .ok r) :
    r.2.owner = .borrowed := by
  rw [sendBuffer] at h
  split_ifs at h
  obtain rfl := Except.ok.inj h
  rfl

theorem avoids_nframes {b : PwBuffer} : Avoids PwTxFault.IsBadFree (b.nframes c) := by
  rw [PwBuffer.nframes]
  split_ifs
  · simp [PwTxFault.IsBadFree]
  · exact avoids_ok

/-- A callback frees well what it frees, exactly if it keeps the period. -/
theorem avoids_onTxProcess (hs : s.Disowned) :
    Avoids PwTxFault.IsBadFree (s.onTxProcess k) ↔ k.KeepsPeriod s := by
  rw [onTxProcess]
  cases hbuffer : k.buffer with
  | none => simp [PwTxCallback.KeepsPeriod, PwTxCallback.Brings, hbuffer]
  | some b =>
    cases hdata : b.data with
    | none => simp [PwTxCallback.KeepsPeriod, PwTxCallback.Brings, hbuffer, hdata]
    | some samples =>
      have hbrings (nframes : Nat) :
          k.Brings s.context nframes ↔ b.nframes s.context = .ok nframes := by
        simp [PwTxCallback.Brings, hbuffer, hdata]
      have hchange (nframes : Nat) : Avoids PwTxFault.IsBadFree (do
            let s ← s.changePeriod k.room nframes
            s.sendBuffer k.refusals b.id samples) ↔
          s.txbuf = .null ∨ nframes = s.context.nframes := by
        rw [avoids_bind, avoids_changePeriod hs]
        exact and_iff_left fun _ _ => avoids_sendBuffer
      simp only [hdata]
      rw [avoids_bind, and_iff_right avoids_nframes, PwTxCallback.KeepsPeriod]
      simp only [hchange, hbrings]
      constructor
      · intro h
        by_cases hnull : s.txbuf = .null
        · exact Or.inl hnull
        · exact Or.inr fun nframes hnframes => (h nframes hnframes).resolve_left hnull
      · rintro (hnull | hkeeps) nframes hnframes
        · exact Or.inl hnull
        · exact Or.inr (hkeeps nframes hnframes)

/-- After a callback the buffer is PipeWire's, or the one before. -/
theorem disowned_onTxProcess (hs : s.Disowned) (h : s.onTxProcess k = .ok r) : r.2.Disowned := by
  rw [onTxProcess] at h
  cases hbuffer : k.buffer with
  | none =>
    rw [hbuffer] at h
    obtain rfl := Except.ok.inj h
    exact hs
  | some b =>
    simp only [hbuffer] at h
    cases hdata : b.data with
    | none =>
      rw [hdata] at h
      obtain rfl := Except.ok.inj h
      exact hs
    | some samples =>
      simp only [hdata] at h
      obtain ⟨nframes, -, h⟩ := bind_eq_ok.mp h
      obtain ⟨u, -, h⟩ := bind_eq_ok.mp h
      rw [Disowned, owner_sendBuffer h]
      decide

/-- The start frees its own buffer. -/
theorem avoids_pwInitTxStream : Avoids PwTxFault.IsBadFree (pwInitTxStream room c) := by
  rw [pwInitTxStream, avoids_bind]
  exact ⟨avoids_tuneTxPackets.mpr (Or.inl rfl),
    fun s hs => avoids_freeTxbuf.mpr (owner_tuneTxPackets hs)⟩

theorem disowned_pwInitTxStream (h : pwInitTxStream room c = .ok s) : s.Disowned := by
  obtain ⟨u, -, hfree⟩ := bind_eq_ok.mp h
  exact disowned_freeTxbuf hfree

end PwTxStream

open PwTxStream

variable {room : Bool} {c : VbanTxContext} {k : PwTxCallback} {ks : List PwTxCallback}
  {s t : PwTxStream}

/-- No run leaves a buffer that the emitter owns. -/
theorem disowned_pwRunTxStream (h : pwRunTxStream room c ks = .ok t) : t.Disowned := by
  obtain ⟨s, hs, hks⟩ := bind_eq_ok.mp h
  replace hs := disowned_pwInitTxStream hs
  clear h
  induction ks generalizing s with
  | nil =>
    obtain rfl := Except.ok.inj hks
    exact hs
  | cons k ks ih =>
    rw [List.foldlM_cons] at hks
    obtain ⟨u, hu, hks⟩ := bind_eq_ok.mp hks
    obtain ⟨r, hr, hrest⟩ := bind_eq_ok.mp hu
    obtain rfl := Except.ok.inj hrest
    exact ih _ hks (disowned_onTxProcess hs hr)

/-- In a run every `free` is of a live allocation of the emitter, exactly if every callback keeps
the period that it finds. -/
theorem pw_frees_owned_iff (room : Bool) (c : VbanTxContext) (ks : List PwTxCallback) :
    Avoids PwTxFault.IsBadFree (pwRunTxStream room c ks) ↔
      ∀ earlier k later s, ks = earlier ++ k :: later → pwRunTxStream room c earlier = .ok s →
        k.KeepsPeriod s := by
  rw [pwRunTxStream, avoids_bind_foldlM, and_iff_right avoids_pwInitTxStream]
  apply forall₄_congr
  intro earlier k later s
  apply forall₂_congr
  intro _ hs
  rw [avoids_bind, avoids_onTxProcess (disowned_pwRunTxStream hs)]
  exact and_iff_left fun _ _ => avoids_pure

/-- A period of two channels of silence. -/
def silentPeriod (nframes : Nat) : PwTxCallback :=
  ⟨some ⟨0, some (List.replicate (8 * nframes) 0), 2, 8 * nframes⟩, true, fun _ _ => 0⟩

/-- The options `-i 127.0.0.1 -s A -q 4`. -/
def plainOptions : List EmitterOption :=
  [.ipaddr 9 0x0100007F, .streamname (.strncpy [0x41]), .bufsize 4]

/-- A shorter period frees the first buffer again, and after a full period it frees the buffer of
PipeWire. -/
theorem pw_frees_foreign :
    ∃ c, pwEmitterMain 0 plainOptions = some c ∧
      pwRunTxStream true c [silentPeriod 2] = .error (.badFree (.block 0)) ∧
      pwRunTxStream true c [silentPeriod 4, silentPeriod 2] = .error (.badFree (.foreign 0)) := by
  obtain ⟨c, hc⟩ : ∃ c, pwEmitterMain 0 plainOptions = some c := ⟨_, rfl⟩
  have htune : tuneTxPackets c = some (c.applySplit c.periodSplit) := by
    have hfits : c.periodSplit.Fits c.maxPacketFrames := by
      obtain rfl := Option.some.inj hc
      decide
    have hslicing : c.slicing = false := by
      obtain rfl := Option.some.inj hc
      rfl
    rw [tuneTxPackets, halvePackets, if_pos hfits]
    exact if_neg (by simp [VbanTxContext.applySplit, hslicing])
  have hinit : pwInitTxStream true c =
      .ok ⟨c.applySplit c.periodSplit, .block 0, Heap.empty.malloc.release 0 (by decide)⟩ := by
    rw [pwInitTxStream, PwTxStream.tuneTxPackets]
    change (PwTxStream.tunePackets ⟨c, .block 0, Heap.empty.malloc⟩ >>= _) = _
    rw [PwTxStream.tunePackets, if_neg (by simp), htune]
    rfl
  refine ⟨c, hc, ?_, ?_⟩
  · rw [pwRunTxStream, hinit]
    obtain rfl := Option.some.inj hc
    rfl
  · rw [pwRunTxStream, hinit]
    obtain rfl := Option.some.inj hc
    rfl

end Vban
