import Vban.Emit.Describe
import Vban.Emit.PipewireEmitter

/-! When the packets of the PipeWire emitter declare their own length. -/
namespace Vban

open Library

/-- What a callback sends, also where its packet loop does not return. -/
def pwSent : Except PwTxFault (List SentPacket × PwTxStream) → List SentPacket
  | .ok (sent, _) => sent
  | .error (.sending s) => s.sent
  | .error _ => []

def PwTxFault.IsSending (e : PwTxFault) : Prop := ∃ s, e = sending s

/-- A run of the PipeWire emitter up to a callback, with no more channels than a header has. -/
structure PwEmitterRun where
  opts : List EmitterOption
  found : UInt32
  o : VbanTxContext
  room : Bool
  earlier : List PwTxCallback
  stream : PwTxStream
  last : PwTxCallback
  nframes : Nat
  main_eq : pwEmitterMain found opts = some o
  channels_le : o.nbinputs ≤ 256
  run_eq : pwRunTxStream room o earlier = .ok stream
  brings : last.Brings stream.context nframes

def PwEmitterRun.sent (r : PwEmitterRun) : List SentPacket := pwSent (r.stream.onTxProcess r.last)

variable {opts : List EmitterOption} {found : UInt32} {o c : VbanTxContext} {s t : PwTxStream}
  {room : Bool} {nframes : Nat} {k : PwTxCallback} {ks : List PwTxCallback} {p : SentPacket}

theorem mem_pwSent_bind {α : Type} {x : Except PwTxFault α}
    {f : α → Except PwTxFault (List SentPacket × PwTxStream)} (hx : Avoids PwTxFault.IsSending x)
    (hp : p ∈ pwSent (x >>= f)) : ∃ a, x = .ok a ∧ p ∈ pwSent (f a) := by
  cases x with
  | ok a => exact ⟨a, rfl, hp⟩
  | error e =>
    cases e with
    | sending s => exact absurd ⟨s, rfl⟩ (hx _ rfl)
    | badFree | nullWrite | divisionByZero => exact absurd hp List.not_mem_nil

/-- What every option of the PipeWire emitter keeps. -/
structure PwSound (c : VbanTxContext) : Prop where
  sound : c.Sound
  slicing_eq : c.slicing = false
  nframes_lt : c.nframes < 2 ^ 16

/-- Only one option sets the period, in 16 bits, and only one sets the slicing. -/
theorem EmitterOption.apply_period {opt : EmitterOption} {d : VbanTxContext}
    (hopt : ∀ on, opt ≠ slicing on) (h : opt.apply c = some d) :
    d.slicing = c.slicing ∧ (d.nframes = c.nframes ∨ d.nframes < 2 ^ 16) := by
  cases opt with
  | slicing on => exact absurd rfl (hopt on)
  | bufsize n => exact Option.some.inj h ▸ ⟨rfl, .inr (uintOfInt_lt 16 n)⟩
  | ipaddr length addr =>
    rw [apply] at h
    split_ifs at h <;> exact Option.some.inj h ▸ ⟨rfl, .inl rfl⟩
  | extended passport => cases passport <;> exact Option.some.inj h ▸ ⟨rfl, .inl rfl⟩
  | help => cases h
  | port | streamname | samplerate | nbchannels | redundancy | format | other =>
    exact Option.some.inj h ▸ ⟨rfl, .inl rfl⟩

theorem EmitterOption.applyPw_sound {opt : EmitterOption} {d : VbanTxContext} (hc : PwSound c)
    (h : opt.applyPw c = some d) : PwSound d := by
  by_cases hopt : ∃ on, opt = slicing on
  · obtain ⟨on, rfl⟩ := hopt
    exact Option.some.inj h ▸ hc
  · have hne : ∀ on, opt ≠ slicing on := fun on heq => hopt ⟨on, heq⟩
    rw [applyPw.eq_2 c opt hne] at h
    obtain ⟨hslicing, hnframes⟩ := apply_period hne h
    refine ⟨apply_sound hc.sound h, hslicing.trans hc.slicing_eq, ?_⟩
    rcases hnframes with heq | hlt
    · exact heq.trans_lt hc.nframes_lt
    · exact hlt

/-- What `main` makes of any options: a stream without slicing. -/
theorem pwEmitterMain_created (h : pwEmitterMain found opts = some o) :
    o.Created ∧ o.slicing = false ∧ o.nframes < 2 ^ 16 := by
  rw [pwEmitterMain] at h
  split_ifs at h
  obtain ⟨c, hc, rfl⟩ := Option.map_eq_some_iff.mp h
  have hsound : PwSound c := foldlM_invariant hc
    (fun _ _ _ hs ht => EmitterOption.applyPw_sound hs ht)
    ⟨⟨by decide, .inl rfl, List.length_replicate⟩, rfl, by decide⟩
  have hscan : PwSound (c.scanReceptor found) := by
    rw [VbanTxContext.scanReceptor]
    split_ifs
    · exact ⟨⟨hsound.sound.1, hsound.sound.2, hsound.sound.3⟩, hsound.slicing_eq,
        hsound.nframes_lt⟩
    · exact hsound
  exact ⟨⟨rfl, rfl, rfl, hscan.sound.1, hscan.sound.2, hscan.sound.3, rfl⟩, hscan.slicing_eq,
    hscan.nframes_lt⟩

namespace PwTxStream

/-- What holds between two callbacks. -/
structure Inv (o : VbanTxContext) (s : PwTxStream) : Prop where
  stream : SameStream o s.context
  slicing_eq : s.context.slicing = false
  split : s.context.SplitAs false

theorem freeTxbuf_context (h : s.freeTxbuf = .ok t) : t.context = s.context := by
  rcases s.freeTxbuf_cases with ⟨herror, -⟩ | ⟨heap, hok, -⟩
  · rw [herror] at h
    cases h
  · rw [hok] at h
    obtain rfl := Except.ok.inj h
    rfl

theorem mallocTxbuf_context : (s.mallocTxbuf room).context = s.context := by
  rw [mallocTxbuf]
  split_ifs <;> rfl

/-- Tuning a stream without slicing. -/
theorem tuneTxPackets_inv (hs : SameStream o s.context) (hslicing : s.context.slicing = false)
    (hn : s.context.nframes < 2 ^ 16) (h : s.tuneTxPackets room = .ok t) :
    t.Inv o ∧ t.context.nframes = s.context.nframes := by
  obtain ⟨u, hu, htune⟩ := bind_eq_ok.mp h
  have hcontext : (u.mallocTxbuf room).context = s.context :=
    mallocTxbuf_context.trans (freeTxbuf_context hu)
  rw [tunePackets, hcontext] at htune
  split_ifs at htune
  cases hv : Vban.tuneTxPackets s.context with
  | none =>
    rw [hv] at htune
    cases htune
  | some context =>
    rw [hv] at htune
    obtain rfl := Except.ok.inj htune
    obtain ⟨k, hspec, hsplit⟩ := tuneTxPackets_splits hn hv
    rw [hslicing] at hsplit
    refine ⟨⟨hs.trans hspec.sameStream, ?_, hsplit⟩, hspec.nframes_eq⟩
    exact hspec.slicing_eq.trans (by rw [hslicing, Bool.false_and])

theorem changePeriod_inv (hs : s.Inv o) (hn : nframes < 2 ^ 16)
    (h : s.changePeriod room nframes = .ok t) : t.Inv o ∧ t.context.nframes = nframes := by
  rw [changePeriod] at h
  split_ifs at h with hsame
  · obtain rfl := Except.ok.inj h
    exact ⟨hs, hsame.symm⟩
  · obtain ⟨u, hu, hfree⟩ := bind_eq_ok.mp h
    have hstream : SameStream o { s.context with nframes } :=
      hs.stream.trans (.update s.context _ _ _ _ _ _)
    obtain ⟨hinv, hnframes⟩ := tuneTxPackets_inv
      (s := { s with context := { s.context with nframes } }) hstream hs.slicing_eq hn hu
    have hcontext := freeTxbuf_context hfree
    exact ⟨⟨hcontext ▸ hinv.stream, hcontext ▸ hinv.slicing_eq, hcontext ▸ hinv.split⟩,
      hcontext ▸ hnframes⟩

/-- What a packet loop keeps, and sends. -/
theorem sendBuffer_inv (ho : o.Created) (hs : s.Inv o) (refusals : Refusals) (id : Nat)
    (samples : List UInt8) :
    (∀ sent t, s.sendBuffer refusals id samples = .ok (sent, t) → t.Inv o) ∧
      ∀ p ∈ pwSent (s.sendBuffer refusals id samples), ∃ i audio,
        p.header = s.context.header.advance i ∧ audio.length = s.context.pacdatalen ∧
          p.payload = audio ++ o.xbytes.toList.take o.passportLength := by
  have hkeeps := vbanSendTxbuffer_keeps (c := { s.context with txbuf := samples }) refusals
    (hs.stream.xlen_eq ▸ ho.xlen_eq)
  have hpassport : VbanTxContext.passportLength { s.context with txbuf := samples } =
      o.passportLength := hs.stream.passportLength_eq
  have hxbytes : s.context.xbytes = o.xbytes := hs.stream.xbytes_eq
  rw [hpassport, hxbytes] at hkeeps
  have hsent : ∀ p ∈ (vbanSendTxbuffer refusals { s.context with txbuf := samples }).sent,
      ∃ i audio, p.header = s.context.header.advance i ∧ audio.length = s.context.pacdatalen ∧
        p.payload = audio ++ o.xbytes.toList.take o.passportLength := hkeeps.sent
  rw [sendBuffer]
  dsimp only
  split_ifs
  · refine ⟨?_, hsent⟩
    rintro sent t h
    obtain ⟨-, rfl⟩ := Prod.mk.inj (Except.ok.inj h)
    obtain ⟨data, n, hcontext⟩ := hkeeps.context
    refine ⟨hs.stream.trans ?_, ?_, hkeeps.splitAs hs.split⟩
    · exact (SameStream.update s.context _ _ _ _ _ _).trans hkeeps.sameStream
    · exact hcontext ▸ hs.slicing_eq
  · refine ⟨?_, hsent⟩
    rintro sent t h
    cases h

/-- A callback without samples does nothing, any other one sends a period of what it brings. -/
theorem onTxProcess_cases (s : PwTxStream) (k : PwTxCallback) :
    s.onTxProcess k = .ok ([], s) ∨ ∃ b samples, k.buffer = some b ∧ b.data = some samples ∧
      s.onTxProcess k = (do
        let nframes ← b.nframes s.context
        let t ← s.changePeriod k.room nframes
        t.sendBuffer k.refusals b.id samples) := by
  rw [onTxProcess]
  cases hbuffer : k.buffer with
  | none => exact .inl rfl
  | some b =>
    cases hdata : b.data with
    | none => exact .inl (by simp only [hdata])
    | some samples => exact .inr ⟨b, samples, rfl, hdata, by simp only [hdata]⟩

theorem avoids_sending_freeTxbuf : Avoids PwTxFault.IsSending s.freeTxbuf := by
  rcases s.freeTxbuf_cases with ⟨herror, -⟩ | ⟨heap, hok, -⟩
  · rw [herror]
    simp [PwTxFault.IsSending]
  · rw [hok]
    exact avoids_ok

/-- Only the packet loop does not return. -/
theorem avoids_sending_changePeriod :
    Avoids PwTxFault.IsSending (s.changePeriod room nframes) := by
  rw [changePeriod]
  split_ifs
  · exact avoids_ok
  · refine avoids_bind.mpr ⟨avoids_bind.mpr ⟨avoids_sending_freeTxbuf, fun u _ => ?_⟩,
      fun u _ => avoids_sending_freeTxbuf⟩
    rw [tunePackets]
    split_ifs
    · simp [PwTxFault.IsSending]
    · cases Vban.tuneTxPackets (u.mallocTxbuf room).context with
      | none => simp [PwTxFault.IsSending]
      | some context => exact avoids_ok

theorem nframes_lt {b : PwBuffer} (h : b.nframes c = .ok nframes) : nframes < 2 ^ 16 := by
  rw [PwBuffer.nframes] at h
  split_ifs at h
  obtain rfl := Except.ok.inj h
  exact (Nat.div_le_self _ _).trans_lt (Nat.mod_lt _ (by decide))

/-- A callback keeps the stream, and what it sends is a part of the period that it brings. -/
theorem onTxProcess_inv (ho : o.Created) (hs : s.Inv o) (k : PwTxCallback) :
    (∀ sent t, s.onTxProcess k = .ok (sent, t) → t.Inv o) ∧
      ∀ p ∈ pwSent (s.onTxProcess k), ∃ c i audio, SameStream o c ∧ c.SplitAs false ∧
        k.Brings s.context c.nframes ∧ p.header = c.header.advance i ∧
          audio.length = c.pacdatalen ∧
            p.payload = audio ++ o.xbytes.toList.take o.passportLength := by
  rcases s.onTxProcess_cases k with h | ⟨b, samples, hbuffer, hdata, h⟩
  · rw [h]
    constructor
    · rintro sent t hok
      obtain ⟨-, rfl⟩ := Prod.mk.inj (Except.ok.inj hok)
      exact hs
    · rintro p hp
      cases hp
  · rw [h]
    have hframes : Avoids PwTxFault.IsSending (b.nframes s.context) := by
      rw [PwBuffer.nframes]
      split_ifs
      · simp [PwTxFault.IsSending]
      · exact avoids_ok
    constructor
    · rintro sent t hok
      obtain ⟨nframes, hn, hok⟩ := bind_eq_ok.mp hok
      obtain ⟨u, hu, hok⟩ := bind_eq_ok.mp hok
      exact (sendBuffer_inv ho (changePeriod_inv hs (nframes_lt hn) hu).1 _ _ _).1 _ _ hok
    · rintro p hp
      obtain ⟨nframes, hn, hp⟩ := mem_pwSent_bind hframes hp
      obtain ⟨u, hu, hp⟩ := mem_pwSent_bind avoids_sending_changePeriod hp
      obtain ⟨hinv, hnframes⟩ := changePeriod_inv hs (nframes_lt hn) hu
      obtain ⟨i, audio, hheader, hlen, hpayload⟩ := (sendBuffer_inv ho hinv _ _ _).2 p hp
      refine ⟨u.context, i, audio, hinv.stream, hinv.split, ?_, hheader, hlen, hpayload⟩
      exact ⟨b, samples, hbuffer, hdata, hnframes.symm ▸ hn⟩

end PwTxStream

open PwTxStream

theorem pwRunTxStream_inv (ho : o.Created) (hslicing : o.slicing = false)
    (hn : o.nframes < 2 ^ 16) (h : pwRunTxStream room o ks = .ok s) : s.Inv o := by
  obtain ⟨t, ht, hks⟩ := bind_eq_ok.mp h
  obtain ⟨u, hu, hfree⟩ := bind_eq_ok.mp ht
  have hinv := (tuneTxPackets_inv (s := ⟨o, .null, .empty⟩)
    (.update o o.txbuf o.data o.header.nuFrame o.slicing o.nframes o.txdataInd) hslicing hn hu).1
  have hcontext := freeTxbuf_context hfree
  replace ht : t.Inv o :=
    ⟨hcontext ▸ hinv.stream, hcontext ▸ hinv.slicing_eq, hcontext ▸ hinv.split⟩
  clear h hfree hcontext
  induction ks generalizing t with
  | nil =>
    obtain rfl := Except.ok.inj hks
    exact ht
  | cons k ks ih =>
    rw [List.foldlM_cons] at hks
    obtain ⟨v, hv, hks⟩ := bind_eq_ok.mp hks
    obtain ⟨⟨sent, w⟩, hw, hrest⟩ := bind_eq_ok.mp hv
    obtain rfl : w = v := Except.ok.inj hrest
    exact ih w hks ((onTxProcess_inv ho ht k).1 sent w hw)

variable (r : PwEmitterRun)

theorem PwEmitterRun.created : r.o.Created := (pwEmitterMain_created r.main_eq).1

/-- A packet is a part of the period that the callback brings, under the header of the stream. -/
theorem PwEmitterRun.carries : ∀ p ∈ r.sent, ∃ c i audio, SameStream r.o c ∧ c.SplitAs false ∧
    c.nframes = r.nframes ∧ p.header = c.header.advance i ∧ audio.length = c.pacdatalen ∧
      p.payload = audio ++ r.o.xbytes.toList.take r.o.passportLength := by
  intro p hp
  obtain ⟨ho, hslicing, hn⟩ := pwEmitterMain_created r.main_eq
  have hinv := pwRunTxStream_inv ho hslicing hn r.run_eq
  obtain ⟨c, i, audio, hc, hsplit, hbrings, hheader, hlen, hpayload⟩ :=
    (onTxProcess_inv ho hinv r.last).2 p hp
  refine ⟨c, i, audio, hc, hsplit, ?_, hheader, hlen, hpayload⟩
  obtain ⟨b, samples, hbuffer, -, hb⟩ := hbrings
  obtain ⟨b', samples', hbuffer', -, hb'⟩ := r.brings
  obtain rfl := Option.some.inj (hbuffer.symm.trans hbuffer')
  exact Except.ok.inj (hb.symm.trans hb')

/-- A packet without a passport is audio, and declares its own length exactly if the period fills
its packets. -/
theorem PwEmitterRun.packet_spec (hpass : r.o.passportLength = 0) (hp : p ∈ r.sent) :
    p.header.vban = vbanHeaderFourc ∧
      p.header.formatSR &&& vbanProtocolMask = vbanProtocolAudio ∧
      p.payload.length ≤ vbanDataMaxSize ∧
      (p.payload.length = p.header.datalen ↔ 1 ≤ r.o.nbinputs ∧
        FillsPackets (packetLimit false r.o.samplerate) r.nframes r.o.frameSize) := by
  obtain ⟨c, i, audio, hc, hsplit, hnframes, hheader, hlen, hpayload⟩ := r.carries p hp
  have hpaylen : p.payload.length = c.pacdatalen + 0 := by
    rw [hpayload, hpass, List.take_zero, List.append_nil, hlen, Nat.add_zero]
  replace hc : SameStream { r.o with samplerate := r.o.samplerate } c := hc
  obtain ⟨hvban, haudio⟩ := audio_of_stream r.created hc hheader
  have hdatalen := datalen_of_stream r.created hc hheader
  have hdeclares :=
    declares_iff_of_le r.created r.channels_le hc hsplit hheader hpaylen (Nat.zero_le 6)
  rw [hnframes, and_iff_right rfl] at hdeclares
  refine ⟨hvban, haudio, ?_, ?_⟩
  · rw [hpaylen]
    exact SplitAs.pacdatalen_le hsplit
  · rw [hdatalen, eq_comm]
    exact hdeclares

end Vban
