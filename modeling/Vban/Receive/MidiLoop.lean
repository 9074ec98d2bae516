import Vban.Library.Outcome
import Vban.Receive.NetThread
import Vban.Ringbuffer.Operations

/-! The event loop of `vban_rx_handle_packet` while nobody reads its ring. -/
namespace Vban

open Library

variable {R : Type}

/-- A packet with MIDI for this receptor. -/
def VbanRxContext.AcceptsMidi (c : VbanRxContext R) (p : VBanPacket) : Prop :=
  p.header.vban = vbanHeaderFourc ∧ p.header.formatSR = 0x2E ∧
    (p.streamnameString = c.rxStreamnameString ∨ p.streamnameString = midi1)

/-- The packet is handled without a step of a reader, and whole events of its payload are appended
to the ring. -/
def MidiEnqueued (env : RxEnv R) (p : VBanPacket) (packetlen : Int) (c : VbanRxContext R)
    (ringbuffer : Ringbuffer) : Prop :=
  ∃ turns result ringbuffer' events,
    (∀ ipIn portIn, vbanRxHandlePacket env p packetlen c ipIn portIn (List.replicate turns 0) =
      .ok result) ∧
    result.context.ringbufferMidi = some ringbuffer' ∧
    ringbuffer'.contents = ringbuffer.contents ++ bytesAt p.data 0 (3 * events) ∧
    3 * events ≤ (packetlen - vbanHeaderSize).toNat

/-- The payload is made of whole events, with room for all of them. -/
def MidiFits (packetlen : Int) (ringbuffer : Ringbuffer) : Prop :=
  3 ∣ (packetlen - vbanHeaderSize).toNat ∧
    (packetlen - vbanHeaderSize).toNat ≤ ringbufferWriteSpace ringbuffer ∧
    (packetlen - vbanHeaderSize).toNat ≤ vbanDataMaxSize

variable {env : RxEnv R} {p : VBanPacket} {packetlen : Int} {c : VbanRxContext R}
  {rb rb' : Ringbuffer} {turns eventptr k : Nat}

theorem readAdvance_zero (h : rb.WellFormed) (n : Nat) :
    ringbufferReadAdvance rb (min 0 n) = rb := by
  have hsize := h.size_lt
  have hread := h.read_lt
  rw [Nat.zero_min, ringbufferReadAdvance, sizeAdd_of_lt (by omega), Nat.add_zero,
    Nat.mod_eq_of_lt hread]

theorem bytesAt_add {α : Type*} (mem : List α) (i m n : Nat) :
    bytesAt mem i (m + n) = bytesAt mem i m ++ bytesAt mem (i + m) n := by
  rw [bytesAt, List.take_add, List.drop_drop]
  rfl

/-- An event that fits is appended. -/
theorem write_event (h : rb.WellFormed) (hroom : 3 ≤ ringbufferWriteSpace rb)
    (hdata : eventptr + 3 ≤ vbanDataMaxSize) :
    (ringbufferWrite rb (bytesAt p.data eventptr 3) 3).2.WellFormed ∧
      ringbufferWriteSpace (ringbufferWrite rb (bytesAt p.data eventptr 3) 3).2 + 3 =
        ringbufferWriteSpace rb ∧
      (ringbufferWrite rb (bytesAt p.data eventptr 3) 3).2.contents =
        rb.contents ++ bytesAt p.data eventptr 3 := by
  have hlen : (bytesAt p.data eventptr 3).length = 3 :=
    length_bytesAt (by rw [p.length_data]; exact hdata)
  obtain ⟨-, hspec⟩ := ringbufferWrite_spec (bytesAt p.data eventptr 3) h hlen.ge
    (Nat.min_eq_left hroom).symm
  have hcontents := hspec.contents_eq
  rw [List.take_of_length_le hlen.le] at hcontents
  have hread := congrArg List.length hcontents
  rw [hspec.wellFormed.length_contents, List.length_append, h.length_contents, hlen] at hread
  have hspace := h.readSpace_add_writeSpace
  have hspace' := hspec.wellFormed.readSpace_add_writeSpace
  rw [hspec.size_eq] at hspace'
  exact ⟨hspec.wellFormed, by omega, hcontents⟩

/-- Where the loop ends without a reader, it went over the payload in whole events. -/
theorem midiLoop_events (h : rb.WellFormed)
    (hloop : midiLoop p packetlen (List.replicate turns 0) eventptr rb = .ok rb') :
    ∃ events, rb'.contents = rb.contents ++ bytesAt p.data eventptr (3 * events) ∧
      3 * events ≤ ringbufferWriteSpace rb ∧
      (events = 0 ∨ eventptr + 3 * events ≤ vbanDataMaxSize) ∧
      packetlen - vbanHeaderSize ≤ ((eventptr + 3 * events : Nat) : Int) := by
  induction turns generalizing eventptr rb with
  | zero =>
    rw [List.replicate_zero, midiLoop] at hloop
    split_ifs at hloop with hlt
    obtain rfl := Except.ok.inj hloop
    exact ⟨0, by simp [bytesAt], Nat.zero_le _, .inl rfl, by omega⟩
  | succ turns ih =>
    rw [List.replicate_succ, midiLoop] at hloop
    simp only [readAdvance_zero h] at hloop
    split_ifs at hloop with hlt hroom hdata
    · obtain ⟨hwell, hspace, hcontents⟩ := write_event (p := p) h hroom hdata
      obtain ⟨events, hevents, hfit, hinside, hend⟩ := ih hwell hloop
      refine ⟨events + 1, ?_, by omega, .inr (by omega), by omega⟩
      rw [hevents, hcontents, List.append_assoc, ← bytesAt_add]
      congr 2
      omega
    · exact ih h hloop
    · obtain rfl := Except.ok.inj hloop
      exact ⟨0, by simp [bytesAt], Nat.zero_le _, .inl rfl, by omega⟩

/-- Whole events with room for all of them are appended, one each turn. -/
theorem exists_midiLoop (h : rb.WellFormed) (hroom : 3 * k ≤ ringbufferWriteSpace rb)
    (hinside : eventptr + 3 * k ≤ vbanDataMaxSize)
    (hlen : (packetlen - vbanHeaderSize).toNat = eventptr + 3 * k) :
    ∃ rb', midiLoop p packetlen (List.replicate k 0) eventptr rb = .ok rb' ∧
      rb'.contents = rb.contents ++ bytesAt p.data eventptr (3 * k) := by
  induction k generalizing eventptr rb with
  | zero =>
    refine ⟨rb, ?_, by simp [bytesAt]⟩
    rw [List.replicate_zero, midiLoop, if_neg (by omega)]
  | succ k ih =>
    obtain ⟨hwell, hspace, hcontents⟩ :=
      write_event (p := p) h (by omega : 3 ≤ ringbufferWriteSpace rb)
        (by omega : eventptr + 3 ≤ vbanDataMaxSize)
    obtain ⟨rb', hloop, hcontents'⟩ := ih hwell (by omega) (by omega : eventptr + 3 + 3 * k ≤ _)
      (by omega)
    refine ⟨rb', ?_, ?_⟩
    · rw [List.replicate_succ, midiLoop, if_pos (by omega)]
      simp only [readAdvance_zero h]
      rw [if_pos (by omega), if_pos (by omega), hloop]
    · rw [hcontents', hcontents, List.append_assoc, ← bytesAt_add]
      congr 2
      omega

/-- Handling a packet with MIDI is the event loop. -/
theorem vbanRxHandlePacket_midi (haccepts : c.AcceptsMidi p) (hring : c.ringbufferMidi = some rb)
    (ipIn : UInt32) (portIn : UInt16) (taken : List Nat) :
    vbanRxHandlePacket env p packetlen c ipIn portIn taken =
      (midiLoop p packetlen taken 0 rb).bind fun rb =>
        .ok ⟨0, { c with ringbufferMidi := some rb }, [], none⟩ := by
  have hprotocol : p.protocol = vbanProtocolSerial := by
    rw [VBanPacket.protocol, haccepts.2.1]
    decide
  rw [vbanRxHandlePacket, hprotocol, if_neg (by decide), if_pos rfl, handleSerial,
    if_pos (show _ ∧ _ ∧ (_ ∨ _) from haccepts), hring]
  rfl

/-- What is enqueued without a reader was made of whole events, and fitted. -/
theorem MidiEnqueued.fits (haccepts : c.AcceptsMidi p) (hring : c.ringbufferMidi = some rb)
    (h : rb.WellFormed) (henqueued : MidiEnqueued env p packetlen c rb) :
    MidiFits packetlen rb := by
  obtain ⟨turns, result, rb', events, hhandle, hring', hcontents, hpayload⟩ := henqueued
  have hresult := hhandle 0 0
  rw [vbanRxHandlePacket_midi haccepts hring] at hresult
  obtain ⟨rb'', hloop, hresult⟩ := bind_eq_ok.mp hresult
  obtain rfl := Except.ok.inj hresult
  obtain rfl : rb'' = rb' := Option.some.inj hring'
  obtain ⟨events', hcontents', hroom, hinside, hend⟩ := midiLoop_events h hloop
  rw [Nat.zero_add] at hinside hend
  have hsame := congrArg List.length (List.append_cancel_left (hcontents.symm.trans hcontents'))
  have hdata : 3 * events' ≤ vbanDataMaxSize := by omega
  rw [length_bytesAt (by rw [p.length_data]; omega),
    length_bytesAt (by rw [p.length_data]; omega)] at hsame
  have hlen : (packetlen - vbanHeaderSize).toNat = 3 * events' := by omega
  rw [MidiFits, hlen]
  exact ⟨Nat.dvd_mul_right 3 events', hroom, hdata⟩

theorem MidiFits.enqueued (env : RxEnv R) (haccepts : c.AcceptsMidi p)
    (hring : c.ringbufferMidi = some rb) (h : rb.WellFormed) (hfits : MidiFits packetlen rb) :
    MidiEnqueued env p packetlen c rb := by
  obtain ⟨⟨k, hk⟩, hroom, hdata⟩ := hfits
  rw [hk] at hroom hdata
  obtain ⟨rb', hloop, hcontents⟩ := exists_midiLoop (p := p) h hroom
    (by omega : 0 + 3 * k ≤ _) (by omega : (packetlen - vbanHeaderSize).toNat = _)
  refine ⟨k, ⟨0, { c with ringbufferMidi := some rb' }, [], none⟩, rb', k, ?_, rfl, hcontents,
    hk.ge⟩
  intro ipIn portIn
  rw [vbanRxHandlePacket_midi haccepts hring, hloop]
  rfl

/-- Without a reader the events of a packet are enqueued exactly if they are whole and fit. -/
theorem midi_enqueued_iff (env : RxEnv R) (haccepts : c.AcceptsMidi p)
    (hring : c.ringbufferMidi = some rb) (h : rb.WellFormed) (packetlen : Int) :
    MidiEnqueued env p packetlen c rb ↔ MidiFits packetlen rb :=
  ⟨MidiEnqueued.fits haccepts hring h, MidiFits.enqueued env haccepts hring h⟩

/-- The ring that the receptors create. -/
def emptyMidiRing : Ringbuffer := ringbufferCreate 300 (List.replicate 300 0)

theorem emptyMidiRing_wellFormed : emptyMidiRing.WellFormed :=
  ringbufferCreate_wellFormed (by decide) (by decide) List.length_replicate

def midiContext : VbanRxContext Unit :=
  { VbanRxContext.start (.strncpy []) 0x0100007F 6980 with ringbufferMidi := some emptyMidiRing }

/-- A packet of MIDI under the name that every receptor takes. -/
def midiPacket (payload : List UInt8) : VBanPacket :=
  VBanPacket.zero.store 0 vbanProtocolMaxSize VBanPacket.whole_le
    ((⟨vbanHeaderFourc, 0x2E, 0, 0, 0, .strncpy midi1, 0⟩ : VBanHeader).toBytes ++ payload)

theorem midiContext_accepts : midiContext.AcceptsMidi (midiPacket [0x90, 0x3C, 0x64]) := by
  refine ⟨by decide +kernel, by decide +kernel, .inr (by decide +kernel)⟩

/-- One event is enqueued in one turn. -/
theorem midi_event_enqueued :
    MidiEnqueued silentEnv.toRxEnv (midiPacket [0x90, 0x3C, 0x64]) 31 midiContext emptyMidiRing :=
  (midi_enqueued_iff silentEnv.toRxEnv midiContext_accepts rfl emptyMidiRing_wellFormed 31).mpr
    ⟨by decide, by decide +kernel, by decide⟩

/-- Of one byte three are enqueued, and with a hundred events the loop does not end. -/
theorem midi_payloads_not_enqueued :
    ¬MidiEnqueued silentEnv.toRxEnv (midiPacket [0x90]) 29 midiContext emptyMidiRing ∧
      ¬MidiEnqueued silentEnv.toRxEnv (midiPacket [0x90]) 328 midiContext emptyMidiRing := by
  have haccepts : midiContext.AcceptsMidi (midiPacket [0x90]) := by
    refine ⟨by decide +kernel, by decide +kernel, .inr (by decide +kernel)⟩
  constructor
  · intro h
    exact absurd (h.fits haccepts rfl emptyMidiRing_wellFormed).1 (by decide)
  · intro h
    exact absurd (h.fits haccepts rfl emptyMidiRing_wellFormed).2.1 (by decide +kernel)

end Vban
