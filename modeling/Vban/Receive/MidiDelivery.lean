import Vban.Emit.Midi
import Vban.Library.Arithmetic
import Vban.Receive.Handed
import Vban.Receive.ThreadBounds

/-! MIDI events from the JACK emitter to a bound receptor. -/
namespace Vban

open Library

/-- `memset` of the first `count` bytes. `none` is a length that the memory does not have. -/
def clearFirst (mem : List UInt8) (count : Nat) : Option (List UInt8) :=
  if count ≤ mem.length then some (overwrite mem 0 (List.replicate count 0)) else none

/-- `midipaclen - VBAN_HEADER_SIZE`, an `int` that becomes a length. -/
def midiClearLength (midipaclen : UInt16) : Nat :=
  sizeOfInt ((midipaclen.toNat : Int) - vbanHeaderSize)

/-- The part of `on_tx_process` for the events, with the call of `memset`. `midipaclen` is still 0
there. -/
def TxMidi.build (nframes : Nat) (events : List MidiEvent) (c : TxMidi) :
    Option (Option MidiOutput × TxMidi) :=
  if events.isEmpty then some (none, c)
  else do
    let data ← clearFirst c.data (midiClearLength 0)
    { c with data }.process nframes events

variable {R : Type}

/-- The datagram of the period makes the receptor append the bytes of the events, while nobody
reads the ring. -/
def MidiDelivered (env : RxEnv R) (s : RxThread R) (ringbuffer : Ringbuffer)
    (addr : UInt32 × UInt16) (c : TxMidi) (nframes : Nat) (events : List MidiEvent) : Prop :=
  ∀ output d ts, c.process nframes events = some (some output, d) →
    ∃ t ringbuffer', s.receive env (.datagram
        (output.packet.header.toBytes ++ output.packet.payload) (some addr) ts
        (List.replicate events.length 0)) = .ok t ∧
      t.context.ringbufferMidi = some ringbuffer' ∧
      ringbuffer'.contents = ringbuffer.contents ++ events.flatMap fun event => event.bytes.toList

variable {env : RxEnv R} {s : RxThread R} {ringbuffer : Ringbuffer} {addr : UInt32 × UInt16}
  {c : TxMidi} {nframes midipaclen : Nat} {events : List MidiEvent} {data : List UInt8}
  {name : StreamName} {os : List (Option MidiOutput)}

/-- Events that fit are packed. -/
theorem exists_packEvents (hfit : midipaclen + 3 * events.length ≤ vbanDataMaxSize) :
    ∃ packed, packEvents nframes events midipaclen data = some packed := by
  induction events generalizing midipaclen data with
  | nil => exact ⟨_, rfl⟩
  | cons event events ih =>
    rw [List.length_cons] at hfit
    rw [packEvents, if_pos (by omega)]
    exact ih (by omega)

theorem exists_process (hevents : events ≠ []) (hfit : 3 * events.length ≤ vbanDataMaxSize) :
    ∃ output d, c.process nframes events = some (some output, d) := by
  have hroom : 0 + 3 * events.length ≤ vbanDataMaxSize := by rwa [Nat.zero_add]
  obtain ⟨packed, hpacked⟩ : ∃ packed, packEvents nframes events 0 c.data = some packed :=
    exists_packEvents hroom
  have hempty : ¬events.isEmpty = true := by simpa using hevents
  rw [TxMidi.process, if_neg hempty, hpacked]
  exact ⟨_, _, rfl⟩

/-- The length of the call of `memset` is near that of the address space. -/
theorem build_eq_none (hdata : c.data.length = vbanDataMaxSize) (hevents : events ≠ []) :
    c.build nframes events = none := by
  have hempty : ¬events.isEmpty = true := by simpa using hevents
  have hlength : ¬midiClearLength 0 ≤ c.data.length := by
    rw [hdata]
    decide
  rw [TxMidi.build, if_neg hempty, clearFirst, if_neg hlength]
  rfl

/-- The receptor takes MIDI under another sub-format than the emitter's. -/
theorem handlePacket_serial {p : VBanPacket} {packetlen : Int} {context : VbanRxContext R}
    {ipIn : UInt32} {portIn : UInt16} {taken : List Nat}
    (h : p.header.formatSR = vbanProtocolSerial) :
    vbanRxHandlePacket env p packetlen context ipIn portIn taken =
      .ok ⟨0, context, [], none⟩ := by
  have hprotocol : p.protocol = vbanProtocolSerial := by
    rw [VBanPacket.protocol, h]
    rfl
  have hformat : ¬(p.header.vban = vbanHeaderFourc ∧ p.header.formatSR = 0x2E ∧
      (p.streamnameString = context.rxStreamnameString ∨ p.streamnameString = midi1)) := by
    rintro ⟨-, h2e, -⟩
    rw [h] at h2e
    cases h2e
  rw [vbanRxHandlePacket, hprotocol, if_neg (by decide), if_pos rfl, handleSerial, if_neg hformat]

/-- A bound receptor drops the emitter's MIDI. -/
theorem receive_midi (env : RxEnv R) {output : MidiOutput} (ts : Timespec) (taken : List Nat)
    (hformat : output.packet.header.formatSR = vbanProtocolSerial)
    (hip : s.context.iprx = addr.1)
    (hname : s.context.rxStreamname = output.packet.header.streamname) :
    ∃ t, s.receive env (.datagram (output.packet.header.toBytes ++ output.packet.payload)
        (some addr) ts taken) = .ok t ∧ t.context.ringbufferMidi = s.context.ringbufferMidi := by
  set bytes := output.packet.header.toBytes ++ output.packet.payload with hbytes
  have hheader : (s.received bytes (some addr) ts).packet.header = output.packet.header :=
    VBanPacket.header_received s.packet _ _
  have hformat' : (s.received bytes (some addr) ts).setAnsport.packet.header.formatSR =
      vbanProtocolSerial := by
    rw [← hformat, ← hheader]
    rfl
  rw [receive_bound env ts taken hip hname, handleAndClear, handlePacket_serial hformat']
  exact ⟨_, rfl, rfl⟩

/-- No period with events is built inside the packet, and none is delivered. -/
theorem midi_not_delivered (env : RxEnv R) (hrun : Run TxMidiStep (createMidi name) os c)
    (hevents : events ≠ []) (hfit : 3 * events.length ≤ vbanDataMaxSize)
    (hip : s.context.iprx = addr.1) (hname : s.context.rxStreamname = c.header.streamname)
    (hring : s.context.ringbufferMidi = some ringbuffer) :
    ¬(∃ built, c.build nframes events = some built) ∧
      ¬MidiDelivered env s ringbuffer addr c nframes events := by
  obtain ⟨hdata, ⟨i, hheader⟩, -⟩ := midi_run_spec hrun
  constructor
  · rintro ⟨built, hbuilt⟩
    rw [build_eq_none hdata hevents] at hbuilt
    cases hbuilt
  · intro hdelivered
    obtain ⟨output, d, hprocess⟩ : ∃ output d, c.process nframes events = some (some output, d) :=
      exists_process hevents hfit
    obtain ⟨hpacket, -⟩ := TxMidi.process_spec hdata hprocess
    have hformat : output.packet.header.formatSR = vbanProtocolSerial := by
      rw [hpacket, hheader]
      rfl
    obtain ⟨t, ringbuffer', hreceive, hkept, hcontents⟩ := hdelivered output d ⟨0, 0⟩ hprocess
    obtain ⟨t', hreceive', hring'⟩ := receive_midi env ⟨0, 0⟩ (List.replicate events.length 0)
      hformat hip (hpacket ▸ hname)
    obtain rfl := Except.ok.inj (hreceive.symm.trans hreceive')
    rw [hring', hring] at hkept
    obtain rfl := Option.some.inj hkept
    have hlength := congrArg List.length hcontents
    obtain ⟨event, events, rfl⟩ := List.exists_cons_of_ne_nil hevents
    simp at hlength

/-- A receptor of `127.0.0.1` under the name that the emitter of `A` gives its MIDI, with an empty
ring of 15 bytes. -/
def midiReceptor : RxThread Unit where
  context :=
    { VbanRxContext.start (createMidi (.strncpy [0x41])).header.streamname 0x0100007F 6980 with
      ringbufferMidi := some (ringbufferCreate 16 (List.replicate 16 0)) }
  packet := .zero
  cAddr := (0, 0)

/-- The events of a period: one note. -/
def noteOn : List MidiEvent := [⟨#v[0x90, 0x3C, 0x64]⟩]

theorem midi_note_not_delivered :
    ¬(∃ built, (createMidi (.strncpy [0x41])).build 64 noteOn = some built) ∧
      ¬MidiDelivered silentEnv.toRxEnv midiReceptor (ringbufferCreate 16 (List.replicate 16 0))
        (0x0100007F, 6980) (createMidi (.strncpy [0x41])) 64 noteOn := by
  have hevents : noteOn ≠ [] := List.cons_ne_nil _ _
  exact midi_not_delivered silentEnv.toRxEnv (.refl _) hevents (by decide) rfl rfl rfl

/-- The note is written after a `memset` of `2 ^ 64 - 28` bytes, and its datagram leaves the ring
as it is. -/
theorem midi_note_dropped :
    midiClearLength 0 = 2 ^ 64 - 28 ∧
      (createMidi (.strncpy [0x41])).build 64 noteOn = none ∧
      ∃ output d t, (createMidi (.strncpy [0x41])).process 64 noteOn = some (some output, d) ∧
        output.packet.payload = [0x90, 0x3C, 0x64] ∧
        midiReceptor.receive silentEnv.toRxEnv (.datagram
          (output.packet.header.toBytes ++ output.packet.payload) (some (0x0100007F, 6980)) ⟨1, 0⟩
          [0]) = .ok t ∧
        t.context.ringbufferMidi = some (ringbufferCreate 16 (List.replicate 16 0)) ∧
        (ringbufferCreate 16 (List.replicate 16 0)).contents = [] := by
  have hevents : noteOn ≠ [] := List.cons_ne_nil _ _
  obtain ⟨output, d, hprocess⟩ :
      ∃ output d, (createMidi (.strncpy [0x41])).process 64 noteOn = some (some output, d) :=
    exists_process hevents (by decide)
  have hdata : (createMidi (.strncpy [0x41])).data.length = vbanDataMaxSize :=
    List.length_replicate
  obtain ⟨hpacket, -⟩ := TxMidi.process_spec hdata hprocess
  have hpayload : ((createMidi (.strncpy [0x41])).process 64 noteOn).map
      (fun r => r.1.map fun output => output.packet.payload) =
        some (some [0x90, 0x3C, 0x64]) := by decide +kernel
  rw [hprocess] at hpayload
  have hformat : output.packet.header.formatSR = vbanProtocolSerial := by
    rw [hpacket]
    rfl
  have hname : output.packet.header.streamname = midiReceptor.context.rxStreamname := by
    rw [hpacket]
    rfl
  have hip : midiReceptor.context.iprx = ((0x0100007F, 6980) : UInt32 × UInt16).1 := rfl
  obtain ⟨t, hreceive, hring⟩ :=
    receive_midi silentEnv.toRxEnv ⟨1, 0⟩ [0] hformat hip hname.symm
  refine ⟨by decide, build_eq_none hdata hevents, output, d, t, hprocess, ?_, hreceive, hring,
    by decide⟩
  simpa using hpayload

end Vban
