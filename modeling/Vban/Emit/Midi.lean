import Vban.Emit.Emitter

/-! The MIDI packets of the JACK emitter. -/
namespace Vban

open Library

/-- The three bytes that are read of an event. -/
structure MidiEvent where
  bytes : Vector UInt8 3

/-- `txmidipac` -/
structure TxMidi where
  header : VBanHeader
  data : List UInt8

/-- The part of "Create stream" for MIDI. -/
def createMidi (txStreamname : StreamName) : TxMidi where
  header := ⟨vbanHeaderFourc, vbanProtocolSerial, 0, 0, 0, .strncpy txStreamname.bytes, 0⟩
  data := List.replicate vbanDataMaxSize 0

/-- The loop over the events, from `midipaclen` on. The first byte is copied in a loop over the
frames. `none` is a write behind the packet. -/
def packEvents (nframes : Nat) : List MidiEvent → Nat → List UInt8 → Option (List UInt8 × Nat)
  | [], midipaclen, data => some (data, midipaclen)
  | event :: events, midipaclen, data =>
    if midipaclen + 3 ≤ vbanDataMaxSize then
      let data := if nframes = 0 then data
        else overwrite data midipaclen [event.bytes[0]]
      packEvents nframes events (midipaclen + 3)
        (overwrite data (midipaclen + 1) [event.bytes[1], event.bytes[2]])
    else none

/-- The packet of a period with events, which UDP sends as it is, and what is written to a pipe. -/
structure MidiOutput where
  packet : SentPacket
  written : List UInt8

/-- The part of `on_tx_process` for the events of a period. The call of `memset` before the loop is
left out: its length, `0 - VBAN_HEADER_SIZE` as a `size_t`, is that of no object, and nothing that
it should clear is sent. -/
def TxMidi.process (nframes : Nat) (events : List MidiEvent) (c : TxMidi) :
    Option (Option MidiOutput × TxMidi) :=
  if events.isEmpty then some (none, c)
  else (packEvents nframes events 0 c.data).map fun packed =>
    let c := { c with data := packed.1 }
    (some
      { packet := ⟨c.header, c.data.take packed.2⟩
        -- The size of the header is not counted.
        written := (c.header.toBytes ++ c.data).take packed.2 },
      { c with header := c.header.advance 1 })

variable {nframes midipaclen : Nat} {events : List MidiEvent} {data : List UInt8} {c d : TxMidi}
  {packed : List UInt8 × Nat} {output : MidiOutput}

theorem length_overwrite_event (hdata : data.length = vbanDataMaxSize)
    (hfit : midipaclen + 3 ≤ vbanDataMaxSize) (event : MidiEvent) :
    (overwrite (if nframes = 0 then data else overwrite data midipaclen [event.bytes[0]])
      (midipaclen + 1) [event.bytes[1], event.bytes[2]]).length = vbanDataMaxSize := by
  have hfirst : (if nframes = 0 then data
      else overwrite data midipaclen [event.bytes[0]]).length = vbanDataMaxSize := by
    split_ifs
    · exact hdata
    · rw [length_overwrite, hdata]
      rw [List.length_singleton, hdata]
      omega
  rw [length_overwrite, hfirst]
  rw [hfirst]
  exact hfit

/-- Each event takes three bytes of the data. -/
theorem packEvents_spec (hdata : data.length = vbanDataMaxSize)
    (h : packEvents nframes events midipaclen data = some packed)
    (hlen : midipaclen ≤ vbanDataMaxSize) : packed.1.length = vbanDataMaxSize ∧
      packed.2 = midipaclen + 3 * events.length ∧ packed.2 ≤ vbanDataMaxSize := by
  induction events generalizing midipaclen data with
  | nil =>
    obtain rfl := Option.some.inj h
    exact ⟨hdata, rfl, hlen⟩
  | cons event events ih =>
    rw [packEvents] at h
    by_cases hfit : midipaclen + 3 ≤ vbanDataMaxSize
    · rw [if_pos hfit] at h
      obtain ⟨hlength, hcount, hle⟩ := ih (length_overwrite_event hdata hfit event) h hfit
      refine ⟨hlength, ?_, hle⟩
      rw [hcount, List.length_cons]
      omega
    · rw [if_neg hfit] at h
      cases h

/-- What a period with events sends, and how it leaves the packet. -/
theorem TxMidi.process_spec (hdata : c.data.length = vbanDataMaxSize)
    (h : c.process nframes events = some (some output, d)) :
    output.packet.header = c.header ∧ output.packet.payload.length = 3 * events.length ∧
      3 * events.length ≤ vbanDataMaxSize ∧ events ≠ [] ∧ d.data.length = vbanDataMaxSize ∧
        d.header = c.header.advance 1 := by
  rw [process] at h
  split_ifs at h with hempty
  · cases h
  · obtain ⟨packed, hpacked, heq⟩ := Option.map_eq_some_iff.mp h
    obtain ⟨hlength, hcount, hle⟩ := packEvents_spec hdata hpacked (Nat.zero_le _)
    obtain ⟨rfl, rfl⟩ : _ ∧ _ := by simpa using heq
    rw [Nat.zero_add] at hcount
    refine ⟨rfl, ?_, hcount ▸ hle, by simpa using hempty, hlength, rfl⟩
    change (packed.1.take packed.2).length = _
    rw [List.length_take, hlength, Nat.min_eq_left hle, hcount]

/-- A period with its events. -/
inductive TxMidiStep : TxMidi → Option MidiOutput → TxMidi → Prop
  | process {c d : TxMidi} {nframes : Nat} {events : List MidiEvent} {output : Option MidiOutput}
      (h : c.process nframes events = some (output, d)) : TxMidiStep c output d

/-- The packet is made of a stream's events, of one at least. -/
def MidiOutput.Of (name : StreamName) (output : MidiOutput) : Prop :=
  ∃ i n, 0 < n ∧ 3 * n ≤ vbanDataMaxSize ∧
    output.packet.header = (createMidi name).header.advance i ∧ output.packet.payload.length = 3 * n

theorem TxMidiStep.spec {name : StreamName} {o : Option MidiOutput} {i : Nat}
    (hdata : c.data.length = vbanDataMaxSize)
    (hheader : c.header = (createMidi name).header.advance i) (h : TxMidiStep c o d) :
    d.data.length = vbanDataMaxSize ∧ (∃ j, d.header = (createMidi name).header.advance j) ∧
      ∀ output, o = some output → output.Of name := by
  cases h with
  | @process _ nframes events _ h =>
    cases o with
    | none =>
      obtain rfl : c = d := by
        rw [TxMidi.process] at h
        split_ifs at h
        · simpa using h
        · simp at h
      exact ⟨hdata, ⟨i, hheader⟩, nofun⟩
    | some output =>
      obtain ⟨hpacket, hlen, hfit, hevents, hdata', hnext⟩ := TxMidi.process_spec hdata h
      refine ⟨hdata', ⟨i + 1, ?_⟩, ?_⟩
      · rw [hnext, hheader, VBanHeader.advance_advance]
      · rintro _ ⟨⟩
        exact ⟨i, events.length, List.length_pos_iff.mpr hevents, hfit, hpacket.trans hheader, hlen⟩

/-- What a run of periods makes of the events. -/
theorem midi_run_spec {name : StreamName} {os : List (Option MidiOutput)}
    (h : Run TxMidiStep (createMidi name) os c) : c.data.length = vbanDataMaxSize ∧
      (∃ i, c.header = (createMidi name).header.advance i) ∧
      ∀ output, some output ∈ os → output.Of name := by
  induction h with
  | refl => exact ⟨List.length_replicate, ⟨0, (VBanHeader.advance_zero _).symm⟩, nofun⟩
  | snoc _ hstep ih =>
    obtain ⟨hdata, ⟨i, hheader⟩, hall⟩ := ih
    obtain ⟨hdata', hheader', hlast⟩ := hstep.spec hdata hheader
    refine ⟨hdata', hheader', ?_⟩
    intro output hmem
    rcases List.mem_append.mp hmem with hmem | hmem
    · exact hall output hmem
    · exact hlast output (List.mem_singleton.mp hmem).symm

end Vban
