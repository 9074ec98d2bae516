import Vban.Emit.Describe
import Vban.Emit.Midi
import Vban.Emit.PipewirePackets
import Vban.Multistream.Info

/-! Which of the repository's own datagrams the multistream server accepts. -/
namespace Vban.Multistream

open Library
open Discovery (chars infoHeader)

/-- A datagram that a program of the repository sends to the port of a receptor: an audio packet of
the JACK or the PipeWire emitter without a passport, a MIDI packet, or the request of
`scan_receptor` and of the ALSA utility. -/
inductive OwnDatagram
  | audio (r : EmitterRun) (l : Transmission) (hl : l ∈ r.steps) (p : SentPacket) (hp : p ∈ l.sent)
      (hpass : r.o.trailerAt r.rate r.timer = 0)
  | pwAudio (r : PwEmitterRun) (p : SentPacket) (hp : p ∈ r.sent) (hpass : r.o.passportLength = 0)
  | midi (name : StreamName) (outputs : List (Option MidiOutput)) (c : TxMidi)
      (run : Run TxMidiStep (createMidi name) outputs c) (output : MidiOutput)
      (h : some output ∈ outputs)
  | infoRequest

def OwnDatagram.packet : OwnDatagram → SentPacket
  | audio _ _ _ p _ _ => p
  | pwAudio _ p _ _ => p
  | midi _ _ _ _ output _ => output.packet
  | infoRequest => ⟨infoHeader, chars "/info"⟩

/-- It is audio, of a period that fills its packets. -/
def OwnDatagram.Fits : OwnDatagram → Prop
  | audio r l .. => 1 ≤ r.o.nbinputs ∧
      FillsPackets (packetLimit l.sliced r.rate) l.nframes r.o.frameSize
  | pwAudio r .. => 1 ≤ r.o.nbinputs ∧
      FillsPackets (packetLimit false r.o.samplerate) r.nframes r.o.frameSize
  | _ => False

/-- The reaction is one of the branch of this protocol. -/
def Reaction.OfProtocol (protocol : UInt8) : Reaction → Prop
  | .wrote .. | .created .. | .full => protocol = vbanProtocolAudio ∨ protocol = vbanProtocolSerial
  | .replied .. => protocol = vbanProtocolTxt
  | .relayed .. | .ignored => False

/-- The server takes the packet into the branch of its protocol. -/
def Server.Accepts (s : Server) (source : UInt32 × UInt16) (p : SentPacket) : Prop :=
  ∀ rx tx, ∃ r t, s.receive (.datagram (p.header.toBytes ++ p.payload) source) rx tx = .ok (r, t) ∧
    r.OfProtocol (p.header.formatSR &&& vbanProtocolMask)

variable {s : Server} {es : List ServerEvent} {p : SentPacket} {addr : UInt32 × UInt16}

theorem not_accepts (h : ¬(s.received
    (.datagram (p.header.toBytes ++ p.payload) addr)).ReachesSwitch) : ¬s.Accepts addr p := by
  intro haccepts
  obtain ⟨r, t, hr, hprotocol⟩ := haccepts .noPipe .noPipe
  rw [Server.receive, Received.handle, if_neg h] at hr
  split_ifs at hr
  · rw [Server.relay] at hr
    split_ifs at hr
    · cases hr
      exact hprotocol
    · cases hr
      exact hprotocol
  · cases hr
    exact hprotocol

/-- Audio that passes the length test is dispatched. -/
theorem accepts_audio (hs : s.Counts)
    (haudio : p.header.formatSR &&& vbanProtocolMask = vbanProtocolAudio)
    (hswitch : (s.received (.datagram (p.header.toBytes ++ p.payload) addr)).ReachesSwitch) :
    s.Accepts addr p := by
  intro rx tx
  have hfor : (s.received (.datagram (p.header.toBytes ++ p.payload) addr)).ForClients := by
    refine ⟨hswitch, Or.inl ?_⟩
    rw [s.datagram_protocol]
    exact haudio
  have hactive := (hs.received (.datagram (p.header.toBytes ++ p.payload) addr)).active_eq
  rcases (s.received (.datagram (p.header.toBytes ++ p.payload) addr)).handle_cases rx tx with
    ⟨-, hhandle⟩ | ⟨hnot, -⟩
  · rw [Server.receive, hhandle]
    rcases Server.dispatch_cases hactive _ rx tx with
      ⟨front, client, back, -, -, heq⟩ | ⟨-, ⟨-, heq⟩ | ⟨-, -, heq⟩⟩
    · exact ⟨_, _, heq, Or.inl haudio⟩
    · exact ⟨_, _, heq, Or.inl haudio⟩
    · exact ⟨_, _, heq, Or.inl haudio⟩
  · exact absurd hfor hnot

/-- A packet of the repository passes the length test iff it is audio that fits. -/
theorem OwnDatagram.reachesSwitch_iff (d : OwnDatagram) (s : Server) (source : UInt32 × UInt16) :
    (s.received (.datagram (d.packet.header.toBytes ++ d.packet.payload) source)).ReachesSwitch ↔
      d.Fits := by
  cases d with
  | audio r l hl p hp hpass =>
    have hcarries := r.carries l hl p hp
    obtain ⟨hvban, -, hlen⟩ := hcarries.header r.created
    rw [hpass] at hlen
    refine (s.datagram_reachesSwitch_iff source hlen).trans ?_
    change p.payload.length = p.header.datalen ∧ p.header.vban = vbanHeaderFourc ↔ _
    rw [and_iff_left hvban, hcarries.declares_iff r.created r.channels_le]
    exact and_iff_right hpass
  | pwAudio r p hp hpass =>
    obtain ⟨hvban, -, hlen, hdeclares⟩ := r.packet_spec hpass hp
    refine (s.datagram_reachesSwitch_iff source hlen).trans ?_
    change p.payload.length = p.header.datalen ∧ p.header.vban = vbanHeaderFourc ↔ _
    rw [and_iff_left hvban]
    exact hdeclares
  | midi name outputs c run output h =>
    obtain ⟨i, n, -, hfit, hheader, hlen⟩ := (midi_run_spec run).2.2 output h
    have hdatalen : output.packet.header.datalen = 1 := by
      rw [hheader]
      exact VBanHeader.datalen_of_zero rfl rfl rfl
    refine iff_of_false ?_ id
    intro hswitch
    obtain ⟨hdeclared, -⟩ :=
      (s.datagram_reachesSwitch_iff source (hlen.trans_le hfit)).mp hswitch
    have hone : 3 * n = 1 := hlen.symm.trans (hdeclared.trans hdatalen)
    omega
  | infoRequest =>
    refine iff_of_false ?_ id
    rw [s.datagram_reachesSwitch_iff source (by decide)]
    decide

/-- The server accepts the repository's own datagrams exactly if they are audio that fits: never
MIDI packets, never information requests. -/
theorem own_datagram_accepted_iff {argv0 : List UInt8} {redundancy : Nat}
    {vbanOutputFormat : UInt8} {stream : VbanRxContext Unit} {cAddr : UInt32 × UInt16}
    {ipIn : UInt32} {portIn : UInt16}
    (h : Run ServerStep
      (.start argv0 redundancy vbanOutputFormat stream cAddr ipIn portIn) es s)
    (source : UInt32 × UInt16) (d : OwnDatagram) : s.Accepts source d.packet ↔ d.Fits := by
  obtain ⟨-, hcounts, -⟩ := server_run_refines h (Server.start_counts _ _ _ _ _ _ _)
  rw [← d.reachesSwitch_iff s source]
  constructor
  · intro haccepts
    by_contra hnot
    exact not_accepts hnot haccepts
  · intro hswitch
    have hfits := (d.reachesSwitch_iff s source).mp hswitch
    cases d with
    | audio r l hl p hp hpass =>
      obtain ⟨-, haudio, -⟩ := (r.carries l hl p hp).header r.created
      exact accepts_audio hcounts haudio hswitch
    | pwAudio r p hp hpass =>
      obtain ⟨-, haudio, -⟩ := r.packet_spec hpass hp
      exact accepts_audio hcounts haudio hswitch
    | midi => exact hfits.elim
    | infoRequest => exact hfits.elim

/-- The first packet of an emitter started with a port alone is dispatched. -/
theorem own_datagram_accepted_default : ∃ d : OwnDatagram,
    d.packet.header.formatSR &&& vbanProtocolMask = vbanProtocolAudio ∧
      (serverFor 2 0).Accepts source d.packet := by
  obtain ⟨e₀, e, l, h₀, hrun, hnframes, hsliced, hsent⟩ := exists_sending_run 48000
  obtain ⟨p, hp⟩ := List.exists_mem_of_ne_nil _ hsent
  let r : EmitterRun := ⟨[.port 6980], 0, 48000, 128, true, emitterDefaults.createStream, e₀, [l],
    e, emitterMain_port 0, by decide, h₀, hrun⟩
  let d : OwnDatagram := .audio r l List.mem_cons_self p hp rfl
  have hfits : d.Fits := by
    change 1 ≤ emitterDefaults.createStream.nbinputs ∧ FillsPackets
      (packetLimit l.sliced (48000 : Nat)) l.nframes emitterDefaults.createStream.frameSize
    rw [hnframes, hsliced]
    exact ⟨by decide, fillsPackets_default⟩
  obtain ⟨-, haudio, -⟩ := (r.carries l List.mem_cons_self p hp).header r.created
  exact ⟨d, haudio, (own_datagram_accepted_iff (Run.refl (serverFor 2 0)) source d).mpr hfits⟩

/-- Neither the request for information nor a packet with one MIDI event is accepted. -/
theorem request_and_midi_rejected :
    ¬(serverFor 2 0).Accepts source ⟨infoHeader, chars "/info"⟩ ∧
      ∃ output c, (createMidi (.strncpy (chars "mix"))).process 128 [⟨#v[0x90, 60, 64]⟩] =
          some (some output, c) ∧
        ¬(serverFor 2 0).Accepts source output.packet := by
  constructor
  · exact not_accepts ((OwnDatagram.infoRequest.reachesSwitch_iff (serverFor 2 0) source).mp ·)
  · obtain ⟨output, c, h⟩ : ∃ output c,
        (createMidi (.strncpy (chars "mix"))).process 128 [⟨#v[0x90, 60, 64]⟩] =
          some (some output, c) := ⟨_, _, rfl⟩
    have hrun : Run TxMidiStep (createMidi (.strncpy (chars "mix"))) [some output] c :=
      .single (.process h)
    exact ⟨output, c, h, not_accepts (((OwnDatagram.midi _ _ _ hrun output
      List.mem_cons_self).reachesSwitch_iff (serverFor 2 0) source).mp ·)⟩

end Vban.Multistream
