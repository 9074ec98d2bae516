import Vban.Emit.Describe
import Vban.Emit.Midi
import Vban.Receive.Foreign
import Vban.Receive.PipeReader

/-! What the JACK emitter writes to a pipe, and when a receptor reads it back. -/
namespace Vban

open Library

/-- What a step of the emitter gives: packets of audio, or the packet of a period's events. -/
inductive PipeOutput
  | audio (l : Transmission)
  | midi (output : Option MidiOutput)

namespace PipeOutput

def packets : PipeOutput → List SentPacket
  | audio l => l.sent
  | midi output => output.toList.map MidiOutput.packet

/-- Of audio whole packets are written. -/
def written : PipeOutput → List UInt8
  | audio l => l.sent.flatMap SentPacket.bytes
  | midi output => output.toList.flatMap MidiOutput.written

def audioPart : PipeOutput → Option Transmission
  | audio l => some l
  | midi _ => none

def midiPart : PipeOutput → Option (Option MidiOutput)
  | audio _ => none
  | midi output => some output

end PipeOutput

/-- Periods and their events, in any order. -/
inductive PipeEmitterStep : Emitter × TxMidi → PipeOutput → Emitter × TxMidi → Prop
  | audio {e e' : Emitter} {c : TxMidi} {l : Transmission} (h : EmitterStep e l e') :
      PipeEmitterStep (e, c) (.audio l) (e', c)
  | midi {e : Emitter} {c d : TxMidi} {output : Option MidiOutput} (h : TxMidiStep c output d) :
      PipeEmitterStep (e, c) (.midi output) (e, d)

/-- A run of the JACK emitter in pipe mode, with no more channels than it has buffers for. -/
structure PipeEmitterRun where
  opts : List EmitterOption
  found : UInt32
  rate : Nat
  bufsize : Nat
  timer : Bool
  o : VbanTxContext
  start : Emitter
  outputs : List PipeOutput
  last : Emitter
  lastMidi : TxMidi
  main_eq : emitterMain found opts = some o
  txport_eq : o.txport = 0
  channels_le : o.nbinputs ≤ 256
  start_eq : emitterStart rate bufsize timer o = some start
  run : Run PipeEmitterStep (start, createMidi o.txStreamname) outputs (last, lastMidi)

/-- All packets of a run, and all that it writes. -/
def PipeEmitterRun.packets (r : PipeEmitterRun) : List SentPacket :=
  r.outputs.flatMap PipeOutput.packets

def PipeEmitterRun.written (r : PipeEmitterRun) : List UInt8 :=
  r.outputs.flatMap PipeOutput.written

/-- The output is audio without a passport, of a period that fills its packets. -/
def PipeOutput.Framed (o : VbanTxContext) (rate : Nat) (timer : Bool) : PipeOutput → Prop
  | audio l => o.trailerAt rate timer = 0 ∧ 1 ≤ o.nbinputs ∧
      FillsPackets (packetLimit l.sliced rate) l.nframes o.frameSize
  | midi _ => False

variable {R : Type} {a b : Emitter × TxMidi} {xs : List PipeOutput} {x : PipeOutput}
  {p : SentPacket} {l : Transmission} {output : MidiOutput}

/-- The audio and the events of a run are runs of their own. -/
theorem pipe_run_parts (h : Run PipeEmitterStep a xs b) :
    Run EmitterStep a.1 (xs.filterMap PipeOutput.audioPart) b.1 ∧
      Run TxMidiStep a.2 (xs.filterMap PipeOutput.midiPart) b.2 := by
  induction h with
  | refl => exact ⟨.refl _, .refl _⟩
  | snoc _ hs ih =>
    obtain ⟨haudio, hmidi⟩ := ih
    rw [List.filterMap_append, List.filterMap_append]
    cases hs with
    | audio hs =>
      refine ⟨.snoc haudio hs, ?_⟩
      rw [List.filterMap_cons_none rfl, List.filterMap_nil, List.append_nil]
      exact hmidi
    | midi hs =>
      refine ⟨?_, .snoc hmidi hs⟩
      rw [List.filterMap_cons_none rfl, List.filterMap_nil, List.append_nil]
      exact haudio

namespace PipeEmitterRun

variable {r : PipeEmitterRun}

theorem created (r : PipeEmitterRun) : r.o.Created := emitterMain_created r.main_eq

/-- What stands in the packets of audio. -/
theorem carries (hl : .audio l ∈ r.outputs) (hp : p ∈ l.sent) :
    l.Carries r.o r.rate r.timer p := by
  obtain ⟨hrun, -⟩ := pipe_run_parts r.run
  have hstep : l ∈ r.outputs.filterMap PipeOutput.audioPart :=
    List.mem_filterMap.mpr ⟨_, hl, rfl⟩
  exact (emitter_run_spec r.created r.start_eq hrun).2 l hstep p hp

/-- What stands in the packets of events. -/
theorem of_events (h : .midi (some output) ∈ r.outputs) : output.Of r.o.txStreamname := by
  obtain ⟨-, hrun⟩ := pipe_run_parts r.run
  exact (midi_run_spec hrun).2.2 output (List.mem_filterMap.mpr ⟨_, h, rfl⟩)

end PipeEmitterRun

/-- The reader reads the data of a packet of audio that has the length it declares. -/
theorem Transmission.Carries.pipeDatalen_eq {o : VbanTxContext} {rate : Nat} {timer : Bool}
    (ho : o.Created) (h : l.Carries o rate timer p) : p.header.pipeDatalen = p.header.datalen := by
  obtain ⟨-, haudio, -⟩ := h.header ho
  exact if_pos (Or.inl haudio)

/-- Behind a packet of events it reads nothing. -/
theorem MidiOutput.Of.payload_ne {name : StreamName} (h : output.Of name) :
    output.packet.payload.length ≠ output.packet.header.pipeDatalen := by
  obtain ⟨i, n, hn, -, hheader, hlen⟩ := h
  have hserial : output.packet.header.protocol = vbanProtocolSerial := by
    rw [hheader]
    exact (by decide : vbanProtocolSerial &&& vbanProtocolMask = vbanProtocolSerial)
  have hnone : output.packet.header.pipeDatalen = 0 := by
    rw [VBanHeader.pipeDatalen, hserial]
    exact if_neg (by decide)
  rw [hlen, hnone]
  omega

/-- Framed output is written in whole packets, each of which has the data that is read of it. -/
theorem PipeEmitterRun.framed {r : PipeEmitterRun} (hx : x ∈ r.outputs)
    (hframed : x.packets ≠ [] → x.Framed r.o r.rate r.timer) :
    x.written = x.packets.flatMap SentPacket.bytes ∧
      ∀ p ∈ x.packets, p.header.vban = vbanHeaderFourc ∧
        p.payload.length = p.header.pipeDatalen ∧ p.payload.length ≤ vbanDataMaxSize := by
  cases x with
  | audio l =>
    refine ⟨rfl, ?_⟩
    intro p hp
    have hcarries := r.carries hx hp
    obtain ⟨hvban, -, hfit⟩ := hcarries.header r.created
    obtain ⟨htrailer, hfills⟩ := hframed (List.ne_nil_of_mem hp)
    rw [htrailer] at hfit
    rw [hcarries.pipeDatalen_eq r.created]
    exact ⟨hvban, (hcarries.declares_iff r.created r.channels_le).mpr ⟨htrailer, hfills⟩, hfit⟩
  | midi output =>
    cases output with
    | none => exact ⟨rfl, nofun⟩
    | some output => exact (hframed (List.cons_ne_nil _ _)).elim

/-- What the emitter wrote is read back exactly if all of it is audio without a passport, of
periods that fill their packets: never if it holds events. -/
theorem pipe_output_read_back_iff (r : PipeEmitterRun) (s : RxThread R) :
    s.ReadsBack r.written r.packets ↔
      ∀ x ∈ r.outputs, x.packets ≠ [] → x.Framed r.o r.rate r.timer := by
  constructor
  · intro hreads x hx hne
    have hlen : ∀ p ∈ x.packets, p.payload.length = p.header.pipeDatalen := fun p hp =>
      hreads.payload_length p (List.mem_flatMap.mpr ⟨x, hx, hp⟩)
    cases x with
    | audio l =>
      obtain ⟨p, hp⟩ := List.exists_mem_of_ne_nil _ hne
      have hcarries := r.carries hx hp
      rw [PipeOutput.Framed, ← hcarries.declares_iff r.created r.channels_le,
        ← hcarries.pipeDatalen_eq r.created]
      exact hlen p hp
    | midi output =>
      cases output with
      | none => exact absurd rfl hne
      | some output => exact (r.of_events hx).payload_ne (hlen _ List.mem_cons_self)
  · intro hframed
    have hwritten : r.written = r.packets.flatMap SentPacket.bytes := by
      rw [PipeEmitterRun.written, PipeEmitterRun.packets, List.flatMap_assoc]
      exact List.flatMap_congr fun x hx => (r.framed hx (hframed x hx)).1
    have hpackets : ∀ p ∈ r.packets, p.header.vban = vbanHeaderFourc ∧
        p.payload.length = p.header.pipeDatalen ∧ p.payload.length ≤ vbanDataMaxSize := by
      intro p hp
      obtain ⟨x, hx, hp⟩ := List.mem_flatMap.mp hp
      exact (r.framed hx (hframed x hx)).2 p hp
    rw [hwritten]
    exact (readsBack_iff (fun p hp => (hpackets p hp).1) (fun p hp => (hpackets p hp).2.2) s).mpr
      fun p hp => (hpackets p hp).2.1

/-- An emitter that was started with `-p0` alone, and the audio of its first period. -/
theorem exists_pipe_period : ∃ (r : PipeEmitterRun) (l : Transmission), r.outputs = [.audio l] ∧
    l.sent ≠ [] ∧ PipeOutput.Framed r.o r.rate r.timer (.audio l) := by
  obtain ⟨e₀, e, l, h₀, hrun, hnframes, hsliced, hsent⟩ := exists_sending_run_of
    (o := { emitterDefaults with txport := 0 }.createStream) (n := 128) 48000 (by decide)
      (by decide) rfl
  refine ⟨⟨[.port 0], 0, 48000, 128, true, _, e₀, [.audio l], e, _, emitterMain_port_of 0 0, rfl,
    by decide, h₀, .single (.audio hrun.step_of_single)⟩, l, rfl, hsent, rfl, (by decide : 1 ≤ 2),
    ?_⟩
  rw [hnframes, hsliced]
  exact fillsPackets_default

/-- The first period of an emitter without MIDI is read back. -/
theorem pipe_period_read_back : ∃ r : PipeEmitterRun, r.packets ≠ [] ∧
    unboundReceptor.ReadsBack r.written r.packets := by
  obtain ⟨r, l, houtputs, hsent, hframed⟩ := exists_pipe_period
  refine ⟨r, ?_, (pipe_output_read_back_iff r unboundReceptor).mpr fun x hx _ => ?_⟩
  · rw [PipeEmitterRun.packets, houtputs, List.flatMap_singleton]
    exact hsent
  · rw [houtputs] at hx
    rw [List.mem_singleton.mp hx]
    exact hframed

/-- A period with one event is not. -/
theorem pipe_event_lost : ∃ (r : PipeEmitterRun) (output : MidiOutput),
    r.outputs = [.midi (some output)] ∧ ¬unboundReceptor.ReadsBack r.written r.packets := by
  obtain ⟨r, l, -⟩ := exists_pipe_period
  obtain ⟨output, c, h⟩ : ∃ output c, (createMidi r.o.txStreamname).process 128
      [⟨#v[0x90, 60, 64]⟩] = some (some output, c) := ⟨_, _, rfl⟩
  let r' : PipeEmitterRun := { r with
    outputs := [.midi (some output)]
    last := r.start
    lastMidi := c
    run := .single (.midi (.process h)) }
  refine ⟨r', output, rfl, ?_⟩
  intro hreads
  have hevents : output.Of r'.o.txStreamname := r'.of_events List.mem_cons_self
  exact hevents.payload_ne (hreads.payload_length _ List.mem_cons_self)

end Vban
