import Vban.Emit.Slicing
import Vban.Library.Outcome
import Vban.Library.Run

/-! The JACK emitter: its options, its start, its process callback and its timer. -/
namespace Vban

open Library

/-- The options of `get_emitter_options` that bear on audio packets, each with its argument as
`atoi`, `inet_addr` or `parse_passport` reads it. -/
inductive EmitterOption
  /-- The length of the argument, and its address. -/
  | ipaddr (length : Nat) (addr : UInt32)
  | port (n : Int)
  | streamname (name : StreamName)
  | samplerate (n : Int)
  | bufsize (n : Int)
  | nbchannels (n : Int)
  | redundancy (n : Int)
  /-- `strstr` found "16", or else "24". -/
  | format (is16 is24 : Bool)
  | slicing (on : Bool)
  | extended (passport : Option (Vector UInt8 6))
  | help
  /-- Any other option. -/
  | other

/-- An `int` stored in an unsigned field of `w` bits. -/
def uintOfInt (w : Nat) (n : Int) : Nat := (n % 2 ^ w).toNat

theorem uintOfInt_lt (w : Nat) (n : Int) : uintOfInt w n < 2 ^ w := by
  have hpos : (0 : Int) < 2 ^ w := Int.pow_pos (by decide)
  have hlt := Int.emod_lt_of_pos n hpos
  rw [uintOfInt, Int.toNat_lt (Int.emod_nonneg n hpos.ne'), Int.natCast_pow]
  exact hlt

/-- What one option does to the context. `none` ends the program. -/
def EmitterOption.apply (c : VbanTxContext) : EmitterOption → Option VbanTxContext
  | ipaddr length addr =>
    if c.txport = 0 then some { c with iptx := 0 }
    else if 15 < length then none
    else some { c with iptx := addr }
  | port n => some { c with txport := uintOfInt 16 n }
  | streamname name => some { c with txStreamname := name }
  | samplerate n => some { c with samplerate := n }
  | bufsize n => some { c with nframes := uintOfInt 16 n }
  | nbchannels n => some { c with nbinputs := uintOfInt 16 n }
  | redundancy n => some { c with redundancy := uintOfInt 8 n }
  | format is16 is24 => some { c with vbanOutputFormat :=
      if is16 then vbanBitfmt16Int else if is24 then vbanBitfmt24Int else vbanBitfmt32Float }
  | slicing on => some { c with slicing := on }
  | extended none => some { c with xlen := 0 }
  | extended (some passport) => some { c with xlen := 6, xbytes := passport }
  | help => none
  | other => some c

/-- The context of `main` before the options are read. -/
def emitterDefaults : VbanTxContext where
  txStreamname := .strncpy []
  header := ⟨0, 0, 0, 0, 0, .strncpy [], 0⟩
  data := List.replicate vbanDataMaxSize 0
  nframes := 0
  nbinputs := 2
  samplerate := 48000
  vbanOutputFormat := vbanBitfmt32Float
  redundancy := 0
  slicing := false
  txbuf := []
  txbuflen := 0
  pacnum := 0
  vbanNframesPac := 0
  pacdatalen := 0
  pacnumT32 := 0
  txdataInd := 0
  txTransactions := 0
  txNframes := 32
  slicePeriod := 0
  txport := 6980
  iptx := 0
  xlen := 0
  xbytes := Vector.replicate 6 0

/-- Without any option the help is shown. -/
def getEmitterOptions (c : VbanTxContext) (opts : List EmitterOption) : Option VbanTxContext :=
  if opts.isEmpty then none else opts.foldlM EmitterOption.apply c

/-- The index of a rate in the table, or -1. -/
def vbanGetFormatSR (hostSamplerate : Int) : Int :=
  match vbanSRList.findIdx? fun rate : Nat => (rate : Int) = hostSamplerate with
  | some i => i
  | none => -1

/-- An emitter that sends to a name has no address until a receptor was found. -/
def VbanTxContext.scanReceptor (found : UInt32) (c : VbanTxContext) : VbanTxContext :=
  if c.txport ≠ 0 ∧ ¬c.txStreamname.Empty ∧ c.iptx = 0 then { c with iptx := found } else c

/-- "Create stream": the header fields that `main` sets. -/
def VbanTxContext.createStream (c : VbanTxContext) : VbanTxContext :=
  { c with header :=
    { c.header with
      vban := vbanHeaderFourc
      formatSR := vbanSrMask &&& UInt8.ofInt (vbanGetFormatSR c.samplerate)
      formatBit := c.vbanOutputFormat
      formatNbc := UInt8.ofNat (c.nbinputs + 255)
      formatNbs := UInt8.ofNat (c.vbanNframesPac + 255)
      streamname := .strncpy c.txStreamname.bytes } }

/-- `main` up to the start of the backend. -/
def emitterMain (found : UInt32) (opts : List EmitterOption) : Option VbanTxContext :=
  (getEmitterOptions emitterDefaults opts).map fun c => (c.scanReceptor found).createStream

/-- `bufsize` is what JACK reports, in 32 bits. -/
def jackInitTxStream (samplerate bufsize : Nat) (c : VbanTxContext) : Option VbanTxContext :=
  tuneTxPackets { c with samplerate := samplerate, nframes := bufsize % 2 ^ 16 }

/-- `samples` are the converted samples of the period. `none` is a division by zero. -/
def onTxProcess (refusals : Refusals) (nframes : Nat) (samples : List UInt8) (c : VbanTxContext) :
    Option Sending :=
  let c := { c with txdataInd := if c.slicing then 0 else c.txdataInd }
  (if c.nframes = nframes then some c else tuneTxPackets { c with nframes := nframes }).map
    fun c =>
      let c := { c with txbuf := overwrite c.txbuf 0 samples }
      if c.slicing then ⟨[], c, .returned, 0⟩ else vbanSendTxbuffer refusals c

/-- The emitter between two calls, and whether its sending thread came back from the last one. -/
structure Emitter where
  context : VbanTxContext
  /-- `SLICING` as the last tuning found it. -/
  sliced : Bool
  /-- The timer has been set. -/
  armed : Bool
  ending : Ending

/-- What a step sends, and the period it was made from. -/
structure Transmission where
  nframes : Nat
  sliced : Bool
  sent : List SentPacket

/-- The emitter after `main`. `timer` is whether the timer thread could be created. -/
def emitterStart (samplerate bufsize : Nat) (timer : Bool) (c : VbanTxContext) : Option Emitter :=
  (jackInitTxStream samplerate bufsize c).map fun t =>
    ⟨{ t with slicing := t.slicing && timer }, c.slicing, false, .returned⟩

/-- The process callback and the expirations of the timer, in any order. A period of 2^16 frames or
more has no step: the callback then writes samples without end. -/
inductive EmitterStep : Emitter → Transmission → Emitter → Prop
  | process {e : Emitter} {refusals : Refusals} {nframes : Nat} {samples : List UInt8}
      {s : Sending} :
      e.ending = .returned ∨ e.ending = .endless ∧ e.context.slicing →
      nframes < 2 ^ 16 → samples.length = nframes * e.context.frameSize →
      onTxProcess refusals nframes samples e.context = some s →
      EmitterStep e
        ⟨nframes, if e.context.nframes = nframes then e.sliced else e.context.slicing, s.sent⟩
        { context := s.context
          sliced := if e.context.nframes = nframes then e.sliced else e.context.slicing
          armed := e.armed || e.context.slicing
          ending := if e.context.slicing then e.ending else s.ending }
  | tick {e : Emitter} {refusals : Refusals} :
      e.ending = .returned → e.armed → e.context.slicing →
      EmitterStep e ⟨e.context.nframes, e.sliced, (txTimerTick refusals e.context).sent⟩
        { e with
          context := (txTimerTick refusals e.context).context
          ending := (txTimerTick refusals e.context).ending }
  /-- The loop over the copies of a packet goes on for ever. -/
  | copy {e : Emitter} : e.ending = .endless →
      EmitterStep e ⟨e.context.nframes, e.sliced,
        [e.context.packet (if e.context.slicing then 0 else e.context.trailerLength)]⟩ e

end Vban
