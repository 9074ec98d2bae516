import Mathlib.Algebra.Field.Rat
import Mathlib.Data.List.Basic
import Mathlib.Logic.Function.Basic

/-! The receive readers of the playback callbacks. -/
namespace Vban.Playback

variable {S : Type} {nboutputs : Nat}

/-- What the readers do with samples: the Lagrange extrapolation from the three samples before,
and the smoothing of a sample by the three before it. -/
structure SampleOps (S : Type) where
  zero : S
  lagrange : S → S → S → S
  smooth : S → S → S → S → S

/-- The arithmetic of the source, over exact rationals. -/
def rationalOps : SampleOps Rat where
  zero := 0
  lagrange x₁ x₂ x₃ := 8 / 10 * 3 * x₁ - 8 / 10 * 3 * x₂ + 8 / 10 * x₃
  smooth x x₁ x₂ x₃ := 3 / 10 * x + 9 / 10 * x₁ - 9 / 10 * x₂ + 3 / 10 * x₃

/-- One sample for each channel. -/
abbrev Frame (S : Type) (nboutputs : Nat) := Fin nboutputs → S

/-- What the loop gets at each turn: a frame of the ring, or none when it holds no whole frame. -/
abbrev Slot (S : Type) (nboutputs : Nat) := Option (Frame S nboutputs)

/-- The port buffers of JACK. -/
abbrev Ports (S : Type) (nboutputs : Nat) := Fin nboutputs → Nat → S

/-- The fields of a stream context that the readers use. -/
structure RxStream (S : Type) (nboutputs : Nat) where
  nframes : Nat
  lagrangeNum : Nat
  rxbuf : Nat → S
  rxbuflen : Nat
  lostPacCnt : Nat
  room : nboutputs * (nframes + lagrangeNum) ≤ rxbuflen

/-- `rxbuf[nboutputs * k + channel]`. -/
def frameAt (rxbuf : Nat → S) (k : Nat) : Frame S nboutputs :=
  fun channel => rxbuf (nboutputs * k + channel)

def setFrame (rxbuf : Nat → S) (k : Nat) (x : Frame S nboutputs) : Nat → S := fun i =>
  if h : nboutputs * k ≤ i ∧ i < nboutputs * k + nboutputs then
    x ⟨i - nboutputs * k, by omega⟩
  else rxbuf i

def memmove (mem : Nat → S) (dst src count : Nat) : Nat → S := fun i =>
  if dst ≤ i ∧ i < dst + count then mem (src + (i - dst)) else mem i

def memset (mem : Nat → S) (x : S) (count : Nat) : Nat → S := fun i =>
  if i < count then x else mem i

/-- The memory and the counters of a reading loop. -/
structure Turns (S : Type) where
  rxbuf : Nat → S
  lframe : Nat
  lost : Nat
  llost : Nat

/-- The frame of a missing one at frame `k` of `rxbuf`. Both receptors have `lagrange_num` 3, so
the three frames before `k` exist. -/
def concealed (ops : SampleOps S) (rxbuf : Nat → S) (k : Nat) : Frame S nboutputs := fun channel =>
  ops.lagrange (frameAt rxbuf (k - 1) channel) (frameAt rxbuf (k - 2) channel)
    (frameAt rxbuf (k - 3) channel)

/-- The received frame `x` smoothed at frame `k` of `rxbuf`. -/
def smoothed (ops : SampleOps S) (rxbuf : Nat → S) (k : Nat) (x : Frame S nboutputs) :
    Frame S nboutputs := fun channel =>
  ops.smooth (x channel) (frameAt rxbuf (k - 1) channel) (frameAt rxbuf (k - 2) channel)
    (frameAt rxbuf (k - 3) channel)

/-- One turn of a reading loop. The readers differ in when they smooth, given how many frames
were missing just before. -/
def turn (ops : SampleOps S) (lagrangeNum : Nat) (smooths : Nat → Bool) (s : Turns S) :
    Slot S nboutputs → Turns S
  | none =>
    let llost := s.llost + 1
    let lost := s.lost + 1
    if llost < 3 then
      let k := s.lframe + lagrangeNum
      ⟨setFrame s.rxbuf k (concealed ops s.rxbuf k : Frame S nboutputs), s.lframe + 1, lost, llost⟩
    else ⟨s.rxbuf, s.lframe, lost, llost⟩
  | some x =>
    let k := s.lframe + lagrangeNum
    let x := if smooths s.llost then smoothed ops s.rxbuf k x else x
    ⟨setFrame s.rxbuf k x, s.lframe + 1, s.lost, 0⟩

/-- The tail of the period before becomes the head. -/
def RxStream.tailToHead (c : RxStream S nboutputs) : Nat → S :=
  memmove c.rxbuf 0 (c.nframes * nboutputs) (c.lagrangeNum * nboutputs)

def RxStream.start (c : RxStream S nboutputs) : Turns S := ⟨c.tailToHead, 0, 0, 0⟩

/-- The move of what was read to the end of the period. Its offsets add `lagrange_num` samples,
not frames. -/
def RxStream.shift (c : RxStream S nboutputs) (s : Turns S) : Nat → S :=
  if s.lframe < c.nframes >>> 1 then
    memmove s.rxbuf (nboutputs * (c.nframes - 1 - s.lframe) + c.lagrangeNum)
      (nboutputs * s.lframe + c.lagrangeNum) (nboutputs * s.lframe)
  else s.rxbuf

def asyncSmooths (llost : Nat) : Bool := llost < 3

/-- The loop has one turn for each of the `nframes` slots. -/
def readFromRingbufferAsync (ops : SampleOps S) (c : RxStream S nboutputs)
    (slots : List (Slot S nboutputs)) : RxStream S nboutputs :=
  let s := slots.foldl (turn ops c.lagrangeNum asyncSmooths) c.start
  let rxbuf := c.shift s
  if s.lost = 0 then { c with rxbuf, lostPacCnt := 0 }
  else if s.lost = c.nframes then
    let lostPacCnt := if c.lostPacCnt < 10 then c.lostPacCnt + 1 else c.lostPacCnt
    { c with
      rxbuf := if lostPacCnt = 9 then memset rxbuf ops.zero c.rxbuflen else rxbuf
      lostPacCnt }
  else { c with rxbuf }

/-- `buffers[channel][frame] = rxbuf[nboutputs * frame + channel]` for each channel. -/
def deliver (buffers : Ports S nboutputs) (rxbuf : Nat → S) (frame : Nat) : Ports S nboutputs :=
  fun channel => Function.update (buffers channel) frame (frameAt rxbuf frame channel)

def nonInterleavedSmooths (llost : Nat) : Bool := 0 < llost && llost < 3

structure PortTurns (S : Type) (nboutputs : Nat) extends Turns S where
  buffers : Ports S nboutputs

/-- A frame goes out whenever one came in. -/
def portTurn (ops : SampleOps S) (lagrangeNum : Nat) (s : PortTurns S nboutputs)
    (slot : Slot S nboutputs) : PortTurns S nboutputs :=
  let t := turn ops lagrangeNum nonInterleavedSmooths s.toTurns slot
  ⟨t, if t.lframe = s.lframe then s.buffers else deliver s.buffers t.rxbuf s.lframe⟩

/-- Returns the context and the port buffers. -/
def readFromRingbufferAsyncNonInterleaved (ops : SampleOps S) (c : RxStream S nboutputs)
    (buffers : Ports S nboutputs) (slots : List (Slot S nboutputs)) :
    RxStream S nboutputs × Ports S nboutputs :=
  let s := slots.foldl (portTurn ops c.lagrangeNum) ⟨c.start, buffers⟩
  let rxbuf := c.shift s.toTurns
  let buffers :=
    if s.lframe < c.nframes >>> 1 then
      (List.range' (c.nframes - 1 - s.lframe) (s.lframe + 1)).foldl (deliver · rxbuf) s.buffers
    else s.buffers
  if s.lost ≠ 0 ∧ s.lost = c.nframes then
    let lostPacCnt := if c.lostPacCnt < 10 then c.lostPacCnt + 1 else c.lostPacCnt
    ({ c with rxbuf, lostPacCnt },
      if lostPacCnt ≥ 9 then
        fun channel frame => if frame < c.nframes then ops.zero else buffers channel frame
      else buffers)
  else ({ c with rxbuf }, buffers)

end Vban.Playback
