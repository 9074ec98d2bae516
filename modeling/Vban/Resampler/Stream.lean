import Vban.Resampler.Definitions

/-! What the resampler is for: the frames of a stream are read at positions between them, however
the stream is cut into inputs. `VResampler` computes this from its buffer. -/
namespace Vban.Zita

open Library

/-- The frames of an input; `none` is a frame of silence. -/
def inputFrames {F : Type} (nchan : Nat) : Nat → Option (List F) → List (Option (List F))
  | 0, _ => []
  | n + 1, inpData =>
    inpData.map (fun data => data.take nchan) ::
      inputFrames nchan n (inpData.map fun data => data.drop nchan)

/-- A channel of some frames. -/
def lineSample {F : Type} (ops : SampleOps F) (window : List (Option (List F))) (j k : Nat) : F :=
  ((window[k]?.join).bind fun frame => frame[j]?).getD ops.zero

/-- Entry `q + i` of the table mixed with the one `next` behind it. -/
def mixAt {F : Type} (ops : SampleOps F) (ctab : List F) (a b : F) (q next : Int) (i : Nat) : F :=
  ops.add (ops.mul a ((readCell ctab (q + i)).getD ops.zero))
    (ops.mul b ((readCell ctab (q + i + next)).getD ops.zero))

/-- The value between the middle samples of `x`, at a phase. -/
def interpolate {F : Type} (ops : SampleOps F) (table : ResamplerTable F) (x : Nat → F)
    (phase : ℚ) : F :=
  let hl := table.hl
  let n := ⌊phase⌋₊
  let b := ops.ofDouble (ops.round (phase - n))
  let a := ops.sub (ops.ofDouble 1) b
  let s := (List.range hl).foldl (fun s i =>
    ops.add s (ops.add (ops.mul (x i) (mixAt ops table.ctab a b ((hl : Int) * n) hl i))
      (ops.mul (x (2 * hl - 1 - i))
        (mixAt ops table.ctab a b ((hl : Int) * (table.np - n)) (-hl) i)))) ops.tiny
  ops.sub s ops.tiny

/-- All channels; silence stays silence. -/
def frameAt {F : Type} (ops : SampleOps F) (table : ResamplerTable F) (nchan : Nat)
    (window : List (Option (List F))) (phase : ℚ) : List F :=
  if window.all fun frame => frame.isNone then List.replicate nchan ops.zero
  else (List.range nchan).map fun j => interpolate ops table (lineSample ops window j) phase

/-- The frames that have been read of a stream, the first frame of the window for the next frame
of the output, the phase behind it, and the last step. -/
structure Stream (F : Type) where
  read : List (Option (List F))
  start : Nat
  phase : ℚ
  step : ℚ

namespace Stream

variable {F : Type}

/-- The frames that are to be read before the next one can be written. -/
def need (hl : Nat) (s : Stream F) : Nat := s.start + 2 * hl - s.read.length

def take (frames : List (Option (List F))) (s : Stream F) : Stream F :=
  { s with read := s.read ++ frames }

/-- Where the next frame lies, counted from the start of the window. -/
def toPhase (s : Stream F) : Phase := ⟨0, s.phase, s.step⟩

def advance (round : ℚ → ℚ) (np : Nat) (qstep wstep : ℚ) (s : Stream F) : Stream F :=
  let next := s.toPhase.next round np qstep wstep
  { s with
    start := s.start + next.nread
    phase := next.phase
    step := next.pstep }

/-- The frame at the phase. -/
def frame (ops : SampleOps F) (table : ResamplerTable F) (nchan : Nat) (s : Stream F) : List F :=
  frameAt ops table nchan (s.read.drop s.start) s.phase

end Stream

/-- What reading a stream comes to: the stream, the input that is left, the room that is left, and
the frames. -/
structure Reading (F : Type) where
  stream : Stream F
  input : List (Option (List F))
  room : Nat
  frames : List (List F)

/-- Up to `outCount` frames, as long as the input reaches. -/
def Stream.frames {F : Type} (ops : SampleOps F) (table : ResamplerTable F) (nchan : Nat)
    (qstep wstep : ℚ) : (outCount : Nat) → List (Option (List F)) → Stream F → Reading F
  | 0, input, s => ⟨s, input, 0, []⟩
  | outCount + 1, input, s =>
    if input.length < s.need table.hl then ⟨s.take input, [], outCount + 1, []⟩
    else
      let t := s.take (input.take (s.need table.hl))
      let rest := Stream.frames ops table nchan qstep wstep outCount
        (input.drop (s.need table.hl)) (t.advance ops.round table.np qstep wstep)
      { rest with frames := t.frame ops table nchan :: rest.frames }

end Vban.Zita
