import Vban.Library.Planes
import Vban.Library.Pool
import Vban.Resampler.Phase

/-! The class `VResampler` with its buffer, and the tables that its objects share. `none` is an
access outside an object. -/
namespace Vban.Zita

open Library

/-- `float` arithmetic, and the rounding of `double`. -/
structure SampleOps (F : Type) where
  round : ℚ → ℚ
  zero : F
  /-- `1e-30f` -/
  tiny : F
  add : F → F → F
  sub : F → F → F
  mul : F → F → F
  ofDouble : ℚ → F

/-- `ctab` has a row for each phase, and one more. -/
structure ResamplerTable (F : Type) where
  ctab : List F
  fr : ℚ
  hl : Nat
  np : Nat
  length_ctab : ctab.length = hl * (np + 1)

namespace ResamplerTable

variable {F : Type}

/-- Row `j` is filled from its end on. `tap fr hl t` is
`(float)(fr * sinc (t * fr) * wind (t / hl))`. -/
def row (round : ℚ → ℚ) (tap : ℚ → Nat → ℚ → F) (fr : ℚ) (hl np j : Nat) : List F :=
  ((List.range hl).map fun i =>
    tap fr hl ((fun t => round (t + 1))^[i] (round ((j : ℚ) / np)))).reverse

theorem length_row (round : ℚ → ℚ) (tap : ℚ → Nat → ℚ → F) (fr : ℚ) (hl np j : Nat) :
    (row round tap fr hl np j).length = hl := by
  rw [row, List.length_reverse, List.length_map, List.length_range]

theorem length_rows (round : ℚ → ℚ) (tap : ℚ → Nat → ℚ → F) (fr : ℚ) (hl np n : Nat) :
    ((List.range n).flatMap (row round tap fr hl np)).length = hl * n := by
  induction n with
  | zero => rfl
  | succ n ih =>
    rw [List.range_succ, List.flatMap_append, List.length_append, ih, List.flatMap_singleton,
      length_row, Nat.mul_succ]

/-- The constructor. -/
def new (round : ℚ → ℚ) (tap : ℚ → Nat → ℚ → F) (fr : ℚ) (hl np : Nat) : ResamplerTable F where
  ctab := (List.range (np + 1)).flatMap (row round tap fr hl np)
  fr := fr
  hl := hl
  np := np
  length_ctab := length_rows round tap fr hl np (np + 1)

/-- The table does for these arguments. -/
def suits (round : ℚ → ℚ) (fr : ℚ) (hl np : Nat) (P : ResamplerTable F) : Bool :=
  decide (fr ≥ round (P.fr * round (999 / 1000))) &&
    decide (fr ≤ round (P.fr * round (1001 / 1000))) && hl == P.hl && np == P.np

/-- The pool is `_list`. -/
def create (round : ℚ → ℚ) (tap : ℚ → Nat → ℚ → F) (fr : ℚ) (hl np : Nat)
    (tables : Pool (ResamplerTable F)) : Nat × Pool (ResamplerTable F) :=
  tables.acquire (suits round fr hl np) (new round tap fr hl np)

def destroy (T : Option Nat) (tables : Pool (ResamplerTable F)) :
    Option (Pool (ResamplerTable F)) :=
  match T with
  | none => some tables
  | some a => tables.release a

end ResamplerTable

/-- The members of the class; `_c1` and `_c2` are only used inside `process`. -/
structure VResampler (F : Type) extends Phase where
  /-- Where the table is, unless it is null. -/
  table : Option Nat
  nchan : Nat
  inmax : Nat
  index : Nat
  nzero : Nat
  ratio : ℚ
  qstep : ℚ
  wstep : ℚ
  buff : List F
  inpCount : Nat
  outCount : Nat
  /-- The floats from `inp_data` on, unless it is null. -/
  inpData : Option (List F)
  /-- The room from `out_data` on, in floats, unless it is null. -/
  outData : Option Nat

namespace VResampler

variable {F : Type}

/-- Returns the status and the object. -/
def reset (tables : Pool (ResamplerTable F)) (v : VResampler F) : Option (Nat × VResampler F) :=
  match v.table with
  | none => some (1, v)
  | some T => do
    let table ← tables.read T
    return (0, { v with
      inpCount := 0
      outCount := 0
      inpData := none
      outData := none
      index := 0
      nread := 2 * table.hl
      nzero := 0
      phase := 0 })

def clear (tables : Pool (ResamplerTable F)) (v : VResampler F) :
    Option (Pool (ResamplerTable F) × VResampler F) := do
  let tables ← ResamplerTable.destroy v.table tables
  let (_, v) ← reset tables { v with
    buff := []
    table := none
    nchan := 0
    inmax := 0
    pstep := 0
    qstep := 0
    wstep := 1 }
  return (tables, v)

/-- `fresh` is what `new` leaves in the buffer. -/
def setupWith (round : ℚ → ℚ) (tap : ℚ → Nat → ℚ → F) (fresh : Nat → F)
    (tables : Pool (ResamplerTable F)) (v : VResampler F) (ratio : ℚ) (nchan hlen : Nat)
    (frel : ℚ) : Option (Nat × Pool (ResamplerTable F) × VResampler F) :=
  if nchan = 0 ∨ hlen < 8 ∨ hlen > 96 ∨ 64 * ratio < 1 ∨ ratio > 256 then do
    let (tables, v) ← v.clear tables
    return (1, tables, v)
  else do
    let dp := round (nphase / ratio)
    let frel := if ratio < 1 then round (frel * ratio) else frel
    let hl := if ratio < 1 then ⌈round (hlen / ratio)⌉₊ else hlen
    let mi := if ratio < 1 then ⌈round (32 / ratio)⌉₊ else 32
    let (T, tables) := ResamplerTable.create round tap frel hl nphase tables
    let (tables, v) ← v.clear tables
    let n := nchan * (2 * hl + mi) % 2 ^ 32
    let (status, v) ← reset tables { v with
      table := some T
      buff := (List.range n).map fresh
      nchan := nchan
      ratio := ratio
      inmax := mi
      pstep := dp
      qstep := dp
      wstep := 1 }
    return (status, tables, v)

def setup (round : ℚ → ℚ) (tap : ℚ → Nat → ℚ → F) (fresh : Nat → F)
    (tables : Pool (ResamplerTable F)) (v : VResampler F) (ratio : ℚ) (nchan hlen : Nat) :
    Option (Nat × Pool (ResamplerTable F) × VResampler F) :=
  v.setupWith round tap fresh tables ratio nchan hlen
    (round (1 - round (round (26 / 10) / hlen)))

def setPhase (round : ℚ → ℚ) (tables : Pool (ResamplerTable F)) (v : VResampler F) (p : ℚ) :
    Option (VResampler F) :=
  match v.table with
  | none => some v
  | some T => do
    let table ← tables.read T
    return { v with phase := round (round (p - ⌊p⌋) * table.np) }

/-- `exp` is that of the C library. -/
def setRrfilt (round exp : ℚ → ℚ) (v : VResampler F) (t : ℚ) : VResampler F :=
  match v.table with
  | none => v
  | some _ => { v with wstep := if t < 1 then 1 else round (1 - exp (round (-1 / t))) }

def setRratio (round : ℚ → ℚ) (tables : Pool (ResamplerTable F)) (v : VResampler F) (r : ℚ) :
    Option (VResampler F) :=
  match v.table with
  | none => some v
  | some T => do
    let r := if r > 16 then 16 else r
    let r := if r < round (95 / 100) then round (95 / 100) else r
    let table ← tables.read T
    return { v with qstep := round (table.np / round (v.ratio * r)) }

def inpsize (tables : Pool (ResamplerTable F)) (v : VResampler F) : Option Nat :=
  match v.table with
  | none => some 0
  | some T => do
    let table ← tables.read T
    return 2 * table.hl

/-- `p1` and `p2`, the pointers into the buffer that `process` keeps in local variables. -/
structure Pointers where
  p1 : Int
  p2 : Int

/-- One turn of the loop that reads the input. -/
def readFrame (ops : SampleOps F) (hl di : Nat) (s : VResampler F × Pointers) :
    Option (VResampler F × Pointers) := do
  let (v, p) := s
  match v.inpData with
  | some data =>
    let buff ← storeColumn v.nchan di p.p2 data v.buff
    return ({ v with
      buff := buff
      inpData := some (data.drop v.nchan)
      nzero := 0
      nread := v.nread - 1
      inpCount := v.inpCount - 1 }, { p with p2 := p.p2 + 1 })
  | none =>
    let buff ← storeColumn v.nchan di p.p2 (List.replicate v.nchan ops.zero) v.buff
    return ({ v with
      buff := buff
      nzero := if v.nzero < 2 * hl then v.nzero + 1 else v.nzero
      nread := v.nread - 1
      inpCount := v.inpCount - 1 }, { p with p2 := p.p2 + 1 })

def readFrames (ops : SampleOps F) (hl di : Nat) :
    Nat → VResampler F × Pointers → Option (VResampler F × Pointers)
  | 0, s => some s
  | n + 1, s => do readFrames ops hl di n (← readFrame ops hl di s)

/-- `a * q[i] + b * q[i + next]` for all `i` below `hl`. -/
def mixRows (ops : SampleOps F) (ctab : List F) (hl : Nat) (a b : F) (q next : Int) :
    Option (List F) :=
  (List.range hl).mapM fun (i : Nat) => do
    let x ← readCell ctab (q + i)
    let y ← readCell ctab (q + i + next)
    return ops.add (ops.mul a x) (ops.mul b y)

/-- A sample of the output: `q1` runs upwards, and `q2` downwards. -/
def convolve (ops : SampleOps F) (buff c1 c2 : List F) (hl : Nat) (q1 q2 : Int) : Option F := do
  let s ← (List.range hl).foldlM (fun s (i : Nat) => do
    let x ← readCell buff (q1 + i)
    let c ← c1[i]?
    let y ← readCell buff (q2 - 1 - i)
    let d ← c2[i]?
    return ops.add s (ops.add (ops.mul x c) (ops.mul y d))) ops.tiny
  return ops.sub s ops.tiny

/-- The frame that goes to `out_data`, where that is not null. -/
def outFrame (ops : SampleOps F) (table : ResamplerTable F) (v : VResampler F) (p : Pointers) :
    Option (VResampler F × List F) :=
  match v.outData with
  | none => some (v, [])
  | some room => do
    let hl := table.hl
    let di := 2 * hl + v.inmax
    let frame ←
      if v.nzero < 2 * hl then do
        let n := ⌊v.phase⌋₊
        let b := ops.ofDouble (ops.round (v.phase - n))
        let a := ops.sub (ops.ofDouble 1) b
        let c1 ← mixRows ops table.ctab hl a b ((hl : Int) * n) hl
        let c2 ← mixRows ops table.ctab hl a b ((hl : Int) * (table.np - n)) (-hl)
        (List.range v.nchan).mapM fun j =>
          convolve ops v.buff c1 c2 hl (p.p1 + (j * di : Nat)) (p.p2 + (j * di : Nat))
      else some (List.replicate v.nchan ops.zero)
    if room < v.nchan then none
    else some ({ v with outData := some (room - v.nchan) }, frame)

/-- The step to the next frame, and where to read it. -/
def advance (round : ℚ → ℚ) (table : ResamplerTable F) (s : VResampler F × Pointers) :
    Option (VResampler F × Pointers) :=
  let (v, p) := s
  let dp := v.nextStep round v.qstep v.wstep
  let ph := round (v.phase + dp)
  if ph ≥ table.np then
    let nr := ⌊round (ph / table.np)⌋₊
    let p1 := p.p1 + nr
    let v := { v with
      pstep := dp
      phase := round (ph - nr * table.np)
      index := v.index + nr
      nread := nr }
    if v.index ≥ v.inmax then do
      let di := 2 * table.hl + v.inmax
      let n := 2 * (table.hl : Int) - nr
      let buff ← moveToStart v.nchan di p1 n v.buff
      return ({ v with
        buff := buff
        index := 0 }, ⟨0, n⟩)
    else some (v, { p with p1 := p1 })
  else some ({ v with
    pstep := dp
    phase := ph }, p)

/-- The loop over `out_count`. -/
def frames (ops : SampleOps F) (table : ResamplerTable F) :
    Nat → VResampler F × Pointers → Option (VResampler F × List F)
  | 0, (v, _) => some ({ v with outCount := 0 }, [])
  | outCount + 1, s => do
    let di := 2 * table.hl + s.1.inmax
    let s ← readFrames ops table.hl di (min s.1.nread s.1.inpCount) s
    if s.1.nread ≠ 0 then return ({ s.1 with outCount := outCount + 1 }, [])
    else
      let (v, frame) ← outFrame ops table s.1 s.2
      let s ← advance ops.round table (v, s.2)
      let (v, rest) ← frames ops table outCount s
      return (v, frame ++ rest)

/-- Returns the status, the object, and what is written from `out_data` on. -/
def process (ops : SampleOps F) (tables : Pool (ResamplerTable F)) (v : VResampler F) :
    Option (Nat × VResampler F × List F) :=
  match v.table with
  | none => some (1, v, [])
  | some T => do
    let table ← tables.read T
    let p1 : Int := v.index
    let p2 := p1 + 2 * table.hl - v.nread
    let (v, out) ← frames ops table v.outCount (v, ⟨p1, p2⟩)
    return (0, v, out)

/-- The public members, as a caller sets them. -/
def load (v : VResampler F) (inpCount : Nat) (inpData : Option (List F)) (outCount : Nat)
    (outData : Option Nat) : VResampler F :=
  { v with
    inpCount := inpCount
    inpData := inpData
    outCount := outCount
    outData := outData }

end VResampler

end Vban.Zita
