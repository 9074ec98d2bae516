import Mathlib.Tactic.Linarith
import Vban.Resampler.Stream

/-! `process` stays inside its objects, and writes what the stream gives. -/
namespace Vban.Zita

open Library

variable {F : Type} {ops : SampleOps F} {table : ResamplerTable F} {v v' : VResampler F}
  {p : VResampler.Pointers} {s : Stream F} {frame : Option (List F)}
  {window : List (Option (List F))} {j k n : Nat}

theorem length_inputFrames {nchan : Nat} {inpData : Option (List F)} :
    (inputFrames nchan n inpData).length = n := by
  induction n generalizing inpData with
  | zero => rfl
  | succ n ih => rw [inputFrames, List.length_cons, ih]

theorem lineSample_append_left (h : k < window.length) :
    lineSample ops (window ++ [frame]) j k = lineSample ops window j k := by
  rw [lineSample, List.getElem?_append_left h, lineSample]

theorem lineSample_append_right :
    lineSample ops (window ++ [frame]) j window.length =
      (frame.bind fun frame => frame[j]?).getD ops.zero := by
  rw [lineSample, List.getElem?_concat_length, Option.join_some]

theorem lineSample_drop :
    lineSample ops (window.drop n) j k = lineSample ops window j (n + k) := by
  rw [lineSample, List.getElem?_drop, lineSample]

theorem lineSample_take (h : k < n) :
    lineSample ops (window.take n) j k = lineSample ops window j k := by
  rw [lineSample, List.getElem?_take_of_lt h, lineSample]

/-- The end of a list of frames is silent for one frame more. -/
theorem silent_concat (read : List (Option (List F))) :
    List.replicate (n + 1) none <:+ read ++ [none] ↔ List.replicate n none <:+ read := by
  rw [List.suffix_concat_iff, List.replicate_succ']
  constructor
  · rintro (h | ⟨t, ht, hsuffix⟩)
    · simp at h
    · rwa [(List.append_inj' ht rfl).1]
  · intro h
    exact .inr ⟨_, rfl, h⟩

theorem not_silent_concat (read : List (Option (List F))) (frame : List F) :
    ¬List.replicate (n + 1) none <:+ read ++ [some frame] := by
  rw [List.suffix_concat_iff, List.replicate_succ']
  rintro (h | ⟨t, ht, -⟩)
  · simp at h
  · simp at ht

namespace VResampler

/-- The pieces of the buffer, one for each channel. -/
def di (table : ResamplerTable F) (v : VResampler F) : Nat := 2 * table.hl + v.inmax

/-- What holds of a resampler that has been set up. -/
structure Ready (round : ℚ → ℚ) (table : ResamplerTable F) (v : VResampler F) : Prop where
  hl_pos : 0 < table.hl
  buff_length : v.buff.length = v.nchan * v.di table
  index_lt : v.index < v.inmax
  nread_le : v.nread ≤ 2 * table.hl
  ratio_ge : 1 ≤ 64 * v.ratio
  ratio_le : v.ratio ≤ 256
  /-- The filter is long enough for the lowest ratio that can be asked for. -/
  reach : 3 / v.ratio ≤ (2 * table.hl - 1 : Nat)
  paced : v.toPhase.Paced round table.np (2 * table.hl - 1) v.qstep v.wstep

/-- The object stands for the stream: its buffer holds the frames of the window that have been
read. -/
structure Tracks (ops : SampleOps F) (table : ResamplerTable F) (x : VResampler F × Pointers)
    (s : Stream F) : Prop where
  ready : Ready ops.round table x.1
  p1_eq : x.2.p1 = x.1.index
  p2_eq : x.2.p2 = x.1.index + 2 * table.hl - x.1.nread
  read_length : s.read.length + x.1.nread = s.start + 2 * table.hl
  phase_eq : x.1.phase = s.phase
  step_eq : x.1.pstep = s.step
  buff_eq : ∀ j k, j < x.1.nchan → k < 2 * table.hl - x.1.nread →
    x.1.buff[j * x.1.di table + (x.1.index + k)]? =
      some (lineSample ops (s.read.drop s.start) j k)
  nzero_iff : ∀ n, n ≤ x.1.nzero ↔
    n ≤ 2 * table.hl ∧ List.replicate n none <:+ s.read

/-- The object when `n` frames of the input have been read. -/
def afterReading (n : Nat) (buff : List F) (nzero : Nat) (inpData : Option (List F))
    (v : VResampler F) : VResampler F :=
  { v with
    buff := buff
    inpData := inpData
    nzero := nzero
    nread := v.nread - n
    inpCount := v.inpCount - n }

/-- The input has all its floats. -/
def Supplied (v : VResampler F) : Prop :=
  ∀ data, v.inpData = some data → v.inpCount * v.nchan ≤ data.length

/-- The frames that wait in the input. -/
def pending (v : VResampler F) : List (Option (List F)) :=
  inputFrames v.nchan v.inpCount v.inpData

theorem Tracks.window_length (h : Tracks ops table (v, p) s) :
    (s.read.drop s.start).length = 2 * table.hl - v.nread := by
  have hlen := h.read_length
  have hle := h.ready.nread_le
  simp only at hlen hle
  rw [List.length_drop]
  omega

theorem Tracks.need_eq (h : Tracks ops table (v, p) s) : s.need table.hl = v.nread := by
  have hlen := h.read_length
  have hle := h.ready.nread_le
  simp only at hlen hle
  rw [Stream.need]
  omega

/-- A column is stored behind the frames of the window. -/
theorem Tracks.storeColumn (h : Tracks ops table (v, p) s) (hread : 0 < v.nread) {xs : List F}
    (hxs : v.nchan ≤ xs.length) : ∃ buff,
      Library.storeColumn v.nchan (v.di table) p.p2 xs v.buff = some buff ∧
        buff.length = v.buff.length ∧ ∀ j k, j < v.nchan → k < v.di table →
          buff[j * v.di table + k]? = if k = v.index + (2 * table.hl - v.nread) then xs[j]?
            else v.buff[j * v.di table + k]? := by
  have hready := h.ready
  have hindex := hready.index_lt
  have hle := hready.nread_le
  have hp2 := h.p2_eq
  simp only at hindex hle hp2 hready
  have hplace : p.p2 = (v.index + (2 * table.hl - v.nread) : Nat) := by omega
  rw [hplace]
  refine storeColumn_spec hready.buff_length ?_ hxs
  rw [di]
  omega

/-- One more frame has been stored. -/
theorem Tracks.stored (h : Tracks ops table (v, p) s) (hread : 0 < v.nread) {buff : List F}
    {nzero : Nat} {inpData : Option (List F)} {xs : List F} (hlength : buff.length = v.buff.length)
    (hbuff : ∀ j k, j < v.nchan → k < v.di table →
      buff[j * v.di table + k]? = if k = v.index + (2 * table.hl - v.nread) then xs[j]?
        else v.buff[j * v.di table + k]?)
    (hframe : ∀ j, j < v.nchan →
      xs[j]? = some ((frame.bind fun frame => frame[j]?).getD ops.zero))
    (hnzero : ∀ n, n ≤ nzero ↔ n ≤ 2 * table.hl ∧ List.replicate n none <:+ s.read ++ [frame]) :
    Tracks ops table (v.afterReading 1 buff nzero inpData, { p with p2 := p.p2 + 1 })
      (s.take [frame]) := by
  have hready := h.ready
  have hle := hready.nread_le
  have hindex := hready.index_lt
  have hlen := h.read_length
  have hp2 := h.p2_eq
  have hwindow := h.window_length
  simp only at hready hle hindex hlen hp2
  refine ⟨⟨hready.hl_pos, hlength.trans hready.buff_length, hready.index_lt,
    (Nat.sub_le _ _).trans hle, hready.ratio_ge, hready.ratio_le, hready.reach,
    hready.paced.withNread _⟩, h.p1_eq, ?_, ?_, h.phase_eq, h.step_eq, ?_, hnzero⟩
  · simp only [afterReading]
    omega
  · simp only [Stream.take, List.length_append, List.length_singleton]
    change s.read.length + 1 + (v.nread - 1) = s.start + 2 * table.hl
    omega
  · intro j k hj hk
    simp only [afterReading] at hj hk ⊢
    have hdrop : (s.take [frame]).read.drop s.start = s.read.drop s.start ++ [frame] := by
      rw [Stream.take, List.drop_append_of_le_length (by omega)]
    have hplace : v.index + k < v.di table := by
      rw [di]
      omega
    rw [show (s.take [frame]).start = s.start from rfl, hdrop]
    refine (hbuff j _ hj hplace).trans ?_
    rcases Nat.lt_or_ge k (2 * table.hl - v.nread) with hlt | hge
    · rw [if_neg (by omega), lineSample_append_left (by omega)]
      exact h.buff_eq j k hj hlt
    · obtain rfl : k = (s.read.drop s.start).length := by omega
      rw [if_pos (by rw [hwindow]), lineSample_append_right]
      exact hframe j hj

/-- One frame of the input goes into the buffer. -/
theorem Tracks.readFrame (h : Tracks ops table (v, p) s) (hread : 0 < v.nread)
    (hcount : 0 < v.inpCount) (hsupplied : v.Supplied) :
    ∃ x buff nzero, VResampler.readFrame ops table.hl (v.di table) (v, p) = some x ∧
      x.1 = v.afterReading 1 buff nzero (v.inpData.map fun data => data.drop v.nchan) ∧
      Tracks ops table x (s.take [v.inpData.map fun data => data.take v.nchan]) := by
  cases hdata : v.inpData with
  | some data =>
    have hroom : v.nchan ≤ data.length :=
      (Nat.le_mul_of_pos_left _ hcount).trans (hsupplied data hdata)
    obtain ⟨buff, hstore, hlength, hbuff⟩ := h.storeColumn hread hroom
    refine ⟨_, buff, 0, ?_, rfl, h.stored hread hlength hbuff ?_ ?_⟩
    · rw [VResampler.readFrame]
      simp only [hdata, hstore]
      rfl
    · intro j hj
      rw [Option.map_some, Option.bind_some, List.getElem?_take_of_lt hj,
        List.getElem?_eq_getElem (hj.trans_le hroom)]
      rfl
    · intro n
      cases n with
      | zero => simp
      | succ n => simp [not_silent_concat]
  | none =>
    have hroom : v.nchan ≤ (List.replicate v.nchan ops.zero).length := by
      rw [List.length_replicate]
    obtain ⟨buff, hstore, hlength, hbuff⟩ := h.storeColumn hread hroom
    have hnzero := h.nzero_iff
    simp only at hnzero
    refine ⟨_, buff, if v.nzero < 2 * table.hl then v.nzero + 1 else v.nzero, ?_, rfl,
      h.stored hread hlength hbuff ?_ ?_⟩
    · rw [VResampler.readFrame]
      simp only [hdata, hstore]
      rfl
    · intro j hj
      rw [List.getElem?_replicate_of_lt hj]
      rfl
    · intro n
      cases n with
      | zero => simp
      | succ n =>
        have hfull := (hnzero v.nzero).mp le_rfl
        rw [Option.map_none, silent_concat]
        constructor
        · intro hle
          have hn : n ≤ v.nzero := by
            split_ifs at hle <;> omega
          refine ⟨?_, ((hnzero n).mp hn).2⟩
          split_ifs at hle <;> omega
        · rintro ⟨hle, hsilent⟩
          have hn := (hnzero n).mpr ⟨by omega, hsilent⟩
          split_ifs <;> omega

theorem Supplied.afterReading (h : v.Supplied) (buff : List F) (nzero : Nat) :
    (v.afterReading 1 buff nzero (v.inpData.map fun data => data.drop v.nchan)).Supplied := by
  intro data hdata
  obtain ⟨data', hdata', rfl⟩ := Option.map_eq_some_iff.mp hdata
  have hroom := h data' hdata'
  rw [List.length_drop]
  change (v.inpCount - 1) * v.nchan ≤ _
  rw [Nat.sub_mul, Nat.one_mul]
  exact Nat.sub_le_sub_right hroom v.nchan

theorem pending_eq_cons (hcount : 0 < v.inpCount) (buff : List F) (nzero : Nat) :
    v.pending = (v.inpData.map fun data => data.take v.nchan) ::
      (v.afterReading 1 buff nzero (v.inpData.map fun data => data.drop v.nchan)).pending := by
  rw [pending, pending, ← Nat.sub_add_cancel hcount, inputFrames]
  rfl

/-- Frames of the input go into the buffer until enough are there, or none is left. -/
theorem Tracks.readFrames (h : Tracks ops table (v, p) s) (hread : n ≤ v.nread)
    (hcount : n ≤ v.inpCount) (hsupplied : v.Supplied) :
    ∃ x buff nzero inpData, VResampler.readFrames ops table.hl (v.di table) n (v, p) = some x ∧
      x.1 = v.afterReading n buff nzero inpData ∧ x.1.Supplied ∧
      x.1.pending = v.pending.drop n ∧ Tracks ops table x (s.take (v.pending.take n)) := by
  induction n generalizing v p s with
  | zero =>
    refine ⟨_, v.buff, v.nzero, v.inpData, rfl, rfl, hsupplied, rfl, ?_⟩
    rw [List.take_zero, Stream.take, List.append_nil]
    exact h
  | succ n ih =>
    obtain ⟨⟨u, q⟩, buff, nzero, hturn, hu, hnext⟩ := h.readFrame (by omega) (by omega) hsupplied
    obtain rfl : u = v.afterReading 1 buff nzero (v.inpData.map fun data => data.drop v.nchan) := hu
    have hpending := pending_eq_cons (Nat.zero_lt_of_lt hcount) buff nzero
    obtain ⟨x, buff', nzero', inpData', hrest, hx, hroom, hleft, htracks⟩ :=
      ih hnext (Nat.le_sub_one_of_lt hread) (Nat.le_sub_one_of_lt hcount)
        (hsupplied.afterReading buff nzero)
    refine ⟨x, buff', nzero', inpData', ?_, ?_, hroom, ?_, ?_⟩
    · rw [VResampler.readFrames, hturn]
      exact hrest
    · rw [hx]
      simp only [VResampler.afterReading, Nat.sub_sub, Nat.add_comm 1 n]
    · rw [hleft, hpending, List.drop_succ_cons]
    · rw [hpending, List.take_succ_cons]
      simpa only [Stream.take, List.append_assoc, List.singleton_append] using htracks

theorem mixRows_eq {ctab : List F} {hl : Nat} {a b : F} {q next : Int}
    (hrow : ∀ i < hl, 0 ≤ q + i ∧ q + i < ctab.length)
    (hnext : ∀ i < hl, 0 ≤ q + i + next ∧ q + i + next < ctab.length) :
    mixRows ops ctab hl a b q next = some ((List.range hl).map (mixAt ops ctab a b q next)) := by
  apply mapM_eq_map
  intro i hi
  obtain ⟨x, hx⟩ := exists_readCell (hrow i (List.mem_range.mp hi))
  obtain ⟨y, hy⟩ := exists_readCell (hnext i (List.mem_range.mp hi))
  rw [mixAt, hx, hy]
  rfl

theorem convolve_eq {buff : List F} {hl : Nat} {c d x y : Nat → F} {q1 q2 : Int}
    (hx : ∀ i < hl, readCell buff (q1 + i) = some (x i))
    (hy : ∀ i < hl, readCell buff (q2 - 1 - i) = some (y i)) :
    convolve ops buff ((List.range hl).map c) ((List.range hl).map d) hl q1 q2 =
      some (ops.sub ((List.range hl).foldl (fun s i =>
        ops.add s (ops.add (ops.mul (x i) (c i)) (ops.mul (y i) (d i)))) ops.tiny) ops.tiny) := by
  rw [convolve, foldlM_eq_foldl]
  · rfl
  intro s i hi
  have hlt := List.mem_range.mp hi
  rw [hx i hlt, hy i hlt, List.getElem?_map, List.getElem?_map, List.getElem?_range hlt]
  rfl

/-- The rows of the table at the phase, and the next ones, are inside it. -/
theorem Ready.rows {round : ℚ → ℚ} (h : Ready round table v) : ⌊v.phase⌋₊ < table.np ∧
    ∀ i < table.hl,
      (0 ≤ (table.hl : Int) * ⌊v.phase⌋₊ + i ∧
        (table.hl : Int) * ⌊v.phase⌋₊ + i + table.hl < table.ctab.length) ∧
      0 ≤ (table.hl : Int) * (table.np - ⌊v.phase⌋₊) + i - table.hl ∧
        (table.hl : Int) * (table.np - ⌊v.phase⌋₊) + i < table.ctab.length := by
  have hlt : ⌊v.phase⌋₊ < table.np :=
    (Nat.floor_lt h.paced.inFrame.nonneg).mpr h.paced.inFrame.lt
  refine ⟨hlt, ?_⟩
  obtain ⟨m, hm⟩ := Nat.exists_eq_add_of_lt hlt
  intro i hi
  rw [table.length_ctab, hm]
  have hm' : (0 : Int) ≤ (table.hl : Int) * m := by positivity
  have hn' : (0 : Int) ≤ (table.hl : Int) * ⌊v.phase⌋₊ := by positivity
  push_cast
  refine ⟨⟨by omega, by nlinarith⟩, by nlinarith, by nlinarith⟩

/-- The silent frames have been counted right. -/
theorem Tracks.all_isNone (h : Tracks ops table (v, p) s) (hread : v.nread = 0) :
    (s.read.drop s.start).all (fun frame => frame.isNone) = true ↔ ¬v.nzero < 2 * table.hl := by
  have hlen := h.window_length
  rw [hread, Nat.sub_zero] at hlen
  have hread' := h.read_length
  simp only [hread, Nat.add_zero] at hread'
  have hsuffix : List.replicate (2 * table.hl) none <:+ s.read ↔
      s.read.drop s.start = List.replicate (2 * table.hl) none := by
    rw [List.suffix_iff_eq_drop, List.length_replicate, hread', Nat.add_sub_cancel, eq_comm]
  rw [not_lt, h.nzero_iff, and_iff_right le_rfl, hsuffix, List.eq_replicate_iff,
    and_iff_right hlen, List.all_eq_true]
  simp only [Option.isNone_iff_eq_none]

/-- The frame that is written is that of the stream. -/
theorem Tracks.outFrame (h : Tracks ops table (v, p) s) (hread : v.nread = 0) {room : Nat}
    (hdata : v.outData = some room) (hroom : v.nchan ≤ room) :
    VResampler.outFrame ops table v p =
      some ({ v with outData := some (room - v.nchan) }, s.frame ops table v.nchan) := by
  have hall := h.all_isNone hread
  have hp1 := h.p1_eq
  have hp2 := h.p2_eq
  have hbuff := h.buff_eq
  have hphase := h.phase_eq
  have hready := h.ready
  simp only [hread, Nat.sub_zero] at hp1 hp2 hbuff hphase hready
  simp only [VResampler.outFrame, hdata, Stream.frame, frameAt]
  by_cases hsounding : v.nzero < 2 * table.hl
  · rw [if_pos hsounding, if_neg (mt hall.mp (not_not_intro hsounding)), ← hphase]
    obtain ⟨-, hrows⟩ := hready.rows
    rw [mixRows_eq, some_bind, mixRows_eq, some_bind]
    · rw [mapM_eq_map (g := fun j =>
        interpolate ops table (lineSample ops (s.read.drop s.start) j) v.phase), some_bind,
        if_neg (not_lt.mpr hroom)]
      intro j hj
      have hlt := List.mem_range.mp hj
      have hcell (k : Nat) (hk : k < 2 * table.hl) :
          readCell v.buff (p.p1 + (j * (2 * table.hl + v.inmax) : Nat) + k) =
            some (lineSample ops (s.read.drop s.start) j k) := by
        rw [← hbuff j k hlt hk, hp1, ← readCell_natCast, di]
        congr 1
        push_cast
        ring
      rw [interpolate]
      refine convolve_eq (fun i hi => hcell i (by omega)) fun i hi => ?_
      rw [← hcell _ (by omega : 2 * table.hl - 1 - i < 2 * table.hl)]
      congr 1
      omega
    · intro i hi
      have hrow := (hrows i hi).2
      omega
    · intro i hi
      have hrow := (hrows i hi).2
      omega
    · intro i hi
      have hrow := (hrows i hi).1
      omega
    · intro i hi
      have hrow := (hrows i hi).1
      omega
  · rw [if_neg hsounding, if_pos (hall.mpr hsounding), some_bind, if_neg (not_lt.mpr hroom)]

/-- The object after the step to the next frame. -/
def afterStep (index : Nat) (next : Phase) (buff : List F) (v : VResampler F) : VResampler F :=
  { v with
    toPhase := next
    index := index
    buff := buff }

/-- The window has moved along, in the buffer or with it. -/
theorem Tracks.stepped (hround : Rounding ops.round) (h : Tracks ops table (v, p) s)
    (hread : v.nread = 0) {next : Phase}
    (hnext : next = v.next ops.round table.np v.qstep v.wstep) {index : Nat} {buff : List F}
    (hindex : index < v.inmax) (hlength : buff.length = v.buff.length)
    (hbuff : ∀ j k, j < v.nchan → k < 2 * table.hl - next.nread →
      buff[j * v.di table + (index + k)]? =
        v.buff[j * v.di table + (v.index + (next.nread + k))]?) :
    Tracks ops table (v.afterStep index next buff, ⟨index, index + 2 * table.hl - next.nread⟩)
      (s.advance ops.round table.np v.qstep v.wstep) := by
  have hready := h.ready
  have hlen := h.read_length
  have hphase := h.phase_eq
  have hstep := h.step_eq
  simp only [hread, Nat.add_zero] at hlen hready hphase hstep
  have hpos := hready.hl_pos
  have hsame : s.advance ops.round table.np v.qstep v.wstep =
      ⟨s.read, s.start + next.nread, next.phase, next.pstep⟩ := by
    have htoPhase : s.toPhase = v.toPhase := by
      rw [Stream.toPhase, ← hphase, ← hstep, ← hread]
    rw [Stream.advance, htoPhase, hnext]
  obtain ⟨hpaced, hle⟩ := hready.paced.next hround
  rw [← hnext] at hpaced hle
  rw [hsame]
  refine ⟨⟨hready.hl_pos, hlength.trans hready.buff_length, hindex, ?_, hready.ratio_ge,
    hready.ratio_le, hready.reach, hpaced⟩, rfl, rfl, ?_, rfl, rfl, ?_, h.nzero_iff⟩
  · change next.nread ≤ 2 * table.hl
    omega
  · change s.read.length + next.nread = s.start + next.nread + 2 * table.hl
    omega
  · intro j k hj hk
    change k < 2 * table.hl - next.nread at hk
    refine (hbuff j k hj hk).trans ?_
    rw [← List.drop_drop, lineSample_drop]
    have hcell := h.buff_eq j (next.nread + k) hj
    simp only [hread, Nat.sub_zero] at hcell
    exact hcell (by omega)

/-- The step to the next frame, whether the buffer is moved to its start or not. -/
theorem Tracks.advance (hround : Rounding ops.round) (h : Tracks ops table (v, p) s)
    (hread : v.nread = 0) :
    ∃ x index buff, VResampler.advance ops.round table (v, p) = some x ∧
      x.1 = v.afterStep index (v.next ops.round table.np v.qstep v.wstep) buff ∧
      Tracks ops table x (s.advance ops.round table.np v.qstep v.wstep) := by
  obtain ⟨next, hnext⟩ : ∃ next, next = v.next ops.round table.np v.qstep v.wstep := ⟨_, rfl⟩
  have hready := h.ready
  have hindex := hready.index_lt
  have hp1 := h.p1_eq
  have hp2 := h.p2_eq
  simp only [hread, Nat.cast_zero, sub_zero] at hindex hp1 hp2 hready
  have hle := (hready.paced.next hround).2
  have hpos := hready.hl_pos
  rw [← hnext] at hle ⊢
  have hstay : ∀ j k : Nat, v.buff[j * v.di table + (v.index + next.nread + k)]? =
      v.buff[j * v.di table + (v.index + (next.nread + k))]? := fun j k => by rw [Nat.add_assoc]
  simp only [VResampler.advance]
  by_cases hover : ops.round (v.phase + v.nextStep ops.round v.qstep v.wstep) ≥ table.np
  · have hparts := hnext
    simp only [Phase.next, if_pos hover] at hparts
    rw [if_pos hover]
    by_cases hmove : v.index + next.nread ≥ v.inmax
    · obtain ⟨buff, hmoved, hlength, hbuff⟩ : ∃ buff,
          moveToStart v.nchan (2 * table.hl + v.inmax) (p.p1 + next.nread)
            (2 * table.hl - next.nread) v.buff = some buff ∧ buff.length = v.buff.length ∧
          ∀ j k, j < v.nchan → k < v.di table → buff[j * v.di table + k]? =
            if k < 2 * table.hl - next.nread then
              v.buff[j * v.di table + (v.index + next.nread + k)]?
            else v.buff[j * v.di table + k]? := by
        have hn : (2 * table.hl : Int) - next.nread = (2 * table.hl - next.nread : Nat) := by omega
        rw [hn, hp1, ← Int.natCast_add]
        exact moveToStart_spec hready.buff_length (by omega)
      have hfirst : 0 < v.inmax := Nat.zero_lt_of_lt hindex
      have hstepped := h.stepped hround hread hnext hfirst hlength (by
        intro j k hj hk
        rw [Nat.zero_add, hbuff j k hj (by rw [di]; omega), if_pos hk, hstay])
      rw [Nat.cast_zero, Int.zero_add] at hstepped
      subst hparts
      rw [if_pos hmove, hmoved, some_bind]
      exact ⟨_, 0, buff, rfl, rfl, hstepped⟩
    · have hstepped := h.stepped hround hread hnext (not_le.mp hmove) rfl fun j k _ _ => hstay j k
      have hpointers : ({ p with p1 := p.p1 + next.nread } : Pointers) =
          ⟨(v.index + next.nread : Nat),
            (v.index + next.nread : Nat) + 2 * table.hl - next.nread⟩ := by
        rw [hp1, hp2, Pointers.mk.injEq]
        omega
      rw [← hpointers] at hstepped
      subst hparts
      rw [if_neg hmove]
      exact ⟨_, _, v.buff, rfl, rfl, hstepped⟩
  · have hparts := hnext
    simp only [Phase.next, if_neg hover] at hparts
    have hstepped := h.stepped hround hread hnext hindex rfl fun j k _ _ => by
      rw [hparts, Nat.zero_add]
    have hpointers : p = ⟨v.index, v.index + 2 * table.hl - next.nread⟩ := by
      rw [← hp1, hparts, Nat.cast_zero, Int.sub_zero, hp1, ← hp2, ← hp1]
    rw [← hpointers] at hstepped
    subst hparts
    rw [if_neg hover]
    refine ⟨_, v.index, v.buff, rfl, ?_, ?_⟩
    · rw [afterStep, ← hread]
    · simp only [afterStep, ← hread] at hstepped
      exact hstepped

/-- What a call leaves as it is. -/
structure Kept (v v' : VResampler F) : Prop where
  table_eq : v'.table = v.table
  nchan_eq : v'.nchan = v.nchan
  inmax_eq : v'.inmax = v.inmax
  ratio_eq : v'.ratio = v.ratio
  qstep_eq : v'.qstep = v.qstep
  wstep_eq : v'.wstep = v.wstep

theorem Kept.trans {v'' : VResampler F} (h : Kept v v') (h' : Kept v' v'') : Kept v v'' :=
  ⟨h'.table_eq.trans h.table_eq, h'.nchan_eq.trans h.nchan_eq, h'.inmax_eq.trans h.inmax_eq,
    h'.ratio_eq.trans h.ratio_eq, h'.qstep_eq.trans h.qstep_eq, h'.wstep_eq.trans h.wstep_eq⟩

/-- The pointers with which a call starts. -/
def pointers (table : ResamplerTable F) (v : VResampler F) : Pointers :=
  ⟨v.index, v.index + 2 * table.hl - v.nread⟩

/-- A call comes to the same as reading the stream. -/
structure Agrees (ops : SampleOps F) (table : ResamplerTable F) (v v' : VResampler F)
    (out : List F) (r : Reading F) : Prop where
  kept : Kept v v'
  supplied : v'.Supplied
  pending_eq : v'.pending = r.input
  outCount_eq : v'.outCount = r.room
  outData_eq : v'.outData = v.outData.map fun room => room - r.frames.length * v.nchan
  out_eq : out = if v.outData.isSome then r.frames.flatten else []
  tracks : Tracks ops table (v', v'.pointers table) r.stream

/-- Reading the input before the call returns. -/
theorem Agrees.of_kept {u : VResampler F} {out : List F} {r : Reading F}
    (h : Agrees ops table u v' out r) (hkept : Kept v u) (hdata : u.outData = v.outData) :
    Agrees ops table v v' out r := by
  refine ⟨hkept.trans h.kept, h.supplied, h.pending_eq, h.outCount_eq, ?_, ?_, h.tracks⟩
  · rw [h.outData_eq, hdata, hkept.nchan_eq]
  · rw [h.out_eq, hdata]

/-- A frame more is written before the rest. -/
theorem Agrees.cons {u : VResampler F} {out : List F} {r : Reading F}
    (h : Agrees ops table u v' out r) (hkept : Kept v u)
    (hdata : u.outData = v.outData.map fun room => room - v.nchan) (frame : List F) :
    Agrees ops table v v' ((if v.outData.isSome then frame else []) ++ out)
      { r with frames := frame :: r.frames } := by
  refine ⟨hkept.trans h.kept, h.supplied, h.pending_eq, h.outCount_eq, ?_, ?_, h.tracks⟩
  · rw [h.outData_eq, hdata, hkept.nchan_eq, Option.map_map]
    congr 1
    funext room
    rw [Function.comp_apply, List.length_cons, Nat.succ_mul, Nat.sub_sub, Nat.add_comm]
  · rw [h.out_eq, hdata, Option.isSome_map]
    split_ifs
    · rw [List.flatten_cons]
    · rfl

/-- There is room for the frames that are asked for. -/
def Roomy (outCount : Nat) (v : VResampler F) : Prop :=
  ∀ room, v.outData = some room → outCount * v.nchan ≤ room

/-- The counts and the addresses of the caller are not part of what the stream says. -/
theorem Tracks.load (h : Tracks ops table (v, p) s) (inpCount : Nat) (inpData : Option (List F))
    (outCount : Nat) (outData : Option Nat) :
    Tracks ops table (v.load inpCount inpData outCount outData, p) s := by
  obtain ⟨hready, hp1, hp2, hread, hphase, hstep, hbuff, hnzero⟩ := h
  exact ⟨⟨hready.hl_pos, hready.buff_length, hready.index_lt, hready.nread_le, hready.ratio_ge,
    hready.ratio_le, hready.reach, hready.paced⟩, hp1, hp2, hread, hphase, hstep, hbuff, hnzero⟩

/-- The frame goes to `out_data` if that is there. -/
theorem Tracks.written (h : Tracks ops table (v, p) s) (hread : v.nread = 0)
    (hroom : Roomy (n + 1) v) : ∃ outData,
      VResampler.outFrame ops table v p = some (v.load v.inpCount v.inpData v.outCount outData,
        if v.outData.isSome then s.frame ops table v.nchan else []) ∧
      outData = v.outData.map (fun room => room - v.nchan) ∧
      Roomy n (v.load v.inpCount v.inpData v.outCount outData) := by
  cases hdata : v.outData with
  | none =>
    have hout : VResampler.outFrame ops table v p = some (v, []) := by
      rw [VResampler.outFrame, hdata]
    refine ⟨v.outData, ?_, hdata, fun room hsome => ?_⟩
    · rw [hout]
      rfl
    · rw [VResampler.load, hdata] at hsome
      cases hsome
  | some room =>
    have hle := hroom room hdata
    rw [Nat.succ_mul] at hle
    refine ⟨some (room - v.nchan), ?_, rfl, ?_⟩
    · rw [h.outFrame hread hdata (by omega)]
      rfl
    · intro room' hroom'
      obtain rfl := Option.some.inj hroom'
      change n * v.nchan ≤ room - v.nchan
      omega

theorem Tracks.pointers_eq (h : Tracks ops table (v, p) s) : p = v.pointers table := by
  have hp1 := h.p1_eq
  have hp2 := h.p2_eq
  simp only at hp1 hp2
  rw [pointers, ← hp2, ← hp1]

/-- The call ends with the object as it is. -/
theorem Tracks.agrees_stop (h : Tracks ops table (v, p) s) (hsupplied : v.Supplied) (n : Nat) :
    Agrees ops table v (v.load v.inpCount v.inpData n v.outData) [] ⟨s, v.pending, n, []⟩ := by
  refine ⟨⟨rfl, rfl, rfl, rfl, rfl, rfl⟩, hsupplied, rfl, rfl, ?_, ?_, ?_⟩
  · rw [List.length_nil, Nat.zero_mul]
    exact Option.map_id'.symm
  · rw [List.flatten_nil, ite_self]
  · have htracks := h.load v.inpCount v.inpData n v.outData
    rwa [htracks.pointers_eq] at htracks

/-- A turn of the loop that finds all it reads: the input is read, a frame is written to `outData`,
and the next one is stepped to. -/
structure FrameTurn (ops : SampleOps F) (table : ResamplerTable F) (n : Nat)
    (x : VResampler F × Pointers) (s : Stream F) (u : VResampler F × Pointers)
    (outData : Option Nat) (w : VResampler F × Pointers) : Prop where
  read : VResampler.readFrames ops table.hl (x.1.di table) x.1.nread x = some u
  nread_eq : u.1.nread = 0
  tracksRead : Tracks ops table u (s.take (x.1.pending.take x.1.nread))
  keptRead : Kept x.1 u.1
  outDataRead : u.1.outData = x.1.outData
  outData_eq : outData = x.1.outData.map fun room => room - x.1.nchan
  written : VResampler.outFrame ops table u.1 u.2 =
    some (u.1.load u.1.inpCount u.1.inpData u.1.outCount outData,
      if x.1.outData.isSome then (s.take (x.1.pending.take x.1.nread)).frame ops table x.1.nchan
      else [])
  advanced : VResampler.advance ops.round table
    (u.1.load u.1.inpCount u.1.inpData u.1.outCount outData, u.2) = some w
  tracks : Tracks ops table w ((s.take (x.1.pending.take x.1.nread)).advance ops.round table.np
    x.1.qstep x.1.wstep)
  kept : Kept x.1 w.1
  outData_next : w.1.outData = outData
  pending_eq : w.1.pending = x.1.pending.drop x.1.nread
  supplied : w.1.Supplied
  roomy : Roomy n w.1

theorem Tracks.turn (hround : Rounding ops.round) (h : Tracks ops table (v, p) s)
    (hsupplied : v.Supplied) (hroom : Roomy (n + 1) v) (hread : v.nread ≤ v.inpCount) :
    ∃ u outData w, FrameTurn ops table n (v, p) s u outData w := by
  obtain ⟨⟨u, q⟩, buff, nzero, inpData, hfill, hu, hrest, hleft, hnext⟩ :=
    h.readFrames (Nat.le_refl _) hread hsupplied
  simp only at hu hrest hleft
  have hnread : u.nread = 0 := by rw [hu, afterReading, Nat.sub_self]
  have hkept : Kept v u := hu ▸ ⟨rfl, rfl, rfl, rfl, rfl, rfl⟩
  have hdata : u.outData = v.outData := by rw [hu, afterReading]
  have hroom' : Roomy (n + 1) u := by
    rw [Roomy, hdata, hkept.nchan_eq]
    exact hroom
  obtain ⟨outData, hwrite, hout, hroomy⟩ := hnext.written hnread hroom'
  obtain ⟨⟨w, q'⟩, index, buff', hadvance, hw, htracks⟩ :=
    (hnext.load u.inpCount u.inpData u.outCount outData).advance hround hnread
  have hqstep : (u.load u.inpCount u.inpData u.outCount outData).qstep = v.qstep :=
    hkept.qstep_eq
  have hwstep : (u.load u.inpCount u.inpData u.outCount outData).wstep = v.wstep :=
    hkept.wstep_eq
  rw [hqstep, hwstep] at htracks
  rw [hdata, hkept.nchan_eq] at hwrite hout
  replace hw : w = (u.load u.inpCount u.inpData u.outCount outData).afterStep index
    (u.next ops.round table.np u.qstep u.wstep) buff' := hw
  have hpending : w.pending = u.pending := by
    rw [hw]
    rfl
  refine ⟨(u, q), outData, (w, q'), hfill, hnread, hnext, hkept, hdata, hout, hwrite, hadvance,
    htracks, hkept.trans (hw ▸ ⟨rfl, rfl, rfl, rfl, rfl, rfl⟩), ?_, hpending.trans hleft, ?_, ?_⟩
  · rw [hw]
    rfl
  · rw [hw]
    exact hrest
  · rw [hw]
    exact hroomy

/-- The input ends before the frame can be written. -/
theorem Tracks.readAll (h : Tracks ops table (v, p) s) (hsupplied : v.Supplied)
    (hstop : v.inpCount < v.nread) :
    ∃ u, VResampler.readFrames ops table.hl (v.di table) v.inpCount (v, p) = some u ∧
      u.1.nread ≠ 0 ∧ Kept v u.1 ∧ u.1.outData = v.outData ∧ u.1.Supplied ∧ u.1.pending = [] ∧
      Tracks ops table u (s.take v.pending) := by
  have hcount : v.pending.length = v.inpCount := length_inputFrames
  obtain ⟨⟨u, q⟩, buff, nzero, inpData, hfill, hu, hrest, hleft, hnext⟩ :=
    h.readFrames hstop.le (Nat.le_refl _) hsupplied
  simp only at hu hrest hleft
  have hnread : u.nread = v.nread - v.inpCount := by rw [hu, afterReading]
  rw [← hcount, List.drop_length] at hleft
  rw [← hcount, List.take_length] at hnext
  refine ⟨(u, q), hfill, ?_, hu ▸ ⟨rfl, rfl, rfl, rfl, rfl, rfl⟩, ?_, hrest, hleft, hnext⟩
  · rw [hnread]
    exact Nat.sub_ne_zero_of_lt hstop
  · rw [hu, afterReading]

/-- The loop over the output reads the stream. -/
theorem Tracks.frames (hround : Rounding ops.round) (h : Tracks ops table (v, p) s)
    (hsupplied : v.Supplied) (hroom : Roomy n v) :
    ∃ v' out, VResampler.frames ops table n (v, p) = some (v', out) ∧
      Agrees ops table v v' out (s.frames ops table v.nchan v.qstep v.wstep n v.pending) := by
  induction n generalizing v p s with
  | zero => exact ⟨_, _, rfl, h.agrees_stop hsupplied 0⟩
  | succ n ih =>
    have hneed := h.need_eq
    have hcount : v.pending.length = v.inpCount := length_inputFrames
    rw [VResampler.frames, show 2 * table.hl + v.inmax = v.di table from rfl, Stream.frames, hneed,
      hcount]
    by_cases hstop : v.inpCount < v.nread
    · obtain ⟨⟨u, q⟩, hread, hnread, hkept, hdata, hrest, hleft, hnext⟩ :=
        h.readAll hsupplied hstop
      rw [Nat.min_eq_right hstop.le, hread, some_bind, if_pos hstop, if_pos hnread]
      have hagrees := hnext.agrees_stop hrest (n + 1)
      rw [hleft] at hagrees
      exact ⟨_, _, rfl, hagrees.of_kept hkept hdata⟩
    · obtain ⟨⟨u, q⟩, outData, ⟨w, q'⟩, hturn⟩ :=
        h.turn hround hsupplied hroom (not_lt.mp hstop)
      have hkept : Kept v w := hturn.kept
      obtain ⟨v', out, hloop, hagrees⟩ := ih hturn.tracks hturn.supplied hturn.roomy
      have hcons := hagrees.cons hkept (hturn.outData_next.trans hturn.outData_eq)
        ((s.take (v.pending.take v.nread)).frame ops table v.nchan)
      rw [hturn.pending_eq, hkept.nchan_eq, hkept.qstep_eq, hkept.wstep_eq] at hcons
      rw [Nat.min_eq_left (not_lt.mp hstop), hturn.read, some_bind, if_neg hstop,
        if_neg (not_not_intro hturn.nread_eq)]
      refine ⟨v', _, ?_, hcons⟩
      simp only [hturn.written, hturn.advanced, hloop, some_bind]
      rfl

/-- Without a table nothing is done. -/
theorem process_none {tables : Pool (ResamplerTable F)} (hT : v.table = none) :
    v.process ops tables = some (1, v, []) := by
  rw [VResampler.process, hT]

/-- A call reads the stream. -/
theorem Tracks.process {tables : Pool (ResamplerTable F)} {T : Nat} (hround : Rounding ops.round)
    (h : Tracks ops table (v, v.pointers table) s) (hT : v.table = some T)
    (htable : tables.read T = some table) (hsupplied : v.Supplied) (hroom : Roomy v.outCount v) :
    ∃ v' out, v.process ops tables = some (0, v', out) ∧
      Agrees ops table v v' out
        (s.frames ops table v.nchan v.qstep v.wstep v.outCount v.pending) := by
  obtain ⟨v', out, hloop, hagrees⟩ := h.frames hround hsupplied hroom
  refine ⟨v', out, ?_, hagrees⟩
  rw [pointers] at hloop
  simp only [VResampler.process, hT, htable, some_bind, hloop]
  rfl

/-- Nothing has been read. -/
theorem Ready.tracks (h : Ready ops.round table v) (hnread : v.nread = 2 * table.hl)
    (hnzero : v.nzero = 0) (hphase : v.phase = 0) :
    Tracks ops table (v, v.pointers table) ⟨[], 0, 0, v.pstep⟩ := by
  refine ⟨h, rfl, rfl, ?_, hphase, rfl, ?_, ?_⟩
  · simp only [hnread, List.length_nil]
  · intro j k _ hk
    simp only [hnread, Nat.sub_self] at hk
    exact absurd hk (Nat.not_lt_zero k)
  · intro n
    simp only [hnzero, List.suffix_nil, List.replicate_eq_nil_iff]
    omega

section Members

variable {tables : Pool (ResamplerTable F)} {T : Nat}

theorem reset_eq (hT : v.table = some T) (htable : tables.read T = some table) :
    v.reset tables = some (0, { v with
      inpCount := 0
      outCount := 0
      inpData := none
      outData := none
      index := 0
      nread := 2 * table.hl
      nzero := 0
      phase := 0 }) := by
  simp only [VResampler.reset, hT, htable, some_bind]
  rfl

theorem setPhase_eq (round : ℚ → ℚ) (hT : v.table = some T)
    (htable : tables.read T = some table) (x : ℚ) :
    v.setPhase round tables x =
      some { v with phase := round (round (Int.fract x) * table.np) } := by
  simp only [VResampler.setPhase, hT, htable, some_bind, Int.self_sub_floor]
  rfl

theorem setRrfilt_eq (round : ℚ → ℚ) (hT : v.table = some T) (exp : ℚ → ℚ) (t : ℚ) :
    v.setRrfilt round exp t =
      { v with wstep := if t < 1 then 1 else round (1 - exp (round (-1 / t))) } := by
  simp only [VResampler.setRrfilt, hT]

theorem setRratio_eq (round : ℚ → ℚ) (hT : v.table = some T)
    (htable : tables.read T = some table) (r : ℚ) :
    v.setRratio round tables r = some { v with qstep := round (table.np / round (v.ratio *
      if (if r > 16 then 16 else r) < round (95 / 100) then round (95 / 100)
      else if r > 16 then 16 else r)) } := by
  simp only [VResampler.setRratio, hT, htable, some_bind]
  rfl

/-- The stream is read from its start, at the last step. -/
theorem Tracks.reset (h : Tracks ops table (v, p) s) (hT : v.table = some T)
    (htable : tables.read T = some table) :
    ∃ v', v.reset tables = some (0, v') ∧ v'.table = some T ∧
      Tracks ops table (v', v'.pointers table) ⟨[], 0, 0, s.step⟩ := by
  have hready := h.ready
  have hstep := h.step_eq
  simp only at hready hstep
  refine ⟨_, reset_eq hT htable, hT, ?_⟩
  rw [← hstep]
  have hpaced := hready.paced
  exact Ready.tracks ⟨hready.hl_pos, hready.buff_length, Nat.zero_lt_of_lt hready.index_lt, le_rfl,
    hready.ratio_ge, hready.ratio_le, hready.reach,
    hpaced.withPhase _ le_rfl hpaced.inFrame.np_pos⟩ rfl rfl rfl

/-- The phase moves to its new place, as long as rounding keeps it below a frame. -/
theorem Tracks.setPhase (hround : Rounding ops.round)
    (h : Tracks ops table (v, v.pointers table) s) (hT : v.table = some T)
    (htable : tables.read T = some table) {x : ℚ} (hx : ops.round (Int.fract x) < 1) :
    ∃ v', v.setPhase ops.round tables x = some v' ∧ v'.table = some T ∧
      Tracks ops table (v', v'.pointers table)
        { s with phase := ops.round (ops.round (Int.fract x) * table.np) } := by
  obtain ⟨hready, hp1, hp2, hread, hphase, hstep, hbuff, hnzero⟩ := h
  have hpaced := hready.paced
  have hnp : 0 < table.np := Nat.cast_pos.mp hpaced.inFrame.np_pos
  have hsize : table.np < 2 ^ 53 :=
    (Nat.le_mul_of_pos_left _ (Nat.succ_pos _)).trans_lt hpaced.size_lt
  refine ⟨_, setPhase_eq _ hT htable x, hT, ⟨hready.hl_pos, hready.buff_length, hready.index_lt,
    hready.nread_le, hready.ratio_ge, hready.ratio_le, hready.reach, hpaced.withPhase _ ?_ ?_⟩, rfl,
    rfl, hread, rfl, hstep, hbuff, hnzero⟩
  · exact hround.nonneg (mul_nonneg (hround.nonneg (Int.fract_nonneg x)) (Nat.cast_nonneg _))
  · exact hround.mul_lt _ _ (hround.round_round _) hx hnp hsize

/-- The steps that are asked for change, and how fast they are reached. -/
theorem Tracks.steps (h : Tracks ops table (v, v.pointers table) s) {qstep wstep : ℚ}
    (hpaced : v.toPhase.Paced ops.round table.np (2 * table.hl - 1) qstep wstep) :
    Tracks ops table ({ v with
      qstep := qstep
      wstep := wstep }, v.pointers table) s := by
  obtain ⟨hready, hp1, hp2, hread, hphase, hstep, hbuff, hnzero⟩ := h
  exact ⟨⟨hready.hl_pos, hready.buff_length, hready.index_lt, hready.nread_le, hready.ratio_ge,
    hready.ratio_le, hready.reach, hpaced⟩, hp1, hp2, hread, hphase, hstep, hbuff, hnzero⟩

theorem Tracks.setRrfilt (hround : Rounding ops.round)
    (h : Tracks ops table (v, v.pointers table) s) (hT : v.table = some T)
    {exp : ℚ → ℚ} (hexp : ∀ x, x ≤ 0 → 0 ≤ exp x ∧ exp x ≤ 1) (t : ℚ) :
    (v.setRrfilt ops.round exp t).table = some T ∧
      Tracks ops table (v.setRrfilt ops.round exp t,
        (v.setRrfilt ops.round exp t).pointers table) s := by
  have hpaced := h.ready.paced
  rw [setRrfilt_eq _ hT]
  refine ⟨hT, h.steps (hpaced.withWstep ?_ ?_)⟩
  · split_ifs with ht
    · exact zero_le_one
    · have hneg : -1 / t ≤ 0 := div_nonpos_of_nonpos_of_nonneg (by norm_num) (by linarith)
      exact hround.nonneg (sub_nonneg.mpr (hexp _ (hround.nonpos hneg)).2)
  · split_ifs with ht
    · exact le_rfl
    · have hneg : -1 / t ≤ 0 := div_nonpos_of_nonpos_of_nonneg (by norm_num) (by linarith)
      exact hround.le_of_le hround.one (sub_le_self _ (hexp _ (hround.nonpos hneg)).1)

/-- Every ratio that is asked for is brought into the range that the buffer allows. -/
theorem Tracks.setRratio (hround : Rounding ops.round)
    (h : Tracks ops table (v, v.pointers table) s) (hT : v.table = some T)
    (htable : tables.read T = some table) (r : ℚ) :
    ∃ v', v.setRratio ops.round tables r = some v' ∧ v'.table = some T ∧
      Tracks ops table (v', v'.pointers table) s := by
  have hready := h.ready
  simp only at hready
  have hset := setRratio_eq ops.round hT htable r
  have hleast := (hround.near (by norm_num : (1 : ℚ) / 2 ^ 53 ≤ 95 / 100)).1
  have hmost := hround.le_of_le hround.one (by norm_num : (95 : ℚ) / 100 ≤ 1)
  have hr : 85 / 100 ≤ (if (if r > 16 then 16 else r) < ops.round (95 / 100) then
        ops.round (95 / 100) else if r > 16 then 16 else r) ∧
      (if (if r > 16 then 16 else r) < ops.round (95 / 100) then
        ops.round (95 / 100) else if r > 16 then 16 else r) ≤ 16 := by
    constructor <;> split_ifs <;> linarith
  generalize (if (if r > 16 then 16 else r) < ops.round (95 / 100) then ops.round (95 / 100)
      else if r > 16 then 16 else r) = r' at hset hr
  have hpaced := hready.paced
  have hratio : 0 < v.ratio := by linarith [hready.ratio_ge]
  have hleast' : 1 / 2 ^ 53 ≤ v.ratio * r' := by nlinarith [hready.ratio_ge]
  have hmost' : v.ratio * r' ≤ 2 ^ 12 := by nlinarith [hready.ratio_le]
  have hnear := hround.near hleast'
  obtain ⟨hnonneg, hhalf⟩ := Phase.step_le (d := ops.round (v.ratio * r')) hround hratio
    (by nlinarith) (by linarith) (Nat.cast_pos.mp hpaced.inFrame.np_pos) hready.reach
  exact ⟨_, hset, hT, h.steps (hpaced.withQstep (hround.round_round _) hnonneg hhalf)⟩

end Members

end VResampler

end Vban.Zita
