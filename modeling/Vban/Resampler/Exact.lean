import Mathlib.Algebra.BigOperators.Intervals
import Vban.Resampler.Output

/-! The resampler where all arithmetic is exact: the output is the input under one filter, at
multiples of the ratio. -/
namespace Vban.Zita

open Library

variable {tap : ℚ → Nat → ℚ → ℚ} {fr : ℚ} {hl np nchan n i j k : Nat} {x : Nat → ℚ} {phase : ℚ}
  {window : List (Option (List ℚ))}

def exactOps : SampleOps ℚ where
  round := id
  zero := 0
  tiny := 1 / 10 ^ 30
  add := (· + ·)
  sub := (· - ·)
  mul := (· * ·)
  ofDouble := id

/-- Straight lines between the multiples of `1 / np`. -/
def linear (np : Nat) (f : ℚ → ℚ) (t : ℚ) : ℚ :=
  (1 - Int.fract (t * np)) * f (⌊t * np⌋ / np) + Int.fract (t * np) * f ((⌊t * np⌋ + 1) / np)

theorem linear_eq {f : ℚ → ℚ} {t b : ℚ} {j : Int} (hb : 0 ≤ b) (hb' : b ≤ 1)
    (ht : t * np = j + b) :
    linear np f t = (1 - b) * f (j / np) + b * f ((j + 1) / np) := by
  rw [linear, ht]
  rcases hb'.lt_or_eq with hlt | rfl
  · have hfloor : ⌊(j : ℚ) + b⌋ = j := by
      rw [Int.floor_intCast_add, Int.floor_eq_zero_iff.mpr ⟨hb, hlt⟩, add_zero]
    rw [hfloor, Int.fract_intCast_add, Int.fract_eq_self.mpr ⟨hb, hlt⟩]
  · have hfloor : ⌊(j : ℚ) + 1⌋ = j + 1 := by
      rw [Int.floor_add_one, Int.floor_intCast]
    rw [hfloor, Int.fract_add_one, Int.fract_intCast, sub_self]
    push_cast
    ring

theorem getElem?_rows {F : Type} {round : ℚ → ℚ} {tap : ℚ → Nat → ℚ → F} (hj : j < n)
    (hi : i < hl) :
    ((List.range n).flatMap (ResamplerTable.row round tap fr hl np))[j * hl + i]? =
      (ResamplerTable.row round tap fr hl np j)[i]? := by
  induction n with
  | zero => exact absurd hj (Nat.not_lt_zero j)
  | succ n ih =>
    have hlength : ((List.range n).flatMap (ResamplerTable.row round tap fr hl np)).length =
        hl * n := ResamplerTable.length_rows round tap fr hl np n
    rw [List.range_succ, List.flatMap_append, List.flatMap_singleton]
    rcases Nat.lt_succ_iff_lt_or_eq.mp hj with hlt | rfl
    · have hbefore := plane_lt hlt hi
      rw [Nat.mul_comm n] at hbefore
      rw [List.getElem?_append_left (hlength ▸ hbefore), ih hlt]
    · rw [List.getElem?_append_right (by rw [hlength, Nat.mul_comm]; exact Nat.le_add_right _ _),
        hlength, Nat.mul_comm, Nat.add_sub_cancel_left]

/-- An entry of the table. -/
theorem readCell_new {F : Type} {tap : ℚ → Nat → ℚ → F} (hj : j ≤ np) (hi : i < hl) :
    readCell (ResamplerTable.new id tap fr hl np).ctab ((j * hl + i : Nat) : Int) =
      some (tap fr hl ((j : ℚ) / np + (hl - 1 - i : Nat))) := by
  have hsteps (m : Nat) (t : ℚ) : (fun t : ℚ => id (t + 1))^[m] t = t + m := by
    have hone := congrFun (add_right_iterate (1 : ℚ) m) t
    rwa [nsmul_one] at hone
  have hlength : ((List.range hl).map fun i =>
      tap fr hl ((fun t : ℚ => id (t + 1))^[i] (id ((j : ℚ) / np)))).length = hl := by
    rw [List.length_map, List.length_range]
  rw [readCell_natCast, ResamplerTable.new, getElem?_rows (Nat.lt_succ_of_le hj) hi,
    ResamplerTable.row, List.getElem?_reverse (hlength.symm ▸ hi), hlength, List.getElem?_map,
    List.getElem?_range (by omega), Option.map_some, hsteps, id]

theorem foldl_add (f : Nat → ℚ) (a : ℚ) (n : Nat) :
    (List.range n).foldl (fun s i => s + f i) a = a + ∑ i ∈ Finset.range n, f i := by
  induction n with
  | zero => simp
  | succ n ih =>
    rw [List.range_succ, List.foldl_append, ih, Finset.sum_range_succ, ← add_assoc]
    rfl

/-- A row of the table mixed with the one next to it is on a straight line between them. -/
theorem mix_eq_linear {f : ℚ → ℚ} (hnp : 0 < np) {b : ℚ} {m c : Nat} (hb : 0 ≤ b) (hb' : b ≤ 1) :
    (1 - b) * f (m / np + c) + b * f ((m + 1 : Nat) / np + c) =
      linear np f ((m + b) / np + c) := by
  have hnp' : (np : ℚ) ≠ 0 := (Nat.cast_pos.mpr hnp).ne'
  have hplace : ((m + b) / np + c) * np = ((c * np + m : Nat) : Int) + b := by
    push_cast
    field_simp
    ring
  rw [linear_eq hb hb' hplace]
  push_cast
  congr 3
  · field_simp
    ring
  · field_simp
    ring

theorem cast_sub_sub (hi : i < hl) : ((hl - 1 - i : Nat) : ℚ) = hl - 1 - i := by
  rw [Nat.sub_sub, Nat.cast_sub (by omega)]
  push_cast
  ring

/-- The coefficients of the earlier half of the window. -/
theorem mixAt_earlier (hphase : 0 ≤ phase) (hlt : phase < np) (hi : i < hl) :
    mixAt exactOps (ResamplerTable.new id tap fr hl np).ctab (1 - (phase - ⌊phase⌋₊))
        (phase - ⌊phase⌋₊) ((hl : Int) * ⌊phase⌋₊) hl i =
      linear np (tap fr hl) |hl - 1 + phase / np - i| := by
  have hnp : (0 : ℚ) < np := hphase.trans_lt hlt
  have hn : ⌊phase⌋₊ < np := (Nat.floor_lt hphase).mpr hlt
  have hfloor : (⌊phase⌋₊ : ℚ) ≤ phase := Nat.floor_le hphase
  have hfloor' : phase < ⌊phase⌋₊ + 1 := Nat.lt_floor_add_one phase
  generalize ⌊phase⌋₊ = n at *
  have hrow : (hl : Int) * n + i = ((n * hl + i : Nat) : Int) := by
    push_cast
    ring
  have hnext : (hl : Int) * n + i + hl = (((n + 1) * hl + i : Nat) : Int) := by
    push_cast
    ring
  have hplace : |(hl : ℚ) - 1 + phase / np - i| =
      (n + (phase - n)) / np + (hl - 1 - i : Nat) := by
    have hi' : (i : ℚ) + 1 ≤ hl := by exact_mod_cast hi
    have hdiv : 0 ≤ phase / np := div_nonneg hphase hnp.le
    rw [abs_of_nonneg (by linarith), cast_sub_sub hi]
    ring
  rw [hplace, ← mix_eq_linear (Nat.cast_pos.mp hnp) (by linarith) (by linarith), mixAt, hnext, hrow,
    readCell_new hn.le hi, readCell_new hn hi]
  rfl

/-- Those of the later half, from its end on. -/
theorem mixAt_later (hphase : 0 ≤ phase) (hlt : phase < np) (hi : i < hl) :
    mixAt exactOps (ResamplerTable.new id tap fr hl np).ctab (1 - (phase - ⌊phase⌋₊))
        (phase - ⌊phase⌋₊) ((hl : Int) * (np - ⌊phase⌋₊)) (-hl) i =
      linear np (tap fr hl) |hl - 1 + phase / np - (2 * hl - 1 - i : Nat)| := by
  have hnp : (0 : ℚ) < np := hphase.trans_lt hlt
  have hn : ⌊phase⌋₊ < np := (Nat.floor_lt hphase).mpr hlt
  have hfloor : (⌊phase⌋₊ : ℚ) ≤ phase := Nat.floor_le hphase
  have hfloor' : phase < ⌊phase⌋₊ + 1 := Nat.lt_floor_add_one phase
  generalize ⌊phase⌋₊ = n at *
  obtain ⟨m, rfl⟩ := Nat.exists_eq_add_of_lt hn
  have hrow : (hl : Int) * ((n + m + 1 : Nat) - n) + i = (((m + 1) * hl + i : Nat) : Int) := by
    push_cast
    ring
  have hnext : (hl : Int) * ((n + m + 1 : Nat) - n) + i + -hl = ((m * hl + i : Nat) : Int) := by
    push_cast
    ring
  have hplace : |(hl : ℚ) - 1 + phase / (n + m + 1 : Nat) - (2 * hl - 1 - i : Nat)| =
      (m + (1 - (phase - n))) / (n + m + 1 : Nat) + (hl - 1 - i : Nat) := by
    have hi' : (i : ℚ) + 1 ≤ hl := by exact_mod_cast hi
    have hdiv : phase / (n + m + 1 : Nat) < 1 := (div_lt_one hnp).mpr hlt
    have hlast : ((2 * hl - 1 - i : Nat) : ℚ) = 2 * hl - 1 - i := by
      rw [Nat.sub_sub, Nat.cast_sub (by omega)]
      push_cast
      ring
    rw [hlast, cast_sub_sub hi, abs_of_nonpos (by linarith)]
    have hnp' := hnp.ne'
    push_cast at hnp' ⊢
    field_simp
    ring
  rw [hplace, ← mix_eq_linear (Nat.cast_pos.mp hnp) (by linarith) (by linarith), mixAt, hnext, hrow,
    readCell_new (by omega) hi, readCell_new (by omega) hi]
  simp only [exactOps, Option.getD_some]
  ring

/-- A sample of the output is the window under the filter, centred at the position. -/
theorem interpolate_exact (hphase : 0 ≤ phase) (hlt : phase < np) :
    interpolate exactOps (ResamplerTable.new id tap fr hl np) x phase =
      ∑ k ∈ Finset.range (2 * hl), x k * linear np (tap fr hl) |hl - 1 + phase / np - k| := by
  obtain ⟨w, hw⟩ : ∃ w : Nat → ℚ, w = fun k : Nat =>
      x k * linear np (tap fr hl) |hl - 1 + phase / np - k| := ⟨_, rfl⟩
  have hfold : ∀ s : ℚ, ∀ i ∈ List.range hl,
      exactOps.add s (exactOps.add
        (exactOps.mul (x i) (mixAt exactOps (ResamplerTable.new id tap fr hl np).ctab
          (1 - (phase - ⌊phase⌋₊)) (phase - ⌊phase⌋₊) ((hl : Int) * ⌊phase⌋₊) hl i))
        (exactOps.mul (x (2 * hl - 1 - i)) (mixAt exactOps (ResamplerTable.new id tap fr hl np).ctab
          (1 - (phase - ⌊phase⌋₊)) (phase - ⌊phase⌋₊) ((hl : Int) * (np - ⌊phase⌋₊)) (-hl) i))) =
        s + (w i + w (2 * hl - 1 - i)) := by
    intro s i hi
    rw [mixAt_earlier hphase hlt (List.mem_range.mp hi), mixAt_later hphase hlt
      (List.mem_range.mp hi), hw]
    rfl
  have hlater : ∑ i ∈ Finset.range hl, w (2 * hl - 1 - i) = ∑ i ∈ Finset.range hl, w (hl + i) := by
    rw [← Finset.sum_range_reflect]
    refine Finset.sum_congr rfl fun i hi => ?_
    have hi' := Finset.mem_range.mp hi
    congr 1
    omega
  calc interpolate exactOps (ResamplerTable.new id tap fr hl np) x phase
      = (List.range hl).foldl (fun s i => s + (w i + w (2 * hl - 1 - i))) (1 / 10 ^ 30) -
          1 / 10 ^ 30 := by
        rw [interpolate]
        exact congrArg (· - 1 / 10 ^ 30) (List.foldl_ext _ _ _ hfold)
    _ = ∑ i ∈ Finset.range hl, w i + ∑ i ∈ Finset.range hl, w (hl + i) := by
        rw [foldl_add, Finset.sum_add_distrib, hlater, add_sub_cancel_left]
    _ = ∑ k ∈ Finset.range (2 * hl), w k := by
        rw [Nat.two_mul, Finset.sum_range_add]
    _ = _ := by rw [hw]

theorem lineSample_silent {F : Type} {ops : SampleOps F} {window : List (Option (List F))}
    (h : window.all fun frame => frame.isNone) (j k : Nat) :
    lineSample ops window j k = ops.zero := by
  rw [lineSample]
  cases hframe : window[k]? with
  | none => rfl
  | some frame =>
    have hnone := List.all_eq_true.mp h frame (List.mem_of_getElem? hframe)
    rw [Option.isNone_iff_eq_none.mp hnone]
    rfl

/-- A silent window gives the same as any other. -/
theorem frameAt_exact (hphase : 0 ≤ phase) (hlt : phase < np) :
    frameAt exactOps (ResamplerTable.new id tap fr hl np) nchan window phase =
      (List.range nchan).map fun j => ∑ k ∈ Finset.range (2 * hl),
        lineSample exactOps window j k * linear np (tap fr hl) |hl - 1 + phase / np - k| := by
  rw [frameAt]
  split_ifs with hsilent
  · symm
    have hreplicate := List.map_eq_replicate_iff (l := List.range nchan) (b := exactOps.zero)
      (f := fun j => ∑ k ∈ Finset.range (2 * hl),
        lineSample exactOps window j k * linear np (tap fr hl) |hl - 1 + phase / np - k|)
    rw [List.length_range] at hreplicate
    refine hreplicate.mpr fun j _ => Finset.sum_eq_zero fun k _ => ?_
    rw [lineSample_silent hsilent, exactOps, zero_mul]
  · exact List.map_congr_left fun j _ => interpolate_exact hphase hlt

/-- The window at a position, under the filter around it. -/
def filtered (tap : ℚ → Nat → ℚ → ℚ) (fr : ℚ) (hl np : Nat) (line : List (Option (List ℚ)))
    (position : ℚ) (j : Nat) : ℚ :=
  ∑ k ∈ Finset.range (2 * hl), lineSample exactOps line j (⌊position⌋₊ + k) *
    linear np (tap fr hl) |position + hl - 1 - (⌊position⌋₊ + k : Nat)|

/-- Where the next frame lies in the stream. -/
def Stream.position {F : Type} (np : Nat) (s : Stream F) : ℚ := s.start + s.phase / np

theorem Stream.floor_position {F : Type} {s : Stream F} (h : s.toPhase.InFrame np) :
    ⌊s.position np⌋₊ = s.start := by
  have hphase := h.floor_position
  have hnonneg : 0 ≤ s.toPhase.position np :=
    add_nonneg (Nat.cast_nonneg _) (div_nonneg h.nonneg h.np_pos.le)
  have hposition : s.position np = s.toPhase.position np + s.start := by
    rw [Stream.position, Phase.position, Stream.toPhase, Nat.cast_zero, zero_add, add_comm]
  rw [hposition, Nat.floor_add_natCast hnonneg, hphase]
  exact Nat.zero_add _

/-- At a fixed ratio the frames of the output lie at its multiples. -/
theorem Stream.after_position {F : Type} {s : Stream F} {ratio : ℚ} (hratio : 0 < ratio)
    (h : s.toPhase.InFrame np) (m : Nat) :
    (s.after id np (np / ratio) 1 m).toPhase.InFrame np ∧
      (s.after id np (np / ratio) 1 m).position np = s.position np + m / ratio := by
  induction m generalizing s with
  | zero => exact ⟨h, by rw [Nat.cast_zero, zero_div, add_zero]; rfl⟩
  | succ m ih =>
    have hnp := h.np_pos
    obtain ⟨hnext, hmoved⟩ := h.next (div_pos hnp hratio).le
    have hframe : (s.advance id np (np / ratio) 1).toPhase.InFrame np :=
      ⟨hnext.nonneg, hnext.lt⟩
    obtain ⟨hlast, hposition⟩ := ih hframe
    refine ⟨hlast, ?_⟩
    have hstep : (s.advance id np (np / ratio) 1).position np = s.position np + 1 / ratio := by
      rw [Phase.position, Phase.position, div_right_comm, div_self hnp.ne'] at hmoved
      simp only [Stream.toPhase, Nat.cast_zero, zero_add, sub_zero] at hmoved
      simp only [Stream.position, Stream.advance, Nat.cast_add, add_assoc]
      exact congrArg ((s.start : ℚ) + ·) hmoved
    rw [Stream.after, hposition, hstep]
    push_cast
    ring

theorem frameOf_exact {s : Stream ℚ} {line : List (Option (List ℚ))} (h : s.toPhase.InFrame np) :
    s.frameOf exactOps (ResamplerTable.new id tap fr hl np) nchan line =
      (List.range nchan).map (filtered tap fr hl np line (s.position np)) := by
  refine (frameAt_exact h.nonneg h.lt).trans ?_
  refine List.map_congr_left fun j _ => Finset.sum_congr rfl fun k hk => ?_
  have hsample : lineSample exactOps ((line.drop s.start).take (2 * hl)) j k =
      lineSample exactOps line j (⌊s.position np⌋₊ + k) := by
    rw [lineSample_take (Finset.mem_range.mp hk), lineSample_drop, Stream.floor_position h]
  refine congrArg₂ _ hsample (congrArg (fun t => linear np (tap fr hl) |t|) ?_)
  rw [Stream.floor_position h, Stream.position, show s.toPhase.phase = s.phase from rfl]
  push_cast
  ring

/-- What comes out of an object that has been set up, however its input is cut. -/
theorem started_processAll {env : Platform ℚ} {tables : Pool (ResamplerTable ℚ)}
    {v : VResampler ℚ} {table : ResamplerTable ℚ} {ratio frel : ℚ} {hlen : Nat}
    {feeds : List (Feed ℚ)} (hops : env.ops = exactOps)
    (h : Objects.Started env tables ratio nchan hlen frel v table)
    (htable : table = .new id tap fr hl nphase) (hfeeds : ∀ f ∈ feeds, f.Supplied nchan) :
    ∃ v' taken out k, v.processAll env.ops tables feeds = some (v', taken, out) ∧
      (out = ((List.range k).map fun (m : Nat) =>
        (List.range nchan).map (filtered tap fr hl nphase taken (m / ratio))).flatten) ∧
      (∀ m : Nat, m < k → ⌊m / ratio⌋₊ + 2 * hl ≤ taken.length) ∧
      (feeds ≠ [] → 0 < v'.outCount → taken.length < ⌊k / ratio⌋₊ + 2 * hl) := by
  subst htable
  obtain ⟨T, hT, hread⟩ := h.exists_table
  have hround : Rounding env.ops.round := hops ▸ rounding_id
  obtain ⟨v', taken, out, k, hrun, hplayed⟩ :=
    h.tracks.processAll hround hT hread (h.nchan_eq.symm ▸ hfeeds)
  have hqstep : v.qstep = nphase / ratio := by
    rw [h.qstep_eq, hops]
    rfl
  have hframe : (⟨[], 0, 0, nphase / ratio⟩ : Stream ℚ).toPhase.InFrame nphase :=
    ⟨le_rfl, by norm_num [nphase, Stream.toPhase]⟩
  have hexact (m : Nat) := Stream.after_position h.ratio_pos hframe m
  have hzero : (⟨[], 0, 0, nphase / ratio⟩ : Stream ℚ).position nphase = 0 := by
    rw [Stream.position, Nat.cast_zero, zero_div, add_zero]
  have hstart (m : Nat) : ((⟨[], 0, 0, nphase / ratio⟩ : Stream ℚ).after id nphase
      (nphase / ratio) 1 m).start = ⌊m / ratio⌋₊ := by
    rw [← Stream.floor_position (hexact m).1, (hexact m).2, hzero, zero_add]
  have hreached := hplayed.reached
  have hhungry := hplayed.hungry
  have hout := hplayed.out_eq
  rw [hops] at hout hreached hhungry
  simp only [hqstep, h.wstep_eq, h.nchan_eq, List.nil_append] at hreached hhungry hout
  refine ⟨v', taken, out, k, hrun, ?_, ?_, ?_⟩
  · rw [hout]
    refine congrArg List.flatten (List.map_congr_left fun m _ => ?_)
    refine (frameOf_exact (hexact m).1).trans ?_
    rw [(hexact m).2, hzero, zero_add]
  · intro m hm
    rw [← hstart]
    exact hreached m hm
  · rw [← hstart]
    exact hhungry

end Vban.Zita
