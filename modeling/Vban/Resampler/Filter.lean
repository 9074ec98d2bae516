import Vban.Receive.VResampler
import Vban.Resampler.Output

/-! The class in the place of the delay lines that the receive path leaves open. -/
namespace Vban.Zita

open Library

variable {ops : SampleOps CFloat} {table : ResamplerTable CFloat} {v v' : VResampler CFloat}
  {p : VResampler.Pointers} {s : Stream CFloat} {nchan n : Nat}

/-- The delay lines are the frames from the next window on. -/
def windowFilter (ops : SampleOps CFloat) (table : ResamplerTable CFloat) (nchan : Nat) :
    ResamplerFilter (List (Option (List CFloat))) where
  round := ops.round
  store := fun window frame => window ++ [frame]
  sample := fun window phase j => ((frameAt ops table nchan window phase)[j]?).getD ops.zero
  advance := fun window nr => window.drop nr

/-- The object, with the frames of its window in the place of its buffer. -/
def modelOf (table : ResamplerTable CFloat) (v : VResampler CFloat) (s : Stream CFloat) :
    Vban.VResampler (List (Option (List CFloat))) where
  toPhase := v.toPhase
  nchan := v.nchan
  hl := table.hl
  np := table.np
  ratio := v.ratio
  qstep := v.qstep
  wstep := v.wstep
  inpCount := v.inpCount
  outCount := v.outCount
  inpData := v.inpData
  outData := v.outData.isSome
  memory := s.read.drop s.start

theorem length_frameAt {window : List (Option (List CFloat))} {phase : ℚ} :
    (frameAt ops table nchan window phase).length = nchan := by
  rw [frameAt]
  split_ifs
  · exact List.length_replicate
  · rw [List.length_map, List.length_range]

theorem map_sample {window : List (Option (List CFloat))} {phase : ℚ} :
    (List.range nchan).map ((windowFilter ops table nchan).sample window phase) =
      frameAt ops table nchan window phase := by
  apply List.ext_getElem?
  intro j
  rw [List.getElem?_map]
  rcases Nat.lt_or_ge j nchan with hlt | hge
  · have hframe : j < (frameAt ops table nchan window phase).length := length_frameAt.symm ▸ hlt
    rw [List.getElem?_range hlt, List.getElem?_eq_getElem hframe, Option.map_some, windowFilter]
    simp only [List.getElem?_eq_getElem hframe, Option.getD_some]
  · rw [List.getElem?_eq_none (by rw [List.length_range]; exact hge),
      List.getElem?_eq_none (by rw [length_frameAt]; exact hge), Option.map_none]

namespace VResampler

theorem Tracks.start_le (h : Tracks ops table (v, p) s) : s.start ≤ s.read.length := by
  have hlen := h.read_length
  have hle := h.ready.nread_le
  simp only at hlen hle
  omega

theorem modelOf_readFrames (h : Tracks ops table (v, p) s) (hread : n ≤ v.nread)
    (hcount : n ≤ v.inpCount) (hsupplied : v.Supplied) {x : VResampler CFloat × Pointers}
    (hx : readFrames ops table.hl (v.di table) n (v, p) = some x) :
    (modelOf table v s).readFrames (windowFilter ops table v.nchan) n =
      modelOf table x.1 (s.take (v.pending.take n)) := by
  induction n generalizing v p s with
  | zero =>
    obtain rfl := Option.some.inj hx
    rw [List.take_zero, Stream.take, List.append_nil]
    rfl
  | succ n ih =>
    obtain ⟨⟨u, q⟩, buff, nzero, hturn, hu, hnext⟩ := h.readFrame (by omega) (by omega) hsupplied
    obtain rfl : u = v.afterReading 1 buff nzero (v.inpData.map fun data => data.drop v.nchan) := hu
    rw [readFrames, hturn, some_bind] at hx
    have hrest := ih hnext (Nat.le_sub_one_of_lt hread) (Nat.le_sub_one_of_lt hcount)
      (hsupplied.afterReading buff nzero) hx
    have hturn' : (modelOf table v s).readFrame (windowFilter ops table v.nchan) =
        modelOf table
          (v.afterReading 1 buff nzero (v.inpData.map fun data => data.drop v.nchan))
          (s.take [v.inpData.map fun data => data.take v.nchan]) := by
      have hmemory : s.read.drop s.start ++ [v.inpData.map fun data => data.take v.nchan] =
          (s.read ++ [v.inpData.map fun data => data.take v.nchan]).drop s.start :=
        (List.drop_append_of_le_length h.start_le).symm
      rw [Vban.VResampler.readFrame, modelOf, windowFilter]
      simp only [hmemory]
      rfl
    rw [Vban.VResampler.readFrames, hturn', pending_eq_cons (Nat.zero_lt_of_lt hcount) buff nzero,
      List.take_succ_cons]
    refine hrest.trans ?_
    simp only [Stream.take, List.append_assoc, List.singleton_append]

/-- The frame that is written, and the step to the next one. -/
theorem modelOf_writeFrame (hround : Rounding ops.round) (h : Tracks ops table (v, p) s)
    (hread : v.nread = 0) {x : VResampler CFloat × Pointers}
    (hx : advance ops.round table (v, p) = some x) :
    (modelOf table v s).writeFrame (windowFilter ops table v.nchan) =
      (modelOf table x.1 (s.advance ops.round table.np v.qstep v.wstep),
        if v.outData.isSome then s.frame ops table v.nchan else []) := by
  obtain ⟨⟨u, q⟩, index, buff, hadvance, hu, hnext⟩ := h.advance hround hread
  rw [hx] at hadvance
  obtain rfl := Option.some.inj hadvance
  obtain rfl : u = v.afterStep index (v.next ops.round table.np v.qstep v.wstep) buff := hu
  have hphase := h.phase_eq
  have hstep := h.step_eq
  simp only at hphase hstep
  have htoPhase : s.toPhase = v.toPhase := by
    rw [Stream.toPhase, ← hphase, ← hstep, ← hread]
  have hmemory : (windowFilter ops table v.nchan).advance (s.read.drop s.start)
      (v.next ops.round table.np v.qstep v.wstep).nread =
        s.read.drop (s.advance ops.round table.np v.qstep v.wstep).start := by
    rw [Stream.advance, htoPhase, ← List.drop_drop]
    rfl
  have hframe : (List.range v.nchan).map ((windowFilter ops table v.nchan).sample
      (s.read.drop s.start) v.phase) = s.frame ops table v.nchan := by
    rw [map_sample, Stream.frame, hphase]
  rw [Vban.VResampler.writeFrame, modelOf]
  simp only [hframe, show (windowFilter ops table v.nchan).round = ops.round from rfl, hmemory]
  rfl

theorem model_frames_cons {M : Type} {filter : ResamplerFilter M} {w w' u : Vban.VResampler M}
    {frame : List CFloat} (hread : w.readFrames filter (min w.nread w.inpCount) = w')
    (hdone : w'.nread = 0) (hwrite : w'.writeFrame filter = (u, frame)) :
    w.frames filter (n + 1) = ((u.frames filter n).1, frame ++ (u.frames filter n).2) := by
  rw [Vban.VResampler.frames, hread, if_neg (not_not_intro hdone), hwrite]

/-- A whole turn in the model. -/
theorem FrameTurn.model_frames {u w : VResampler CFloat × Pointers} {outData : Option Nat}
    (hround : Rounding ops.round) (h : Tracks ops table (v, p) s) (hsupplied : v.Supplied)
    (hread : v.nread ≤ v.inpCount) (hturn : FrameTurn ops table n (v, p) s u outData w)
    {r : Vban.VResampler (List (Option (List CFloat))) × List CFloat}
    (hr : (modelOf table w.1 ((s.take (v.pending.take v.nread)).advance ops.round table.np v.qstep
      v.wstep)).frames (windowFilter ops table v.nchan) n = r) :
    (modelOf table v s).frames (windowFilter ops table v.nchan) (n + 1) =
      (r.1, (if v.outData.isSome then
        (s.take (v.pending.take v.nread)).frame ops table v.nchan else []) ++ r.2) := by
  have hfill := modelOf_readFrames h (Nat.le_refl _) hread hsupplied hturn.read
  have hmin : min (modelOf table v s).nread (modelOf table v s).inpCount = v.nread :=
    Nat.min_eq_left hread
  have hstep := modelOf_writeFrame hround
    (hturn.tracksRead.load u.1.inpCount u.1.inpData u.1.outCount outData) hturn.nread_eq
    hturn.advanced
  -- where the output goes is no part of what the model keeps
  have hsome : outData.isSome = u.1.outData.isSome := by
    rw [hturn.outData_eq, Option.isSome_map, hturn.outDataRead]
  have hload : modelOf table (u.1.load u.1.inpCount u.1.inpData u.1.outCount outData)
      (s.take (v.pending.take v.nread)) = modelOf table u.1 (s.take (v.pending.take v.nread)) := by
    rw [modelOf, modelOf, VResampler.load, hsome]
  have hnchan : (u.1.load u.1.inpCount u.1.inpData u.1.outCount outData).nchan = v.nchan :=
    hturn.keptRead.nchan_eq
  have hqstep : (u.1.load u.1.inpCount u.1.inpData u.1.outCount outData).qstep = v.qstep :=
    hturn.keptRead.qstep_eq
  have hwstep : (u.1.load u.1.inpCount u.1.inpData u.1.outCount outData).wstep = v.wstep :=
    hturn.keptRead.wstep_eq
  have hdata : (u.1.load u.1.inpCount u.1.inpData u.1.outCount outData).outData.isSome =
      v.outData.isSome := hsome.trans (congrArg Option.isSome hturn.outDataRead)
  rw [hload, hnchan, hqstep, hwstep, hdata] at hstep
  rw [← hr]
  exact model_frames_cons (hmin.symm ▸ hfill) hturn.nread_eq hstep

/-- The loops go through the same streams. -/
theorem modelOf_frames (hround : Rounding ops.round) (h : Tracks ops table (v, p) s)
    (hsupplied : v.Supplied) (hroom : Roomy n v) {v' : VResampler CFloat} {out : List CFloat}
    (hx : frames ops table n (v, p) = some (v', out)) :
    (modelOf table v s).frames (windowFilter ops table v.nchan) n =
      (modelOf table v' (s.frames ops table v.nchan v.qstep v.wstep n v.pending).stream, out) := by
  induction n generalizing v p s out with
  | zero =>
    obtain ⟨rfl, rfl⟩ := Prod.mk.inj (Option.some.inj hx)
    rfl
  | succ n ih =>
    have hneed := h.need_eq
    have hcount : v.pending.length = v.inpCount := length_inputFrames
    rw [frames, show 2 * table.hl + v.inmax = v.di table from rfl] at hx
    rw [Stream.frames, hneed, hcount]
    by_cases hstop : v.inpCount < v.nread
    · obtain ⟨⟨u, q⟩, hread, hnread, -⟩ := h.readAll hsupplied hstop
      have hmodel := modelOf_readFrames h hstop.le (Nat.le_refl _) hsupplied hread
      have hmin : min (modelOf table v s).nread (modelOf table v s).inpCount = v.inpCount :=
        Nat.min_eq_right hstop.le
      rw [Nat.min_eq_right hstop.le, hread, some_bind, if_pos hnread] at hx
      obtain ⟨rfl, rfl⟩ := Prod.mk.inj (Option.some.inj hx)
      rw [← hcount, List.take_length, hcount] at hmodel
      rw [if_pos hstop, Vban.VResampler.frames, hmin, hmodel]
      exact if_pos hnread
    · obtain ⟨⟨u, q⟩, outData, ⟨w, q'⟩, hturn⟩ :=
        h.turn hround hsupplied hroom (not_lt.mp hstop)
      have hkept : Kept v w := hturn.kept
      rw [Nat.min_eq_left (not_lt.mp hstop), hturn.read, some_bind,
        if_neg (not_not_intro hturn.nread_eq)] at hx
      simp only [hturn.written, hturn.advanced, some_bind] at hx
      obtain ⟨⟨w', rest⟩, hloop, hlast⟩ := Option.bind_eq_some_iff.mp hx
      obtain ⟨rfl, rfl⟩ := Prod.mk.inj (Option.some.inj hlast)
      have hrest := ih hturn.tracks hturn.supplied hturn.roomy hloop
      rw [hturn.pending_eq, hkept.nchan_eq, hkept.qstep_eq, hkept.wstep_eq] at hrest
      rw [if_neg hstop, hturn.model_frames hround h hsupplied (not_lt.mp hstop) hrest]

/-- A call gives what the model gives. -/
theorem modelOf_process {tables : Pool (ResamplerTable CFloat)} {T : Nat}
    (hround : Rounding ops.round) (h : Tracks ops table (v, v.pointers table) s)
    (hT : v.table = some T) (htable : tables.read T = some table)
    (hsupplied : v.Supplied) (hroom : Roomy v.outCount v) :
    ∃ v' out s', v.process ops tables = some (0, v', out) ∧ Kept v v' ∧
      Tracks ops table (v', v'.pointers table) s' ∧ (v.outData = none → out = []) ∧
      (modelOf table v s).process (windowFilter ops table v.nchan) =
        (modelOf table v' s', out) := by
  obtain ⟨v', out, hprocess, hagrees⟩ := h.process hround hT htable hsupplied hroom
  refine ⟨v', out, _, hprocess, hagrees.kept, hagrees.tracks, fun hnone => ?_, ?_⟩
  · rw [hagrees.out_eq, hnone]
    rfl
  simp only [process, hT, htable, some_bind] at hprocess
  obtain ⟨⟨w, rest⟩, hloop, hlast⟩ := Option.bind_eq_some_iff.mp hprocess
  obtain ⟨-, hlast⟩ := Prod.mk.inj (Option.some.inj hlast)
  obtain ⟨rfl, rfl⟩ := Prod.mk.inj hlast
  exact modelOf_frames hround h hsupplied hroom hloop

end VResampler

/-- What the receive path does with the resampler of a stream. -/
inductive RxCall
  | rratio (r : ℚ)
  | process (inpData : List CFloat) (inpCount outCount : Nat)

/-- What `process` has left of the count, and what it has written. -/
abbrev RxResult := Nat × List CFloat

/-- The class in the receive path. -/
def VResampler.rxRun (ops : SampleOps CFloat) (tables : Pool (ResamplerTable CFloat)) :
    List RxCall → VResampler CFloat → Option (List RxResult)
  | [], _ => some []
  | .rratio r :: calls, v => do rxRun ops tables calls (← v.setRratio ops.round tables r)
  | .process inpData inpCount outCount :: calls, v => do
    let v := v.load inpCount (some inpData) outCount (some (outCount * v.nchan))
    let (_, v, out) ← v.process ops tables
    let results ← rxRun ops tables calls v
    return (v.outCount, out) :: results

/-- The receive path's own resampler. -/
def RxCall.run {M : Type} (filter : ResamplerFilter M) :
    List RxCall → Vban.VResampler M → List RxResult
  | [], _ => []
  | .rratio r :: calls, w => run filter calls (w.setRratio filter.round r)
  | .process inpData inpCount outCount :: calls, w =>
    let r := (w.load inpData inpCount outCount).process filter
    (r.1.outCount, r.2) :: run filter calls r.1

def RxCall.Supplied (nchan : Nat) : RxCall → Prop
  | rratio _ => True
  | process inpData inpCount _ => inpCount * nchan ≤ inpData.length

namespace VResampler

/-- In the receive path, the class gives the results of the model. -/
theorem Tracks.rxRun {tables : Pool (ResamplerTable CFloat)} {T : Nat} {calls : List RxCall}
    (hround : Rounding ops.round) (h : Tracks ops table (v, v.pointers table) s)
    (hT : v.table = some T) (htable : tables.read T = some table)
    (hcalls : ∀ c ∈ calls, c.Supplied v.nchan) :
    VResampler.rxRun ops tables calls v =
      some (RxCall.run (windowFilter ops table v.nchan) calls (modelOf table v s)) := by
  induction calls generalizing v s with
  | nil => rfl
  | cons c calls ih =>
    cases c with
    | rratio r =>
      obtain ⟨v', hset, hT', htracks⟩ := h.setRratio hround hT htable r
      have hmodel : modelOf table v' s =
          (modelOf table v s).setRratio (windowFilter ops table v.nchan).round r := by
        rw [setRratio_eq _ hT htable] at hset
        obtain rfl := Option.some.inj hset
        rfl
      have hnchan : v'.nchan = v.nchan := by
        rw [setRratio_eq _ hT htable] at hset
        rw [← Option.some.inj hset]
      rw [VResampler.rxRun, hset, some_bind, RxCall.run, ← hmodel, ← hnchan]
      exact ih htracks hT' fun c hc => hnchan ▸ hcalls c (List.mem_cons_of_mem _ hc)
    | process inpData inpCount outCount =>
      have hsupplied : (v.load inpCount (some inpData) outCount
          (some (outCount * v.nchan))).Supplied := by
        intro data hdata
        obtain rfl := Option.some.inj hdata
        exact hcalls _ List.mem_cons_self
      obtain ⟨v', out, s', hprocess, hkept, htracks, -, hmodel⟩ :=
        modelOf_process hround
          (h.load inpCount (some inpData) outCount (some (outCount * v.nchan))) hT htable hsupplied
          fun room hroom => (Option.some.inj hroom).le
      have hnchan : v'.nchan = v.nchan := hkept.nchan_eq
      have hrest := ih htracks (hkept.table_eq.trans hT) fun c hc =>
        hnchan ▸ hcalls c (List.mem_cons_of_mem _ hc)
      have hload : ((modelOf table v s).load inpData inpCount outCount).process
          (windowFilter ops table v.nchan) = (modelOf table v' s', out) := hmodel
      rw [VResampler.rxRun]
      simp only [hprocess, some_bind, hrest, RxCall.run, hload, hnchan]
      rfl

/-- An object that has been set up is what the model is set up as. -/
theorem modelOf_started {env : Platform CFloat} {tables : Pool (ResamplerTable CFloat)}
    {ratio frel : ℚ} (h : Objects.Started env tables ratio nchan 64 frel v table) :
    modelOf table (v.load (2 * table.hl - 1) none 999999 none)
        ⟨[], 0, 0, env.ops.round (nphase / ratio)⟩ =
      { nchan := nchan
        hl := table.hl
        np := nphase
        ratio := ratio
        nread := 2 * table.hl
        phase := 0
        pstep := env.ops.round (nphase / ratio)
        qstep := env.ops.round (nphase / ratio)
        wstep := 1
        inpCount := 2 * table.hl - 1
        outCount := 999999
        inpData := none
        outData := false
        memory := [] } := by
  have hread := h.tracks.read_length
  have hphase := h.tracks.phase_eq
  have hstep := h.tracks.step_eq
  simp only [List.length_nil, Nat.zero_add] at hread hphase hstep
  have htoPhase : v.toPhase = ⟨2 * table.hl, 0, env.ops.round (nphase / ratio)⟩ := by
    rw [← hread, ← hphase, ← hstep]
  rw [modelOf]
  simp only [VResampler.load, h.nchan_eq, h.np_eq, h.ratio_eq, h.qstep_eq, h.wstep_eq, htoPhase]
  rfl

/-- The resampler of a stream, as both receptors set it up and fill it before the first packet,
gives the receive path the results of the model. -/
theorem receive_refines {env : Platform CFloat} {t : Objects CFloat} {i : Nat} {ratio : ℚ}
    (hround : Rounding env.ops.round) (hexp : ∀ x, x ≤ 0 → 0 ≤ env.exp x ∧ env.exp x ≤ 1)
    (hreach : t.Reachable env) (hv : t.list[i]? = some v) (hnchan : nchan ≠ 0)
    (hnchan' : nchan < 2 ^ 18) (hlow : 1 ≤ 64 * ratio) (hhigh : ratio ≤ 256) :
    ∃ tables v₁ size v₂ table w,
      v.setup env.ops.round env.tap env.fresh t.tables ratio nchan 64 = some (0, tables, v₁) ∧
      v₁.inpsize tables = some size ∧
      (v₁.load (size - 1) none 999999 none).process env.ops tables = some (0, v₂, []) ∧
      Vban.VResampler.create (windowFilter env.ops table nchan) ratio nchan [] = some w ∧
      ∀ calls, (∀ c ∈ calls, c.Supplied nchan) → VResampler.rxRun env.ops tables calls v₂ =
        some (RxCall.run (windowFilter env.ops table nchan) calls w) := by
  obtain ⟨pre, post, hlist, -, -⟩ := Objects.exists_middle hv
  have hsound := Objects.reachable_sound hround hexp hreach
  have hcounted := hsound.counted
  rw [hlist, Objects.holders_middle] at hcounted
  have haccepted : ¬(nchan = 0 ∨ 64 < 8 ∨ 64 > 96 ∨ 64 * ratio < 1 ∨ ratio > 256) := by
    simp only [not_or, not_lt]
    exact ⟨hnchan, by decide, by decide, hlow, hhigh⟩
  obtain ⟨tables, v₁, table, hsetup, -, hstarted⟩ := Objects.setupWith_started hround hcounted
    hsound.listed hnchan' haccepted
    (env.ops.round (1 - env.ops.round (env.ops.round (26 / 10) / (64 : Nat))))
  obtain ⟨T, hT, hread⟩ := hstarted.exists_table
  have hsize : v₁.inpsize tables = some (2 * table.hl) := by
    rw [inpsize, hT]
    simp only [hread, some_bind]
    rfl
  obtain ⟨v₂, out, s₂, hprocess, hkept, htracks, hsilent, hmodel⟩ := modelOf_process hround
    (hstarted.tracks.load (2 * table.hl - 1) none 999999 none) hT hread nofun nofun
  rw [hsilent rfl] at hprocess
  have hnchan₂ : v₂.nchan = nchan := hkept.nchan_eq.trans hstarted.nchan_eq
  have hcreate : Vban.VResampler.create (windowFilter env.ops table nchan) ratio nchan [] =
      some (modelOf table v₂ s₂) := by
    have hloaded : (v₁.load (2 * table.hl - 1) none 999999 none).nchan = nchan := hstarted.nchan_eq
    have hhl : table.hl = if ratio < 1 then
        ⌈(windowFilter env.ops table nchan).round ((64 : Nat) / ratio)⌉₊ else 64 := hstarted.hl_eq
    rw [modelOf_started hstarted, hloaded] at hmodel
    rw [Vban.VResampler.create, Vban.VResampler.setup, if_neg haccepted, Option.map_some,
      Vban.VResampler.prefill]
    simp only [← hhl]
    exact congrArg (fun r => some r.1) hmodel
  refine ⟨tables, v₁, _, v₂, table, _, hsetup, hsize, hprocess, hcreate, fun calls hcalls => ?_⟩
  rw [htracks.rxRun hround (hkept.table_eq.trans hT) hread (hnchan₂.symm ▸ hcalls), hnchan₂]

theorem receive_refines_stereo : ∃ env : Platform CFloat, env.ops.round = roundDouble ∧
    ∃ tables v₁ size v₂ table w,
      (Objects.blank CFloat).setup env.ops.round env.tap env.fresh Pool.empty (1 / 2) 2 64 =
        some (0, tables, v₁) ∧
      v₁.inpsize tables = some size ∧
      (v₁.load (size - 1) none 999999 none).process env.ops tables = some (0, v₂, []) ∧
      Vban.VResampler.create (windowFilter env.ops table 2) (1 / 2) 2 [] = some w ∧
      ∀ calls, (∀ c ∈ calls, c.Supplied 2) → VResampler.rxRun env.ops tables calls v₂ =
        some (RxCall.run (windowFilter env.ops table 2) calls w) :=
  ⟨⟨⟨roundDouble, 0, 0x0da24260, (· + ·), (· - ·), (· * ·), fun _ => 0⟩, fun _ _ _ => 0,
    fun _ => 0, (Objects.plain roundDouble).exp⟩, rfl, receive_refines (i := 0) rounding_double
      (Objects.plain_exp roundDouble) (Objects.reachable_blank _) rfl (by decide) (by decide)
      (by norm_num) (by norm_num)⟩

end VResampler

end Vban.Zita
