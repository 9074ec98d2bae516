import Vban.Resampler.Objects

/-! What comes out of a resampler: each frame is read off the whole of the input, wherever the
calls cut it. -/
namespace Vban.Zita

open Library

variable {F : Type} {ops : SampleOps F} {table : ResamplerTable F} {nchan outCount k : Nat}
  {qstep wstep : ℚ} {input line : List (Option (List F))} {s : Stream F}

namespace Stream

/-- The stream, some frames of the output later. -/
def after (round : ℚ → ℚ) (np : Nat) (qstep wstep : ℚ) : Nat → Stream F → Stream F
  | 0, s => s
  | k + 1, s => after round np qstep wstep k (s.advance round np qstep wstep)

/-- The frame at the phase, from all the frames there are. -/
def frameOf (ops : SampleOps F) (table : ResamplerTable F) (nchan : Nat)
    (line : List (Option (List F))) (s : Stream F) : List F :=
  frameAt ops table nchan ((line.drop s.start).take (2 * table.hl)) s.phase

variable {round : ℚ → ℚ}

theorem after_take (frames : List (Option (List F))) (np : Nat) :
    after round np qstep wstep k (s.take frames) =
      (after round np qstep wstep k s).take frames := by
  induction k generalizing s with
  | zero => rfl
  | succ k ih => exact ih (s := s.advance round np qstep wstep)

/-- What a reading comes to, in terms of all the frames there are. -/
structure Read (ops : SampleOps F) (table : ResamplerTable F) (nchan : Nat) (qstep wstep : ℚ)
    (outCount : Nat) (input : List (Option (List F))) (s : Stream F) (r : Reading F) : Prop where
  start_eq : r.stream.start = (after ops.round table.np qstep wstep r.frames.length s).start
  toPhase_eq : r.stream.toPhase = (after ops.round table.np qstep wstep r.frames.length s).toPhase
  line_eq : r.stream.read ++ r.input = s.read ++ input
  suffix : r.input <:+ input
  room_eq : r.frames.length + r.room = outCount
  frames_eq : r.frames = (List.range r.frames.length).map fun k =>
    (after ops.round table.np qstep wstep k s).frameOf ops table nchan (s.read ++ input)
  reached : ∀ k, k < r.frames.length →
    (after ops.round table.np qstep wstep k s).start + 2 * table.hl ≤ r.stream.read.length
  hungry : 0 < r.room → r.input = [] ∧ (s.read ++ input).length <
    (after ops.round table.np qstep wstep r.frames.length s).start + 2 * table.hl

/-- A frame that is reached is read off the frames up to there. -/
theorem frame_eq_frameOf (hbehind : s.read.length ≤ s.start + 2 * table.hl) :
    (s.take (input.take (s.need table.hl))).frame ops table nchan =
      s.frameOf ops table nchan (s.read ++ input) := by
  have hread : s.read ++ input.take (s.need table.hl) =
      (s.read ++ input).take (s.start + 2 * table.hl) := by
    rw [List.take_append, List.take_of_length_le hbehind]
    rfl
  have hstart : (s.take (input.take (s.need table.hl))).start = s.start := rfl
  have hphase : (s.take (input.take (s.need table.hl))).phase = s.phase := rfl
  have htake : (s.take (input.take (s.need table.hl))).read =
      s.read ++ input.take (s.need table.hl) := rfl
  rw [frame, frameOf, htake, hstart, hphase, hread, List.drop_take, Nat.add_sub_cancel_left]

/-- A frame more is read off before the rest. -/
theorem Read.cons {n : Nat} {r : Reading F} (h : Read ops table nchan qstep wstep outCount
      (input.drop n) ((s.take (input.take n)).advance ops.round table.np qstep wstep) r)
    (hreach : s.start + 2 * table.hl ≤ (s.read ++ input.take n).length) :
    Read ops table nchan qstep wstep (outCount + 1) input s
      { r with frames := s.frameOf ops table nchan (s.read ++ input) :: r.frames } := by
  obtain ⟨hstart, htoPhase, hrest, hsuffix, hroom, hframes, hreached, hhungry⟩ := h
  have hafter (k : Nat) : after ops.round table.np qstep wstep k
      ((s.take (input.take n)).advance ops.round table.np qstep wstep) =
        (after ops.round table.np qstep wstep (k + 1) s).take (input.take n) :=
    after_take (s := s.advance ops.round table.np qstep wstep) (input.take n) table.np
  have hline : ((s.take (input.take n)).advance ops.round table.np qstep wstep).read ++
      input.drop n = s.read ++ input := by
    rw [Stream.advance, Stream.take, List.append_assoc, List.take_append_drop]
  have hread : (s.read ++ input.take n).length ≤ r.stream.read.length := by
    have hlength := congrArg List.length hrest
    have hle := hsuffix.length_le
    rw [List.length_append, List.length_append] at hlength
    change _ = (s.read ++ input.take n).length + _ at hlength
    omega
  rw [hline] at hrest hframes hhungry
  rw [hafter] at hstart htoPhase hhungry
  refine ⟨hstart, htoPhase, hrest, hsuffix.trans (List.drop_suffix n input), ?_, ?_, ?_, hhungry⟩
  · rw [List.length_cons, Nat.add_right_comm, hroom]
  · rw [List.length_cons, List.range_succ_eq_map, List.map_cons, List.map_map]
    refine congrArg₂ _ rfl (hframes.trans (List.map_congr_left fun k _ => ?_))
    rw [hafter]
    rfl
  · intro k hk
    cases k with
    | zero => exact hreach.trans hread
    | succ k =>
      have hk' := hreached k (Nat.lt_of_succ_lt_succ hk)
      rw [hafter] at hk'
      exact hk'

/-- The frames are read off all there is, as far as it and the room reach. -/
theorem frames_read (hbehind : s.read.length ≤ s.start + 2 * table.hl) :
    Read ops table nchan qstep wstep outCount input s
      (s.frames ops table nchan qstep wstep outCount input) := by
  induction outCount generalizing input s with
  | zero =>
    exact ⟨rfl, rfl, rfl, List.suffix_rfl, rfl, rfl, fun k hk => absurd hk (Nat.not_lt_zero k),
      fun hpos => absurd hpos (Nat.lt_irrefl 0)⟩
  | succ outCount ih =>
    rw [Stream.frames]
    by_cases hshort : input.length < s.need table.hl
    · rw [if_pos hshort]
      have hlength : (s.read ++ input).length < s.start + 2 * table.hl := by
        rw [need] at hshort
        rw [List.length_append]
        omega
      exact ⟨rfl, rfl, List.append_nil _, List.nil_suffix, Nat.zero_add _, rfl,
        fun k hk => absurd hk (Nat.not_lt_zero k), fun _ => ⟨rfl, hlength⟩⟩
    · rw [if_neg hshort]
      have hread : (s.read ++ input.take (s.need table.hl)).length = s.start + 2 * table.hl := by
        rw [List.length_append, List.length_take, Nat.min_eq_left (not_lt.mp hshort), need]
        omega
      -- the window only moves on
      have hcons := (@ih (input.drop (s.need table.hl))
        ((s.take (input.take (s.need table.hl))).advance ops.round table.np qstep wstep)
        (hread.le.trans (Nat.add_le_add_right (Nat.le_add_right _ _) _))).cons hread.ge
      rw [← frame_eq_frameOf hbehind] at hcons
      exact hcons

theorem after_read (np : Nat) : (after round np qstep wstep k s).read = s.read := by
  induction k generalizing s with
  | zero => rfl
  | succ k ih => exact ih (s := s.advance round np qstep wstep)

theorem after_after (np j : Nat) :
    after round np qstep wstep j (after round np qstep wstep k s) =
      after round np qstep wstep (k + j) s := by
  induction k generalizing s with
  | zero => rw [Nat.zero_add]; rfl
  | succ k ih =>
    rw [Nat.add_right_comm]
    exact ih (s := s.advance round np qstep wstep)

/-- Later input does not change a frame. -/
theorem frameOf_append (h : s.start + 2 * table.hl ≤ line.length)
    (more : List (Option (List F))) :
    s.frameOf ops table nchan (line ++ more) = s.frameOf ops table nchan line := by
  rw [frameOf, frameOf, List.drop_append_of_le_length (by omega),
    List.take_append_of_le_length (by rw [List.length_drop]; omega)]

/-- The stream afterwards is the one that has moved on, with what was taken of the input. -/
theorem Read.stream_eq {r : Reading F}
    (h : Read ops table nchan qstep wstep outCount input s r) :
    r.stream = (after ops.round table.np qstep wstep r.frames.length s).take
      (input.take (input.length - r.input.length)) := by
  obtain ⟨t, ht⟩ := h.suffix
  have hread : r.stream.read = s.read ++ t := by
    have hline := h.line_eq
    rw [← ht, ← List.append_assoc] at hline
    exact List.append_cancel_right hline
  have htake : input.take (input.length - r.input.length) = t := by
    rw [← ht, List.length_append, Nat.add_sub_cancel, List.take_left]
  obtain ⟨-, hphase, hstep⟩ := Phase.mk.inj h.toPhase_eq
  rw [htake, Stream.take, after_read, ← hread, ← h.start_eq, ← hphase, ← hstep]

end Stream

/-- What a call of `process` is given. -/
structure Feed (F : Type) where
  inpCount : Nat
  inpData : Option (List F)
  outCount : Nat

/-- The input has its floats. -/
def Feed.Supplied (nchan : Nat) (f : Feed F) : Prop :=
  ∀ data, f.inpData = some data → f.inpCount * nchan ≤ data.length

namespace VResampler

variable {v v' v₁ v₂ : VResampler F} {feeds feeds₁ feeds₂ : List (Feed F)}
  {tables : Pool (ResamplerTable F)} {T : Nat} {taken taken₁ taken₂ : List (Option (List F))}
  {out out₁ out₂ : List F}

/-- Calls of `process`, each with room for all that it may write. Returns the object, the frames
that were taken, and what was written. -/
def processAll (ops : SampleOps F) (tables : Pool (ResamplerTable F)) :
    List (Feed F) → VResampler F → Option (VResampler F × List (Option (List F)) × List F)
  | [], v => some (v, [], [])
  | f :: feeds, v => do
    let v := v.load f.inpCount f.inpData f.outCount (some (f.outCount * v.nchan))
    let (_, v', out) ← v.process ops tables
    let (v'', taken, rest) ← processAll ops tables feeds v'
    return (v'', v.pending.take (f.inpCount - v'.inpCount) ++ taken, out ++ rest)

/-- What the calls come to: `k` frames of the stream. -/
structure Played (ops : SampleOps F) (table : ResamplerTable F) (s : Stream F) (v : VResampler F)
    (feeds : List (Feed F)) (v' : VResampler F) (taken : List (Option (List F))) (out : List F)
    (k : Nat) : Prop where
  kept : Kept v v'
  tracks : Tracks ops table (v', v'.pointers table)
    ((s.after ops.round table.np v.qstep v.wstep k).take taken)
  out_eq : out = ((List.range k).map fun m =>
    (s.after ops.round table.np v.qstep v.wstep m).frameOf ops table v.nchan
      (s.read ++ taken)).flatten
  reached : ∀ m, m < k →
    (s.after ops.round table.np v.qstep v.wstep m).start + 2 * table.hl ≤ (s.read ++ taken).length
  hungry : feeds ≠ [] → 0 < v'.outCount → (s.read ++ taken).length <
    (s.after ops.round table.np v.qstep v.wstep k).start + 2 * table.hl
  idle : feeds = [] → v' = v ∧ taken = [] ∧ k = 0

theorem Played.append {k' : Nat} (h : Played ops table s v feeds₁ v₁ taken₁ out₁ k)
    (h' : Played ops table ((s.after ops.round table.np v.qstep v.wstep k).take taken₁) v₁ feeds₂
      v₂ taken₂ out₂ k') :
    Played ops table s v (feeds₁ ++ feeds₂) v₂ (taken₁ ++ taken₂) (out₁ ++ out₂) (k + k') := by
  have hafter (m : Nat) : ((s.after ops.round table.np v.qstep v.wstep k).take taken₁).after
      ops.round table.np v₁.qstep v₁.wstep m =
      (s.after ops.round table.np v.qstep v.wstep (k + m)).take taken₁ := by
    rw [h.kept.qstep_eq, h.kept.wstep_eq, Stream.after_take, Stream.after_after]
  have hline : ((s.after ops.round table.np v.qstep v.wstep k).take taken₁).read ++ taken₂ =
      s.read ++ taken₁ ++ taken₂ := by
    rw [Stream.take, Stream.after_read]
  obtain ⟨hkept, htracks, hout, hreached, hhungry, hidle⟩ := h'
  rw [hline] at hout hreached hhungry
  rw [hafter] at htracks hhungry
  simp only [hafter] at hout hreached
  refine ⟨h.kept.trans hkept, ?_, ?_, ?_, ?_, ?_⟩
  · rw [Stream.take, ← List.append_assoc]
    exact htracks
  · rw [h.out_eq, hout, ← List.flatten_append, List.range_add, List.map_append, List.map_map,
      ← List.append_assoc]
    congr 2
    · refine List.map_congr_left fun m hm => ?_
      rw [Stream.frameOf_append (h.reached m (List.mem_range.mp hm))]
    · rw [h.kept.nchan_eq]
      rfl
  · intro m hm
    rw [← List.append_assoc]
    rcases Nat.lt_or_ge m k with hlt | hge
    · refine (h.reached m hlt).trans ?_
      simp only [List.length_append]
      omega
    · obtain ⟨j, rfl⟩ := Nat.exists_eq_add_of_le hge
      exact hreached j (by omega)
  · intro hne hpos
    rw [← List.append_assoc]
    by_cases hnil : feeds₂ = []
    · obtain ⟨rfl, rfl, rfl⟩ := hidle hnil
      rw [hnil, List.append_nil] at hne
      rw [List.append_nil]
      exact h.hungry hne hpos
    · exact hhungry hnil hpos
  · intro hnil
    obtain ⟨hnil₁, hnil₂⟩ := List.append_eq_nil_iff.mp hnil
    obtain ⟨rfl, rfl, rfl⟩ := h.idle hnil₁
    obtain ⟨rfl, rfl, rfl⟩ := hidle hnil₂
    exact ⟨rfl, rfl, rfl⟩

/-- One call, as the first of some. -/
theorem Tracks.process_played (hround : Rounding ops.round)
    (h : Tracks ops table (v, v.pointers table) s) (hT : v.table = some T)
    (htable : tables.read T = some table) (f : Feed F) (hsupplied : f.Supplied v.nchan) :
    ∃ v' out taken k,
      (v.load f.inpCount f.inpData f.outCount (some (f.outCount * v.nchan))).process ops tables =
        some (0, v', out) ∧
      (v.load f.inpCount f.inpData f.outCount (some (f.outCount * v.nchan))).pending.take
        (f.inpCount - v'.inpCount) = taken ∧
      Played ops table s v [f] v' taken out k := by
  obtain ⟨v', out, hprocess, hagrees⟩ :=
    (h.load f.inpCount f.inpData f.outCount (some (f.outCount * v.nchan))).process hround hT
      htable hsupplied (fun room hroom => (Option.some.inj hroom).le)
  have hread := h.read_length
  simp only at hread
  have hlength : (v.load f.inpCount f.inpData f.outCount
      (some (f.outCount * v.nchan))).pending.length = f.inpCount := length_inputFrames
  have hleft : v'.pending.length = v'.inpCount := length_inputFrames
  generalize (v.load f.inpCount f.inpData f.outCount (some (f.outCount * v.nchan))).pending = input
    at hagrees hlength
  have hspec : Stream.Read ops table v.nchan v.qstep v.wstep f.outCount input s
      (s.frames ops table v.nchan v.qstep v.wstep f.outCount input) :=
    Stream.frames_read (by omega)
  replace hagrees : Agrees ops table
      (v.load f.inpCount f.inpData f.outCount (some (f.outCount * v.nchan))) v' out
      (s.frames ops table v.nchan v.qstep v.wstep f.outCount input) := hagrees
  generalize s.frames ops table v.nchan v.qstep v.wstep f.outCount input = r at hagrees hspec
  have hstream := hspec.stream_eq
  rw [hagrees.pending_eq] at hleft
  rw [hlength, hleft] at hstream
  obtain ⟨t, ht⟩ : ∃ t, t = input.take (f.inpCount - v'.inpCount) := ⟨_, rfl⟩
  obtain ⟨rest, hrest⟩ : ∃ rest, input = t ++ rest :=
    ⟨input.drop (f.inpCount - v'.inpCount), by rw [ht, List.take_append_drop]⟩
  have hline : r.stream.read = s.read ++ t := by
    rw [hstream, ← ht, Stream.take, Stream.after_read]
  rw [← ht] at hstream
  refine ⟨v', out, t, r.frames.length, hprocess, ht.symm, ⟨?_, ?_, ?_, ?_, ?_,
    fun hnil => absurd hnil (List.cons_ne_nil f [])⟩⟩
  · have hloaded : Kept v (v.load f.inpCount f.inpData f.outCount
        (some (f.outCount * v.nchan))) := ⟨rfl, rfl, rfl, rfl, rfl, rfl⟩
    exact hloaded.trans hagrees.kept
  · exact hstream ▸ hagrees.tracks
  · have hout : out = r.frames.flatten := hagrees.out_eq
    rw [hout]
    refine congrArg List.flatten (hspec.frames_eq.trans (List.map_congr_left fun m hm => ?_))
    have hreached := hspec.reached m (List.mem_range.mp hm)
    rw [hline] at hreached
    rw [hrest, ← List.append_assoc, Stream.frameOf_append hreached]
  · intro m hm
    rw [← hline]
    exact hspec.reached m hm
  · intro _ hpos
    rw [hagrees.outCount_eq] at hpos
    obtain ⟨hnil, hshort⟩ := hspec.hungry hpos
    have hnone := hspec.line_eq
    rw [hnil, List.append_nil] at hnone
    rwa [← hline, hnone]

/-- Calls one after the other come to one. -/
theorem Tracks.processAll (hround : Rounding ops.round)
    (h : Tracks ops table (v, v.pointers table) s) (hT : v.table = some T)
    (htable : tables.read T = some table) (hsupplied : ∀ f ∈ feeds, f.Supplied v.nchan) :
    ∃ v' taken out k, VResampler.processAll ops tables feeds v = some (v', taken, out) ∧
      Played ops table s v feeds v' taken out k := by
  induction feeds generalizing v s with
  | nil =>
    refine ⟨v, [], [], 0, rfl, ⟨rfl, rfl, rfl, rfl, rfl, rfl⟩, ?_, rfl,
      fun m hm => absurd hm (Nat.not_lt_zero m), fun hne => absurd rfl hne,
      fun _ => ⟨rfl, rfl, rfl⟩⟩
    rw [Stream.take, List.append_nil]
    exact h
  | cons f feeds ih =>
    obtain ⟨v₁, out₁, taken₁, k₁, hprocess, htaken, hplayed⟩ :=
      h.process_played hround hT htable f (hsupplied f List.mem_cons_self)
    have hkept := hplayed.kept
    obtain ⟨v', taken', out', k', hall, hrest⟩ := ih hplayed.tracks (hkept.table_eq.trans hT)
      fun f' hf' => hkept.nchan_eq ▸ hsupplied f' (List.mem_cons_of_mem f hf')
    refine ⟨v', taken₁ ++ taken', out₁ ++ out', k₁ + k', ?_, hplayed.append hrest⟩
    simp only [VResampler.processAll, hprocess, some_bind, hall, htaken]
    rfl

theorem flatten_range_prefix {f : Nat → List F} {j k : Nat} (h : j ≤ k) :
    ((List.range j).map f).flatten <+: ((List.range k).map f).flatten := by
  obtain ⟨i, rfl⟩ := Nat.exists_eq_add_of_le h
  rw [List.range_add, List.map_append, List.flatten_append]
  exact List.prefix_append _ _

/-- More input gives more of the same output. -/
theorem Played.prefix_or {k₁ k₂ : Nat} (h₁ : Played ops table s v feeds₁ v₁ taken₁ out₁ k₁)
    (h₂ : Played ops table s v feeds₂ v₂ taken₂ out₂ k₂) (htaken : taken₁ <+: taken₂) :
    if k₁ ≤ k₂ then out₁ <+: out₂ else out₂ <+: out₁ := by
  obtain ⟨more, rfl⟩ := htaken
  have hsame : ∀ m, m < k₁ →
      (s.after ops.round table.np v.qstep v.wstep m).frameOf ops table v.nchan
          (s.read ++ (taken₁ ++ more)) =
        (s.after ops.round table.np v.qstep v.wstep m).frameOf ops table v.nchan
          (s.read ++ taken₁) := by
    intro m hm
    rw [← List.append_assoc, Stream.frameOf_append (h₁.reached m hm)]
  rw [h₁.out_eq, h₂.out_eq]
  split_ifs with hle
  · rw [← List.map_congr_left fun m hm => hsame m (List.mem_range.mp hm)]
    exact flatten_range_prefix hle
  · rw [List.map_congr_left fun m hm =>
      hsame m ((List.mem_range.mp hm).trans (not_le.mp hle))]
    exact flatten_range_prefix (not_le.mp hle).le

/-- Where both want more input, they have written the same number of frames. -/
theorem Played.count_eq {k₁ k₂ : Nat} (h₁ : Played ops table s v feeds₁ v₁ taken out₁ k₁)
    (h₂ : Played ops table s v feeds₂ v₂ taken out₂ k₂) (hne₁ : feeds₁ ≠ []) (hne₂ : feeds₂ ≠ [])
    (hpos₁ : 0 < v₁.outCount) (hpos₂ : 0 < v₂.outCount) : k₁ = k₂ := by
  rcases Nat.lt_trichotomy k₁ k₂ with hlt | heq | hgt
  · exact absurd (h₂.reached k₁ hlt) (not_le.mpr (h₁.hungry hne₁ hpos₁))
  · exact heq
  · exact absurd (h₁.reached k₂ hgt) (not_le.mpr (h₂.hungry hne₂ hpos₂))

end VResampler

end Vban.Zita
