import Vban.Library.Run
import Vban.Resampler.Refinement

/-! The objects of the class, and the tables they share, in any order of calls. -/
namespace Vban.Zita

open Library

/-- What the class takes from elsewhere. -/
structure Platform (F : Type) where
  ops : SampleOps F
  tap : ℚ → Nat → ℚ → F
  fresh : Nat → F
  exp : ℚ → ℚ

/-- A call of a public member; for `process`, the members that are set before it. -/
inductive Call (F : Type)
  | setup (ratio : ℚ) (nchan hlen : Nat)
  | setupWith (ratio : ℚ) (nchan hlen : Nat) (frel : ℚ)
  | clear
  | reset
  | setPhase (p : ℚ)
  | setRrfilt (t : ℚ)
  | setRratio (r : ℚ)
  | process (inpCount : Nat) (inpData : Option (List F)) (outCount : Nat) (outData : Option Nat)

/-- Returns the tables and the object. -/
def Call.run {F : Type} (env : Platform F) (tables : Pool (ResamplerTable F)) (v : VResampler F) :
    Call F → Option (Pool (ResamplerTable F) × VResampler F)
  | setup ratio nchan hlen => do
    let (_, tables, v) ← v.setup env.ops.round env.tap env.fresh tables ratio nchan hlen
    return (tables, v)
  | setupWith ratio nchan hlen frel => do
    let (_, tables, v) ←
      v.setupWith env.ops.round env.tap env.fresh tables ratio nchan hlen frel
    return (tables, v)
  | clear => v.clear tables
  | reset => do
    let (_, v) ← v.reset tables
    return (tables, v)
  | setPhase p => do return (tables, ← v.setPhase env.ops.round tables p)
  | setRrfilt t => some (tables, v.setRrfilt env.ops.round env.exp t)
  | setRratio r => do return (tables, ← v.setRratio env.ops.round tables r)
  | process inpCount inpData outCount outData => do
    let (_, v, _) ← (v.load inpCount inpData outCount outData).process env.ops tables
    return (tables, v)

/-- What the caller sees to. Beyond the bound, the size of the buffer could overflow; and what is
left of a phase below a whole number must not be rounded up to it. -/
def Call.Legal {F : Type} (round : ℚ → ℚ) (v : VResampler F) : Call F → Prop
  | setup _ nchan _ | setupWith _ nchan _ _ => nchan < 2 ^ 18
  | setPhase p => round (p - ⌊p⌋) < 1
  | process inpCount inpData outCount outData =>
    (∀ data, inpData = some data → inpCount * v.nchan ≤ data.length) ∧
      ∀ room, outData = some room → outCount * v.nchan ≤ room
  | clear | reset | setRrfilt _ | setRratio _ => True

structure Objects (F : Type) where
  tables : Pool (ResamplerTable F)
  list : List (VResampler F)

/-- The constructor leaves most members as they are in memory. -/
inductive Act (F : Type)
  | construct (memory : VResampler F)
  | destruct (i : Nat)
  | call (i : Nat) (c : Call F)

namespace Objects

variable {F : Type} {env : Platform F} {s t : Objects F} {v v' : VResampler F} {a : Act F}
  {table : ResamplerTable F} {tables tables' : Pool (ResamplerTable F)} {T : Option Nat}
  {other : Nat → Nat} {i : Nat}

def init : Objects F := ⟨Pool.empty, []⟩

/-- Nothing happens to an object that does not exist. -/
def run (env : Platform F) (s : Objects F) : Act F → Option (Objects F)
  | .construct memory => do
    let (_, v) ← VResampler.reset s.tables { memory with
      table := none
      nchan := 0
      buff := [] }
    return { s with list := s.list ++ [v] }
  | .destruct i =>
    match s.list[i]? with
    | none => some s
    | some v => do
      let (tables, _) ← v.clear s.tables
      return ⟨tables, s.list.eraseIdx i⟩
  | .call i c =>
    match s.list[i]? with
    | none => some s
    | some v => do
      let (tables, v) ← c.run env s.tables v
      return ⟨tables, s.list.set i v⟩

def Legal (round : ℚ → ℚ) (s : Objects F) : Act F → Prop
  | .construct _ | .destruct _ => True
  | .call i c => ∀ v, s.list[i]? = some v → c.Legal round v

def Step (env : Platform F) (s : Objects F) (a : Act F) (t : Objects F) : Prop :=
  s.Legal env.ops.round a ∧ s.run env a = some t

def Reachable (env : Platform F) (s : Objects F) : Prop := ∃ as, Run (Step env) init as s

/-- How many objects of the list use a table. -/
def holders (list : List (VResampler F)) (T : Nat) : Nat :=
  list.countP fun v => v.table = some T

/-- The table is there, and the object stands for a stream. -/
def Follows (env : Platform F) (tables : Pool (ResamplerTable F)) (v : VResampler F) : Prop :=
  ∀ T, v.table = some T → ∃ table stream, tables.read T = some table ∧
    VResampler.Tracks env.ops table (v, v.pointers table) stream

structure Listed (env : Platform F) (tables : Pool (ResamplerTable F)) : Prop where
  made : ∀ e ∈ tables.list, e.value =
    .new env.ops.round env.tap e.value.fr e.value.hl e.value.np
  /-- No table was made while an older one suited. -/
  distinct : (tables.list.map fun e => e.value).Pairwise fun table older =>
    older.suits env.ops.round table.fr table.hl table.np = false

structure Sound (env : Platform F) (s : Objects F) : Prop where
  counted : s.tables.Counted (holders s.list)
  follows : ∀ v ∈ s.list, Follows env s.tables v
  listed : Listed env s.tables

theorem holders_middle {pre post : List (VResampler F)} :
    holders (pre ++ v :: post) = Pool.held (holders (pre ++ post)) v.table := by
  funext T
  rw [Pool.held, holders, holders, List.countP_append, List.countP_append, List.countP_cons,
    Nat.add_assoc]
  congr 2
  simp

/-- The object at a place, apart from the others. -/
theorem exists_middle {list : List (VResampler F)} (h : list[i]? = some v) :
    ∃ pre post, list = pre ++ v :: post ∧ list.eraseIdx i = pre ++ post ∧
      ∀ v', list.set i v' = pre ++ v' :: post := by
  obtain ⟨hi, rfl⟩ := List.getElem?_eq_some_iff.mp h
  refine ⟨list.take i, list.drop (i + 1), ?_, List.eraseIdx_eq_take_drop_succ list i, fun v' => ?_⟩
  · rw [← List.drop_eq_getElem_cons hi, List.take_append_drop]
  · rw [List.set_eq_take_append_cons_drop, if_pos hi]

/-- What the others hold stays for them. -/
theorem Follows.mono (h : Follows env tables v)
    (hread : ∀ T, v.table = some T → ∀ x, tables.read T = some x → tables'.read T = some x) :
    Follows env tables' v := by
  intro T hT
  obtain ⟨table, stream, htable, htracks⟩ := h T hT
  exact ⟨table, stream, hread T hT table htable, htracks⟩

theorem follows_none (h : v.table = none) : Follows env tables v := by
  intro T hT
  rw [h] at hT
  cases hT

/-- What a call comes to, for the object and for the others. -/
structure Turned (env : Platform F) (other : Nat → Nat) (tables tables' : Pool (ResamplerTable F))
    (v' : VResampler F) : Prop where
  counted : tables'.Counted (Pool.held other v'.table)
  follows : Follows env tables' v'
  kept : ∀ T x, 0 < other T → tables.read T = some x → tables'.read T = some x
  listed : Listed env tables'

theorem Listed.sublist (h : Listed env tables)
    (hsub : (tables'.list.map fun e => e.value).Sublist (tables.list.map fun e => e.value)) :
    Listed env tables' := by
  refine ⟨fun e he => ?_, h.distinct.sublist hsub⟩
  obtain ⟨e', he', hvalue⟩ := List.mem_map.mp (hsub.subset (List.mem_map_of_mem he))
  rw [← hvalue]
  exact h.made e' he'

/-- The table that the object held is dropped. -/
theorem destroy_spec (hcounted : tables.Counted (Pool.held other T)) (hlisted : Listed env tables) :
    ∃ tables', ResamplerTable.destroy T tables = some tables' ∧ tables'.Counted other ∧
      (∀ T x, 0 < other T → tables.read T = some x → tables'.read T = some x) ∧
      Listed env tables' := by
  cases T with
  | none => exact ⟨tables, rfl, hcounted, fun _ _ _ hread => hread, hlisted⟩
  | some T =>
    obtain ⟨tables', hrelease, hcounted', hkept⟩ := hcounted.release
    exact ⟨tables', hrelease, hcounted', hkept, hlisted.sublist (Pool.release_values hrelease)⟩

theorem clear_spec (hcounted : tables.Counted (Pool.held other v.table))
    (hlisted : Listed env tables) :
    ∃ tables' v', v.clear tables = some (tables', v') ∧ v'.table = none ∧ tables'.Counted other ∧
      (∀ T x, 0 < other T → tables.read T = some x → tables'.read T = some x) ∧
      Listed env tables' := by
  obtain ⟨tables', hdestroy, hrest⟩ := destroy_spec hcounted hlisted
  have hclear : v.clear tables = some (tables', { v with
      buff := []
      table := none
      nchan := 0
      inmax := 0
      pstep := 0
      qstep := 0
      wstep := 1 }) := by
    rw [VResampler.clear, hdestroy]
    rfl
  exact ⟨tables', _, hclear, rfl, hrest⟩

/-- The bounds that `setup` checks keep the lengths in range. -/
theorem ceil_bounds {round : ℚ → ℚ} (hround : Rounding round) {ratio : ℚ} {n : Nat} (hn : 0 < n)
    (hn' : n ≤ 96) (hlow : 1 ≤ 64 * ratio) :
    (0 < if ratio < 1 then ⌈round (n / ratio)⌉₊ else n) ∧
      (if ratio < 1 then ⌈round (n / ratio)⌉₊ else n) ≤ 64 * n ∧
      15 / 16 * ((n : ℚ) / ratio) ≤ (if ratio < 1 then ⌈round (n / ratio)⌉₊ else n : Nat) := by
  have hratio : 0 < ratio := by linarith
  have hpos : (1 : ℚ) ≤ n := by exact_mod_cast hn
  have hdiv : 0 < n / ratio := div_pos (by linarith) hratio
  split_ifs with hone
  · have hwhole : (n : ℚ) ≤ n / ratio := le_div_self (by linarith) hratio hone.le
    have hnear := (hround.near (x := n / ratio) (le_trans (by norm_num) (hpos.trans hwhole))).1
    have hmost : (n : ℚ) / ratio ≤ (64 * n : Nat) := by
      rw [div_le_iff₀ hratio]
      push_cast
      nlinarith
    refine ⟨Nat.ceil_pos.mpr (by linarith), ?_, hnear.trans (Nat.le_ceil _)⟩
    exact Nat.ceil_le.mpr (hround.le_natCast (by omega) hmost)
  · have hle : (n : ℚ) / ratio ≤ n := div_le_self (by linarith) (not_lt.mp hone)
    exact ⟨hn, by omega, by linarith⟩

/-- A filter of at least 16 frames is longer than each step. -/
theorem reach_of_le {ratio : ℚ} {hlen hl : Nat} (hmin : 8 ≤ hlen) (hlow : 1 ≤ 64 * ratio)
    (hpos : 0 < hl) (hle : 15 / 16 * ((hlen : ℚ) / ratio) ≤ hl) :
    3 / ratio ≤ (2 * hl - 1 : Nat) := by
  have hratio : 0 < ratio := by linarith
  have hmin' : 8 / ratio ≤ hlen / ratio :=
    div_le_div_of_nonneg_right (by exact_mod_cast hmin) hratio.le
  have hlong : (hl : ℚ) ≤ (2 * hl - 1 : Nat) := by exact_mod_cast (by omega : hl ≤ 2 * hl - 1)
  have hthree : 3 / ratio = 3 / 8 * (8 / ratio) := by ring
  have height : 0 < 8 / ratio := div_pos (by norm_num) hratio
  linarith

/-- The table that is got fits, and belongs to one object more. -/
theorem create_spec (hcounted : tables.Counted other)
    (hlisted : Listed env tables) (fr : ℚ) (hl np : Nat) :
    ∃ T tables' table,
      ResamplerTable.create env.ops.round env.tap fr hl np tables = (T, tables') ∧
      tables'.Counted (Pool.held other (some T)) ∧ tables'.read T = some table ∧
      table.hl = hl ∧ table.np = np ∧
      (table.suits env.ops.round fr hl np = true ∨ table.fr = fr) ∧
      Listed env tables' ∧ ∀ T' x, tables.read T' = some x → tables'.read T' = some x := by
  obtain ⟨T, tables', table, hcreate, hcounted', hread, hfits, hkept⟩ :=
    hcounted.acquire (ResamplerTable.suits env.ops.round fr hl np)
      (.new env.ops.round env.tap fr hl np)
  have hvalues := Pool.acquire_values (ResamplerTable.suits env.ops.round fr hl np)
      (.new env.ops.round env.tap fr hl np) tables
  rw [hcreate] at hvalues
  have hsize : table.hl = hl ∧ table.np = np := by
    rcases hfits with hsuits | ⟨rfl, -⟩
    · simp only [ResamplerTable.suits, Bool.and_eq_true, beq_iff_eq] at hsuits
      exact ⟨hsuits.1.2.symm, hsuits.2.symm⟩
    · exact ⟨rfl, rfl⟩
  have hfr : table.suits env.ops.round fr hl np = true ∨ table.fr = fr :=
    hfits.imp id fun hnew => congrArg ResamplerTable.fr hnew.1
  refine ⟨T, tables', table, hcreate, hcounted', hread, hsize.1, hsize.2, hfr, ?_, hkept⟩
  rcases hvalues with hsame | ⟨hnew, hnone⟩
  · exact hlisted.sublist (hsame ▸ List.Sublist.refl _)
  · refine ⟨fun e he => ?_, ?_⟩
    · have hmem := List.mem_map_of_mem (f := fun e : Pooled (ResamplerTable F) => e.value) he
      rw [hnew, List.mem_cons] at hmem
      rcases hmem with hvalue | hmem
      · rw [hvalue]
        rfl
      · obtain ⟨e', he', hvalue⟩ := List.mem_map.mp hmem
        rw [← hvalue]
        exact hlisted.made e' he'
    · rw [hnew, List.pairwise_cons]
      refine ⟨fun older holder => ?_, hlisted.distinct⟩
      obtain ⟨e, he, rfl⟩ := List.mem_map.mp holder
      exact hnone e he

/-- An object that `setup` has accepted, and nothing more. -/
structure Started (env : Platform F) (tables : Pool (ResamplerTable F)) (ratio : ℚ)
    (nchan hlen : Nat) (frel : ℚ) (v : VResampler F) (table : ResamplerTable F) : Prop where
  tracks : VResampler.Tracks env.ops table (v, v.pointers table)
    ⟨[], 0, 0, env.ops.round (nphase / ratio)⟩
  exists_table : ∃ T, v.table = some T ∧ tables.read T = some table
  ratio_pos : 0 < ratio
  nchan_eq : v.nchan = nchan
  ratio_eq : v.ratio = ratio
  qstep_eq : v.qstep = env.ops.round (nphase / ratio)
  wstep_eq : v.wstep = 1
  np_eq : table.np = nphase
  hl_eq : table.hl = if ratio < 1 then ⌈env.ops.round (hlen / ratio)⌉₊ else hlen
  fits : table.suits env.ops.round (if ratio < 1 then env.ops.round (frel * ratio) else frel)
      table.hl nphase = true ∨
    table.fr = if ratio < 1 then env.ops.round (frel * ratio) else frel

/-- The object that `setup` makes for a table at `T`. -/
def setUp (env : Platform F) (v : VResampler F) (T : Nat) (table : ResamplerTable F) (ratio : ℚ)
    (nchan mi : Nat) : VResampler F :=
  { v with
    table := some T
    buff := (List.range (nchan * (2 * table.hl + mi) % 2 ^ 32)).map env.fresh
    nchan := nchan
    ratio := ratio
    inmax := mi
    pstep := env.ops.round (nphase / ratio)
    qstep := env.ops.round (nphase / ratio)
    wstep := 1
    inpCount := 0
    outCount := 0
    inpData := none
    outData := none
    index := 0
    nread := 2 * table.hl
    nzero := 0
    phase := 0 }

/-- The buffer is as long as `process` takes it to be, and no step is too long for the filter. -/
theorem ready_setUp (hround : Rounding env.ops.round) {ratio : ℚ} {nchan mi : Nat}
    (hnp : table.np = nphase) (hhl : 0 < table.hl) (hhl' : table.hl ≤ 64 * 96) (hmi : 0 < mi)
    (hmi' : mi ≤ 64 * 32) (hnchan : nchan < 2 ^ 18) (hlow : 1 ≤ 64 * ratio) (hhigh : ratio ≤ 256)
    (hbound : 3 / ratio ≤ (2 * table.hl - 1 : Nat)) (v : VResampler F) (T : Nat) :
    VResampler.Ready env.ops.round table (setUp env v T table ratio nchan mi) := by
  have hratio : 0 < ratio := by linarith
  have hsame : 3 / 4 * ratio ≤ ratio := by linarith
  have hlarge : ratio ≤ 2 ^ 13 := by linarith
  obtain ⟨hstep, hstep'⟩ :=
    Phase.step_le hround hratio hsame hlarge (by decide : 0 < nphase) hbound
  have hstep₂ : env.ops.round (nphase / ratio) ≤ (2 * table.hl - 1 : Nat) * (nphase : Nat) := by
    linarith
  have hsize : nchan * (2 * table.hl + mi) < 2 ^ 32 := by
    have hle : nchan * (2 * table.hl + mi) ≤ 2 ^ 18 * (2 * (64 * 96) + 64 * 32) :=
      Nat.mul_le_mul hnchan.le (by omega)
    exact hle.trans_lt (by norm_num)
  refine ⟨hhl, ?_, hmi, le_rfl, hlow, hhigh, hbound, ?_⟩
  · rw [setUp, List.length_map, List.length_range, Nat.mod_eq_of_lt hsize]
    rfl
  · rw [hnp]
    refine ⟨?_, ⟨le_rfl, by norm_num [setUp, nphase]⟩, hround.round_round _, hstep, hstep₂,
      hround.round_round _, hstep, hstep', zero_le_one, le_rfl⟩
    rw [nphase]
    omega

theorem setupWith_started (hround : Rounding env.ops.round)
    (hcounted : tables.Counted (Pool.held other v.table)) (hlisted : Listed env tables) {ratio : ℚ}
    {nchan hlen : Nat} (hnchan : nchan < 2 ^ 18)
    (haccepted : ¬(nchan = 0 ∨ hlen < 8 ∨ hlen > 96 ∨ 64 * ratio < 1 ∨ ratio > 256)) (frel : ℚ) :
    ∃ tables' v' table, v.setupWith env.ops.round env.tap env.fresh tables ratio nchan hlen frel =
        some (0, tables', v') ∧
      Turned env other tables tables' v' ∧ Started env tables' ratio nchan hlen frel v' table := by
  rw [VResampler.setupWith, if_neg haccepted]
  simp only [not_or, not_lt] at haccepted
  obtain ⟨-, hmin, hmax, hlow, hhigh⟩ := haccepted
  obtain ⟨hhl, hhl', hreach⟩ := ceil_bounds hround (Nat.zero_lt_of_lt hmin) hmax hlow
  obtain ⟨hmi, hmi', -⟩ := ceil_bounds (n := 32) hround (by decide) (by decide) hlow
  have hbound := reach_of_le hmin hlow hhl hreach
  obtain ⟨hl, heq⟩ : ∃ hl, hl = if ratio < 1 then ⌈env.ops.round ((hlen : ℚ) / ratio)⌉₊ else hlen :=
    ⟨_, rfl⟩
  rw [← heq] at hhl hhl' hbound ⊢
  rw [Nat.cast_ofNat] at hmi hmi'
  generalize (if ratio < 1 then ⌈env.ops.round (32 / ratio)⌉₊ else 32) = mi at *
  obtain ⟨T, tables₁, table, hcreate, hcounted₁, hread₁, rfl, hnp, hfits, hlisted₁, hkept₁⟩ :=
    create_spec hcounted hlisted (if ratio < 1 then env.ops.round (frel * ratio) else frel) hl
      nphase
  rw [Pool.held_comm] at hcounted₁
  obtain ⟨tables₂, v₂, hclear, -, hcounted₂, hkept₂, hlisted₂⟩ := clear_spec hcounted₁ hlisted₁
  have hread₂ : tables₂.read T = some table := by
    refine hkept₂ T table ?_ hread₁
    rw [Pool.held, if_pos rfl]
    exact Nat.succ_pos _
  have hready : VResampler.Ready env.ops.round table (setUp env v₂ T table ratio nchan mi) :=
    ready_setUp hround hnp hhl (by omega) hmi hmi' hnchan hlow hhigh hbound v₂ T
  have hstarted : Started env tables₂ ratio nchan hlen frel (setUp env v₂ T table ratio nchan mi)
      table :=
    ⟨hready.tracks rfl rfl rfl, ⟨T, rfl, hread₂⟩, by linarith, rfl, rfl, rfl, rfl, hnp, heq, hfits⟩
  refine ⟨tables₂, setUp env v₂ T table ratio nchan mi, table, ?_, ⟨hcounted₂, ?_, ?_, hlisted₂⟩,
    hstarted⟩
  · simp only [hcreate, hclear, some_bind]
    rw [VResampler.reset_eq rfl hread₂]
    rfl
  · intro T' hT'
    obtain rfl := Option.some.inj hT'
    exact ⟨table, _, hread₂, hstarted.tracks⟩
  · intro T' x hpos hread
    refine hkept₂ T' x ?_ (hkept₁ T' x hread)
    exact Nat.lt_of_lt_of_le hpos (Nat.le_add_right _ _)

theorem setupWith_spec (hround : Rounding env.ops.round)
    (hcounted : tables.Counted (Pool.held other v.table)) (hlisted : Listed env tables)
    {nchan : Nat} (hnchan : nchan < 2 ^ 18) (ratio : ℚ) (hlen : Nat) (frel : ℚ) :
    ∃ status tables' v',
      v.setupWith env.ops.round env.tap env.fresh tables ratio nchan hlen frel =
        some (status, tables', v') ∧
      Turned env other tables tables' v' := by
  by_cases hrefused : nchan = 0 ∨ hlen < 8 ∨ hlen > 96 ∨ 64 * ratio < 1 ∨ ratio > 256
  · obtain ⟨tables', v', hclear, hnone, hcounted', hkept, hlisted'⟩ :=
      clear_spec hcounted hlisted
    rw [VResampler.setupWith, if_pos hrefused, hclear]
    refine ⟨1, tables', v', rfl, ?_, follows_none hnone, hkept, hlisted'⟩
    rw [hnone]
    exact hcounted'
  · obtain ⟨tables', v', table, hsetup, hturned, -⟩ :=
      setupWith_started hround hcounted hlisted hnchan hrefused frel
    exact ⟨0, tables', v', hsetup, hturned⟩

/-- A call that keeps the table. -/
theorem turned_own (hcounted : tables.Counted (Pool.held other v.table))
    (hlisted : Listed env tables) (hfollows : Follows env tables v)
    {r : Option (Pool (ResamplerTable F) × VResampler F)}
    (hnone : v.table = none → ∃ v', r = some (tables, v') ∧ v'.table = none)
    (hsome : ∀ T table stream, v.table = some T → tables.read T = some table →
      VResampler.Tracks env.ops table (v, v.pointers table) stream →
        ∃ v' stream', r = some (tables, v') ∧ v'.table = some T ∧
          VResampler.Tracks env.ops table (v', v'.pointers table) stream') :
    ∃ tables' v', r = some (tables', v') ∧ Turned env other tables tables' v' := by
  cases hT : v.table with
  | none =>
    obtain ⟨v', hr, hT'⟩ := hnone hT
    rw [hT, ← hT'] at hcounted
    exact ⟨tables, v', hr, hcounted, follows_none hT', fun _ _ _ hread => hread, hlisted⟩
  | some T =>
    obtain ⟨table, stream, htable, htracks⟩ := hfollows T hT
    obtain ⟨v', stream', hr, hT', htracks'⟩ := hsome T table stream hT htable htracks
    rw [hT, ← hT'] at hcounted
    refine ⟨tables, v', hr, hcounted, fun T' hT'' => ?_, fun _ _ _ hread => hread, hlisted⟩
    obtain rfl := Option.some.inj (hT'.symm.trans hT'')
    exact ⟨table, stream', htable, htracks'⟩

/-- Every call that the caller makes right goes through. -/
theorem call_spec (hround : Rounding env.ops.round)
    (hexp : ∀ x, x ≤ 0 → 0 ≤ env.exp x ∧ env.exp x ≤ 1)
    (hcounted : tables.Counted (Pool.held other v.table)) (hlisted : Listed env tables)
    (hfollows : Follows env tables v) {c : Call F} (hlegal : c.Legal env.ops.round v) :
    ∃ tables' v', c.run env tables v = some (tables', v') ∧ Turned env other tables tables' v' := by
  cases c with
  | setup ratio nchan hlen =>
    obtain ⟨status, tables', v', hsetup, hturned⟩ := setupWith_spec hround hcounted hlisted
      hlegal ratio hlen (env.ops.round (1 - env.ops.round (env.ops.round (26 / 10) / hlen)))
    refine ⟨tables', v', ?_, hturned⟩
    rw [Call.run, VResampler.setup, hsetup]
    rfl
  | setupWith ratio nchan hlen frel =>
    obtain ⟨status, tables', v', hsetup, hturned⟩ :=
      setupWith_spec hround hcounted hlisted hlegal ratio hlen frel
    refine ⟨tables', v', ?_, hturned⟩
    rw [Call.run, hsetup]
    rfl
  | clear =>
    obtain ⟨tables', v', hclear, hnone, hcounted', hkept, hlisted'⟩ :=
      clear_spec hcounted hlisted
    refine ⟨tables', v', hclear, ?_, follows_none hnone, hkept, hlisted'⟩
    rw [hnone]
    exact hcounted'
  | reset =>
    refine turned_own hcounted hlisted hfollows (fun hT => ⟨v, ?_, hT⟩) ?_
    · rw [Call.run, VResampler.reset, hT]
      rfl
    · intro T table stream hT htable htracks
      obtain ⟨v', hreset, hT', htracks'⟩ := htracks.reset hT htable
      refine ⟨v', _, ?_, hT', htracks'⟩
      rw [Call.run, hreset]
      rfl
  | setPhase p =>
    refine turned_own hcounted hlisted hfollows (fun hT => ⟨v, ?_, hT⟩) ?_
    · rw [Call.run, VResampler.setPhase, hT]
      rfl
    · intro T table stream hT htable htracks
      obtain ⟨v', hset, hT', htracks'⟩ := htracks.setPhase hround hT htable hlegal
      refine ⟨v', _, ?_, hT', htracks'⟩
      rw [Call.run, hset]
      rfl
  | setRrfilt t =>
    refine turned_own hcounted hlisted hfollows (fun hT => ⟨v, ?_, hT⟩) ?_
    · rw [Call.run, VResampler.setRrfilt, hT]
    · intro T table stream hT htable htracks
      obtain ⟨hT', htracks'⟩ := htracks.setRrfilt hround hT hexp t
      exact ⟨_, stream, rfl, hT', htracks'⟩
  | setRratio r =>
    refine turned_own hcounted hlisted hfollows (fun hT => ⟨v, ?_, hT⟩) ?_
    · rw [Call.run, VResampler.setRratio, hT]
      rfl
    · intro T table stream hT htable htracks
      obtain ⟨v', hset, hT', htracks'⟩ := htracks.setRratio hround hT htable r
      refine ⟨v', stream, ?_, hT', htracks'⟩
      rw [Call.run, hset]
      rfl
  | process inpCount inpData outCount outData =>
    refine turned_own hcounted hlisted hfollows
      (fun hT => ⟨v.load inpCount inpData outCount outData, ?_, hT⟩) ?_
    · have hnone : (v.load inpCount inpData outCount outData).table = none := hT
      rw [Call.run, VResampler.process_none hnone]
      rfl
    · intro T table stream hT htable htracks
      obtain ⟨v', out, hprocess, hagrees⟩ :=
        (htracks.load inpCount inpData outCount outData).process hround hT htable hlegal.1
          hlegal.2
      refine ⟨v', _, ?_, hagrees.kept.table_eq.trans hT, hagrees.tracks⟩
      rw [Call.run, hprocess]
      rfl

theorem sound_init (env : Platform F) : Sound env init :=
  ⟨Pool.counted_empty, nofun, nofun, List.Pairwise.nil⟩

theorem holders_pos {list : List (VResampler F)} (hv : v ∈ list) {T : Nat}
    (hT : v.table = some T) : 0 < holders list T :=
  List.countP_pos_iff.mpr ⟨v, hv, decide_eq_true hT⟩

/-- The others do not notice. -/
theorem follows_others {list : List (VResampler F)} (hfollows : ∀ v ∈ list, Follows env tables v)
    (hkept : ∀ T x, 0 < holders list T → tables.read T = some x → tables'.read T = some x) :
    ∀ v ∈ list, Follows env tables' v := fun v hv =>
  (hfollows v hv).mono fun T hT x hread => hkept T x (holders_pos hv hT) hread

/-- Every step that is made right goes through, and keeps the objects sound. -/
theorem Sound.step (hround : Rounding env.ops.round)
    (hexp : ∀ x, x ≤ 0 → 0 ≤ env.exp x ∧ env.exp x ≤ 1) (h : Sound env s)
    (hlegal : s.Legal env.ops.round a) : ∃ t, s.run env a = some t ∧ Sound env t := by
  cases a with
  | construct memory =>
    refine ⟨_, rfl, ⟨?_, ?_, h.listed⟩⟩
    · have hcount : holders (s.list ++ [{ memory with
          table := none
          nchan := 0
          buff := [] }]) = holders s.list := by
        rw [holders_middle, List.append_nil, Pool.held_none]
      exact hcount ▸ h.counted
    · intro v hv
      rcases List.mem_append.mp hv with hv | hv
      · exact h.follows v hv
      · obtain rfl := List.mem_singleton.mp hv
        exact follows_none rfl
  | destruct i =>
    rw [run]
    cases hi : s.list[i]? with
    | none => exact ⟨s, rfl, h⟩
    | some v =>
      obtain ⟨pre, post, hlist, herase, -⟩ := exists_middle hi
      have hcounted := h.counted
      have hfollows := h.follows
      rw [hlist, holders_middle] at hcounted
      rw [hlist] at hfollows
      obtain ⟨tables', v', hclear, -, hcounted', hkept, hlisted⟩ :=
        clear_spec hcounted h.listed
      refine ⟨⟨tables', s.list.eraseIdx i⟩, by simp only [hclear, some_bind]; rfl, ?_⟩
      rw [herase]
      exact ⟨hcounted',
        follows_others (fun u hu => hfollows u (Pool.mem_middle.mpr (.inr hu))) hkept, hlisted⟩
  | call i c =>
    rw [run]
    cases hi : s.list[i]? with
    | none => exact ⟨s, rfl, h⟩
    | some v =>
      obtain ⟨pre, post, hlist, -, hset⟩ := exists_middle hi
      have hcounted := h.counted
      have hfollows := h.follows
      rw [hlist, holders_middle] at hcounted
      rw [hlist] at hfollows
      obtain ⟨tables', v', hrun, hturned⟩ := call_spec hround hexp hcounted h.listed
        (hfollows v (by simp)) (hlegal v hi)
      refine ⟨⟨tables', s.list.set i v'⟩, by simp only [hrun, some_bind]; rfl, ?_⟩
      rw [hset]
      have hothers := follows_others (fun u hu => hfollows u (Pool.mem_middle.mpr (.inr hu)))
        hturned.kept
      refine ⟨holders_middle ▸ hturned.counted, fun u hu => ?_, hturned.listed⟩
      rcases Pool.mem_middle.mp hu with rfl | hu
      · exact hturned.follows
      · exact hothers u hu

/-- All that can be reached is sound. -/
theorem reachable_sound (hround : Rounding env.ops.round)
    (hexp : ∀ x, x ≤ 0 → 0 ≤ env.exp x ∧ env.exp x ≤ 1) (h : Reachable env s) : Sound env s := by
  obtain ⟨as, hrun⟩ := h
  refine hrun.invariant ?_ (sound_init env)
  rintro s a t hs ⟨hlegal, hstep⟩
  obtain ⟨t', ht', hsound⟩ := hs.step hround hexp hlegal
  rw [hstep] at ht'
  exact Option.some.inj ht' ▸ hsound

/-- An object as memory may hold it before the constructor runs. -/
def blank (F : Type) : VResampler F :=
  ⟨⟨0, 0, 0⟩, none, 0, 0, 0, 0, 0, 0, 0, [], 0, 0, none, none⟩

/-- Exact numbers in the place of `float`, and a table of ones. -/
def plain (round : ℚ → ℚ) : Platform ℚ where
  ops := ⟨round, 0, 1 / 10 ^ 30, (· + ·), (· - ·), (· * ·), id⟩
  tap := fun _ _ _ => 1
  fresh := fun _ => 0
  exp := fun x => if x = 0 then 1 else 1 / 2

theorem plain_round : Rounding (plain roundDouble).ops.round := rounding_double

theorem plain_exp (round : ℚ → ℚ) (x : ℚ) (_ : x ≤ 0) :
    0 ≤ (plain round).exp x ∧ (plain round).exp x ≤ 1 := by
  rw [plain]
  constructor <;> simp only <;> split_ifs <;> norm_num

theorem reachable_blank (env : Platform F) : Reachable env ⟨Pool.empty, [blank F]⟩ :=
  ⟨[.construct (blank F)], Run.single ⟨trivial, rfl⟩⟩

/-- `setup` can be what an object has gone through last. -/
theorem reachable_started (hround : Rounding env.ops.round) (ratio : ℚ) (nchan hlen : Nat)
    (frel : ℚ) (hnchan : nchan < 2 ^ 18)
    (haccepted : ¬(nchan = 0 ∨ hlen < 8 ∨ hlen > 96 ∨ 64 * ratio < 1 ∨ ratio > 256)) :
    ∃ t v table, Reachable env t ∧ t.list = [v] ∧
      Started env t.tables ratio nchan hlen frel v table := by
  have hcounted : (Pool.empty : Pool (ResamplerTable F)).Counted
      (Pool.held (holders ([] : List (VResampler F))) (blank F).table) := Pool.counted_empty
  obtain ⟨tables, v, table, hsetup, -, hstarted⟩ :=
    setupWith_started hround hcounted (sound_init env).listed hnchan haccepted frel
  obtain ⟨as, hrun⟩ := reachable_blank env
  refine ⟨⟨tables, [v]⟩, v, table, ⟨as ++ [.call 0 (.setupWith ratio nchan hlen frel)], ?_⟩, rfl,
    hstarted⟩
  refine hrun.snoc ⟨fun v hv => hnchan, ?_⟩
  rw [run]
  simp only [List.getElem?_cons_zero, Call.run, hsetup, some_bind]
  rfl

/-- Whatever has been called before, on however many objects, a call with enough floats and enough
room stays inside the buffers and the tables. -/
theorem reachable_run (hround : Rounding env.ops.round)
    (hexp : ∀ x, x ≤ 0 → 0 ≤ env.exp x ∧ env.exp x ≤ 1) (h : Reachable env s)
    (hlegal : s.Legal env.ops.round a) : ∃ t, s.run env a = some t := by
  obtain ⟨t, ht, -⟩ := (reachable_sound hround hexp h).step hround hexp hlegal
  exact ⟨t, ht⟩

theorem reachable_run_process : ∃ t : Objects ℚ, Reachable (plain roundDouble) t ∧
    ∃ t', t.run (plain roundDouble) (.call 0 (.process 40 (some (List.replicate 80 1)) 9 none)) =
      some t' := by
  obtain ⟨t, v, table, hreach, hlist, hstarted⟩ := reachable_started plain_round (1 / 2) 2 16 1
    (by decide) (by norm_num)
  refine ⟨t, hreach, reachable_run plain_round (plain_exp _) hreach fun u hu => ?_⟩
  rw [hlist] at hu
  obtain rfl := Option.some.inj hu
  refine ⟨fun data hdata => ?_, nofun⟩
  obtain rfl := Option.some.inj hdata
  rw [hstarted.nchan_eq, List.length_replicate]

/-- A table lives as long as an object uses it, and is made only where no other one does. -/
theorem reachable_tables (hround : Rounding env.ops.round)
    (hexp : ∀ x, x ≤ 0 → 0 ≤ env.exp x ∧ env.exp x ≤ 1) (h : Reachable env s) :
    (∀ e ∈ s.tables.list, e.refc = holders s.list e.address ∧ 0 < e.refc) ∧
      (∀ v ∈ s.list, ∀ T, v.table = some T → ∃ e ∈ s.tables.list, e.address = T) ∧
      ((∀ v ∈ s.list, v.table = none) → s.tables.list = []) ∧
      (s.tables.list.map fun e => e.value).Pairwise fun table older =>
        older.suits env.ops.round table.fr table.hl table.np = false := by
  have hsound := reachable_sound hround hexp h
  have hcounted := hsound.counted
  refine ⟨fun e he => ⟨hcounted.refc_eq e he, hcounted.refc_pos e he⟩,
    fun v hv T hT => hcounted.live T (holders_pos hv hT), fun hnone => ?_, hsound.listed.distinct⟩
  have hzero : holders s.list = fun _ => 0 := by
    funext T
    refine List.countP_eq_zero.mpr fun v hv => ?_
    rw [hnone v hv]
    simp
  rw [hzero] at hcounted
  exact hcounted.list_eq_nil

theorem reachable_tables_started : ∃ t : Objects ℚ, (∃ e, e ∈ t.tables.list) ∧
    (∀ e ∈ t.tables.list, e.refc = holders t.list e.address ∧ 0 < e.refc) ∧
      (∀ v ∈ t.list, ∀ T, v.table = some T → ∃ e ∈ t.tables.list, e.address = T) ∧
      ((∀ v ∈ t.list, v.table = none) → t.tables.list = []) ∧
      (t.tables.list.map fun e => e.value).Pairwise fun table older =>
        older.suits roundDouble table.fr table.hl table.np = false := by
  obtain ⟨t, v, table, hreach, hlist, hstarted⟩ := reachable_started plain_round (1 / 2) 2 16 1
    (by decide) (by norm_num)
  have htables := reachable_tables plain_round (plain_exp _) hreach
  obtain ⟨T, hT, -⟩ := hstarted.exists_table
  obtain ⟨e, he, -⟩ := htables.2.1 v (hlist ▸ List.mem_singleton_self v) T hT
  exact ⟨t, ⟨e, he⟩, htables⟩

end Objects

end Vban.Zita
