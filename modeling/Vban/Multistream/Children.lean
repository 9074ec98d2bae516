import Mathlib.Algebra.BigOperators.Group.List.Basic
import Vban.Multistream.Expiry

/-! The children of the clients: whom `timerThread` signals, and the pipes that it leaves open. -/
namespace Vban.Multistream

open Library

/-- The calls of `popen2` for the last client that was created with this key. -/
def launchesOf (key : UInt32 × StreamName) (es : List ServerEvent) : List Launch :=
  es.foldl (fun launches e =>
    match e with
    | .received (.created client launches') => if client.key = key then launches' else launches
    | _ => launches) []

/-- The pid is positive, and that of a child that one of these calls of `popen2` started. -/
def IsChild (launches : List Launch) (pid : Int) : Prop :=
  0 < pid ∧ ∃ l ∈ launches, l.calls.Succeeds ∧ pid = l.calls.ret

/-- In each removal `timerThread` calls `kill` and `pclose2` for children of the client alone. -/
def SignalsChildren (es : List ServerEvent) : Prop :=
  ∀ before client after, es = before ++ .ticked (some client) :: after →
    ∀ call ∈ (ServerEvent.ticked (some client)).childCalls,
      IsChild (launchesOf client.key before) call.pid

/-- The pids of the client are what these calls returned. -/
def ClientId.StartedBy (client : ClientId) (calls : List Popen2Calls) : Prop :=
  ∃ rx, client.pid = rx.ret ∧ (calls = [rx] ∧ client.txpid = 0 ∨
    ∃ tx, calls = [rx, tx] ∧ client.txpid = tx.ret)

variable {limit : Nat} {table table' : ClientTable} {e : ServerEvent} {es : List ServerEvent}
  {s t : Server} {key : UInt32 × StreamName} {client : ClientId} {launches : List Launch}
  {rx tx : Popen2Calls} {emitter : Bool} {pipes pipes' : List Nat}

theorem launchesOf_created : launchesOf key (es ++ [.received (.created client launches)]) =
    if client.key = key then launches else launchesOf key es := by
  rw [launchesOf, List.foldl_append]
  rfl

theorem launchesOf_other (h : ∀ client launches, e ≠ .received (.created client launches)) :
    launchesOf key (es ++ [e]) = launchesOf key es := by
  rw [launchesOf, List.foldl_append, List.foldl_cons, List.foldl_nil]
  split
  · exact absurd rfl (h _ _)
  · rfl

theorem Started.startedBy (h : Started emitter rx tx client launches pipes pipes') :
    client.StartedBy (launches.map (·.calls)) := by
  refine ⟨rx, h.pid_eq, ?_⟩
  rw [h.calls_eq, h.txpid_eq]
  cases emitter with
  | false => exact Or.inl ⟨rfl, rfl⟩
  | true => exact Or.inr ⟨tx, rfl, rfl⟩

/-- Every client has the pids of the calls at its creation. -/
def ClientTable.Remembers (es : List ServerEvent) (table : ClientTable) : Prop :=
  ∀ c ∈ table.identities, c.StartedBy ((launchesOf c.key es).map (·.calls))

theorem TableStep.remembers (hs : table.Remembers es) (h : TableStep limit table e table') :
    table'.Remembers (es ++ [e]) := by
  rcases h.identities_cases with
    ⟨hsub, hpipes, hother⟩ | ⟨client, launches, emitter, rx, tx, rfl, hnew, hstarted, hids⟩
  · intro c hc
    rw [launchesOf_other hother]
    exact hs c (hsub.subset hc)
  · intro c hc
    rw [hids] at hc
    rw [launchesOf_created]
    rcases List.mem_append.mp hc with hc | hc
    · rw [if_neg (hnew c hc).symm]
      exact hs c hc
    · obtain rfl := List.mem_singleton.mp hc
      rw [if_pos rfl]
      exact hstarted.startedBy

theorem table_run_remembers (h : Run (TableStep limit) table es table')
    (hs : table.Remembers []) : table'.Remembers es := by
  induction h with
  | refl => exact hs
  | snoc _ hstep ih => exact hstep.remembers ih

/-- What `popen2` returned is a child's pid if `popen2` succeeded. -/
theorem isChild_iff {calls : Popen2Calls} {pid : Int} (hmem : calls ∈ launches.map (·.calls))
    (hpid : pid = calls.ret) : IsChild launches pid ↔ calls.Succeeds := by
  constructor
  · rintro ⟨hpos, -⟩
    exact Popen2Calls.ret_pos_iff.mp (hpid ▸ hpos)
  · intro h
    obtain ⟨l, hl, rfl⟩ := List.mem_map.mp hmem
    exact ⟨hpid ▸ Popen2Calls.ret_pos_iff.mpr h, l, hl, h, hpid⟩

theorem forall_removalCalls {P : Int → Prop} {pid txpid : Int} :
    (∀ call ∈ removalCalls pid txpid, P call.pid) ↔ P pid ∧ (txpid ≠ 0 → P txpid) := by
  rw [removalCalls]
  split_ifs with h
  · simp [ChildCall.pid, h]
  · simp [ChildCall.pid, h]

/-- A removal signals the client's children alone iff all of them could be started. -/
theorem removalCalls_isChild_iff (h : client.StartedBy (launches.map (·.calls))) :
    (∀ call ∈ removalCalls client.pid client.txpid, IsChild launches call.pid) ↔
      ∀ l ∈ launches, l.calls.Succeeds := by
  have hall : (∀ l ∈ launches, l.calls.Succeeds) ↔
      ∀ calls ∈ launches.map (·.calls), calls.Succeeds := List.forall_mem_map.symm
  rw [forall_removalCalls, hall]
  obtain ⟨rx, hpid, ⟨hcalls, htxpid⟩ | ⟨tx, hcalls, htxpid⟩⟩ := h
  · have hrx : rx ∈ launches.map (·.calls) := by
      rw [hcalls]
      exact List.mem_singleton_self rx
    rw [isChild_iff hrx hpid, hcalls, List.forall_mem_singleton]
    exact and_iff_left fun hne => absurd htxpid hne
  · have hrx : rx ∈ launches.map (·.calls) := by
      rw [hcalls]
      exact List.mem_cons_self
    have htx : tx ∈ launches.map (·.calls) := by
      rw [hcalls]
      exact List.mem_cons_of_mem rx (List.mem_singleton_self tx)
    have hne : client.txpid ≠ 0 := htxpid ▸ tx.ret_ne_zero
    rw [isChild_iff hrx hpid, isChild_iff htx htxpid, hcalls, List.forall_mem_cons,
      List.forall_mem_singleton]
    exact and_congr_right' (forall_prop_of_true hne)

/-- What holds of a client that a turn of `timerThread` takes out of a run from the start. -/
theorem removed_startedBy {argv0 : List UInt8} {redundancy : Nat} {vbanOutputFormat : UInt8}
    {stream : VbanRxContext Unit} {cAddr : UInt32 × UInt16} {ipIn : UInt32} {portIn : UInt16}
    (h : Run ServerStep
      (.start argv0 redundancy vbanOutputFormat stream cAddr ipIn portIn)
      (es ++ [.ticked (some client)]) s) :
    client.StartedBy ((launchesOf client.key es).map (·.calls)) := by
  obtain ⟨t, ht, hlast⟩ := h.of_append
  obtain ⟨htable, hcounts, -⟩ := server_run_refines ht (Server.start_counts _ _ _ _ _ _ _)
  have hremembers : t.table.Remembers es := table_run_remembers htable nofun
  obtain ⟨-, htaken⟩ := (hlast.step_of_single.refines hcounts).1.ticked_spec
  obtain ⟨-, front, back, hclients, -⟩ := htaken client rfl
  refine hremembers client.reset (List.mem_map_of_mem ?_)
  rw [hclients]
  exact List.mem_append_right _ List.mem_cons_self

/-- In a run `timerThread` signals the children of removed clients alone iff every call of `popen2`
for a client that is removed succeeded. -/
theorem server_run_signals_iff {argv0 : List UInt8} {redundancy : Nat} {vbanOutputFormat : UInt8}
    {stream : VbanRxContext Unit} {cAddr : UInt32 × UInt16} {ipIn : UInt32} {portIn : UInt16}
    (h : Run ServerStep
      (.start argv0 redundancy vbanOutputFormat stream cAddr ipIn portIn) es s) :
    SignalsChildren es ↔
    ∀ before client after, es = before ++ ServerEvent.ticked (some client) :: after →
      ∀ l ∈ launchesOf client.key before, l.calls.Succeeds := by
  have hremoval : ∀ before client after,
      es = before ++ ServerEvent.ticked (some client) :: after →
        ((∀ call ∈ (ServerEvent.ticked (some client)).childCalls,
            IsChild (launchesOf client.key before) call.pid) ↔
          ∀ l ∈ launchesOf client.key before, l.calls.Succeeds) := by
    rintro before client after rfl
    rw [← List.singleton_append, ← List.append_assoc] at h
    obtain ⟨t, ht, -⟩ := h.of_append
    exact removalCalls_isChild_iff (removed_startedBy ht)
  constructor
  · intro hall before client after heq
    exact (hremoval before client after heq).mp (hall before client after heq)
  · intro hall before client after heq
    exact (hremoval before client after heq).mpr (hall before client after heq)

/-- Every call of `popen2` in the run succeeds. -/
def AllStarted (es : List ServerEvent) : Prop :=
  ∀ client launches, .received (.created client launches) ∈ es → ∀ l ∈ launches, l.calls.Succeeds

theorem AllStarted.launchesOf (h : AllStarted es) :
    ∀ l ∈ launchesOf key es, l.calls.Succeeds := by
  induction es using List.reverseRecOn with
  | nil => exact nofun
  | append_singleton es e ih =>
    have hes : AllStarted es := fun client launches he =>
      h client launches (List.mem_append_left _ he)
    by_cases hcreated : ∃ client launches, e = .received (.created client launches)
    · obtain ⟨client, launches, rfl⟩ := hcreated
      rw [launchesOf_created]
      split_ifs
      · exact h client launches (List.mem_append_right _ List.mem_cons_self)
      · exact ih hes
    · rw [launchesOf_other fun client launches he => hcreated ⟨client, launches, he⟩]
      exact ih hes

/-- A call of `popen2` that succeeds. -/
def firstChild : Popen2Calls := .forked ⟨4, 5⟩ ⟨6, 7⟩ 100 (by decide)

theorem fresh_firstChild : firstChild.Fresh [] := ⟨by decide, nofun, by decide⟩

theorem succeeds_of_calls (h : launches.map (·.calls) = [firstChild]) :
    ∀ l ∈ launches, l.calls.Succeeds := by
  have hall : ∀ calls ∈ launches.map (·.calls), calls.Succeeds := by
    rw [h]
    exact List.forall_mem_singleton.mpr trivial
  exact List.forall_mem_map.mp hall

/-- The run of the only client, when its receptor can be started. -/
theorem exists_expired_started : ∃ es client s,
    Run ServerStep (serverFor 2 0) (es ++ [.ticked (some client)]) s ∧
      AllStarted (es ++ [.ticked (some client)]) ∧ s.clients = [] ∧ s.pipes = [5] := by
  obtain ⟨client, launches, removed, s, t, hrun, hremoved, -, hempty, hstarted⟩ :=
    exists_expired_run 2 0 fresh_firstChild (fresh_noPipe _)
  refine ⟨_, removed, t, hrun.snoc hremoved, ?_, hempty, hstarted.pipes_eq⟩
  intro c ls hmem
  obtain ⟨-, rfl⟩ : c = client ∧ ls = launches := by simpa using hmem
  exact succeeds_of_calls hstarted.calls_eq

/-- The receptor of the only client is started with the pid 100, and the client is removed. -/
theorem server_run_signals_receptor : ∃ es client s,
    Run ServerStep (serverFor 2 0) (es ++ [.ticked (some client)]) s ∧
      SignalsChildren (es ++ [.ticked (some client)]) := by
  obtain ⟨es, client, s, hrun, hstarted, -⟩ := exists_expired_started
  refine ⟨es, client, s, hrun, (server_run_signals_iff hrun).mpr ?_⟩
  intro before c after heq
  apply AllStarted.launchesOf
  intro c' launches hmem
  apply hstarted c' launches
  rw [heq]
  exact List.mem_append_left _ hmem

/-- No pipe can be made for the receptor of the only client. When the client is removed, every
process that the server may signal gets `SIGINT`. -/
theorem failed_start_signals_all : ∃ es client s,
    Run ServerStep (serverFor 2 0) (es ++ [.ticked (some client)]) s ∧
      (ServerEvent.ticked (some client)).childCalls = [.kill (-1) sigint, .pclose2 (-1)] ∧
      ¬SignalsChildren (es ++ [.ticked (some client)]) := by
  obtain ⟨client, launches, removed, s, t, hrun, hremoved, hreset, -, hstarted⟩ :=
    exists_expired_run 2 0 (fresh_noPipe []) (fresh_noPipe _)
  have hpid : removed.reset.pid = -1 := by
    rw [hreset]
    exact hstarted.pid_eq
  have htxpid : removed.reset.txpid = 0 := by
    rw [hreset]
    exact hstarted.txpid_eq
  have hcalls : (ServerEvent.ticked (some removed)).childCalls =
      [.kill (-1) sigint, .pclose2 (-1)] := by
    change removalCalls removed.reset.pid removed.reset.txpid = _
    rw [hpid, htxpid]
    rfl
  refine ⟨_, removed, t, hrun.snoc hremoved, hcalls, ?_⟩
  intro h
  have hchild := h _ removed [] rfl
  rw [hcalls] at hchild
  obtain ⟨hpos, -⟩ := hchild _ List.mem_cons_self
  exact absurd hpos (by decide)

/-! The descriptors of pipes. -/

/-- A client has a pipe to its receptor, and one to its emitter if it has one. -/
def ClientId.descriptors (client : ClientId) : Nat := if client.txpid = 0 then 1 else 2

/-- The descriptors of the clients that were removed. -/
def leaked (es : List ServerEvent) : Nat :=
  (es.map fun e =>
    match e with
    | .ticked (some client) => client.descriptors
    | _ => 0).sum

/-- What is open belongs to the clients that are there, and to those that were there. -/
def ClientTable.PipesCounted (es : List ServerEvent) (table : ClientTable) : Prop :=
  table.pipes.length = (table.clients.map ClientId.descriptors).sum + leaked es

theorem leaked_append_singleton : leaked (es ++ [e]) = leaked es + leaked [e] := by
  rw [leaked, List.map_append, List.sum_append]
  rfl

theorem map_descriptors_age (clients : List ClientId) :
    (clients.map ClientId.age).map ClientId.descriptors = clients.map ClientId.descriptors := by
  rw [List.map_map]
  rfl

theorem Started.length_pipes (h : Started emitter rx tx client launches pipes pipes')
    (hall : ∀ l ∈ launches, l.calls.Succeeds) :
    pipes'.length = pipes.length + client.descriptors := by
  have hcalls : ∀ calls ∈ launches.map (·.calls), calls.Succeeds := List.forall_mem_map.mpr hall
  rw [h.pipes_eq, ClientId.descriptors, h.txpid_eq]
  rw [h.calls_eq] at hcalls
  cases emitter with
  | false =>
    have hrx := hcalls rx (List.mem_singleton_self rx)
    simp only [Bool.false_eq_true, if_false, if_true]
    rw [Popen2Calls.opened_infp 0 h.freshRx hrx]
    simp
  | true =>
    have hrx := hcalls rx List.mem_cons_self
    have htx := hcalls tx (List.mem_cons_of_mem rx List.mem_cons_self)
    simp only [if_true, if_neg tx.ret_ne_zero]
    rw [Popen2Calls.opened_outfp 0 h.freshTx htx,
      Popen2Calls.opened_infp 0 h.freshRx hrx]
    simp

theorem TableStep.pipesCounted (hs : table.PipesCounted es) (h : TableStep limit table e table')
    (hall : AllStarted [e]) : table'.PipesCounted (es ++ [e]) := by
  rw [ClientTable.PipesCounted, leaked_append_singleton]
  cases h with
  | wrote =>
    simp only [ClientTable.PipesCounted, List.map_append, List.map_cons] at hs ⊢
    exact hs
  | @created clients client launches pipes pipes' emitter rx tx room new started =>
    have hlen := started.length_pipes (hall client launches List.mem_cons_self)
    simp only [ClientTable.PipesCounted, List.map_append, List.map_singleton, List.sum_append,
      List.sum_singleton] at hs ⊢
    have hnone : leaked [.received (.created client launches)] = 0 := rfl
    omega
  | @idle _ r h => exact hs
  | aged =>
    rw [map_descriptors_age]
    exact hs
  | @removed front back client pipes before due =>
    simp only [ClientTable.PipesCounted, List.map_append, List.map_cons, List.sum_append,
      List.sum_cons] at hs ⊢
    have hremoved : leaked [.ticked (some client)] = client.descriptors := rfl
    rw [map_descriptors_age]
    omega

theorem table_run_pipesCounted (h : Run (TableStep limit) table es table')
    (hall : AllStarted es) (hs : table.PipesCounted []) : table'.PipesCounted es := by
  induction h with
  | refl => exact hs
  | @snoc _ _ es e _ hstep ih =>
    apply hstep.pipesCounted
    · exact ih fun client launches he => hall client launches (List.mem_append_left _ he)
    · exact fun client launches he => hall client launches (List.mem_append_right _ he)

theorem sum_descriptors (clients : List ClientId) :
    (clients.map ClientId.descriptors).sum =
      clients.length + (clients.filter (·.txpid ≠ 0)).length := by
  induction clients with
  | nil => rfl
  | cons c clients ih =>
    rw [List.map_cons, List.sum_cons, ih, List.length_cons, ClientId.descriptors]
    by_cases h : c.txpid = 0
    · rw [if_pos h, List.filter_cons_of_neg (by simpa using h)]
      omega
    · rw [if_neg h, List.filter_cons_of_pos (by simpa using h), List.length_cons]
      omega

theorem leaked_eq_zero_iff : leaked es = 0 ↔ ∀ client, .ticked (some client) ∉ es := by
  have hpos : ∀ c : ClientId, c.descriptors ≠ 0 := by
    intro c
    rw [ClientId.descriptors]
    split_ifs
    · decide
    · decide
  induction es with
  | nil => exact iff_of_true rfl fun _ => List.not_mem_nil
  | cons e es ih =>
    have hcons : leaked (e :: es) = leaked [e] + leaked es := by
      rw [leaked, List.map_cons, List.sum_cons]
      rfl
    rw [hcons, Nat.add_eq_zero_iff]
    simp only [List.mem_cons, not_or, forall_and]
    refine and_congr ?_ ih
    rcases e with r | (_ | c)
    · exact iff_of_true rfl nofun
    · exact iff_of_true rfl nofun
    · exact iff_of_false (hpos c) fun h => h c rfl

/-- Where `popen2` always succeeds, the open pipes are those of the active clients iff no client was
ever removed. -/
theorem server_run_pipes_iff {argv0 : List UInt8} {redundancy : Nat} {vbanOutputFormat : UInt8}
    {stream : VbanRxContext Unit} {cAddr : UInt32 × UInt16} {ipIn : UInt32} {portIn : UInt16}
    (h : Run ServerStep
      (.start argv0 redundancy vbanOutputFormat stream cAddr ipIn portIn) es s)
    (hall : AllStarted es) :
    s.pipes.length = s.activeClientsNum + (s.clients.filter (·.txpid ≠ 0)).length ↔
      ∀ client, .ticked (some client) ∉ es := by
  obtain ⟨htable, hcounts, -⟩ := server_run_refines h (Server.start_counts _ _ _ _ _ _ _)
  have hcounted : s.pipes.length = (s.clients.map ClientId.descriptors).sum + leaked es :=
    table_run_pipesCounted htable hall rfl
  rw [← leaked_eq_zero_iff, hcounted, sum_descriptors, hcounts.active_eq]
  exact Nat.add_eq_left

/-- The client with the receptor that was started has one pipe. -/
theorem server_run_pipes_first : ∃ es s, Run ServerStep (serverFor 2 0) es s ∧ es ≠ [] ∧
    s.pipes.length = s.activeClientsNum + (s.clients.filter (·.txpid ≠ 0)).length := by
  obtain ⟨client, launches, s, hstep, -, hstarted, -⟩ :=
    exists_first_client 2 0 fresh_firstChild (fresh_noPipe _)
  refine ⟨_, s, .single hstep, List.cons_ne_nil _ _,
    (server_run_pipes_iff (.single hstep) ?_).mpr ?_⟩
  · intro c ls hmem
    obtain ⟨-, rfl⟩ : c = client ∧ ls = launches := by simpa using hmem
    exact succeeds_of_calls hstarted.calls_eq
  · simp

/-- The only client was removed, and its pipe is open. -/
theorem pipe_left_open : ∃ es s, Run ServerStep (serverFor 2 0) es s ∧ AllStarted es ∧
    s.clients = [] ∧ s.pipes = [5] ∧
      s.pipes.length ≠ s.activeClientsNum + (s.clients.filter (·.txpid ≠ 0)).length := by
  obtain ⟨es, client, s, hrun, hstarted, hclients, hpipes⟩ := exists_expired_started
  obtain ⟨-, hcounts, -⟩ := server_run_refines hrun (Server.start_counts _ _ _ _ _ _ _)
  refine ⟨_, s, hrun, hstarted, hclients, hpipes, ?_⟩
  rw [hcounts.active_eq, hclients, hpipes]
  decide

end Vban.Multistream
