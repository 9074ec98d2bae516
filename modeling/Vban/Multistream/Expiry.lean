import Vban.Multistream.Admission

/-! When clients are removed. -/
namespace Vban.Multistream

open Library
open Discovery (chars)

/-- The client is created, or sends a packet that is passed on. -/
def ServerEvent.From (key : UInt32 × StreamName) : ServerEvent → Prop
  | received (.wrote client _) | received (.created client _) => client.key = key
  | _ => False

instance {key : UInt32 × StreamName} : DecidablePred (ServerEvent.From key) := fun e =>
  match e with
  | .received (.wrote client _) | .received (.created client _) =>
    inferInstanceAs (Decidable (client.key = key))
  | .received .full | .received (.replied ..) | .received (.relayed ..) | .received .ignored
  | .ticked _ => inferInstanceAs (Decidable False)

/-- The turns of `timerThread` since the client was created or last sent. -/
def ticksSince (key : UInt32 × StreamName) (es : List ServerEvent) : Nat :=
  es.foldl (fun n e =>
    if e.From key then 0
    else match e with
      | .ticked _ => n + 1
      | .received _ => n) 0

variable {limit : Nat} {table table' : ClientTable} {e : ServerEvent} {es : List ServerEvent}
  {s t : Server} {key : UInt32 × StreamName} {removed : Option ClientId} {client : ClientId}

theorem ticksSince_ticked : ticksSince key (es ++ [.ticked removed]) = ticksSince key es + 1 := by
  rw [ticksSince, List.foldl_append]
  rfl

theorem ticksSince_of_not_from {r : Reaction} (h : ¬(ServerEvent.received r).From key) :
    ticksSince key (es ++ [.received r]) = ticksSince key es := by
  rw [ticksSince, List.foldl_append, List.foldl_cons, List.foldl_nil, if_neg h]
  rfl

/-- No timer shows more turns than there were. -/
def ClientTable.TimersSince (es : List ServerEvent) (table : ClientTable) : Prop :=
  ∀ c ∈ table.clients, c.timer ≤ ticksSince c.key es

theorem TableStep.timersSince (hsep : table.Separate) (hs : table.TimersSince es)
    (h : TableStep limit table e table') : table'.TimersSince (es ++ [e]) := by
  have hage : ∀ c : ClientId, c.timer ≤ ticksSince c.key es →
      ∀ removed, c.age.timer ≤ ticksSince c.age.key (es ++ [.ticked removed]) := by
    intro c hc removed
    rw [ticksSince_ticked]
    exact (Nat.mod_le _ _).trans (Nat.succ_le_succ hc)
  cases h with
  | @wrote front back client bytes pipes =>
    have hother : ∀ c ∈ front ++ back,
        ¬(ServerEvent.received (.wrote client.reset bytes)).From c.key := by
      have hkeys := hsep.nodup_keys
      simp only [List.map_append, List.map_cons] at hkeys
      rw [List.nodup_middle, ← List.map_append] at hkeys
      intro c hc heq
      exact (List.nodup_cons.mp hkeys).1 (List.mem_map.mpr ⟨c, hc, heq.symm⟩)
    simp only [ClientTable.TimersSince, List.forall_mem_append, List.forall_mem_cons] at hs ⊢
    refine ⟨?_, Nat.zero_le _, ?_⟩
    · intro c hc
      rw [ticksSince_of_not_from (hother c (List.mem_append_left _ hc))]
      exact hs.1 c hc
    · intro c hc
      rw [ticksSince_of_not_from (hother c (List.mem_append_right _ hc))]
      exact hs.2.2 c hc
  | @created clients client launches pipes pipes' emitter rx tx room new started =>
    simp only [ClientTable.TimersSince, List.forall_mem_append, List.forall_mem_singleton] at hs ⊢
    refine ⟨?_, started.timer_eq.trans_le (Nat.zero_le _)⟩
    intro c hc
    have hother : ¬(ServerEvent.received (.created client launches)).From c.key := (new c hc).symm
    rw [ticksSince_of_not_from hother]
    exact hs c hc
  | @idle _ r h =>
    intro c hc
    have hnot : ¬(ServerEvent.received r).From c.key := by
      cases r with
      | wrote | created => cases h
      | full | replied | relayed | ignored => exact id
    rw [ticksSince_of_not_from hnot]
    exact hs c hc
  | aged =>
    intro c hc
    obtain ⟨d, hd, rfl⟩ := List.mem_map.mp hc
    exact hage d (hs d hd) none
  | removed =>
    simp only [ClientTable.TimersSince, List.forall_mem_append, List.forall_mem_cons] at hs ⊢
    constructor
    · intro c hc
      obtain ⟨d, hd, rfl⟩ := List.mem_map.mp hc
      exact hage d (hs.1 d hd) _
    · intro c hc
      rw [ticksSince_ticked]
      exact Nat.le_succ_of_le (hs.2.2 c hc)

/-- Turns of `timerThread` alone sweep the list. -/
theorem ticks_clients (hs : s.Counts) {removals : List (Option ClientId)}
    (h : Run ServerStep s (removals.map .ticked) t) : t.Counts ∧
      t.clients = (fun clients => (sweep (·.timer = 4) ClientId.age clients).1)^[removals.length]
        s.clients := by
  induction removals using List.reverseRecOn generalizing t with
  | nil =>
    obtain rfl := h.eq_of_nil
    exact ⟨hs, rfl⟩
  | append_singleton removals removed ih =>
    rw [List.map_append] at h
    obtain ⟨u, hu, ht⟩ := h.of_append
    obtain ⟨hcounts, hclients⟩ := ih hu
    have hstep := ht.step_of_single
    refine ⟨(hstep.refines hcounts).2.1, ?_⟩
    rw [List.length_append, List.length_singleton, Function.iterate_succ_apply', ← hclients]
    cases hstep with
    | tick htick =>
      rw [Server.tick_eq hcounts.active_eq] at htick
      obtain ⟨-, rfl⟩ := Prod.mk.inj (Except.ok.inj htick)
      rfl

/-- `timerThread` can always go on. -/
theorem exists_ticks (hs : s.Counts) (n : Nat) : ∃ (removals : List (Option ClientId)) (t : Server),
    removals.length = n ∧ Run ServerStep s (removals.map .ticked) t := by
  induction n with
  | zero => exact ⟨[], s, rfl, .refl s⟩
  | succ n ih =>
    obtain ⟨removals, t, hlen, hrun⟩ := ih
    obtain ⟨removed, u, htick⟩ := (ticks_clients hs hrun).1.exists_tick
    refine ⟨removals ++ [removed], u, ?_, ?_⟩
    · rw [List.length_append, hlen, List.length_singleton]
    · rw [List.map_append]
      exact hrun.append (.single (.tick htick))

theorem sweep_clients_eq_nil (htimers : s.table.TimersBounded) :
    (fun clients => (sweep (·.timer = 4) ClientId.age clients).1)^[s.clients.length + 4]
      s.clients = [] := by
  refine sweep_iterate_eq_nil (fun _ => Iff.rfl) ?_ htimers
  intro c hc
  exact Nat.mod_eq_of_lt (show c.timer + 1 < 256 by omega)

theorem table_run_timersSince (h : Run (TableStep limit) table es table')
    (hsep : table.Separate) (hs : table.TimersSince []) :
    table'.Separate ∧ table'.TimersSince es := by
  induction h with
  | refl => exact ⟨hsep, hs⟩
  | snoc _ hstep ih =>
    obtain ⟨hsep', hs'⟩ := ih
    exact ⟨hstep.separate hsep', hstep.timersSince hsep' hs'⟩

/-- What a turn of `timerThread` takes and leaves. -/
theorem TableStep.ticked_spec (h : TableStep limit table (.ticked removed) table') :
    (removed = none → table'.identities = table.identities) ∧
      ∀ client, removed = some client → client.timer = 4 ∧
        ∃ front back, table.clients = front ++ client :: back ∧
          table'.identities = front.map ClientId.reset ++ back.map ClientId.reset := by
  cases h with
  | aged =>
    refine ⟨fun _ => ?_, fun client h => absurd h.symm (Option.some_ne_none client)⟩
    rw [ClientTable.identities, map_reset_age]
    rfl
  | @removed front back client pipes before due =>
    refine ⟨fun h => absurd h (Option.some_ne_none client), ?_⟩
    rintro _ ⟨⟩
    refine ⟨due, front, back, rfl, ?_⟩
    rw [ClientTable.identities, List.map_append, map_reset_age]

/-- As many turns of `timerThread` as there are clients, and four more, leave none. Each turn takes
at most one client, which has not sent for four turns, and keeps the others in their order. -/
theorem server_run_expires {argv0 : List UInt8} {redundancy : Nat} {vbanOutputFormat : UInt8}
    {stream : VbanRxContext Unit} {cAddr : UInt32 × UInt16} {ipIn : UInt32} {portIn : UInt16}
    (h : Run ServerStep
      (.start argv0 redundancy vbanOutputFormat stream cAddr ipIn portIn) es s) :
    (∃ (removals : List (Option ClientId)) (t : Server), removals.length = s.clients.length + 4 ∧
      Run ServerStep s (removals.map .ticked) t) ∧
    (∀ (removals : List (Option ClientId)) (t : Server),
      removals.length = s.clients.length + 4 → Run ServerStep s (removals.map .ticked) t →
        t.clients = [] ∧ t.activeClientsNum = 0) ∧
    ∀ removed t, ServerStep s (.ticked removed) t →
      (removed = none → t.table.identities = s.table.identities) ∧
      ∀ client, removed = some client → 4 ≤ ticksSince client.key es ∧
        ∃ front back, s.clients = front ++ client :: back ∧
          t.table.identities = front.map ClientId.reset ++ back.map ClientId.reset := by
  obtain ⟨htable, hcounts, -⟩ := server_run_refines h (Server.start_counts _ _ _ _ _ _ _)
  obtain ⟨-, htimers⟩ := server_run_table h
  obtain ⟨-, hsince⟩ := table_run_timersSince htable
    ⟨List.nodup_nil, nofun, nofun, .nil⟩ nofun
  refine ⟨exists_ticks hcounts _, ?_, ?_⟩
  · intro removals t hlen hrun
    obtain ⟨hcounts', hclients⟩ := ticks_clients hcounts hrun
    rw [hlen, sweep_clients_eq_nil htimers] at hclients
    rw [hcounts'.active_eq, hclients]
    exact ⟨rfl, rfl⟩
  · intro removed t hstep
    obtain ⟨hkept, htaken⟩ := (hstep.refines hcounts).1.ticked_spec
    refine ⟨hkept, ?_⟩
    intro client hclient
    obtain ⟨htimer, front, back, hclients, hids⟩ := htaken client hclient
    have hmem : client ∈ s.table.clients := by
      rw [hclients]
      exact List.mem_append_right _ List.mem_cons_self
    exact ⟨htimer ▸ hsince client hmem, front, back, hclients, hids⟩

theorem tick_lone_removed (hs : s.Counts) (hclients : s.clients = [client])
    (hdue : client.timer = 4) : ServerStep s (.ticked (some client))
      { s with clients := [], activeClientsNum := (s.activeClientsNum + 255) % 256 } := by
  apply ServerStep.tick
  rw [Server.tick_eq hs.active_eq, hclients, sweep, if_pos hdue]
  rfl

/-- The last client is removed in the turn after its timer shows 4. -/
theorem exists_last_removed {k : Nat} (hs : s.Counts) (hclients : s.clients = [client])
    (htimer : client.timer + k = 4) : ∃ removed t t',
    Run ServerStep s (List.replicate k (.ticked none)) t ∧
      ServerStep t (.ticked (some removed)) t' ∧ removed.reset = client.reset ∧
        t'.clients = [] ∧ t'.pipes = s.pipes := by
  induction k generalizing s client with
  | zero =>
    exact ⟨client, s, _, .refl s, tick_lone_removed hs hclients htimer, rfl, rfl, rfl⟩
  | succ k ih =>
    have hstep := tick_lone_aged hs hclients (by omega)
    have hage : client.age.timer = client.timer + 1 := Nat.mod_eq_of_lt (by omega)
    obtain ⟨removed, t, t', hrun, hremoved, hreset, hempty, hpipes⟩ :=
      ih (hstep.refines hs).2.1 rfl (by omega : client.age.timer + k = 4)
    refine ⟨removed, t, t', ?_, hremoved, hreset, hempty, hpipes⟩
    rw [List.replicate_succ]
    exact (Run.single hstep).append hrun

/-- A client that sends one packet is removed in the fifth turn. -/
theorem exists_expired_run (n : Nat) (flags : UInt16) {rx tx : Popen2Calls} (hrx : rx.Fresh [])
    (htx : tx.Fresh (rx.opened false true [])) : ∃ client launches removed s t,
    Run ServerStep (serverFor n flags)
        ([.received (.created client launches)] ++ List.replicate 4 (.ticked none)) s ∧
      ServerStep s (.ticked (some removed)) t ∧ removed.reset = client.reset ∧
        t.clients = [] ∧
        Started (serverFor n flags).LaunchesEmitter rx tx client launches [] t.pipes := by
  obtain ⟨client, launches, s, hstep, hclients, hstarted, -⟩ :=
    exists_first_client n flags hrx htx
  have hcounts := (hstep.refines (Server.start_counts _ _ _ _ _ _ _)).2.1
  obtain ⟨removed, t, t', hrun, hremoved, hreset, hempty, hpipes⟩ :=
    exists_last_removed hcounts hclients (show client.timer + 4 = 4 by rw [hstarted.timer_eq])
  exact ⟨client, launches, removed, t, t', (Run.single hstep).append hrun, hremoved, hreset, hempty,
    hpipes ▸ hstarted⟩

theorem server_run_expires_fifth : ∃ client launches removed s,
    Run ServerStep (serverFor 2 0)
        ([.received (.created client launches)] ++ List.replicate 4 (.ticked none)) s ∧
      (∃ t, ServerStep s (.ticked (some removed)) t) ∧
        4 ≤ ticksSince removed.key
          ([.received (.created client launches)] ++ List.replicate 4 (.ticked none)) := by
  obtain ⟨client, launches, removed, s, t, hrun, hremoved, -⟩ :=
    exists_expired_run 2 0 (fresh_noPipe []) (fresh_noPipe _)
  obtain ⟨-, -, hexpires⟩ := server_run_expires hrun
  obtain ⟨hsince, -⟩ := (hexpires _ _ hremoved).2 removed rfl
  exact ⟨client, launches, removed, s, hrun, ⟨t, hremoved⟩, hsince⟩

end Vban.Multistream
