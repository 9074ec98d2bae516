import Vban.Library.Outcome
import Vban.Library.Sweep
import Vban.Multistream.Server

/-! The steps of the server, as what they do to its clients and to its open pipes. -/
namespace Vban.Multistream

open Library

structure ClientTable where
  clients : List ClientId
  pipes : List Nat

/-- `client->timer++` -/
def ClientId.age (client : ClientId) : ClientId :=
  { client with timer := (client.timer + 1) % 256 }

def ClientId.reset (client : ClientId) : ClientId := { client with timer := 0 }

/-- The reaction has to do with no client. -/
def Reaction.Idle : Reaction → Prop
  | .wrote .. | .created .. => False
  | _ => True

/-- The children of a new client, and the pipes that are open with them. -/
structure Started (emitter : Bool) (rx tx : Popen2Calls) (client : ClientId)
    (launches : List Launch) (pipes pipes' : List Nat) : Prop where
  timer_eq : client.timer = 0
  pid_eq : client.pid = rx.ret
  pipedesc_eq : client.pipedesc = rx.infp 0
  txpid_eq : client.txpid = if emitter then tx.ret else 0
  calls_eq : launches.map (·.calls) = if emitter then [rx, tx] else [rx]
  freshRx : rx.Fresh pipes
  freshTx : tx.Fresh (rx.opened false true pipes)
  pipes_eq : pipes' = if emitter then tx.opened true false (rx.opened false true pipes)
    else rx.opened false true pipes

/-- The steps of a table with room for `limit` clients, and for one in any case. -/
inductive TableStep (limit : Nat) : ClientTable → ServerEvent → ClientTable → Prop
  | wrote {front back : List ClientId} {client : ClientId} {bytes : List UInt8}
      {pipes : List Nat} :
      TableStep limit ⟨front ++ client :: back, pipes⟩ (.received (.wrote client.reset bytes))
        ⟨front ++ client.reset :: back, pipes⟩
  | created {clients : List ClientId} {client : ClientId} {launches : List Launch}
      {pipes pipes' : List Nat} {emitter : Bool} {rx tx : Popen2Calls}
      (room : clients.length < max 1 limit) (new : ∀ c ∈ clients, c.key ≠ client.key)
      (started : Started emitter rx tx client launches pipes pipes') :
      TableStep limit ⟨clients, pipes⟩ (.received (.created client launches))
        ⟨clients ++ [client], pipes'⟩
  | idle {table : ClientTable} {r : Reaction} (h : r.Idle) :
      TableStep limit table (.received r) table
  | aged {clients : List ClientId} {pipes : List Nat} (h : ∀ c ∈ clients, c.timer ≠ 4) :
      TableStep limit ⟨clients, pipes⟩ (.ticked none) ⟨clients.map ClientId.age, pipes⟩
  | removed {front back : List ClientId} {client : ClientId} {pipes : List Nat}
      (before : ∀ c ∈ front, c.timer ≠ 4) (due : client.timer = 4) :
      TableStep limit ⟨front ++ client :: back, pipes⟩ (.ticked (some client))
        ⟨front.map ClientId.age ++ back, pipes⟩

def Server.table (s : Server) : ClientTable := ⟨s.clients, s.pipes⟩

/-- What no step changes. -/
structure SameOptions (s t : Server) : Prop where
  stream_eq : t.stream = s.stream
  max_eq : t.vbanClientsMax = s.vbanClientsMax

/-- The counter is the length of the list, which the limit bounds. -/
structure Server.Counts (s : Server) : Prop where
  active_eq : s.activeClientsNum = s.clients.length
  length_le : s.clients.length ≤ max 1 s.vbanClientsMax
  max_lt : s.vbanClientsMax < 256

variable {s t : Server} {e : ServerEvent} {es : List ServerEvent} {ipIn : UInt32}
  {name : StreamName} {clients : List ClientId} {client : ClientId} {rx tx : Popen2Calls}

theorem ClientId.sends_iff : client.Sends ipIn name ↔ client.key = (ipIn, name) := by
  rw [Sends, Client.key, Prod.mk.injEq, eq_comm, eq_comm (a := name)]

/-- The walk over all clients ends at the first that sends. -/
theorem findClient_cases (ipIn : UInt32) (name : StreamName) (clients : List ClientId) :
    ((∀ c ∈ clients, c.key ≠ (ipIn, name)) ∧
      findClient ipIn name clients.length clients = .ok (none, clients)) ∨
    ∃ front client back, clients = front ++ client :: back ∧ client.key = (ipIn, name) ∧
      findClient ipIn name clients.length clients =
        .ok (some client.reset, front ++ client.reset :: back) := by
  induction clients with
  | nil => exact Or.inl ⟨nofun, rfl⟩
  | cons c clients ih =>
    rw [List.length_cons, findClient]
    by_cases hc : c.Sends ipIn name
    · rw [if_pos hc]
      exact Or.inr ⟨[], c, clients, rfl, ClientId.sends_iff.mp hc, rfl⟩
    · rw [if_neg hc]
      rcases ih with ⟨hnone, hfind⟩ | ⟨front, client, back, rfl, hkey, hfind⟩
      · left
        rw [hfind]
        exact ⟨List.forall_mem_cons.mpr ⟨mt ClientId.sends_iff.mpr hc, hnone⟩, rfl⟩
      · right
        rw [hfind]
        exact ⟨c :: front, client, back, rfl, hkey, rfl⟩

/-- The loop of `timerThread` sweeps the list. -/
theorem ageClients_eq (front back : List ClientId) :
    ageClients back.length front.length (front ++ back) =
      .ok ((sweep (·.timer = 4) ClientId.age back).2,
        front ++ (sweep (·.timer = 4) ClientId.age back).1) := by
  induction back generalizing front with
  | nil => rfl
  | cons client back ih =>
    have hget : (front ++ client :: back)[front.length]? = some client := by simp
    rw [List.length_cons, ageClients, hget]
    simp only [sweep]
    by_cases hdue : client.timer = 4
    · rw [if_pos hdue, if_pos hdue]
      cases front with
      | nil => rfl
      | cons c front =>
        have hne : ¬(c :: front).length = 0 := Nat.succ_ne_zero _
        have herase : (c :: front ++ client :: back).eraseIdx (c :: front).length =
            c :: front ++ back := by
          rw [List.eraseIdx_append_of_length_le (Nat.le_refl _), Nat.sub_self,
            List.eraseIdx_cons_zero]
        rw [if_neg hne, removeByIndex_eq (by simp), herase]
        rfl
    · rw [if_neg hdue, if_neg hdue]
      have hset : (front ++ client :: back).set front.length
          { client with timer := (client.timer + 1) % 256 } = (front ++ [client.age]) ++ back := by
        simp [ClientId.age]
      have hlen : front.length + 1 = (front ++ [client.age]).length := by simp
      rw [hset, hlen, ih]
      simp

/-- A turn of `timerThread` sweeps the clients. -/
theorem Server.tick_eq (hs : s.activeClientsNum = s.clients.length) : s.tick =
    .ok ((sweep (·.timer = 4) ClientId.age s.clients).2, { s with
      clients := (sweep (·.timer = 4) ClientId.age s.clients).1
      activeClientsNum :=
        if (sweep (·.timer = 4) ClientId.age s.clients).2.isSome
          then (s.activeClientsNum + 255) % 256 else s.activeClientsNum }) := by
  have hage := ageClients_eq [] s.clients
  rw [Server.tick, hs]
  exact congrArg (· >>= _) hage

/-- The three ways of an audio or serial packet. -/
theorem Server.dispatch_cases (hs : s.activeClientsNum = s.clients.length) (n : Nat)
    (rx tx : Popen2Calls) :
    (∃ front client back, s.clients = front ++ client :: back ∧
      client.key = (s.ipIn, s.packet.header.streamname) ∧
      s.dispatch n rx tx = .ok (.wrote client.reset (s.packet.bytes.take n),
        { s with clients := front ++ client.reset :: back })) ∨
    (∀ c ∈ s.clients, c.key ≠ (s.ipIn, s.packet.header.streamname)) ∧
      (s.clients.length < max 1 s.vbanClientsMax ∧
          s.dispatch n rx tx = .ok (s.createClient s.clients.isEmpty rx tx) ∨
        s.vbanClientsMax ≤ s.clients.length ∧ s.clients ≠ [] ∧
          s.dispatch n rx tx = .ok (.full, s)) := by
  rw [Server.dispatch, hs]
  rcases findClient_cases s.ipIn s.packet.header.streamname s.clients with
    ⟨hnone, hfind⟩ | ⟨front, client, back, hclients, hkey, hfind⟩
  · right
    refine ⟨hnone, ?_⟩
    rw [hfind, ok_bind]
    cases hlist : s.clients with
    | nil => exact Or.inl ⟨by simp, rfl⟩
    | cons c clients =>
      by_cases hroom : (c :: clients).length < s.vbanClientsMax
      · left
        refine ⟨Nat.lt_of_lt_of_le hroom (Nat.le_max_right _ _), ?_⟩
        simp only [List.isEmpty_cons, Bool.false_eq_true, if_false, if_pos hroom]
        rfl
      · right
        refine ⟨Nat.not_lt.mp hroom, List.cons_ne_nil _ _, ?_⟩
        simp only [List.isEmpty_cons, Bool.false_eq_true, if_false, if_neg hroom]
        rfl
  · left
    refine ⟨front, client, back, hclients, hkey, ?_⟩
    rw [hfind]
    rfl

/-- Receiving changes nothing but the packet and where it came from. -/
theorem Server.received_server (s : Server) (i : ServerInput) :
    ∃ packet cAddr ipIn portIn, (s.received i).server =
      { s with packet := packet, cAddr := cAddr, ipIn := ipIn, portIn := portIn } := by
  cases i with
  | datagram bytes source => exact ⟨_, _, _, _, rfl⟩
  | recvError => exact ⟨_, _, _, _, rfl⟩
  | pipe header data =>
    rw [Server.received, Server.pipeReceived]
    simp only
    split_ifs
    · exact ⟨_, _, _, _, rfl⟩
    · exact ⟨_, _, _, _, rfl⟩
    · exact ⟨_, _, _, _, rfl⟩

/-- A packet for the clients is dispatched; any other leaves all but the socket as it is. -/
theorem Received.handle_cases (r : Received) (rx tx : Popen2Calls) :
    r.ForClients ∧ r.handle rx tx = r.server.dispatch r.rightlen rx tx ∨
      ¬r.ForClients ∧ ∃ reaction cAddr, reaction.Idle ∧
        r.handle rx tx = .ok (reaction, { r.server with cAddr := cAddr }) := by
  by_cases h : r.ForClients
  · left
    refine ⟨h, ?_⟩
    rw [Received.handle, if_pos h.1, if_pos h.2]
  · right
    refine ⟨h, ?_⟩
    rw [Received.handle]
    split_ifs with hswitch hclients hinfo hrelay
    · exact absurd ⟨hswitch, hclients⟩ h
    · rw [Server.answerInfo]
      split_ifs
      · exact ⟨.replied _ _, _, trivial, rfl⟩
      · exact ⟨.ignored, r.server.cAddr, trivial, rfl⟩
    · exact ⟨.ignored, r.server.cAddr, trivial, rfl⟩
    · rw [Server.relay]
      split_ifs
      · exact ⟨.relayed _ _, _, trivial, rfl⟩
      · exact ⟨.ignored, r.server.cAddr, trivial, rfl⟩
    · exact ⟨.ignored, r.server.cAddr, trivial, rfl⟩

theorem Server.started (s : Server) (first : Bool) (hrx : rx.Fresh s.pipes)
    (htx : tx.Fresh (rx.opened false true s.pipes)) :
    Started (decide s.LaunchesEmitter) rx tx (s.startedClient rx tx) (s.launches first rx tx)
      s.pipes (s.startedPipes rx tx) := by
  by_cases h : s.LaunchesEmitter
  · rw [startedClient, launches, startedPipes, if_pos h, if_pos h, if_pos h, decide_eq_true h]
    exact ⟨rfl, rfl, rfl, rfl, rfl, hrx, htx, rfl⟩
  · rw [startedClient, launches, startedPipes, if_neg h, if_neg h, if_neg h, decide_eq_false h]
    exact ⟨rfl, rfl, rfl, rfl, rfl, hrx, htx, rfl⟩

theorem Server.startedClient_key (s : Server) (rx tx : Popen2Calls) :
    (s.startedClient rx tx).key = (s.ipIn, s.packet.header.streamname) := by
  rw [startedClient]
  split_ifs
  · rfl
  · rfl

/-- A dispatched packet is a step of the table. -/
theorem Server.Counts.dispatch_refines {n : Nat} {r : Reaction} (hs : s.Counts)
    (hrx : rx.Fresh s.pipes) (htx : tx.Fresh (rx.opened false true s.pipes))
    (h : s.dispatch n rx tx = .ok (r, t)) :
    TableStep s.vbanClientsMax s.table (.received r) t.table ∧ t.Counts ∧ SameOptions s t := by
  obtain ⟨hactive, hlength, hmax⟩ := hs
  rcases Server.dispatch_cases hactive n rx tx with ⟨front, client, back, hclients, hkey, heq⟩ |
    ⟨hnew, ⟨hroom, heq⟩ | ⟨-, -, heq⟩⟩
  · obtain ⟨rfl, rfl⟩ := Prod.mk.inj (Except.ok.inj (heq.symm.trans h))
    have hlen : (front ++ client.reset :: back).length = s.clients.length := by simp [hclients]
    refine ⟨?_, ⟨hactive.trans hlen.symm, hlen.trans_le hlength, hmax⟩, ⟨rfl, rfl⟩⟩
    rw [Server.table, Server.table, hclients]
    exact .wrote
  · obtain ⟨rfl, rfl⟩ := Prod.mk.inj (Except.ok.inj (heq.symm.trans h))
    have hlen : (s.clients ++ [s.startedClient rx tx]).length = s.clients.length + 1 := by simp
    refine ⟨?_, ⟨?_, hlen.trans_le hroom, hmax⟩, ⟨rfl, rfl⟩⟩
    · apply TableStep.created hroom ?_ (s.started _ hrx htx)
      rw [s.startedClient_key rx tx]
      exact hnew
    · change (s.activeClientsNum + 1) % 256 = (s.clients ++ [s.startedClient rx tx]).length
      rw [hlen, hactive]
      omega
  · obtain ⟨rfl, rfl⟩ := Prod.mk.inj (Except.ok.inj (heq.symm.trans h))
    exact ⟨.idle trivial, ⟨hactive, hlength, hmax⟩, ⟨rfl, rfl⟩⟩

/-- Every step of the server is a step of its table. -/
theorem ServerStep.refines (hs : s.Counts) (h : ServerStep s e t) :
    TableStep s.vbanClientsMax s.table e t.table ∧ t.Counts ∧ SameOptions s t := by
  obtain ⟨hactive, hlength, hmax⟩ := hs
  cases h with
  | @receive _ i rx tx r hmode hrx htx h =>
    obtain ⟨packet, cAddr, ipIn, portIn, hserver⟩ := s.received_server i
    rcases (s.received i).handle_cases rx tx with
      ⟨-, hhandle⟩ | ⟨-, reaction, cAddr', hidle, hhandle⟩
    · rw [Server.receive, hhandle, hserver] at h
      have hs : Server.Counts { s with
          packet := packet
          cAddr := cAddr
          ipIn := ipIn
          portIn := portIn } := ⟨hactive, hlength, hmax⟩
      obtain ⟨htable, hcounts, hstream, hmax⟩ := hs.dispatch_refines hrx htx h
      exact ⟨htable, hcounts, ⟨hstream, hmax⟩⟩
    · rw [Server.receive, hhandle, hserver] at h
      obtain ⟨rfl, rfl⟩ := Prod.mk.inj (Except.ok.inj h)
      exact ⟨.idle hidle, ⟨hactive, hlength, hmax⟩, ⟨rfl, rfl⟩⟩
  | @tick _ removed h =>
    rw [Server.tick_eq hactive] at h
    obtain ⟨rfl, rfl⟩ := Prod.mk.inj (Except.ok.inj h)
    rcases sweep_cases (·.timer = 4) ClientId.age s.clients with
      ⟨hnone, hsweep⟩ | ⟨front, client, back, hclients, hbefore, hdue, hsweep⟩
    · rw [hsweep]
      refine ⟨.aged hnone, ⟨?_, ?_, hmax⟩, ⟨rfl, rfl⟩⟩
      · simpa using hactive
      · simpa using hlength
    · rw [hsweep]
      have hlen : s.clients.length = front.length + back.length + 1 := by
        simp [hclients]
        omega
      refine ⟨?_, ⟨?_, ?_, hmax⟩, ⟨rfl, rfl⟩⟩
      · rw [Server.table, hclients]
        exact .removed hbefore hdue
      · change (s.activeClientsNum + 255) % 256 = (front.map ClientId.age ++ back).length
        rw [List.length_append, List.length_map]
        omega
      · change (front.map ClientId.age ++ back).length ≤ max 1 s.vbanClientsMax
        rw [List.length_append, List.length_map]
        omega

theorem Server.start_counts (argv0 : List UInt8) (redundancy : Nat) (vbanOutputFormat : UInt8)
    (stream : VbanRxContext Unit) (cAddr : UInt32 × UInt16) (ipIn : UInt32) (portIn : UInt16) :
    (start argv0 redundancy vbanOutputFormat stream cAddr ipIn portIn).Counts :=
  ⟨rfl, Nat.zero_le _, Nat.mod_lt _ (by decide)⟩

/-- A run of the server is a run of its table, with the limit that it started with. -/
theorem server_run_refines (h : Run ServerStep s es t) (hs : s.Counts) :
    Run (TableStep s.vbanClientsMax) s.table es t.table ∧ t.Counts ∧ SameOptions s t := by
  induction h with
  | refl => exact ⟨.refl _, hs, ⟨rfl, rfl⟩⟩
  | snoc _ hstep ih =>
    obtain ⟨htable, hcounts, hstream, hmax⟩ := ih
    obtain ⟨hlast, hcounts', hstream', hmax'⟩ := hstep.refines hcounts
    rw [hmax] at hlast
    exact ⟨htable.snoc hlast, hcounts', hstream'.trans hstream, hmax'.trans hmax⟩

theorem Server.Counts.received (hs : s.Counts) (i : ServerInput) :
    (s.received i).server.Counts := by
  obtain ⟨packet, cAddr, ipIn, portIn, hserver⟩ := s.received_server i
  rw [hserver]
  exact ⟨hs.active_eq, hs.length_le, hs.max_lt⟩

/-- No turn of the loop fails. -/
theorem Server.Counts.exists_receive (hs : s.Counts) (i : ServerInput) (rx tx : Popen2Calls) :
    ∃ r t, s.receive i rx tx = .ok (r, t) := by
  rw [Server.receive]
  rcases (s.received i).handle_cases rx tx with ⟨-, hhandle⟩ | ⟨-, reaction, cAddr', -, hhandle⟩
  · rw [hhandle]
    rcases Server.dispatch_cases (hs.received i).active_eq (s.received i).rightlen rx tx with
      ⟨front, client, back, -, -, heq⟩ | ⟨-, ⟨-, heq⟩ | ⟨-, -, heq⟩⟩
    · exact ⟨_, _, heq⟩
    · exact ⟨_, _, heq⟩
    · exact ⟨_, _, heq⟩
  · exact ⟨_, _, hhandle⟩

theorem Server.Counts.exists_tick (hs : s.Counts) : ∃ removed t, s.tick = .ok (removed, t) :=
  ⟨_, _, Server.tick_eq hs.active_eq⟩

end Vban.Multistream
