import Vban.Multistream.ClientTable

/-! Which packets reach which client, and how many clients there are. -/
namespace Vban.Multistream

open Library
open Discovery (chars multistream)

/-- The clients without their timers. -/
def ClientTable.identities (table : ClientTable) : List ClientId :=
  table.clients.map ClientId.reset

/-- The names and the pipes of the clients are their own. -/
structure ClientTable.Separate (table : ClientTable) : Prop where
  keys : (table.identities.map (·.key)).Nodup
  pipe_iff : ∀ c ∈ table.identities, c.pipedesc ≠ 0 ↔ 0 < c.pid
  pipe_mem : ∀ c ∈ table.identities, c.pipedesc ≠ 0 → c.pipedesc ∈ table.pipes
  pipes : table.identities.Pairwise fun a b => a.pipedesc ≠ 0 → a.pipedesc ≠ b.pipedesc

theorem ClientTable.Separate.nodup_keys {table : ClientTable} (h : table.Separate) :
    (table.clients.map (·.key)).Nodup := by
  have hkeys := h.keys
  rwa [ClientTable.identities, List.map_map] at hkeys

def ClientTable.TimersBounded (table : ClientTable) : Prop := ∀ c ∈ table.clients, c.timer ≤ 4

variable {limit : Nat} {table table' : ClientTable} {e : ServerEvent} {es : List ServerEvent}
  {clients : List ClientId} {s t : Server} {i : ServerInput} {rx tx : Popen2Calls}

theorem map_reset_age (clients : List ClientId) :
    (clients.map ClientId.age).map ClientId.reset = clients.map ClientId.reset := by
  rw [List.map_map]
  rfl

/-- A step removes clients, or adds one at the end. -/
theorem TableStep.identities_cases (h : TableStep limit table e table') :
    table'.identities.Sublist table.identities ∧ table'.pipes = table.pipes ∧
        (∀ client launches, e ≠ .received (.created client launches)) ∨
      ∃ client launches emitter rx tx, e = .received (.created client launches) ∧
        (∀ c ∈ table.identities, c.key ≠ client.key) ∧
        Started emitter rx tx client launches table.pipes table'.pipes ∧
        table'.identities = table.identities ++ [client] := by
  cases h with
  | wrote =>
    left
    refine ⟨?_, rfl, nofun⟩
    simp only [ClientTable.identities, List.map_append, List.map_cons]
    exact List.Sublist.refl _
  | @created clients client launches pipes pipes' emitter rx tx room new started =>
    right
    refine ⟨client, launches, emitter, rx, tx, rfl, ?_, started, ?_⟩
    · intro c hc
      obtain ⟨d, hd, rfl⟩ := List.mem_map.mp hc
      exact new d hd
    · have hreset : client.reset = client := by
        rw [ClientId.reset, ← started.timer_eq]
      rw [ClientTable.identities, List.map_append, List.map_singleton, hreset]
      rfl
  | idle h =>
    left
    refine ⟨List.Sublist.refl _, rfl, ?_⟩
    rintro client launches ⟨⟩
    exact h
  | aged =>
    left
    refine ⟨?_, rfl, nofun⟩
    rw [ClientTable.identities, map_reset_age]
    exact List.Sublist.refl _
  | removed =>
    left
    refine ⟨?_, rfl, nofun⟩
    rw [ClientTable.identities, ClientTable.identities, List.map_append, map_reset_age,
      List.map_append, List.map_cons]
    exact (List.sublist_cons_self _ _).append_left _

theorem Started.pipedesc_iff {emitter : Bool} {client : ClientId} {launches : List Launch}
    {pipes pipes' : List Nat} (h : Started emitter rx tx client launches pipes pipes') :
    client.pipedesc ≠ 0 ↔ 0 < client.pid := by
  rw [h.pid_eq, h.pipedesc_eq, Popen2Calls.ret_pos_iff]
  by_cases hrx : rx.Succeeds
  · exact iff_of_true (h.freshRx.ne_zero _ (Popen2Calls.infp_mem_made hrx)) hrx
  · exact iff_of_false (not_not.mpr (Popen2Calls.infp_of_not_succeeds hrx)) hrx

/-- What was open stays open, and the new client's pipe is open too. -/
theorem Started.mem_pipes {emitter : Bool} {client : ClientId} {launches : List Launch}
    {pipes pipes' : List Nat} (h : Started emitter rx tx client launches pipes pipes') :
    (∀ fd ∈ pipes, fd ∈ pipes') ∧ (client.pipedesc ≠ 0 →
      client.pipedesc ∈ pipes' ∧ client.pipedesc ∉ pipes) := by
  have hkept : ∀ fd ∈ rx.opened false true pipes, fd ∈ pipes' := by
    intro fd hfd
    rw [h.pipes_eq]
    split_ifs
    · exact Popen2Calls.mem_opened h.freshTx hfd
    · exact hfd
  constructor
  · intro fd hfd
    exact hkept fd (Popen2Calls.mem_opened h.freshRx hfd)
  · intro hne
    have hrx : rx.Succeeds := by
      rwa [h.pipedesc_iff, h.pid_eq, Popen2Calls.ret_pos_iff] at hne
    rw [h.pipedesc_eq]
    refine ⟨hkept _ ?_, h.freshRx.notMem _ (Popen2Calls.infp_mem_made hrx)⟩
    rw [Popen2Calls.opened_infp 0 h.freshRx hrx]
    exact List.mem_append_right _ (List.mem_singleton_self _)

theorem TableStep.separate (hs : table.Separate) (h : TableStep limit table e table') :
    table'.Separate := by
  rcases h.identities_cases with
    ⟨hsub, hpipes, -⟩ | ⟨client, launches, emitter, rx, tx, -, hnew, hstarted, hids⟩
  · constructor
    · exact hs.keys.sublist (hsub.map _)
    · exact fun c hc => hs.pipe_iff c (hsub.subset hc)
    · rw [hpipes]
      exact fun c hc => hs.pipe_mem c (hsub.subset hc)
    · exact hs.pipes.sublist hsub
  · obtain ⟨hkept, hown⟩ := hstarted.mem_pipes
    constructor
    · rw [hids, List.map_append, List.map_singleton]
      apply hs.keys.append (List.nodup_singleton _)
      intro key hkey hclient
      obtain ⟨c, hc, rfl⟩ := List.mem_map.mp hkey
      exact hnew c hc (List.mem_singleton.mp hclient)
    · rw [hids]
      exact List.forall_mem_append.mpr ⟨hs.pipe_iff,
        List.forall_mem_singleton.mpr hstarted.pipedesc_iff⟩
    · rw [hids]
      exact List.forall_mem_append.mpr ⟨fun c hc hne => hkept _ (hs.pipe_mem c hc hne),
        List.forall_mem_singleton.mpr fun hne => (hown hne).1⟩
    · rw [hids]
      refine List.pairwise_append.mpr ⟨hs.pipes, List.pairwise_singleton _ _, ?_⟩
      intro c hc d hd hne heq
      obtain rfl := List.mem_singleton.mp hd
      exact (hown (heq ▸ hne)).2 (heq ▸ hs.pipe_mem c hc hne)

theorem TableStep.timersBounded (hs : table.TimersBounded) (h : TableStep limit table e table') :
    table'.TimersBounded := by
  have hage : ∀ c : ClientId, c.timer ≤ 4 → c.timer ≠ 4 → c.age.timer ≤ 4 := by
    intro c hle hne
    change (c.timer + 1) % 256 ≤ 4
    omega
  cases h with
  | wrote =>
    simp only [ClientTable.TimersBounded, List.forall_mem_append, List.forall_mem_cons] at hs ⊢
    exact ⟨hs.1, Nat.zero_le 4, hs.2.2⟩
  | created room new started =>
    simp only [ClientTable.TimersBounded, List.forall_mem_append, List.forall_mem_singleton] at hs ⊢
    exact ⟨hs, started.timer_eq.trans_le (Nat.zero_le 4)⟩
  | idle => exact hs
  | aged none =>
    intro c hc
    obtain ⟨d, hd, rfl⟩ := List.mem_map.mp hc
    exact hage d (hs d hd) (none d hd)
  | removed before due =>
    simp only [ClientTable.TimersBounded, List.forall_mem_append, List.forall_mem_cons] at hs ⊢
    refine ⟨?_, hs.2.2⟩
    intro c hc
    obtain ⟨d, hd, rfl⟩ := List.mem_map.mp hc
    exact hage d (hs.1 d hd) (before d hd)

/-- A packet goes to the pipe of the one client that it names and to no other client's pipe.
Without such a client it makes one, or the list is full. -/
def Server.Admits (s : Server) (r : Received) (reaction : Reaction) (t : Server) : Prop :=
  let key := (r.server.ipIn, r.server.packet.header.streamname)
  (∃ client ∈ s.clients, client.key = key ∧ (∀ c ∈ s.clients, c.key = key → c = client) ∧
    reaction = .wrote client.reset (r.server.packet.bytes.take r.rightlen) ∧
    (0 < client.pid → client.pipedesc ∈ s.pipes) ∧
    (∀ c ∈ s.clients, c ≠ client → 0 < c.pid → c.pipedesc ≠ client.pipedesc) ∧
    t.table.identities = s.table.identities) ∨
  (∀ c ∈ s.clients, c.key ≠ key) ∧
    ((∃ client launches, reaction = .created client launches ∧ client.key = key ∧
        t.clients = s.clients ++ [client]) ∨
      reaction = .full ∧ s.vbanClientsMax ≤ s.clients.length ∧ t.clients = s.clients)

theorem pairwise_ne_of_mem {front back : List ClientId} {c client : ClientId}
    (hclients : clients = front ++ client :: back)
    (hp : clients.Pairwise fun a b => a.pipedesc ≠ 0 → a.pipedesc ≠ b.pipedesc)
    (hc : c ∈ clients) (hne : c ≠ client) (hpipe : c.pipedesc ≠ 0) :
    c.pipedesc ≠ client.pipedesc := by
  rw [hclients, List.pairwise_append, List.pairwise_cons] at hp
  obtain ⟨-, ⟨hback, -⟩, hfront⟩ := hp
  rw [hclients] at hc
  rcases List.mem_append.mp hc with hc | hc
  · exact hfront c hc client List.mem_cons_self hpipe
  · rcases List.mem_cons.mp hc with rfl | hc
    · exact absurd rfl hne
    · intro heq
      exact hback c hc (heq ▸ hpipe) heq.symm

/-- No other client has the name or the pipe of a client. -/
theorem ClientTable.Separate.owns {client : ClientId} (hsep : table.Separate)
    (hmem : client ∈ table.clients) :
    (∀ c ∈ table.clients, c.key = client.key → c = client) ∧
      (0 < client.pid → client.pipedesc ∈ table.pipes) ∧
      ∀ c ∈ table.clients, c ≠ client → 0 < c.pid → c.pipedesc ≠ client.pipedesc := by
  have hreset : ∀ c ∈ table.clients, c.reset ∈ table.identities := by
    intro c hc
    exact List.mem_map_of_mem hc
  have hpipe : ∀ c ∈ table.clients, 0 < c.pid → c.pipedesc ≠ 0 := by
    intro c hc
    exact (hsep.pipe_iff _ (hreset c hc)).mpr
  have hpipes := hsep.pipes
  rw [ClientTable.identities, List.pairwise_map] at hpipes
  obtain ⟨front, back, hsplit⟩ := List.append_of_mem hmem
  refine ⟨?_, ?_, ?_⟩
  · intro c hc hkey
    exact List.inj_on_of_nodup_map hsep.nodup_keys hc hmem hkey
  · intro hpid
    exact hsep.pipe_mem client.reset (hreset client hmem) (hpipe client hmem hpid)
  · intro c hc hne hpid
    exact pairwise_ne_of_mem hsplit hpipes hc hne (hpipe c hc hpid)

/-- What the dispatch of a packet does. -/
theorem Server.Counts.admits {r : Reaction} (hs : s.Counts) (hsep : s.table.Separate)
    (hclients : (s.received i).ForClients) (h : s.receive i rx tx = .ok (r, t)) :
    s.Admits (s.received i) r t := by
  obtain ⟨packet, cAddr, ipIn, portIn, hserver⟩ := s.received_server i
  rcases (s.received i).handle_cases rx tx with ⟨-, hhandle⟩ | ⟨hnot, -⟩
  · rw [Server.receive, hhandle] at h
    have hlist : (s.received i).server.clients = s.clients := by rw [hserver]
    have hmax : (s.received i).server.vbanClientsMax = s.vbanClientsMax := by rw [hserver]
    rcases Server.dispatch_cases (hs.received i).active_eq (s.received i).rightlen rx tx with
      ⟨front, client, back, hsplit, hkey, heq⟩ | ⟨hnew, ⟨-, heq⟩ | ⟨hfull, -, heq⟩⟩
    · left
      obtain ⟨rfl, rfl⟩ := Prod.mk.inj (Except.ok.inj (heq.symm.trans h))
      rw [hlist] at hsplit
      have hmem : client ∈ s.clients := by
        rw [hsplit]
        exact List.mem_append_right _ List.mem_cons_self
      obtain ⟨honly, hopen, hown⟩ := hsep.owns hmem
      refine ⟨client, hmem, hkey, ?_, rfl, hopen, hown, ?_⟩
      · intro c hc hckey
        exact honly c hc (hckey.trans hkey.symm)
      · change (front ++ client.reset :: back).map ClientId.reset =
          s.clients.map ClientId.reset
        rw [hsplit, List.map_append, List.map_append, List.map_cons, List.map_cons]
        rfl
    · right
      obtain ⟨rfl, rfl⟩ := Prod.mk.inj (Except.ok.inj (heq.symm.trans h))
      rw [hlist] at hnew
      refine ⟨hnew, Or.inl ⟨_, _, rfl, Server.startedClient_key _ _ _, ?_⟩⟩
      exact congrArg (· ++ _) hlist
    · right
      obtain ⟨rfl, rfl⟩ := Prod.mk.inj (Except.ok.inj (heq.symm.trans h))
      rw [hlist] at hnew
      rw [hlist, hmax] at hfull
      exact ⟨hnew, Or.inr ⟨rfl, hfull, hlist⟩⟩
  · exact absurd hclients hnot

theorem server_run_table {argv0 : List UInt8} {redundancy : Nat} {vbanOutputFormat : UInt8}
    {stream : VbanRxContext Unit} {cAddr : UInt32 × UInt16} {ipIn : UInt32} {portIn : UInt16}
    (h : Run ServerStep
      (.start argv0 redundancy vbanOutputFormat stream cAddr ipIn portIn) es s) :
    s.table.Separate ∧ s.table.TimersBounded := by
  obtain ⟨htable, -, -⟩ := server_run_refines h (Server.start_counts _ _ _ _ _ _ _)
  constructor
  · apply htable.invariant
    · intro table e table' hs hstep
      exact hstep.separate hs
    · exact ⟨List.nodup_nil, nofun, nofun, .nil⟩
  · apply htable.invariant
    · intro table e table' hs hstep
      exact hstep.timersBounded hs
    · exact nofun

/-- In every run the counter, the names, the limit and the timers are kept, no turn fails, and each
packet for the clients is admitted. -/
theorem server_run_admits {argv0 : List UInt8} {redundancy : Nat} {vbanOutputFormat : UInt8}
    {stream : VbanRxContext Unit} {cAddr : UInt32 × UInt16} {ipIn : UInt32} {portIn : UInt16}
    (h : Run ServerStep
      (.start argv0 redundancy vbanOutputFormat stream cAddr ipIn portIn) es s) :
    s.vbanClientsMax = stream.nboutputs % 256 ∧
    s.activeClientsNum = s.clients.length ∧ (s.clients.map (·.key)).Nodup ∧
      s.clients.length ≤ max 1 s.vbanClientsMax ∧ (∀ c ∈ s.clients, c.timer ≤ 4) ∧
      (∃ removed t, s.tick = .ok (removed, t)) ∧
      ∀ i rx tx, ∃ r t, s.receive i rx tx = .ok (r, t) ∧
        ((s.received i).ForClients → s.Admits (s.received i) r t) := by
  obtain ⟨-, hcounts, -, hmax⟩ := server_run_refines h (Server.start_counts _ _ _ _ _ _ _)
  obtain ⟨hsep, htimers⟩ := server_run_table h
  refine ⟨hmax, hcounts.active_eq, hsep.nodup_keys, hcounts.length_le, htimers,
    hcounts.exists_tick, ?_⟩
  intro i rx tx
  obtain ⟨r, t, hr⟩ := hcounts.exists_receive i rx tx
  exact ⟨r, t, hr, fun hclients => hcounts.admits hsep hclients hr⟩

def receiving : UInt16 := 0x0004

/-- A server on port 6980 with room for `n` clients, and further flags. -/
def serverFor (n : Nat) (flags : UInt16) : Server :=
  .start (chars "vban_receptor_jack") 1 vbanBitfmt32Float
    { VbanRxContext.start (.strncpy []) 0 6980 with
      nboutputs := n
      flags := multistream ||| receiving ||| correctionOn ||| flags } (0, 0) 0 0

theorem serverFor_rxport_ne (n : Nat) (flags : UInt16) : (serverFor n flags).stream.rxport ≠ 0 :=
  (by decide : (6980 : UInt16) ≠ 0)

def oneSampleHeader (name : List UInt8) : VBanHeader :=
  ⟨vbanHeaderFourc, vbanProtocolAudio, 0, 0, vbanBitfmt8Int, .strncpy name, 0⟩

/-- A packet of one channel with one sample of 8 bits. -/
def oneSample (name : List UInt8) : List UInt8 := (oneSampleHeader name).toBytes ++ [0]

/-- From 10.0.0.5:6980. -/
def source : UInt32 × UInt16 := (0x0500000A, htons 6980)

theorem forClients_oneSample (s : Server) (name : List UInt8) :
    (s.received (.datagram (oneSample name) source)).ForClients := by
  have hlen : (oneSampleHeader name).datalen = 1 := VBanHeader.datalen_of_zero rfl rfl rfl
  have haudio : vbanProtocolAudio &&& vbanProtocolMask = vbanProtocolAudio := by decide
  exact (s.datagram_forClients_iff _ (by decide)).mpr ⟨⟨hlen.symm, rfl⟩, Or.inl haudio⟩

theorem fresh_noPipe (fds : List Nat) : Popen2Calls.Fresh fds .noPipe :=
  ⟨List.nodup_nil, nofun, nofun⟩

/-- Without any client, a packet makes one. -/
theorem exists_created_step (hs : s.Counts) (hclients : s.clients = [])
    (hport : s.stream.rxport ≠ 0) (hrx : rx.Fresh s.pipes)
    (htx : tx.Fresh (rx.opened false true s.pipes)) : ∃ client launches t,
    ServerStep s (.received (.created client launches)) t ∧ t.clients = [client] ∧
      Started s.LaunchesEmitter rx tx client launches s.pipes t.pipes ∧
        client.key = (source.1, .strncpy (chars "mix")) := by
  have hfor := forClients_oneSample s (chars "mix")
  have hheader := s.datagram_header (oneSampleHeader (chars "mix")) [0] source
  have hmode : (ServerInput.datagram (oneSample (chars "mix")) source).Udp ↔
      s.stream.rxport ≠ 0 := ⟨fun _ => hport, fun _ => trivial⟩
  rcases (s.received (.datagram (oneSample (chars "mix")) source)).handle_cases rx tx with
    ⟨-, hhandle⟩ | ⟨hnot, -⟩
  · have hstarted := (s.received (.datagram (oneSample (chars "mix")) source)).server.started
      s.clients.isEmpty hrx htx
    have hkey := (s.received (.datagram (oneSample (chars "mix")) source)).server.startedClient_key
      rx tx
    rcases Server.dispatch_cases
        (s := (s.received (.datagram (oneSample (chars "mix")) source)).server) hs.active_eq _ rx tx
      with ⟨front, client, back, hsplit, -⟩ | ⟨-, ⟨-, heq⟩ | ⟨-, hne, -⟩⟩
    · exact absurd (hsplit.symm.trans hclients) (by simp)
    · refine ⟨_, _, _, .receive hmode hrx htx (hhandle.trans heq), ?_, hstarted, hkey.trans ?_⟩
      · exact congrArg (· ++ _) hclients
      · rw [oneSample, hheader]
        rfl
    · exact absurd hclients hne
  · exact absurd hfor hnot

theorem exists_first_client (n : Nat) (flags : UInt16) (hrx : rx.Fresh [])
    (htx : tx.Fresh (rx.opened false true [])) : ∃ client launches s,
    ServerStep (serverFor n flags) (.received (.created client launches)) s ∧
      s.clients = [client] ∧
      Started (serverFor n flags).LaunchesEmitter rx tx client launches [] s.pipes ∧
        client.key = (source.1, .strncpy (chars "mix")) :=
  exists_created_step (Server.start_counts _ _ _ _ _ _ _) rfl (serverFor_rxport_ne n flags)
    hrx htx

/-- The next packet of the client is written to its pipe. -/
theorem exists_lone_wrote {client : ClientId} (hs : s.Counts) (hclients : s.clients = [client])
    (hport : s.stream.rxport ≠ 0) (hkey : client.key = (source.1, .strncpy (chars "mix"))) :
    ∃ bytes t, ServerStep s (.received (.wrote client.reset bytes)) t ∧
      t.clients = [client.reset] := by
  have hmode : (ServerInput.datagram (oneSample (chars "mix")) source).Udp ↔
      s.stream.rxport ≠ 0 := ⟨fun _ => hport, fun _ => trivial⟩
  have hreceived : (s.received (.datagram (oneSample (chars "mix")) source)).server.clients =
      [client] := hclients
  have hheader := s.datagram_header (oneSampleHeader (chars "mix")) [0] source
  rcases (s.received (.datagram (oneSample (chars "mix")) source)).handle_cases .noPipe .noPipe with
    ⟨-, hhandle⟩ | ⟨hnot, -⟩
  · rcases Server.dispatch_cases
        (s := (s.received (.datagram (oneSample (chars "mix")) source)).server) hs.active_eq
        (s.received (.datagram (oneSample (chars "mix")) source)).rightlen .noPipe .noPipe with
      ⟨front, sender, back, hsplit, -, heq⟩ | ⟨hnew, -⟩
    · rw [hreceived] at hsplit
      obtain ⟨rfl, rfl, rfl⟩ : front = [] ∧ sender = client ∧ back = [] := by
        simpa using List.append_eq_singleton_iff.mp hsplit.symm
      exact ⟨_, _, .receive hmode (fresh_noPipe _) (fresh_noPipe _) (hhandle.trans heq), rfl⟩
    · refine absurd ?_ (hnew client (hreceived ▸ List.mem_singleton_self client))
      rw [oneSample, hheader]
      exact hkey
  · exact absurd (forClients_oneSample s (chars "mix")) hnot

theorem tick_lone_aged {client : ClientId} (hs : s.Counts) (hclients : s.clients = [client])
    (hne : client.timer ≠ 4) : ServerStep s (.ticked none) { s with clients := [client.age] } := by
  apply ServerStep.tick
  rw [Server.tick_eq hs.active_eq, hclients, sweep, if_neg hne]
  rfl

/-- A packet makes a client, a second one goes to its pipe, and its timer counts a turn. -/
theorem server_run_admits_mix : ∃ client launches bytes s,
    Run ServerStep (serverFor 2 0) [.received (.created client launches),
      .received (.wrote client.reset bytes), .ticked none] s ∧
      s.clients = [client.reset.age] ∧ s.activeClientsNum = 1 := by
  obtain ⟨client, launches, s, hcreated, hclients, -, hkey⟩ :=
    exists_first_client 2 0 (fresh_noPipe _) (fresh_noPipe _)
  obtain ⟨-, hcounts, hsame⟩ := hcreated.refines (Server.start_counts _ _ _ _ _ _ _)
  have hport : s.stream.rxport ≠ 0 := hsame.stream_eq ▸ serverFor_rxport_ne 2 0
  obtain ⟨bytes, t, hwrote, hclients'⟩ := exists_lone_wrote hcounts hclients hport hkey
  have hcounts' := (hwrote.refines hcounts).2.1
  have hticked := tick_lone_aged hcounts' hclients' (by decide : (0 : Nat) ≠ 4)
  have hrun := ((Run.single hcreated).snoc hwrote).snoc hticked
  obtain ⟨-, hactive, -⟩ := server_run_admits hrun
  exact ⟨client, launches, bytes, _, hrun, rfl, hactive⟩

end Vban.Multistream
