import Vban.Multistream.Children
import Vban.Receive.PipeReader

/-! What the server writes to a client's pipe, and what the client's receptor reads of it. -/
namespace Vban.Multistream

open Library
open Discovery (chars)

/-- What is written to a pipe. -/
def ServerEvent.writtenTo (fd : Nat) : ServerEvent → Option (List UInt8)
  | received (.wrote client bytes) => if client.pipedesc = fd then some bytes else none
  | _ => none

/-- An audio or serial packet with the data that it declares. -/
structure Accepted (p : SentPacket) : Prop where
  vban_eq : p.header.vban = vbanHeaderFourc
  protocol : p.header.protocol = vbanProtocolAudio ∨ p.header.protocol = vbanProtocolSerial
  length_eq : p.payload.length = p.header.datalen
  length_le : p.payload.length ≤ vbanDataMaxSize

variable {R : Type} {s t : Server} {es : List ServerEvent} {e : ServerEvent} {client : ClientId}
  {bytes : List UInt8} {source : UInt32 × UInt16} {p : SentPacket} {fd : Nat}

/-- A datagram for the clients is a packet, and the packet is what is written. -/
theorem exists_accepted (h : (s.received (.datagram bytes source)).ForClients) :
    ∃ p, Accepted p ∧ p.bytes = bytes.take vbanProtocolMaxSize ∧
      let r := s.received (.datagram bytes source)
      r.server.packet.bytes.take r.rightlen = p.bytes := by
  obtain ⟨⟨hequal, hvban⟩, hprotocol⟩ := h
  generalize hr : s.received (.datagram bytes source) = r at *
  have hbytes : r.server.packet.bytes = overwrite s.packet.bytes 0
      (bytes.take vbanProtocolMaxSize) := by rw [← hr]; rfl
  have hpacketlen : r.packetlen = (bytes.take vbanProtocolMaxSize).length := by rw [← hr]; rfl
  have hrightlen : r.rightlen = vbanHeaderSize + r.server.packet.header.datalen := by
    rw [← hr]
    rfl
  rw [hpacketlen, Int.ofNat_inj] at hequal
  have hle : (bytes.take vbanProtocolMaxSize).length ≤ vbanProtocolMaxSize :=
    List.length_take_le _ _
  generalize bytes.take vbanProtocolMaxSize = received at *
  have hwritten : r.server.packet.bytes.take r.rightlen = received := by
    rw [hbytes, overwrite_zero, List.take_left' hequal]
  have hheader : r.server.packet.header.toBytes = received.take vbanHeaderSize := by
    rw [r.server.packet.toBytes_header, ← hwritten, List.take_take, hrightlen,
      Nat.min_eq_left (Nat.le_add_right _ _)]
  have hpayload : (received.drop vbanHeaderSize).length = r.server.packet.header.datalen := by
    rw [List.length_drop, hequal, hrightlen, Nat.add_sub_cancel_left]
  have hwhole : SentPacket.bytes ⟨r.server.packet.header, received.drop vbanHeaderSize⟩ =
      received := by rw [SentPacket.bytes, hheader, List.take_append_drop]
  refine ⟨⟨r.server.packet.header, received.drop vbanHeaderSize⟩, ⟨hvban, hprotocol, hpayload, ?_⟩,
    hwhole, hwritten.trans hwhole.symm⟩
  rw [List.length_drop]
  exact Nat.sub_le_sub_right hle vbanHeaderSize

/-- What a server with a port writes to a client is an audio or serial packet. -/
theorem ServerStep.wrote_accepted (hs : s.Counts) (hport : s.stream.rxport ≠ 0)
    (h : ServerStep s (.received (.wrote client bytes)) t) :
    ∃ p, Accepted p ∧ p.bytes = bytes := by
  cases h with
  | @receive _ i rx tx r hmode hrx htx h =>
    rw [Server.receive] at h
    rcases (s.received i).handle_cases rx tx with
      ⟨hclients, hhandle⟩ | ⟨-, reaction, cAddr, hidle, hhandle⟩
    · have hwritten : bytes = (s.received i).server.packet.bytes.take (s.received i).rightlen := by
        rw [hhandle] at h
        rcases Server.dispatch_cases (hs.received i).active_eq (s.received i).rightlen rx tx with
          ⟨front, c, back, -, -, heq⟩ | ⟨-, ⟨-, heq⟩ | ⟨-, -, heq⟩⟩
        · have hreaction := (Prod.mk.inj (Except.ok.inj (h.symm.trans heq))).1
          exact (Reaction.wrote.inj hreaction).2
        · cases h.symm.trans heq
        · cases h.symm.trans heq
      cases i with
      | datagram received source =>
        obtain ⟨p, hp, -, hbytes⟩ := exists_accepted hclients
        exact ⟨p, hp, hbytes.symm.trans hwritten.symm⟩
      | recvError =>
        have hzero : (0 : Int) = ((vbanHeaderSize + s.packet.datalen : Nat) : Int) := hclients.1.1
        have hpos : 0 < vbanHeaderSize := by decide
        omega
      | pipe header data => exact absurd (hmode.mpr hport) id
    · rw [hhandle] at h
      obtain ⟨rfl, -⟩ := Prod.mk.inj (Except.ok.inj h)
      exact absurd hidle id

/-- What a run writes to a pipe are packets. -/
theorem exists_written (h : Run ServerStep s es t) (hs : s.Counts) (hport : s.stream.rxport ≠ 0)
    (fd : Nat) : ∃ ps : List SentPacket, (∀ p ∈ ps, Accepted p) ∧
      ps.map SentPacket.bytes = es.filterMap (ServerEvent.writtenTo fd) := by
  induction h with
  | refl => exact ⟨[], nofun, rfl⟩
  | @snoc t u es e hrun hstep ih =>
    obtain ⟨ps, hps, hwritten⟩ := ih
    obtain ⟨-, hcounts, hstream, -⟩ := server_run_refines hrun hs
    rw [List.filterMap_append, ← hwritten]
    cases he : e.writtenTo fd with
    | none =>
      refine ⟨ps, hps, ?_⟩
      rw [List.filterMap_cons_none he, List.filterMap_nil, List.append_nil]
    | some bytes =>
      obtain ⟨client, rfl⟩ : ∃ client, e = .received (.wrote client bytes) := by
        rw [ServerEvent.writtenTo.eq_def] at he
        split at he
        · split_ifs at he
          obtain rfl := Option.some.inj he
          exact ⟨_, rfl⟩
        · cases he
      obtain ⟨p, hp, hbytes⟩ := hstep.wrote_accepted hcounts (hstream ▸ hport)
      refine ⟨ps ++ [p], List.forall_mem_append.mpr ⟨hps, List.forall_mem_singleton.mpr hp⟩, ?_⟩
      rw [List.filterMap_cons_some he, List.filterMap_nil, List.map_append, List.map_singleton,
        hbytes]

/-- The reader reads the data of audio packets, and none of serial packets. -/
theorem Accepted.whole_iff (hp : Accepted p) : p.payload.length = p.header.pipeDatalen ↔
    (p.header.protocol = vbanProtocolSerial → p.header.datalen = 0) := by
  rw [hp.length_eq, VBanHeader.pipeDatalen]
  rcases hp.protocol with haudio | hserial
  · rw [if_pos (Or.inl haudio), haudio]
    exact iff_of_true rfl fun h => absurd h (by decide)
  · rw [hserial, if_neg (by decide)]
    exact ⟨fun h _ => h, fun h => h rfl⟩

/-- A client's receptor reads back what was written to it exactly if no serial packet of it has
data. -/
theorem child_reads_back_iff {argv0 : List UInt8} {redundancy : Nat} {vbanOutputFormat : UInt8}
    {stream : VbanRxContext Unit} {cAddr : UInt32 × UInt16} {ipIn : UInt32} {portIn : UInt16}
    (h : Run ServerStep
      (.start argv0 redundancy vbanOutputFormat stream cAddr ipIn portIn) es s)
    (hport : stream.rxport ≠ 0) (fd : Nat) (child : RxThread R) :
    ∃ ps : List SentPacket, (∀ p ∈ ps, Accepted p) ∧
      ps.map SentPacket.bytes = es.filterMap (ServerEvent.writtenTo fd) ∧
      (child.ReadsBack (es.filterMap (ServerEvent.writtenTo fd)).flatten ps ↔
        ∀ p ∈ ps, p.header.protocol = vbanProtocolSerial → p.header.datalen = 0) := by
  obtain ⟨ps, hps, hwritten⟩ := exists_written h (Server.start_counts _ _ _ _ _ _ _) hport fd
  refine ⟨ps, hps, hwritten, ?_⟩
  rw [← hwritten, ← List.flatMap_def, readsBack_iff (fun p hp => (hps p hp).vban_eq)
    (fun p hp => (hps p hp).length_le) child]
  exact forall₂_congr fun p hp => (hps p hp).whole_iff

/-- A packet of a client is written to its pipe. -/
theorem exists_wrote_step (hs : s.Counts) (hsep : s.table.Separate) (hport : s.stream.rxport ≠ 0)
    (hp : Accepted p) (hmem : client ∈ s.clients)
    (hkey : client.key = (source.1, p.header.streamname)) :
    ∃ t, ServerStep s (.received (.wrote client.reset p.bytes)) t := by
  have hfor : (s.received (.datagram p.bytes source)).ForClients :=
    (s.datagram_forClients_iff source hp.length_le).mpr
      ⟨⟨hp.length_eq, hp.vban_eq⟩, hp.protocol⟩
  have hsends : client.key = ((s.received (.datagram p.bytes source)).server.ipIn,
      (s.received (.datagram p.bytes source)).server.packet.header.streamname) := by
    rw [hkey, SentPacket.bytes, s.datagram_header]
    rfl
  have hwritten : (s.received (.datagram p.bytes source)).server.packet.bytes.take
      (s.received (.datagram p.bytes source)).rightlen = p.bytes := by
    obtain ⟨q, -, hq, hbytes⟩ := exists_accepted hfor
    rw [hbytes, hq, List.take_of_length_le]
    rw [SentPacket.bytes, List.length_append, p.header.length_toBytes]
    exact Nat.add_le_add_left hp.length_le vbanHeaderSize
  obtain ⟨r, t, hr⟩ := hs.exists_receive (.datagram p.bytes source) .noPipe .noPipe
  rcases hs.admits hsep hfor hr with ⟨c, -, -, honly, rfl, -⟩ | ⟨hnew, -⟩
  · obtain rfl := honly client hmem hsends
    have hmode : (ServerInput.datagram p.bytes source).Udp ↔ s.stream.rxport ≠ 0 :=
      ⟨fun _ => hport, fun _ => trivial⟩
    rw [hwritten] at hr
    exact ⟨t, .receive hmode (fresh_noPipe _) (fresh_noPipe _) hr⟩
  · exact absurd hsends (hnew client hmem)

/-- A run in which a packet is written to the pipe of the client that was started before. -/
theorem exists_child_run (hp : Accepted p)
    (hname : p.header.streamname = .strncpy (chars "mix")) :
    ∃ es s, Run ServerStep (serverFor 2 0) es s ∧
      es.filterMap (ServerEvent.writtenTo 5) = [p.bytes] := by
  obtain ⟨client, launches, s, hcreated, hclients, hstarted, hkey⟩ :=
    exists_first_client 2 0 fresh_firstChild (fresh_noPipe _)
  obtain ⟨-, hcounts, hstream, -⟩ := hcreated.refines (Server.start_counts _ _ _ _ _ _ _)
  have hport : s.stream.rxport ≠ 0 := hstream ▸ serverFor_rxport_ne 2 0
  obtain ⟨hsep, -⟩ := server_run_table (Run.single hcreated)
  obtain ⟨t, hwrote⟩ := exists_wrote_step hcounts hsep hport hp
    (hclients ▸ List.mem_singleton_self client) (hname ▸ hkey)
  have hpipe : client.reset.pipedesc = 5 := hstarted.pipedesc_eq
  refine ⟨_, t, (Run.single hcreated).snoc hwrote, ?_⟩
  have hevent : (ServerEvent.received (.wrote client.reset p.bytes)).writtenTo 5 = some p.bytes :=
    if_pos hpipe
  rw [List.singleton_append, List.filterMap_cons_none rfl, List.filterMap_cons_some hevent]
  rfl

/-- A packet of one byte. -/
def oneByte (protocol : UInt8) : SentPacket :=
  ⟨{ oneSampleHeader (chars "mix") with formatSR := protocol }, [0]⟩

theorem accepted_oneByte {protocol : UInt8}
    (h : protocol = vbanProtocolAudio ∨ protocol = vbanProtocolSerial) :
    Accepted (oneByte protocol) := by
  have hlen : (oneByte protocol).header.datalen = 1 := VBanHeader.datalen_of_zero rfl rfl rfl
  refine ⟨rfl, ?_, hlen.symm, (by decide : 1 ≤ vbanDataMaxSize)⟩
  rcases h with rfl | rfl
  · exact Or.inl (by decide : vbanProtocolAudio &&& vbanProtocolMask = vbanProtocolAudio)
  · exact Or.inr (by decide : vbanProtocolSerial &&& vbanProtocolMask = vbanProtocolSerial)

/-- A receptor that was started with `-p0`. -/
def childReceptor : RxThread Unit := ⟨.start (.strncpy []) 0 0, .zero, (0, 0)⟩

/-- One sample is read back. -/
theorem sample_read_back : ∃ es s, Run ServerStep (serverFor 2 0) es s ∧
    es.filterMap (ServerEvent.writtenTo 5) = [(oneByte vbanProtocolAudio).bytes] ∧
      childReceptor.ReadsBack (es.filterMap (ServerEvent.writtenTo 5)).flatten
        [oneByte vbanProtocolAudio] := by
  obtain ⟨es, s, hrun, hwritten⟩ := exists_child_run (accepted_oneByte (Or.inl rfl)) rfl
  obtain ⟨ps, -, hps, hreads⟩ := child_reads_back_iff hrun (by decide) 5 childReceptor
  obtain rfl : ps = [oneByte vbanProtocolAudio] :=
    List.map_injective_iff.mpr SentPacket.bytes_injective (hps.trans hwritten)
  refine ⟨es, s, hrun, hwritten, hreads.mpr ?_⟩
  exact List.forall_mem_singleton.mpr fun h => absurd h (by decide)

/-- One serial byte is not. -/
theorem serial_byte_lost : ∃ es s, Run ServerStep (serverFor 2 0) es s ∧
    es.filterMap (ServerEvent.writtenTo 5) = [(oneByte vbanProtocolSerial).bytes] ∧
      ¬childReceptor.ReadsBack (es.filterMap (ServerEvent.writtenTo 5)).flatten
        [oneByte vbanProtocolSerial] := by
  obtain ⟨es, s, hrun, hwritten⟩ := exists_child_run (accepted_oneByte (Or.inr rfl)) rfl
  refine ⟨es, s, hrun, hwritten, ?_⟩
  intro hreads
  exact absurd (hreads.payload_length _ List.mem_cons_self) (by decide)

end Vban.Multistream
