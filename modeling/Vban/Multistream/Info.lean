import Vban.Multistream.Admission

/-! What the multistream server answers to information requests. -/
namespace Vban.Multistream

open Library
open Discovery (chars infoText infoHeader udpSend)

/-- A run without `timerThread` can create `n` clients. -/
def Server.CanAdmit (s : Server) (n : Nat) : Prop :=
  ∃ (clients : List (ClientId × List Launch)) (t : Server), clients.length = n ∧
    Run ServerStep s (clients.map fun c => .received (.created c.1 c.2)) t

/-- The answer tells the limit of the admission, and how many more clients would be admitted. -/
structure Server.Advertises (s : Server) (answer : List UInt8) : Prop where
  text : answer = infoHeader.toBytes ++ (infoText s.vbanOutputFormat s.stream ++
    chars " max_clients=" ++ decimalInt s.vbanClientsMax ++
    chars " free_clients=" ++ decimalInt (s.vbanClientsMax - s.activeClientsNum))
  nonneg : s.activeClientsNum ≤ s.vbanClientsMax
  free : ∀ n, s.CanAdmit n ↔ n ≤ s.vbanClientsMax - s.activeClientsNum

variable {s t : Server} {e : ServerEvent} {es : List ServerEvent} {i : ServerInput}
  {rx tx : Popen2Calls} {r : Reaction} {dest : UInt32 × UInt16} {answer : List UInt8}

/-- The answer to a request, wherever it goes. -/
theorem Received.handle_replied {r : Received} (hr : r.server.activeClientsNum =
    r.server.clients.length) (h : r.handle rx tx = .ok (.replied dest answer, t)) :
    answer = infoHeader.toBytes ++ r.server.infoAnswer ∧ r.server.stream.rxport ≠ 0 := by
  rw [Received.handle] at h
  split_ifs at h with hswitch hclients hinfo hrelay
  · rcases Server.dispatch_cases hr r.rightlen rx tx with
      ⟨front, client, back, -, -, heq⟩ | ⟨-, ⟨-, heq⟩ | ⟨-, -, heq⟩⟩
    · cases heq.symm.trans h
    · cases heq.symm.trans h
    · cases heq.symm.trans h
  · rw [Server.answerInfo] at h
    split_ifs at h with hport
    · cases h
      exact ⟨rfl, hport⟩
    · cases h
  · cases h
  · rw [Server.relay] at h
    split_ifs at h
    · cases h
    · cases h
  · cases h

theorem ServerStep.replied (hs : s.Counts)
    (h : ServerStep s (.received (.replied dest answer)) t) :
    answer = infoHeader.toBytes ++ s.infoAnswer ∧ s.stream.rxport ≠ 0 := by
  cases h with
  | @receive _ i rx tx _ _ _ _ h =>
    obtain ⟨packet, cAddr, ipIn, portIn, hserver⟩ := s.received_server i
    have hactive : (s.received i).server.activeClientsNum =
        (s.received i).server.clients.length := by
      rw [hserver]
      exact hs.active_eq
    have hreplied := Received.handle_replied hactive h
    rwa [hserver] at hreplied

/-- A number with a space behind it reads back. -/
theorem decimalInt_append_cancel {m n : Nat} {a b : List UInt8}
    (h : decimalInt m ++ 32 :: a = decimalInt n ++ 32 :: b) : m = n := by
  have hread : ∀ (k : Nat) (c : List UInt8),
      readInt (decimalInt k ++ 32 :: c) = some (k : Int) := by
    intro k c
    exact readInt_decimal k (by rintro d ⟨⟩; rfl)
  have heq := hread m a
  rw [h, hread n b] at heq
  exact Int.ofNat_inj.mp (Option.some.inj heq).symm

/-- Without a limit there is room for one client, whatever the answer says. -/
theorem canAdmit_one (hs : s.Counts) (hclients : s.clients = []) (hport : s.stream.rxport ≠ 0) :
    s.CanAdmit 1 := by
  obtain ⟨client, launches, t, hstep, -⟩ :=
    exists_created_step hs hclients hport (fresh_noPipe _) (fresh_noPipe _)
  exact ⟨[(client, launches)], t, rfl, .single hstep⟩

/-- With `nboutputs` zeroed no answer is right. -/
theorem not_advertises (hs : s.Counts) (hzero : s.stream.nboutputs = 0)
    (hport : s.stream.rxport ≠ 0) :
    ¬s.Advertises (infoHeader.toBytes ++ s.infoAnswer) := by
  rintro ⟨htext, hnonneg, hfree⟩
  have hmax : s.vbanClientsMax = 0 := by
    have hanswer := List.append_cancel_left htext
    rw [Server.infoAnswer, hzero] at hanswer
    simp only [List.append_assoc] at hanswer
    exact (decimalInt_append_cancel (m := 0)
      (List.append_cancel_left (List.append_cancel_left hanswer))).symm
  rw [hmax, Nat.le_zero] at hnonneg
  have hclients : s.clients = [] := by
    rw [← List.length_eq_zero_iff, ← hs.active_eq, hnonneg]
  have hone := (hfree 1).mp (canAdmit_one hs hclients hport)
  omega

/-- In no state that a run reaches an answer is right. -/
theorem server_run_info_wrong {argv0 : List UInt8} {redundancy : Nat} {vbanOutputFormat : UInt8}
    {stream : VbanRxContext Unit} {cAddr : UInt32 × UInt16} {ipIn : UInt32} {portIn : UInt16}
    (h : Run ServerStep
      (.start argv0 redundancy vbanOutputFormat stream cAddr ipIn portIn) es s)
    (hreplied : ServerStep s (.received (.replied dest answer)) t) : ¬s.Advertises answer := by
  obtain ⟨-, hcounts, hsame⟩ := server_run_refines h (Server.start_counts _ _ _ _ _ _ _)
  obtain ⟨rfl, hport⟩ := hreplied.replied hcounts
  have hzero : s.stream.nboutputs = 0 := by rw [hsame.stream_eq]; rfl
  exact not_advertises hcounts hzero hport

/-- A request whose header describes its five bytes. -/
def requestHeader : VBanHeader :=
  ⟨vbanHeaderFourc, vbanProtocolTxt, 4, 0, vbanBitfmt8Int, .strncpy (chars "INFO"), 0⟩

def request : ServerInput := .datagram (requestHeader.toBytes ++ chars "/info") source

theorem request_handled (s : Server) :
    (s.received request).handle rx tx = .ok (s.received request).server.answerInfo := by
  have hheader : (s.received request).server.packet.header = requestHeader :=
    s.datagram_header requestHeader (chars "/info") source
  have hdata : (s.received request).server.packet.data =
      chars "/info" ++ s.packet.bytes.drop (vbanHeaderSize + 5) :=
    s.datagram_data requestHeader source (by decide)
  apply Received.handle_txt
  · exact (s.datagram_reachesSwitch_iff source (by decide)).mpr ⟨by decide, rfl⟩
  · rw [VBanPacket.protocol, hheader]
    exact (by decide : vbanProtocolTxt &&& vbanProtocolMask = vbanProtocolTxt)
  · have htake : (s.received request).server.packet.data.take 5 = chars "/info" := by
      rw [hdata]
      exact List.take_left' rfl
    rw [AsksInfo, hheader, htake]
    exact ⟨by decide, by decide⟩

theorem answerInfo_eq (hport : s.stream.rxport ≠ 0) : s.answerInfo =
    (.replied (udpSend s.cAddr s.stream.ansport 0).1 (infoHeader.toBytes ++ s.infoAnswer),
      { s with cAddr := (udpSend s.cAddr s.stream.ansport 0).2 }) := by
  rw [Server.answerInfo]
  exact if_pos hport

/-- Such a request is answered. -/
theorem request_replied (s : Server) (hport : s.stream.rxport ≠ 0) : ∃ dest t,
    ServerStep s (.received (.replied dest (infoHeader.toBytes ++ s.infoAnswer))) t := by
  have hmode : request.Udp ↔ s.stream.rxport ≠ 0 := ⟨fun _ => hport, fun _ => trivial⟩
  have hport' : (s.received request).server.stream.rxport ≠ 0 := hport
  exact ⟨_, _, .receive hmode (fresh_noPipe _) (fresh_noPipe _)
    ((request_handled s).trans (congrArg Except.ok (answerInfo_eq hport')))⟩

/-- With the option `-c4`, the first request is answered with the limit 0. -/
theorem info_limit_zero : ∃ dest t,
    ServerStep (serverFor 4 0) (.received (.replied dest
      (infoHeader.toBytes ++ chars ("servername= samplerate=48000 format=4 flags=324" ++
        " max_clients=0 free_clients=0")))) t ∧
    (serverFor 4 0).vbanClientsMax = 4 ∧
    ¬(serverFor 4 0).Advertises (infoHeader.toBytes ++
      chars ("servername= samplerate=48000 format=4 flags=324" ++
        " max_clients=0 free_clients=0")) := by
  have hport := serverFor_rxport_ne 4 0
  have hanswer : (serverFor 4 0).infoAnswer =
      chars ("servername= samplerate=48000 format=4 flags=324" ++
        " max_clients=0 free_clients=0") := by
    decide
  rw [← hanswer]
  obtain ⟨dest, t, hstep⟩ := request_replied _ hport
  exact ⟨dest, t, hstep, rfl, not_advertises (Server.start_counts _ _ _ _ _ _ _) rfl hport⟩

/-- With one client the answer tells that there is room for -1. -/
theorem server_run_info_wrong_first : ∃ es s dest answer t,
    Run ServerStep (serverFor 2 0) es s ∧ s.activeClientsNum = 1 ∧
      ServerStep s (.received (.replied dest answer)) t ∧ ¬s.Advertises answer := by
  obtain ⟨client, launches, s, hstep, hclients, -⟩ :=
    exists_first_client 2 0 (fresh_noPipe []) (fresh_noPipe _)
  obtain ⟨-, hcounts, hsame⟩ := hstep.refines (Server.start_counts _ _ _ _ _ _ _)
  have hport : s.stream.rxport ≠ 0 := by
    rw [hsame.stream_eq]
    exact serverFor_rxport_ne 2 0
  obtain ⟨dest, t, hreplied⟩ := request_replied s hport
  refine ⟨_, s, dest, _, t, .single hstep, ?_, hreplied,
    server_run_info_wrong (Run.single hstep) hreplied⟩
  rw [hcounts.active_eq, hclients]
  rfl

end Vban.Multistream
