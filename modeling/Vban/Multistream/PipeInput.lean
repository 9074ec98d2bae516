import Mathlib.Data.List.ReduceOption
import Mathlib.Tactic.NormNum.Prime
import Vban.Multistream.Admission
import Vban.Receive.PipeReader

/-! The multistream loop in pipe mode, on packets that wait in its input. -/
namespace Vban

open Library

/-- An audio packet with the payload that its header declares. -/
structure SentPacket.WellFormedAudio (p : SentPacket) : Prop where
  vban_eq : p.header.vban = vbanHeaderFourc
  protocol_eq : p.header.protocol = vbanProtocolAudio
  length_eq : p.payload.length = p.header.datalen
  length_le : p.payload.length ≤ vbanDataMaxSize

namespace Multistream

open Discovery (chars)

/-- What the switch over the protocols gets, if the turn comes to it. -/
def Received.switched (r : Received) : Option (List UInt8) :=
  if r.ReachesSwitch then some (r.server.packet.bytes.take r.packetlen.toNat) else none

/-- The reads of a turn, each of which gets what it asks for or all there is, and what is left. -/
def Server.pipeInput (s : Server) (bytes : List UInt8) : ServerInput × List UInt8 :=
  let header := bytes.take vbanHeaderSize
  let rest := bytes.drop vbanHeaderSize
  let packet := s.packet.store 0 vbanHeaderSize VBanPacket.header_le header
  if packet.protocol = vbanProtocolAudio ∨ packet.protocol = vbanProtocolTxt then
    (.pipe (some header) (some (rest.take vbanDataMaxSize)), rest.drop vbanDataMaxSize)
  else (.pipe (some header) none, rest)

/-- Turns of the loop on the bytes that wait, and of `timerThread`. The label is what comes to the
switch. -/
inductive PipeInputStep : Server × List UInt8 → Option (List UInt8) → Server × List UInt8 → Prop
  | receive {s t : Server} {bytes : List UInt8} {rx tx : Popen2Calls} {reaction : Reaction}
      (hmode : s.stream.rxport = 0) (hwait : bytes ≠ []) (hrx : rx.Fresh s.pipes)
      (htx : tx.Fresh (rx.opened false true s.pipes))
      (h : s.receive (s.pipeInput bytes).1 rx tx = .ok (reaction, t)) :
      PipeInputStep (s, bytes) (s.received (s.pipeInput bytes).1).switched
        (t, (s.pipeInput bytes).2)
  | tick {s t : Server} {bytes : List UInt8} {removed : Option ClientId}
      (h : s.tick = .ok (removed, t)) : PipeInputStep (s, bytes) none (t, bytes)

/-- The loop reads its input empty, and the packets have then come to the switch, each once and in
order. -/
structure Server.Processes (s : Server) (ps : List SentPacket) : Prop where
  ends : ∃ xs t, Run PipeInputStep (s, ps.flatMap SentPacket.bytes) xs (t, [])
  handed : ∀ xs t, Run PipeInputStep (s, ps.flatMap SentPacket.bytes) xs (t, []) →
    xs.reduceOption = ps.map SentPacket.bytes

variable {s t : Server} {bytes rest xs : List UInt8} {p : SentPacket}
  {a b : Server × List UInt8} {x : Option (List UInt8)}

theorem Received.switched_of_eq {r : Received} (hlen : r.packetlen = r.rightlen)
    (hvban : r.server.packet.header.vban = vbanHeaderFourc) :
    r.switched = some (r.server.packet.bytes.take r.rightlen) := by
  rw [switched, if_pos ⟨hlen, hvban⟩, hlen, Int.toNat_natCast]

theorem Received.switched_of_ne {r : Received} (hlen : r.packetlen ≠ r.rightlen) :
    r.switched = none :=
  if_neg fun h => hlen h.1

/-- No header declares as much data as one read asks for: 359 divides none of its sizes. -/
theorem datalen_ne_vbanDataMaxSize (h : VBanHeader) : h.datalen ≠ vbanDataMaxSize := by
  have hprime : Nat.Prime 359 := by norm_num
  have hsizes : ∀ n ∈ vbanBitResolutionSize, 359 ∣ n → n = 0 := by decide
  have hsize : ∀ i, 359 ∣ vbanBitResolutionSize.getD i 0 → vbanBitResolutionSize.getD i 0 = 0 := by
    intro i hdvd
    rw [List.getD_eq_getElem?_getD] at hdvd ⊢
    cases hget : vbanBitResolutionSize[i]? with
    | none => rfl
    | some n =>
      rw [hget] at hdvd
      exact hsizes n (List.mem_of_getElem? hget) hdvd
  intro heq
  have hdvd : 359 ∣ h.datalen := by
    rw [heq]
    decide
  rw [VBanHeader.datalen] at hdvd
  have hnbs := h.formatNbs.toNat_lt
  have hnbc := h.formatNbc.toNat_lt
  rcases hprime.dvd_mul.mp hdvd with hdvd | hdvd
  · rcases hprime.dvd_mul.mp hdvd with hdvd | hdvd
    · rw [VBanHeader.datalen, hsize _ hdvd, Nat.zero_mul, Nat.zero_mul] at heq
      exact absurd heq (by decide)
    · have := Nat.le_of_dvd (Nat.succ_pos _) hdvd
      omega
  · have := Nat.le_of_dvd (Nat.succ_pos _) hdvd
    omega

theorem Server.pipeReceived_packetlen_le (s : Server) (header : List UInt8)
    (data : Option (List UInt8)) :
    (s.pipeReceived (some header) data).packetlen.toNat ≤
      header.length + (data.getD []).length := by
  have hheader : readRet vbanHeaderSize (some header) ≤ (header.length : Int) :=
    Int.ofNat_le.mpr (List.length_take_le' _ header)
  have hdata : readRet vbanDataMaxSize data ≤ ((data.getD []).length : Int) := by
    cases data with
    | none => exact Int.neg_nonpos_of_nonneg (Int.le_of_lt Int.zero_lt_one)
    | some bytes => exact Int.ofNat_le.mpr (List.length_take_le' _ bytes)
  rw [Server.pipeReceived]
  simp only
  split_ifs
  · exact Int.toNat_le.mpr (Int.add_le_add hheader hdata)
  · exact Nat.zero_le _
  · exact Nat.zero_le _

/-- A turn passes on no more than it reads. -/
theorem switched_length_le (s : Server) {bytes : List UInt8}
    (h : (s.received (s.pipeInput bytes).1).switched = some xs) :
    xs.length + (s.pipeInput bytes).2.length ≤ bytes.length := by
  rw [Received.switched] at h
  split_ifs at h
  obtain rfl := Option.some.inj h
  rw [List.length_take]
  refine (Nat.add_le_add_right (Nat.min_le_left _ _) _).trans ?_
  have hheader : (bytes.take vbanHeaderSize).length ≤ bytes.length := List.length_take_le' _ _
  simp only [Server.pipeInput]
  split_ifs
  · have hread := s.pipeReceived_packetlen_le (bytes.take vbanHeaderSize)
      (some ((bytes.drop vbanHeaderSize).take vbanDataMaxSize))
    simp only [Server.received, Option.getD_some, List.length_take, List.length_drop] at hread ⊢
    omega
  · have hread := s.pipeReceived_packetlen_le (bytes.take vbanHeaderSize) none
    simp only [Server.received, Option.getD_none, List.length_nil, List.length_take,
      List.length_drop] at hread ⊢
    omega

/-- A turn that finds bytes leaves fewer. -/
theorem pipeInput_lt (s : Server) (hwait : bytes ≠ []) :
    (s.pipeInput bytes).2.length < bytes.length := by
  have hpos := List.length_pos_iff.mpr hwait
  have hheader : 0 < vbanHeaderSize := by decide
  simp only [Server.pipeInput]
  split_ifs
  · simp only [List.length_drop]
    omega
  · simp only [List.length_drop]
    omega

/-- The turn at the head of a well-formed packet passes it on if it is the last one. -/
theorem switched_packet (hp : p.WellFormedAudio) (s : Server) (rest : List UInt8) :
    (s.received (s.pipeInput (p.bytes ++ rest)).1).switched =
      if rest = [] then some p.bytes else none := by
  have htake : (p.bytes ++ rest).take vbanHeaderSize = p.header.toBytes := by
    rw [SentPacket.bytes, List.append_assoc, List.take_left' p.header.length_toBytes]
  have hdrop : (p.bytes ++ rest).drop vbanHeaderSize = p.payload ++ rest := by
    rw [SentPacket.bytes, List.append_assoc, List.drop_left' p.header.length_toBytes]
  have hheader := s.packet.header_store_header p.header
  have haudio : (s.packet.store 0 vbanHeaderSize VBanPacket.header_le p.header.toBytes).protocol =
      vbanProtocolAudio := by
    rw [VBanPacket.protocol, hheader]
    exact hp.protocol_eq
  have hdatalen := VBanPacket.datalen_eq hheader
  have hbytes := s.packet.bytes_store_header p.header.length_toBytes
  have hle := hp.length_le
  have hne : p.payload.length ≠ vbanDataMaxSize := by
    rw [hp.length_eq]
    exact datalen_ne_vbanDataMaxSize p.header
  have hinput : s.received (s.pipeInput (p.bytes ++ rest)).1 =
      s.pipeReceived (some p.header.toBytes) (some ((p.payload ++ rest).take vbanDataMaxSize)) := by
    rw [Server.pipeInput]
    simp only [htake, hdrop, if_pos (Or.inl haudio)]
    rfl
  have hread : (((p.payload ++ rest).take vbanDataMaxSize).take vbanDataMaxSize).length =
      min vbanDataMaxSize (p.payload.length + rest.length) := by
    rw [List.take_take, Nat.min_self, List.length_take, List.length_append]
  have hfit : ((s.packet.store 0 vbanHeaderSize VBanPacket.header_le p.header.toBytes).datalen :
      Int) ≤ readRet vbanDataMaxSize (some ((p.payload ++ rest).take vbanDataMaxSize)) := by
    rw [hdatalen, ← hp.length_eq, readRet, hread]
    omega
  rw [hinput, Server.pipeReceived]
  simp only [Option.getD_some, if_pos (Or.inl haudio), if_pos hfit]
  by_cases hrest : rest = []
  · subst hrest
    rw [if_pos rfl, Received.switched_of_eq]
    · simp only
      rw [hdatalen, ← hp.length_eq, List.append_nil]
      change some ((overwrite _ vbanHeaderSize _).take _) = some (p.header.toBytes ++ p.payload)
      rw [List.take_of_length_le hle, List.take_of_length_le hle, overwrite, hbytes,
        List.take_left' p.header.length_toBytes, List.take_left']
      rw [List.length_append, p.header.length_toBytes, Nat.add_comm]
    · simp only
      rw [hdatalen, ← hp.length_eq, readRet, readRet, hread,
        List.take_of_length_le p.header.length_toBytes.le, p.header.length_toBytes,
        List.length_nil]
      omega
    · simp only
      rw [VBanPacket.header_store_data, hheader, hp.vban_eq]
  · have hpos := List.length_pos_iff.mpr hrest
    rw [if_neg hrest, Received.switched_of_ne]
    simp only
    rw [hdatalen, ← hp.length_eq, readRet, readRet, hread,
      List.take_of_length_le p.header.length_toBytes.le, p.header.length_toBytes]
    omega

/-- A turn on one packet leaves nothing. -/
theorem pipeInput_packet (hp : p.WellFormedAudio) (s : Server) :
    (s.pipeInput p.bytes).2 = [] := by
  have hle := hp.length_le
  have hlen := p.header.length_toBytes
  have haudio : (s.packet.store 0 vbanHeaderSize VBanPacket.header_le p.header.toBytes).protocol =
      vbanProtocolAudio := by
    rw [VBanPacket.protocol, s.packet.header_store_header p.header]
    exact hp.protocol_eq
  rw [Server.pipeInput]
  simp only [SentPacket.bytes, List.take_left' hlen, List.drop_left' hlen, if_pos (Or.inl haudio)]
  exact List.drop_eq_nil_of_le hle

/-- The turns in pipe mode are steps of the server. -/
theorem PipeInputStep.serverStep (h : PipeInputStep a x b) : ∃ e, ServerStep a.1 e b.1 := by
  cases h with
  | @receive s t bytes rx tx reaction hmode hwait hrx htx h =>
    refine ⟨_, .receive (iff_of_false ?_ (not_not_intro hmode)) hrx htx h⟩
    rw [Server.pipeInput]
    split_ifs
    · exact id
    · exact id
  | tick h => exact ⟨_, .tick h⟩

/-- The input of a turn is what it passes on, what it drops, and what it leaves. -/
theorem PipeInputStep.length_le (h : PipeInputStep a x b) :
    (x.getD []).length + b.2.length ≤ a.2.length := by
  cases h with
  | @receive s t bytes rx tx reaction hmode hwait =>
    cases hx : (s.received (s.pipeInput bytes).1).switched with
    | none =>
      rw [Option.getD_none, List.length_nil, Nat.zero_add]
      exact (pipeInput_lt s hwait).le
    | some xs => exact switched_length_le s hx
  | tick =>
    rw [Option.getD_none, List.length_nil, Nat.zero_add]

theorem run_length_le {xs : List (Option (List UInt8))} (h : Run PipeInputStep a xs b) :
    xs.reduceOption.flatten.length + b.2.length ≤ a.2.length := by
  induction h with
  | refl => exact (Nat.zero_add _).le
  | @snoc t u xs x _ hstep ih =>
    have hlast := hstep.length_le
    rw [List.reduceOption_append, List.flatten_append, List.length_append]
    have hone : ([x].reduceOption.flatten).length = (x.getD []).length := by
      cases x with
      | none => rfl
      | some x => rw [List.reduceOption_singleton, Option.toList_some, List.flatten_singleton,
          Option.getD_some]
    omega

/-- Without input the loop passes nothing on. -/
theorem run_nil {xs : List (Option (List UInt8))} (h : Run PipeInputStep a xs b)
    (ha : a.2 = []) : xs.reduceOption = [] := by
  induction xs generalizing a with
  | nil => rfl
  | cons x xs ih =>
    obtain ⟨c, hstep, hrest⟩ := h.step_of_cons
    cases hstep with
    | receive _ hwait => exact absurd ha hwait
    | tick =>
      rw [List.reduceOption_cons_of_none]
      exact ih hrest ha

/-- One packet is passed on once. -/
theorem run_packet (hp : p.WellFormedAudio) {xs : List (Option (List UInt8))}
    (h : Run PipeInputStep (s, p.bytes) xs (t, [])) : xs.reduceOption = [p.bytes] := by
  induction xs generalizing s with
  | nil =>
    have hnil := congrArg List.length (Prod.mk.inj h.eq_of_nil).2
    rw [SentPacket.bytes, List.length_append, p.header.length_toBytes, List.length_nil] at hnil
    exact absurd hnil.symm (by simp [vbanHeaderSize])
  | cons x xs ih =>
    obtain ⟨c, hstep, hrest⟩ := h.step_of_cons
    cases hstep with
    | receive =>
      have hlabel := switched_packet hp s []
      rw [List.append_nil, if_pos rfl] at hlabel
      rw [hlabel, List.reduceOption_cons_of_some,
        run_nil hrest (pipeInput_packet hp s)]
    | tick =>
      rw [List.reduceOption_cons_of_none]
      exact ih hrest

/-- Of a packet with more behind it, some bytes are lost. -/
theorem run_length_lt (hp : p.WellFormedAudio) (hrest : rest ≠ [])
    {xs : List (Option (List UInt8))}
    (h : Run PipeInputStep (s, p.bytes ++ rest) xs (t, [])) :
    xs.reduceOption.flatten.length < (p.bytes ++ rest).length := by
  have hwait : p.bytes ++ rest ≠ [] := fun h => hrest (List.append_eq_nil_iff.mp h).2
  induction xs generalizing s with
  | nil => exact List.length_pos_iff.mpr hwait
  | cons x xs ih =>
    obtain ⟨c, hstep, hruns⟩ := h.step_of_cons
    cases hstep with
    | receive =>
      have hlabel := switched_packet hp s rest
      rw [if_neg hrest] at hlabel
      rw [hlabel, List.reduceOption_cons_of_none]
      have hle := run_length_le hruns
      have hlt := pipeInput_lt s hwait
      simp only at hle
      omega
    | tick =>
      rw [List.reduceOption_cons_of_none]
      exact ih hruns

/-- The loop reads any input to its end. -/
theorem exists_emptying_run (bytes : List UInt8) (hs : s.Counts) (hmode : s.stream.rxport = 0) :
    ∃ xs t, Run PipeInputStep (s, bytes) xs (t, []) := by
  induction hn : bytes.length using Nat.strong_induction_on generalizing s bytes with
  | _ n ih =>
    by_cases hwait : bytes = []
    · subst hwait
      exact ⟨[], s, .refl _⟩
    · obtain ⟨reaction, t, hr⟩ := hs.exists_receive (s.pipeInput bytes).1 .noPipe .noPipe
      have hstep : PipeInputStep (s, bytes) _ (t, _) :=
        .receive hmode hwait (fresh_noPipe _) (fresh_noPipe _) hr
      obtain ⟨e, hserver⟩ := hstep.serverStep
      obtain ⟨-, ht, hsame⟩ := hserver.refines hs
      obtain ⟨xs, u, hrun⟩ := ih _ (hn ▸ pipeInput_lt s hwait) (s.pipeInput bytes).2 ht
        (hsame.stream_eq ▸ hmode) rfl
      exact ⟨_, u, .cons hstep hrun⟩

/-- The packets that wait are processed, each once and in order, exactly if there is one at most. -/
theorem pipe_input_processed_iff {argv0 : List UInt8} {redundancy : Nat}
    {vbanOutputFormat : UInt8} {stream : VbanRxContext Unit} {cAddr : UInt32 × UInt16}
    {ipIn : UInt32} {portIn : UInt16} {es : List ServerEvent} {ps : List SentPacket}
    (hmode : stream.rxport = 0)
    (hrun : Run ServerStep (.start argv0 redundancy vbanOutputFormat stream cAddr ipIn portIn) es s)
    (hps : ∀ p ∈ ps, p.WellFormedAudio) : s.Processes ps ↔ ps.length ≤ 1 := by
  obtain ⟨-, hcounts, hsame⟩ := server_run_refines hrun (Server.start_counts _ _ _ _ _ _ _)
  have hends := exists_emptying_run (ps.flatMap SentPacket.bytes) hcounts
    (hsame.stream_eq ▸ hmode : s.stream.rxport = 0)
  match ps with
  | [] => exact iff_of_true ⟨hends, fun xs t h => run_nil h rfl⟩ (Nat.zero_le _)
  | [p] =>
    refine iff_of_true ⟨hends, fun xs t h => ?_⟩ (Nat.le_refl _)
    rw [List.flatMap_singleton] at h
    exact run_packet (hps p List.mem_cons_self) h
  | p :: q :: ps =>
    refine iff_of_false (fun hprocesses => ?_) (by simp)
    obtain ⟨xs, t, hempties⟩ := hends
    have hhanded := hprocesses.handed xs t hempties
    have hbehind : (q :: ps).flatMap SentPacket.bytes ≠ [] := by
      intro hnil
      have hlen := congrArg List.length hnil
      rw [List.flatMap_cons, SentPacket.bytes, List.length_append, List.length_append,
        q.header.length_toBytes] at hlen
      simp [vbanHeaderSize] at hlen
    have hlt := run_length_lt (hps p List.mem_cons_self) hbehind hempties
    rw [hhanded, ← List.flatMap_def, List.flatMap_cons] at hlt
    exact absurd hlt (Nat.lt_irrefl _)

/-- A server in pipe mode, with room for two clients. -/
def pipeServer : Server :=
  .start (chars "vban_receptor_jack") 1 vbanBitfmt32Float
    { VbanRxContext.start (.strncpy []) 0 0 with nboutputs := 2 } (0, 0) 0 0

def mixPacket : SentPacket := ⟨oneSampleHeader (chars "mix"), [0]⟩

theorem mixPacket_wellFormed : mixPacket.WellFormedAudio where
  vban_eq := rfl
  protocol_eq := by decide
  length_eq := by decide
  length_le := by decide

theorem pipe_input_one_processed : pipeServer.Processes [mixPacket] :=
  (pipe_input_processed_iff rfl (Run.refl pipeServer)
    (List.forall_mem_singleton.mpr mixPacket_wellFormed)).mpr (Nat.le_refl 1)

/-- Of two packets that wait together the first one is not processed. -/
theorem pipe_input_two_not_processed : mixPacket.WellFormedAudio ∧
    ¬pipeServer.Processes [mixPacket, mixPacket] := by
  refine ⟨mixPacket_wellFormed, fun h => ?_⟩
  obtain ⟨xs, t, hrun⟩ := h.ends
  have hhanded := h.handed xs t hrun
  rw [List.flatMap_cons] at hrun
  have hlt := run_length_lt mixPacket_wellFormed (by decide) hrun
  rw [hhanded] at hlt
  exact absurd hlt (by decide)

end Multistream

end Vban
