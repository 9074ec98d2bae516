import Vban.Emit.SendBuffer
import Vban.Receive.Handed

/-! `rxThread` in pipe mode on a stream of bytes, where each read gets all that it asks for. -/
namespace Vban

open Library

variable {R : Type}

/-- What a turn reads as a header, and what it passes to `vban_rx_handle_packet`. -/
structure PipeTurn where
  header : List UInt8
  handed : Option (List UInt8)

def HandlerCall.bytes (call : HandlerCall) : List UInt8 :=
  call.packet.bytes.take call.packetlen.toNat

/-- The length of the data that is read behind a header. -/
def VBanHeader.pipeDatalen (h : VBanHeader) : Nat :=
  if h.protocol = vbanProtocolAudio ∨ h.protocol = vbanProtocolTxt then h.datalen else 0

/-- A turn of a thread with its unread bytes. The handler may leave any context behind. -/
inductive PipeStep : RxThread R × List UInt8 → PipeTurn → RxThread R × List UInt8 → Prop
  | turn {s t u : RxThread R} {header data rest : List UInt8} {ts : Timespec} {packetlen : Nat} :
      header.length = vbanHeaderSize →
      data.length = (s.headerRead header ts).packet.header.pipeDatalen →
      readData (s.headerRead header ts) vbanHeaderSize data = .ok (t, packetlen) →
      u.packet = (if (t.packet.handedPipe packetlen).isSome then .zero else t.packet) →
      PipeStep (s, header ++ (data ++ rest))
        ⟨header, (t.packet.handedPipe packetlen).map HandlerCall.bytes⟩ (u, rest)

/-- A packet as it stands in memory. -/
def SentPacket.bytes (p : SentPacket) : List UInt8 := p.header.toBytes ++ p.payload

theorem SentPacket.bytes_injective : Function.Injective SentPacket.bytes := by
  intro p q heq
  obtain ⟨hheader, hpayload⟩ := List.append_inj heq
    (p.header.length_toBytes.trans q.header.length_toBytes.symm)
  cases p
  cases q
  exact congrArg₂ SentPacket.mk (VBanPacket.toBytes_injective hheader) hpayload

/-- The turn that passes the packet on. -/
def SentPacket.turn (p : SentPacket) : PipeTurn := ⟨p.header.toBytes, some p.bytes⟩

/-- The turns over the bytes pass on these packets, one each, and leave no byte. -/
def RxThread.ReadsBack (s : RxThread R) (written : List UInt8) (ps : List SentPacket) : Prop :=
  (∃ u, Run PipeStep (s, written) (ps.map SentPacket.turn) (u, [])) ∧
    ∀ xs b, Run PipeStep (s, written) xs b → xs <+: ps.map SentPacket.turn

variable {env : RxEnv R} {s t u : RxThread R} {a b : RxThread R × List UInt8} {p : SentPacket}
  {ps : List SentPacket} {header data rest written : List UInt8} {ts : Timespec} {packetlen : Nat}

/-- A turn of the thread whose reads get all that they ask for is a step. -/
theorem receive_pipeStep (hheader : header.length = vbanHeaderSize)
    (hdata : data.length = (s.headerRead header ts).packet.header.pipeDatalen)
    (hr : s.receive env (.pipe header data ts) = .ok u) (rest : List UInt8) :
    PipeStep (s, header ++ (data ++ rest))
      ⟨header, (s.handed (.pipe header data ts)).map HandlerCall.bytes⟩ (u, rest) := by
  have hlen : (header.take vbanHeaderSize).length = vbanHeaderSize := by
    rw [List.take_of_length_le hheader.le, hheader]
  rw [RxThread.receive, hlen] at hr
  rw [RxThread.handed, hlen]
  obtain ⟨⟨t, packetlen⟩, hread, hturn⟩ := bind_eq_ok.mp hr
  rw [hread]
  refine .turn hheader hdata hread ?_
  simp only at hturn
  rw [VBanPacket.handedPipe]
  split_ifs at hturn ⊢ with hhanded hsome hsome
  · exact handleAndClear_packet hturn
  · exact absurd rfl hsome
  · exact absurd hsome Bool.false_ne_true
  · obtain rfl := Except.ok.inj hturn
    rfl

/-- A header that was read is in the buffer, before what was there. -/
theorem bytes_headerRead (s : RxThread R) (ts : Timespec)
    (hheader : header.length = vbanHeaderSize) :
    (s.headerRead header ts).packet.bytes = header ++ s.packet.bytes.drop vbanHeaderSize :=
  s.packet.bytes_store_header hheader

theorem header_headerRead (s : RxThread R) (ts : Timespec) (h : VBanHeader) :
    (s.headerRead h.toBytes ts).packet.header = h :=
  s.packet.header_store_header h

/-- What is in the buffer once the data of a packet arrived, and how much of it is the packet. -/
theorem readData_bytes (hheader : header.length = vbanHeaderSize)
    (hdata : data.length = (s.headerRead header ts).packet.header.pipeDatalen)
    (hread : readData (s.headerRead header ts) vbanHeaderSize data = .ok (t, packetlen)) :
    t.packet.header = (s.headerRead header ts).packet.header ∧
      packetlen = vbanHeaderSize + data.length ∧
        t.packet.bytes.take packetlen = header ++ data := by
  have hbytes := bytes_headerRead s ts hheader
  generalize s.headerRead header ts = s₁ at *
  simp only [readData] at hread
  split_ifs at hread with hprotocol hfit
  · have hlen : data.length = s₁.packet.datalen := hdata.trans (if_pos hprotocol)
    have hwhole : data.take s₁.packet.datalen = data := List.take_of_length_le hlen.le
    rw [VBanPacket.lengthWithData, hwhole, if_pos hlen] at hread
    obtain ⟨rfl, rfl⟩ := Prod.mk.inj (Except.ok.inj hread)
    refine ⟨s₁.packet.header_store_data data hfit, by rw [hlen], ?_⟩
    change (overwrite s₁.packet.bytes vbanHeaderSize (data.take s₁.packet.datalen)).take _ = _
    rw [hwhole, overwrite, hbytes, List.take_left' hheader, List.take_left']
    rw [List.length_append, hheader, hlen]
  · obtain ⟨rfl, rfl⟩ := Prod.mk.inj (Except.ok.inj hread)
    have hnone : data = [] := List.length_eq_zero_iff.mp (hdata.trans (if_neg hprotocol))
    rw [hnone, List.append_nil]
    exact ⟨rfl, rfl, by rw [hbytes, List.take_left' hheader]⟩

/-- A packet that is passed on has the data that the reader reads behind its header. -/
theorem PipeStep.payload_length (hs : PipeStep a p.turn b) :
    p.payload.length = p.header.pipeDatalen := by
  generalize hturn : p.turn = x at hs
  cases hs with
  | @turn s t u header data rest ts packetlen hheader hdata hread hkept =>
    obtain ⟨hhead, hhanded⟩ := PipeTurn.mk.inj hturn
    obtain ⟨hheader', hlen, hbytes⟩ := readData_bytes hheader hdata hread
    rw [← hhead, header_headerRead] at hdata
    obtain ⟨call, hcall, hpacket⟩ := Option.map_eq_some_iff.mp hhanded.symm
    rw [VBanPacket.handedPipe] at hcall
    split_ifs at hcall
    obtain rfl := Option.some.inj hcall
    rw [HandlerCall.bytes, Int.toNat_natCast, hbytes, SentPacket.bytes, hhead] at hpacket
    rw [← List.append_cancel_left hpacket, hdata]

/-- A packet with this much data is read as it was written, whatever follows it. -/
theorem exists_pipeStep (hvban : p.header.vban = vbanHeaderFourc)
    (hlen : p.payload.length = p.header.pipeDatalen) (hfit : p.payload.length ≤ vbanDataMaxSize)
    (s : RxThread R) (rest : List UInt8) :
    ∃ u, PipeStep (s, p.bytes ++ rest) p.turn (u, rest) := by
  have hheader := header_headerRead s ⟨0, 0⟩ p.header
  have hdata : p.payload.length =
      (s.headerRead p.header.toBytes ⟨0, 0⟩).packet.header.pipeDatalen := by rw [hheader, hlen]
  obtain ⟨t, n, hread⟩ : ∃ t n, readData (s.headerRead p.header.toBytes ⟨0, 0⟩) vbanHeaderSize
      p.payload = .ok (t, n) := by
    simp only [readData]
    split_ifs with hprotocol hroom
    · exact ⟨_, _, rfl⟩
    · have hdatalen := hdata.trans (if_pos hprotocol)
      refine absurd ?_ hroom
      rw [hdatalen] at hfit
      exact Nat.add_le_add_left hfit vbanHeaderSize
    · exact ⟨_, _, rfl⟩
  obtain ⟨hkept, hn, hbytes⟩ := readData_bytes p.header.length_toBytes hdata hread
  have hhanded : t.packet.handedPipe n = some ⟨t.packet, n, 0⟩ := by
    refine if_pos ⟨hn ▸ Nat.le_add_right _ _, ?_⟩
    rw [hkept, hheader, hvban]
  have hstep : PipeStep (s, p.header.toBytes ++ (p.payload ++ rest)) _
      ({ t with packet := .zero }, rest) :=
    .turn p.header.length_toBytes hdata hread (by rw [hhanded]; rfl)
  refine ⟨{ t with packet := .zero }, ?_⟩
  rw [hhanded, Option.map_some, HandlerCall.bytes, Int.toNat_natCast, hbytes,
    ← List.append_assoc] at hstep
  exact hstep

/-- The same buffer, and the same bytes to read. -/
def SameInput (a b : RxThread R × List UInt8) : Prop := a.1.packet = b.1.packet ∧ a.2 = b.2

theorem readData_congr {s s' t t' : RxThread R} {n m m' : Nat} (h : s.packet = s'.packet)
    (hread : readData s n data = .ok (t, m)) (hread' : readData s' n data = .ok (t', m')) :
    t.packet = t'.packet ∧ m = m' := by
  simp only [readData, h] at hread hread'
  split_ifs at hread hread'
  all_goals
    obtain ⟨rfl, rfl⟩ := Prod.mk.inj (Except.ok.inj hread)
    obtain ⟨rfl, rfl⟩ := Prod.mk.inj (Except.ok.inj hread')
  · exact ⟨rfl, rfl⟩
  · exact ⟨h, rfl⟩

/-- The turns depend on the buffer and on the bytes alone. -/
theorem PipeStep.deterministic {a a' b b' : RxThread R × List UInt8} {x x' : PipeTurn}
    (h : SameInput a a') (hs : PipeStep a x b) (hs' : PipeStep a' x' b') :
    x = x' ∧ SameInput b b' := by
  obtain ⟨hpacket, hbytes⟩ := h
  cases hs with
  | @turn s t u header data rest ts n hheader hdata hread hkept =>
    cases hs' with
    | @turn s' t' u' header' data' rest' ts' n' hheader' hdata' hread' hkept' =>
      simp only at hpacket hbytes
      obtain ⟨rfl, hbehind⟩ := List.append_inj hbytes (hheader.trans hheader'.symm)
      have hloaded : (s.headerRead header ts).packet = (s'.headerRead header ts').packet := by
        rw [RxThread.headerRead, RxThread.headerRead, hpacket]
      obtain ⟨rfl, rfl⟩ := List.append_inj hbehind (by rw [hdata, hdata', hloaded])
      obtain ⟨hread_eq, rfl⟩ := readData_congr hloaded hread hread'
      rw [hread_eq] at hkept
      exact ⟨by rw [hread_eq], hkept.trans hkept'.symm, rfl⟩

/-- Nothing is read of no bytes. -/
theorem not_pipeStep_nil {x : PipeTurn} (hs : PipeStep a x b) : a.2 ≠ [] := by
  cases hs with
  | turn hheader =>
    intro hnil
    rw [(List.append_eq_nil_iff.mp hnil).1] at hheader
    exact absurd hheader (by decide)

/-- Whatever was written: each packet that is read back has the data that the reader reads. -/
theorem RxThread.ReadsBack.payload_length (h : s.ReadsBack written ps) :
    ∀ p ∈ ps, p.payload.length = p.header.pipeDatalen := by
  obtain ⟨⟨u, hrun⟩, -⟩ := h
  have hlabels := hrun.forall_labels (P := fun x => ∀ p, x = SentPacket.turn p →
    p.payload.length = p.header.pipeDatalen) fun a x b hs p hx => (hx ▸ hs).payload_length
  exact fun p hp => hlabels p.turn (List.mem_map_of_mem hp) p rfl

/-- Packets of this much data are read back. -/
theorem exists_pipeRun (hps : ∀ p ∈ ps, p.header.vban = vbanHeaderFourc ∧
    p.payload.length = p.header.pipeDatalen ∧ p.payload.length ≤ vbanDataMaxSize)
    (s : RxThread R) :
    ∃ u, Run PipeStep (s, ps.flatMap SentPacket.bytes) (ps.map SentPacket.turn) (u, []) := by
  induction ps generalizing s with
  | nil => exact ⟨s, .refl _⟩
  | cons p ps ih =>
    obtain ⟨hvban, hlen, hfit⟩ := hps p List.mem_cons_self
    obtain ⟨t, hstep⟩ := exists_pipeStep hvban hlen hfit s (ps.flatMap SentPacket.bytes)
    obtain ⟨u, hrun⟩ := ih (fun q hq => hps q (List.mem_cons_of_mem p hq)) t
    refine ⟨u, ?_⟩
    rw [List.flatMap_cons, List.map_cons]
    exact .cons hstep hrun

/-- Whole packets are read back exactly if each has the data that the reader reads. -/
theorem readsBack_iff (hvban : ∀ p ∈ ps, p.header.vban = vbanHeaderFourc)
    (hfit : ∀ p ∈ ps, p.payload.length ≤ vbanDataMaxSize) (s : RxThread R) :
    s.ReadsBack (ps.flatMap SentPacket.bytes) ps ↔
      ∀ p ∈ ps, p.payload.length = p.header.pipeDatalen := by
  constructor
  · exact fun h => h.payload_length
  · intro hlen
    obtain ⟨u, hrun⟩ := exists_pipeRun (fun p hp => ⟨hvban p hp, hlen p hp, hfit p hp⟩) s
    refine ⟨⟨u, hrun⟩, ?_⟩
    intro xs b hother
    refine Run.labels_of_deterministic (R := SameInput)
      (fun _ _ _ _ _ _ h hs hs' => PipeStep.deterministic h hs hs') ⟨rfl, rfl⟩ hrun ?_ hother
    exact fun v hv x w hs => not_pipeStep_nil hs hv.2.symm

end Vban
