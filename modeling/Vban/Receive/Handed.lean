import Vban.Receive.Spec
import Vban.Receive.RxThread

/-! What the turns of `rxThread` pass to `vban_rx_handle_packet`. -/
namespace Vban

open Library

/-- A call of `vban_rx_handle_packet`: the packet, its length and its sender. -/
structure HandlerCall where
  packet : VBanPacket
  packetlen : Int
  ipIn : UInt32

variable {R : Type}

/-- In UDP mode, audio and serial packets have to match the binding. -/
def RxThread.handedUdp (s : RxThread R) (packetlen : Int) : Option HandlerCall :=
  if (s.packet.protocol = vbanProtocolAudio ∨ s.packet.protocol = vbanProtocolSerial) ∧
      ¬(s.context.iprx = s.cAddr.1 ∧ s.context.rxStreamname = s.packet.header.streamname) then none
  else some ⟨s.packet, packetlen, s.cAddr.1⟩

/-- In pipe mode, a packet needs a whole header and the magic number. -/
def VBanPacket.handedPipe (p : VBanPacket) (packetlen : Nat) : Option HandlerCall :=
  if vbanHeaderSize ≤ packetlen ∧ p.header.vban = vbanHeaderFourc then some ⟨p, packetlen, 0⟩
  else none

/-- The call of a turn, if it comes to it. -/
def RxThread.handed (s : RxThread R) : RxInput → Option HandlerCall
  | .datagram bytes addr ts _ =>
    (s.received bytes addr ts).handedUdp (bytes.take vbanProtocolMaxSize).length
  | .recvError _ => s.handedUdp (-1)
  | .pipe header data ts =>
    match readData (s.headerRead header ts) (header.take vbanHeaderSize).length data with
    | .ok (t, packetlen) => t.packet.handedPipe packetlen
    | .error _ => none

variable {env : RxEnv R} {s t : RxThread R} {i : RxInput} {packetlen : Int} {taken : List Nat}
  {call : HandlerCall}

/-- The rest of a UDP turn is this call, or no call. -/
theorem dispatchUdp_handed (env : RxEnv R) (taken : List Nat)
    (h : s.handedUdp packetlen = some call) :
    call.packet = s.packet ∧ dispatchUdp env s packetlen taken =
      handleAndClear env s.setAnsport call.packetlen call.ipIn taken := by
  rw [RxThread.handedUdp] at h
  split_ifs at h with hnone
  obtain rfl := Option.some.inj h
  refine ⟨rfl, ?_⟩
  rw [dispatchUdp]
  simp only
  split_ifs with hprotocol
  · have hmatches := not_not.mp fun hnot => hnone ⟨hprotocol, hnot⟩
    exact if_pos hmatches
  · rfl

/-- A datagram from the source and of the stream that the receptor is bound to is passed on. -/
theorem receive_bound (env : RxEnv R) {h : VBanHeader} {payload : List UInt8}
    {addr : UInt32 × UInt16} (ts : Timespec) (taken : List Nat) (hip : s.context.iprx = addr.1)
    (hname : s.context.rxStreamname = h.streamname) :
    s.receive env (.datagram (h.toBytes ++ payload) (some addr) ts taken) =
      handleAndClear env (s.received (h.toBytes ++ payload) (some addr) ts).setAnsport
        ((h.toBytes ++ payload).take vbanProtocolMaxSize).length addr.1 taken := by
  set received := s.received (h.toBytes ++ payload) (some addr) ts with hreceived
  have hheader : received.packet.header = h := VBanPacket.header_received s.packet h payload
  have hmatches : received.context.iprx = received.cAddr.1 ∧
      received.context.rxStreamname = received.packet.header.streamname := by
    rw [hheader]
    exact ⟨hip, hname⟩
  have hhanded : received.handedUdp ((h.toBytes ++ payload).take vbanProtocolMaxSize).length =
      some ⟨received.packet, ((h.toBytes ++ payload).take vbanProtocolMaxSize).length, addr.1⟩ := by
    rw [RxThread.handedUdp, if_neg fun h => h.2 hmatches]
    rfl
  obtain ⟨-, hturn⟩ := dispatchUdp_handed env taken hhanded
  exact hturn

/-- Without a call the buffer stays as it is. -/
theorem dispatchUdp_not_handed (env : RxEnv R) (taken : List Nat)
    (h : s.handedUdp packetlen = none) :
    ∃ t, dispatchUdp env s packetlen taken = .ok t ∧ t.packet = s.packet := by
  rw [RxThread.handedUdp] at h
  split_ifs at h with hnone
  obtain ⟨hprotocol, hmatches⟩ := hnone
  have hdispatch : dispatchUdp env s packetlen taken =
      bindOrHandle env s.setAnsport packetlen s.cAddr.1 taken := if_pos hprotocol
  have hnot : ¬(s.setAnsport.context.iprx = s.cAddr.1 ∧
      s.setAnsport.context.rxStreamname = s.setAnsport.packet.header.streamname) := hmatches
  rw [hdispatch, bindOrHandle]
  simp only [if_neg hnot]
  split_ifs
  all_goals exact ⟨_, rfl, rfl⟩

/-- A turn that passes something on is this call; the buffer is cleared behind it. -/
theorem receive_handed (h : s.handed i = some call) : ∃ t taken, t.packet = call.packet ∧
    s.receive env i = handleAndClear env t call.packetlen call.ipIn taken := by
  cases i with
  | datagram bytes addr ts taken =>
    obtain ⟨hpacket, hturn⟩ := dispatchUdp_handed env taken h
    exact ⟨(s.received bytes addr ts).setAnsport, taken, hpacket.symm, hturn⟩
  | recvError taken =>
    obtain ⟨hpacket, hturn⟩ := dispatchUdp_handed env taken h
    exact ⟨s.setAnsport, taken, hpacket.symm, hturn⟩
  | pipe header data ts =>
    rw [RxThread.handed] at h
    rw [RxThread.receive]
    cases hread : readData (s.headerRead header ts) (header.take vbanHeaderSize).length data with
    | error fault =>
      rw [hread] at h
      cases h
    | ok read =>
      obtain ⟨t, n⟩ := read
      rw [hread] at h
      simp only [VBanPacket.handedPipe] at h
      split_ifs at h with hhanded
      obtain rfl := Option.some.inj h
      exact ⟨t, [], rfl, if_pos hhanded⟩

theorem handleAndClear_packet {ipIn : UInt32}
    (h : handleAndClear env s packetlen ipIn taken = .ok t) : t.packet = .zero := by
  obtain ⟨r, -, h⟩ := bind_eq_ok.mp h
  obtain rfl := Except.ok.inj h
  rfl

end Vban
