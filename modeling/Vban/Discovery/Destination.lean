import Vban.Discovery.ScanReceptor
import Vban.Emit.Emitter

/-! Where the audio goes after the scan: the socket keeps the address of the last sender. -/
namespace Vban.Discovery

open Library

/-- A call of one of the two sending functions, with `txip = 0`. -/
inductive AudioCall
  | txbuffer (refusals : Refusals) (context : VbanTxContext)
  | t32Fragment (refusals : Refusals) (context : VbanTxContext)

/-- The datagrams of a call, each with `txport`. Without a port all goes to the pipe. -/
def AudioCall.datagrams (call : AudioCall) : List (UInt16 × SentPacket) :=
  let (context, sending) := match call with
    | txbuffer refusals context => (context, vbanSendTxbuffer refusals context)
    | t32Fragment refusals context => (context, vbanSendT32Fragment refusals context)
  if context.txport = 0 then [] else sending.sent.map fun p => (UInt16.ofNat context.txport, p)

/-- Where each of the datagrams goes, and `c_addr` afterwards. -/
def sendDatagrams : UInt32 × UInt16 → List (UInt16 × SentPacket) →
    List ((UInt32 × UInt16) × SentPacket) × (UInt32 × UInt16)
  | cAddr, [] => ([], cAddr)
  | cAddr, (txport, p) :: ps =>
    let sent := udpSend cAddr txport 0
    let rest := sendDatagrams sent.2 ps
    ((sent.1, p) :: rest.1, rest.2)

/-- The response that ends the polling: its address becomes `iptx`. -/
def Search.Taken (q : Search) (s : Scan) (source : UInt32 × UInt16) (datagram : List UInt8) :
    Prop :=
  IsTxt (min datagram.length vbanProtocolMaxSize) (s.received datagram) ∧ source.1 ∉ q.ips ∧
    ¬q.NamesServer ∧ q.Takes (s.received datagram)

/-- Once a receptor was found, datagrams come from its address only, or are taken themselves. -/
def Search.Undisturbed (q : Search) (s : Scan) : ScanEvent → Prop
  | .receive source datagram =>
    s.iptx ≠ 0 → source.1 = s.iptx ∨ q.Taken s source datagram
  | _ => True

variable {q : Search} {s t : Scan} {e : ScanEvent} {source cAddr : UInt32 × UInt16}
  {datagram : List UInt8} {events : List ScanEvent} {i : Nat}

/-- All of it goes to the address that the socket holds, and the socket keeps it. -/
theorem sendDatagrams_addr (cAddr : UInt32 × UInt16) (ps : List (UInt16 × SentPacket)) :
    (∀ d ∈ (sendDatagrams cAddr ps).1, d.1.1 = cAddr.1) ∧
      (sendDatagrams cAddr ps).2.1 = cAddr.1 := by
  induction ps generalizing cAddr with
  | nil =>
    constructor
    · intro d hd
      cases hd
    · rfl
  | cons p ps ih =>
    obtain ⟨hall, hkept⟩ := ih (udpSend cAddr p.1 0).2
    constructor
    · intro d hd
      rcases List.mem_cons.mp hd with rfl | hd
      · rfl
      · exact hall d hd
    · exact hkept

theorem receive_cAddr : (q.receive i source datagram s).cAddr = source := by
  simp only [Search.receive]
  split_ifs <;> rfl

theorem receive_iptx (hne : ¬q.Taken s source datagram) :
    (q.receive i source datagram s).iptx = s.iptx := by
  simp only [Search.receive]
  split_ifs with htxt hlocal hserver htakes
  · rfl
  · rfl
  · exact absurd ⟨htxt, hlocal, hserver, htakes⟩ hne
  · rfl
  · rfl
  · rfl

theorem receive_iptx_of_taken (htaken : q.Taken s source datagram) :
    (q.receive i source datagram s).iptx = source.1 := by
  obtain ⟨htxt, hlocal, hserver, htakes⟩ := htaken
  simp only [Search.receive, if_pos htxt, if_neg hlocal, if_neg hserver, if_pos htakes]

/-- The socket holds the address that was found. -/
def Scan.Bound (s : Scan) : Prop := s.iptx ≠ 0 → s.cAddr.1 = s.iptx

theorem bound_step (hs : ScanStep q s e t) (hquiet : q.Undisturbed s e) (hbound : s.Bound) :
    t.Bound := by
  cases hs with
  | found => exact hbound
  | again => exact hbound
  | ask => exact hbound
  | last => exact hbound
  | silence => exact hbound
  | @receive i source datagram hc =>
    intro hip
    rw [receive_cAddr]
    by_cases htaken : q.Taken s source datagram
    · exact (receive_iptx_of_taken htaken).symm
    · rw [receive_iptx htaken] at hip ⊢
      rcases hquiet hip with hsource | htaken'
      · exact hsource
      · exact absurd htaken' htaken

theorem receive_control (hc : s.control = .polling i) :
    (q.receive i source datagram s).control = .polling i ∨
      (q.receive i source datagram s).control = .interface (i + 1) := by
  simp only [Search.receive]
  split_ifs
  · exact Or.inl hc
  · exact Or.inl hc
  · exact Or.inr rfl
  · exact Or.inl hc
  · exact Or.inr rfl
  · exact Or.inl hc

/-- The scan returns with an address only. -/
theorem returned_step (hs : ScanStep q s e t) (hreturned : t.control = .returned) :
    t.iptx ≠ 0 := by
  cases hs with
  | found _ hip => exact hip
  | again => cases hreturned
  | ask => cases hreturned
  | last => cases hreturned
  | silence => cases hreturned
  | @receive i source datagram hc =>
    rcases receive_control hc with hcontrol | hcontrol
    · rw [hcontrol] at hreturned
      cases hreturned
    · rw [hcontrol] at hreturned
      cases hreturned

/-- If the scan is not disturbed once a receptor was found, all audio goes to that receptor. -/
theorem scan_destination_run
    (h : Run (fun s e t => ScanStep q s e t ∧ q.Undisturbed s e) (Scan.start cAddr) events s)
    (hreturned : s.control = .returned) (calls : List AudioCall) :
    let sent := sendDatagrams s.cAddr (calls.flatMap (·.datagrams))
    (∀ d ∈ sent.1, d.1.1 = s.iptx) ∧ sent.2.1 = s.iptx := by
  have hbound : s.Bound := by
    apply h.invariant (I := Scan.Bound)
    · intro s e t hbound hs
      exact bound_step hs.1 hs.2 hbound
    · intro hip
      exact absurd rfl hip
  have hip : s.iptx ≠ 0 := by
    cases h with
    | refl => cases hreturned
    | snoc _ ht => exact returned_step ht.1 hreturned
  rw [← hbound hip]
  exact sendDatagrams_addr s.cAddr _

/-- One packet of four bytes. -/
def onePacket : AudioCall := .txbuffer (fun _ _ => 0)
  { emitterDefaults with pacnum := 1, pacdatalen := 4, txbuf := [1, 2, 3, 4] }

theorem scan_destination_mixer :
    ∃ s, Run (ScanStep mixerSearch) (Scan.start (0, 0))
        (oneAnswer (chars "mixer") ++ [.proceed] ++ [.proceed]) s ∧
      (sendDatagrams s.cAddr ([onePacket].flatMap (·.datagrams))).2.1 = s.iptx := by
  have h : Run (fun s e t => ScanStep mixerSearch s e t ∧ mixerSearch.Undisturbed s e)
      (Scan.start (0, 0)) (oneAnswer (chars "mixer")) _ :=
    .snoc (.snoc (.snoc (.refl _) ⟨.again rfl rfl, trivial⟩) ⟨.ask rfl rfl, trivial⟩)
      ⟨.receive rfl, fun hip => absurd rfl hip⟩
  have hlast := Run.snoc (h.snoc ⟨.last (i := 2) (by decide +kernel) (by decide), trivial⟩)
    ⟨.found rfl (by decide +kernel), trivial⟩
  exact ⟨_, hlast.imp fun _ _ _ hs => hs.1, (scan_destination_run hlast rfl [onePacket]).2⟩

/-- The same search, with a second interface. -/
def wideSearch : Search :=
  { mixerSearch with
    ips := mixerSearch.ips ++ [0x0500000A]
    ips_le := by decide }

/-- `mixer` is found, but another receptor answers the request on the second interface: the audio
goes to that one. -/
theorem audio_sent_to_other :
    ∃ s, Run (ScanStep wideSearch) (Scan.start (0, 0))
        (oneAnswer (chars "mixer") ++ [.proceed] ++
          [.receive (0x1E01A8C0, htons 6980) (receptorAnswer (chars "other"))] ++ [.silence] ++
          [.proceed] ++ [.proceed]) s ∧
      s.control = .returned ∧ s.iptx = 0x1401A8C0 ∧
      (sendDatagrams s.cAddr onePacket.datagrams).1.map (·.1.1) = [0x1E01A8C0] := by
  have h : Run (ScanStep wideSearch) (Scan.start (0, 0)) (oneAnswer (chars "mixer")) _ :=
    .snoc (.snoc (.snoc (.refl _) (.again rfl rfl)) (.ask rfl rfl)) (.receive rfl)
  have hother := (h.snoc (.ask (i := 2) (by decide +kernel) rfl)).snoc
    (.receive rfl : ScanStep wideSearch _
      (.receive (0x1E01A8C0, htons 6980) (receptorAnswer (chars "other"))) _)
  have hend := ((hother.snoc (.silence (i := 2) (by decide +kernel))).snoc
    (.last rfl (by decide))).snoc (.found rfl (by decide +kernel))
  exact ⟨_, hend, rfl, by decide +kernel, by decide +kernel⟩

end Vban.Discovery
