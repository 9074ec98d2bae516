import Vban.Discovery.ReceptorInfo
import Vban.Library.Run
import Vban.Receive.RxThread

/-! `scan_receptor`: the emitter's search for a receptor, as steps between the answers it gets. -/
namespace Vban.Discovery

open Library

/-- Where `udp_send` sends to, and `c_addr` afterwards: the address is restored, the port is not. -/
def udpSend (cAddr : UInt32 × UInt16) (txport : UInt16) (txip : UInt32) :
    (UInt32 × UInt16) × (UInt32 × UInt16) :=
  let port := if txport ≠ 0 then htons txport else cAddr.2
  ((if txip ≠ 0 then txip else cAddr.1, port), (cAddr.1, port))

/-- The entries of `uint ips[16]`. -/
def ipsMax : Nat := 16

/-- What `scan_receptor` reads of the context and of the network interfaces. `getipaddresses` fills
`ips` without a look at its length: with more addresses the search overruns it. -/
structure Search where
  txStreamname : StreamName
  servername : List UInt8
  txport : UInt16
  ips : List UInt32
  ips_le : ips.length ≤ ipsMax

namespace Search

/-- `servername[0] != 0` -/
def NamesServer (q : Search) : Prop := q.servername.headD 0 ≠ 0

instance (q : Search) : Decidable q.NamesServer := inferInstanceAs (Decidable (_ ≠ _))

/-- What `strncmp` reads of `tx_streamname`: the name need not be terminated. -/
def txName (q : Search) : List UInt8 := cString (q.txStreamname.bytes ++ q.servername)

end Search

/-- Where the scan stands: before a turn of `while`, before interface `i`, or polling for it. -/
inductive ScanControl
  | head
  | interface (i : Nat)
  | polling (i : Nat)
  | returned
deriving DecidableEq

structure Scan where
  iptx : UInt32
  cAddr : UInt32 × UInt16
  info : VBanPacket
  control : ScanControl

inductive ScanEvent
  /-- The loops go on to the next poll or to the end. -/
  | proceed
  /-- `poll` or `udp_recv` finds nothing. -/
  | silence
  | receive (source : UInt32 × UInt16) (datagram : List UInt8)

def Scan.start (cAddr : UInt32 × UInt16) : Scan := ⟨0, cAddr, .zero, .head⟩

/-- The buffer after `udp_recv`. What lies behind the datagram stays as it was. -/
def Scan.received (s : Scan) (datagram : List UInt8) : VBanPacket :=
  s.info.store 0 vbanProtocolMaxSize VBanPacket.whole_le datagram

/-- A text packet of `received` bytes. -/
def IsTxt (received : Nat) (info : VBanPacket) : Prop :=
  vbanHeaderSize < received ∧ info.header.vban = vbanHeaderFourc ∧
    info.header.formatSR &&& vbanProtocolMask = vbanProtocolTxt

instance (received : Nat) (info : VBanPacket) : Decidable (IsTxt received info) :=
  inferInstanceAs (Decidable (_ ∧ _ ∧ _))

/-- The string in `rxname`, which is zeroed before it is looked up. -/
def rxname (info : VBanPacket) : List UInt8 :=
  cString (getValueByKey info.data (chars "streamnamerx") (List.replicate 32 0) 32).2

/-- `strncmp(tx_streamname, rxname, strlen(rxname)) == 0` -/
def Search.Takes (q : Search) (info : VBanPacket) : Prop := rxname info <+: q.txName

instance (q : Search) (info : VBanPacket) : Decidable (q.Takes info) :=
  inferInstanceAs (Decidable (_ <+: _))

/-- One turn of the polling loop for interface `i` that receives a datagram. -/
def Search.receive (q : Search) (i : Nat) (source : UInt32 × UInt16) (datagram : List UInt8)
    (s : Scan) : Scan :=
  let s := { s with info := s.received datagram, cAddr := source }
  if IsTxt (min datagram.length vbanProtocolMaxSize) s.info then
    if source.1 ∈ q.ips then s
    -- The branch for a server name is empty.
    else if q.NamesServer then s
    else if q.Takes s.info then { s with iptx := source.1, control := .interface (i + 1) }
    else s
  else if datagram = [] then { s with control := .interface (i + 1) }
  else s

inductive ScanStep (q : Search) : Scan → ScanEvent → Scan → Prop
  | found {s : Scan} : s.control = .head → s.iptx ≠ 0 →
      ScanStep q s .proceed { s with control := .returned }
  | again {s : Scan} : s.control = .head → s.iptx = 0 →
      ScanStep q s .proceed { s with control := .interface 1 }
  /-- The info request is sent to the broadcast address. -/
  | ask {s : Scan} {i : Nat} {ip : UInt32} : s.control = .interface i → q.ips[i]? = some ip →
      ScanStep q s .proceed { s with
        cAddr := (udpSend s.cAddr q.txport (ip ||| 0xFF000000)).2
        control := .polling i }
  | last {s : Scan} {i : Nat} : s.control = .interface i → q.ips.length ≤ i →
      ScanStep q s .proceed { s with control := .head }
  | silence {s : Scan} {i : Nat} : s.control = .polling i →
      ScanStep q s .silence { s with control := .interface (i + 1) }
  | receive {s : Scan} {i : Nat} {source : UInt32 × UInt16} {datagram : List UInt8} :
      s.control = .polling i →
      ScanStep q s (.receive source datagram) (q.receive i source datagram s)

/-- What a text gives for a key, at the first place where the key stands. -/
def advertised (key text : List UInt8) : Option (List UInt8) :=
  (firstPlace (keyStands key) none text).map fun rest => valueAt (rest.drop (key.length + 1))

/-- The text of a datagram, without what lay in the buffer before. -/
def ownText (datagram : List UInt8) : List UInt8 :=
  cString ((datagram.take vbanProtocolMaxSize).drop vbanHeaderSize)

namespace Search

variable (q : Search)

def wantedKey : List UInt8 := if q.NamesServer then chars "servername" else chars "streamnamerx"

def wantedName : List UInt8 := if q.NamesServer then cString q.servername else q.txName

/-- A text response from an address that is not a local one. -/
def Response (source : UInt32 × UInt16) (datagram : List UInt8) : Prop :=
  IsTxt datagram.length ((Scan.start source).received datagram) ∧ source.1 ∉ q.ips

instance (source : UInt32 × UInt16) (datagram : List UInt8) :
    Decidable (q.Response source datagram) := inferInstanceAs (Decidable (_ ∧ _))

/-- It advertises exactly what is looked for. -/
def Matching (source : UInt32 × UInt16) (datagram : List UInt8) : Prop :=
  q.Response source datagram ∧ advertised q.wantedKey (ownText datagram) = some q.wantedName

instance (source : UInt32 × UInt16) (datagram : List UInt8) :
    Decidable (q.Matching source datagram) := inferInstanceAs (Decidable (_ ∧ _))

/-- When a response is taken as it should be: with a server name only if it does not match, else if
the text ends within the buffer, a name is found that fits into `rxname` and is no proper prefix of
the wanted one, and what lay in the buffer before neither makes nor unmakes a match. -/
structure Clear (s : Scan) (source : UInt32 × UInt16) (datagram : List UInt8) : Prop where
  server : q.NamesServer → ¬q.Matching source datagram
  terminated : ¬q.NamesServer → 0 ∈ (s.received datagram).data
  name : ¬q.NamesServer → ∃ name,
    advertised q.wantedKey (cString (s.received datagram).data) = some name ∧ name.length < 32 ∧
      (name <+: q.wantedName → name = q.wantedName) ∧
      (name = q.wantedName ↔ advertised q.wantedKey (ownText datagram) = some q.wantedName)
  source_ne : q.Matching source datagram → source.1 ≠ 0

/-- The condition on a step. -/
def ClearStep (s : Scan) : ScanEvent → Prop
  | .receive source datagram => q.Response source datagram → q.Clear s source datagram
  | _ => True

end Search

variable {q : Search} {s t : Scan} {e : ScanEvent} {source : UInt32 × UInt16}
  {datagram : List UInt8} {events : List ScanEvent} {i : Nat}

theorem advertised_ne_zero {key text name : List UInt8}
    (h : advertised key (cString text) = some name) : ∀ c ∈ name, c ≠ 0 := by
  obtain ⟨rest, hrest, rfl⟩ := Option.map_eq_some_iff.mp h
  obtain ⟨before, hplace, -⟩ := firstPlace_spec hrest
  intro c hc
  apply ne_zero_of_mem_cString text
  rw [hplace.1]
  exact List.mem_append_right _ (List.mem_of_mem_drop (mem_of_mem_valueAt c hc))

theorem rxname_eq (info : VBanPacket) : rxname info =
    match advertised (chars "streamnamerx") (cString info.data) with
    | none => []
    | some name => if name.length < 32 then name else [] := by
  have hzero : cString (List.replicate 32 0) = [] := rfl
  rw [rxname, getValueByKey, if_neg (by decide), scanKey_eq]
  change cString (answer _ _ (advertised _ _)).2 = _
  cases hname : advertised (chars "streamnamerx") (cString info.data) with
  | none => exact hzero
  | some name =>
    have hname0 : ∀ c ∈ name, c ≠ 0 := advertised_ne_zero hname
    rw [answer]
    by_cases hlen : name.length < 32
    · rw [if_neg (by omega)]
      change cString (overwrite _ 0 (name ++ [0])) = if name.length < 32 then name else []
      rw [if_pos hlen, overwrite_zero, List.append_assoc]
      exact cString_append_zero hname0 _
    · rw [if_pos (by omega)]
      change cString _ = if name.length < 32 then name else []
      rw [if_neg hlen, hzero]

/-- The header of a received text packet is the datagram's own. -/
theorem isTxt_received (s : Scan) (source : UInt32 × UInt16) (datagram : List UInt8) :
    IsTxt (min datagram.length vbanProtocolMaxSize) (s.received datagram) ↔
      IsTxt datagram.length ((Scan.start source).received datagram) := by
  have hmax : vbanHeaderSize < vbanProtocolMaxSize := by decide
  have hheader : vbanHeaderSize < datagram.length →
      (s.received datagram).header = ((Scan.start source).received datagram).header := by
    intro hlen
    apply VBanPacket.header_congr
    have htake : ∀ p : VBanPacket,
        (p.store 0 vbanProtocolMaxSize VBanPacket.whole_le datagram).bytes.take vbanHeaderSize =
          datagram.take vbanHeaderSize := by
      intro p
      change (overwrite p.bytes 0 (datagram.take vbanProtocolMaxSize)).take vbanHeaderSize = _
      rw [overwrite_zero, List.take_append_of_le_length, List.take_take,
        Nat.min_eq_left hmax.le]
      rw [List.length_take]
      omega
    exact (htake _).trans (htake _).symm
  rw [IsTxt, IsTxt, Nat.lt_min]
  constructor
  · rintro ⟨⟨hlen, -⟩, hvban, hformat⟩
    rw [hheader hlen] at hvban hformat
    exact ⟨hlen, hvban, hformat⟩
  · rintro ⟨hlen, hvban, hformat⟩
    rw [← hheader hlen] at hvban hformat
    exact ⟨⟨hlen, hmax⟩, hvban, hformat⟩

/-- A clear response is taken iff it matches. -/
theorem takes_iff (hresponse : q.Response source datagram) (hserver : ¬q.NamesServer)
    (hclear : q.Clear s source datagram) :
    q.Takes (s.received datagram) ↔ q.Matching source datagram := by
  obtain ⟨name, hname, hlen, hwhole, hown⟩ := hclear.name hserver
  have hkey : q.wantedKey = chars "streamnamerx" := if_neg hserver
  have hwanted : q.wantedName = q.txName := if_neg hserver
  have hrxname : rxname (s.received datagram) = name := by
    rw [hkey] at hname
    rw [rxname_eq, hname]
    exact if_pos hlen
  rw [Search.Takes, hrxname, ← hwanted]
  constructor
  · intro hstarts
    exact ⟨hresponse, hown.mp (hwhole hstarts)⟩
  · intro hmatching
    rw [hown.mpr hmatching.2]

/-- What receiving a datagram does to the search, if the step is clear. -/
theorem receive_cases (hclear : q.Response source datagram → q.Clear s source datagram) :
    q.Matching source datagram ∧ (q.receive i source datagram s).iptx = source.1 ∧
        source.1 ≠ 0 ∧ (q.receive i source datagram s).control = .interface (i + 1) ∨
      ¬q.Matching source datagram ∧ (q.receive i source datagram s).iptx = s.iptx ∧
        ((q.receive i source datagram s).control = s.control ∨
          (q.receive i source datagram s).control = .interface (i + 1)) := by
  by_cases hresponse : q.Response source datagram
  · have htxt := (isTxt_received s source datagram).mpr hresponse.1
    have hforeign := hresponse.2
    have hiff := takes_iff (s := s) hresponse
    by_cases hserver : q.NamesServer
    · right
      refine ⟨(hclear hresponse).server hserver, ?_⟩
      simp only [Search.receive, if_pos htxt, if_neg hforeign, if_pos hserver, true_or, and_self]
    · by_cases htakes : q.Takes (s.received datagram)
      · have hmatching := (hiff hserver (hclear hresponse)).mp htakes
        left
        refine ⟨hmatching, ?_⟩
        simp only [Search.receive, if_pos htxt, if_neg hforeign, if_neg hserver, if_pos htakes]
        exact ⟨trivial, (hclear hresponse).source_ne hmatching, trivial⟩
      · right
        refine ⟨fun hmatching => htakes ((hiff hserver (hclear hresponse)).mpr hmatching), ?_⟩
        simp only [Search.receive, if_pos htxt, if_neg hforeign, if_neg hserver, if_neg htakes,
          true_or, and_self]
  · right
    refine ⟨fun hmatching => hresponse hmatching.1, ?_⟩
    by_cases htxt : IsTxt (min datagram.length vbanProtocolMaxSize) (s.received datagram)
    · have hlocal : source.1 ∈ q.ips := by
        by_contra hforeign
        exact hresponse ⟨(isTxt_received s source datagram).mp htxt, hforeign⟩
      simp only [Search.receive, if_pos htxt, if_pos hlocal, true_or, and_self]
    · simp only [Search.receive, if_neg htxt]
      split_ifs
      · exact ⟨rfl, Or.inr rfl⟩
      · exact ⟨rfl, Or.inl rfl⟩

def ScanEvent.isReceive : ScanEvent → Bool
  | receive _ _ => true
  | _ => false

/-- How many steps the scan takes to return once an address is set, besides what it receives. -/
def Scan.left (q : Search) (s : Scan) : Nat :=
  match s.control with
  | .head => 1
  | .interface i => 2 * (q.ips.length - i) + 2
  | .polling i => 2 * (q.ips.length - (i + 1)) + 3
  | .returned => 0

/-- Unless the scan has returned, it goes on without a datagram. -/
theorem exists_step (q : Search) (hcontrol : s.control ≠ .returned) :
    ∃ e t, e.isReceive = false ∧ ScanStep q s e t := by
  cases hc : s.control with
  | head =>
    by_cases hip : s.iptx = 0
    · exact ⟨_, _, rfl, .again hc hip⟩
    · exact ⟨_, _, rfl, .found hc hip⟩
  | interface i =>
    cases hip : q.ips[i]? with
    | none => exact ⟨_, _, rfl, .last hc (List.getElem?_eq_none_iff.mp hip)⟩
    | some ip => exact ⟨_, _, rfl, .ask hc hip⟩
  | polling i => exact ⟨_, _, rfl, .silence hc⟩
  | returned => exact absurd hc hcontrol

/-- A step leaves the address as it is, or takes that of a matching response. -/
theorem iptx_step (hs : ScanStep q s e t) (hclear : q.ClearStep s e) :
    t.iptx = s.iptx ∨ ∃ source datagram, e = .receive source datagram ∧
      q.Matching source datagram ∧ t.iptx = source.1 := by
  cases hs with
  | found => exact Or.inl rfl
  | again => exact Or.inl rfl
  | ask => exact Or.inl rfl
  | last => exact Or.inl rfl
  | silence => exact Or.inl rfl
  | receive =>
    rcases receive_cases hclear with ⟨hmatching, hip, -⟩ | ⟨-, hip, -⟩
    · exact Or.inr ⟨_, _, rfl, hmatching, hip⟩
    · exact Or.inl hip

/-- A matching response is taken, and the scan goes on to the next interface. -/
theorem matching_step (hs : ScanStep q s (.receive source datagram) t)
    (hclear : q.ClearStep s (.receive source datagram)) (hmatching : q.Matching source datagram) :
    t.iptx ≠ 0 ∧ t.left q ≤ 2 * q.ips.length + 2 := by
  cases hs with
  | receive hc =>
    rcases receive_cases hclear with ⟨-, hip, hne, hcontrol⟩ | ⟨hnot, -⟩
    · refine ⟨hip ▸ hne, ?_⟩
      simp only [Scan.left, hcontrol]
      omega
    · exact absurd hmatching hnot

/-- A set address stays set, and brings the end nearer. -/
theorem left_step (hs : ScanStep q s e t) (hclear : q.ClearStep s e) (hip : s.iptx ≠ 0) :
    t.iptx ≠ 0 ∧ [e].countP (!·.isReceive) + t.left q ≤ s.left q := by
  cases hs with
  | found hc => 
    refine ⟨hip, ?_⟩
    simp [Scan.left, hc, ScanEvent.isReceive]
  | again hc hzero => exact absurd hzero hip
  | @ask i ip hc hi =>
    refine ⟨hip, ?_⟩
    have hlt := (List.getElem?_eq_some_iff.mp hi).1
    simp [Scan.left, hc, ScanEvent.isReceive]
    omega
  | last hc hi =>
    refine ⟨hip, ?_⟩
    simp [Scan.left, hc, ScanEvent.isReceive]
  | silence hc =>
    refine ⟨hip, ?_⟩
    simp [Scan.left, hc, ScanEvent.isReceive]
    omega
  | @receive i source datagram hc =>
    have hcount : [ScanEvent.receive source datagram].countP (!·.isReceive) = 0 := rfl
    rw [hcount, Nat.zero_add]
    rcases receive_cases hclear with ⟨-, hip', hne, hcontrol⟩ | ⟨-, hip', hcontrol | hcontrol⟩
    · refine ⟨hip' ▸ hne, ?_⟩
      simp only [Scan.left, hc, hcontrol]
      omega
    · refine ⟨hip' ▸ hip, ?_⟩
      simp only [Scan.left, hcontrol]
      exact Nat.le_refl _
    · refine ⟨hip' ▸ hip, ?_⟩
      simp only [Scan.left, hc, hcontrol]
      omega

theorem left_run (h : Run (fun s e t => ScanStep q s e t ∧ q.ClearStep s e) s events t)
    (hip : s.iptx ≠ 0) :
    t.iptx ≠ 0 ∧ events.countP (!·.isReceive) + t.left q ≤ s.left q := by
  induction h with
  | refl => exact ⟨hip, by simp⟩
  | snoc _ ht ih =>
    obtain ⟨hip', hle⟩ := left_step ht.1 ht.2 ih.1
    refine ⟨hip', ?_⟩
    rw [List.countP_append]
    have := ih.2
    omega

/-- An address that is set was advertised in a matching response. -/
theorem iptx_run {cAddr : UInt32 × UInt16}
    (h : Run (fun s e t => ScanStep q s e t ∧ q.ClearStep s e) (Scan.start cAddr) events s) :
    s.iptx ≠ 0 → ∃ source datagram, .receive source datagram ∈ events ∧
      q.Matching source datagram ∧ s.iptx = source.1 := by
  generalize hstart : Scan.start cAddr = start at h
  induction h with
  | refl =>
    intro hip
    rw [← hstart] at hip
    exact absurd rfl hip
  | @snoc t u events e h ht ih =>
    intro hip
    rcases iptx_step ht.1 ht.2 with hsame | ⟨source, datagram, rfl, hmatching, hsource⟩
    · rw [hsame] at hip ⊢
      obtain ⟨source, datagram, hmem, hmatching⟩ := ih hip
      exact ⟨source, datagram, List.mem_append_left _ hmem, hmatching⟩
    · exact ⟨source, datagram, List.mem_concat_self, hmatching, hsource⟩

/-- If every response is clear: an address that is set comes from a matching response, and once one
was received an address is set, and the scan gets to its end without a further response, in at most
two steps for each interface and two more. -/
theorem scan_receptor_run {cAddr : UInt32 × UInt16}
    (h : Run (fun s e t => ScanStep q s e t ∧ q.ClearStep s e) (Scan.start cAddr) events s) :
    (s.iptx ≠ 0 → ∃ source datagram, .receive source datagram ∈ events ∧
      q.Matching source datagram ∧ s.iptx = source.1) ∧
    ∀ before source datagram after, events = before ++ .receive source datagram :: after →
      q.Matching source datagram →
        s.iptx ≠ 0 ∧ after.countP (!·.isReceive) ≤ 2 * q.ips.length + 2 ∧
          (s.control = .returned ∨ ∃ e t, e.isReceive = false ∧ ScanStep q s e t) := by
  refine ⟨iptx_run h, ?_⟩
  rintro before source datagram after rfl hmatching
  rw [← List.singleton_append] at h
  obtain ⟨t, -, h⟩ := h.of_append
  obtain ⟨u, htake, hrest⟩ := h.of_append
  have hstep := htake.step_of_single
  obtain ⟨hip, hbound⟩ := matching_step hstep.1 hstep.2 hmatching
  obtain ⟨hip', hleft⟩ := left_run hrest hip
  refine ⟨hip', by omega, ?_⟩
  by_cases hcontrol : s.control = .returned
  · exact Or.inl hcontrol
  · exact Or.inr (exists_step q hcontrol)

/-- What a receptor of the name `optarg` sends for an info request. -/
def receptorAnswer (optarg : List UInt8) : List UInt8 :=
  let info := vbanFillReceptorInfo vbanBitfmt32Float (streamnameOption optarg freshReceptor)
  info.bytes.take (vbanHeaderSize + (cString info.data).length)

/-- A search for `mixer`, from 192.168.1.10. -/
def mixerSearch : Search :=
  ⟨.strncpy (chars "mixer"), List.replicate 32 0, 6980, [0x0100007F, 0x0A01A8C0], by decide⟩

/-- One answer, from 192.168.1.20. -/
def oneAnswer (optarg : List UInt8) : List ScanEvent :=
  [.proceed, .proceed, .receive (0x1401A8C0, htons 6980) (receptorAnswer optarg)]

theorem scan_receptor_run_mixer :
    ∃ s, Run (ScanStep mixerSearch) (Scan.start (0, 0)) (oneAnswer (chars "mixer")) s ∧
      s.iptx ≠ 0 := by
  have hmatching : mixerSearch.Matching (0x1401A8C0, htons 6980)
      (receptorAnswer (chars "mixer")) := by
    decide +kernel
  have hclear : mixerSearch.Clear
      ⟨0, (0, htons 6980), .zero, .polling 1⟩ (0x1401A8C0, htons 6980)
      (receptorAnswer (chars "mixer")) := by
    refine ⟨?_, ?_, ?_, ?_⟩
    · intro h
      exact absurd h (by decide)
    · intro _
      decide +kernel
    · intro _
      exact ⟨chars "mixer", by decide +kernel, by decide, by decide, by decide +kernel⟩
    · intro _
      decide
  have h : Run (fun s e t => ScanStep mixerSearch s e t ∧ mixerSearch.ClearStep s e)
      (Scan.start (0, 0)) (oneAnswer (chars "mixer")) _ :=
    .snoc (.snoc (.snoc (.refl _) ⟨.again rfl rfl, trivial⟩) ⟨.ask rfl rfl, trivial⟩)
      ⟨.receive rfl, fun _ => hclear⟩
  exact ⟨_, h.imp fun _ _ _ hs => hs.1,
    ((scan_receptor_run h).2 [.proceed, .proceed] _ _ [] rfl hmatching).1⟩

/-- A receptor named `mix` is taken for `mixer`. -/
theorem mix_taken_for_mixer :
    ∃ s, Run (ScanStep mixerSearch) (Scan.start (0, 0)) (oneAnswer (chars "mix")) s ∧
      s.iptx ≠ 0 ∧ ¬∃ source datagram, .receive source datagram ∈ oneAnswer (chars "mix") ∧
        mixerSearch.Matching source datagram ∧ s.iptx = source.1 := by
  have h : Run (ScanStep mixerSearch) (Scan.start (0, 0)) (oneAnswer (chars "mix")) _ :=
    .snoc (.snoc (.snoc (.refl _) (.again rfl rfl)) (.ask rfl rfl)) (.receive rfl)
  refine ⟨_, h, ?_, ?_⟩
  · decide +kernel
  · rintro ⟨source, datagram, hmem, hmatching, -⟩
    have hmem : source = (0x1401A8C0, htons 6980) ∧ datagram = receptorAnswer (chars "mix") := by
      simpa [oneAnswer] using hmem
    rw [hmem.1, hmem.2] at hmatching
    exact absurd hmatching (by decide +kernel)

end Vban.Discovery
