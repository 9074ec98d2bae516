import Vban.Receive.Foreign
import Vban.Receive.Handed

/-! Which stream `rxThread` binds to, and what it then lets through. -/
namespace Vban

open Library

variable {R : Type}

/-- Neither the address nor the name of the source is missing. -/
def RxThread.Bound (s : RxThread R) : Prop :=
  s.context.iprx ≠ 0 ∧ ¬s.context.rxStreamname.Empty

def RxThread.SameBinding (s t : RxThread R) : Prop :=
  t.context.iprx = s.context.iprx ∧ t.context.rxStreamname = s.context.rxStreamname

/-- The input is a datagram with a VBAN packet from this address. -/
def RxInput.Brings (i : RxInput) (h : VBanHeader) (ip : UInt32) : Prop :=
  h.vban = vbanHeaderFourc ∧ ∃ payload port ts taken,
    i = .datagram (h.toBytes ++ payload) (some (ip, port)) ts taken

/-- What is known of the source agrees with the packet. -/
def RxThread.Agrees (s : RxThread R) (h : VBanHeader) (ip : UInt32) : Prop :=
  (s.context.iprx ≠ 0 → s.context.iprx = ip) ∧
    (¬s.context.rxStreamname.Empty → s.context.rxStreamname.Strncmp h.streamname)

/-- What was missing comes from an audio or serial packet that agrees with what was known. -/
def RxThread.FillsRightly (s : RxThread R) (i : RxInput) (t : RxThread R) : Prop :=
  s.SameBinding t ∨ ∃ h ip, i.Brings h ip ∧
    (h.protocol = vbanProtocolAudio ∨ h.protocol = vbanProtocolSerial) ∧ s.Agrees h ip ∧
    t.context.iprx = ip ∧ t.context.rxStreamname.Strncmp h.streamname ∧
    (¬s.context.rxStreamname.Empty → t.context.rxStreamname = s.context.rxStreamname)

/-- A bound thread passes audio to the handler, whose name test accepts it, exactly if it comes
from the bound address under the bound name. -/
def RxThread.PassesRightly (s : RxThread R) (i : RxInput) : Prop :=
  s.Bound → ∀ h ip, i.Brings h ip → h.protocol = vbanProtocolAudio →
    ((∃ call, s.handed i = some call ∧
        call.packet.header.streamname.Strncmp s.context.rxStreamname) ↔
      s.context.iprx = ip ∧ h.streamname.Strncmp s.context.rxStreamname)

/-- The thread with what the input leaves in its buffer. -/
def RxThread.loaded (s : RxThread R) : RxInput → RxThread R
  | .datagram bytes addr ts _ => s.received bytes addr ts
  | .recvError _ => s
  | .pipe header _ ts => s.headerRead header ts

/-- No part of the binding speaks against the packet in the buffer. -/
def RxThread.Open (s : RxThread R) : Prop :=
  (s.context.iprx = 0 ∨ s.context.iprx = s.cAddr.1) ∧
    (s.context.rxStreamname.Empty ∨ s.context.rxStreamname = s.packet.header.streamname)

/-- The packet in the buffer adds to the binding. -/
def RxThread.Completes (s : RxThread R) : Prop :=
  (s.packet.protocol = vbanProtocolAudio ∨ s.packet.protocol = vbanProtocolSerial) ∧ s.Open ∧
    (s.context.iprx = 0 ∧ s.cAddr.1 ≠ 0 ∨
      s.context.rxStreamname.Empty ∧ ¬s.packet.header.streamname.Empty)

/-- The buffer adds to the binding though no VBAN packet was received. -/
def RxThread.Misfills (s : RxThread R) (i : RxInput) : Prop :=
  (¬∃ h ip, i.Brings h ip) ∧ (s.loaded i).Completes

/-- Audio comes from the bound source, under the bound name with other bytes behind its end. -/
def RxThread.Overlooks (s : RxThread R) (i : RxInput) : Prop :=
  s.Bound ∧ ∃ h ip, i.Brings h ip ∧ h.protocol = vbanProtocolAudio ∧ s.context.iprx = ip ∧
    h.streamname.Strncmp s.context.rxStreamname ∧ h.streamname ≠ s.context.rxStreamname

variable {env : RxEnv R} {s t u : RxThread R} {i : RxInput} {packetlen : Int} {ip : UInt32}
  {taken : List Nat} {h : VBanHeader} {is : List (Option RxInput)}

theorem handleAndClear_binding (hr : handleAndClear env s packetlen ip taken = .ok t) :
    s.SameBinding t := by
  obtain ⟨r, hpacket, ht⟩ := bind_eq_ok.mp hr
  obtain rfl := Except.ok.inj ht
  obtain ⟨hip, hname, -⟩ := (vbanRxHandlePacket_cases hpacket).binding
  exact ⟨hip, hname⟩

/-- What an audio or serial packet makes of the binding. -/
theorem bindOrHandle_binding (hpadded : s.context.rxStreamname.Padded)
    (hr : bindOrHandle env s packetlen s.cAddr.1 taken = .ok t) :
    s.Open ∧ t.context.iprx = s.cAddr.1 ∧
        t.context.rxStreamname = (if s.context.rxStreamname.Empty then
          .strncpy s.packet.header.streamname.bytes else s.context.rxStreamname) ∨
      ¬s.Open ∧ s.SameBinding t := by
  simp only [bindOrHandle] at hr
  split_ifs at hr with hmatch hnone hname hip
  · obtain ⟨hip, hname⟩ := handleAndClear_binding hr
    refine Or.inl ⟨⟨Or.inr hmatch.1, Or.inr hmatch.2⟩, hip.trans hmatch.1, hname.trans ?_⟩
    split_ifs
    · rw [← hmatch.2, hpadded]
    · rfl
  · obtain rfl := Except.ok.inj hr
    exact Or.inl ⟨⟨Or.inl hnone.1, Or.inl hnone.2⟩, rfl, (if_pos hnone.2).symm⟩
  · obtain rfl := Except.ok.inj hr
    exact Or.inl ⟨⟨Or.inr hname.1, Or.inl hname.2⟩, hname.1, (if_pos hname.2).symm⟩
  · obtain rfl := Except.ok.inj hr
    have hnamed : ¬s.context.rxStreamname.Empty := fun hempty => hnone ⟨hip.1, hempty⟩
    exact Or.inl ⟨⟨Or.inl hip.1, Or.inr hip.2⟩, rfl, (if_neg hnamed).symm⟩
  · obtain rfl := Except.ok.inj hr
    refine Or.inr ⟨?_, rfl, rfl⟩
    rintro ⟨hzero | hsame, hempty | hequal⟩
    · exact hnone ⟨hzero, hempty⟩
    · exact hip ⟨hzero, hequal⟩
    · exact hname ⟨hsame, hempty⟩
    · exact hmatch ⟨hsame, hequal⟩

/-- What a UDP turn makes of the binding, by what is in the buffer. -/
theorem dispatchUdp_binding (hpadded : s.context.rxStreamname.Padded)
    (hr : dispatchUdp env s packetlen taken = .ok t) :
    (s.packet.protocol = vbanProtocolAudio ∨ s.packet.protocol = vbanProtocolSerial) ∧ s.Open ∧
        t.context.iprx = s.cAddr.1 ∧ t.context.rxStreamname =
          (if s.context.rxStreamname.Empty then .strncpy s.packet.header.streamname.bytes
            else s.context.rxStreamname) ∨
      ¬s.Completes ∧ s.SameBinding t := by
  simp only [dispatchUdp] at hr
  split_ifs at hr with hprotocol
  · rcases bindOrHandle_binding (s := s.setAnsport) hpadded hr with
      ⟨hopen, hbinding⟩ | ⟨hnot, hsame⟩
    · exact Or.inl ⟨hprotocol, hopen, hbinding⟩
    · exact Or.inr ⟨fun hcompletes => hnot hcompletes.2.1, hsame⟩
  · exact Or.inr ⟨fun hcompletes => hprotocol hcompletes.1,
      handleAndClear_binding (s := s.setAnsport) hr⟩

/-- A binding that is open to the packet stays what it is exactly if the packet adds nothing. -/
theorem RxThread.Open.completes_iff (hopen : s.Open) (hpadded : s.context.rxStreamname.Padded)
    (hprotocol : s.packet.protocol = vbanProtocolAudio ∨ s.packet.protocol = vbanProtocolSerial) :
    ¬s.Completes ↔ s.cAddr.1 = s.context.iprx ∧
      (if s.context.rxStreamname.Empty then .strncpy s.packet.header.streamname.bytes
        else s.context.rxStreamname) = s.context.rxStreamname := by
  have hip : ¬(s.context.iprx = 0 ∧ s.cAddr.1 ≠ 0) ↔ s.cAddr.1 = s.context.iprx := by
    rcases hopen.1 with hzero | hsame
    · rw [hzero, and_iff_right rfl, not_not]
    · rw [hsame]
      exact iff_of_true (fun h => h.2 h.1) rfl
  have hname : ¬(s.context.rxStreamname.Empty ∧ ¬s.packet.header.streamname.Empty) ↔
      (if s.context.rxStreamname.Empty then .strncpy s.packet.header.streamname.bytes
        else s.context.rxStreamname) = s.context.rxStreamname := by
    by_cases hempty : s.context.rxStreamname.Empty
    · rw [if_pos hempty, and_iff_right hempty, not_not, hpadded.eq_of_empty hempty]
      exact (StreamName.empty_strncpy_iff _).symm
    · rw [if_neg hempty]
      exact iff_of_true (fun h => hempty h.1) rfl
  rw [Completes, and_iff_right hprotocol, and_iff_right hopen, not_or, hip, hname]

/-- A UDP turn goes on with what the input leaves in the buffer. -/
theorem receive_udp (s : RxThread R) (hudp : i.Udp) : s.SameBinding (s.loaded i) ∧
    ∃ packetlen taken, s.handed i = (s.loaded i).handedUdp packetlen ∧
      ∀ env, s.receive env i = dispatchUdp env (s.loaded i) packetlen taken := by
  cases i with
  | datagram bytes addr ts taken => exact ⟨⟨rfl, rfl⟩, _, taken, rfl, fun _ => rfl⟩
  | recvError taken => exact ⟨⟨rfl, rfl⟩, _, taken, rfl, fun _ => rfl⟩
  | pipe => exact hudp.elim

theorem RxInput.Brings.loaded (hb : i.Brings h ip) :
    (s.loaded i).packet.header = h ∧ (s.loaded i).cAddr.1 = ip := by
  obtain ⟨-, payload, port, ts, taken, rfl⟩ := hb
  exact ⟨s.packet.header_received h payload, rfl⟩

/-- Audio is passed on exactly if its address and its name field are those that are bound. -/
theorem RxInput.Brings.handed_audio (hb : i.Brings h ip) (haudio : h.protocol = vbanProtocolAudio) :
    (s.context.iprx = ip ∧ s.context.rxStreamname = h.streamname →
        ∃ call, s.handed i = some call ∧ call.packet.header = h) ∧
      (¬(s.context.iprx = ip ∧ s.context.rxStreamname = h.streamname) → s.handed i = none) := by
  have hudp : i.Udp := by
    obtain ⟨-, payload, port, ts, taken, rfl⟩ := hb
    exact trivial
  obtain ⟨hloaded, packetlen, -, hhanded, -⟩ := receive_udp s hudp
  obtain ⟨hheader, haddr⟩ := hb.loaded (s := s)
  rw [hhanded, RxThread.handedUdp, hloaded.1, hloaded.2, VBanPacket.protocol, hheader, haddr]
  constructor
  · intro hmatch
    exact ⟨_, if_neg fun hnot => hnot.2 hmatch, hheader⟩
  · intro hnot
    exact if_pos ⟨Or.inl haudio, hnot⟩

/-- A packet that the binding is open to fills it rightly. -/
theorem fillsRightly_of_open (hbrings : i.Brings h ip) (hsame : s.SameBinding (s.loaded i))
    (hprotocol : (s.loaded i).packet.protocol = vbanProtocolAudio ∨
      (s.loaded i).packet.protocol = vbanProtocolSerial) (hopen : (s.loaded i).Open)
    (hip : t.context.iprx = (s.loaded i).cAddr.1)
    (hname : t.context.rxStreamname = if (s.loaded i).context.rxStreamname.Empty then
      .strncpy (s.loaded i).packet.header.streamname.bytes
        else (s.loaded i).context.rxStreamname) : s.FillsRightly i t := by
  obtain ⟨hheader, haddr⟩ := hbrings.loaded (s := s)
  obtain ⟨hsource, hnames⟩ := hopen
  rw [VBanPacket.protocol, hheader] at hprotocol
  rw [haddr] at hip
  rw [hsame.1, haddr] at hsource
  rw [hsame.2, hheader] at hnames hname
  refine Or.inr ⟨h, ip, hbrings, hprotocol, ⟨?_, ?_⟩, hip, ?_, ?_⟩
  · exact fun hne => hsource.resolve_left hne
  · intro hne
    rw [hnames.resolve_left hne]
    rfl
  · rw [hname]
    split_ifs with hempty
    · exact StreamName.strncmp_strncpy _
    · rw [hnames.resolve_left hempty]
      rfl
  · exact fun hne => hname.trans (if_neg hne)

/-- A turn fills the binding rightly exactly if no other bytes fill it. -/
theorem fillsRightly_iff (hpadded : s.context.rxStreamname.Padded) (hudp : i.Udp)
    (hr : s.receive env i = .ok t) : s.FillsRightly i t ↔ ¬s.Misfills i := by
  obtain ⟨hloaded, packetlen, taken, -, hreceive⟩ := receive_udp s hudp
  have hturn := (hreceive env).symm.trans hr
  rw [← hloaded.2] at hpadded
  have hkept : (s.loaded i).SameBinding t ↔ s.SameBinding t := by
    rw [RxThread.SameBinding, hloaded.1, hloaded.2]
    rfl
  rcases dispatchUdp_binding hpadded hturn with ⟨hprotocol, hopen, hip, hname⟩ | ⟨hnot, hsame⟩
  · have hsame_iff : s.SameBinding t ↔ ¬(s.loaded i).Completes := by
      rw [hopen.completes_iff hpadded hprotocol, ← hip, ← hname]
      exact hkept.symm
    constructor
    · rintro (hsame | ⟨h, ip, hbrings, -⟩) ⟨hnothing, hcompletes⟩
      · exact hsame_iff.mp hsame hcompletes
      · exact hnothing ⟨h, ip, hbrings⟩
    · intro hnot
      by_cases hbrings : ∃ h ip, i.Brings h ip
      · obtain ⟨h, ip, hbrings⟩ := hbrings
        exact fillsRightly_of_open hbrings hloaded hprotocol hopen hip hname
      · exact Or.inl (hsame_iff.mpr fun hcompletes => hnot ⟨hbrings, hcompletes⟩)
  · exact iff_of_true (Or.inl (hkept.mp hsame)) fun h => hnot h.2

/-- A turn passes audio on rightly exactly if it overlooks none. -/
theorem passesRightly_iff : s.PassesRightly i ↔ ¬s.Overlooks i := by
  have hpassed : ∀ h ip, i.Brings h ip → h.protocol = vbanProtocolAudio →
      ((∃ call, s.handed i = some call ∧
          call.packet.header.streamname.Strncmp s.context.rxStreamname) ↔
        s.context.iprx = ip ∧ s.context.rxStreamname = h.streamname) := by
    intro h ip hbrings haudio
    obtain ⟨hsome, hnone⟩ := hbrings.handed_audio (s := s) haudio
    constructor
    · rintro ⟨call, hcall, -⟩
      by_contra hnot
      rw [hnone hnot] at hcall
      cases hcall
    · intro hmatch
      obtain ⟨call, hcall, hheader⟩ := hsome hmatch
      refine ⟨call, hcall, ?_⟩
      rw [hheader, hmatch.2]
      rfl
  constructor
  · rintro hpasses ⟨hbound, h, ip, hbrings, haudio, hip, hequal, hother⟩
    obtain ⟨-, hname⟩ := (hpassed h ip hbrings haudio).mp
      ((hpasses hbound h ip hbrings haudio).mpr ⟨hip, hequal⟩)
    exact hother hname.symm
  · intro hnot hbound h ip hbrings haudio
    rw [hpassed h ip hbrings haudio]
    apply and_congr_right
    intro hip
    constructor
    · rintro hname
      rw [hname]
      rfl
    · intro hequal
      by_contra hother
      exact hnot ⟨hbound, h, ip, hbrings, haudio, hip, hequal, Ne.symm hother⟩

/-- What holds between two turns in UDP mode. -/
structure RxThread.UdpInv (s : RxThread R) : Prop where
  padded : s.context.rxStreamname.Padded
  rxport_ne : s.context.rxport ≠ 0

theorem dispatchUdp_rxport (hr : dispatchUdp env s packetlen taken = .ok t) :
    t.context.rxport = s.context.rxport := by
  have hhandle : ∀ {s : RxThread R},
      handleAndClear env s packetlen s.cAddr.1 taken = .ok t →
        t.context.rxport = s.context.rxport := by
    intro s hr
    obtain ⟨r, hpacket, ht⟩ := bind_eq_ok.mp hr
    obtain rfl := Except.ok.inj ht
    exact (vbanRxHandlePacket_cases hpacket).binding.2.2.1
  simp only [dispatchUdp, bindOrHandle] at hr
  split_ifs at hr
  · exact hhandle (s := s.setAnsport) hr
  · obtain rfl := Except.ok.inj hr
    rfl
  · obtain rfl := Except.ok.inj hr
    rfl
  · obtain rfl := Except.ok.inj hr
    rfl
  · obtain rfl := Except.ok.inj hr
    rfl
  · exact hhandle (s := s.setAnsport) hr

/-- Neither a turn nor the other threads change what is bound. -/
theorem udpInv_step {l : Option RxInput} (hs : s.UdpInv) (hstep : RxThreadStep env s l t) :
    t.UdpInv ∧ (s.Bound → s.SameBinding t) := by
  cases hstep with
  | @receive _ i hmode hr =>
    obtain ⟨hloaded, packetlen, taken, -, hreceive⟩ := receive_udp s (hmode.mpr hs.rxport_ne)
    have hturn := (hreceive env).symm.trans hr
    have hpadded := hs.padded
    have hrxport : (s.loaded i).context.rxport = s.context.rxport := by
      cases i with
      | datagram | recvError | pipe => rfl
    have hport := (dispatchUdp_rxport hturn).trans hrxport
    rw [← hloaded.2] at hpadded
    rcases dispatchUdp_binding hpadded hturn with ⟨-, hopen, hip, hname⟩ | ⟨-, hip, hname⟩
    · refine ⟨⟨?_, hport ▸ hs.rxport_ne⟩, fun hbound => ?_⟩
      · rw [hname]
        split_ifs
        · exact StreamName.padded_strncpy _
        · exact hpadded
      · obtain ⟨hsource, -⟩ := hopen
        rw [hloaded.1, or_iff_right hbound.1] at hsource
        rw [hloaded.2, if_neg hbound.2] at hname
        exact ⟨hip.trans hsource.symm, hname⟩
    · exact ⟨⟨hname ▸ hpadded, hport ▸ hs.rxport_ne⟩,
        fun _ => ⟨hip.trans hloaded.1, hname.trans hloaded.2⟩⟩
  | other h =>
    exact ⟨⟨h.rxStreamname_eq ▸ hs.padded, h.rxport_eq ▸ hs.rxport_ne⟩,
      fun _ => ⟨h.iprx_eq, h.rxStreamname_eq⟩⟩

theorem udpInv_run (hs : s.UdpInv) (hrun : Run (RxThreadStep env) s is t) : t.UdpInv :=
  hrun.invariant (fun _ _ _ hs hstep => (udpInv_step hs hstep).1) hs

/-- What is bound stays bound. -/
theorem bound_run (hs : s.UdpInv) (hbound : s.Bound) (hrun : Run (RxThreadStep env) s is t) :
    s.SameBinding t := by
  induction hrun with
  | refl => exact ⟨rfl, rfl⟩
  | @snoc t u _ _ hrun hstep ih =>
    have hbound' : t.Bound := by
      rw [RxThread.Bound, ih.1, ih.2]
      exact hbound
    obtain ⟨hip, hname⟩ := (udpInv_step (udpInv_run hs hrun) hstep).2 hbound'
    exact ⟨hip.trans ih.1, hname.trans ih.2⟩

/-- A thread that does not pass its packet on makes a turn. -/
theorem exists_unhanded_step (env : RxEnv R) (hport : s.context.rxport ≠ 0) (hudp : i.Udp)
    (hnone : s.handed i = none) : ∃ t, RxThreadStep env s (some i) t := by
  obtain ⟨-, packetlen, taken, hhanded, hreceive⟩ := receive_udp s hudp
  obtain ⟨t, ht, -⟩ := dispatchUdp_not_handed env taken (hhanded.symm.trans hnone)
  exact ⟨t, .receive (iff_of_true hudp hport) ((hreceive env).trans ht)⟩

/-- A packet that adds to the binding is not passed on. -/
theorem RxThread.Completes.handedUdp_eq (h : s.Completes) : s.handedUdp packetlen = none := by
  obtain ⟨hprotocol, -, hadds⟩ := h
  refine if_pos ⟨hprotocol, ?_⟩
  intro hmatch
  rcases hadds with ⟨hzero, hsource⟩ | ⟨hempty, hnamed⟩
  · exact hsource (hmatch.1.symm.trans hzero)
  · exact hnamed (hmatch.2 ▸ hempty)

/-- For any `-i` and `-s`: what is bound stays bound, and a turn fills the binding and passes audio
on rightly exactly if no other bytes fill it and no audio is overlooked. -/
theorem binding_exact_iff {s₀ : RxThread R} {optarg : List UInt8}
    (hname : s₀.context.rxStreamname = .strncpy optarg) (hport : s₀.context.rxport ≠ 0)
    (hrun : Run (RxThreadStep env) s₀ is s) :
    (s.Bound → ∀ js u, Run (RxThreadStep env) s js u → s.SameBinding u) ∧
      ∀ i, i.Udp → ((∀ t, RxThreadStep env s (some i) t → s.FillsRightly i t) ∧
        s.PassesRightly i ↔ ¬s.Misfills i ∧ ¬s.Overlooks i) := by
  have hs : s.UdpInv := udpInv_run ⟨hname ▸ StreamName.padded_strncpy _, hport⟩ hrun
  refine ⟨fun hbound js u hrun' => bound_run hs hbound hrun', fun i hudp => ?_⟩
  refine and_congr ⟨fun hfills hmisfills => ?_, fun hnot t hstep => ?_⟩ passesRightly_iff
  · obtain ⟨-, packetlen, -, hhanded, -⟩ := receive_udp s hudp
    obtain ⟨t, hstep⟩ := exists_unhanded_step env hs.rxport_ne hudp
      (hhanded.trans hmisfills.2.handedUdp_eq)
    have hright := hfills t hstep
    cases hstep with
    | receive _ hr => exact (fillsRightly_iff hs.padded hudp hr).mp hright hmisfills
  · cases hstep with
    | receive _ hr => exact (fillsRightly_iff hs.padded hudp hr).mpr hnot

/-- The name `A` with a byte behind its end. -/
def trailingName : StreamName := ⟨[0x41, 0, 1] ++ List.replicate 13 0, by decide⟩

def trailingHeader : VBanHeader := { audioHeader 3 0 0 1 1 with streamname := trailingName }

theorem headerInput_brings (h : VBanHeader) (hvban : h.vban = vbanHeaderFourc) :
    (headerInput h).Brings h 0x0100007F := by
  refine ⟨hvban, [], 6980, ⟨1, 0⟩, [], ?_⟩
  rw [List.append_nil]
  rfl

/-- An unbound receptor takes over what a header brings. -/
theorem exists_first_binding (h : VBanHeader) (hvban : h.vban = vbanHeaderFourc)
    (haudio : h.protocol = vbanProtocolAudio) :
    ∃ t, RxThreadStep silentEnv.toRxEnv unboundReceptor (some (headerInput h)) t ∧
      t.context.iprx = 0x0100007F ∧ t.context.rxStreamname = .strncpy h.streamname.bytes := by
  have hbrings := headerInput_brings h hvban
  obtain ⟨hheader, haddr⟩ := hbrings.loaded (s := unboundReceptor)
  have hunhanded : unboundReceptor.handed (headerInput h) = none := by
    apply (hbrings.handed_audio haudio).2
    intro hmatch
    exact absurd hmatch.1 (by decide)
  have hudp : (headerInput h).Udp := trivial
  obtain ⟨t, ht⟩ := exists_unhanded_step silentEnv.toRxEnv (by decide) hudp hunhanded
  refine ⟨t, ht, ?_⟩
  cases ht with
  | receive _ hr =>
    obtain ⟨-, packetlen, taken, -, hreceive⟩ := receive_udp unboundReceptor hudp
    have hturn := (hreceive _).symm.trans hr
    rcases dispatchUdp_binding (s := unboundReceptor.loaded (headerInput h))
      (StreamName.padded_strncpy []) hturn with ⟨-, -, hip, hname⟩ | ⟨hcompletes, -⟩
    · rw [hheader] at hname
      exact ⟨hip.trans haddr, hname⟩
    · have hempty : (StreamName.strncpy []).Empty := by decide
      have hprotocol :
          (unboundReceptor.loaded (headerInput h)).packet.protocol = vbanProtocolAudio := by
        rw [VBanPacket.protocol, hheader]
        exact haudio
      refine absurd ⟨Or.inl hprotocol, ⟨Or.inl rfl, Or.inl hempty⟩, Or.inl ⟨rfl, ?_⟩⟩ hcompletes
      rw [haddr]
      decide

/-- The first packet of a source binds an unbound receptor to it. -/
theorem binding_exact_first : ∃ t,
    RxThreadStep silentEnv.toRxEnv unboundReceptor (some (headerInput (audioHeader 3 0 0 1 1))) t ∧
      unboundReceptor.FillsRightly (headerInput (audioHeader 3 0 0 1 1)) t ∧ t.Bound := by
  obtain ⟨t, hstep, hip, hname⟩ := exists_first_binding (audioHeader 3 0 0 1 1) rfl (by decide)
  have hunnamed : unboundReceptor.context.rxStreamname = .strncpy [] := rfl
  have hrun : Run (RxThreadStep silentEnv.toRxEnv) unboundReceptor [] unboundReceptor := .refl _
  obtain ⟨-, hlaw⟩ := binding_exact_iff hunnamed (by decide) hrun
  have hbrings := headerInput_brings (audioHeader 3 0 0 1 1) rfl
  obtain ⟨hfills, -⟩ := (hlaw (headerInput (audioHeader 3 0 0 1 1)) trivial).mpr
    ⟨fun h => h.1 ⟨_, _, hbrings⟩, fun h => h.1.1 rfl⟩
  refine ⟨t, hstep, hfills t hstep, ?_⟩
  rw [RxThread.Bound, hip, hname]
  decide

/-- A sender whose name field is not padded with zeros is bound, and then overlooked. -/
theorem bound_sender_overlooked : ∃ s t,
    Run (RxThreadStep silentEnv.toRxEnv) unboundReceptor [some (headerInput trailingHeader)] s ∧
      RxThreadStep silentEnv.toRxEnv s (some (headerInput trailingHeader)) t ∧ s.Bound ∧
        ¬s.PassesRightly (headerInput trailingHeader) := by
  obtain ⟨s, hstep, hip, hname⟩ := exists_first_binding trailingHeader rfl (by decide)
  have hrun := Run.single hstep
  have hs := udpInv_run ⟨StreamName.padded_strncpy [], by decide⟩ hrun
  have hbrings := headerInput_brings trailingHeader rfl
  have hbound : s.Bound := by
    rw [RxThread.Bound, hip, hname]
    decide
  have hother : s.context.rxStreamname ≠ trailingHeader.streamname := by
    rw [hname]
    decide
  have hunhanded : s.handed (headerInput trailingHeader) = none := by
    apply (hbrings.handed_audio (by decide)).2
    intro hmatch
    exact hother hmatch.2
  have hudp : (headerInput trailingHeader).Udp := trivial
  obtain ⟨t, ht⟩ := exists_unhanded_step silentEnv.toRxEnv hs.rxport_ne hudp hunhanded
  have hoverlooked : s.Overlooks (headerInput trailingHeader) := by
    refine ⟨hbound, trailingHeader, 0x0100007F, hbrings, by decide, hip, ?_, hother.symm⟩
    rw [hname]
    exact (StreamName.strncmp_strncpy _).symm
  exact ⟨s, t, hrun, ht, hbound, fun hpasses => passesRightly_iff.mp hpasses hoverlooked⟩

end Vban
