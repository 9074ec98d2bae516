import Vban.Multistream.OwnDatagrams

/-! The way of an emitter's packet over the duplex server to the client that its passport names. -/
namespace Vban.Multistream

open Library
open Discovery (chars udpSend)

/-- The packet carries the client's passport behind its audio, and the server sends the header and
the audio to the client, wherever it got the packet from. -/
structure Server.PassesOn (s : Server) (client : Client) (p : SentPacket) : Prop where
  inside : p.payload.length ≤ vbanDataMaxSize
  recognised : ∀ source, let r := s.received (.datagram (p.header.toBytes ++ p.payload) source)
    r.packetlen = r.rightlen + 6
  relayed : ∃ audio, p.payload = audio ++ client.xbytes.toList ∧ ∀ source rx tx, ∃ t,
    s.receive (.datagram (p.header.toBytes ++ p.payload) source) rx tx =
      .ok (.relayed (client.ip, htons client.port) (p.header.toBytes ++ audio), t)

/-- The emitter sends whole periods to its own host, with a passport that `parse_passport` made of
the client's address. -/
structure SendsPassport (r : EmitterRun) (locals : PassportLocals) (client : Client) : Prop where
  txport_ne : r.o.txport ≠ 0
  iptx_eq : r.o.iptx = 0x0100007F
  xlen_eq : r.o.xlen = 6
  accepted : parsePassport locals client.passport = some r.o.xbytes
  whole : r.o.slicesAt r.rate r.timer = false
  nbinputs_pos : 1 ≤ r.o.nbinputs

variable {s : Server} {client : Client} {p : SentPacket} {r : EmitterRun} {l : Transmission}
  {locals : PassportLocals}

theorem SendsPassport.xbytes_eq (hr : SendsPassport r locals client) :
    r.o.xbytes = client.xbytes := by
  have hparsed : parsePassport locals client.passport = some client.xbytes :=
    parsePassport_dotted locals _ _ _ _ _
  exact Option.some.inj (hr.accepted.symm.trans hparsed)

theorem SendsPassport.trailerAt_eq (hr : SendsPassport r locals client) :
    r.o.trailerAt r.rate r.timer = 6 := by
  rw [VbanTxContext.trailerAt, hr.whole, if_neg Bool.false_ne_true, VbanTxContext.passportLength,
    if_pos ⟨Or.inr hr.iptx_eq, hr.xlen_eq⟩]

/-- The first four bytes of a passport are the address as it stands in memory. -/
theorem xbytes_toList (client : Client) : client.xbytes.toList = leBytes 4 client.ip.toNat ++
    [UInt8.ofNat (client.port.toNat / 256), UInt8.ofNat client.port.toNat] := by
  simp only [Client.xbytes, Client.ipByte, leBytes, Nat.div_div_eq_div_mul, Nat.pow_zero,
    Nat.div_one]
  rfl

/-- The other two are the port in network order. -/
theorem htons_passport (port : UInt16) : htons (UInt16.ofNat
    (leNat [UInt8.ofNat (port.toNat / 256), UInt8.ofNat port.toNat])) = port := by
  have hport := port.toNat_lt
  have hraw : leNat [UInt8.ofNat (port.toNat / 256), UInt8.ofNat port.toNat] =
      port.toNat / 256 + 256 * (port.toNat % 256) := by
    simp only [leNat, UInt8.toNat_ofNat']
    omega
  apply UInt16.toNat_inj.mp
  rw [toNat_htons, UInt16.toNat_ofNat', hraw]
  have hsplit := Nat.div_add_mod port.toNat 256
  have hlow := Nat.mod_lt port.toNat (show 0 < 256 by decide)
  generalize port.toNat % 256 = low at *
  generalize port.toNat / 256 = high at *
  have hhigh : high < 256 := by omega
  rw [Nat.mod_eq_of_lt (show high + 256 * low < 2 ^ 16 by omega), Nat.add_mul_mod_self_left,
    Nat.mod_eq_of_lt hhigh, Nat.add_mul_div_left _ _ (by decide), Nat.div_eq_of_lt hhigh,
    Nat.zero_add, Nat.mul_comm]
  exact hsplit

/-- What the server relays of a packet with a passport, and where to. -/
theorem relay_passport (source : UInt32 × UInt16) {audio : List UInt8}
    (hpayload : p.payload = audio ++ client.xbytes.toList)
    (hdeclared : audio.length = p.header.datalen) (hinside : p.payload.length ≤ vbanDataMaxSize) :
    let r := s.received (.datagram (p.header.toBytes ++ p.payload) source)
    r.server.stream.rxport ≠ 0 → (r.server.relay r.rightlen).1 =
      .relayed (udpSend source client.port client.ip).1 (p.header.toBytes ++ audio) := by
  intro r hport
  have hright : r.rightlen = (p.header.toBytes ++ audio).length := by
    rw [List.length_append, p.header.length_toBytes, hdeclared]
    exact s.datagram_rightlen p.header p.payload source
  have hbytes : r.server.packet.bytes = (p.header.toBytes ++ audio) ++
      (client.xbytes.toList ++ s.packet.bytes.drop (vbanHeaderSize + p.payload.length)) := by
    refine (s.packet.bytes_received p.header hinside).trans ?_
    rw [hpayload, List.append_assoc, List.append_assoc]
  have hpassport := xbytes_toList client
  have hip : bytesAt r.server.packet.bytes r.rightlen 4 = leBytes 4 client.ip.toNat := by
    rw [bytesAt, hbytes, hright, List.drop_left, hpassport, List.append_assoc, List.take_left']
    exact length_leBytes 4 _
  have hdst : bytesAt r.server.packet.bytes (r.rightlen + 4) 2 =
      [UInt8.ofNat (client.port.toNat / 256), UInt8.ofNat client.port.toNat] := by
    rw [bytesAt, hbytes, hright, List.drop_append, List.drop_eq_nil_of_le (Nat.le_add_right _ 4),
      Nat.add_sub_cancel_left, List.nil_append, hpassport, List.append_assoc, List.drop_left']
    · rfl
    · exact length_leBytes 4 _
  have haddr : r.server.cAddr = source := rfl
  rw [Server.relay, if_pos hport]
  simp only [hip, hdst, ofNat_leNat_leBytes, htons_passport, haddr]
  rw [hbytes, hright, List.take_left]

/-- A datagram of six bytes more than it declares is relayed by a duplex server. -/
theorem receive_relay (source : UInt32 × UInt16) (hduplex : s.stream.flags &&& duplex ≠ 0)
    (hlen : p.payload.length = p.header.datalen + 6)
    (hinside : p.payload.length ≤ vbanDataMaxSize) (rx tx : Popen2Calls) :
    let r := s.received (.datagram (p.header.toBytes ++ p.payload) source)
    r.packetlen = r.rightlen + 6 ∧
      s.receive (.datagram (p.header.toBytes ++ p.payload) source) rx tx =
        .ok (r.server.relay r.rightlen) := by
  intro r
  have hpacketlen : r.packetlen = ((vbanHeaderSize + p.payload.length : Nat) : Int) :=
    s.datagram_packetlen p.header source hinside
  have hrightlen : r.rightlen = vbanHeaderSize + p.header.datalen :=
    s.datagram_rightlen p.header p.payload source
  have hlonger : r.packetlen = r.rightlen + 6 := by
    rw [hpacketlen, hrightlen, hlen]
    rfl
  have hswitch : ¬r.ReachesSwitch := by
    rintro ⟨hequal, -⟩
    rw [hlonger] at hequal
    omega
  refine ⟨hlonger, ?_⟩
  rw [Server.receive, Received.handle, if_neg hswitch, if_pos ⟨hduplex, hlonger⟩]

/-- What the server does not relay to a client without an address or a port. -/
theorem Server.PassesOn.address (h : s.PassesOn client p) (hduplex : s.stream.flags &&& duplex ≠ 0)
    (hport : s.stream.rxport ≠ 0) (hlen : p.payload.length = p.header.datalen + 6) :
    client.ip ≠ 0 ∧ client.port ≠ 0 := by
  obtain ⟨hinside, -, audio, hpayload, hrelayed⟩ := h
  have hdeclared : audio.length = p.header.datalen := by
    rw [hpayload, List.length_append, Vector.length_toList] at hlen
    exact Nat.add_right_cancel hlen
  obtain ⟨t, ht⟩ := hrelayed (0x0100007F, 1) .noPipe .noPipe
  obtain ⟨-, hreceive⟩ := receive_relay (0x0100007F, 1) hduplex hlen hinside
    .noPipe .noPipe
  have hto := relay_passport (s := s) (0x0100007F, 1) hpayload hdeclared hinside hport
  rw [hreceive] at ht
  rw [Except.ok.inj ht] at hto
  injection hto with hdest
  constructor
  · intro hip
    have hlocal : client.ip = 0x0100007F := by
      have hfst := congrArg Prod.fst hdest
      rwa [udpSend, if_neg (not_not.mpr hip)] at hfst
    rw [hip] at hlocal
    exact absurd hlocal (by decide)
  · intro hzero
    have hsource : htons client.port = 1 := by
      have hsnd := congrArg Prod.snd hdest
      rwa [udpSend, if_neg (not_not.mpr hzero)] at hsnd
    rw [hzero] at hsource
    exact absurd hsource (by decide)

/-- A duplex server passes a packet on to the client exactly if the client has an address and a
port, and the packet is filled and has room for the passport. -/
theorem passport_relayed_iff (hduplex : s.stream.flags &&& duplex ≠ 0)
    (hport : s.stream.rxport ≠ 0) (hr : SendsPassport r locals client) (hl : l ∈ r.steps)
    (hp : p ∈ l.sent) : s.PassesOn client p ↔ client.ip ≠ 0 ∧ client.port ≠ 0 ∧
      LeavesRoom 6 (packetLimit l.sliced r.rate) l.nframes r.o.frameSize := by
  obtain ⟨audio, hpayload, hroom⟩ :=
    (r.carries l hl p hp).room r.created hr.nbinputs_pos r.channels_le 6
  have hxbytes : r.o.xbytes.toList.take 6 = client.xbytes.toList := by
    rw [hr.xbytes_eq, List.take_of_length_le (Vector.length_toList).le]
  rw [hr.trailerAt_eq, hxbytes] at hpayload
  have hlength : p.payload.length = audio.length + 6 := by
    rw [hpayload, List.length_append, Vector.length_toList]
  constructor
  · intro hpasses
    have hlen : p.payload.length = p.header.datalen + 6 := by
      have hrecognised := hpasses.recognised (0x0100007F, 1)
      simp only at hrecognised
      rw [s.datagram_packetlen p.header _ hpasses.inside, s.datagram_rightlen] at hrecognised
      omega
    obtain ⟨hip, hportne⟩ := hpasses.address hduplex hport hlen
    refine ⟨hip, hportne, hroom.mp ⟨?_, ?_⟩⟩
    · exact Nat.add_right_cancel (hlength.symm.trans hlen)
    · rw [← hlength]
      exact hpasses.inside
  · rintro ⟨hip, hportne, hfills⟩
    obtain ⟨hdeclared, hinside⟩ := hroom.mpr hfills
    rw [← hlength] at hinside
    have hlen : p.payload.length = p.header.datalen + 6 := hlength.trans (by rw [hdeclared])
    refine ⟨hinside, fun source => ?_, audio, hpayload, fun source rx tx => ?_⟩
    · exact (receive_relay source hduplex hlen hinside .noPipe .noPipe).1
    · obtain ⟨-, hreceive⟩ := receive_relay source hduplex hlen hinside rx tx
      have hto := relay_passport (s := s) source hpayload hdeclared hinside hport
      rw [udpSend, if_pos hip, if_pos hportne] at hto
      exact ⟨_, hreceive.trans (congrArg Except.ok (Prod.ext hto rfl))⟩

/-- The client at 192.168.0.5, port 6981. -/
def someClient : Client := ⟨0x0500A8C0, 6981, .strncpy (chars "mix"), 1⟩

theorem emitterMain_emitted (port channels : Int) (name : StreamName) (xbytes : Vector UInt8 6) :
    emitterMain 0 [.ipaddr 9 0x0100007F, .port port, .streamname name, .nbchannels channels,
      .extended (some xbytes)] =
        some (emitted (uintOfInt 16 port) (uintOfInt 16 channels) name xbytes).createStream := by
  have hopts := getEmitterOptions_emitted port channels name xbytes [] (Or.inl rfl)
  rw [List.append_nil] at hopts
  have hscan : (emitted (uintOfInt 16 port) (uintOfInt 16 channels) name xbytes).scanReceptor 0 =
      emitted (uintOfInt 16 port) (uintOfInt 16 channels) name xbytes :=
    if_neg fun h => absurd (show (0x0100007F : UInt32) = 0 from h.2.2) (by decide)
  refine (congrArg (Option.map fun c => (c.scanReceptor 0).createStream) hopts).trans ?_
  rw [Option.map_some, hscan]

/-- The emitter that a server starts for the client sends periods of any length. -/
theorem exists_passport_run (locals : PassportLocals) (client : Client) (n nbinputs : Nat)
    (hn : 1 ≤ n) (hn' : n < 2 ^ 16) (hb : 1 ≤ nbinputs) (hb' : nbinputs ≤ 256) :
    ∃ (r : EmitterRun) (l : Transmission) (p : SentPacket), SendsPassport r locals client ∧
      l ∈ r.steps ∧ p ∈ l.sent ∧ packetLimit l.sliced r.rate = 256 ∧ l.nframes = n ∧
        r.o.frameSize = nbinputs * 4 := by
  have hchannels : uintOfInt 16 (nbinputs : Int) = nbinputs := by
    rw [uintOfInt]
    omega
  have hmain := emitterMain_emitted 6980 nbinputs client.streamname client.xbytes
  rw [hchannels] at hmain
  obtain ⟨e₀, e, l, h₀, hrun, hnframes, hsliced, hsent⟩ := exists_sending_run_of (o :=
    (emitted (uintOfInt 16 6980) nbinputs client.streamname client.xbytes).createStream)
      48000 hn hn' rfl
  obtain ⟨p, hp⟩ := List.exists_mem_of_ne_nil _ hsent
  refine ⟨⟨_, 0, 48000, n, true, _, e₀, [l], e, hmain, hb', h₀, hrun⟩, l, p, ?_,
    List.mem_cons_self, hp, ?_, hnframes, rfl⟩
  · exact ⟨(by decide : uintOfInt 16 6980 ≠ 0), rfl, rfl, parsePassport_dotted locals _ _ _ _ _,
      rfl, hb⟩
  · rw [hsliced]
    rfl

/-- The first period of an emitter of the client is passed on. -/
theorem passport_relayed_first : ∃ p : SentPacket,
    (serverFor 2 duplex).PassesOn someClient p := by
  obtain ⟨r, l, p, hr, hl, hp, hlimit, hnframes, hfs⟩ :=
    exists_passport_run ⟨[], 0⟩ someClient 128 2 (by decide) (by decide) (by decide) (by decide)
  refine ⟨p, (passport_relayed_iff (by decide) (by decide) hr hl hp).mpr
    ⟨by decide, by decide, ?_⟩⟩
  rw [hlimit, hnframes, hfs]
  exact ⟨fillsPackets_default, 0, by decide, nofun, by decide⟩

/-- With 179 channels and a period of 64 frames the passport does not fit behind the audio. -/
theorem passport_too_long : ∃ (r : EmitterRun) (l : Transmission) (p : SentPacket),
    SendsPassport r ⟨[], 0⟩ someClient ∧ l ∈ r.steps ∧ p ∈ l.sent ∧
      vbanDataMaxSize < p.payload.length ∧ ¬(serverFor 2 duplex).PassesOn someClient p := by
  obtain ⟨r, l, p, hr, hl, hp, hlimit, hnframes, hfs⟩ :=
    exists_passport_run ⟨[], 0⟩ someClient 64 179 (by decide) (by decide) (by decide) (by decide)
  have hcarries := r.carries l hl p hp
  have hfit : PartFits 256 64 (179 * 4) 5 := by decide
  have hmin : ∀ j, j < 5 → ¬PartFits 256 64 (179 * 4) j := by decide
  obtain ⟨audio, hpayload, hfilled⟩ :=
    hcarries.room r.created hr.nbinputs_pos r.channels_le 0
  obtain ⟨audio', hpayload', hroom⟩ :=
    hcarries.room r.created hr.nbinputs_pos r.channels_le 6
  obtain rfl : audio = audio' := List.append_cancel_right (hpayload.symm.trans hpayload')
  rw [hlimit, hnframes, hfs, leavesRoom_iff hfit hmin, fillsPackets_iff hfit hmin] at hfilled hroom
  obtain ⟨hdeclared, -⟩ := hfilled.mpr (by decide)
  have hlong : vbanDataMaxSize < p.payload.length := by
    have hnot : ¬(audio.length = p.header.datalen ∧ audio.length + 6 ≤ vbanDataMaxSize) :=
      mt hroom.mp (by decide)
    rw [hpayload, List.length_append, length_take_xbytes (r.o.trailerAt_le r.rate r.timer),
      hr.trailerAt_eq]
    exact Nat.not_le.mp fun h => hnot ⟨hdeclared, h⟩
  exact ⟨r, l, p, hr, hl, hp, hlong, fun h => Nat.not_le.mpr hlong h.inside⟩

end Vban.Multistream
