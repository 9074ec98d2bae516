import Vban.Discovery.ReceptorInfo
import Vban.Discovery.ScanReceptor
import Vban.Library.Run
import Vban.Multistream.ClientList
import Vban.Receive.RxThread

/-! The multistream loop of the JACK receptor, and `timerThread`. -/
namespace Vban.Multistream

open Library
open Discovery (chars udpSend infoText infoHeader)

def sigint : Nat := 2

def sigterm : Nat := 15

/-- What `timerThread` does to the children of the client that it removes. -/
inductive ChildCall
  | kill (pid : Int) (signal : Nat)
  | pclose2 (pid : Int)
deriving DecidableEq

def ChildCall.pid : ChildCall → Int
  | kill pid _ => pid
  | pclose2 pid => pid

def removalCalls (pidtokill pidtokilltx : Int) : List ChildCall :=
  [.kill pidtokill sigint, .pclose2 pidtokill] ++
    if pidtokilltx ≠ 0 then [.kill pidtokilltx sigterm, .pclose2 pidtokilltx] else []

/-- A call of `popen2`: the command, and what came of it. -/
structure Launch where
  command : List UInt8
  calls : Popen2Calls

/-- What the server does with what it received. -/
inductive Reaction
  /-- The bytes are written to the client's pipe. -/
  | wrote (client : ClientId) (bytes : List UInt8)
  | created (client : ClientId) (launches : List Launch)
  | full
  | replied (dest : UInt32 × UInt16) (bytes : List UInt8)
  | relayed (dest : UInt32 × UInt16) (bytes : List UInt8)
  | ignored

/-- The variables of `main` and `mscontext`. -/
structure Server where
  stream : VbanRxContext Unit
  vbanOutputFormat : UInt8
  cmd : List UInt8
  vbanClientsMax : Nat
  activeClientsNum : Nat
  clients : List ClientId
  packet : VBanPacket
  /-- `rxsock->c_addr` -/
  cAddr : UInt32 × UInt16
  ipIn : UInt32
  portIn : UInt16
  /-- The descriptors of pipes that the process has open. -/
  pipes : List Nat

/-- The command line of a client's receptor. -/
def cmd (argv0 : List UInt8) (nframes redundancy : Nat) (flags : UInt16) : List UInt8 :=
  argv0 ++ chars " -m0 -p0 -istdin -q" ++ decimal nframes ++ chars " -n" ++ decimal redundancy ++
    (if flags &&& deviceMode = deviceMode then chars " -dy" else []) ++
    (if flags &&& autoconnect = autoconnect then chars " -ay" else []) ++
    (if flags &&& correctionOn = correctionOn then chars " -ey" else [])

/-- The server once the options are read. Without a port nothing sets `ip_in` and `port_in`. -/
def Server.start (argv0 : List UInt8) (redundancy : Nat) (vbanOutputFormat : UInt8)
    (stream : VbanRxContext Unit) (cAddr : UInt32 × UInt16) (ipIn : UInt32) (portIn : UInt16) :
    Server where
  stream := { stream with nboutputs := 0 }
  vbanOutputFormat := vbanOutputFormat
  cmd := Multistream.cmd argv0 stream.nframes redundancy stream.flags
  -- `uint8_t`
  vbanClientsMax := stream.nboutputs % 256
  activeClientsNum := 0
  clients := []
  packet := .zero
  cAddr := cAddr
  ipIn := ipIn
  portIn := portIn
  pipes := []

/-- What the system calls of one turn deliver. -/
inductive ServerInput
  | datagram (bytes : List UInt8) (source : UInt32 × UInt16)
  | recvError
  /-- The results of the reads of the header and of the data. `none` is a read that failed. -/
  | pipe (header data : Option (List UInt8))

def ServerInput.Udp : ServerInput → Prop
  | pipe .. => False
  | _ => True

/-- What `read` returns. -/
def readRet (count : Nat) : Option (List UInt8) → Int
  | some bytes => (bytes.take count).length
  | none => -1

/-- The server with the packet in its buffer, `packetlen` and `rightlen`. -/
structure Received where
  server : Server
  packetlen : Int
  rightlen : Nat

namespace Server

/-- `ip_in`, `port_in` and `rightlen` are set whatever `udp_recv` returned. -/
def udpReceived (s : Server) (packetlen : Nat) : Received where
  server := { s with
    ipIn := s.cAddr.1
    portIn := htons s.cAddr.2 }
  packetlen := packetlen
  rightlen := vbanHeaderSize + s.packet.datalen

/-- The reads in pipe mode: as much data as there is, up to a whole packet. -/
def pipeReceived (s : Server) (header data : Option (List UInt8)) : Received :=
  let s := { s with
    packet := s.packet.store 0 vbanHeaderSize VBanPacket.header_le (header.getD []) }
  if s.packet.protocol = vbanProtocolAudio ∨ s.packet.protocol = vbanProtocolTxt then
    let rightlen : Nat := s.packet.datalen
    let s := { s with
      packet := s.packet.store vbanHeaderSize vbanDataMaxSize VBanPacket.data_le (data.getD []) }
    let datalen := readRet vbanDataMaxSize data
    if (rightlen : Int) ≤ datalen then
      ⟨s, readRet vbanHeaderSize header + datalen, rightlen + vbanHeaderSize⟩
    else ⟨s, 0, 0⟩
  else ⟨s, 0, 0⟩

def received (s : Server) : ServerInput → Received
  | .datagram bytes source =>
    udpReceived { s with
      packet := s.packet.store 0 vbanProtocolMaxSize VBanPacket.whole_le bytes
      cAddr := source } (bytes.take vbanProtocolMaxSize).length
  | .recvError => s.udpReceived 0
  | .pipe header data => s.pipeReceived header data

end Server

/-- The address and the name of the client are those of the packet. -/
def ClientId.Sends (client : ClientId) (ipIn : UInt32) (name : StreamName) : Prop :=
  ipIn = client.ip ∧ name = client.streamname

instance {client : ClientId} {ipIn : UInt32} {name : StreamName} :
    Decidable (client.Sends ipIn name) := inferInstanceAs (Decidable (_ ∧ _))

/-- The walk over the first `n` clients. It ends at the one that sends, and resets its timer. -/
def findClient (ipIn : UInt32) (name : StreamName) :
    Nat → List ClientId → Except Fault (Option ClientId × List ClientId)
  | 0, clients => .ok (none, clients)
  | _ + 1, [] => .error .nullPointer
  | n + 1, client :: clients =>
    if client.Sends ipIn name then
      .ok (some { client with timer := 0 }, { client with timer := 0 } :: clients)
    else do
      let found ← findClient ipIn name n clients
      return (found.1, client :: found.2)

namespace Server

/-- The zeroed memory of a client, with what is known before its children are started. -/
def newClient (s : Server) : ClientId where
  ip := s.ipIn
  port := s.portIn
  streamname := s.packet.header.streamname
  formatNbc := s.packet.header.formatNbc
  pipedesc := 0
  txpipedesc := 0
  pid := 0
  txpid := 0
  timer := 0

/-- Only with a port and `DUPLEX` a client gets an emitter. -/
def LaunchesEmitter (s : Server) : Prop := s.stream.rxport ≠ 0 ∧ s.stream.flags &&& duplex ≠ 0

instance {s : Server} : Decidable s.LaunchesEmitter := inferInstanceAs (Decidable (_ ∧ _))

/-- The calls of `popen2` for a new client. -/
def launches (s : Server) (first : Bool) (rx tx : Popen2Calls) : List Launch :=
  ⟨s.cmd, rx⟩ :: if s.LaunchesEmitter then
    [⟨txcmd first s.stream.flags s.stream.rxport s.newClient.toClient, tx⟩] else []

/-- The new client with its children. -/
def startedClient (s : Server) (rx tx : Popen2Calls) : ClientId :=
  let client := s.newClient
  let client := { client with
    pid := rx.ret
    pipedesc := rx.infp client.pipedesc }
  if s.LaunchesEmitter then
    { client with
      txpid := tx.ret
      txpipedesc := tx.outfp client.txpipedesc }
  else client

/-- The descriptors that are open once the children are started. -/
def startedPipes (s : Server) (rx tx : Popen2Calls) : List Nat :=
  let pipes := rx.opened false true s.pipes
  if s.LaunchesEmitter then tx.opened true false pipes else pipes

/-- A client is created at the end of the list. -/
def createClient (s : Server) (first : Bool) (rx tx : Popen2Calls) : Reaction × Server :=
  (.created (s.startedClient rx tx) (s.launches first rx tx),
    { s with
      clients := s.clients ++ [s.startedClient rx tx]
      activeClientsNum := (s.activeClientsNum + 1) % 256
      pipes := s.startedPipes rx tx })

/-- The case of audio and serial packets. -/
def dispatch (s : Server) (packetlen : Nat) (rx tx : Popen2Calls) :
    Except Fault (Reaction × Server) := do
  let found ← findClient s.ipIn s.packet.header.streamname s.activeClientsNum s.clients
  match found.1 with
  | some client =>
    return (.wrote client (s.packet.bytes.take packetlen), { s with clients := found.2 })
  | none =>
    -- The first client is created whatever the limit is.
    if s.clients.isEmpty then return s.createClient true rx tx
    else if s.activeClientsNum < s.vbanClientsMax then return s.createClient false rx tx
    else return (.full, s)

/-- The text of the answer to an information request. -/
def infoAnswer (s : Server) : List UInt8 :=
  infoText s.vbanOutputFormat s.stream ++
    chars " max_clients=" ++ decimalInt s.stream.nboutputs ++
    chars " free_clients=" ++ decimalInt (s.stream.nboutputs - s.activeClientsNum)

/-- The answer to an information request, where there is a socket. -/
def answerInfo (s : Server) : Reaction × Server :=
  if s.stream.rxport ≠ 0 then
    let sent := udpSend s.cAddr s.stream.ansport 0
    (.replied sent.1 (infoHeader.toBytes ++ s.infoAnswer), { s with cAddr := sent.2 })
  else (.ignored, s)

/-- The packet goes without its passport to the address in the passport. -/
def relay (s : Server) (rightlen : Nat) : Reaction × Server :=
  if s.stream.rxport ≠ 0 then
    let dstip := UInt32.ofNat (leNat (bytesAt s.packet.bytes rightlen 4))
    let dstport := htons (UInt16.ofNat (leNat (bytesAt s.packet.bytes (rightlen + 4) 2)))
    let sent := udpSend s.cAddr dstport dstip
    (.relayed sent.1 (s.packet.bytes.take rightlen), { s with cAddr := sent.2 })
  else (.ignored, s)

end Server

/-- The name starts with `INFO` or `info`, the data with `/info` or `/INFO`. -/
def AsksInfo (p : VBanPacket) : Prop :=
  p.header.streamname.bytes.take 4 ∈ [chars "INFO", chars "info"] ∧
    p.data.take 5 ∈ [chars "/info", chars "/INFO"]

instance {p : VBanPacket} : Decidable (AsksInfo p) := inferInstanceAs (Decidable (_ ∧ _))

/-- The length test passes the packet on to the switch over the protocols. -/
def Received.ReachesSwitch (r : Received) : Prop :=
  r.packetlen = r.rightlen ∧ r.server.packet.header.vban = vbanHeaderFourc

instance {r : Received} : Decidable r.ReachesSwitch := inferInstanceAs (Decidable (_ ∧ _))

/-- The packet is passed on to a client, or makes one. -/
def Received.ForClients (r : Received) : Prop :=
  r.ReachesSwitch ∧ (r.server.packet.protocol = vbanProtocolAudio ∨
    r.server.packet.protocol = vbanProtocolSerial)

instance {r : Received} : Decidable r.ForClients := inferInstanceAs (Decidable (_ ∧ _))

/-- The rest of a turn. -/
def Received.handle (r : Received) (rx tx : Popen2Calls) : Except Fault (Reaction × Server) :=
  if r.ReachesSwitch then
    if r.server.packet.protocol = vbanProtocolAudio ∨
        r.server.packet.protocol = vbanProtocolSerial then
      r.server.dispatch r.rightlen rx tx
    else if r.server.packet.protocol = vbanProtocolTxt ∧ AsksInfo r.server.packet then
      .ok r.server.answerInfo
    else .ok (.ignored, r.server)
  else if r.server.stream.flags &&& duplex ≠ 0 ∧ r.packetlen = r.rightlen + 6 then
    .ok (r.server.relay r.rightlen)
  else .ok (.ignored, r.server)

/-- One turn of the loop in `main`. `rx` and `tx` are the calls of `popen2`, if it comes to them. -/
def Server.receive (s : Server) (i : ServerInput) (rx tx : Popen2Calls) :
    Except Fault (Reaction × Server) :=
  (s.received i).handle rx tx

/-- The loop of `timerThread` from `index` on, with `n` turns left: the removed client, and the
list. As long as it runs, `index` is not the number of clients. -/
def ageClients : Nat → Nat → List ClientId → Except Fault (Option ClientId × List ClientId)
  | 0, _, clients => .ok (none, clients)
  | n + 1, index, clients =>
    match clients[index]? with
    | none => .error .nullPointer
    | some client =>
      if client.timer = 4 then do
        let removed ← if index = 0 then .ok (pop clients) else removeByIndex clients index
        return (some client, removed.2)
      else
        ageClients n (index + 1)
          (clients.set index { client with timer := (client.timer + 1) % 256 })

/-- One turn of `timerThread`, which closes no descriptor. -/
def Server.tick (s : Server) : Except Fault (Option ClientId × Server) := do
  let aged ← ageClients s.activeClientsNum 0 s.clients
  return (aged.1, { s with
    clients := aged.2
    activeClientsNum :=
      if aged.1.isSome then (s.activeClientsNum + 255) % 256 else s.activeClientsNum })

inductive ServerEvent
  | received (reaction : Reaction)
  | ticked (removed : Option ClientId)

/-- What a turn of `timerThread` does to children. -/
def ServerEvent.childCalls : ServerEvent → List ChildCall
  | ticked (some client) => removalCalls client.pid client.txpid
  | _ => []

/-- Turns of the loop and of `timerThread`, in any order. -/
inductive ServerStep : Server → ServerEvent → Server → Prop
  | receive {s t : Server} {i : ServerInput} {rx tx : Popen2Calls} {r : Reaction}
      (hmode : i.Udp ↔ s.stream.rxport ≠ 0) (hrx : rx.Fresh s.pipes)
      (htx : tx.Fresh (rx.opened false true s.pipes)) (h : s.receive i rx tx = .ok (r, t)) :
      ServerStep s (.received r) t
  | tick {s t : Server} {removed : Option ClientId} (h : s.tick = .ok (removed, t)) :
      ServerStep s (.ticked removed) t

theorem Server.datagram_header (s : Server) (h : VBanHeader) (payload : List UInt8)
    (source : UInt32 × UInt16) :
    (s.received (.datagram (h.toBytes ++ payload) source)).server.packet.header = h :=
  s.packet.header_received h payload

theorem Server.datagram_data (s : Server) (h : VBanHeader) {payload : List UInt8}
    (source : UInt32 × UInt16) (hlen : payload.length ≤ vbanDataMaxSize) :
    (s.received (.datagram (h.toBytes ++ payload) source)).server.packet.data =
      payload ++ s.packet.bytes.drop (vbanHeaderSize + payload.length) :=
  s.packet.data_received h hlen

theorem Server.datagram_packetlen (s : Server) (h : VBanHeader) {payload : List UInt8}
    (source : UInt32 × UInt16) (hlen : payload.length ≤ vbanDataMaxSize) :
    (s.received (.datagram (h.toBytes ++ payload) source)).packetlen =
      ((vbanHeaderSize + payload.length : Nat) : Int) := by
  have hreceived : (h.toBytes ++ payload).length ≤ vbanProtocolMaxSize := by
    rw [List.length_append, h.length_toBytes]
    exact Nat.add_le_add_left hlen vbanHeaderSize
  change (((h.toBytes ++ payload).take vbanProtocolMaxSize).length : Int) = _
  rw [List.take_of_length_le hreceived, List.length_append, h.length_toBytes]

theorem Server.datagram_rightlen (s : Server) (h : VBanHeader) (payload : List UInt8)
    (source : UInt32 × UInt16) :
    (s.received (.datagram (h.toBytes ++ payload) source)).rightlen = vbanHeaderSize + h.datalen :=
  congrArg (vbanHeaderSize + ·) (VBanPacket.datalen_eq (s.datagram_header h payload source))

/-- The length test compares the payload with what the header declares. -/
theorem Server.datagram_reachesSwitch_iff (s : Server) {h : VBanHeader} {payload : List UInt8}
    (source : UInt32 × UInt16) (hlen : payload.length ≤ vbanDataMaxSize) :
    (s.received (.datagram (h.toBytes ++ payload) source)).ReachesSwitch ↔
      payload.length = h.datalen ∧ h.vban = vbanHeaderFourc := by
  rw [Received.ReachesSwitch, s.datagram_packetlen h source hlen, s.datagram_rightlen,
    s.datagram_header, Int.ofNat_inj, Nat.add_left_cancel_iff]

theorem Server.datagram_protocol (s : Server) (h : VBanHeader) (payload : List UInt8)
    (source : UInt32 × UInt16) :
    (s.received (.datagram (h.toBytes ++ payload) source)).server.packet.protocol = h.protocol :=
  congrArg VBanHeader.protocol (s.datagram_header h payload source)

theorem Server.datagram_forClients_iff (s : Server) {h : VBanHeader} {payload : List UInt8}
    (source : UInt32 × UInt16) (hlen : payload.length ≤ vbanDataMaxSize) :
    (s.received (.datagram (h.toBytes ++ payload) source)).ForClients ↔
      (payload.length = h.datalen ∧ h.vban = vbanHeaderFourc) ∧
        (h.protocol = vbanProtocolAudio ∨ h.protocol = vbanProtocolSerial) := by
  rw [Received.ForClients, s.datagram_reachesSwitch_iff source hlen, s.datagram_protocol]

/-- A text packet that asks is answered. -/
theorem Received.handle_txt {r : Received} (rx tx : Popen2Calls) (hswitch : r.ReachesSwitch)
    (htxt : r.server.packet.protocol = vbanProtocolTxt) (hasks : AsksInfo r.server.packet) :
    r.handle rx tx = .ok r.server.answerInfo := by
  have hclients : ¬(r.server.packet.protocol = vbanProtocolAudio ∨
      r.server.packet.protocol = vbanProtocolSerial) := by
    rw [htxt]
    decide
  rw [Received.handle, if_pos hswitch, if_neg hclients, if_pos ⟨htxt, hasks⟩]

end Vban.Multistream
