import Mathlib.Tactic.Common
import Mathlib.Data.List.TakeWhile

/-! # The network state and sending

Reads of a received frame and copies into fixed buffers are checked: an access outside its buffer is a
`Fault`. Frames are built as lists of bytes and handed to the driver. -/
namespace NetState

inductive Fault where
  | read (offset : ℕ)
  | write (size : ℕ)
  deriving DecidableEq, Repr

def load (frame : List UInt8) (offset : ℕ) : Except Fault UInt8 :=
  match frame[offset]? with
  | some b => .ok b
  | none => .error (.read offset)

def loadBytes (frame : List UInt8) (offset n : ℕ) : Except Fault (List UInt8) :=
  if n = 0 ∨ offset + n ≤ frame.length then .ok ((frame.drop offset).take n)
  else .error (.read (max offset frame.length))

def be16 (a b : UInt8) : UInt16 := (a.toUInt16 <<< 8) ||| b.toUInt16

def be32 (a b c d : UInt8) : UInt32 :=
  (a.toUInt32 <<< 24) ||| (b.toUInt32 <<< 16) ||| (c.toUInt32 <<< 8) ||| d.toUInt32

def rd16be (frame : List UInt8) (p : ℕ) : Except Fault UInt16 := do
  let a ← load frame p
  let b ← load frame (p + 1)
  return be16 a b

def rd32be (frame : List UInt8) (p : ℕ) : Except Fault UInt32 := do
  let a ← load frame p
  let b ← load frame (p + 1)
  let c ← load frame (p + 2)
  let d ← load frame (p + 3)
  return be32 a b c d

def wr16be (v : UInt16) : List UInt8 := [(v >>> 8).toUInt8, v.toUInt8]

def wr32be (v : UInt32) : List UInt8 :=
  [(v >>> 24).toUInt8, (v >>> 16).toUInt8, (v >>> 8).toUInt8, v.toUInt8]

def csumAddBytes (sum : UInt32) : List UInt8 → UInt32
  | a :: b :: rest => csumAddBytes (sum + (be16 a b).toUInt32) rest
  | [a] => sum + (a.toUInt32 <<< 8)
  | [] => sum

/-- The carries are folded in; two rounds are enough for 32 bits. -/
def csumFinish (sum : UInt32) : UInt16 :=
  let fold (s : UInt32) : UInt32 :=
    if s >>> 16 = 0 then s else (s &&& (0xFFFF : UInt32)) + (s >>> 16)
  ~~~(fold (fold sum)).toUInt16

def csum16 (data : List UInt8) : UInt16 := csumFinish (csumAddBytes 0 data)

def pseudoHeader (srcIp dstIp : UInt32) (proto : UInt8) (len : ℕ) : List UInt8 :=
  wr32be srcIp ++ wr32be dstIp ++ [0, proto] ++ wr16be (UInt16.ofNat len)

def protoIcmp : UInt8 := 1

def protoTcp : UInt8 := 6

def protoUdp : UInt8 := 17

def tcpChecksum (srcIp dstIp : UInt32) (tcp : List UInt8) : UInt16 :=
  csumFinish (csumAddBytes (csumAddBytes 0 (pseudoHeader srcIp dstIp protoTcp tcp.length)) tcp)

def udpChecksum (srcIp dstIp : UInt32) (udp : List UInt8) : UInt16 :=
  let result :=
    csumFinish (csumAddBytes (csumAddBytes 0 (pseudoHeader srcIp dstIp protoUdp udp.length)) udp)
  if result ≠ 0 then result else 0xFFFF

def patch (packet : List UInt8) (p : ℕ) (bytes : List UInt8) : List UInt8 :=
  packet.take p ++ bytes ++ packet.drop (p + bytes.length)

def ascii (s : String) : List UInt8 := s.toList.map fun ch => UInt8.ofNat ch.toNat

/-- A string copied into an array of `size` characters. -/
def copyText (size : ℕ) (src : List UInt8) : List UInt8 := (src.takeWhile (· ≠ 0)).take (size - 1)

inductive HttpState where
  | idle
  | resolve
  | arp
  | synSent
  | established
  | requestSent
  | done
  | error
  deriving DecidableEq, Repr

def httpBufSize : ℕ := 16 * 1024 * 1024

/-- The one HTTP connection. `response` is the filled part of the buffer. -/
structure HttpClient where
  state : HttpState
  host : List UInt8
  path : List UInt8
  ip : UInt32
  port : UInt16
  localPort : UInt16
  useRange : Bool
  rangeStart : UInt64
  rangeEnd : UInt64
  seq : UInt32
  ack : UInt32
  response : List UInt8
  deriving DecidableEq

structure Stats where
  ipv4 : UInt32
  gateway : UInt32
  netmask : UInt32
  dnsServer : UInt32
  txFrames : UInt64
  rxFrames : UInt64
  rxArp : UInt64
  rxIpv4 : UInt64
  rxUdp : UInt64
  rxIcmp : UInt64
  rxTcp : UInt64
  rxDns : UInt64
  pingReplies : UInt64
  lastEthertype : UInt16
  lastRxLen : UInt16
  deriving DecidableEq

/-- The driver's answer to the frame it is handed after `n` others. -/
abbrev SendFn := ℕ → List UInt8 → Bool

structure Net where
  ready : Bool
  mac : Vector UInt8 6
  ipv4 : UInt32
  gateway : UInt32
  netmask : UInt32
  send : Option SendFn
  handed : List (List UInt8)
  stats : Stats
  nextIpId : UInt16
  nextDnsId : UInt16
  nextTcpPort : UInt16
  dnsServer : UInt32
  dhcpXid : UInt32
  dhcpServer : UInt32
  dhcpOffer : UInt32
  arp : List (UInt32 × List UInt8)
  dnsCache : List (List UInt8 × UInt32)
  pendingDnsId : UInt16
  pendingDnsWaits : UInt8
  pendingDnsName : List UInt8
  http : HttpClient

def HttpClient.zero : HttpClient := ⟨.idle, [], [], 0, 0, 0, false, 0, 0, 0, 0, []⟩

def Stats.zero : Stats := ⟨0, 0, 0, 0, 0, 0, 0, 0, 0, 0, 0, 0, 0, 0, 0⟩

/-- The addresses of a host behind the emulator's network. -/
def k64NetInit : Net where
  ready := false
  mac := Vector.replicate 6 0
  ipv4 := be32 10 0 2 15
  gateway := be32 10 0 2 2
  netmask := 0xFFFFFF00
  send := none
  handed := []
  stats := Stats.zero
  nextIpId := 1
  nextDnsId := 1
  nextTcpPort := 40000
  dnsServer := be32 10 0 2 3
  dhcpXid := 0x4B363400
  dhcpServer := 0
  dhcpOffer := 0
  arp := []
  dnsCache := []
  pendingDnsId := 0
  pendingDnsWaits := 0
  pendingDnsName := []
  http := HttpClient.zero

def k64NetRegisterDevice (net : Net) (mac : Vector UInt8 6) (send : SendFn) : Net :=
  if net.ready then net
  else
    { net with
      ready := true
      mac := mac
      send := some send
      stats := { Stats.zero with
        ipv4 := net.ipv4
        gateway := net.gateway
        netmask := net.netmask
        dnsServer := net.dnsServer } }

/-- An entry is updated in place, or takes a new slot of the eight, or the first one. -/
def remember {κ ν : Type} [DecidableEq κ] (entries : List (κ × ν)) (key : κ) (value : ν) :
    List (κ × ν) :=
  match entries.findIdx? fun e => e.1 = key with
  | some slot => entries.set slot (key, value)
  | none => if entries.length < 8 then entries ++ [(key, value)] else entries.set 0 (key, value)

def arpRemember (net : Net) (ip : UInt32) (mac : List UInt8) : Net :=
  { net with arp := remember net.arp ip mac }

def arpLookup (net : Net) (ip : UInt32) : Option (List UInt8) :=
  (net.arp.find? fun e => e.1 = ip).map Prod.snd

def dnsCachePut (net : Net) (name : List UInt8) (ip : UInt32) : Net :=
  if name = [] ∨ ip = 0 then net
  else { net with dnsCache := remember net.dnsCache (copyText 64 name) ip }

def dnsCacheLookup (net : Net) (name : List UInt8) : Option UInt32 :=
  (net.dnsCache.find? fun e => e.1 = name).map Prod.snd

def ethTypeArp : UInt16 := 0x0806

def ethTypeIpv4 : UInt16 := 0x0800

def sendFrame (net : Net) (frame : List UInt8) : Bool × Net :=
  match net.send with
  | none => (false, net)
  | some send =>
    if !net.ready then (false, net)
    else
      let net' := { net with handed := net.handed ++ [frame] }
      if send net.handed.length frame then
        (true, { net' with stats := { net.stats with txFrames := net.stats.txFrames + 1 } })
      else (false, net')

def arpFrame (net : Net) (dstMac : List UInt8) (op : UInt16) (targetMac : List UInt8)
    (targetIp : UInt32) : List UInt8 :=
  dstMac ++ net.mac.toList ++ wr16be ethTypeArp ++ wr16be 1 ++ wr16be ethTypeIpv4 ++ [6, 4] ++ wr16be op ++
    net.mac.toList ++ wr32be net.ipv4 ++ targetMac ++ wr32be targetIp

def sendArpReply (net : Net) (targetMac : List UInt8) (targetIp : UInt32) : Bool × Net :=
  sendFrame net (arpFrame net targetMac 2 targetMac targetIp)

def broadcastMac : List UInt8 := List.replicate 6 0xFF

def k64NetSendArpRequest (net : Net) (targetIp : UInt32) : Bool × Net :=
  if !net.ready then (false, net)
  else sendFrame net (arpFrame net broadcastMac 1 (List.replicate 6 0) targetIp)

/-- The header of an IPv4 datagram of `ipLen` bytes, with its checksum. -/
def ipv4Header (ipLen id : UInt16) (proto : UInt8) (srcIp dstIp : UInt32) : List UInt8 :=
  let header := [0x45, 0] ++ wr16be ipLen ++ wr16be id ++ wr16be 0x4000 ++ [64, proto] ++
    wr16be 0 ++ wr32be srcIp ++ wr32be dstIp
  patch header 10 (wr16be (csum16 header))

/-- The frame has 1514 bytes. `payload` is the buffer, of which `payloadLen` bytes are copied. -/
def sendIpv4From (net : Net) (dstMac : List UInt8) (srcIp dstIp : UInt32) (proto : UInt8)
    (payload : List UInt8) (payloadLen : UInt16) : Except Fault (Bool × Net) :=
  let ipLen : UInt16 := 20 + payloadLen
  if ipLen > 1500 then .ok (false, net)
  else do
    let head := dstMac ++ net.mac.toList ++ wr16be ethTypeIpv4 ++
      ipv4Header ipLen net.nextIpId proto srcIp dstIp
    let body ← loadBytes payload 0 payloadLen.toNat
    if 34 + payloadLen.toNat > 1514 then .error (.write 1514)
    else .ok (sendFrame { net with nextIpId := net.nextIpId + 1 } (head ++ body))

def sendIpv4 (net : Net) (dstMac : List UInt8) (dstIp : UInt32) (proto : UInt8)
    (payload : List UInt8) (payloadLen : UInt16) : Except Fault (Bool × Net) :=
  sendIpv4From net dstMac net.ipv4 dstIp proto payload payloadLen

def resolveMac (net : Net) (dstIp : UInt32) : Option (List UInt8) × Net :=
  let target := if dstIp &&& net.netmask = net.ipv4 &&& net.netmask then dstIp else net.gateway
  match arpLookup net target with
  | some mac => (some mac, net)
  | none => (none, (k64NetSendArpRequest net target).2)

def flagFin : UInt8 := 0x01

def flagSyn : UInt8 := 0x02

def flagRst : UInt8 := 0x04

def flagPsh : UInt8 := 0x08

def flagAck : UInt8 := 0x10

def tcpPacket (srcIp dstIp : UInt32) (dstPort srcPort : UInt16) (seq ack : UInt32) (flags : UInt8)
    (payload : List UInt8) : List UInt8 :=
  let packet := wr16be srcPort ++ wr16be dstPort ++ wr32be seq ++ wr32be ack ++ [0x50, flags] ++
    wr16be 4096 ++ [0, 0, 0, 0] ++ payload
  patch packet 16 (wr16be (tcpChecksum srcIp dstIp packet))

def sendTcp (net : Net) (dstIp : UInt32) (dstPort srcPort : UInt16) (seq ack : UInt32)
    (flags : UInt8) (payload : List UInt8) : Except Fault (Bool × Net) :=
  let tcpLen : UInt16 := 20 + UInt16.ofNat payload.length
  if tcpLen > 1480 then .ok (false, net)
  else
    match resolveMac net dstIp with
    | (none, net) => .ok (false, net)
    | (some mac, net) =>
      if 1480 < 20 + payload.length then .error (.write 1480)
      else sendIpv4 net mac dstIp protoTcp
        (tcpPacket net.ipv4 dstIp dstPort srcPort seq ack flags payload) tcpLen

/-- The acknowledgement that every handled segment is answered with. -/
def sendAck (net : Net) : Except Fault Net :=
  (sendTcp net net.http.ip net.http.port net.http.localPort net.http.seq net.http.ack flagAck []).map
    Prod.snd

def dnsPort : UInt16 := 53

def dnsSrcPort : UInt16 := 49153

/-- The labels of a host name. `label` holds the letters of the label that is being read; letters
that do not fit into the 512-byte packet are dropped. -/
def dnsLabels : List UInt8 → List UInt8 → List UInt8 → List UInt8
  | done, label, [] => done ++ [UInt8.ofNat label.length] ++ label
  | done, label, ch :: rest =>
    if 512 ≤ 20 + done.length + 1 + label.length + 6 then done ++ [UInt8.ofNat label.length] ++ label
    else if ch = 46 then dnsLabels (done ++ [UInt8.ofNat label.length] ++ label) [] rest
    else dnsLabels done (label ++ [ch]) rest

def sendDnsQuery (net : Net) (host : List UInt8) : Except Fault (Bool × Net) :=
  if host = [] then .ok (false, net)
  else match resolveMac net net.gateway with
  | (none, net) => .ok (false, net)
  | (some mac, net) => do
    let dnsId := net.nextDnsId
    let query := wr16be dnsId ++ wr16be 0x0100 ++ wr16be 1 ++ [0, 0, 0, 0, 0, 0] ++
      dnsLabels [] [] host ++ [0] ++ wr16be 1 ++ wr16be 1
    let packet (server : UInt32) : List UInt8 :=
      let udp := wr16be dnsSrcPort ++ wr16be dnsPort ++ wr16be (UInt16.ofNat (8 + query.length)) ++
        wr16be 0 ++ query
      patch udp 6 (wr16be (udpChecksum net.ipv4 server udp))
    let len := UInt16.ofNat (8 + query.length)
    let net := { net with
      nextDnsId := net.nextDnsId + 1
      pendingDnsId := dnsId
      pendingDnsWaits := 0
      pendingDnsName := copyText 64 host }
    let (sent, net) ← sendIpv4 net mac net.dnsServer protoUdp (packet net.dnsServer) len
    if net.gateway ≠ 0 ∧ net.gateway ≠ net.dnsServer then
      let (sent', net) ← sendIpv4 net mac net.gateway protoUdp (packet net.gateway) len
      .ok (sent' || sent, net)
    else .ok (sent, net)

/-- The loop over the characters of a dotted quad; the end of the string is a zero. -/
def parseIpv4From : List UInt8 → List UInt32 → UInt32 → Bool → Option UInt32
  | [], parts, value, sawDigit =>
    match parts, sawDigit with
    | [c, b, a], true => some ((a <<< 24) ||| (b <<< 16) ||| (c <<< 8) ||| value)
    | _, _ => none
  | ch :: rest, parts, value, sawDigit =>
    if 48 ≤ ch ∧ ch ≤ 57 then
      let value := value * 10 + (ch - 48).toUInt32
      if value > 255 then none else parseIpv4From rest parts value true
    else if ch = 46 ∧ parts.length < 3 ∧ sawDigit then parseIpv4From rest (value :: parts) 0 false
    else none

def k64NetParseIpv4 (text : List UInt8) : Option UInt32 := parseIpv4From text [] 0 false

/-- The address, or whether an answer is still awaited. -/
def k64NetResolveHost (net : Net) (host : List UInt8) :
    Except Fault ((Option UInt32 × Bool) × Net) :=
  if host = [] then .ok ((none, false), net)
  else match k64NetParseIpv4 host with
  | some ip => .ok ((some ip, false), net)
  | none =>
    match dnsCacheLookup net host with
    | some ip => .ok ((some ip, false), net)
    | none =>
      if net.pendingDnsName = host ∧ net.pendingDnsWaits < 8 then
        .ok ((none, true), { net with pendingDnsWaits := net.pendingDnsWaits + 1 })
      else (sendDnsQuery net host).map fun (sent, net) => ((none, sent), net)

def dhcpClientPort : UInt16 := 68

def dhcpServerPort : UInt16 := 67

def dhcpMagic : UInt32 := 0x63825363

def dhcpPacket (net : Net) (msgType : UInt8) (requestedIp serverIp : UInt32) : List UInt8 :=
  let options := [53, 1, msgType] ++ (if requestedIp ≠ 0 then [50, 4] ++ wr32be requestedIp else []) ++
    (if serverIp ≠ 0 then [54, 4] ++ wr32be serverIp else []) ++ [55, 3, 1, 3, 6, 255]
  let bootp := [1, 1, 6, 0] ++ wr32be net.dhcpXid ++ [0, 0] ++ wr16be 0x8000 ++
    List.replicate 16 0 ++ net.mac.toList ++ List.replicate 202 0 ++ wr32be dhcpMagic ++ options
  let udp := wr16be dhcpClientPort ++ wr16be dhcpServerPort ++
    wr16be (UInt16.ofNat (8 + bootp.length)) ++ wr16be 0 ++ bootp
  patch udp 6 (wr16be (udpChecksum 0 0xFFFFFFFF udp))

def sendDhcpMessage (net : Net) (msgType : UInt8) (requestedIp serverIp : UInt32) :
    Except Fault (Bool × Net) :=
  if !net.ready then .ok (false, net)
  else
    let packet := dhcpPacket net msgType requestedIp serverIp
    sendIpv4From net broadcastMac 0 0xFFFFFFFF protoUdp packet (UInt16.ofNat packet.length)

def sendDhcpRequest (net : Net) (requestedIp serverIp : UInt32) : Except Fault (Bool × Net) :=
  sendDhcpMessage net 3 requestedIp serverIp

end NetState
