import K64.NetHttp

/-! # Received frames

`k64_net_receive_frame` and the DNS and DHCP handlers. Pointers into the frame are offsets. -/
namespace NetReceive

open NetState NetHttp

/-- The position behind the name at `pos`, or `dns_len + 1`. Each round takes a byte. -/
def dnsSkipName (frame : List UInt8) (dns dnsLen : ℕ) : ℕ → ℕ → Except Fault ℕ
  | 0, _ => .ok (dnsLen + 1)
  | n + 1, pos =>
    if pos < dnsLen then do
      let len ← load frame (dns + pos)
      if len = 0 then .ok (pos + 1)
      else if len &&& 0xC0 = 0xC0 then .ok (if pos + 2 ≤ dnsLen then pos + 2 else dnsLen + 1)
      else dnsSkipName frame dns dnsLen n (pos + 1 + len.toNat)
    else .ok (dnsLen + 1)

def skipName (frame : List UInt8) (dns dnsLen pos : ℕ) : Except Fault ℕ :=
  dnsSkipName frame dns dnsLen (dnsLen + 1) pos

/-- The loop over the `qd` questions. -/
def skipQuestions (frame : List UInt8) (dns dnsLen : ℕ) : ℕ → ℕ → Except Fault ℕ
  | 0, pos => .ok pos
  | qd + 1, pos =>
    if pos < dnsLen then do
      let pos ← skipName frame dns dnsLen pos
      skipQuestions frame dns dnsLen qd (pos + 4)
    else .ok pos

/-- The loop over the `an` answers: the first address. -/
def findAnswer (frame : List UInt8) (dns dnsLen : ℕ) : ℕ → ℕ → Except Fault (Option UInt32)
  | 0, _ => .ok none
  | an + 1, pos =>
    if pos + 12 ≤ dnsLen then do
      let pos ← skipName frame dns dnsLen pos
      if pos + 10 > dnsLen then .ok none
      else do
        let type ← rd16be frame (dns + pos)
        let classId ← rd16be frame (dns + pos + 2)
        let rdlen ← rd16be frame (dns + pos + 8)
        if pos + 10 + rdlen.toNat > dnsLen then .ok none
        else if type = 1 ∧ classId = 1 ∧ rdlen = 4 then do
          let ip ← rd32be frame (dns + pos + 10)
          .ok (some ip)
        else findAnswer frame dns dnsLen an (pos + 10 + rdlen.toNat)
    else .ok none

def answered (net : Net) (ip : UInt32) : Net :=
  let net := dnsCachePut net net.pendingDnsName ip
  { net with
    pendingDnsName := []
    pendingDnsWaits := 0
    stats := { net.stats with rxDns := net.stats.rxDns + 1 } }

def handleDnsPayload (net : Net) (frame : List UInt8) (udp : ℕ) (udpLen : UInt16) :
    Except Fault Net :=
  if udpLen < 20 then .ok net
  else do
    let srcPort ← rd16be frame udp
    let dstPort ← rd16be frame (udp + 2)
    if srcPort ≠ dnsPort ∨ dstPort ≠ dnsSrcPort then .ok net
    else do
      let dns := udp + 8
      let dnsLen := udpLen.toNat - 8
      let id ← rd16be frame dns
      if id ≠ net.pendingDnsId then .ok net
      else do
        let qd ← rd16be frame (dns + 4)
        let an ← rd16be frame (dns + 6)
        let pos ← skipQuestions frame dns dnsLen qd.toNat 12
        let found ← findAnswer frame dns dnsLen an.toNat pos
        match found with
        | none => .ok net
        | some ip => .ok (answered net ip)

structure DhcpOptions where
  msgType : UInt8
  server : UInt32
  router : UInt32
  mask : UInt32
  dns : UInt32

/-- One option of `len` bytes at `p`. -/
def takeOption (frame : List UInt8) (o : DhcpOptions) (opt : UInt8) (p len : ℕ) :
    Except Fault DhcpOptions :=
  if opt = 53 ∧ 1 ≤ len then (load frame p).map fun v => { o with msgType := v }
  else if opt = 54 ∧ 4 ≤ len then (rd32be frame p).map fun v => { o with server := v }
  else if opt = 1 ∧ 4 ≤ len then (rd32be frame p).map fun v => { o with mask := v }
  else if opt = 3 ∧ 4 ≤ len then (rd32be frame p).map fun v => { o with router := v }
  else if opt = 6 ∧ 4 ≤ len then (rd32be frame p).map fun v => { o with dns := v }
  else .ok o

/-- The loop over the options; each round takes a byte. -/
def readOptions (frame : List UInt8) (bootp bootpLen : ℕ) :
    ℕ → ℕ → DhcpOptions → Except Fault DhcpOptions
  | 0, _, o => .ok o
  | n + 1, pos, o =>
    if pos + 1 < bootpLen then do
      let opt ← load frame (bootp + pos)
      if opt = 255 then .ok o
      else if opt = 0 then readOptions frame bootp bootpLen n (pos + 1) o
      else do
        let len ← load frame (bootp + pos + 1)
        if pos + 2 + len.toNat > bootpLen then .ok o
        else do
          let o ← takeOption frame o opt (bootp + pos + 2) len.toNat
          readOptions frame bootp bootpLen n (pos + 2 + len.toNat) o
    else .ok o

/-- A value that the server gave, or the one before. -/
def orKeep (given kept : UInt32) : UInt32 := if given ≠ 0 then given else kept

def leased (net : Net) (yiaddr : UInt32) (o : DhcpOptions) : Net :=
  { net with
    ipv4 := yiaddr
    gateway := orKeep o.router net.gateway
    netmask := orKeep o.mask net.netmask
    dnsServer := orKeep o.dns net.dnsServer
    stats := { net.stats with
      ipv4 := yiaddr
      gateway := orKeep o.router net.gateway
      netmask := orKeep o.mask net.netmask
      dnsServer := orKeep o.dns net.dnsServer } }

def handleDhcpPayload (net : Net) (frame : List UInt8) (udp : ℕ) (udpLen : UInt16) :
    Except Fault Net :=
  if udpLen < 252 then .ok net
  else do
    let srcPort ← rd16be frame udp
    let dstPort ← rd16be frame (udp + 2)
    if srcPort ≠ dhcpServerPort ∨ dstPort ≠ dhcpClientPort then .ok net
    else do
      let bootp := udp + 8
      let bootpLen := udpLen.toNat - 8
      let xid ← rd32be frame (bootp + 4)
      if xid ≠ net.dhcpXid then .ok net
      else do
        let magic ← rd32be frame (bootp + 236)
        if magic ≠ dhcpMagic then .ok net
        else do
          let yiaddr ← rd32be frame (bootp + 16)
          let o ← readOptions frame bootp bootpLen bootpLen 240 ⟨0, 0, 0, 0, 0⟩
          if o.msgType = 2 ∧ yiaddr ≠ 0 then
            (sendDhcpRequest { net with dhcpOffer := yiaddr, dhcpServer := o.server } yiaddr
              o.server).map Prod.snd
          else if o.msgType = 5 ∧ yiaddr ≠ 0 then .ok (leased net yiaddr o)
          else .ok net

/-- The echo request is answered from a buffer of 1480 bytes. -/
def echoReply (net : Net) (frame : List UInt8) (icmp : ℕ) (icmpLen : UInt16) (dstMac : List UInt8)
    (srcIp : UInt32) : Except Fault Net := do
  let request ← loadBytes frame icmp icmpLen.toNat
  if icmpLen.toNat > 1480 then .error (.write 1480)
  else
    let reply := patch (patch request 0 [0]) 2 [0, 0]
    (sendIpv4 net dstMac srcIp protoIcmp (patch reply 2 (wr16be (csum16 reply))) icmpLen).map
      Prod.snd

def handleIcmp (net : Net) (frame : List UInt8) (icmp : ℕ) (icmpLen : UInt16)
    (dstMac : List UInt8) (srcIp : UInt32) : Except Fault Net :=
  if icmpLen < 8 then .ok net
  else do
    let type ← load frame icmp
    if type = 0 then
      .ok { net with stats := { net.stats with pingReplies := net.stats.pingReplies + 1 } }
    else if type = 8 then echoReply net frame icmp icmpLen dstMac srcIp
    else .ok net

def handleIpv4 (net : Net) (frame : List UInt8) (ihl : ℕ) (ipLen : UInt16) (proto : UInt8)
    (srcIp : UInt32) : Except Fault Net := do
  let dstMac ← loadBytes frame 6 6
  let net := arpRemember net srcIp dstMac
  let net := { net with stats := { net.stats with rxIpv4 := net.stats.rxIpv4 + 1 } }
  let payload := 14 + ihl
  let payloadLen := ipLen - UInt16.ofNat ihl
  if proto = protoUdp then do
    let net := { net with stats := { net.stats with rxUdp := net.stats.rxUdp + 1 } }
    let net ← handleDnsPayload net frame payload payloadLen
    handleDhcpPayload net frame payload payloadLen
  else if proto = protoIcmp then
    let net := { net with stats := { net.stats with rxIcmp := net.stats.rxIcmp + 1 } }
    handleIcmp net frame payload payloadLen dstMac srcIp
  else if proto = protoTcp then
    let net := { net with stats := { net.stats with rxTcp := net.stats.rxTcp + 1 } }
    handleTcpPayload net frame payload payloadLen srcIp
  else .ok net

def receiveArp (net : Net) (frame : List UInt8) : Except Fault Net := do
  let op ← rd16be frame 20
  let senderIp ← rd32be frame 28
  let targetIp ← rd32be frame 38
  let senderMac ← loadBytes frame 22 6
  let net := { net with stats := { net.stats with rxArp := net.stats.rxArp + 1 } }
  let net := arpRemember net senderIp senderMac
  if op = 1 ∧ targetIp = net.ipv4 then .ok (sendArpReply net senderMac senderIp).2
  else .ok net

/-- The checks on the IPv4 header. The sum of the length check has 16 bits. -/
def acceptsIpv4 (net : Net) (len : UInt16) (ihl : ℕ) (ipLen : UInt16) (dstIp : UInt32) : Bool :=
  !(ihl < 20 || ipLen.toNat < ihl || (14 : UInt16) + ipLen > len ||
    (dstIp != net.ipv4 && dstIp != 0xFFFFFFFF))

def receiveIpv4 (net : Net) (frame : List UInt8) (len : UInt16) (version : UInt8) :
    Except Fault Net := do
  let ihl := (version &&& 0x0F).toNat * 4
  let ipLen ← rd16be frame 16
  let proto ← load frame 23
  let srcIp ← rd32be frame 26
  let dstIp ← rd32be frame 30
  if acceptsIpv4 net len ihl ipLen dstIp then handleIpv4 net frame ihl ipLen proto srcIp
  else .ok net

def forUs (net : Net) (mac : List UInt8) : Bool := mac = net.mac.toList || mac = broadcastMac

/-- `len` is the length of the frame. -/
def k64NetReceiveFrame (net : Net) (frame : List UInt8) : Except Fault Net :=
  let len := UInt16.ofNat frame.length
  if !net.ready || len < 14 then .ok net
  else do
    let mac ← loadBytes frame 0 6
    if !forUs net mac then .ok net
    else do
      let type ← rd16be frame 12
      let net := { net with stats := { net.stats with
        rxFrames := net.stats.rxFrames + 1
        lastEthertype := type
        lastRxLen := len } }
      if type = ethTypeArp ∧ len ≥ 42 then receiveArp net frame
      else if type = ethTypeIpv4 ∧ len ≥ 34 then do
        let version ← load frame 14
        if version >>> 4 = 4 then receiveIpv4 net frame len version else .ok net
      else .ok net

end NetReceive
