import K64.NetState

/-! # The HTTP client

Segments of the one connection are appended to the response buffer; a poll of the connection sends
the request and, when the response is complete, delivers its body. -/
namespace NetHttp

open NetState

def httpAppend (response payload : List UInt8) : List UInt8 :=
  if payload = [] ∨ httpBufSize ≤ response.length + 1 then response
  else response ++ payload.take (httpBufSize - 1 - response.length)

def byteAt (r : List UInt8) (i : ℕ) : UInt8 := r.getD i 0

def headerEnd (r : List UInt8) : Option ℕ :=
  (List.range (r.length - 3)).find? fun i =>
    byteAt r i == 13 && byteAt r (i + 1) == 10 && byteAt r (i + 2) == 13 && byteAt r (i + 3) == 10

/-- At most `n` steps forward, while the byte at the position satisfies `p`. -/
def advance (r : List UInt8) (p : UInt8 → Bool) : ℕ → ℕ → ℕ
  | pos, 0 => pos
  | pos, n + 1 => if p (byteAt r pos) then advance r p (pos + 1) n else pos

def isBlank (ch : UInt8) : Bool := ch == 32 || ch == 9

def isDigit (ch : UInt8) : Bool := 48 ≤ ch && ch ≤ 57

/-- The status code of the first line of the header that ends at `i`. -/
def statusCode (r : List UInt8) (i : ℕ) : UInt16 :=
  if 12 ≤ r.length ∧ byteAt r 0 = 72 ∧ byteAt r 1 = 84 ∧ byteAt r 2 = 84 ∧ byteAt r 3 = 80 then
    let code := advance r (fun ch => !isBlank ch) 0 i
    let code := advance r isBlank code (i - code)
    if code + 2 < i ∧ isDigit (byteAt r code) ∧ isDigit (byteAt r (code + 1)) ∧
        isDigit (byteAt r (code + 2)) then
      (byteAt r code - 48).toUInt16 * 100 + (byteAt r (code + 1) - 48).toUInt16 * 10 +
        (byteAt r (code + 2) - 48).toUInt16
    else 0
  else 0

/-- The decimal number at the position, in 64 bits, and the position behind it. -/
def readNumber (r : List UInt8) : UInt64 → ℕ → ℕ → UInt64 × ℕ
  | value, pos, 0 => (value, pos)
  | value, pos, n + 1 =>
    if isDigit (byteAt r pos) then
      readNumber r (value * 10 + (byteAt r pos - 48).toUInt64) (pos + 1) n
    else (value, pos)

/-- A line that starts with `Content-L`, in either case. -/
def atContentL (r : List UInt8) (pos : ℕ) : Bool :=
  (pos == 0 || byteAt r (pos - 1) == 10) &&
  (byteAt r pos == 67 || byteAt r pos == 99) &&
  (byteAt r (pos + 1) == 111 || byteAt r (pos + 1) == 79) &&
  (byteAt r (pos + 2) == 110 || byteAt r (pos + 2) == 78) &&
  (byteAt r (pos + 3) == 116 || byteAt r (pos + 3) == 84) &&
  (byteAt r (pos + 4) == 101 || byteAt r (pos + 4) == 69) &&
  (byteAt r (pos + 5) == 110 || byteAt r (pos + 5) == 78) &&
  (byteAt r (pos + 6) == 116 || byteAt r (pos + 6) == 84) &&
  byteAt r (pos + 7) == 45 &&
  (byteAt r (pos + 8) == 76 || byteAt r (pos + 8) == 108)

/-- A line of the header that ends at `i`: how far it was read, and the value found so far. -/
def headerLine (r : List UInt8) (i pos : ℕ) (found : Option UInt64) : ℕ × Option UInt64 :=
  if atContentL r pos then
    let colon := advance r (fun ch => ch != 58) pos (i - pos)
    if colon < i then
      let digits := advance r isBlank (colon + 1) (i - (colon + 1))
      let number := readNumber r 0 digits (i - digits)
      (number.2, some number.1)
    else (colon, found)
  else (pos, found)

/-- The loop over the header lines; the value is that of the last matching line. -/
def scanLines (r : List UInt8) (i : ℕ) : ℕ → ℕ → Option UInt64 → Option UInt64
  | 0, _, found => found
  | n + 1, pos, found =>
    if pos + 16 < i then
      let line := headerLine r i pos found
      let eol := advance r (fun ch => ch != 10) line.1 (i - line.1)
      scanLines r i n (if eol < i then eol + 1 else eol) line.2
    else found

/-- The `Content-Length` of the header that ends at `i`. Each line takes at least one step. -/
def contentLength (r : List UInt8) (i : ℕ) : Option UInt64 := scanLines r i (i + 1) 0 none

structure Body where
  headerSize : ℕ
  status : UInt16
  contentLength : Option UInt64

def httpFindBody (r : List UInt8) : Option Body :=
  (headerEnd r).map fun i => ⟨i + 4, statusCode r i, contentLength r i⟩

def httpResponseHasCompleteBody (r : List UInt8) : Bool :=
  match httpFindBody r with
  | some ⟨headerSize, _, some length⟩ =>
    UInt64.ofNat r.length ≥ UInt64.ofNat headerSize + length
  | _ => false

structure Segment where
  srcIp : UInt32
  srcPort : UInt16
  dstPort : UInt16
  seq : UInt32
  ack : UInt32
  flags : UInt8
  data : List UInt8
  deriving DecidableEq

def Segment.has (s : Segment) (flag : UInt8) : Bool := s.flags &&& flag != 0

def takeData (http : HttpClient) (s : Segment) : HttpClient :=
  let len := UInt32.ofNat s.data.length
  if s.seq = http.ack then
    { http with response := httpAppend http.response s.data, ack := s.seq + len }
  else if s.seq < http.ack ∧ http.ack - s.seq < len then
    { http with
      response := httpAppend http.response (s.data.drop (http.ack - s.seq).toNat)
      ack := http.ack + (len - (http.ack - s.seq)) }
  else http

/-- The data of a segment, in the states that accept any. -/
def dataStep (net : Net) (s : Segment) : Except Fault Net :=
  if (net.http.state = .requestSent ∨ net.http.state = .established) ∧ s.data ≠ [] then
    let http := takeData net.http s
    let http := if httpResponseHasCompleteBody http.response then { http with state := .done }
      else http
    sendAck { net with http := http }
  else .ok net

def finStep (net : Net) (s : Segment) : Except Fault Net :=
  if s.has flagFin then
    let ack := if s.seq + UInt32.ofNat s.data.length = net.http.ack then net.http.ack + 1
      else net.http.ack
    (sendAck { net with http := { net.http with ack := ack } }).map fun net =>
      { net with http := { net.http with state := .done } }
  else .ok net

def isSynAck (http : HttpClient) (s : Segment) : Bool :=
  http.state == .synSent && s.flags &&& (flagSyn ||| flagAck) == (flagSyn ||| flagAck) &&
    s.ack == http.seq + 1

def addressed (http : HttpClient) (s : Segment) : Bool :=
  http.state != .idle && s.srcIp == http.ip && s.srcPort == http.port && s.dstPort == http.localPort

def segmentStep (net : Net) (s : Segment) : Except Fault Net :=
  if s.has flagRst then .ok { net with http := { net.http with state := .error } }
  else if isSynAck net.http s then
    (sendAck { net with http := { net.http with seq := net.http.seq + 1, ack := s.seq + 1 } }).map
      fun net => { net with http := { net.http with state := .established } }
  else (dataStep net s).bind fun net => finStep net s

/-- The part of `len` data bytes that `http_append` copies: where it starts and how long it is. -/
def copied (http : HttpClient) (seq : UInt32) (len : ℕ) : ℕ × ℕ :=
  let room := httpBufSize - 1 - http.response.length
  if http.state = .requestSent ∨ http.state = .established then
    if seq = http.ack then (0, min len room)
    else if seq < http.ack ∧ (http.ack - seq).toNat < len then
      ((http.ack - seq).toNat, min (len - (http.ack - seq).toNat) room)
    else (0, 0)
  else (0, 0)

/-- `ip_payload` is the frame from `p` on. -/
def handleTcpPayload (net : Net) (frame : List UInt8) (p : ℕ) (payloadLen : UInt16)
    (srcIp : UInt32) : Except Fault Net :=
  if payloadLen < 20 then .ok net
  else do
    let srcPort ← rd16be frame p
    let dstPort ← rd16be frame (p + 2)
    if net.http.state = .idle ∨ srcIp ≠ net.http.ip ∨ srcPort ≠ net.http.port ∨
        dstPort ≠ net.http.localPort then .ok net
    else do
      let seq ← rd32be frame (p + 4)
      let ack ← rd32be frame (p + 8)
      let offset ← load frame (p + 12)
      let flags ← load frame (p + 13)
      let hdrLen := (offset >>> 4).toNat * 4
      if hdrLen < 20 ∨ payloadLen.toNat < hdrLen then .ok net
      else do
        let dataLen := payloadLen.toNat - hdrLen
        let segment : Segment := ⟨srcIp, srcPort, dstPort, seq, ack, flags,
          (frame.drop (p + hdrLen)).take dataLen⟩
        if !segment.has flagRst then
          let (offset, n) := copied net.http seq dataLen
          let _ ← loadBytes frame (p + hdrLen + offset) n
        segmentStep net segment

structure Request where
  host : List UInt8
  path : List UInt8
  port : UInt16
  rangeStart : UInt64
  rangeEnd : UInt64

def Request.pathOrRoot (q : Request) : List UInt8 := if q.path = [] then [47] else q.path

def Request.portOrHttp (q : Request) : UInt16 := if q.port = 0 then 80 else q.port

def Request.useRange (q : Request) : Bool :=
  q.rangeEnd ≥ q.rangeStart && (q.rangeStart != 0 || q.rangeEnd != 0)

def Request.serves (q : Request) (http : HttpClient) : Bool :=
  http.host == q.host && http.path == q.pathOrRoot && http.port == q.portOrHttp &&
    http.useRange == q.useRange &&
    (!q.useRange || (http.rangeStart == q.rangeStart && http.rangeEnd == q.rangeEnd))

/-- The outcome of a poll: the size and the bytes put into the caller's buffer, or the text that
tells why there are none. -/
inductive Outcome where
  | success (outSize : ℕ) (delivered : List UInt8)
  | pending (state : String)
  deriving DecidableEq

def digits (value : UInt64) : List UInt8 := ascii (toString value.toNat)

def addText (request text : List UInt8) : List UInt8 := request ++ text.take (255 - request.length)

def requestText (http : HttpClient) : List UInt8 :=
  let request := addText [] (ascii "GET ")
  let request := addText request http.path
  let request := addText request (ascii " HTTP/1.0\r\nHost: ")
  let request := addText request http.host
  let request := addText request (ascii "\r\nUser-Agent: K64-kcurl/1.0\r\n")
  let request :=
    if http.useRange ∧ request.length + 48 < 256 then
      let request := addText request (ascii "Range: bytes=")
      let request := addText request (digits http.rangeStart)
      let request := addText request [45]
      let request := addText request (digits http.rangeEnd)
      if request.length + 2 < 256 then request ++ [13, 10] else request
    else request
  addText request (ascii "Connection: close\r\n\r\n")

/-- The label `done`: the response is judged and its body delivered. The buffer has `capacity`
bytes; a null buffer has none. -/
def deliver (net : Net) (capacity : ℕ) : Outcome × Net :=
  let failed (state : String) : Outcome × Net :=
    (.pending state, { net with http := { net.http with state := .error } })
  match httpFindBody net.http.response with
  | none => failed "bad http response"
  | some body =>
    if body.status < 200 ∨ body.status ≥ 300 then failed "http status error"
    else if net.http.useRange ∧ body.status ≠ 206 then failed "range unsupported"
    else
      let size := net.http.response.length - body.headerSize
      if body.contentLength.any fun length => UInt64.ofNat size != length then
        failed "incomplete download"
      else if 0 < capacity ∧ capacity < size then failed "buffer too small"
      else (.success size ((net.http.response.drop body.headerSize).take capacity), net)

def openConnection (net : Net) (q : Request) : Net :=
  { net with
    nextTcpPort := net.nextTcpPort + 1
    http :=
      { state := .resolve
        host := copyText 64 q.host
        path := copyText 128 q.pathOrRoot
        ip := 0
        port := q.portOrHttp
        localPort := net.nextTcpPort
        useRange := q.useRange
        rangeStart := q.rangeStart
        rangeEnd := q.rangeEnd
        seq := 0x4B640000 + net.nextTcpPort.toUInt32
        ack := 0
        response := [] } }

def withState (net : Net) (state : HttpState) : Net := { net with http := { net.http with state := state } }

/-- The poll in `HTTP_ARP`: the connection is asked for once the peer's address is known. -/
def sendSyn (net : Net) : Except Fault (Outcome × Net) :=
  match resolveMac net net.http.ip with
  | (none, net) => .ok (.pending "resolving arp", net)
  | (some _, net) => do
    let (sent, net) ← sendTcp net net.http.ip net.http.port net.http.localPort net.http.seq 0
      flagSyn []
    if sent then .ok (.pending "connecting", withState net .synSent)
    else .ok (.pending "tcp send failed", net)

/-- The poll in `HTTP_RESOLVE`. -/
def resolveName (net : Net) : Except Fault (Outcome × Net) := do
  let ((ip, waiting), net) ← k64NetResolveHost net net.http.host
  match ip with
  | none => .ok (.pending (if waiting then "resolving dns" else "dns failed"), net)
  | some ip => sendSyn { net with http := { net.http with state := .arp, ip := ip } }

def request (net : Net) : Except Fault (Outcome × Net) := do
  let text := requestText net.http
  let (sent, net) ← sendTcp net net.http.ip net.http.port net.http.localPort net.http.seq
    net.http.ack (flagPsh ||| flagAck) text
  if sent then
    .ok (.pending (if net.http.response = [] then "waiting" else "receiving"),
      { net with http := { net.http with
        seq := net.http.seq + UInt32.ofNat text.length
        state := .requestSent } })
  else .ok (.pending "request send failed", net)

def k64NetHttpGetRangeRaw (net : Net) (q : Request) (capacity : ℕ) :
    Except Fault (Outcome × Net) :=
  if q.host = [] then .ok (.pending "bad host", net)
  else
    let net :=
      if net.http.state = .idle ∨ net.http.state = .error ∨ !q.serves net.http then
        openConnection net q
      else net
    match net.http.state with
    | .resolve => resolveName net
    | .arp => sendSyn net
    | .synSent => .ok (.pending "connecting", net)
    | .established => request net
    | .requestSent =>
      .ok (.pending (if net.http.response = [] then "waiting" else "receiving"), net)
    | .done => .ok (deliver net capacity)
    | .idle => .ok (.pending "error", net)
    | .error => .ok (.pending "error", net)

end NetHttp
