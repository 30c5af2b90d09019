import K64.KpmSourceList
import K64.NetDownload
import K64.Yields

/-! # Requests and their polls

What a request says, and what happens to the connection between two polls of the same request. -/
namespace NetRequests

open NetState NetHttp NetReceive NetBounds NetStream

variable {net net' : Net} {q : Request} {frame : List UInt8}

def rangeLine (q : Request) : List UInt8 :=
  ascii "Range: bytes=" ++ digits q.rangeStart ++ ascii "-" ++ digits q.rangeEnd ++ ascii "\r\n"

def wholeRequest (q : Request) : List UInt8 :=
  ascii "GET " ++ q.pathOrRoot ++ ascii " HTTP/1.0\r\n" ++
    (ascii "Host: " ++ q.host ++ ascii "\r\n") ++ ascii "User-Agent: K64-kcurl/1.0\r\n" ++
    (if q.useRange then rangeLine q else []) ++ ascii "Connection: close\r\n" ++ ascii "\r\n"

/-- The text is passed to `send_tcp`, and the poll ends. -/
def sendRequest (net : Net) (text : List UInt8) : Except Fault (Outcome × Net) := do
  let (sent, net) ← sendTcp net net.http.ip net.http.port net.http.localPort net.http.seq
    net.http.ack (flagPsh ||| flagAck) text
  if sent then
    .ok (.pending (if net.http.response = [] then "waiting" else "receiving"),
      { net with http := { net.http with
        seq := net.http.seq + UInt32.ofNat text.length
        state := .requestSent } })
  else .ok (.pending "request send failed", net)

/-- The lines fit into the buffer of 256 bytes, and the range line passes its guard. -/
def Fits (q : Request) : Prop :=
  if q.useRange then q.pathOrRoot.length + q.host.length ≤ 157 ∧ q.pathOrRoot.length +
    q.host.length + (digits q.rangeStart).length + (digits q.rangeEnd).length ≤ 168
  else q.pathOrRoot.length + q.host.length ≤ 184

structure Serves (q : Request) (http : HttpClient) : Prop where
  host : http.host = q.host
  path : http.path = q.pathOrRoot
  port : http.port = q.portOrHttp
  useRange : http.useRange = q.useRange
  range : q.useRange = true → http.rangeStart = q.rangeStart ∧ http.rangeEnd = q.rangeEnd

theorem serves_iff (q : Request) (http : HttpClient) : q.serves http = true ↔ Serves q http := by
  constructor
  · intro h
    simp only [Request.serves, Bool.and_eq_true, Bool.or_eq_true, Bool.not_eq_true', beq_iff_eq] at h
    obtain ⟨⟨⟨⟨hhost, hpath⟩, hport⟩, huse⟩, hrange⟩ := h
    refine ⟨hhost, hpath, hport, huse, fun hu => ?_⟩
    rw [hu] at hrange
    exact hrange.resolve_left (by decide)
  · rintro ⟨hhost, hpath, hport, huse, hrange⟩
    simp only [Request.serves, Bool.and_eq_true, Bool.or_eq_true, Bool.not_eq_true', beq_iff_eq]
    refine ⟨⟨⟨⟨hhost, hpath⟩, hport⟩, huse⟩, ?_⟩
    cases hu : q.useRange with
    | false => exact .inl rfl
    | true => exact .inr (hrange hu)

theorem addText_pieces (pieces : List (List UInt8)) : ∀ request : List UInt8,
    request.length + pieces.flatten.length ≤ 255 →
    pieces.foldl addText request = request ++ pieces.flatten := by
  induction pieces with
  | nil => exact fun request _ => (List.append_nil request).symm
  | cons text pieces ih =>
    intro request h
    rw [List.flatten_cons, List.length_append] at h
    rw [List.foldl_cons, addText, List.take_of_length_le (by omega),
      ih _ (by rw [List.length_append]; omega), List.flatten_cons, List.append_assoc]

theorem addText_fits {request text : List UInt8} (h : request.length + text.length ≤ 255) :
    addText request text = request ++ text := by
  rw [addText, List.take_of_length_le (by omega)]

def startLines (q : Request) : List UInt8 :=
  ascii "GET " ++ q.pathOrRoot ++ ascii " HTTP/1.0\r\nHost: " ++ q.host ++
    ascii "\r\nUser-Agent: K64-kcurl/1.0\r\n"

theorem length_startLines (q : Request) :
    (startLines q).length = q.pathOrRoot.length + q.host.length + 50 := by
  have h₁ : (ascii "GET ").length = 4 := by decide
  have h₂ : (ascii " HTTP/1.0\r\nHost: ").length = 17 := by decide
  have h₃ : (ascii "\r\nUser-Agent: K64-kcurl/1.0\r\n").length = 29 := by decide
  simp only [startLines, List.length_append, h₁, h₂, h₃]
  omega

theorem wholeRequest_eq (q : Request) : wholeRequest q =
    startLines q ++ (if q.useRange then rangeLine q else []) ++ ascii "Connection: close\r\n\r\n" := by
  have h₁ : ascii " HTTP/1.0\r\nHost: " = ascii " HTTP/1.0\r\n" ++ ascii "Host: " := by decide
  have h₂ : ascii "\r\nUser-Agent: K64-kcurl/1.0\r\n" =
    ascii "\r\n" ++ ascii "User-Agent: K64-kcurl/1.0\r\n" := by decide
  have h₃ : ascii "Connection: close\r\n\r\n" = ascii "Connection: close\r\n" ++ ascii "\r\n" := by
    decide
  rw [wholeRequest, startLines, h₁, h₂, h₃]
  simp only [List.append_assoc]

theorem length_rangeLine (q : Request) : (rangeLine q).length =
    (digits q.rangeStart).length + (digits q.rangeEnd).length + 16 := by
  have h₁ : (ascii "Range: bytes=").length = 13 := by decide
  have h₂ : (ascii "-").length = 1 := by decide
  have h₃ : (ascii "\r\n").length = 2 := by decide
  simp only [rangeLine, List.length_append, h₁, h₂, h₃]
  omega

theorem length_close : (ascii "Connection: close\r\n\r\n").length = 21 := by decide

theorem fits_iff (q : Request) : Fits q ↔ (wholeRequest q).length ≤ 255 ∧
    (q.useRange = true → (startLines q).length + 48 < 256) := by
  have hlen : (wholeRequest q).length = (startLines q).length +
      (if q.useRange then rangeLine q else []).length + 21 := by
    rw [wholeRequest_eq, List.length_append, List.length_append, length_close]
  rw [hlen, length_startLines, Fits]
  cases q.useRange with
  | false =>
    simp only [Bool.false_eq_true, if_false, List.length_nil, false_implies, and_true]
    omega
  | true =>
    simp only [if_true, length_rangeLine, true_implies]
    omega

variable {http : HttpClient}

theorem startLines_text (h : Serves q http)
    (hlen : (startLines q).length ≤ 255) :
    addText (addText (addText (addText (addText [] (ascii "GET ")) http.path)
      (ascii " HTTP/1.0\r\nHost: ")) http.host) (ascii "\r\nUser-Agent: K64-kcurl/1.0\r\n") =
      startLines q := by
  have hflat : [ascii "GET ", q.pathOrRoot, ascii " HTTP/1.0\r\nHost: ", q.host,
      ascii "\r\nUser-Agent: K64-kcurl/1.0\r\n"].flatten = startLines q := by
    simp only [List.flatten_cons, List.flatten_nil, List.append_nil, startLines, List.append_assoc]
  have hall := addText_pieces _ [] (by rw [hflat, List.length_nil, Nat.zero_add]; exact hlen)
  rw [hflat] at hall
  rw [h.path, h.host]
  exact hall

theorem requestText_serves (h : Serves q http)
    (hlen : (startLines q).length ≤ 255) : requestText http = addText
      (if q.useRange ∧ (startLines q).length + 48 < 256 then
        let request := addText (startLines q) (ascii "Range: bytes=")
        let request := addText request (digits http.rangeStart)
        let request := addText request [45]
        let request := addText request (digits http.rangeEnd)
        if request.length + 2 < 256 then request ++ [13, 10] else request
      else startLines q) (ascii "Connection: close\r\n\r\n") := by
  rw [requestText]
  dsimp only
  rw [startLines_text h hlen, h.useRange]

theorem requestText_whole (h : Serves q http) (hfits : Fits q) :
    requestText http = wholeRequest q := by
  obtain ⟨hlen, hguard⟩ := (fits_iff q).mp hfits
  rw [wholeRequest_eq, List.length_append, List.length_append, length_close] at hlen
  rw [requestText_serves h (by omega), wholeRequest_eq]
  cases hu : q.useRange with
  | false =>
    rw [if_neg (by simp), if_neg (by simp), List.append_nil, addText_fits]
    rw [length_close]
    omega
  | true =>
    rw [hu, if_pos rfl, length_rangeLine] at hlen
    obtain ⟨hstart, hend⟩ := h.range hu
    have hflat : startLines q ++ [ascii "Range: bytes=", digits q.rangeStart, [45],
        digits q.rangeEnd].flatten ++ [13, 10] = startLines q ++ rangeLine q := by
      have hminus : ascii "-" = [45] := by decide
      have hcrlf : ascii "\r\n" = [13, 10] := by decide
      simp only [List.flatten_cons, List.flatten_nil, List.append_nil, rangeLine, hminus, hcrlf,
        List.append_assoc]
    have hsum := congrArg List.length hflat
    rw [List.length_append, List.length_append, List.length_append, length_rangeLine,
      List.length_cons, List.length_singleton] at hsum
    have hall := addText_pieces [ascii "Range: bytes=", digits q.rangeStart, [45],
      digits q.rangeEnd] (startLines q) (by omega)
    simp only [List.foldl_cons, List.foldl_nil] at hall
    rw [if_pos ⟨rfl, hguard hu⟩, if_pos rfl]
    dsimp only
    rw [hstart, hend, hall, if_pos (by rw [List.length_append]; omega), hflat, addText_fits]
    rw [List.length_append, length_rangeLine, length_close]
    omega

theorem whole_fits (h : Serves q http)
    (htext : requestText http = wholeRequest q) : Fits q := by
  have hlen := length_requestText http
  rw [htext] at hlen
  refine (fits_iff q).mpr ⟨hlen, fun hu => ?_⟩
  by_contra hguard
  have hlens := hlen
  rw [wholeRequest_eq, List.length_append, List.length_append, length_close] at hlens
  rw [requestText_serves h (by omega), if_neg (fun hc => hguard hc.2), addText_fits
    (by rw [length_close]; omega)] at htext
  have hsame := congrArg List.length htext
  rw [wholeRequest_eq, hu, if_pos rfl, List.length_append, List.length_append, List.length_append,
    length_rangeLine] at hsame
  omega

theorem established_request {capacity : ℕ} (hhost : q.host ≠ [])
    (hstate : net.http.state = .established) (hserves : q.serves net.http = true) :
    k64NetHttpGetRangeRaw net q capacity = sendRequest net (requestText net.http) := by
  have hopen : ¬(net.http.state = .idle ∨ net.http.state = .error ∨ !q.serves net.http) := by
    rw [hstate, hserves]
    decide
  unfold k64NetHttpGetRangeRaw
  rw [if_neg hhost, if_neg hopen]
  dsimp only
  rw [hstate]
  rfl

/-- The poll that finds the connection established passes the whole request on exactly when its lines
fit. -/
theorem request_whole_iff (net : Net) (q : Request) (capacity : ℕ) (hhost : q.host ≠ [])
    (hstate : net.http.state = .established) (hserves : q.serves net.http = true) :
    k64NetHttpGetRangeRaw net q capacity = sendRequest net (requestText net.http) ∧
      (requestText net.http = wholeRequest q ↔ Fits q) :=
  have h := (serves_iff q net.http).mp hserves
  ⟨established_request hhost hstate hserves, whole_fits h, requestText_whole h⟩

theorem copyText_eq {size : ℕ} {src : List UInt8} (hzero : 0 ∉ src) (h : src.length < size) :
    copyText size src = src := by
  have hall : src.takeWhile (· ≠ 0) = src :=
    Scanning.takeWhile_all fun c hc => decide_eq_true fun h0 => hzero (h0 ▸ hc)
  rw [copyText, hall, List.take_of_length_le (by omega)]

theorem openConnection_serves (net : Net) (hhost : copyText 64 q.host = q.host)
    (hpath : copyText 128 q.pathOrRoot = q.pathOrRoot) : Serves q (openConnection net q).http :=
  ⟨hhost, hpath, rfl, rfl, fun _ => ⟨rfl, rfl⟩⟩

def establishedFor (q : Request) : Net := withState (openConnection k64NetInit q) .established

theorem request_whole_sample : k64NetHttpGetRangeRaw (establishedFor NetDownload.sampleRequest)
    NetDownload.sampleRequest 16 = sendRequest (establishedFor NetDownload.sampleRequest)
      (requestText (establishedFor NetDownload.sampleRequest).http) ∧
    (requestText (establishedFor NetDownload.sampleRequest).http =
      wholeRequest NetDownload.sampleRequest ↔ Fits NetDownload.sampleRequest) :=
  request_whole_iff _ _ 16 (by decide) rfl (by decide)

def longestRequest : Request :=
  ⟨List.replicate 63 104, 47 :: List.replicate 126 97, 80, 0, 0⟩

theorem longest_serves : Serves longestRequest (establishedFor longestRequest).http :=
  have hpath : longestRequest.pathOrRoot = 47 :: List.replicate 126 97 := rfl
  have h := openConnection_serves (q := longestRequest) k64NetInit
    (copyText_eq (by simp [longestRequest]) (by simp [longestRequest]))
    (copyText_eq (by simp [hpath]) (by simp [hpath]))
  ⟨h.host, h.path, h.port, h.useRange, h.range⟩

/-- The request ends in the middle of its last lines. -/
theorem longest_request_cut : ¬∀ (net : Net) (q : Request) (capacity : ℕ), q.host ≠ [] →
    q.host.length < 64 → q.pathOrRoot.length < 128 → net.http.state = .established →
    q.serves net.http = true →
    k64NetHttpGetRangeRaw net q capacity = sendRequest net (requestText net.http) ∧
      requestText net.http = wholeRequest q := by
  intro h
  have hhost : longestRequest.host.length = 63 := List.length_replicate
  have hpath : longestRequest.pathOrRoot.length = 127 := by
    simp [longestRequest, Request.pathOrRoot]
  have htext := (h (establishedFor longestRequest) longestRequest 16
    (List.ne_nil_of_length_pos (by omega)) (by omega) (by omega) rfl
    ((serves_iff _ _).mpr longest_serves)).2
  have hfits := whole_fits longest_serves htext
  have hrange : longestRequest.useRange = false := rfl
  rw [Fits, hrange, if_neg Bool.false_ne_true] at hfits
  omega

/-- A step of the connection for the same request: nothing received is thrown away, and the numbers are
those of the connection. -/
structure Continued (http http' : HttpClient) : Prop where
  response : http'.response = http.response
  localPort : http'.localPort = http.localPort
  seq : http'.seq = http.seq ∨ http.state = .established ∧
    http'.seq = http.seq + UInt32.ofNat (requestText http).length

structure SameRequest (http http' : HttpClient) : Prop where
  host : http'.host = http.host
  path : http'.path = http.path
  port : http'.port = http.port
  useRange : http'.useRange = http.useRange
  rangeStart : http'.rangeStart = http.rangeStart
  rangeEnd : http'.rangeEnd = http.rangeEnd
  busy : http.state ≠ .idle → http'.state ≠ .idle

theorem SameRequest.refl (http : HttpClient) : SameRequest http http :=
  ⟨rfl, rfl, rfl, rfl, rfl, rfl, id⟩

theorem SameRequest.trans {a b c : HttpClient} (h : SameRequest a b) (h' : SameRequest b c) :
    SameRequest a c :=
  ⟨h'.host.trans h.host, h'.path.trans h.path, h'.port.trans h.port, h'.useRange.trans h.useRange,
    h'.rangeStart.trans h.rangeStart, h'.rangeEnd.trans h.rangeEnd, fun hs => h'.busy (h.busy hs)⟩

variable {http' : HttpClient}

theorem SameRequest.serves (h : SameRequest http http')
    (hs : Serves q http) : Serves q http' where
  host := h.host.trans hs.host
  path := h.path.trans hs.path
  port := h.port.trans hs.port
  useRange := h.useRange.trans hs.useRange
  range := fun hu => ⟨h.rangeStart.trans (hs.range hu).1, h.rangeEnd.trans (hs.range hu).2⟩

theorem sendIpv4From_http (net : Net) (dstMac : List UInt8) (srcIp dstIp : UInt32) (proto : UInt8)
    (payload : List UInt8) (payloadLen : UInt16) :
    Yields (fun r => r.2.http = net.http)
      (sendIpv4From net dstMac srcIp dstIp proto payload payloadLen) := by
  unfold sendIpv4From
  dsimp only
  split
  · exact Yields.ok rfl
  · refine Yields.following fun body => ?_
    split
    · exact Yields.error _
    · exact Yields.ok (sendFrame_http _ _)

theorem sendTcp_http (net : Net) (dstIp : UInt32) (dstPort srcPort : UInt16) (seq ack : UInt32)
    (flags : UInt8) (payload : List UInt8) : Yields (fun r => r.2.http = net.http)
      (sendTcp net dstIp dstPort srcPort seq ack flags payload) := by
  unfold sendTcp
  dsimp only
  split
  · exact Yields.ok rfl
  · have hmac := resolveMac_http net dstIp
    split
    next net' h =>
      rw [h] at hmac
      exact Yields.ok hmac
    next mac net' h =>
      rw [h] at hmac
      split
      · exact Yields.error _
      · exact (sendIpv4From_http _ _ _ _ _ _ _).mono fun r hr => hr.trans hmac

theorem sendDnsQuery_http (net : Net) (host : List UInt8) :
    Yields (fun r => r.2.http = net.http) (sendDnsQuery net host) := by
  unfold sendDnsQuery
  split
  · exact Yields.ok rfl
  · have hmac := resolveMac_http net net.gateway
    split
    next net' h =>
      rw [h] at hmac
      exact Yields.ok hmac
    next mac net' h =>
      rw [h] at hmac
      dsimp only
      refine Yields.bind (sendIpv4From_http _ _ _ _ _ _ _) fun r h₁ => ?_
      obtain ⟨sent, net₁⟩ := r
      dsimp only
      split
      · refine Yields.bind (sendIpv4From_http _ _ _ _ _ _ _) fun r h₂ => ?_
        obtain ⟨sent', net₂⟩ := r
        exact Yields.ok ((h₂.trans h₁).trans hmac)
      · exact Yields.ok (h₁.trans hmac)

theorem sendDhcpRequest_http (net : Net) (requestedIp serverIp : UInt32) :
    Yields (fun r => r.2.http = net.http) (sendDhcpRequest net requestedIp serverIp) := by
  unfold sendDhcpRequest sendDhcpMessage
  split
  · exact Yields.ok rfl
  · exact sendIpv4From_http _ _ _ _ _ _ _

theorem resolveHost_http (net : Net) (host : List UInt8) :
    Yields (fun r => r.2.http = net.http) (k64NetResolveHost net host) := by
  unfold k64NetResolveHost
  split
  · exact Yields.ok rfl
  split
  · exact Yields.ok rfl
  split
  · exact Yields.ok rfl
  split
  · exact Yields.ok rfl
  · exact (sendDnsQuery_http net host).map fun r hr => hr

theorem answered_http (net : Net) (ip : UInt32) : (answered net ip).http = net.http := by
  unfold answered dnsCachePut
  dsimp only
  split <;> rfl

theorem handleDns_http (net : Net) (frame : List UInt8) (udp : ℕ) (udpLen : UInt16) :
    Yields (fun n => n.http = net.http) (handleDnsPayload net frame udp udpLen) := by
  have hsame : Yields (fun n : Net => n.http = net.http) (.ok net : Except Fault Net) := Yields.ok rfl
  unfold handleDnsPayload
  split
  · exact hsame
  · refine Yields.following fun _ => Yields.following fun _ => ?_
    split
    · exact hsame
    · refine Yields.following fun _ => ?_
      split
      · exact hsame
      · refine Yields.following fun _ => Yields.following fun _ => Yields.following fun _ =>
          Yields.following fun found => ?_
        split
        · exact hsame
        · exact Yields.ok (answered_http _ _)

theorem handleDhcp_http (net : Net) (frame : List UInt8) (udp : ℕ) (udpLen : UInt16) :
    Yields (fun n => n.http = net.http) (handleDhcpPayload net frame udp udpLen) := by
  have hsame : Yields (fun n : Net => n.http = net.http) (.ok net : Except Fault Net) := Yields.ok rfl
  unfold handleDhcpPayload
  split
  · exact hsame
  · refine Yields.following fun _ => Yields.following fun _ => ?_
    split
    · exact hsame
    · refine Yields.following fun _ => ?_
      split
      · exact hsame
      · refine Yields.following fun _ => ?_
        split
        · exact hsame
        · refine Yields.following fun _ => Yields.following fun o => ?_
          split
          · exact (sendDhcpRequest_http _ _ _).map fun r hr => hr
          · split
            · exact Yields.ok rfl
            · exact hsame

theorem handleIcmp_http (net : Net) (frame : List UInt8) (icmp : ℕ) (icmpLen : UInt16)
    (dstMac : List UInt8) (srcIp : UInt32) :
    Yields (fun n => n.http = net.http) (handleIcmp net frame icmp icmpLen dstMac srcIp) := by
  unfold handleIcmp
  split
  · exact Yields.ok rfl
  · refine Yields.following fun type => ?_
    split
    · exact Yields.ok rfl
    split
    · unfold echoReply
      refine Yields.following fun request => ?_
      split
      · exact Yields.error _
      · exact (sendIpv4From_http _ _ _ _ _ _ _).map fun r hr => hr
    · exact Yields.ok rfl

theorem takeData_same (http : HttpClient) (s : Segment) : SameRequest http (takeData http s) := by
  unfold takeData
  dsimp only
  split_ifs
  · exact ⟨rfl, rfl, rfl, rfl, rfl, rfl, id⟩
  · exact ⟨rfl, rfl, rfl, rfl, rfl, rfl, id⟩
  · exact SameRequest.refl http

theorem httpStep_same (http : HttpClient) (s : Segment) : SameRequest http (httpStep http s) := by
  have hdone : ∀ (http : HttpClient) (ack : UInt32),
      SameRequest http { http with ack := ack, state := .done } := fun _ _ =>
    ⟨rfl, rfl, rfl, rfl, rfl, rfl, fun _ h => by cases h⟩
  have hdata : SameRequest http (dataHttp http s) := by
    unfold dataHttp
    split_ifs
    · exact (takeData_same http s).trans (hdone _ _)
    · exact takeData_same http s
    · exact SameRequest.refl http
  unfold httpStep
  split_ifs
  · exact ⟨rfl, rfl, rfl, rfl, rfl, rfl, fun _ h => by cases h⟩
  · exact ⟨rfl, rfl, rfl, rfl, rfl, rfl, fun _ h => by cases h⟩
  · apply hdata.trans
    unfold finHttp
    split_ifs
    · exact hdone _ _
    · exact hdone _ _
    · exact SameRequest.refl _

section Received

variable (hnet : net.http = http) (frame : List UInt8)

include hnet

theorem handleTcp_same (p : ℕ) (payloadLen : UInt16) (srcIp : UInt32) :
    Yields (fun n => SameRequest http n.http)
      (handleTcpPayload net frame p payloadLen srcIp) := by
  subst hnet
  have hsame : Yields (fun n : Net => SameRequest net.http n.http) (.ok net : Except Fault Net) :=
    Yields.ok (SameRequest.refl _)
  have hsegment : ∀ s, Yields (fun n : Net => SameRequest net.http n.http) (segmentStep net s) := by
    intro s n hn
    obtain ⟨n', hn', hhttp⟩ := segmentStep_eq net s
    rw [hn'] at hn
    rw [← Except.ok.inj hn, hhttp]
    exact httpStep_same net.http s
  unfold handleTcpPayload
  split
  · exact hsame
  · refine Yields.following fun _ => Yields.following fun _ => ?_
    split
    · exact hsame
    · refine Yields.following fun _ => Yields.following fun _ => Yields.following fun _ =>
        Yields.following fun _ => ?_
      dsimp only
      split
      · exact hsame
      · split
        · exact Yields.following fun _ => hsegment _
        · exact hsegment _

theorem handleUdp_same (p : ℕ) (payloadLen : UInt16) : Yields (fun n => SameRequest http n.http) (do
      let net ← handleDnsPayload net frame p payloadLen
      handleDhcpPayload net frame p payloadLen) := by
  subst hnet
  refine Yields.bind (handleDns_http net frame p payloadLen) fun n hn => ?_
  refine (handleDhcp_http n frame p payloadLen).mono fun n' hn' => ?_
  rw [hn', hn]
  exact SameRequest.refl _

theorem handleIpv4_same (ihl : ℕ) (ipLen : UInt16) (proto : UInt8) (srcIp : UInt32) :
    Yields (fun n => SameRequest http n.http) (handleIpv4 net frame ihl ipLen proto srcIp) := by
  unfold handleIpv4
  refine Yields.following fun dstMac => ?_
  dsimp only
  split
  · exact handleUdp_same (by exact hnet) _ _ _
  split
  · refine (handleIcmp_http _ _ _ _ _ _).mono fun n hn => ?_
    rw [hn]
    exact hnet ▸ SameRequest.refl _
  split
  · exact handleTcp_same (by exact hnet) _ _ _ _
  · exact Yields.ok (hnet ▸ SameRequest.refl _)

theorem receiveArp_same : Yields (fun n => SameRequest http n.http) (receiveArp net frame) := by
  subst hnet
  unfold receiveArp
  refine Yields.following fun _ => Yields.following fun _ => Yields.following fun _ =>
    Yields.following fun _ => ?_
  dsimp only
  split
  · refine Yields.ok ?_
    rw [sendArpReply, sendFrame_http]
    exact SameRequest.refl _
  · exact Yields.ok (SameRequest.refl _)

theorem receiveIpv4_same (len : UInt16) (version : UInt8) :
    Yields (fun n => SameRequest http n.http) (receiveIpv4 net frame len version) := by
  unfold receiveIpv4
  refine Yields.following fun _ => Yields.following fun _ => Yields.following fun _ =>
    Yields.following fun _ => ?_
  split
  · exact handleIpv4_same (by exact hnet) _ _ _ _ _
  · exact Yields.ok (hnet ▸ SameRequest.refl _)

end Received

theorem receiveFrame_same (net : Net) (frame : List UInt8) :
    Yields (fun n => SameRequest net.http n.http) (k64NetReceiveFrame net frame) := by
  have hrefl := SameRequest.refl net.http
  unfold k64NetReceiveFrame
  dsimp only
  split
  · exact Yields.ok hrefl
  · refine Yields.following fun mac => ?_
    split
    · exact Yields.ok hrefl
    · refine Yields.following fun type => ?_
      split
      · exact receiveArp_same (by rfl) frame
      split
      · refine Yields.following fun version => ?_
        split
        · exact receiveIpv4_same (by rfl) frame _ _
        · exact Yields.ok hrefl
      · exact Yields.ok hrefl

def Advances (http http' : HttpClient) : Prop := ∃ ip state seq,
  (http.state ≠ .idle → state ≠ .idle) ∧ (seq = http.seq ∨ http.state = .established ∧
    seq = http.seq + UInt32.ofNat (requestText http).length) ∧
  http' = { http with ip := ip, state := state, seq := seq }

theorem Advances.refl (http : HttpClient) : Advances http http := ⟨_, _, _, id, .inl rfl, rfl⟩

theorem Advances.moved (ip : UInt32) {state : HttpState}
    (hstate : state ≠ .idle) (h : http' = { http with ip := ip, state := state }) :
    Advances http http' := ⟨ip, state, http.seq, fun _ => hstate, .inl rfl, h⟩

theorem Advances.same (h : Advances http http') :
    SameRequest http http' := by
  obtain ⟨ip, state, seq, hstate, -, rfl⟩ := h
  exact ⟨rfl, rfl, rfl, rfl, rfl, rfl, hstate⟩

theorem Advances.continued (h : Advances http http') :
    Continued http http' := by
  obtain ⟨ip, state, seq, -, hseq, rfl⟩ := h
  exact ⟨rfl, rfl, hseq⟩

theorem sendSyn_http (net : Net) : Yields (fun r => r.2.http = net.http ∨
    r.2.http = { net.http with state := .synSent }) (sendSyn net) := by
  have hmac := resolveMac_http net net.http.ip
  unfold sendSyn
  split
  next net' h =>
    rw [h] at hmac
    exact Yields.ok (.inl hmac)
  next mac net' h =>
    rw [h] at hmac
    refine Yields.bind (sendTcp_http _ _ _ _ _ _ _ _) fun r hr => ?_
    obtain ⟨sent, net₁⟩ := r
    dsimp only at hr hmac ⊢
    split
    · refine Yields.ok (.inr ?_)
      rw [withState, hr, hmac]
    · exact Yields.ok (.inl (hr.trans hmac))

theorem resolveName_advances (net : Net) :
    Yields (fun r => Advances net.http r.2.http) (resolveName net) := by
  unfold resolveName
  refine Yields.bind (resolveHost_http net net.http.host) fun r hr => ?_
  obtain ⟨⟨ip, waiting⟩, net₁⟩ := r
  dsimp only at hr ⊢
  split
  · refine Yields.ok ?_
    rw [hr]
    exact Advances.refl _
  next ip =>
    refine (sendSyn_http _).mono fun r h => ?_
    dsimp only at h
    rw [hr] at h
    rcases h with h | h
    · exact Advances.moved ip (by decide) h
    · exact Advances.moved ip (by decide) h

theorem sendSyn_advances (net : Net) : Yields (fun r => Advances net.http r.2.http) (sendSyn net) := by
  refine (sendSyn_http net).mono fun r h => ?_
  rcases h with h | h
  · rw [h]
    exact Advances.refl _
  · exact Advances.moved net.http.ip (by decide) h

theorem request_advances (hstate : net.http.state = .established) :
    Yields (fun r => Advances net.http r.2.http) (request net) := by
  unfold request
  refine Yields.bind (sendTcp_http _ _ _ _ _ _ _ _) fun r hr => ?_
  obtain ⟨sent, net₁⟩ := r
  dsimp only at hr ⊢
  split
  · refine Yields.ok ?_
    dsimp only
    rw [hr]
    exact ⟨_, .requestSent, _, fun _ => (by decide), .inr ⟨hstate, rfl⟩, rfl⟩
  · refine Yields.ok ?_
    rw [hr]
    exact Advances.refl _

theorem deliver_advances (net : Net) (capacity : ℕ) :
    Advances net.http (deliver net capacity).2.http := by
  have hfailed : Advances net.http { net.http with state := .error } :=
    Advances.moved net.http.ip (by decide) rfl
  unfold deliver
  dsimp only
  split
  · exact hfailed
  · split_ifs
    · exact hfailed
    · exact hfailed
    · exact hfailed
    · exact hfailed
    · exact Advances.refl _

def Resets (q : Request) (http : HttpClient) : Prop :=
  http.state = .idle ∨ http.state = .error ∨ !q.serves http

theorem poll_cases (net : Net) (q : Request) (capacity : ℕ) (hhost : q.host ≠ []) :
    Yields (fun r => (¬Resets q net.http ∧ Advances net.http r.2.http) ∨
      (Resets q net.http ∧ Advances (openConnection net q).http r.2.http))
      (k64NetHttpGetRangeRaw net q capacity) := by
  unfold k64NetHttpGetRangeRaw Resets
  rw [if_neg hhost]
  by_cases hreset : net.http.state = .idle ∨ net.http.state = .error ∨ !q.serves net.http
  · rw [if_pos hreset]
    exact (resolveName_advances _).mono fun r h => .inr ⟨hreset, h⟩
  · have hgo : ∀ {x : Except Fault (Outcome × Net)},
        Yields (fun r => Advances net.http r.2.http) x →
        Yields (fun r => (¬(net.http.state = .idle ∨ net.http.state = .error ∨
          !q.serves net.http) ∧ Advances net.http r.2.http) ∨ ((net.http.state = .idle ∨
          net.http.state = .error ∨ !q.serves net.http) ∧
          Advances (openConnection net q).http r.2.http)) x :=
      fun hx => hx.mono fun r h => .inl ⟨hreset, h⟩
    rw [if_neg hreset]
    dsimp only
    split
    next => exact hgo (resolveName_advances net)
    next => exact hgo (sendSyn_advances net)
    next => exact hgo (Yields.ok (Advances.refl _))
    next hstate => exact hgo (request_advances hstate)
    next => exact hgo (Yields.ok (Advances.refl _))
    next => exact hgo (Yields.ok (deliver_advances net capacity))
    next => exact hgo (Yields.ok (Advances.refl _))
    next => exact hgo (Yields.ok (Advances.refl _))

/-- Polls of one request, between which any frames are received. -/
inductive PollRun (q : Request) (net₀ : Net) : Net → Prop where
  | first {capacity : ℕ} {o : Outcome} {net : Net}
      (polled : k64NetHttpGetRangeRaw net₀ q capacity = .ok (o, net)) : PollRun q net₀ net
  | poll {capacity : ℕ} {o : Outcome} {net net' : Net} (before : PollRun q net₀ net)
      (polled : k64NetHttpGetRangeRaw net q capacity = .ok (o, net')) : PollRun q net₀ net'
  | frame {frame : List UInt8} {net net' : Net} (before : PollRun q net₀ net)
      (handled : k64NetReceiveFrame net frame = .ok net') : PollRun q net₀ net'

/-- No poll after the first one throws the connection away, unless it failed. -/
def KeepsConnection (q : Request) : Prop :=
  ∀ (net₀ net net' : Net) (capacity : ℕ) (o : Outcome), PollRun q net₀ net →
    k64NetHttpGetRangeRaw net q capacity = .ok (o, net') →
    net.http.state = .error ∨ Continued net.http net'.http

structure Copied (q : Request) : Prop where
  host : copyText 64 q.host = q.host
  path : copyText 128 q.pathOrRoot = q.pathOrRoot

theorem poll_serves (hcopied : Copied q) {capacity : ℕ} {o : Outcome} (hhost : q.host ≠ [])
    (polled : k64NetHttpGetRangeRaw net q capacity = .ok (o, net')) :
    Serves q net'.http ∧ net'.http.state ≠ .idle := by
  rcases poll_cases net q capacity hhost _ polled with ⟨hreset, h⟩ | ⟨-, h⟩
  · rw [Resets, not_or, not_or, Bool.not_eq_true', Bool.not_eq_false] at hreset
    exact ⟨h.same.serves ((serves_iff q _).mp hreset.2.2), h.same.busy hreset.1⟩
  · exact ⟨h.same.serves (openConnection_serves net hcopied.host hcopied.path),
      h.same.busy fun hs => by cases hs⟩

theorem run_serves (hcopied : Copied q) (hhost : q.host ≠ []) {net₀ : Net}
    (h : PollRun q net₀ net) : Serves q net.http ∧ net.http.state ≠ .idle := by
  induction h with
  | first polled => exact poll_serves hcopied hhost polled
  | poll before polled ih => exact poll_serves hcopied hhost polled
  | @frame frame net net' before handled ih =>
    have hsame := receiveFrame_same net frame net' handled
    exact ⟨hsame.serves ih.1, hsame.busy ih.2⟩

theorem keeps_of_copied (hcopied : Copied q) : KeepsConnection q := by
  intro net₀ net net' capacity o hrun polled
  by_cases hhost : q.host = []
  · rw [k64NetHttpGetRangeRaw, if_pos hhost] at polled
    obtain ⟨-, rfl⟩ := Prod.mk.inj (Except.ok.inj polled)
    exact .inr (Advances.refl _).continued
  · obtain ⟨hserves, hidle⟩ := run_serves hcopied hhost hrun
    rcases poll_cases net q capacity hhost _ polled with ⟨-, h⟩ | ⟨hreset, -⟩
    · exact .inr h.continued
    · rcases hreset with hs | hs | hs
      · exact absurd hs hidle
      · exact .inl hs
      · rw [(serves_iff q _).mpr hserves] at hs
        cases hs

structure Cold (net : Net) : Prop where
  ready : net.ready = false
  arp : net.arp = []

theorem resolveMac_cold (h : Cold net) (ip : UInt32) : resolveMac net ip = (none, net) := by
  have hnone : ∀ ip, arpLookup net ip = none := fun ip => by rw [arpLookup, h.arp]; rfl
  have hsend : ∀ ip, k64NetSendArpRequest net ip = (false, net) := fun ip => by
    rw [k64NetSendArpRequest, h.ready]
    rfl
  unfold resolveMac
  dsimp only
  rw [hnone, hsend]

theorem resolveHost_cold (h : Cold net) (host : List UInt8) : ∃ a net',
    k64NetResolveHost net host = .ok (a, net') ∧ Cold net' ∧ net'.nextTcpPort = net.nextTcpPort := by
  have hquery : ∃ sent, sendDnsQuery net host = .ok (sent, net) := by
    unfold sendDnsQuery
    split
    · exact ⟨_, rfl⟩
    · rw [resolveMac_cold h]
      exact ⟨_, rfl⟩
  unfold k64NetResolveHost
  split
  · exact ⟨_, _, rfl, h, rfl⟩
  split
  · exact ⟨_, _, rfl, h, rfl⟩
  split
  · exact ⟨_, _, rfl, h, rfl⟩
  split
  · exact ⟨_, _, rfl, ⟨h.ready, h.arp⟩, rfl⟩
  · obtain ⟨sent, hsent⟩ := hquery
    rw [hsent]
    exact ⟨_, _, rfl, h, rfl⟩

theorem sendSyn_cold (h : Cold net) : sendSyn net = .ok (.pending "resolving arp", net) := by
  rw [sendSyn, resolveMac_cold h]

theorem resolveName_cold (h : Cold net) : ∃ o net', resolveName net = .ok (o, net') ∧ Cold net' ∧
    net'.nextTcpPort = net.nextTcpPort ∧
    (net'.http.state = net.http.state ∨ net'.http.state = .arp) := by
  obtain ⟨⟨ip, waiting⟩, net₁, hhost, hcold, hport⟩ := resolveHost_cold h net.http.host
  have hhttp := resolveHost_http net net.http.host _ hhost
  rw [resolveName, hhost]
  cases ip with
  | none => exact ⟨_, net₁, rfl, hcold, hport, .inl (by rw [hhttp])⟩
  | some ip =>
    have hcold' : Cold { net₁ with http := { net₁.http with state := .arp, ip := ip } } :=
      ⟨hcold.ready, hcold.arp⟩
    exact ⟨_, _, sendSyn_cold hcold', hcold', hport, .inr rfl⟩

theorem reset_cold (h : Cold net) (hhost : q.host ≠ []) (hreset : Resets q net.http) : ∃ o net',
    k64NetHttpGetRangeRaw net q 0 = .ok (o, net') ∧ Cold net' ∧
    net'.nextTcpPort = net.nextTcpPort + 1 ∧ net'.http.localPort = net.nextTcpPort ∧
    net'.http.state ≠ .error ∧ SameRequest (openConnection net q).http net'.http := by
  obtain ⟨o, net', hok, hcold, hport, hstate⟩ :=
    resolveName_cold (show Cold (openConnection net q) from ⟨h.ready, h.arp⟩)
  have hpoll : k64NetHttpGetRangeRaw net q 0 = resolveName (openConnection net q) := by
    unfold Resets at hreset
    rw [k64NetHttpGetRangeRaw, if_neg hhost, if_pos hreset]
    rfl
  have hadv := resolveName_advances _ _ hok
  refine ⟨o, net', hpoll.trans hok, hcold, hport, hadv.continued.localPort, ?_, hadv.same⟩
  rcases hstate with hs | hs
  · rw [hs]
    exact HttpState.noConfusion
  · rw [hs]
    exact HttpState.noConfusion

theorem not_keeps (hhost : q.host ≠ []) (hcut : ¬Copied q) : ¬KeepsConnection q := by
  intro hkeeps
  obtain ⟨o₁, net₁, hpoll₁, hcold₁, hnext₁, hport₁, hstate₁, hsame₁⟩ :=
    reset_cold (show Cold k64NetInit from ⟨rfl, rfl⟩) hhost (.inl rfl)
  have hserves : ¬Serves q net₁.http := fun hs =>
    hcut ⟨hsame₁.host.symm.trans hs.host, hsame₁.path.symm.trans hs.path⟩
  have hreset₂ : Resets q net₁.http := by
    refine .inr (.inr ?_)
    rw [Bool.not_eq_true', ← Bool.not_eq_true, serves_iff]
    exact hserves
  obtain ⟨o₂, net₂, hpoll₂, -, -, hport₂, -, -⟩ := reset_cold hcold₁ hhost hreset₂
  rcases hkeeps k64NetInit net₁ net₂ 0 o₂ (.first hpoll₁) hpoll₂ with herr | hcont
  · exact hstate₁ herr
  · have hport := hcont.localPort
    rw [hport₂, hnext₁, hport₁] at hport
    revert hport
    decide

theorem copyText_iff {size : ℕ} {src : List UInt8} (hzero : 0 ∉ src) (hsize : 0 < size) :
    copyText size src = src ↔ src.length < size := by
  refine ⟨fun h => ?_, copyText_eq hzero⟩
  have hlen := congrArg List.length h
  rw [copyText, List.length_take] at hlen
  omega

theorem copied_iff (hhost : 0 ∉ q.host) (hpath : 0 ∉ q.path) :
    Copied q ↔ q.host.length < 64 ∧ q.pathOrRoot.length < 128 := by
  have hroot : 0 ∉ q.pathOrRoot := by
    unfold Request.pathOrRoot
    split
    · decide
    · exact hpath
  constructor
  · intro h
    exact ⟨(copyText_iff hhost (by decide)).mp h.host, (copyText_iff hroot (by decide)).mp h.path⟩
  · rintro ⟨hh, hp⟩
    exact ⟨copyText_eq hhost hh, copyText_eq hroot hp⟩

/-- The connection is kept between the polls of a request exactly when the client's copies of host and
path are whole. -/
theorem keeps_connection_iff (q : Request) (hhost : 0 ∉ q.host) (hpath : 0 ∉ q.path) :
    KeepsConnection q ↔ q.host = [] ∨ q.host.length < 64 ∧ q.pathOrRoot.length < 128 := by
  rw [← copied_iff hhost hpath]
  constructor
  · intro hkeeps
    by_contra hno
    rw [not_or] at hno
    exact not_keeps hno.1 hno.2 hkeeps
  · rintro (hnil | hcopied)
    · intro net₀ net net' capacity o _ polled
      rw [k64NetHttpGetRangeRaw, if_pos hnil] at polled
      obtain ⟨-, rfl⟩ := Prod.mk.inj (Except.ok.inj polled)
      exact .inr (Advances.refl _).continued
    · exact keeps_of_copied hcopied

theorem keeps_connection_sample : KeepsConnection NetDownload.sampleRequest ↔
    NetDownload.sampleRequest.host = [] ∨ NetDownload.sampleRequest.host.length < 64 ∧
      NetDownload.sampleRequest.pathOrRoot.length < 128 :=
  keeps_connection_iff _ (by decide) (by decide)

def kpmJoinPath (size : ℕ) (base suffix : List UInt8) : List UInt8 :=
  let out := KpmPackage.kpmAppend size [] base
  let out := if out = [] ∨ out.getLast? ≠ some KpmSources.slash then
    KpmPackage.kpmAppend size out (ascii "/") else out
  KpmPackage.kpmAppend size out
    (if suffix.head? = some KpmSources.slash then suffix.tail else suffix)

def kpmFetchText (url : KpmSources.KpmUrl) (suffix : List UInt8) : Request :=
  ⟨url.host, kpmJoinPath 192 url.basePath suffix, url.port, 0, 0⟩

/-- A source whose base path fills its field. -/
def deepSource : KpmSources.KpmUrl := ⟨ascii "http", ascii "h", 80, 47 :: List.replicate 126 97⟩

/-- The path of its package list is longer than the copy of the client. -/
theorem package_list_restarts : ¬KeepsConnection (kpmFetchText deepSource (ascii "packages.json")) := by
  apply not_keeps
  · decide
  · intro hcopied
    have hlen := congrArg List.length hcopied.path
    revert hlen
    decide +kernel

end NetRequests
