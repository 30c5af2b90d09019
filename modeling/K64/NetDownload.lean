import K64.NetStream

/-! # Downloads

What a successful poll delivers. The size of the body comes from the header, or else the server's
FIN ends it; the client takes any FIN for the end, so without a `Content-Length` the download is
whole only when no FIN overtakes data. -/
namespace NetDownload

open NetState NetHttp NetBounds NetStream

variable {net net' : Net} {http : HttpClient} {s : Segment} {i : UInt32}

def blankLine (r : List UInt8) (k : ℕ) : Bool :=
  byteAt r k == 13 && byteAt r (k + 1) == 10 && byteAt r (k + 2) == 13 && byteAt r (k + 3) == 10

variable {r : List UInt8} {j : ℕ}

theorem headerEnd_some : headerEnd r = some j ↔
    blankLine r j = true ∧ j + 3 < r.length ∧ ∀ k < j, blankLine r k = false := by
  change (List.range (r.length - 3)).find? (blankLine r) = some j ↔ _
  rw [List.find?_range_eq_some]
  simp only [List.mem_range, Bool.not_eq_true']
  refine and_congr_right fun _ => and_congr_left fun _ => ?_
  omega

theorem byteAt_stored {S : List UInt8} (h : r <+: S) {k : ℕ} (hk : k < r.length) :
    byteAt r k = byteAt S k := by
  obtain ⟨tail, rfl⟩ := h
  simp [byteAt, List.getD_eq_getElem?_getD, List.getElem?_append_left hk]

theorem blankLine_stored {S : List UInt8} (h : r <+: S) {k : ℕ} (hk : k + 3 < r.length) :
    blankLine r k = blankLine S k := by
  rw [blankLine, blankLine, byteAt_stored h (by omega), byteAt_stored h (by omega),
    byteAt_stored h (by omega), byteAt_stored h (by omega)]

def AgreeBelow (j : ℕ) (r r' : List UInt8) : Prop := ∀ k < j, byteAt r k = byteAt r' k

variable {r' : List UInt8}

theorem advance_congr (h : AgreeBelow j r r') (p : UInt8 → Bool) :
    ∀ n pos, pos + n ≤ j → advance r p pos n = advance r' p pos n := by
  intro n
  induction n with
  | zero => exact fun _ _ => rfl
  | succ n ih =>
    intro pos hle
    rw [advance, advance, h pos (by omega), ih (pos + 1) (by omega)]

theorem advance_le (r : List UInt8) (p : UInt8 → Bool) :
    ∀ n pos, pos ≤ advance r p pos n ∧ advance r p pos n ≤ pos + n := by
  intro n
  induction n with
  | zero => exact fun pos => ⟨Nat.le_refl _, Nat.le_refl _⟩
  | succ n ih =>
    intro pos
    rw [advance]
    split
    · have := ih (pos + 1)
      omega
    · omega

theorem readNumber_congr (h : AgreeBelow j r r') :
    ∀ n value pos, pos + n ≤ j → readNumber r value pos n = readNumber r' value pos n := by
  intro n
  induction n with
  | zero => exact fun _ _ _ => rfl
  | succ n ih =>
    intro value pos hle
    rw [readNumber, readNumber, h pos (by omega), ih _ (pos + 1) (by omega)]

theorem readNumber_le (r : List UInt8) :
    ∀ n value pos, (readNumber r value pos n).2 ≤ pos + n := by
  intro n
  induction n with
  | zero => exact fun _ pos => Nat.le_refl _
  | succ n ih =>
    intro value pos
    rw [readNumber]
    split
    · have := ih (value * 10 + (byteAt r pos - 48).toUInt64) (pos + 1)
      omega
    · exact Nat.le_add_right _ _

theorem atContentL_congr (h : AgreeBelow j r r') {pos : ℕ}
    (hpos : pos + 16 < j) : atContentL r pos = atContentL r' pos := by
  unfold atContentL
  rw [h pos (by omega), h (pos - 1) (by omega), h (pos + 1) (by omega), h (pos + 2) (by omega),
    h (pos + 3) (by omega), h (pos + 4) (by omega), h (pos + 5) (by omega), h (pos + 6) (by omega),
    h (pos + 7) (by omega), h (pos + 8) (by omega)]

theorem headerLine_congr (h : AgreeBelow j r r') {pos : ℕ}
    (hpos : pos + 16 < j) (found : Option UInt64) :
    headerLine r j pos found = headerLine r' j pos found ∧ (headerLine r j pos found).1 ≤ j := by
  unfold headerLine
  rw [← atContentL_congr h hpos, ← advance_congr h (fun ch => ch != 58) _ _ (by omega)]
  dsimp only
  have hcolon := (advance_le r (fun ch => ch != 58) (j - pos) pos).2
  generalize advance r (fun ch => ch != 58) pos (j - pos) = colon at hcolon ⊢
  split
  · split
    next hlt =>
      rw [← advance_congr h isBlank _ _ (by omega)]
      have hblank := (advance_le r isBlank (j - (colon + 1)) (colon + 1)).2
      generalize advance r isBlank (colon + 1) (j - (colon + 1)) = digits at hblank ⊢
      rw [← readNumber_congr h _ _ _ (by omega)]
      have hnum := readNumber_le r (j - digits) 0 digits
      exact ⟨rfl, by dsimp only; omega⟩
    · exact ⟨rfl, by dsimp only; omega⟩
  · exact ⟨rfl, by dsimp only; omega⟩

theorem scanLines_congr (h : AgreeBelow j r r') :
    ∀ n pos found, scanLines r j n pos found = scanLines r' j n pos found := by
  intro n
  induction n with
  | zero => exact fun _ _ => rfl
  | succ n ih =>
    intro pos found
    rw [scanLines, scanLines]
    split
    next hpos =>
      obtain ⟨hline, hle⟩ := headerLine_congr h hpos found
      dsimp only
      rw [← hline, ← advance_congr h (fun ch => ch != 10) _ _ (by omega)]
      exact ih _ _
    · rfl

theorem contentLength_congr (h : AgreeBelow j r r') :
    contentLength r j = contentLength r' j := scanLines_congr h _ _ _

/-- What a server sends: a header that ends with its first blank line, and a body. -/
structure Response where
  header : List UInt8
  body : List UInt8
  blank : headerEnd header = some (header.length - 4)

def Response.bytes (R : Response) : List UInt8 := R.header ++ R.body

/-- The size that the client's scanner finds in the header. -/
def Response.announced (R : Response) : Option UInt64 :=
  contentLength R.header (R.header.length - 4)

variable {R : Response}

theorem Response.long (R : Response) : 4 ≤ R.header.length := by
  have := (headerEnd_some.mp R.blank).2.1
  omega

theorem findBody_stored {b : Body} (h : r <+: R.bytes)
    (hb : httpFindBody r = some b) :
    b.headerSize = R.header.length ∧ b.contentLength = R.announced ∧ R.header.length ≤ r.length := by
  have hlong := R.long
  obtain ⟨j, hj, rfl⟩ := Option.map_eq_some_iff.mp hb
  obtain ⟨hline, hlen, hfirst⟩ := headerEnd_some.mp hj
  obtain ⟨hline', hlen', hfirst'⟩ := headerEnd_some.mp R.blank
  have hheader : R.header <+: R.bytes := List.prefix_append _ _
  have hj4 : j = R.header.length - 4 := by
    rcases Nat.lt_trichotomy j (R.header.length - 4) with hlt | heq | hgt
    · have hno := hfirst' j hlt
      rw [blankLine_stored hheader (by omega), ← blankLine_stored h hlen, hline] at hno
      cases hno
    · exact heq
    · have hno := hfirst _ hgt
      rw [blankLine_stored h (by omega), ← blankLine_stored hheader hlen', hline'] at hno
      cases hno
  refine ⟨by dsimp only; omega, ?_, by omega⟩
  dsimp only
  rw [hj4]
  apply contentLength_congr
  intro k hk
  rw [byteAt_stored h (by omega), byteAt_stored hheader (by omega)]

/-- The server does not reset the connection, and its FIN stands behind the last byte. -/
structure FromServer (i : UInt32) (R : Response) (s : Segment) : Prop where
  noReset : s.has flagRst = false
  finLast : s.has flagFin = true →
    s.seq + UInt32.ofNat s.data.length = i + 1 + UInt32.ofNat R.bytes.length

/-- The segment continues the stored prefix: nothing is missing before it. -/
def InOrder (http : HttpClient) (s : Segment) : Prop :=
  s.seq = http.ack ∨ s.seq < http.ack ∧ http.ack - s.seq ≤ UInt32.ofNat s.data.length

/-- A FIN that has to end the body does not overtake data. -/
def FinInOrder (R : Response) (http : HttpClient) (s : Segment) : Prop :=
  s.has flagFin = true → R.announced = none → InOrder http s

/-- The response fits into the buffer, or its size is announced and not announced too small. -/
def Sized (R : Response) : Prop :=
  match R.announced with
  | some length => R.body.length ≤ length.toNat
  | none => R.bytes.length < httpBufSize

def Ended (R : Response) (http : HttpClient) : Prop :=
  R.announced = none → http.state = .done ∨ http.state = .error → http.response = R.bytes

theorem inOrder_ack (h : InOrder http s) :
    (takeData http s).ack = s.seq + UInt32.ofNat s.data.length := by
  rcases takeData_cases http s with ⟨-, -, ha⟩ | ⟨-, -, -, ha⟩ | ⟨hne, hnot, heq⟩
  · exact ha
  · rw [ha]
    grind
  · rw [heq]
    rcases h with h | ⟨hlt, hle⟩
    · exact absurd h hne
    · have hge := UInt32.not_lt.mp fun hlt' => hnot ⟨hlt, hlt'⟩
      have := UInt32.le_antisymm hle hge
      grind

theorem never_complete (hno : R.announced = none) (h : r <+: R.bytes) :
    httpResponseHasCompleteBody r = false := by
  unfold httpResponseHasCompleteBody
  split
  next headerSize status length hb =>
    have hlen := (findBody_stored h hb).2.1
    rw [hno] at hlen
    cases hlen
  · rfl

theorem fin_whole {fin : Bool} (h : Streaming i R.bytes http fin) (hS : R.bytes.length < 2 ^ 31)
    (hopen : http.state = .established ∨ http.state = .requestSent) (hno : R.announced = none)
    (hfits : R.bytes.length < httpBufSize) (hg : Genuine i R.bytes s) (hserver : FromServer i R s)
    (hflag : s.has flagFin = true) (horder : InOrder http s) :
    (dataHttp http s).response = R.bytes ∧ (dataHttp http s).state = http.state := by
  have hfin := h.opened hopen
  have hstored := dataHttp_streaming h hS hg
  have hend := hserver.finLast hflag
  have hack : (dataHttp http s).ack = i + 1 + UInt32.ofNat R.bytes.length ∧
      (dataHttp http s).state = http.state := by
    unfold dataHttp
    split
    next hdata =>
      obtain ⟨hpre, -⟩ := takeData_stored h hS hfin hdata.2 hg
      rw [never_complete hno hpre]
      exact ⟨(inOrder_ack horder).trans hend, takeData_state http s⟩
    next hnone =>
      have hnil : s.data = [] := by
        by_contra hne
        exact hnone ⟨hopen.symm, hne⟩
      refine ⟨?_, rfl⟩
      rw [hnil] at hend
      rcases horder with heq | ⟨hlt, hle⟩
      · rw [← heq, ← hend]
        exact (UInt32.add_zero _).symm
      · rw [hnil] at hle
        have hz : http.ack - s.seq = 0 := UInt32.le_zero_iff.mp hle
        grind
  refine ⟨?_, hack.2⟩
  refine hstored.stored.eq_of_length_le ?_
  by_cases hroom : (dataHttp http s).response.length + 1 < httpBufSize
  · have hlen := hstored.stored.length_le
    have heq := seq_inj (hack.1.symm.trans (hstored.ack hroom hfin)) hS (by omega)
    omega
  · omega

theorem ended_step {fin : Bool} (h : Streaming i R.bytes http fin) (he : Ended R http)
    (hS : R.bytes.length < 2 ^ 31) (hsized : Sized R) (hg : Genuine i R.bytes s)
    (hserver : FromServer i R s) (horder : FinInOrder R http s) : Ended R (httpStep http s) := by
  intro hno hst
  have hfits : R.bytes.length < httpBufSize := by
    rw [Sized, hno] at hsized
    exact hsized
  have hstep : httpStep http s = finHttp (dataHttp http s) s := by
    rw [httpStep, if_neg (by rw [hserver.noReset]; decide), if_neg h.not_synAck]
  have hclosed : ¬ (http.state = .established ∨ http.state = .requestSent) →
      dataHttp http s = http := fun hn => if_neg fun hc => hn hc.1.symm
  have hresp : (httpStep http s).response = (dataHttp http s).response := by
    rw [hstep, finHttp]
    split <;> rfl
  rw [hresp]
  by_cases hopen : http.state = .established ∨ http.state = .requestSent
  · cases hflag : s.has flagFin with
    | true => exact (fin_whole h hS hopen hno hfits hg hserver hflag (horder hflag hno)).1
    | false =>
      have hsame : (httpStep http s).state = http.state := by
        rw [hstep, finHttp, if_neg (by rw [hflag]; decide), dataHttp]
        split
        next hdata =>
          obtain ⟨hpre, -⟩ := takeData_stored h hS (h.opened hopen) hdata.2 hg
          rw [never_complete hno hpre]
          exact takeData_state http s
        · rfl
      rw [hsame] at hst
      rcases hopen with ho | ho <;> rw [ho] at hst <;> simp at hst
  · rw [hclosed hopen]
    refine he hno ?_
    rcases h.live with hs | hs | hs | hs
    · exact absurd (.inl hs) hopen
    · exact absurd (.inr hs) hopen
    · exact .inl hs
    · exact .inr hs

theorem ended_polled {http' : HttpClient} (he : Ended R http) (hp : Polled http http') :
    Ended R http' := by
  intro hno hst
  rw [hp.response]
  refine he hno ?_
  rcases hp.state with hs | ⟨-, hs⟩ | ⟨hs, -⟩
  · exact hs ▸ hst
  · rw [hs] at hst
    simp at hst
  · exact .inl hs

/-- What a run of the download promises about each segment when it arrives. -/
def Delivered (i : UInt32) (R : Response) (http : HttpClient) (s : Segment) : Prop :=
  FromServer i R s ∧ FinInOrder R http s

theorem reach_ended {net₀ : Net} {fin : Bool} (h₀ : Connected i net₀.http)
    (hS : R.bytes.length < 2 ^ 31) (hsized : Sized R)
    (h : Reach i R.bytes (Delivered i R) net₀ net fin) : Ended R net.http := by
  induction h with
  | start =>
    intro _ hst
    rw [h₀.state] at hst
    simp at hst
  | @segment net net' fin payload srcIp before short genuine handled ih =>
    have hstream := reach_streaming h₀ hS before
    rw [handled_http short handled, received]
    cases hseg : segmentOf payload srcIp with
    | none => exact ih
    | some s =>
      dsimp only
      cases haddr : addressed net.http s with
      | false => exact ih
      | true =>
        obtain ⟨hg, hserver, horder⟩ := genuine s hseg haddr
        exact ended_step hstream ih hS hsized hg hserver horder
  | poll before continues polled ih =>
    exact ended_polled ih (poll_polled (reach_streaming h₀ hS before) continues polled)

variable {d : List UInt8} {n : ℕ}

theorem request_pending :
    request net ≠ .ok (.success n d, net') := by
  intro h
  have hlen := Nat.le_trans (length_requestText net.http) (show 255 ≤ 1460 by decide)
  obtain ⟨⟨sent, net₁⟩, hs, -⟩ := sendTcp_ok net net.http.ip net.http.port net.http.localPort
    net.http.seq net.http.ack (flagPsh ||| flagAck) hlen
  unfold request at h
  dsimp only at h
  rw [hs] at h
  change (if sent = true then _ else _) = _ at h
  split at h <;> cases h

theorem bind_ok {α β : Type} {x : Except Fault α} {f : α → Except Fault β} {b : β}
    (h : x >>= f = .ok b) : ∃ a, x = .ok a ∧ f a = .ok b := by
  cases x with
  | error e => cases h
  | ok a => exact ⟨a, rfl, h⟩

theorem sendSyn_pending :
    sendSyn net ≠ .ok (.success n d, net') := by
  intro h
  unfold sendSyn at h
  split at h
  · cases h
  · obtain ⟨⟨sent, net₁⟩, -, h⟩ := bind_ok h
    dsimp only at h
    split at h <;> cases h

theorem resolveName_pending :
    resolveName net ≠ .ok (.success n d, net') := by
  intro h
  unfold resolveName at h
  obtain ⟨⟨⟨ip, waiting⟩, net₁⟩, -, h⟩ := bind_ok h
  dsimp only at h
  split at h
  · cases h
  · exact sendSyn_pending h

theorem success_done {q : Request} {capacity : ℕ}
    (h : k64NetHttpGetRangeRaw net q capacity = .ok (.success n d, net')) :
    net.http.state = .done ∧ deliver net capacity = (.success n d, net') := by
  unfold k64NetHttpGetRangeRaw at h
  split at h
  · cases h
  · by_cases hnew : net.http.state = .idle ∨ net.http.state = .error ∨ !q.serves net.http
    · rw [if_pos hnew] at h
      exact absurd h resolveName_pending
    · rw [if_neg hnew] at h
      dsimp only at h
      split at h
      next hst => exact absurd h resolveName_pending
      next hst => exact absurd h sendSyn_pending
      next hst => cases h
      next hst => exact absurd h request_pending
      next hst => cases h
      next hst => exact ⟨hst, Except.ok.inj h⟩
      next hst => cases h
      next hst => cases h

theorem deliver_success {capacity : ℕ}
    (h : deliver net capacity = (.success n d, net')) :
    ∃ b, httpFindBody net.http.response = some b ∧
      n = net.http.response.length - b.headerSize ∧
      d = (net.http.response.drop b.headerSize).take capacity ∧
      ∀ length, b.contentLength = some length → UInt64.ofNat n = length := by
  unfold deliver at h
  dsimp only at h
  split at h
  · cases h
  next b hb =>
    split_ifs at h with h1 h2 h3 h4
    · cases h
    · cases h
    · cases h
    · cases h
    · obtain ⟨hout, -⟩ := Prod.mk.inj h
      obtain ⟨rfl, rfl⟩ := Outcome.success.inj hout
      refine ⟨b, hb, rfl, rfl, fun length hlength => ?_⟩
      rw [hlength] at h3
      simpa using h3

/-- In every run in which no FIN overtakes data that has no announced size, and in which the announced
size is not too small, a poll that succeeds delivers the whole body. -/
theorem download_is_body {net₀ : Net} {fin : Bool} {q : Request} {capacity n : ℕ} {d : List UInt8}
    (h₀ : Connected i net₀.http) (hS : R.bytes.length < 2 ^ 31) (hsized : Sized R)
    (h : Reach i R.bytes (Delivered i R) net₀ net fin)
    (hpoll : k64NetHttpGetRangeRaw net q capacity = .ok (.success n d, net'))
    (hcap : n ≤ capacity) : d = R.body := by
  obtain ⟨hdone, hdeliver⟩ := success_done hpoll
  obtain ⟨b, hb, hn, hd, hlength⟩ := deliver_success hdeliver
  have hstored := (reach_streaming h₀ hS h).stored
  obtain ⟨hsize, hcontent, hheader⟩ := findBody_stored hstored hb
  have hbytes : R.bytes.length = R.header.length + R.body.length := List.length_append
  have hwhole : net.http.response = R.bytes := by
    cases hann : R.announced with
    | none => exact reach_ended h₀ hS hsized h hann (.inl hdone)
    | some length =>
      have hle := hstored.length_le
      have hcount := hlength length (hcontent.trans hann)
      rw [Sized, hann] at hsized
      have hnat := congrArg UInt64.toNat hcount
      rw [UInt64.toNat_ofNat', Nat.mod_eq_of_lt (by omega)] at hnat
      exact hstored.eq_of_length_le (by dsimp only at hsized; omega)
  have hdrop : R.bytes.drop R.header.length = R.body := List.drop_left
  rw [hd, hwhole, hsize, hdrop]
  exact List.take_of_length_le (by rw [hwhole] at hn; omega)

def sampleResponse : Response where
  header := ascii "HTTP/1.0 200 OK\r\n\r\n"
  body := ascii "ab"
  blank := by decide +kernel

def sampleRequest : Request := ⟨ascii "h", ascii "/", 80, 0, 0⟩

def pollAfter (net : Net) (first second : List UInt8) : Option Outcome :=
  match (do
    let net ← handleTcpPayload net first 0 (UInt16.ofNat first.length) 1
    let net ← handleTcpPayload net second 0 (UInt16.ofNat second.length) 1
    k64NetHttpGetRangeRaw net sampleRequest 16) with
  | .ok (o, _) => some o
  | .error _ => none

theorem pollAfter_some {net₀ : Net} {first second : List UInt8} {o : Outcome}
    (h : pollAfter net₀ first second = some o) :
    ∃ net₁ net₂ net₃, handleTcpPayload net₀ first 0 (UInt16.ofNat first.length) 1 = .ok net₁ ∧
      handleTcpPayload net₁ second 0 (UInt16.ofNat second.length) 1 = .ok net₂ ∧
      k64NetHttpGetRangeRaw net₂ sampleRequest 16 = .ok (o, net₃) := by
  unfold pollAfter at h
  split at h
  next o' net₃ heq =>
    obtain ⟨net₁, h₁, heq⟩ := bind_ok heq
    obtain ⟨net₂, h₂, heq⟩ := bind_ok heq
    exact ⟨net₁, net₂, net₃, h₁, h₂, Option.some.inj h ▸ heq⟩
  · cases h

def firstHalf : Segment := ⟨1, 80, 40000, 1, 0, flagAck, sampleResponse.header⟩

def lastHalf : Segment := ⟨1, 80, 40000, 20, 0, flagFin ||| flagAck, sampleResponse.body⟩

def lastByte : Segment := ⟨1, 80, 40000, 21, 0, flagFin ||| flagAck, [98]⟩

theorem genuine_firstHalf : Genuine 0 sampleResponse.bytes firstHalf ∧
    FromServer 0 sampleResponse firstHalf :=
  ⟨.inr ⟨0, by decide +kernel, by decide +kernel, by decide +kernel⟩,
    ⟨by decide +kernel, fun h => absurd h (by decide +kernel)⟩⟩

theorem download_in_order : ∃ net net',
    k64NetHttpGetRangeRaw net sampleRequest 16 = .ok (.success 2 (ascii "ab"), net') ∧
      ascii "ab" = sampleResponse.body := by
  have hpoll : pollAfter (sampleConnection 0) (samplePayload 1 flagAck sampleResponse.header)
      (samplePayload 20 (flagFin ||| flagAck) sampleResponse.body) =
      some (.success 2 (ascii "ab")) := by decide +kernel
  obtain ⟨net₁, net₂, net₃, h₁, h₂, h₃⟩ := pollAfter_some hpoll
  have hhttp := handled_http (by decide +kernel) h₁
  have hfirst : segmentOf (samplePayload 1 flagAck sampleResponse.header) 1 = some firstHalf := by
    decide +kernel
  have hlast : segmentOf (samplePayload 20 (flagFin ||| flagAck) sampleResponse.body) 1 =
      some lastHalf := by decide +kernel
  have horder : (received (sampleConnection 0).http
      (samplePayload 1 flagAck sampleResponse.header) 1).ack = 20 := by decide +kernel
  obtain ⟨fin₁, hreach₁⟩ : ∃ fin, Reach 0 sampleResponse.bytes (Delivered 0 sampleResponse)
      (sampleConnection 0) net₁ fin := by
    refine ⟨_, Reach.segment .start (by decide +kernel) (fun s hs _ => ?_) h₁⟩
    obtain rfl := Option.some.inj (hfirst.symm.trans hs)
    exact ⟨genuine_firstHalf.1, genuine_firstHalf.2, fun h => absurd h (by decide +kernel)⟩
  obtain ⟨fin₂, hreach₂⟩ : ∃ fin, Reach 0 sampleResponse.bytes (Delivered 0 sampleResponse)
      (sampleConnection 0) net₂ fin := by
    refine ⟨_, Reach.segment hreach₁ (by decide +kernel) (fun s hs _ => ?_) h₂⟩
    obtain rfl := Option.some.inj (hlast.symm.trans hs)
    refine ⟨.inr ⟨19, by decide +kernel, by decide +kernel, by decide +kernel⟩,
      ⟨by decide +kernel, fun _ => by decide +kernel⟩, fun _ _ => .inl ?_⟩
    rw [hhttp, horder]
    rfl
  have hsized : Sized sampleResponse := by
    rw [Sized, show sampleResponse.announced = none by decide +kernel]
    decide +kernel
  exact ⟨net₂, net₃, h₃, download_is_body ⟨rfl, rfl, rfl⟩ (by decide +kernel) hsized hreach₂ h₃
    (by decide)⟩

/-- The FIN segment arrives before the byte that stands before its own: the poll succeeds with an
empty body. -/
theorem overtaking_fin_truncates : ∃ net net' fin,
    Reach 0 sampleResponse.bytes (fun _ s => FromServer 0 sampleResponse s) (sampleConnection 0) net
      fin ∧
    k64NetHttpGetRangeRaw net sampleRequest 16 = .ok (.success 0 [], net') ∧
      [] ≠ sampleResponse.body := by
  have hpoll : pollAfter (sampleConnection 0) (samplePayload 1 flagAck sampleResponse.header)
      (samplePayload 21 (flagFin ||| flagAck) [98]) = some (.success 0 []) := by decide +kernel
  obtain ⟨net₁, net₂, net₃, h₁, h₂, h₃⟩ := pollAfter_some hpoll
  have hfirst : segmentOf (samplePayload 1 flagAck sampleResponse.header) 1 = some firstHalf := by
    decide +kernel
  have hlast : segmentOf (samplePayload 21 (flagFin ||| flagAck) [98]) 1 = some lastByte := by
    decide +kernel
  refine ⟨net₂, net₃, _, Reach.segment (Reach.segment .start (by decide +kernel)
    (fun s hs _ => ?_) h₁) (by decide +kernel) (fun s hs _ => ?_) h₂, h₃, by decide +kernel⟩
  · obtain rfl := Option.some.inj (hfirst.symm.trans hs)
    exact genuine_firstHalf
  · obtain rfl := Option.some.inj (hlast.symm.trans hs)
    exact ⟨.inr ⟨20, by decide +kernel, by decide +kernel, by decide +kernel⟩,
      ⟨by decide +kernel, fun _ => by decide +kernel⟩⟩

end NetDownload
