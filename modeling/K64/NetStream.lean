import Mathlib.Algebra.Group.Nat.Defs
import K64.NetBounds

/-! # The byte stream of a connection

The response buffer always holds a prefix of what the server sends, in whatever order, with whatever
boundaries and how often its segments arrive. -/
namespace NetStream

open NetState NetHttp NetBounds

variable {net net' : Net} {http : HttpClient} {s : Segment} {i : UInt32} {S : List UInt8}

def dataHttp (http : HttpClient) (s : Segment) : HttpClient :=
  if (http.state = .requestSent ∨ http.state = .established) ∧ s.data ≠ [] then
    if httpResponseHasCompleteBody (takeData http s).response then
      { takeData http s with state := .done }
    else takeData http s
  else http

/-- The FIN flag is acknowledged when it is the next in the stream. -/
def finNext (http : HttpClient) (s : Segment) : Bool :=
  s.has flagFin && s.seq + UInt32.ofNat s.data.length == http.ack

def finHttp (http : HttpClient) (s : Segment) : HttpClient :=
  if s.has flagFin then
    { http with
      ack := if s.seq + UInt32.ofNat s.data.length = http.ack then http.ack + 1 else http.ack
      state := .done }
  else http

def httpStep (http : HttpClient) (s : Segment) : HttpClient :=
  if s.has flagRst then { http with state := .error }
  else if isSynAck http s then
    { http with seq := http.seq + 1, ack := s.seq + 1, state := .established }
  else finHttp (dataHttp http s) s

theorem dataStep_eq (net : Net) (s : Segment) :
    ∃ net', dataStep net s = .ok net' ∧ net'.http = dataHttp net.http s := by
  unfold dataStep dataHttp
  split
  · exact sendAck_ok _
  · exact ⟨net, rfl, rfl⟩

theorem map_sendAck {f : Net → Net} {g : HttpClient → HttpClient}
    (hf : ∀ n, (f n).http = g n.http) (net : Net) :
    ∃ net', (sendAck net).map f = .ok net' ∧ net'.http = g net.http := by
  obtain ⟨net', h, hn⟩ := sendAck_ok net
  exact ⟨f net', by rw [h]; rfl, by rw [hf, hn]⟩

theorem finStep_eq (net : Net) (s : Segment) :
    ∃ net', finStep net s = .ok net' ∧ net'.http = finHttp net.http s := by
  unfold finStep finHttp
  split
  · exact map_sendAck (g := fun http => { http with state := .done }) (fun _ => rfl) _
  · exact ⟨net, rfl, rfl⟩

theorem segmentStep_eq (net : Net) (s : Segment) :
    ∃ net', segmentStep net s = .ok net' ∧ net'.http = httpStep net.http s := by
  unfold segmentStep httpStep
  split
  · exact ⟨_, rfl, rfl⟩
  split
  · exact map_sendAck (g := fun http => { http with state := .established }) (fun _ => rfl) _
  · obtain ⟨net₁, h₁, hn₁⟩ := dataStep_eq net s
    obtain ⟨net₂, h₂, hn₂⟩ := finStep_eq net₁ s
    exact ⟨net₂, by rw [h₁]; exact h₂, by rw [hn₂, hn₁]⟩

def segmentOf (payload : List UInt8) (srcIp : UInt32) : Option Segment :=
  let hdrLen := (byteAt payload 12 >>> 4).toNat * 4
  if payload.length < 20 ∨ hdrLen < 20 ∨ payload.length < hdrLen then none
  else some
    { srcIp := srcIp
      srcPort := be16 (byteAt payload 0) (byteAt payload 1)
      dstPort := be16 (byteAt payload 2) (byteAt payload 3)
      seq := be32 (byteAt payload 4) (byteAt payload 5) (byteAt payload 6) (byteAt payload 7)
      ack := be32 (byteAt payload 8) (byteAt payload 9) (byteAt payload 10) (byteAt payload 11)
      flags := byteAt payload 13
      data := payload.drop hdrLen }

/-- The connection after a payload of `handle_tcp_payload`. -/
def received (http : HttpClient) (payload : List UInt8) (srcIp : UInt32) : HttpClient :=
  match segmentOf payload srcIp with
  | none => http
  | some s => if addressed http s then httpStep http s else http

/-- `handle_tcp_payload` with the reads of the header done. -/
def handleRead (net : Net) (payload : List UInt8) (srcIp : UInt32) : Except Fault Net :=
  let s : Segment :=
    { srcIp := srcIp
      srcPort := be16 (byteAt payload 0) (byteAt payload 1)
      dstPort := be16 (byteAt payload 2) (byteAt payload 3)
      seq := be32 (byteAt payload 4) (byteAt payload 5) (byteAt payload 6) (byteAt payload 7)
      ack := be32 (byteAt payload 8) (byteAt payload 9) (byteAt payload 10) (byteAt payload 11)
      flags := byteAt payload 13
      data := (payload.drop ((byteAt payload 12 >>> 4).toNat * 4)).take
        (payload.length - (byteAt payload 12 >>> 4).toNat * 4) }
  if net.http.state = .idle ∨ srcIp ≠ net.http.ip ∨ s.srcPort ≠ net.http.port ∨
      s.dstPort ≠ net.http.localPort then .ok net
  else if (byteAt payload 12 >>> 4).toNat * 4 < 20 ∨
      payload.length < (byteAt payload 12 >>> 4).toNat * 4 then .ok net
  else do
    if !s.has flagRst then
      let (offset, n) := copied net.http s.seq (payload.length - (byteAt payload 12 >>> 4).toNat * 4)
      let _ ← loadBytes payload ((byteAt payload 12 >>> 4).toNat * 4 + offset) n
    segmentStep net s

variable {payload : List UInt8}

theorem handleTcp_eq (net : Net) (hlen : payload.length < 65536)
    (srcIp : UInt32) :
    ∃ net', handleTcpPayload net payload 0 (UInt16.ofNat payload.length) srcIp = .ok net' ∧
      net'.http = received net.http payload srcIp := by
  have htoNat : (UInt16.ofNat payload.length).toNat = payload.length :=
    UInt16.toNat_ofNat'.trans (Nat.mod_eq_of_lt hlen)
  have hlt : UInt16.ofNat payload.length < 20 ↔ payload.length < 20 := by
    rw [UInt16.lt_iff_toNat_lt, htoNat]
    rfl
  by_cases hshort : payload.length < 20
  · have hnone : segmentOf payload srcIp = none := if_pos (Or.inl hshort)
    rw [handleTcpPayload, if_pos (hlt.mpr hshort), received, hnone]
    exact ⟨net, rfl, rfl⟩
  have hread : handleTcpPayload net payload 0 (UInt16.ofNat payload.length) srcIp =
      handleRead net payload srcIp := by
    rw [handleTcpPayload, if_neg (mt hlt.mp hshort), rd16be_eq (by omega), rd16be_eq (by omega),
      rd32be_eq (by omega), rd32be_eq (by omega), load_eq (by omega), load_eq (by omega), htoNat]
    simp only [Nat.zero_add]
    rfl
  rw [hread, handleRead, received]
  by_cases hbad : (byteAt payload 12 >>> 4).toNat * 4 < 20 ∨
      payload.length < (byteAt payload 12 >>> 4).toNat * 4
  · have hnone : segmentOf payload srcIp = none := if_pos (Or.inr hbad)
    rw [hnone, if_pos hbad]
    split <;> exact ⟨net, rfl, rfl⟩
  · have hsome : segmentOf payload srcIp = some _ :=
      if_neg (show ¬ (payload.length < 20 ∨ _) from not_or.mpr ⟨hshort, hbad⟩)
    have hcopy := copied_le net.http (be32 (byteAt payload 4) (byteAt payload 5)
      (byteAt payload 6) (byteAt payload 7)) (payload.length - (byteAt payload 12 >>> 4).toNat * 4)
    rw [hsome, if_neg hbad]
    dsimp only
    split
    next hother =>
      refine ⟨net, rfl, (if_neg ?_).symm⟩
      simp only [addressed, Bool.and_eq_true, bne_iff_ne, beq_iff_eq]
      tauto
    next hours =>
      rw [List.take_of_length_le (by rw [List.length_drop])]
      rw [if_pos (c := addressed _ _ = true)]
      · split
        · rw [loadBytes_eq (by omega)]
          exact segmentStep_eq _ _
        · exact segmentStep_eq _ _
      · simp only [addressed, Bool.and_eq_true, bne_iff_ne, beq_iff_eq]
        tauto

/-- The data of the segment is the slice of `S` that its sequence number names. -/
def Genuine (i : UInt32) (S : List UInt8) (s : Segment) : Prop :=
  s.data = [] ∨ ∃ o, o + s.data.length ≤ S.length ∧ s.seq = i + 1 + UInt32.ofNat o ∧
    s.data = (S.drop o).take s.data.length

/-- The connection is open, or was: its buffer holds a prefix of `S`, and while the buffer has room
and no FIN has been accepted, the acknowledged number is the one behind the prefix. -/
structure Streaming (i : UInt32) (S : List UInt8) (http : HttpClient) (fin : Bool) : Prop where
  live : http.state = .established ∨ http.state = .requestSent ∨ http.state = .done ∨
    http.state = .error
  stored : http.response <+: S
  ack : http.response.length + 1 < httpBufSize → fin = false →
    http.ack = i + 1 + UInt32.ofNat http.response.length
  opened : http.state = .established ∨ http.state = .requestSent → fin = false

theorem toNat_seq (i : UInt32) (o : ℕ) :
    (i + 1 + UInt32.ofNat o).toNat = ((i + 1).toNat + o) % 2 ^ 32 := by
  rw [UInt32.toNat_add, UInt32.toNat_ofNat', Nat.add_mod_mod]

variable {response : List UInt8}

theorem append_room (h : response.length + 1 < httpBufSize) :
    httpAppend response payload =
      response ++ payload.take (httpBufSize - 1 - response.length) := by
  unfold httpAppend
  split
  next hc =>
    rcases hc with rfl | hfull
    · simp
    · omega
  · rfl

theorem append_full (h : httpBufSize ≤ response.length + 1) :
    httpAppend response payload = response := if_pos (Or.inr h)

theorem append_slice {n : ℕ} (hpre : response <+: S)
    (hroom : response.length + 1 < httpBufSize) (hn : response.length + n ≤ S.length) :
    httpAppend response ((S.drop response.length).take n) <+: S ∧
      ((httpAppend response ((S.drop response.length).take n)).length + 1 < httpBufSize →
        (httpAppend response ((S.drop response.length).take n)).length = response.length + n) := by
  obtain ⟨tail, rfl⟩ := hpre
  rw [append_room hroom, List.drop_left, List.take_take]
  rw [List.length_append] at hn
  constructor
  · exact List.prefix_append_right_inj response |>.mpr (List.take_prefix _ _)
  · intro hlt
    rw [List.length_append, List.length_take] at hlt ⊢
    omega

theorem takeData_cases (http : HttpClient) (s : Segment) :
    (s.seq = http.ack ∧ (takeData http s).response = httpAppend http.response s.data ∧
      (takeData http s).ack = s.seq + UInt32.ofNat s.data.length) ∨
    (s.seq < http.ack ∧ http.ack - s.seq < UInt32.ofNat s.data.length ∧
      (takeData http s).response =
        httpAppend http.response (s.data.drop (http.ack - s.seq).toNat) ∧
      (takeData http s).ack = http.ack + (UInt32.ofNat s.data.length - (http.ack - s.seq))) ∨
    (¬ s.seq = http.ack ∧ ¬ (s.seq < http.ack ∧ http.ack - s.seq < UInt32.ofNat s.data.length) ∧
      takeData http s = http) := by
  unfold takeData
  dsimp only
  split
  next heq => exact .inl ⟨heq, rfl, rfl⟩
  next hne =>
    split
    next hover => exact .inr (.inl ⟨hover.1, hover.2, rfl, rfl⟩)
    next hnot => exact .inr (.inr ⟨hne, hnot, rfl⟩)

theorem toNat_ofNat_small {n : ℕ} (h : n < 2 ^ 31) : (UInt32.ofNat n).toNat = n :=
  UInt32.toNat_ofNat'.trans (Nat.mod_eq_of_lt (by omega))

theorem seen_eq {o r n : ℕ} {seq ack : UInt32} (hseq : seq = i + 1 + UInt32.ofNat o)
    (hack : ack = i + 1 + UInt32.ofNat r) (ho : o + n < 2 ^ 31) (hr : r < 2 ^ 31)
    (hlt : seq < ack) (hn : (ack - seq).toNat ≤ n) : o ≤ r ∧ (ack - seq).toNat = r - o := by
  have hx := (i + 1).toNat_lt
  have hso := toNat_seq i o
  have hao := toNat_seq i r
  rw [← hseq] at hso
  rw [← hack] at hao
  have hsub := UInt32.toNat_sub_of_le _ _ (UInt32.le_of_lt hlt)
  have hlt' := UInt32.lt_iff_toNat_lt.mp hlt
  omega

theorem seq_inj {o r : ℕ} (h : i + 1 + UInt32.ofNat o = i + 1 + UInt32.ofNat r) (ho : o < 2 ^ 31)
    (hr : r < 2 ^ 31) : o = r := by
  have hnat := congrArg UInt32.toNat h
  rw [toNat_seq, toNat_seq] at hnat
  have hx := (i + 1).toNat_lt
  omega

variable {fin : Bool}

theorem takeData_stored (h : Streaming i S http fin) (hS : S.length < 2 ^ 31)
    (hfin : fin = false) (hdata : s.data ≠ []) (hg : Genuine i S s) :
    (takeData http s).response <+: S ∧
      ((takeData http s).response.length + 1 < httpBufSize →
        (takeData http s).ack = i + 1 + UInt32.ofNat (takeData http s).response.length) := by
  obtain ⟨o, ho, hseq, hslice⟩ := hg.resolve_left hdata
  have hlen := h.stored.length_le
  by_cases hfull : httpBufSize ≤ http.response.length + 1
  · have hsame : (takeData http s).response = http.response := by
      rcases takeData_cases http s with ⟨-, hr, -⟩ | ⟨-, -, hr, -⟩ | ⟨-, -, hr⟩
      · rw [hr, append_full hfull]
      · rw [hr, append_full hfull]
      · rw [hr]
    rw [hsame]
    exact ⟨h.stored, fun hlt => absurd hlt (Nat.not_lt.mpr hfull)⟩
  have hroom : http.response.length + 1 < httpBufSize := Nat.not_le.mp hfull
  have hack := h.ack hroom hfin
  rcases takeData_cases http s with ⟨heq, hr, ha⟩ | ⟨hlt, hseen, hr, ha⟩ | ⟨-, -, hr⟩
  · have hor : o = http.response.length :=
      seq_inj (hseq.symm.trans (heq.trans hack)) (by omega) (by omega)
    obtain ⟨hpre, hgrow⟩ := append_slice h.stored hroom (hor ▸ ho)
    rw [← hor, ← hslice] at hpre hgrow
    rw [hr, ha]
    refine ⟨hpre, fun hlt => ?_⟩
    rw [hgrow hlt, hseq, UInt32.add_assoc, ← UInt32.ofNat_add]
  · have hseen' := UInt32.lt_iff_toNat_lt.mp hseen
    rw [toNat_ofNat_small (by omega)] at hseen'
    obtain ⟨hor, hsub⟩ := seen_eq hseq hack (by omega) (by omega) hlt (Nat.le_of_lt hseen')
    have hrest : s.data.drop (http.ack - s.seq).toNat =
        (S.drop http.response.length).take (s.data.length - (http.response.length - o)) := by
      conv_lhs => rw [hslice]
      rw [hsub, List.drop_take, List.drop_drop, Nat.add_sub_cancel' hor]
    obtain ⟨hpre, hgrow⟩ := append_slice (n := s.data.length - (http.response.length - o)) h.stored
      hroom (by omega)
    rw [← hrest] at hpre hgrow
    rw [hr, ha]
    refine ⟨hpre, fun hlt => ?_⟩
    have hmore : UInt32.ofNat s.data.length - (http.ack - s.seq) =
        UInt32.ofNat (s.data.length - (http.response.length - o)) := by
      apply UInt32.toNat_inj.mp
      rw [UInt32.toNat_sub_of_le _ _ (UInt32.le_of_lt hseen), toNat_ofNat_small (by omega),
        toNat_ofNat_small (by omega), hsub]
    rw [hgrow hlt, hmore, UInt32.ofNat_add, ← UInt32.add_assoc, ← hack]
  · rw [hr]
    exact ⟨h.stored, fun _ => hack⟩

theorem takeData_state (http : HttpClient) (s : Segment) :
    (takeData http s).state = http.state := by
  unfold takeData
  dsimp only
  split_ifs <;> rfl

theorem dataHttp_streaming (h : Streaming i S http fin) (hS : S.length < 2 ^ 31)
    (hg : Genuine i S s) : Streaming i S (dataHttp http s) fin := by
  unfold dataHttp
  split
  next hopen =>
    have hfin := h.opened hopen.1.symm
    obtain ⟨hstored, hack⟩ := takeData_stored h hS hfin hopen.2 hg
    split
    · exact ⟨.inr (.inr (.inl rfl)), hstored, fun hlt _ => hack hlt, fun hst => by
        rcases hst with hst | hst <;> cases hst⟩
    · exact ⟨takeData_state http s ▸ h.live, hstored, fun hlt _ => hack hlt, fun _ => hfin⟩
  · exact h

theorem finHttp_streaming (h : Streaming i S http fin) :
    Streaming i S (finHttp http s) (fin || finNext http s) := by
  unfold finHttp
  split
  next hflag =>
    refine ⟨.inr (.inr (.inl rfl)), h.stored, fun hlt hno => ?_, fun hst => ?_⟩
    · rw [Bool.or_eq_false_iff, finNext, hflag, Bool.true_and, beq_eq_false_iff_ne] at hno
      exact (if_neg hno.2).trans (h.ack hlt hno.1)
    · rcases hst with hst | hst <;> cases hst
  next hflag =>
    rw [Bool.not_eq_true] at hflag
    rw [finNext, hflag, Bool.false_and, Bool.or_false]
    exact h

def acceptsFin (http : HttpClient) (s : Segment) : Bool :=
  !s.has flagRst && finNext (dataHttp http s) s

theorem Streaming.not_synAck (h : Streaming i S http fin) : ¬ isSynAck http s = true := by
  intro hsyn
  simp only [isSynAck, Bool.and_eq_true, beq_iff_eq] at hsyn
  have hlive := h.live
  rw [hsyn.1.1] at hlive
  simp at hlive

/-- The step lemma: a segment of the connection. -/
theorem httpStep_streaming (h : Streaming i S http fin) (hS : S.length < 2 ^ 31)
    (hg : Genuine i S s) : Streaming i S (httpStep http s) (fin || acceptsFin http s) := by
  unfold httpStep
  split
  next hrst =>
    rw [acceptsFin, hrst, Bool.not_true, Bool.false_and, Bool.or_false]
    exact ⟨.inr (.inr (.inr rfl)), h.stored, h.ack, fun hst => by
      rcases hst with hst | hst <;> cases hst⟩
  next hrst =>
    rw [Bool.not_eq_true] at hrst
    rw [if_neg, acceptsFin, hrst, Bool.not_false, Bool.true_and]
    · exact finHttp_streaming (dataHttp_streaming h hS hg)
    · exact h.not_synAck

structure Continues (q : Request) (http : HttpClient) : Prop where
  serves : q.serves http = true
  idle : http.state ≠ .idle
  error : http.state ≠ .error

structure Polled (http http' : HttpClient) : Prop where
  response : http'.response = http.response
  ack : http'.ack = http.ack
  state : http'.state = http.state ∨ (http.state = .established ∧ http'.state = .requestSent) ∨
    (http.state = .done ∧ http'.state = .error)

theorem length_addText {request : List UInt8} (h : request.length ≤ 255) (text : List UInt8) :
    (addText request text).length ≤ 255 := by
  rw [addText, List.length_append, List.length_take]
  omega

theorem length_requestText (http : HttpClient) : (requestText http).length ≤ 255 := by
  unfold requestText
  refine length_addText ?_ _
  have hstart := length_addText (length_addText (length_addText (length_addText (length_addText
    (show ([] : List UInt8).length ≤ 255 from Nat.zero_le _) (ascii "GET ")) http.path)
    (ascii " HTTP/1.0\r\nHost: ")) http.host) (ascii "\r\nUser-Agent: K64-kcurl/1.0\r\n")
  dsimp only
  split
  · split
    · rw [List.length_append]
      simp only [List.length_cons, List.length_nil]
      omega
    · exact length_addText (length_addText (length_addText (length_addText hstart _) _) _) _
  · exact hstart

theorem request_polled {o : Outcome} (hst : net.http.state = .established)
    (h : request net = .ok (o, net')) : Polled net.http net'.http := by
  have hlen := Nat.le_trans (length_requestText net.http) (show 255 ≤ 1460 by decide)
  obtain ⟨⟨sent, net₁⟩, hs, hn⟩ := sendTcp_ok net net.http.ip net.http.port net.http.localPort
    net.http.seq net.http.ack (flagPsh ||| flagAck) hlen
  unfold request at h
  dsimp only at h
  rw [hs] at h
  change (if sent = true then _ else _) = _ at h
  dsimp only at hn
  split at h
  · obtain ⟨-, rfl⟩ := Prod.mk.inj (Except.ok.inj h)
    exact ⟨by dsimp only; rw [hn], by dsimp only; rw [hn], .inr (.inl ⟨hst, rfl⟩)⟩
  · obtain ⟨-, rfl⟩ := Prod.mk.inj (Except.ok.inj h)
    rw [hn]
    exact ⟨rfl, rfl, .inl rfl⟩

theorem deliver_polled (hst : net.http.state = .done) (capacity : ℕ) :
    Polled net.http (deliver net capacity).2.http := by
  have hfailed : Polled net.http { net.http with state := .error } :=
    ⟨rfl, rfl, .inr (.inr ⟨hst, rfl⟩)⟩
  unfold deliver
  dsimp only
  split
  · exact hfailed
  · split_ifs
    · exact hfailed
    · exact hfailed
    · exact hfailed
    · exact hfailed
    · exact ⟨rfl, rfl, .inl rfl⟩

theorem poll_polled {q : Request} {capacity : ℕ} {o : Outcome}
    (hstream : Streaming i S net.http fin) (hc : Continues q net.http)
    (h : k64NetHttpGetRangeRaw net q capacity = .ok (o, net')) : Polled net.http net'.http := by
  have hsame : Polled net.http net.http := ⟨rfl, rfl, .inl rfl⟩
  unfold k64NetHttpGetRangeRaw at h
  split at h
  · obtain ⟨-, rfl⟩ := Prod.mk.inj (Except.ok.inj h)
    exact hsame
  · rw [if_neg (by simp [hc.serves, hc.idle, hc.error])] at h
    dsimp only at h
    rcases hstream.live with hst | hst | hst | hst
    · rw [hst] at h
      exact request_polled hst h
    · rw [hst] at h
      obtain ⟨-, rfl⟩ := Prod.mk.inj (Except.ok.inj h)
      exact hsame
    · rw [hst] at h
      have hd := deliver_polled hst capacity
      rw [Except.ok.inj h] at hd
      exact hd
    · exact absurd hst hc.error

theorem polled_streaming {http' : HttpClient} (h : Streaming i S http fin)
    (hp : Polled http http') : Streaming i S http' fin := by
  refine ⟨?_, hp.response ▸ h.stored, ?_, fun hst => ?_⟩
  · rcases hp.state with hst | ⟨-, hst⟩ | ⟨-, hst⟩
    · exact hst ▸ h.live
    · exact .inr (.inl hst)
    · exact .inr (.inr (.inr hst))
  · rw [hp.response, hp.ack]
    exact h.ack
  · rcases hp.state with hs | ⟨hs, -⟩ | ⟨-, hs⟩
    · exact h.opened (hs ▸ hst)
    · exact h.opened (.inl hs)
    · rw [hs] at hst
      rcases hst with hst | hst <;> cases hst

/-- The connection right after the SYN-ACK of a server that starts at `i`. -/
structure Connected (i : UInt32) (http : HttpClient) : Prop where
  state : http.state = .established
  ack : http.ack = i + 1
  response : http.response = []

/-- The states that a connection can be in: payloads arrive, and the connection is polled. Every
segment that belongs to the connection is genuine and satisfies `ok` when it arrives. The flag tells
whether a FIN was accepted. -/
inductive Reach (i : UInt32) (S : List UInt8) (ok : HttpClient → Segment → Prop) (net₀ : Net) :
    Net → Bool → Prop where
  | start : Reach i S ok net₀ net₀ false
  | segment {net net' : Net} {fin : Bool} {payload : List UInt8} {srcIp : UInt32}
      (before : Reach i S ok net₀ net fin) (short : payload.length < 65536)
      (genuine : ∀ s, segmentOf payload srcIp = some s → addressed net.http s = true →
        Genuine i S s ∧ ok net.http s)
      (handled : handleTcpPayload net payload 0 (UInt16.ofNat payload.length) srcIp = .ok net') :
      Reach i S ok net₀ net' (fin || (segmentOf payload srcIp).any fun s =>
        addressed net.http s && acceptsFin net.http s)
  | poll {net net' : Net} {fin : Bool} {q : Request} {capacity : ℕ} {o : Outcome}
      (before : Reach i S ok net₀ net fin) (continues : Continues q net.http)
      (polled : k64NetHttpGetRangeRaw net q capacity = .ok (o, net')) : Reach i S ok net₀ net' fin

theorem connected_streaming (h : Connected i http) : Streaming i S http false := by
  refine ⟨.inl h.state, h.response ▸ List.nil_prefix, fun _ _ => ?_, fun _ => rfl⟩
  rw [h.ack, h.response]
  exact (UInt32.add_zero _).symm

theorem handled_http {srcIp : UInt32} (short : payload.length < 65536)
    (handled : handleTcpPayload net payload 0 (UInt16.ofNat payload.length) srcIp = .ok net') :
    net'.http = received net.http payload srcIp := by
  obtain ⟨n, hn, hhttp⟩ := handleTcp_eq net short srcIp
  rw [hn] at handled
  rw [← Except.ok.inj handled, hhttp]

theorem reach_streaming {ok : HttpClient → Segment → Prop} {net₀ : Net}
    (h₀ : Connected i net₀.http) (hS : S.length < 2 ^ 31) (h : Reach i S ok net₀ net fin) :
    Streaming i S net.http fin := by
  induction h with
  | start => exact connected_streaming h₀
  | @segment net net' fin payload srcIp before short genuine handled ih =>
    rw [handled_http short handled, received]
    cases hseg : segmentOf payload srcIp with
    | none => exact (Bool.or_false fin).symm ▸ ih
    | some s =>
      dsimp only [Option.any_some]
      cases haddr : addressed net.http s with
      | false => exact (Bool.or_false fin).symm ▸ ih
      | true => exact httpStep_streaming ih hS (genuine s hseg haddr).1
  | poll before continues polled ih => exact polled_streaming ih (poll_polled ih continues polled)

/-- In every state of the connection the buffer holds a prefix of the server's stream, whatever order,
loss, repetition and overlap its segments arrive in; the acknowledged number is the one behind the
prefix while the buffer has room and no FIN was accepted; and the next payload is handled. -/
theorem response_follows_stream {net₀ : Net} {fin : Bool} (h₀ : Connected i net₀.http)
    (hS : S.length < 2 ^ 31) (h : Reach i S (fun _ _ => True) net₀ net fin) :
    net.http.response <+: S ∧
      (net.http.response.length + 1 < httpBufSize → fin = false →
        net.http.ack = i + 1 + UInt32.ofNat net.http.response.length) ∧
      ∀ payload srcIp, payload.length < 65536 →
        ∃ net', handleTcpPayload net payload 0 (UInt16.ofNat payload.length) srcIp = .ok net' := by
  have hstream := reach_streaming h₀ hS h
  refine ⟨hstream.stored, hstream.ack, fun payload srcIp hlen => ?_⟩
  obtain ⟨net', hn, -⟩ := handleTcp_eq net hlen srcIp
  exact ⟨net', hn⟩

/-- A connection of `sampleNet` to port 80 of host 1, whose server starts at `i`. -/
def sampleConnection (i : UInt32) : Net :=
  { sampleNet with http := { HttpClient.zero with
    state := .established
    host := ascii "h"
    path := ascii "/"
    ip := 1
    port := 80
    localPort := 40000
    ack := i + 1 } }

def samplePayload (seq : UInt32) (flags : UInt8) (data : List UInt8) : List UInt8 :=
  tcpPacket 1 0 40000 80 seq 0 flags data

/-- A segment at the last sequence number, with a stream that goes on from zero. -/
theorem wrapping_stream_stored :
    ∃ net', Reach 0xFFFFFFFE [7, 8, 9] (fun _ _ => True) (sampleConnection 0xFFFFFFFE) net' false ∧
      net'.http.response = [7, 8] ∧ net'.http.response <+: [7, 8, 9] := by
  have hshort : (samplePayload 0xFFFFFFFF flagAck [7, 8]).length < 65536 := by decide +kernel
  obtain ⟨net', hn, hhttp⟩ := handleTcp_eq (sampleConnection 0xFFFFFFFE) hshort 1
  have hseg : segmentOf (samplePayload 0xFFFFFFFF flagAck [7, 8]) 1 =
      some ⟨1, 80, 40000, 0xFFFFFFFF, 0, flagAck, [7, 8]⟩ := by decide +kernel
  have hreach : Reach 0xFFFFFFFE [7, 8, 9] (fun _ _ => True) (sampleConnection 0xFFFFFFFE) net' _ :=
    Reach.segment .start hshort (fun s hs _ =>
      ⟨.inr ⟨0, by rw [← Option.some.inj (hseg.symm.trans hs)]; decide⟩, trivial⟩) hn
  have hfin : (segmentOf (samplePayload 0xFFFFFFFF flagAck [7, 8]) 1).any (fun s =>
      addressed (sampleConnection 0xFFFFFFFE).http s &&
        acceptsFin (sampleConnection 0xFFFFFFFE).http s) = false := by decide +kernel
  rw [hfin] at hreach
  refine ⟨net', hreach, ?_, (response_follows_stream ⟨rfl, rfl, rfl⟩ (by decide) hreach).1⟩
  rw [hhttp]
  decide +kernel

end NetStream
