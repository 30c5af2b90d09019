import K64.NetReceive

/-! # Received frames and their bounds

A frame whose length field does not overflow the 16-bit check is read inside its bounds, and of these
frames only an echo request that is longer than the reply buffer is answered outside of it. -/
namespace NetBounds

open NetState NetHttp NetReceive

variable {α β : Type} {frame : List UInt8} {net : Net}

def Safe (x : Except Fault α) : Prop := ∃ a, x = .ok a

theorem safe_ok (a : α) : Safe (Except.ok a : Except Fault α) := ⟨a, rfl⟩

theorem safe_bind {x : Except Fault α} {f : α → Except Fault β} (hx : Safe x)
    (hf : ∀ a, x = .ok a → Safe (f a)) : Safe (x >>= f) := by
  obtain ⟨a, ha⟩ := hx
  obtain ⟨b, hb⟩ := hf a ha
  exact ⟨b, by rw [ha]; exact hb⟩

theorem safe_map {x : Except Fault α} {f : α → β} (hx : Safe x) : Safe (x.map f) := by
  obtain ⟨a, rfl⟩ := hx
  exact ⟨f a, rfl⟩

variable {p : ℕ}

theorem load_eq (h : p < frame.length) : load frame p = .ok (byteAt frame p) := by
  rw [load, byteAt, List.getD_eq_getElem?_getD, List.getElem?_eq_getElem h]
  rfl

theorem rd16be_eq (h : p + 1 < frame.length) :
    rd16be frame p = .ok (be16 (byteAt frame p) (byteAt frame (p + 1))) := by
  rw [rd16be, load_eq (by omega), load_eq h]
  rfl

theorem rd32be_eq (h : p + 3 < frame.length) :
    rd32be frame p = .ok (be32 (byteAt frame p) (byteAt frame (p + 1)) (byteAt frame (p + 2))
      (byteAt frame (p + 3))) := by
  rw [rd32be, load_eq (by omega), load_eq (by omega), load_eq (by omega), load_eq h]
  rfl

theorem loadBytes_eq {n : ℕ} (h : p + n ≤ frame.length) :
    loadBytes frame p n = .ok ((frame.drop p).take n) := if_pos (Or.inr h)

theorem safe_load (h : p < frame.length) : Safe (load frame p) := ⟨_, load_eq h⟩

theorem safe_rd16be (h : p + 1 < frame.length) : Safe (rd16be frame p) := ⟨_, rd16be_eq h⟩

theorem safe_rd32be (h : p + 3 < frame.length) : Safe (rd32be frame p) := ⟨_, rd32be_eq h⟩

theorem safe_loadBytes {n : ℕ} (h : p + n ≤ frame.length) : Safe (loadBytes frame p n) :=
  ⟨_, loadBytes_eq h⟩

theorem length_wr16be (v : UInt16) : (wr16be v).length = 2 := rfl

theorem length_wr32be (v : UInt32) : (wr32be v).length = 4 := rfl

theorem length_patch {packet bytes : List UInt8} (h : p + bytes.length ≤ packet.length) :
    (patch packet p bytes).length = packet.length := by
  simp only [patch, List.length_append, List.length_take, List.length_drop]
  omega

theorem sendFrame_http (net : Net) (f : List UInt8) : (sendFrame net f).2.http = net.http := by
  unfold sendFrame
  split
  · rfl
  · dsimp only
    split_ifs <;> rfl

theorem sendIpv4From_ok (net : Net) (dstMac : List UInt8) (srcIp dstIp : UInt32) (proto : UInt8)
    {payload : List UInt8} {payloadLen : UInt16} (hlen : payloadLen.toNat ≤ 1480)
    (hbuf : payloadLen.toNat ≤ payload.length) :
    ∃ r, sendIpv4From net dstMac srcIp dstIp proto payload payloadLen = .ok r ∧
      r.2.http = net.http := by
  unfold sendIpv4From
  dsimp only
  split
  · exact ⟨_, rfl, rfl⟩
  · rw [loadBytes_eq (by omega)]
    exact ⟨sendFrame _ _, if_neg (by omega), sendFrame_http _ _⟩

theorem resolveMac_http (net : Net) (ip : UInt32) : (resolveMac net ip).2.http = net.http := by
  unfold resolveMac
  dsimp only
  split
  · rfl
  · unfold k64NetSendArpRequest
    split
    · rfl
    · exact sendFrame_http _ _

theorem length_tcpPacket (srcIp dstIp : UInt32) (dstPort srcPort : UInt16) (seq ack : UInt32)
    (flags : UInt8) (payload : List UInt8) :
    (tcpPacket srcIp dstIp dstPort srcPort seq ack flags payload).length = 20 + payload.length := by
  rw [tcpPacket, length_patch]
  · simp [wr16be, wr32be]
    omega
  · simp [wr16be, wr32be]

theorem sendTcp_ok (net : Net) (dstIp : UInt32) (dstPort srcPort : UInt16) (seq ack : UInt32)
    (flags : UInt8) {payload : List UInt8} (h : payload.length ≤ 1460) :
    ∃ r, sendTcp net dstIp dstPort srcPort seq ack flags payload = .ok r ∧
      r.2.http = net.http := by
  have hlen : ((20 : UInt16) + UInt16.ofNat payload.length).toNat = 20 + payload.length := by
    rw [UInt16.toNat_add, UInt16.toNat_ofNat', Nat.mod_eq_of_lt (show payload.length < 2 ^ 16 by omega)]
    exact Nat.mod_eq_of_lt (show 20 + payload.length < 2 ^ 16 by omega)
  unfold sendTcp
  dsimp only
  split
  · exact ⟨_, rfl, rfl⟩
  · have hhttp := resolveMac_http net dstIp
    split
    next net₁ heq => exact ⟨_, rfl, by rw [heq] at hhttp; exact hhttp⟩
    next mac net₁ heq =>
      rw [heq] at hhttp
      rw [if_neg (by omega), sendIpv4]
      obtain ⟨r, hs, hn⟩ := sendIpv4From_ok net₁ mac net₁.ipv4 dstIp protoTcp
        (show (20 + UInt16.ofNat payload.length).toNat ≤ 1480 by omega)
        (show _ ≤ (tcpPacket net₁.ipv4 dstIp dstPort srcPort seq ack flags payload).length by
          rw [length_tcpPacket]; omega)
      exact ⟨r, hs, hn.trans hhttp⟩

theorem sendAck_ok (net : Net) : ∃ net', sendAck net = .ok net' ∧ net'.http = net.http := by
  obtain ⟨r, hs, hn⟩ := sendTcp_ok net net.http.ip net.http.port net.http.localPort net.http.seq
    net.http.ack flagAck (show ([] : List UInt8).length ≤ 1460 by simp)
  exact ⟨r.2, by rw [sendAck, hs]; rfl, hn⟩

theorem length_optional (code : UInt8) (ip : UInt32) :
    (if ip ≠ 0 then [code, 4] ++ wr32be ip else []).length ≤ 6 := by
  split_ifs
  · exact Nat.le_refl _
  · exact Nat.zero_le _

theorem length_dhcpPacket (net : Net) (msgType : UInt8) (requestedIp serverIp : UInt32) :
    (dhcpPacket net msgType requestedIp serverIp).length ≤ 269 := by
  have hreq := length_optional 50 requestedIp
  have hserver := length_optional 54 serverIp
  rw [dhcpPacket, length_patch]
  · simp only [List.length_append, List.length_cons, List.length_nil, List.length_replicate,
      length_wr16be, length_wr32be, Vector.length_toList]
    omega
  · simp only [List.length_append, length_wr16be]
    omega

theorem sendDhcpRequest_safe (net : Net) (requestedIp serverIp : UInt32) :
    Safe (sendDhcpRequest net requestedIp serverIp) := by
  unfold sendDhcpRequest sendDhcpMessage
  split
  · exact safe_ok _
  · have hlen := length_dhcpPacket net 3 requestedIp serverIp
    have htoNat : (UInt16.ofNat (dhcpPacket net 3 requestedIp serverIp).length).toNat =
        (dhcpPacket net 3 requestedIp serverIp).length :=
      UInt16.toNat_ofNat'.trans (Nat.mod_eq_of_lt (by omega))
    obtain ⟨r, hs, -⟩ := sendIpv4From_ok net broadcastMac 0 0xFFFFFFFF protoUdp
      (show (UInt16.ofNat (dhcpPacket net 3 requestedIp serverIp).length).toNat ≤ 1480 by omega)
      (show _ ≤ (dhcpPacket net 3 requestedIp serverIp).length by omega)
    exact ⟨r, hs⟩

variable {dnsLen : ℕ}

theorem skipName_safe {dns : ℕ} (h : dns + dnsLen ≤ frame.length) :
    ∀ n pos, Safe (dnsSkipName frame dns dnsLen n pos) := by
  intro n
  induction n with
  | zero => exact fun _ => safe_ok _
  | succ n ih =>
    intro pos
    unfold dnsSkipName
    split
    · refine safe_bind (safe_load (by omega)) fun len _ => ?_
      split_ifs
      · exact safe_ok _
      · exact safe_ok _
      · exact safe_ok _
      · exact ih _
    · exact safe_ok _

theorem skipQuestions_safe {dns : ℕ} (h : dns + dnsLen ≤ frame.length) :
    ∀ qd pos, Safe (skipQuestions frame dns dnsLen qd pos) := by
  intro qd
  induction qd with
  | zero => exact fun _ => safe_ok _
  | succ qd ih =>
    intro pos
    unfold skipQuestions
    split
    · exact safe_bind (skipName_safe h _ _) fun pos' _ => ih _
    · exact safe_ok _

theorem findAnswer_safe {dns : ℕ} (h : dns + dnsLen ≤ frame.length) :
    ∀ an pos, Safe (findAnswer frame dns dnsLen an pos) := by
  intro an
  induction an with
  | zero => exact fun _ => safe_ok _
  | succ an ih =>
    intro pos
    unfold findAnswer
    split
    · refine safe_bind (skipName_safe h _ _) fun pos' _ => ?_
      split
      · exact safe_ok _
      · refine safe_bind (safe_rd16be (by omega)) fun _ _ =>
          safe_bind (safe_rd16be (by omega)) fun _ _ =>
          safe_bind (safe_rd16be (by omega)) fun rdlen _ => ?_
        split
        · exact safe_ok _
        · split
          next hle hrd =>
            have hfour : rdlen.toNat = 4 := by rw [hrd.2.2]; rfl
            exact safe_bind (safe_rd32be (by omega)) fun _ _ => safe_ok _
          · exact ih _
    · exact safe_ok _

theorem handleDns_safe {udp : ℕ} {udpLen : UInt16} (h : udp + udpLen.toNat ≤ frame.length) :
    Safe (handleDnsPayload net frame udp udpLen) := by
  unfold handleDnsPayload
  split
  · exact safe_ok _
  next hlen =>
    have hlen : 20 ≤ udpLen.toNat := UInt16.le_iff_toNat_le.mp (UInt16.not_lt.mp hlen)
    have hdns : udp + 8 + (udpLen.toNat - 8) ≤ frame.length := by omega
    refine safe_bind (safe_rd16be (by omega)) fun _ _ =>
      safe_bind (safe_rd16be (by omega)) fun _ _ => ?_
    split
    · exact safe_ok _
    · refine safe_bind (safe_rd16be (by omega)) fun _ _ => ?_
      split
      · exact safe_ok _
      · refine safe_bind (safe_rd16be (by omega)) fun _ _ =>
          safe_bind (safe_rd16be (by omega)) fun _ _ =>
          safe_bind (skipQuestions_safe hdns _ _) fun _ _ =>
          safe_bind (findAnswer_safe hdns _ _) fun found _ => ?_
        split <;> exact safe_ok _

theorem takeOption_safe {o : DhcpOptions} {opt : UInt8} {len : ℕ}
    (h : p + len ≤ frame.length) : Safe (takeOption frame o opt p len) := by
  unfold takeOption
  split
  next hopt => exact safe_map (safe_load (by omega))
  split
  next hopt => exact safe_map (safe_rd32be (by omega))
  split
  next hopt => exact safe_map (safe_rd32be (by omega))
  split
  next hopt => exact safe_map (safe_rd32be (by omega))
  split
  next hopt => exact safe_map (safe_rd32be (by omega))
  exact safe_ok _

theorem readOptions_safe {bootp bootpLen : ℕ} (h : bootp + bootpLen ≤ frame.length) :
    ∀ n pos o, Safe (readOptions frame bootp bootpLen n pos o) := by
  intro n
  induction n with
  | zero => exact fun _ _ => safe_ok _
  | succ n ih =>
    intro pos o
    unfold readOptions
    split
    · refine safe_bind (safe_load (by omega)) fun opt _ => ?_
      split
      · exact safe_ok _
      split
      · exact ih _ _
      refine safe_bind (safe_load (by omega)) fun len _ => ?_
      split
      · exact safe_ok _
      · exact safe_bind (takeOption_safe (by omega)) fun _ _ => ih _ _
    · exact safe_ok _

theorem handleDhcp_safe {udp : ℕ} {udpLen : UInt16} (h : udp + udpLen.toNat ≤ frame.length) :
    Safe (handleDhcpPayload net frame udp udpLen) := by
  unfold handleDhcpPayload
  split
  · exact safe_ok _
  next hlen =>
    have hlen : 252 ≤ udpLen.toNat := UInt16.le_iff_toNat_le.mp (UInt16.not_lt.mp hlen)
    have hbootp : udp + 8 + (udpLen.toNat - 8) ≤ frame.length := by omega
    refine safe_bind (safe_rd16be (by omega)) fun _ _ =>
      safe_bind (safe_rd16be (by omega)) fun _ _ => ?_
    split
    · exact safe_ok _
    refine safe_bind (safe_rd32be (by omega)) fun _ _ => ?_
    split
    · exact safe_ok _
    refine safe_bind (safe_rd32be (by omega)) fun _ _ => ?_
    split
    · exact safe_ok _
    refine safe_bind (safe_rd32be (by omega)) fun yiaddr _ =>
      safe_bind (readOptions_safe hbootp _ _ _) fun o _ => ?_
    split
    · exact safe_map (sendDhcpRequest_safe _ _ _)
    · split <;> exact safe_ok _

theorem segmentStep_safe (net : Net) (s : Segment) : Safe (segmentStep net s) := by
  unfold segmentStep
  split
  · exact safe_ok _
  split
  · obtain ⟨net', h, -⟩ := sendAck_ok { net with http := { net.http with
      seq := net.http.seq + 1
      ack := s.seq + 1 } }
    exact safe_map ⟨net', h⟩
  · have hdata : Safe (dataStep net s) := by
      unfold dataStep
      split
      · obtain ⟨net', h, -⟩ := sendAck_ok _
        exact ⟨net', h⟩
      · exact safe_ok _
    refine safe_bind hdata fun net' _ => ?_
    unfold finStep
    split
    · obtain ⟨net'', h, -⟩ := sendAck_ok _
      exact safe_map ⟨net'', h⟩
    · exact safe_ok _

theorem copied_le (http : HttpClient) (seq : UInt32) (len : ℕ) :
    (copied http seq len).1 + (copied http seq len).2 ≤ len := by
  unfold copied
  dsimp only
  split_ifs
  · dsimp only
    omega
  · dsimp only
    omega
  · exact Nat.zero_le _
  · exact Nat.zero_le _

theorem handleTcp_safe {payloadLen : UInt16} (h : p + payloadLen.toNat ≤ frame.length)
    (srcIp : UInt32) : Safe (handleTcpPayload net frame p payloadLen srcIp) := by
  unfold handleTcpPayload
  split
  · exact safe_ok _
  next hlen =>
    have hlen : 20 ≤ payloadLen.toNat := UInt16.le_iff_toNat_le.mp (UInt16.not_lt.mp hlen)
    refine safe_bind (safe_rd16be (by omega)) fun _ _ =>
      safe_bind (safe_rd16be (by omega)) fun _ _ => ?_
    split
    · exact safe_ok _
    refine safe_bind (safe_rd32be (by omega)) fun seq _ =>
      safe_bind (safe_rd32be (by omega)) fun _ _ => safe_bind (safe_load (by omega)) fun hdr _ =>
      safe_bind (safe_load (by omega)) fun _ _ => ?_
    dsimp only
    split
    · exact safe_ok _
    next hbounds =>
      have hcopy := copied_le net.http seq (payloadLen.toNat - (hdr >>> 4).toNat * 4)
      split
      · exact safe_bind (safe_loadBytes (by omega)) fun _ _ => segmentStep_safe _ _
      · exact segmentStep_safe _ _

theorem length_reply {request : List UInt8} (h : 8 ≤ request.length) (v : UInt16) :
    (patch (patch (patch request 0 [0]) 2 [0, 0]) 2 (wr16be v)).length = request.length := by
  have h1 : (patch request 0 [0]).length = request.length :=
    length_patch (show 0 + 1 ≤ request.length by omega)
  have h2 : (patch (patch request 0 [0]) 2 [0, 0]).length = request.length :=
    (length_patch (show 2 + 2 ≤ (patch request 0 [0]).length by omega)).trans h1
  exact (length_patch (show 2 + 2 ≤ (patch (patch request 0 [0]) 2 [0, 0]).length by omega)).trans h2

theorem handleIcmp_safe {icmp : ℕ} {icmpLen : UInt16} (h : icmp + icmpLen.toNat ≤ frame.length)
    (dstMac : List UInt8) (srcIp : UInt32) :
    Safe (handleIcmp net frame icmp icmpLen dstMac srcIp) ↔
      ¬ (8 ≤ icmpLen.toNat ∧ byteAt frame icmp = 8 ∧ 1480 < icmpLen.toNat) := by
  unfold handleIcmp
  split
  next hlt =>
    have hlt := UInt16.lt_iff_toNat_lt.mp hlt
    exact ⟨fun _ hbad => absurd hbad.1 (Nat.not_le.mpr hlt), fun _ => safe_ok _⟩
  next hge =>
    have hge : 8 ≤ icmpLen.toNat := UInt16.le_iff_toNat_le.mp (UInt16.not_lt.mp hge)
    rw [load_eq (by omega)]
    change Safe (if byteAt frame icmp = 0 then _ else _) ↔ _
    split
    next htype =>
      refine ⟨fun _ hbad => ?_, fun _ => safe_ok _⟩
      rw [htype] at hbad
      exact absurd hbad.2.1 (by decide)
    split
    next htype =>
      unfold echoReply
      rw [loadBytes_eq (by omega)]
      change Safe (if 1480 < icmpLen.toNat then _ else _) ↔ _
      split
      next hbig =>
        refine ⟨fun hsafe => ?_, fun hnot => absurd ⟨hge, htype, hbig⟩ hnot⟩
        obtain ⟨a, ha⟩ := hsafe
        cases ha
      next hsmall =>
        refine ⟨fun _ hbad => hsmall hbad.2.2, fun _ => safe_map ?_⟩
        have htake : ((frame.drop icmp).take icmpLen.toNat).length = icmpLen.toNat := by
          rw [List.length_take, List.length_drop]
          omega
        obtain ⟨r, hr, -⟩ := sendIpv4From_ok net dstMac net.ipv4 srcIp protoIcmp
          (Nat.not_lt.mp hsmall) (Nat.le_of_eq (htake.symm.trans
            (length_reply (by omega) (csum16 _)).symm))
        exact ⟨r, hr⟩
    · exact ⟨fun _ hbad => absurd hbad.2.1 ‹_›, fun _ => safe_ok _⟩

/-- The fields of the IPv4 header, at their offsets in the frame. -/
def ihlOf (frame : List UInt8) : ℕ := (byteAt frame 14 &&& 0x0F).toNat * 4

def ipLenOf (frame : List UInt8) : UInt16 := be16 (byteAt frame 16) (byteAt frame 17)

def protoOf (frame : List UInt8) : UInt8 := byteAt frame 23

def dstIpOf (frame : List UInt8) : UInt32 :=
  be32 (byteAt frame 30) (byteAt frame 31) (byteAt frame 32) (byteAt frame 33)

/-- The frame holds a datagram that the receiver hands to a protocol. -/
def accepted (net : Net) (frame : List UInt8) : Bool :=
  net.ready && 34 ≤ frame.length && forUs net (frame.take 6) &&
    be16 (byteAt frame 12) (byteAt frame 13) == ethTypeIpv4 && byteAt frame 14 >>> 4 == 4 &&
    acceptsIpv4 net (UInt16.ofNat frame.length) (ihlOf frame) (ipLenOf frame) (dstIpOf frame)

/-- The sum that is compared with the frame's length does not fit into 16 bits. -/
def wrapsLength (net : Net) (frame : List UInt8) : Bool :=
  accepted net frame && 65522 ≤ (ipLenOf frame).toNat

/-- An echo request of more than 1480 bytes. -/
def longEcho (net : Net) (frame : List UInt8) : Bool :=
  accepted net frame && protoOf frame == protoIcmp && byteAt frame (14 + ihlOf frame) == 8 &&
    1480 < (ipLenOf frame).toNat - ihlOf frame

def srcIpOf (frame : List UInt8) : UInt32 :=
  be32 (byteAt frame 26) (byteAt frame 27) (byteAt frame 28) (byteAt frame 29)

def counted (net : Net) (frame : List UInt8) : Net :=
  { net with stats := { net.stats with
    rxFrames := net.stats.rxFrames + 1
    lastEthertype := be16 (byteAt frame 12) (byteAt frame 13)
    lastRxLen := UInt16.ofNat frame.length } }

theorem receiveArp_safe (h : 42 ≤ frame.length) : Safe (receiveArp net frame) := by
  unfold receiveArp
  refine safe_bind (safe_rd16be (by omega)) fun _ _ =>
    safe_bind (safe_rd32be (by omega)) fun _ _ => safe_bind (safe_rd32be (by omega)) fun _ _ =>
    safe_bind (safe_loadBytes (by omega)) fun _ _ => ?_
  dsimp only
  split <;> exact safe_ok _

theorem receive_safe_iff (hlen : frame.length < 65536) :
    Safe (k64NetReceiveFrame net frame) ↔ (accepted net frame = true →
      Safe (handleIpv4 (counted net frame) frame (ihlOf frame) (ipLenOf frame) (protoOf frame)
        (srcIpOf frame))) := by
  have htoNat : (UInt16.ofNat frame.length).toNat = frame.length :=
    UInt16.toNat_ofNat'.trans (Nat.mod_eq_of_lt hlen)
  unfold k64NetReceiveFrame
  dsimp only
  split
  next hskip =>
    refine ⟨fun _ hacc => ?_, fun _ => safe_ok _⟩
    simp only [accepted, Bool.and_eq_true, decide_eq_true_eq] at hacc
    simp only [hacc.1.1.1.1.1, Bool.not_true, Bool.false_or, decide_eq_true_eq,
      UInt16.lt_iff_toNat_lt, htoNat] at hskip
    have h14 : (14 : UInt16).toNat = 14 := rfl
    omega
  next hkeep =>
    simp only [Bool.or_eq_true, Bool.not_eq_true', decide_eq_true_eq, not_or,
      UInt16.lt_iff_toNat_lt, htoNat, Bool.not_eq_false] at hkeep
    have h14 : 14 ≤ frame.length := Nat.not_lt.mp hkeep.2
    rw [loadBytes_eq (by omega)]
    change Safe (if !forUs net (frame.take 6) then _ else _) ↔ _
    split
    next hother =>
      refine ⟨fun _ hacc => ?_, fun _ => safe_ok _⟩
      simp only [accepted, Bool.and_eq_true] at hacc
      simp [hacc.1.1.1.2] at hother
    next hours =>
      rw [rd16be_eq (by omega)]
      change Safe (if be16 (byteAt frame 12) (byteAt frame 13) = ethTypeArp ∧
        UInt16.ofNat frame.length ≥ 42 then receiveArp (counted net frame) frame else _) ↔ _
      split
      next harp =>
        have h42 : 42 ≤ frame.length := htoNat ▸ UInt16.le_iff_toNat_le.mp harp.2
        refine ⟨fun _ hacc => ?_, fun _ => receiveArp_safe h42⟩
        simp only [accepted, Bool.and_eq_true, beq_iff_eq] at hacc
        rw [harp.1] at hacc
        exact absurd hacc.1.1.2 (by decide)
      next hnarp =>
        split
        next hip =>
          have h34 : 34 ≤ frame.length := htoNat ▸ UInt16.le_iff_toNat_le.mp hip.2
          rw [load_eq (by omega)]
          change Safe (if byteAt frame 14 >>> 4 = 4 then receiveIpv4 (counted net frame) frame
            (UInt16.ofNat frame.length) (byteAt frame 14) else _) ↔ _
          split
          next hver =>
            unfold receiveIpv4
            rw [rd16be_eq (by omega), load_eq (by omega), rd32be_eq (by omega),
              rd32be_eq (by omega)]
            change Safe (if acceptsIpv4 (counted net frame) (UInt16.ofNat frame.length)
              (ihlOf frame) (ipLenOf frame) (dstIpOf frame) = true then _ else _) ↔ _
            have hsame : acceptsIpv4 (counted net frame) (UInt16.ofNat frame.length)
              (ihlOf frame) (ipLenOf frame) (dstIpOf frame) = accepted net frame := by
              have hours' : forUs net (frame.take 6) = true := by simpa using hours
              simp only [accepted, hkeep.1, h34, hours', hip.1, hver, decide_true, beq_self_eq_true,
                Bool.true_and]
              rfl
            rw [hsame]
            split
            next hacc => exact ⟨fun h _ => h, fun h => h hacc⟩
            next hacc => exact ⟨fun _ h => absurd h hacc, fun _ => safe_ok _⟩
          next hver =>
            refine ⟨fun _ hacc => ?_, fun _ => safe_ok _⟩
            simp only [accepted, Bool.and_eq_true, beq_iff_eq] at hacc
            exact absurd hacc.1.2 hver
        next hnip =>
          refine ⟨fun _ hacc => ?_, fun _ => safe_ok _⟩
          simp only [accepted, Bool.and_eq_true, beq_iff_eq, decide_eq_true_eq] at hacc
          refine absurd ⟨hacc.1.1.2, ?_⟩ hnip
          exact UInt16.le_iff_toNat_le.mpr (htoNat.symm ▸ hacc.1.1.1.1.2)

theorem accepted_payload (hlen : frame.length < 65536) (h : accepted net frame = true)
    (hw : wrapsLength net frame = false) :
    20 ≤ ihlOf frame ∧ ihlOf frame ≤ (ipLenOf frame).toNat ∧
      14 + (ipLenOf frame).toNat ≤ frame.length := by
  have htoNat : (UInt16.ofNat frame.length).toNat = frame.length :=
    UInt16.toNat_ofNat'.trans (Nat.mod_eq_of_lt hlen)
  have hsmall : (ipLenOf frame).toNat < 65522 := by
    simpa [wrapsLength, h] using hw
  have hacc : acceptsIpv4 net (UInt16.ofNat frame.length) (ihlOf frame) (ipLenOf frame)
      (dstIpOf frame) = true := by
    simp only [accepted, Bool.and_eq_true] at h
    exact h.2
  simp only [acceptsIpv4, Bool.not_eq_true', Bool.or_eq_false_iff, decide_eq_false_iff_not,
    gt_iff_lt, UInt16.lt_iff_toNat_lt, UInt16.toNat_add, htoNat] at hacc
  have h14 : (14 : UInt16).toNat = 14 := rfl
  rw [h14, Nat.mod_eq_of_lt (by omega)] at hacc
  omega

theorem handleIpv4_safe (hlen : frame.length < 65536) (hacc : accepted net frame = true)
    (hw : wrapsLength net frame = false) (net' : Net) :
    Safe (handleIpv4 net' frame (ihlOf frame) (ipLenOf frame) (protoOf frame) (srcIpOf frame)) ↔
      longEcho net frame = false := by
  obtain ⟨h20, hihl, hfit⟩ := accepted_payload hlen hacc hw
  have hsub : (ipLenOf frame - UInt16.ofNat (ihlOf frame)).toNat =
      (ipLenOf frame).toNat - ihlOf frame := by
    have hi : (UInt16.ofNat (ihlOf frame)).toNat = ihlOf frame :=
      UInt16.toNat_ofNat'.trans (Nat.mod_eq_of_lt (by omega))
    rw [UInt16.toNat_sub_of_le _ _ (UInt16.le_iff_toNat_le.mpr (by omega)), hi]
  have hpayload : 14 + ihlOf frame + (ipLenOf frame - UInt16.ofNat (ihlOf frame)).toNat ≤
      frame.length := by omega
  have hno : protoOf frame ≠ protoIcmp → longEcho net frame = false := by
    intro hne
    simp [longEcho, hne]
  unfold handleIpv4
  rw [loadBytes_eq (by omega)]
  change Safe (if protoOf frame = protoUdp then _ else _) ↔ _
  split
  next hudp =>
    refine ⟨fun _ => hno (by rw [hudp]; decide), fun _ => ?_⟩
    exact safe_bind (handleDns_safe hpayload) fun _ _ => handleDhcp_safe hpayload
  split
  next hicmp =>
    refine (handleIcmp_safe hpayload _ _).trans ?_
    rw [hsub, longEcho, hacc, hicmp]
    simp only [beq_self_eq_true, Bool.true_and, Bool.and_eq_false_iff, beq_eq_false_iff_ne,
      decide_eq_false_iff_not]
    by_cases hecho : byteAt frame (14 + ihlOf frame) = 8
    · simp only [hecho, ne_eq, not_true_eq_false, false_or, true_and]
      omega
    · simp only [hecho, ne_eq, not_false_eq_true, true_or, false_and, and_false]
  next hnicmp =>
    split
    · exact ⟨fun _ => hno hnicmp, fun _ => handleTcp_safe hpayload _⟩
    · exact ⟨fun _ => hno hnicmp, fun _ => safe_ok _⟩

/-- Of the frames whose length check does not overflow, exactly the long echo requests are handled
outside their buffers. -/
theorem frames_in_bounds_iff (net : Net) (frame : List UInt8) (hlen : frame.length < 65536)
    (hw : wrapsLength net frame = false) :
    Safe (k64NetReceiveFrame net frame) ↔ longEcho net frame = false := by
  rw [receive_safe_iff hlen]
  cases hacc : accepted net frame with
  | false =>
    refine ⟨fun _ => ?_, fun _ h => by cases h⟩
    rw [longEcho, hacc]
    rfl
  | true =>
    refine ⟨fun h => (handleIpv4_safe hlen hacc hw _).mp (h rfl), fun h _ => ?_⟩
    exact (handleIpv4_safe hlen hacc hw _).mpr h

def sampleNet : Net := k64NetRegisterDevice k64NetInit (Vector.replicate 6 0) fun _ _ => true

/-- A broadcast IPv4 frame with the given length field, protocol and payload. -/
def ipv4Frame (ipLen : UInt16) (proto : UInt8) (payload : List UInt8) : List UInt8 :=
  broadcastMac ++ List.replicate 6 1 ++ wr16be ethTypeIpv4 ++ [0x45, 0] ++ wr16be ipLen ++
    [0, 0, 0, 0, 64, proto, 0, 0] ++ wr32be 1 ++ wr32be 0xFFFFFFFF ++ payload

theorem short_echo_in_bounds : Safe (k64NetReceiveFrame sampleNet
    (ipv4Frame 28 protoIcmp [8, 0, 0, 0, 0, 0, 0, 0])) :=
  (frames_in_bounds_iff sampleNet (ipv4Frame 28 protoIcmp [8, 0, 0, 0, 0, 0, 0, 0]) (by decide)
    (by decide +kernel)).mpr (by decide +kernel)

def faultOf (x : Except Fault α) : Option Fault :=
  match x with
  | .error fault => some fault
  | .ok _ => none

/-- A frame of 34 bytes that claims 65530 passes the length check, and the byte behind it is read. -/
theorem wrapped_length_reads_outside :
    (ipv4Frame 65530 protoIcmp []).length = 34 ∧
      faultOf (k64NetReceiveFrame sampleNet (ipv4Frame 65530 protoIcmp [])) = some (.read 34) := by
  decide +kernel

end NetBounds
