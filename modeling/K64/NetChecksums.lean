import K64.NetReceive
import K64.NetBounds
import K64.OnesComplement
import K64.Yields

/-! # Checksums of outgoing packets

What the network code hands to the driver, seen from a receiver that checks the sums. -/
namespace NetChecksums

open NetState NetReceive NetBounds OnesComplement

def k64NetSendUdp (net : Net) (dstIp : UInt32) (dstPort : UInt16) (payload : List UInt8) :
    Except Fault (Bool × Net) :=
  let payloadLen := UInt16.ofNat payload.length
  if payloadLen > 1400 then .ok (false, net)
  else
    match resolveMac net dstIp with
    | (none, net) => .ok (false, net)
    | (some mac, net) =>
      let udpLen : UInt16 := 8 + payloadLen
      let udp := wr16be 49152 ++ wr16be dstPort ++ wr16be udpLen ++ wr16be 0 ++
        payload.take payloadLen.toNat
      sendIpv4 net mac dstIp protoUdp (patch udp 6 (wr16be (udpChecksum net.ipv4 dstIp udp))) udpLen

/-- `nextIcmpId` is a field of the state that nothing else reads. -/
def k64NetSendPing (net : Net) (nextIcmpId : UInt16) (dstIp : UInt32) (sequence : UInt16) :
    Except Fault (Bool × Net) :=
  match resolveMac net dstIp with
  | (none, net) => .ok (false, net)
  | (some mac, net) =>
    let packet := [8, 0] ++ wr16be 0 ++ wr16be nextIcmpId ++ wr16be sequence ++
      (List.range 24).map fun i => UInt8.ofNat (8 + i)
    sendIpv4 net mac dstIp protoIcmp (patch packet 2 (wr16be (csum16 packet))) 32

def segmentOf (packet : List UInt8) : List UInt8 := packet.drop 20

def protoOf (packet : List UInt8) : UInt8 := packet.getD 9 0

/-- The pseudo header of the segment in a packet. -/
def pseudoOf (packet : List UInt8) : List UInt8 :=
  (packet.drop 12).take 8 ++ [0, protoOf packet] ++ wr16be (UInt16.ofNat (segmentOf packet).length)

/-- The sum of a text, as the 32-bit accumulator computes it, is the sum of its words. -/
def Exact (data : List UInt8) : Prop :=
  ∀ k, (csumAddBytes 0 (data.take (2 * k))).toNat = (words (data.take (2 * k))).sum

/-- The sums of a packet are all ones, and none of them overflowed while its field was zero. -/
structure Verifies (packet : List UInt8) : Prop where
  header : sum (words (packet.take 20)) = 0xFFFF
  headerExact : Exact (patch (packet.take 20) 10 [0, 0])
  udp : protoOf packet = protoUdp → sum (words (pseudoOf packet ++ segmentOf packet)) = 0xFFFF ∧
    ((segmentOf packet).drop 6).take 2 ≠ [0, 0] ∧
    Exact (pseudoOf packet ++ patch (segmentOf packet) 6 [0, 0])
  tcp : protoOf packet = protoTcp → sum (words (pseudoOf packet ++ segmentOf packet)) = 0xFFFF ∧
    Exact (pseudoOf packet ++ patch (segmentOf packet) 16 [0, 0])
  icmp : protoOf packet = protoIcmp → sum (words (segmentOf packet)) = 0xFFFF ∧
    Exact (patch (segmentOf packet) 2 [0, 0])

/-- A frame with a packet whose sums are right. -/
def Carries (dstMac srcMac frame : List UInt8) : Prop :=
  ∃ packet, frame = dstMac ++ srcMac ++ wr16be ethTypeIpv4 ++ packet ∧ Verifies packet

/-- The new frames: packets for the station that was resolved, or the question for it. -/
def SendsVerified (net : Net) (mac : Option (List UInt8)) (net' : Net) : Prop :=
  ∃ new, net'.handed = net.handed ++ new ∧ ∀ f ∈ new,
    match mac with
    | some mac => Carries mac net.mac.toList f
    | none => ∃ ip, f = arpFrame net broadcastMac 1 (List.replicate 6 0) ip

theorem be16_toNat (a b : UInt8) : (be16 a b).toNat = a.toNat * 256 + b.toNat := by
  have ha := a.toNat_lt
  have hb := b.toNat_lt
  have hor := Nat.shiftLeft_add_eq_or_of_lt (show b.toNat < 2 ^ 8 from hb) a.toNat
  rw [Nat.shiftLeft_eq] at hor
  rw [be16, UInt16.toNat_or, UInt16.toNat_shiftLeft, UInt8.toNat_toUInt16, UInt8.toNat_toUInt16]
  change (a.toNat <<< 8 % 65536) ||| b.toNat = _
  rw [Nat.shiftLeft_eq, Nat.mod_eq_of_lt (by omega), ← hor]

theorem csumAdd_toNat : ∀ (data : List UInt8) (s : UInt32), s.toNat + (words data).sum < 2 ^ 32 →
    (csumAddBytes s data).toNat = s.toNat + (words data).sum
  | [], s, _ => rfl
  | [a], s, h => by
    have ha := a.toNat_lt
    have hshift : (a.toUInt32 <<< 8).toNat = a.toNat * 256 := by
      have height : (8 : UInt32).toNat % 32 = 8 := by decide
      rw [UInt32.toNat_shiftLeft, UInt8.toNat_toUInt32, height, Nat.shiftLeft_eq]
      omega
    simp only [words, List.sum_cons, List.sum_nil, Nat.add_zero] at h ⊢
    rw [csumAddBytes, UInt32.toNat_add, hshift, Nat.mod_eq_of_lt h]
  | a :: b :: rest, s, h => by
    rw [words, List.sum_cons, ← Nat.add_assoc] at h ⊢
    have hword : (s + (be16 a b).toUInt32).toNat = s.toNat + (a.toNat * 256 + b.toNat) := by
      rw [UInt32.toNat_add, UInt16.toNat_toUInt32, be16_toNat]
      exact Nat.mod_eq_of_lt (Nat.lt_of_le_of_lt (Nat.le_add_right _ _) h)
    rw [← hword] at h ⊢
    rw [csumAddBytes]
    exact csumAdd_toNat rest _ h

theorem exact_short {data : List UInt8} (h : data.length ≤ 65536) : Exact data := by
  intro k
  have hsum := sum_words_le (data.take (2 * k))
  have hlen := List.length_take_le (2 * k) data
  rw [List.length_take] at hsum
  rw [csumAdd_toNat _ _ (by rw [UInt32.toNat_zero]; omega), UInt32.toNat_zero, Nat.zero_add]

theorem fold_toNat (s : UInt32) :
    (if s >>> 16 = 0 then s else (s &&& (0xFFFF : UInt32)) + (s >>> 16)).toNat = fold s.toNat := by
  have hs := s.toNat_lt
  have hshift : (s >>> 16).toNat = s.toNat / 65536 := by
    rw [UInt32.toNat_shiftRight]
    exact Nat.shiftRight_eq_div_pow _ _
  have hmask : (s &&& (0xFFFF : UInt32)).toNat = s.toNat % 65536 := by
    rw [UInt32.toNat_and]
    exact Nat.and_two_pow_sub_one_eq_mod s.toNat 16
  have hzero : s >>> 16 = 0 ↔ s.toNat < 65536 := by
    rw [← UInt32.toNat_inj, hshift, UInt32.toNat_zero]
    omega
  unfold fold
  split
  next h => rw [if_pos (hzero.mp h)]
  next h =>
    rw [if_neg fun hlt => h (hzero.mpr hlt), UInt32.toNat_add, hmask, hshift]
    omega

theorem csumFinish_toNat (s : UInt32) : (csumFinish s).toNat = 65535 - fold (fold s.toNat) := by
  have hsmall := (agrees_fold s.toNat_lt).small
  rw [csumFinish, UInt16.toNat_not, UInt32.toNat_toUInt16, fold_toNat, fold_toNat,
    Nat.mod_eq_of_lt hsmall]
  rfl

theorem patch_field (front field behind bytes : List UInt8) (h : bytes.length = field.length) :
    patch (front ++ field ++ behind) front.length bytes = front ++ bytes ++ behind := by
  have hdrop : (front ++ field ++ behind).drop (front.length + bytes.length) = behind := by
    rw [h, ← List.length_append, List.drop_left]
  rw [patch, hdrop, List.append_assoc front field behind, List.take_left]

theorem words_wr16be (v : UInt16) : words (wr16be v) = [v.toNat] := by
  have hv := v.toNat_lt
  have hhigh : (v >>> 8).toUInt8.toNat = v.toNat / 256 := by
    have height : (8 : UInt16).toNat % 16 = 8 := by decide
    rw [UInt16.toNat_toUInt8, UInt16.toNat_shiftRight, height, Nat.shiftRight_eq_div_pow]
    omega
  have hlow : v.toUInt8.toNat = v.toNat % 256 := UInt16.toNat_toUInt8 v
  rw [wr16be, words, words, hhigh, hlow]
  congr 1
  omega

theorem be16_wr16be (v : UInt16) : be16 (v >>> 8).toUInt8 v.toUInt8 = v := by
  have hwords := words_wr16be v
  rw [← UInt16.toNat_inj, be16_toNat]
  exact (List.cons.inj hwords).1

structure Cleared (text front behind : List UInt8) : Prop where
  shape : text = front ++ [0, 0] ++ behind
  even : front.length % 2 = 0
  short : text.length ≤ 60000

variable {text front behind pseudo : List UInt8} {c : UInt16}

theorem Cleared.patched (h : Cleared text front behind) (c : UInt16) :
    patch text front.length (wr16be c) = front ++ wr16be c ++ behind := by
  rw [h.shape]
  exact patch_field front [0, 0] behind (wr16be c) rfl

theorem Cleared.sum_patched (h : Cleared text front behind) (c : UInt16) :
    (words (patch text front.length (wr16be c))).sum = (words text).sum + c.toNat := by
  have htwo : (front ++ wr16be c).length % 2 = 0 := by
    rw [List.length_append, length_wr16be]
    have := h.even
    omega
  have hzero : (front ++ [0, 0]).length % 2 = 0 := by
    rw [List.length_append]
    exact (Nat.add_mod_right _ _).trans h.even
  rw [h.patched, h.shape, words_append _ _ htwo, words_append _ _ h.even, words_wr16be,
    words_append _ _ hzero, words_append _ _ h.even]
  simp only [List.sum_append, List.sum_cons, List.sum_nil, words]
  have h0 : (0 : UInt8).toNat = 0 := rfl
  omega

theorem Cleared.ones (h : Cleared text front behind) (hpseudo : pseudo.length = 12 ∨ pseudo = [])
    (hc : c = csumFinish (csumAddBytes (csumAddBytes 0 pseudo) text) ∨
      c = 0xFFFF ∧ csumFinish (csumAddBytes (csumAddBytes 0 pseudo) text) = 0) :
    sum (words (pseudo ++ patch text front.length (wr16be c))) = 65535 := by
  have heven : pseudo.length % 2 = 0 ∧ pseudo.length ≤ 12 := by
    rcases hpseudo with h12 | rfl
    · rw [h12]
      decide
    · decide
  have hp := sum_words_le pseudo
  have ht := sum_words_le text
  have hshort := h.short
  have hadd : (csumAddBytes (csumAddBytes 0 pseudo) text).toNat =
      (words pseudo).sum + (words text).sum := by
    have hfirst : (csumAddBytes 0 pseudo).toNat = (words pseudo).sum := by
      rw [csumAdd_toNat _ _ (by rw [UInt32.toNat_zero]; omega), UInt32.toNat_zero, Nat.zero_add]
    rw [csumAdd_toNat _ _ (by rw [hfirst]; omega), hfirst]
  have hsum : (words (pseudo ++ patch text front.length (wr16be c))).sum =
      (words pseudo).sum + (words text).sum + c.toNat := by
    rw [words_append _ _ heven.1, List.sum_append, h.sum_patched, Nat.add_assoc]
  have hfold : c.toNat = 65535 - fold (fold ((words pseudo).sum + (words text).sum)) ∨
      c.toNat = 65535 ∧ fold (fold ((words pseudo).sum + (words text).sum)) = 65535 := by
    have hfinish := csumFinish_toNat (csumAddBytes (csumAddBytes 0 pseudo) text)
    have hle := (agrees_fold (csumAddBytes (csumAddBytes 0 pseudo) text).toNat_lt).small
    rw [hadd] at hfinish hle
    rcases hc with rfl | ⟨rfl, hzero⟩
    · exact .inl hfinish
    · rw [hzero, UInt16.toNat_zero] at hfinish
      exact .inr ⟨rfl, by omega⟩
  obtain ⟨hpos, hmod⟩ := complement_ones (by omega) hfold
  apply sum_ones (words_lt _)
  · rw [hsum]
    exact hpos
  · rw [hsum]
    exact hmod

theorem Cleared.again (h : Cleared text front behind) (c : UInt16) :
    patch (patch text front.length (wr16be c)) front.length [0, 0] = text := by
  rw [h.patched, patch_field front (wr16be c) behind [0, 0] rfl, ← h.shape]

theorem udpChecksum_cases (srcIp dstIp : UInt32) (udp : List UInt8) :
    udpChecksum srcIp dstIp udp ≠ 0 ∧
      (udpChecksum srcIp dstIp udp = csumFinish (csumAddBytes
        (csumAddBytes 0 (pseudoHeader srcIp dstIp protoUdp udp.length)) udp) ∨
      udpChecksum srcIp dstIp udp = 0xFFFF ∧ csumFinish (csumAddBytes
        (csumAddBytes 0 (pseudoHeader srcIp dstIp protoUdp udp.length)) udp) = 0) := by
  unfold udpChecksum
  dsimp only
  split
  next hne => exact ⟨hne, .inl rfl⟩
  next hzero => exact ⟨by decide, .inr ⟨rfl, not_not.mp hzero⟩⟩

theorem csum16_eq (text : List UInt8) :
    csum16 text = csumFinish (csumAddBytes (csumAddBytes 0 []) text) := rfl

theorem Cleared.ones_alone (h : Cleared text front behind) :
    sum (words (patch text front.length (wr16be (csum16 text)))) = 65535 := by
  have hnone : ([] : List UInt8).length = 12 ∨ ([] : List UInt8) = [] := .inr rfl
  have hones := h.ones hnone (.inl (csum16_eq text))
  rwa [List.nil_append] at hones

theorem wr16be_ne_zero (h : c ≠ 0) : wr16be c ≠ [0, 0] := by
  intro heq
  have hwords := congrArg words heq
  rw [words_wr16be] at hwords
  apply h
  rw [← UInt16.toNat_inj, (List.cons.inj hwords).1]
  rfl

def Sealed (place : ℕ) (checksum : List UInt8 → UInt16) (body : List UInt8) : Prop :=
  ∃ text front behind, Cleared text front behind ∧ front.length = place ∧
    body = patch text place (wr16be (checksum text))

structure SealedFor (srcIp dstIp : UInt32) (proto : UInt8) (body : List UInt8) : Prop where
  udp : proto = protoUdp → Sealed 6 (udpChecksum srcIp dstIp) body
  tcp : proto = protoTcp → Sealed 16 (tcpChecksum srcIp dstIp) body
  icmp : proto = protoIcmp → Sealed 2 csum16 body

theorem Cleared.length_patched (h : Cleared text front behind) (c : UInt16) :
    (patch text front.length (wr16be c)).length = text.length := by
  rw [h.patched, h.shape]
  simp only [List.length_append, length_wr16be, List.length_cons, List.length_nil]

def headerFront (ipLen id : UInt16) (proto : UInt8) : List UInt8 :=
  [0x45, 0] ++ wr16be ipLen ++ wr16be id ++ wr16be 0x4000 ++ [64, proto]

theorem header_cleared (ipLen id : UInt16) (proto : UInt8) (srcIp dstIp : UInt32) :
    Cleared (headerFront ipLen id proto ++ wr16be 0 ++ (wr32be srcIp ++ wr32be dstIp))
      (headerFront ipLen id proto) (wr32be srcIp ++ wr32be dstIp) where
  shape := rfl
  even := show 10 % 2 = 0 from rfl
  short := show 20 ≤ 60000 by decide

theorem ipv4Header_eq (ipLen id : UInt16) (proto : UInt8) (srcIp dstIp : UInt32) :
    ipv4Header ipLen id proto srcIp dstIp =
      patch (headerFront ipLen id proto ++ wr16be 0 ++ (wr32be srcIp ++ wr32be dstIp))
        (headerFront ipLen id proto).length
        (wr16be (csum16 (headerFront ipLen id proto ++ wr16be 0 ++ (wr32be srcIp ++ wr32be dstIp)))) :=
  rfl

theorem packet_fields (ipLen id : UInt16) (proto : UInt8) (srcIp dstIp : UInt32)
    (body : List UInt8) :
    (ipv4Header ipLen id proto srcIp dstIp ++ body).take 20 =
        ipv4Header ipLen id proto srcIp dstIp ∧
      segmentOf (ipv4Header ipLen id proto srcIp dstIp ++ body) = body ∧
      protoOf (ipv4Header ipLen id proto srcIp dstIp ++ body) = proto ∧
      pseudoOf (ipv4Header ipLen id proto srcIp dstIp ++ body) =
        pseudoHeader srcIp dstIp proto body.length := by
  have hpatched := (header_cleared ipLen id proto srcIp dstIp).patched
    (csum16 (headerFront ipLen id proto ++ wr16be 0 ++ (wr32be srcIp ++ wr32be dstIp)))
  rw [← ipv4Header_eq] at hpatched
  rw [hpatched]
  exact ⟨rfl, rfl, rfl, rfl⟩

theorem length_pseudoHeader (srcIp dstIp : UInt32) (proto : UInt8) (n : ℕ) :
    (pseudoHeader srcIp dstIp proto n).length = 12 := rfl

variable {body : List UInt8}

theorem Sealed.exact {place : ℕ} {checksum : List UInt8 → UInt16} {pseudo : List UInt8}
    (h : Sealed place checksum body) (hpseudo : pseudo.length ≤ 12) :
    Exact (pseudo ++ patch body place [0, 0]) := by
  obtain ⟨text, front, behind, hc, rfl, rfl⟩ := h
  have hshort := hc.short
  rw [hc.again]
  apply exact_short
  rw [List.length_append]
  omega

variable {srcIp dstIp : UInt32}

theorem SealedFor.verifies {proto : UInt8}
    (h : SealedFor srcIp dstIp proto body) (ipLen id : UInt16) :
    Verifies (ipv4Header ipLen id proto srcIp dstIp ++ body) := by
  obtain ⟨htake, hseg, hproto, hpseudo⟩ := packet_fields ipLen id proto srcIp dstIp body
  have hcleared := header_cleared ipLen id proto srcIp dstIp
  have hlen := length_pseudoHeader srcIp dstIp proto body.length
  refine ⟨?_, ?_, ?_, ?_, ?_⟩
  · rw [htake, ipv4Header_eq]
    exact hcleared.ones_alone
  · rw [htake]
    apply exact_short
    rw [length_patch]
    · exact show 20 ≤ 65536 by decide
    · exact show 12 ≤ 20 by decide
  · rw [hproto, hseg, hpseudo]
    rintro rfl
    refine ⟨?_, ?_, (h.udp rfl).exact hlen.le⟩
    · obtain ⟨text, front, behind, hc, hplace, rfl⟩ := h.udp rfl
      rw [← hplace, hc.length_patched]
      exact hc.ones (.inl rfl) (udpChecksum_cases srcIp dstIp text).2
    · obtain ⟨text, front, behind, hc, hplace, rfl⟩ := h.udp rfl
      rw [← hplace, hc.patched, List.append_assoc, List.drop_left,
        List.take_left' (length_wr16be _)]
      exact wr16be_ne_zero (udpChecksum_cases srcIp dstIp text).1
  · rw [hproto, hseg, hpseudo]
    rintro rfl
    refine ⟨?_, (h.tcp rfl).exact hlen.le⟩
    obtain ⟨text, front, behind, hc, hplace, rfl⟩ := h.tcp rfl
    rw [← hplace, hc.length_patched]
    exact hc.ones (.inl rfl) (.inl rfl)
  · rw [hproto, hseg]
    intro hicmp
    have hexact : Exact ([] ++ patch body 2 [0, 0]) := (h.icmp hicmp).exact (Nat.zero_le 12)
    refine ⟨?_, hexact⟩
    obtain ⟨text, front, behind, hc, hplace, rfl⟩ := h.icmp hicmp
    rw [← hplace]
    exact hc.ones_alone

theorem SendsVerified.same {net net' : Net} {mac : Option (List UInt8)}
    (h : net'.handed = net.handed) : SendsVerified net mac net' :=
  ⟨[], by rw [h, List.append_nil], by simp⟩

theorem SendsVerified.trans {net net₁ net₂ : Net} {mac : List UInt8}
    (h₁ : SendsVerified net (some mac) net₁) (hmac : net₁.mac = net.mac)
    (h₂ : SendsVerified net₁ (some mac) net₂) : SendsVerified net (some mac) net₂ := by
  obtain ⟨new₁, hhanded₁, hall₁⟩ := h₁
  obtain ⟨new₂, hhanded₂, hall₂⟩ := h₂
  refine ⟨new₁ ++ new₂, by rw [hhanded₂, hhanded₁, List.append_assoc], fun f hf => ?_⟩
  rcases List.mem_append.mp hf with hf | hf
  · exact hall₁ f hf
  · have := hall₂ f hf
    rwa [hmac] at this

variable (net : Net)

theorem sendFrame_cases (f : List UInt8) :
    (sendFrame net f).2.mac = net.mac ∧ (sendFrame net f).2.ipv4 = net.ipv4 ∧
      ((sendFrame net f).2.handed = net.handed ∨ (sendFrame net f).2.handed = net.handed ++ [f]) := by
  unfold sendFrame
  split
  · exact ⟨rfl, rfl, .inl rfl⟩
  · dsimp only
    split_ifs
    · exact ⟨rfl, rfl, .inl rfl⟩
    · exact ⟨rfl, rfl, .inr rfl⟩
    · exact ⟨rfl, rfl, .inr rfl⟩

theorem loadBytes_length {frame : List UInt8} {p n : ℕ} :
    Yields (fun bytes => bytes = (frame.drop p).take n ∧ bytes.length = n) (loadBytes frame p n) := by
  unfold loadBytes
  split
  next h =>
    refine Yields.ok ⟨rfl, ?_⟩
    rw [List.length_take, List.length_drop]
    omega
  · exact Yields.error _

variable {payload : List UInt8}

theorem sendIpv4From_verified (dstMac : List UInt8)
    {proto : UInt8} {payloadLen : UInt16}
    (hsealed : SealedFor srcIp dstIp proto payload) (hlen : payloadLen.toNat = payload.length) :
    Yields (fun r => r.2.mac = net.mac ∧ r.2.ipv4 = net.ipv4 ∧ SendsVerified net (some dstMac) r.2)
      (sendIpv4From net dstMac srcIp dstIp proto payload payloadLen) := by
  unfold sendIpv4From
  dsimp only
  split
  · exact Yields.ok ⟨rfl, rfl, SendsVerified.same rfl⟩
  · refine Yields.bind loadBytes_length fun body hbody => ?_
    split
    · exact Yields.error _
    · refine Yields.ok ?_
      have hwhole : body = payload := by
        rw [hbody.1, List.drop_zero, hlen, List.take_length]
      rw [hwhole]
      obtain ⟨hmac, hip, hhanded⟩ := sendFrame_cases { net with nextIpId := net.nextIpId + 1 }
        (dstMac ++ net.mac.toList ++ wr16be ethTypeIpv4 ++
          ipv4Header (20 + payloadLen) net.nextIpId proto srcIp dstIp ++ payload)
      refine ⟨hmac, hip, ?_⟩
      rcases hhanded with hhanded | hhanded
      · exact SendsVerified.same hhanded
      · refine ⟨_, hhanded, fun f hf => ?_⟩
        rw [List.mem_singleton.mp hf]
        exact ⟨_, List.append_assoc _ _ _, hsealed.verifies _ _⟩

theorem resolveMac_cases (ip : UInt32) :
    (∃ mac, resolveMac net ip = (some mac, net)) ∨
      ∃ net', resolveMac net ip = (none, net') ∧ SendsVerified net none net' := by
  unfold resolveMac
  dsimp only
  generalize (if ip &&& net.netmask = net.ipv4 &&& net.netmask then ip else net.gateway) = target
  split
  next mac _ => exact .inl ⟨mac, rfl⟩
  · refine .inr ⟨_, rfl, ?_⟩
    unfold k64NetSendArpRequest
    split
    · exact SendsVerified.same rfl
    · rcases (sendFrame_cases net _).2.2 with hhanded | hhanded
      · exact SendsVerified.same hhanded
      · refine ⟨_, hhanded, fun f hf => ⟨target, List.mem_singleton.mp hf⟩⟩

theorem SealedFor.ofUdp
    (h : Sealed 6 (udpChecksum srcIp dstIp) body) : SealedFor srcIp dstIp protoUdp body :=
  ⟨fun _ => h, fun hp => absurd hp (by decide), fun hp => absurd hp (by decide)⟩

theorem SealedFor.ofTcp
    (h : Sealed 16 (tcpChecksum srcIp dstIp) body) : SealedFor srcIp dstIp protoTcp body :=
  ⟨fun hp => absurd hp (by decide), fun _ => h, fun hp => absurd hp (by decide)⟩

theorem SealedFor.ofIcmp (h : Sealed 2 csum16 body) :
    SealedFor srcIp dstIp protoIcmp body :=
  ⟨fun hp => absurd hp (by decide), fun hp => absurd hp (by decide), fun _ => h⟩

def clearUdp (srcPort dstPort len : UInt16) (payload : List UInt8) : List UInt8 :=
  wr16be srcPort ++ wr16be dstPort ++ wr16be len ++ wr16be 0 ++ payload

theorem length_clearUdp (srcPort dstPort len : UInt16) (payload : List UInt8) :
    (clearUdp srcPort dstPort len payload).length = 8 + payload.length := by
  simp only [clearUdp, List.length_append, length_wr16be]

theorem sealed_udp (srcIp dstIp : UInt32) (srcPort dstPort len : UInt16)
    (hshort : payload.length ≤ 59992) :
    SealedFor srcIp dstIp protoUdp (patch (clearUdp srcPort dstPort len payload) 6
      (wr16be (udpChecksum srcIp dstIp (clearUdp srcPort dstPort len payload)))) := by
  refine SealedFor.ofUdp ⟨_, wr16be srcPort ++ wr16be dstPort ++ wr16be len, payload,
    ⟨rfl, show 6 % 2 = 0 from rfl, ?_⟩, rfl, rfl⟩
  simp only [List.length_append, length_wr16be, List.length_cons, List.length_nil]
  omega

theorem length_sealedUdp (srcPort dstPort len c : UInt16) (payload : List UInt8) :
    (patch (clearUdp srcPort dstPort len payload) 6 (wr16be c)).length = 8 + payload.length := by
  rw [length_patch (by rw [length_wr16be, length_clearUdp]; omega), length_clearUdp]

theorem sendUdp_verified (dstIp : UInt32) (dstPort : UInt16) (payload : List UInt8) :
    Yields (fun r => SendsVerified net (resolveMac net dstIp).1 r.2)
      (k64NetSendUdp net dstIp dstPort payload) := by
  unfold k64NetSendUdp
  dsimp only
  split
  · exact Yields.ok (SendsVerified.same rfl)
  next hlong =>
    have hle : (UInt16.ofNat payload.length).toNat ≤ 1400 :=
      UInt16.le_iff_toNat_le.mp (UInt16.not_lt.mp hlong)
    have hmod : (UInt16.ofNat payload.length).toNat ≤ payload.length := by
      rw [UInt16.toNat_ofNat']
      exact Nat.mod_le _ _
    have htake : (payload.take (UInt16.ofNat payload.length).toNat).length =
        (UInt16.ofNat payload.length).toNat := by
      rw [List.length_take]
      omega
    rcases resolveMac_cases net dstIp with ⟨mac, hres⟩ | ⟨net', hres, hsent⟩
    · rw [hres]
      refine (sendIpv4From_verified net mac (sealed_udp _ _ _ _ _ (by omega)) ?_).mono
        fun r hr => hr.2.2
      rw [length_sealedUdp, htake, UInt16.toNat_add]
      change (8 + _) % 65536 = _
      omega
    · rw [hres]
      exact Yields.ok hsent

def tcpFront (dstPort srcPort : UInt16) (seq ack : UInt32) (flags : UInt8) : List UInt8 :=
  wr16be srcPort ++ wr16be dstPort ++ wr32be seq ++ wr32be ack ++ [0x50, flags] ++ wr16be 4096

theorem sealed_tcp (srcIp dstIp : UInt32) (dstPort srcPort : UInt16) (seq ack : UInt32)
    (flags : UInt8) (hshort : payload.length ≤ 1460) :
    SealedFor srcIp dstIp protoTcp (tcpPacket srcIp dstIp dstPort srcPort seq ack flags payload) := by
  have hlen : (tcpFront dstPort srcPort seq ack flags).length = 16 := rfl
  have hcleared : Cleared (tcpFront dstPort srcPort seq ack flags ++ [0, 0, 0, 0] ++ payload)
      (tcpFront dstPort srcPort seq ack flags) ([0, 0] ++ payload) := by
    refine ⟨?_, by rw [hlen], ?_⟩
    · rw [List.append_assoc, List.append_assoc]
      rfl
    · rw [List.length_append, List.length_append, hlen]
      simp only [List.length_cons, List.length_nil]
      omega
  exact SealedFor.ofTcp ⟨_, _, _, hcleared, hlen, rfl⟩

theorem sendTcp_verified (dstIp : UInt32) (dstPort srcPort : UInt16) (seq ack : UInt32)
    (flags : UInt8) (payload : List UInt8) :
    Yields (fun r => SendsVerified net (resolveMac net dstIp).1 r.2)
      (sendTcp net dstIp dstPort srcPort seq ack flags payload) := by
  unfold sendTcp
  dsimp only
  split
  · exact Yields.ok (SendsVerified.same rfl)
  · rcases resolveMac_cases net dstIp with ⟨mac, hres⟩ | ⟨net', hres, hsent⟩
    · rw [hres]
      dsimp only
      split
      · exact Yields.error _
      next hlen =>
        refine (sendIpv4From_verified net mac (sealed_tcp _ _ _ _ _ _ _ (by omega)) ?_).mono
          fun r hr => hr.2.2
        rw [length_tcpPacket, UInt16.toNat_add, UInt16.toNat_ofNat']
        change (20 + payload.length % 65536) % 65536 = _
        omega
    · rw [hres]
      exact Yields.ok hsent

theorem sendPing_verified (nextIcmpId : UInt16) (dstIp : UInt32) (sequence : UInt16) :
    Yields (fun r => SendsVerified net (resolveMac net dstIp).1 r.2)
      (k64NetSendPing net nextIcmpId dstIp sequence) := by
  unfold k64NetSendPing
  rcases resolveMac_cases net dstIp with ⟨mac, hres⟩ | ⟨net', hres, hsent⟩
  · rw [hres]
    refine (sendIpv4From_verified net mac (SealedFor.ofIcmp ⟨_, [8, 0], wr16be nextIcmpId ++
      wr16be sequence ++ (List.range 24).map fun i => UInt8.ofNat (8 + i), ⟨?_, rfl, ?_⟩, rfl,
      rfl⟩) ?_).mono fun r hr => hr.2.2
    · simp only [List.append_assoc]
      rfl
    · exact show 32 ≤ 60000 by decide
    · rfl
  · rw [hres]
    exact Yields.ok hsent

theorem sealed_echo (srcIp dstIp : UInt32) {request : List UInt8} (hlong : 8 ≤ request.length)
    (hshort : request.length ≤ 1480) :
    SealedFor srcIp dstIp protoIcmp (patch (patch (patch request 0 [0]) 2 [0, 0]) 2
      (wr16be (csum16 (patch (patch request 0 [0]) 2 [0, 0])))) := by
  have hfirst : (patch request 0 [0]).length = request.length := length_patch (by simp; omega)
  have hreply : (patch (patch request 0 [0]) 2 [0, 0]).length = request.length := by
    rw [length_patch (by rw [hfirst]; simp; omega), hfirst]
  refine SealedFor.ofIcmp ⟨patch (patch request 0 [0]) 2 [0, 0], (patch request 0 [0]).take 2,
    (patch request 0 [0]).drop 4, ⟨rfl, ?_, by omega⟩, ?_, rfl⟩
  · rw [List.length_take, hfirst, Nat.min_eq_left (by omega)]
  · rw [List.length_take, hfirst, Nat.min_eq_left (by omega)]

theorem handleIcmp_verified (frame : List UInt8) (icmp : ℕ) (icmpLen : UInt16)
    (dstMac : List UInt8) (srcIp : UInt32) :
    Yields (SendsVerified net (some dstMac)) (handleIcmp net frame icmp icmpLen dstMac srcIp) := by
  unfold handleIcmp
  split
  · exact Yields.ok (SendsVerified.same rfl)
  next hshort =>
    have hlong : 8 ≤ icmpLen.toNat := UInt16.le_iff_toNat_le.mp (UInt16.not_lt.mp hshort)
    refine Yields.following fun type => ?_
    split
    · exact Yields.ok (SendsVerified.same rfl)
    split
    · unfold echoReply
      refine Yields.bind loadBytes_length fun request hrequest => ?_
      split
      · exact Yields.error _
      next hfits =>
        have hlen := hrequest.2
        refine (sendIpv4From_verified net dstMac (sealed_echo net.ipv4 srcIp (by omega) (by omega))
          ?_).map fun r hr => hr.2.2
        have hfirst : (patch request 0 [0]).length = request.length := length_patch (by simp; omega)
        rw [length_patch, length_patch, hfirst, hlen]
        · rw [hfirst]
          simp
          omega
        · rw [length_patch (by rw [hfirst]; simp; omega), hfirst, length_wr16be]
          omega
    · exact Yields.ok (SendsVerified.same rfl)

theorem sendDhcp_verified (msgType : UInt8) (requestedIp serverIp : UInt32) :
    Yields (fun r => SendsVerified net (some broadcastMac) r.2)
      (sendDhcpMessage net msgType requestedIp serverIp) := by
  unfold sendDhcpMessage
  split
  · exact Yields.ok (SendsVerified.same rfl)
  · obtain ⟨bootp, hbootp⟩ : ∃ bootp, dhcpPacket net msgType requestedIp serverIp =
        patch (clearUdp dhcpClientPort dhcpServerPort (UInt16.ofNat (8 + bootp.length)) bootp) 6
          (wr16be (udpChecksum 0 0xFFFFFFFF (clearUdp dhcpClientPort dhcpServerPort
            (UInt16.ofNat (8 + bootp.length)) bootp))) := ⟨_, rfl⟩
    have hlen := length_dhcpPacket net msgType requestedIp serverIp
    dsimp only
    rw [hbootp, length_sealedUdp] at hlen
    rw [hbootp]
    refine (sendIpv4From_verified net broadcastMac (sealed_udp _ _ _ _ _ (by omega)) ?_).mono
      fun r hr => hr.2.2
    rw [length_sealedUdp]
    exact UInt16.toNat_ofNat_of_lt' (show _ < 65536 by omega)

theorem length_dnsLabels (host : List UInt8) : ∀ done label : List UInt8,
    20 + done.length + 1 + label.length ≤ 506 → (dnsLabels done label host).length ≤ 486 := by
  have hend : ∀ done label : List UInt8, 20 + done.length + 1 + label.length ≤ 506 →
      (done ++ [UInt8.ofNat label.length] ++ label).length ≤ 486 := by
    intro done label h
    simp only [List.length_append, List.length_singleton]
    omega
  induction host with
  | nil => exact fun done label h => hend done label h
  | cons ch rest ih =>
    intro done label h
    unfold dnsLabels
    split_ifs with hfull hdot
    · exact hend done label h
    · apply ih
      simp only [List.length_append, List.length_singleton, List.length_nil]
      omega
    · apply ih
      rw [List.length_append, List.length_singleton]
      omega

theorem sendDnsQuery_verified (host : List UInt8) :
    Yields (fun r => SendsVerified net (resolveMac net net.gateway).1 r.2)
      (sendDnsQuery net host) := by
  have hlabels := length_dnsLabels host [] [] (by decide)
  unfold sendDnsQuery
  split
  · exact Yields.ok (SendsVerified.same rfl)
  · rcases resolveMac_cases net net.gateway with ⟨mac, hres⟩ | ⟨net', hres, hsent⟩
    · rw [hres]
      dsimp only
      generalize hquery : wr16be net.nextDnsId ++ wr16be 0x0100 ++ wr16be 1 ++ [0, 0, 0, 0, 0, 0] ++
        dnsLabels [] [] host ++ [0] ++ wr16be 1 ++ wr16be 1 = query
      have hlen : query.length ≤ 503 := by
        rw [← hquery]
        simp only [List.length_append, length_wr16be, List.length_cons, List.length_nil]
        omega
      have hsend : ∀ (n : Net) (server : UInt32), n.ipv4 = net.ipv4 →
          Yields (fun r => r.2.mac = n.mac ∧ r.2.ipv4 = n.ipv4 ∧ SendsVerified n (some mac) r.2)
            (sendIpv4 n mac server protoUdp (patch (clearUdp dnsSrcPort dnsPort
              (UInt16.ofNat (8 + query.length)) query) 6 (wr16be (udpChecksum net.ipv4 server
                (clearUdp dnsSrcPort dnsPort (UInt16.ofNat (8 + query.length)) query))))
              (UInt16.ofNat (8 + query.length))) := by
        intro n server hip
        rw [← hip]
        refine sendIpv4From_verified n mac (sealed_udp _ _ _ _ _ (by omega)) ?_
        rw [length_sealedUdp]
        exact UInt16.toNat_ofNat_of_lt' (show _ < 65536 by omega)
      refine Yields.bind (hsend _ _ rfl) fun r hr => ?_
      obtain ⟨sent, net₁⟩ := r
      obtain ⟨hmac, hip, hfirst⟩ := hr
      dsimp only
      split
      · refine Yields.bind (hsend _ _ hip) fun r hr' => ?_
        exact Yields.ok (hfirst.trans hmac hr'.2.2)
      · exact Yields.ok hfirst
    · rw [hres]
      exact Yields.ok hsent

/-- Every packet that the six functions hand to the driver verifies. -/
theorem outgoing_checksums_verify (net : Net) :
    (∀ dstIp dstPort payload, Yields (fun r => SendsVerified net (resolveMac net dstIp).1 r.2)
      (k64NetSendUdp net dstIp dstPort payload)) ∧
    (∀ host, Yields (fun r => SendsVerified net (resolveMac net net.gateway).1 r.2)
      (sendDnsQuery net host)) ∧
    (∀ msgType requestedIp serverIp, Yields (fun r => SendsVerified net (some broadcastMac) r.2)
      (sendDhcpMessage net msgType requestedIp serverIp)) ∧
    (∀ dstIp dstPort srcPort seq ack flags payload,
      Yields (fun r => SendsVerified net (resolveMac net dstIp).1 r.2)
        (sendTcp net dstIp dstPort srcPort seq ack flags payload)) ∧
    (∀ nextIcmpId dstIp sequence, Yields (fun r => SendsVerified net (resolveMac net dstIp).1 r.2)
      (k64NetSendPing net nextIcmpId dstIp sequence)) ∧
    ∀ frame icmp icmpLen dstMac srcIp, Yields (SendsVerified net (some dstMac))
      (handleIcmp net frame icmp icmpLen dstMac srcIp) :=
  ⟨sendUdp_verified net, sendDnsQuery_verified net, sendDhcp_verified net, sendTcp_verified net,
    sendPing_verified net, handleIcmp_verified net⟩

end NetChecksums
