import K64.NetChecksums
import K64.RecordRing
import K64.RunPrefixes

/-! # The receive ring of the RTL8139

`k64_rtl8139_poll` and the card that fills the ring. The card writes a frame that starts before the
end of the ring past the end; the driver reads it round the end. -/
namespace RtlReceive

open RecordRing

def rxBufferSize : UInt32 := 32768

def rxStorageSize : UInt32 := rxBufferSize + 16 + 1500

def rcrRxBuf32K : UInt32 := (2 : UInt32) <<< (11 : UInt32)

/-- What `k64_rtl8139_driver_start` writes to the receive configuration. -/
def rcr : UInt32 := 0x8F ||| rcrRxBuf32K

/-- A good frame of 60 to 1514 bytes, with the status and the CRC that the card adds. -/
structure Frame where
  status : UInt16
  bytes : List UInt8
  crc : List UInt8
  good : status &&& 1 ≠ 0
  least : 60 ≤ bytes.length
  most : bytes.length ≤ 1514
  length_crc : crc.length = 4

def le16 (v : UInt16) : List UInt8 := [v.toUInt8, (v >>> 8).toUInt8]

def Frame.text (f : Frame) : List UInt8 :=
  le16 f.status ++ (le16 (UInt16.ofNat (f.bytes.length + 4)) ++ f.bytes)

/-- Header, bytes and CRC, aligned to 4. -/
def Frame.size (f : Frame) : ℕ := (f.bytes.length + 8 + 3) / 4 * 4

/-- The memory is counted from the start of `rtl_rx_buffer`; `top` is the end of what the card has
written. -/
structure Card where
  mem : ℕ → UInt8
  wr : ℕ
  capr : UInt16
  top : ℕ

/-- The ring has 8 KiB, doubled as often as bits 11 and 12 say. -/
def ringSize : ℕ := 8192 * 2 ^ ((rcr >>> 11) &&& 3).toNat

/-- The offset that the driver has read up to. -/
def Card.rd (c : Card) : ℕ := (c.capr.toNat + 16) % ringSize

def Card.used (c : Card) : ℕ := (c.wr + ringSize - c.rd) % ringSize

/-- With bit 7 the card goes on past the end of the ring, without it at the start. -/
def Card.write (c : Card) (cells : List UInt8) : ℕ → UInt8 :=
  if rcr &&& 0x80 ≠ 0 then put c.mem c.wr cells
  else put (put c.mem c.wr (cells.take (ringSize - c.wr))) 0 (cells.drop (ringSize - c.wr))

def Card.store (c : Card) (f : Frame) : Card :=
  { c with
    mem := c.write (f.text ++ f.crc)
    wr := (c.wr + f.size) % ringSize
    top := max c.top (c.wr + (f.text ++ f.crc).length) }

structure Rtl where
  present : Bool
  rxOffset : UInt32
  pollCount : UInt64

def rd16leRing (mem : ℕ → UInt8) (off : UInt32) : UInt16 :=
  let a := mem (off % rxBufferSize).toNat
  let b := mem ((off + 1) % rxBufferSize).toNat
  a.toUInt16 ||| (b.toUInt16 <<< 8)

def copyFromRing (mem : ℕ → UInt8) (off : UInt32) (len : UInt16) : List UInt8 :=
  (List.range len.toNat).map fun i => mem ((off + UInt32.ofNat i) % rxBufferSize).toNat

/-- The driver, the card, the frames that it has stored and those that were passed to
`k64_net_receive_frame`. -/
structure System where
  rtl : Rtl
  card : Card
  stored : List Frame
  delivered : List (List UInt8)

/-- The loop of `k64_rtl8139_poll`; the ring is empty when the card has nothing to read. -/
def pollLoop : ℕ → System → System
  | 0, s => s
  | budget + 1, s =>
    if s.card.rd = s.card.wr then s
    else
      let status := rd16leRing s.card.mem s.rtl.rxOffset
      let len := rd16leRing s.card.mem (s.rtl.rxOffset + 2)
      if len < 4 ∨ len > 1536 ∨ status &&& 1 = 0 then
        { s with rtl := { s.rtl with rxOffset := 0 }, card := { s.card with capr := 0 } }
      else
        let payloadLen := len - 4
        let frame := copyFromRing s.card.mem (s.rtl.rxOffset + 4) payloadLen
        let off := ((s.rtl.rxOffset + len.toUInt32 + 4 + 3) &&& ~~~3) % rxBufferSize
        pollLoop budget { s with
          rtl := { s.rtl with rxOffset := off }
          card := { s.card with capr := (off - 16).toUInt16 }
          delivered := s.delivered ++ [frame] }

def k64Rtl8139Poll (s : System) : System :=
  if s.rtl.present = false then s
  else pollLoop 16 { s with rtl := { s.rtl with pollCount := s.rtl.pollCount + 1 } }

/-- After `k64_rtl8139_driver_start`; a reset leaves `CAPR` 16 before the start of the ring. -/
def start : System where
  rtl := ⟨true, 0, 0⟩
  card := ⟨fun _ => 0, 0, 0xFFF0, 0⟩
  stored := []
  delivered := []

inductive Event where
  | receive (frame : Frame)
  | poll

/-- A frame that would overrun the reader is not stored. -/
def step (s : System) : Event → System
  | .receive f =>
    if s.card.used + f.size < ringSize then
      { s with card := s.card.store f, stored := s.stored ++ [f] }
    else s
  | .poll => k64Rtl8139Poll s

def run (events : List Event) : System := events.foldl step start

def polls (k : ℕ) (s : System) : System := k64Rtl8139Poll^[k] s

/-- Every poll delivers the next sixteen of the stored frames, or as many as there are, and the card
has written to the buffer only. -/
structure Intact (s : System) : Prop where
  delivers : ∀ k, (polls k s).delivered =
    (s.stored.map Frame.bytes).take (s.delivered.length + 16 * k)
  inside : s.card.top ≤ rxStorageSize.toNat

/-- The frame ends before the ring does, or what is beyond is the same as at the start of the ring;
and its record ends in the buffer. -/
structure Harmless (c : Card) (f : Frame) : Prop where
  same : ∀ i (h : i < f.bytes.length), ringSize ≤ c.wr + 4 + i →
    c.mem (c.wr + 4 + i - ringSize) = f.bytes[i]
  room : c.wr + 8 + f.bytes.length ≤ rxStorageSize.toNat

variable {s : System} {mem : ℕ → UInt8} {off : UInt32} {pos : ℕ} {pending : List Frame}

theorem ring_index {i : ℕ} (hoff : off.toNat % ringSize = pos % ringSize) (hi : i < 65536) :
    ((off + UInt32.ofNat i) % rxBufferSize).toNat = (pos + i) % ringSize := by
  have hsize : rxBufferSize.toNat = 32768 := rfl
  have hring : ringSize = 32768 := rfl
  have hnat : (UInt32.ofNat i).toNat = i :=
    UInt32.toNat_ofNat_of_lt' (show i < 4294967296 by omega)
  rw [hring] at hoff ⊢
  rw [UInt32.toNat_mod, UInt32.toNat_add, hnat, hsize]
  omega

theorem rd16le_at {v : UInt16} (h : Reads ringSize mem pos (le16 v))
    (hoff : off.toNat % ringSize = pos % ringSize) : rd16leRing mem off = v := by
  have hlow := h 0 Nat.zero_lt_two
  have hhigh := h 1 Nat.one_lt_two
  have hzero := ring_index (i := 0) hoff (by omega)
  have hone := ring_index (i := 1) hoff (by omega)
  rw [show off + UInt32.ofNat 0 = off from UInt32.add_zero off] at hzero
  rw [rd16leRing, hzero, show off + 1 = off + UInt32.ofNat 1 from rfl, hone, hlow, hhigh]
  exact (UInt16.or_comm _ _).trans (NetChecksums.be16_wr16be v)

theorem copy_at {cells : List UInt8} {len : UInt16} (h : Reads ringSize mem pos cells)
    (hoff : off.toNat % ringSize = pos % ringSize) (hlen : len.toNat = cells.length) :
    copyFromRing mem off len = cells := by
  have hbound := len.toNat_lt
  refine List.ext_getElem (by rw [copyFromRing, List.length_map, List.length_range, hlen]) ?_
  intro i hi hi'
  rw [copyFromRing, List.length_map, List.length_range] at hi
  simp only [copyFromRing, List.getElem_map, List.getElem_range]
  rw [ring_index hoff (by omega), h i hi']

theorem toNat_and_not_three (x : UInt32) : (x &&& ~~~3).toNat = x.toNat / 4 * 4 := by
  have hmask : (~~~3 : UInt32).toNat = (2 ^ 30 - 1) * 2 ^ 2 := rfl
  have hfour : x.toNat / 4 * 4 = x.toNat / 2 ^ 2 * 2 ^ 2 := rfl
  rw [UInt32.toNat_and, hmask, hfour]
  refine Nat.eq_of_testBit_eq fun i => ?_
  rw [Nat.testBit_and, Nat.testBit_mul_two_pow, Nat.testBit_mul_two_pow,
    Nat.testBit_two_pow_sub_one, Nat.testBit_div_two_pow]
  by_cases hi : 2 ≤ i
  · rw [Nat.sub_add_cancel hi, decide_eq_true hi]
    by_cases hhigh : i < 32
    · rw [decide_eq_true (show i - 2 < 30 by omega), Bool.and_true, Bool.and_true, Bool.true_and]
    · have hzero : x.toNat.testBit i = false := Nat.testBit_lt_two_pow
        (lt_of_lt_of_le x.toNat_lt (Nat.pow_le_pow_right (by omega) (by omega)))
      rw [hzero, Bool.false_and, Bool.and_false]
  · rw [decide_eq_false hi, Bool.false_and, Bool.false_and, Bool.and_false]

/-- The ring holds `pending`, counted from the position that the driver has read up to. -/
structure Holds (s : System) (pos : ℕ) (pending : List Frame) : Prop where
  present : s.rtl.present = true
  offset : s.rtl.rxOffset.toNat = pos % ringSize
  rd : s.card.rd = pos % ringSize
  wr : s.card.wr = (pos + total Frame.size pending) % ringSize
  aligned : pos % 4 = 0
  room : total Frame.size pending < ringSize
  placed : Placed ringSize Frame.text Frame.size s.card.mem pos pending

theorem Frame.length_text (f : Frame) : f.text.length = f.bytes.length + 4 := by
  rw [Frame.text, List.length_append, List.length_append]
  have htwo : ∀ v, (le16 v).length = 2 := fun _ => rfl
  rw [htwo, htwo]
  omega

def Frame.header (f : Frame) : List UInt8 :=
  le16 f.status ++ le16 (UInt16.ofNat (f.bytes.length + 4))

theorem Frame.text_eq (f : Frame) : f.text = f.header ++ f.bytes := (List.append_assoc _ _ _).symm

theorem Frame.text_le_size (f : Frame) : f.text.length ≤ f.size := by
  rw [f.length_text, Frame.size]
  omega

theorem size_pos (f : Frame) : 0 < f.size := by
  rw [Frame.size]
  omega

theorem size_aligned (f : Frame) : f.size % 4 = 0 := Nat.mul_mod_left _ _

theorem Frame.toNat_length (f : Frame) :
    (UInt16.ofNat (f.bytes.length + 4)).toNat = f.bytes.length + 4 := by
  have hmost := f.most
  exact UInt16.toNat_ofNat_of_lt' (show _ < 65536 by omega)

theorem Frame.toNat_payload (f : Frame) :
    (UInt16.ofNat (f.bytes.length + 4) - 4).toNat = f.bytes.length := by
  have hlen := f.toNat_length
  have hfour : (4 : UInt16).toNat = 4 := rfl
  rw [UInt16.toNat_sub_of_le _ _ (UInt16.le_iff_toNat_le.mpr (by omega)), hlen, hfour]
  omega

theorem Frame.passes (f : Frame) : ¬(UInt16.ofNat (f.bytes.length + 4) < 4 ∨
    UInt16.ofNat (f.bytes.length + 4) > 1536 ∨ f.status &&& 1 = 0) := by
  have hleast := f.least
  have hmost := f.most
  have hlen := f.toNat_length
  have hfour : (4 : UInt16).toNat = 4 := rfl
  have hbig : (1536 : UInt16).toNat = 1536 := rfl
  rintro (hlow | hhigh | hbad)
  · rw [UInt16.lt_iff_toNat_lt] at hlow
    omega
  · have hhigh : (1536 : UInt16).toNat < _ := UInt16.lt_iff_toNat_lt.mp hhigh
    omega
  · exact f.good hbad

/-- The state after `f` was taken from the ring. -/
def taken (s : System) (f : Frame) : System :=
  let off := ((s.rtl.rxOffset + (UInt16.ofNat (f.bytes.length + 4)).toUInt32 + 4 + 3) &&& ~~~3) %
    rxBufferSize
  { s with
    rtl := { s.rtl with rxOffset := off }
    card := { s.card with capr := (off - 16).toUInt16 }
    delivered := s.delivered ++ [f.bytes] }

theorem Holds.not_empty {f : Frame} (h : Holds s pos (f :: pending)) : s.card.rd ≠ s.card.wr := by
  have hpos := size_pos f
  have hroom := h.room
  rw [h.rd, h.wr]
  rw [total_cons] at hroom ⊢
  exact mod_ne (by omega) (by omega)

theorem pollLoop_taken {f : Frame} (h : Holds s pos (f :: pending)) (budget : ℕ) :
    pollLoop (budget + 1) s = pollLoop budget (taken s f) := by
  have hring : ringSize = 32768 := rfl
  have hoff := h.offset
  obtain ⟨hstatus, hrest⟩ := Reads.split h.placed.1
  obtain ⟨hlength, hbytes⟩ := Reads.split hrest
  have hmod := Nat.mod_lt pos (show 0 < ringSize by decide)
  have hadd : ∀ k : UInt32, k.toNat < 100 →
      (s.rtl.rxOffset + k).toNat = pos % ringSize + k.toNat := by
    intro k hk
    rw [UInt32.toNat_add, hoff]
    omega
  have htwo : (s.rtl.rxOffset + 2).toNat = pos % ringSize + 2 := hadd 2 (by decide)
  have hfour : (s.rtl.rxOffset + 4).toNat = pos % ringSize + 4 := hadd 4 (by decide)
  have hstatusAt : rd16leRing s.card.mem s.rtl.rxOffset = f.status :=
    rd16le_at hstatus (by rw [hoff, Nat.mod_mod])
  have hlengthAt : rd16leRing s.card.mem (s.rtl.rxOffset + 2) = UInt16.ofNat (f.bytes.length + 4) :=
    rd16le_at hlength (by rw [htwo]; exact Nat.mod_add_mod _ _ _)
  have hcopied : copyFromRing s.card.mem (s.rtl.rxOffset + 4)
      (UInt16.ofNat (f.bytes.length + 4) - 4) = f.bytes :=
    copy_at hbytes (by rw [hfour]; exact Nat.mod_add_mod _ _ _) f.toNat_payload
  rw [pollLoop, if_neg h.not_empty, hstatusAt, hlengthAt]
  simp only [hcopied]
  rw [if_neg f.passes]
  rfl

theorem Holds.taken {f : Frame} (h : Holds s pos (f :: pending)) :
    Holds (taken s f) (pos + f.size) pending := by
  have hring : ringSize = 32768 := rfl
  have hmost := f.most
  have hmod := Nat.mod_lt pos (show 0 < ringSize by decide)
  have haligned := h.aligned
  have hlen : (UInt16.ofNat (f.bytes.length + 4)).toUInt32.toNat = f.bytes.length + 4 := by
    rw [UInt16.toNat_toUInt32, f.toNat_length]
  have hthree : (3 : UInt32).toNat = 3 := rfl
  have hfour : (4 : UInt32).toNat = 4 := rfl
  have hsize : rxBufferSize.toNat = 32768 := rfl
  have hoffset : (RtlReceive.taken s f).rtl.rxOffset.toNat = (pos + f.size) % ringSize := by
    change ((((s.rtl.rxOffset + _ + 4 + 3) &&& ~~~3) % rxBufferSize : UInt32)).toNat = _
    rw [UInt32.toNat_mod, toNat_and_not_three, UInt32.toNat_add, UInt32.toNat_add, UInt32.toNat_add,
      hlen, h.offset, hthree, hfour, hsize, Frame.size, hring]
    omega
  have hbound := Nat.mod_lt (pos + f.size) (show 0 < ringSize by decide)
  refine ⟨h.present, hoffset, ?_, ?_, ?_, ?_, h.placed.2⟩
  · have hsixteen : (16 : UInt32).toNat = 16 := rfl
    rw [Card.rd, ← hoffset]
    change ((((RtlReceive.taken s f).rtl.rxOffset - 16).toUInt16).toNat + 16) % ringSize = _
    rw [UInt32.toNat_toUInt16, UInt32.toNat_sub, hsixteen, hring]
    omega
  · have hwr := h.wr
    rw [total_cons, ← Nat.add_assoc] at hwr
    exact hwr
  · have hfsize := size_aligned f
    omega
  · have hroom := h.room
    rw [total_cons] at hroom
    omega

/-- What a poll that finds `pending` leaves. -/
structure Polled (s s' : System) (pos budget : ℕ) (pending : List Frame) : Prop where
  holds : Holds s' (pos + total Frame.size (pending.take budget)) (pending.drop budget)
  delivered : s'.delivered = s.delivered ++ (pending.take budget).map Frame.bytes
  stored : s'.stored = s.stored
  top : s'.card.top = s.card.top
  mem : s'.card.mem = s.card.mem

theorem pollLoop_polled : ∀ (budget : ℕ) (s : System) (pos : ℕ) (pending : List Frame),
    Holds s pos pending → Polled s (pollLoop budget s) pos budget pending := by
  intro budget
  induction budget with
  | zero => exact fun s pos pending h => ⟨h, (List.append_nil _).symm, rfl, rfl, rfl⟩
  | succ budget ih =>
    intro s pos pending h
    cases pending with
    | nil =>
      have hempty : s.card.rd = s.card.wr := by
        rw [h.rd, h.wr]
        rfl
      rw [pollLoop, if_pos hempty]
      exact ⟨h, (List.append_nil _).symm, rfl, rfl, rfl⟩
    | cons f pending =>
      have hnext := ih _ _ _ h.taken
      rw [pollLoop_taken h]
      refine ⟨?_, ?_, hnext.stored, hnext.top, hnext.mem⟩
      · rw [List.take_succ_cons, List.drop_succ_cons, total_cons, ← Nat.add_assoc]
        exact hnext.holds
      · rw [hnext.delivered, List.take_succ_cons, List.map_cons]
        exact List.append_assoc _ _ _

theorem poll_polled (h : Holds s pos pending) : Polled s (k64Rtl8139Poll s) pos 16 pending := by
  have hpresent := h.present
  rw [k64Rtl8139Poll, if_neg (by rw [hpresent]; exact Bool.noConfusion)]
  have hcounted := pollLoop_polled 16
    { s with rtl := { s.rtl with pollCount := s.rtl.pollCount + 1 } } pos pending
    ⟨h.present, h.offset, h.rd, h.wr, h.aligned, h.room, h.placed⟩
  exact ⟨hcounted.holds, hcounted.delivered, hcounted.stored, hcounted.top, hcounted.mem⟩

theorem polls_delivered : ∀ (k : ℕ) (s : System) (pos : ℕ) (pending : List Frame),
    Holds s pos pending →
    (polls k s).delivered = s.delivered ++ (pending.take (16 * k)).map Frame.bytes := by
  intro k
  induction k with
  | zero => exact fun s pos pending _ => (List.append_nil _).symm
  | succ k ih =>
    intro s pos pending h
    have hpoll := poll_polled h
    have hmul : 16 * (k + 1) = 16 + 16 * k := by omega
    rw [polls, Function.iterate_succ_apply]
    change (polls k (k64Rtl8139Poll s)).delivered = _
    rw [ih _ _ _ hpoll.holds, hpoll.delivered, hmul, List.take_add, List.map_append,
      List.append_assoc]

variable {c : Card} {f : Frame}

def asRead (c : Card) (f : Frame) : Frame :=
  { f with
    bytes := (List.range f.bytes.length).map fun i => (c.store f).mem ((c.wr + 4 + i) % ringSize)
    least := by rw [List.length_map, List.length_range]; exact f.least
    most := by rw [List.length_map, List.length_range]; exact f.most }

def received (s : System) (f : Frame) : System :=
  { s with card := s.card.store f, stored := s.stored ++ [f] }

theorem length_asRead : (asRead c f).bytes.length = f.bytes.length := by
  rw [asRead, List.length_map, List.length_range]

theorem store_mem : (c.store f).mem = put c.mem c.wr (f.text ++ f.crc) := by
  rw [Card.store, Card.write, if_pos (show rcr &&& 0x80 ≠ 0 by decide)]

theorem header_asRead : (asRead c f).header = f.header := by
  rw [Frame.header, length_asRead]
  rfl

theorem stored_byte (hwr : c.wr < ringSize) {i : ℕ} (hi : i < f.bytes.length) :
    (c.store f).mem ((c.wr + 4 + i) % ringSize) =
      if c.wr + 4 + i < ringSize then f.bytes[i] else c.mem (c.wr + 4 + i - ringSize) := by
  have hring : ringSize = 32768 := rfl
  have hmost := f.most
  have htext := f.length_text
  rw [store_mem]
  split
  next hend =>
    rw [Nat.mod_eq_of_lt hend, Nat.add_assoc, put_inside (by rw [List.length_append]; omega),
      List.getElem_append_left (by omega)]
    simp only [Frame.text_eq]
    rw [List.getElem_append_right (show 4 ≤ 4 + i by omega)]
    congr 1
    exact Nat.add_sub_cancel_left 4 i
  next hend =>
    rw [Nat.mod_eq_sub_mod (by omega), Nat.mod_eq_of_lt (by omega), put_outside (by omega)]

theorem asRead_bytes_iff (hwr : c.wr < ringSize) : (asRead c f).bytes = f.bytes ↔
    ∀ i (h : i < f.bytes.length), ringSize ≤ c.wr + 4 + i →
      c.mem (c.wr + 4 + i - ringSize) = f.bytes[i] := by
  have hread : ∀ i (h : i < f.bytes.length) (h' : i < (asRead c f).bytes.length),
      (asRead c f).bytes[i] =
        if c.wr + 4 + i < ringSize then f.bytes[i] else c.mem (c.wr + 4 + i - ringSize) := by
    intro i h _
    simp only [asRead, List.getElem_map, List.getElem_range]
    exact stored_byte hwr h
  constructor
  · intro heq i h hend
    rw [← (hread i h (by rwa [length_asRead])).trans (if_neg (by omega))]
    simp only [heq]
  · intro hsame
    refine List.ext_getElem length_asRead fun i h' h => ?_
    rw [hread i h h']
    split
    next => rfl
    next hend => exact hsame i h (by omega)

theorem Holds.used (h : Holds s pos pending) : s.card.used = total Frame.size pending := by
  have hring : ringSize = 32768 := rfl
  have hroom := h.room
  rw [Card.used, h.wr, h.rd]
  rw [hring] at hroom ⊢
  omega

theorem Holds.wr_lt (h : Holds s pos pending) : s.card.wr < ringSize := by
  rw [h.wr]
  exact Nat.mod_lt _ (by decide)

theorem total_aligned (rs : List Frame) : total Frame.size rs % 4 = 0 := by
  induction rs with
  | nil => rfl
  | cons f rs ih =>
    have hf := size_aligned f
    rw [total_cons]
    omega

theorem Holds.received (h : Holds s pos pending) (hroom : s.card.used + f.size < ringSize) :
    Holds (received s f) pos (pending ++ [asRead s.card f]) := by
  have hring : ringSize = 32768 := rfl
  have hsize : (asRead s.card f).size = f.size := by rw [Frame.size, length_asRead, Frame.size]
  have htotal : total Frame.size (pending ++ [asRead s.card f]) =
      total Frame.size pending + f.size := by
    rw [total_append, total_cons, hsize]
    rfl
  have hlen : (f.text ++ f.crc).length ≤ f.size := by
    rw [List.length_append, f.length_text, f.length_crc, Frame.size]
    omega
  rw [h.used] at hroom
  have hwr := h.wr
  have hpending := total_aligned pending
  have haligned := h.aligned
  refine ⟨h.present, h.offset, h.rd, ?_, h.aligned, by rwa [htotal], ?_⟩
  · change (s.card.wr + f.size) % ringSize = _
    rw [htotal, hwr, Nat.mod_add_mod, Nat.add_assoc]
  · change Placed _ _ _ (s.card.store f).mem _ _
    rw [store_mem, hwr]
    refine Placed.append _ (h.placed.put Frame.text_le_size _ (by omega)) ?_
    rw [(asRead s.card f).text_eq, header_asRead, f.text_eq]
    refine Reads.append ?_ fun i hi => ?_
    · rw [List.append_assoc]
      refine reads_put (show _ + 4 ≤ _ from ?_)
      rw [hring]
      omega
    · simp only [asRead, List.getElem_map, List.getElem_range]
      rw [store_mem, hwr]
      congr 1
      change (pos + total Frame.size pending + 4 + i) % ringSize = _
      rw [Nat.add_assoc, Nat.add_assoc (_ % _), Nat.mod_add_mod]

def Whole (s : System) : Prop :=
  ∃ pos pending, Holds s pos pending ∧
    s.stored.map Frame.bytes = s.delivered ++ pending.map Frame.bytes ∧
    s.card.top ≤ rxStorageSize.toNat

/-- A frame is stored only where that does no harm. -/
def Guarded (s : System) : Event → Prop
  | .receive f => s.card.used + f.size < ringSize → Harmless s.card f
  | .poll => True

theorem start_whole : Whole start :=
  ⟨0, [], ⟨rfl, rfl, by decide, rfl, rfl, by decide, trivial⟩, rfl, by decide⟩

theorem Whole.intact (h : Whole s) : Intact s := by
  obtain ⟨pos, pending, hholds, hall, hinside⟩ := h
  refine ⟨fun k => ?_, hinside⟩
  rw [polls_delivered k s pos pending hholds, hall, List.take_length_add_append, List.map_take]

theorem run_append (events : List Event) (e : Event) :
    run (events ++ [e]) = step (run events) e := by
  rw [run, List.foldl_append]
  rfl

theorem step_received (hroom : s.card.used + f.size < ringSize) :
    step s (.receive f) = received s f := by
  rw [step, if_pos hroom]
  rfl

theorem asRead_eq (hbytes : (asRead c f).bytes = f.bytes) : asRead c f = f := by
  cases f
  simp only [asRead] at hbytes ⊢
  simp only [hbytes]

theorem step_whole (h : Whole s) {e : Event} (hg : Guarded s e) : Whole (step s e) := by
  obtain ⟨pos, pending, hholds, hall, hinside⟩ := h
  cases e with
  | poll =>
    have hpoll := poll_polled hholds
    refine ⟨_, _, hpoll.holds, ?_, ?_⟩
    · rw [step, hpoll.stored, hpoll.delivered, List.append_assoc, ← List.map_append,
        List.take_append_drop, hall]
    · rw [step, hpoll.top]
      exact hinside
  | receive f =>
    by_cases hroom : s.card.used + f.size < ringSize
    swap
    · rw [step, if_neg hroom]
      exact ⟨pos, pending, hholds, hall, hinside⟩
    have hharmless := hg hroom
    have hread := asRead_eq ((asRead_bytes_iff hholds.wr_lt).mpr hharmless.same)
    have hnext := hholds.received hroom
    rw [hread] at hnext
    rw [step_received hroom]
    refine ⟨pos, pending ++ [f], hnext, ?_, max_le hinside ?_⟩
    · change (s.stored ++ [f]).map Frame.bytes = s.delivered ++ _
      rw [List.map_append, hall, List.map_append, List.append_assoc]
    · have hroom := hharmless.room
      rw [List.length_append, f.length_text, f.length_crc]
      omega

theorem harmless_of_intact (h : Whole s) (hroom : s.card.used + f.size < ringSize)
    (hi : Intact (step s (.receive f))) : Harmless s.card f := by
  obtain ⟨pos, pending, hholds, hall, -⟩ := h
  rw [step_received hroom] at hi
  constructor
  · refine (asRead_bytes_iff hholds.wr_lt).mp ?_
    have hdelivered := hi.delivers (pending.length + 1)
    have hstored : (s.stored ++ [f]).map Frame.bytes =
        s.delivered ++ (pending.map Frame.bytes ++ [f.bytes]) := by
      rw [List.map_append, hall, List.append_assoc]
      rfl
    rw [polls_delivered _ _ _ _ (hholds.received hroom), List.take_of_length_le (by
      rw [List.length_append, List.length_singleton]
      omega)] at hdelivered
    change s.delivered ++ _ = ((s.stored ++ [f]).map Frame.bytes).take
      (s.delivered.length + _) at hdelivered
    rw [hstored, List.take_length_add_append, List.take_of_length_le (by
      rw [List.length_append, List.length_map, List.length_singleton]
      omega), List.map_append] at hdelivered
    have hlast := List.append_cancel_left (List.append_cancel_left hdelivered)
    exact (List.cons.inj hlast).1
  · have hinside : max s.card.top (s.card.wr + (f.text ++ f.crc).length) ≤ _ := hi.inside
    have hle := (le_max_right _ _).trans hinside
    rw [List.length_append, f.length_text, f.length_crc] at hle
    omega

/-- Every frame is delivered once, in order and with its bytes, and the card keeps to the buffer,
exactly as long as no frame is stored where that does harm. -/
theorem frames_intact_iff (events : List Event) :
    (∀ n, Intact (run (events.take n))) ↔
      ∀ n e, events[n]? = some e → Guarded (run (events.take n)) e := by
  refine (RunPrefixes.forall_prefix_iff start_whole.intact).trans
    (RunPrefixes.law_iff_guarded step (fun s e => Intact (step s e)) (G := Guarded) start_whole
      (fun s e h => step_whole h) fun s e h => ?_)
  refine ⟨fun hi => ?_, fun hg => (step_whole h hg).intact⟩
  cases e with
  | receive f => exact fun hroom => harmless_of_intact h hroom hi
  | poll => trivial

def frameOf (b : UInt8) : Frame where
  status := 1
  bytes := List.replicate 1514 b
  crc := List.replicate 4 0
  good := by decide
  least := by rw [List.length_replicate]; decide
  most := by rw [List.length_replicate]
  length_crc := List.length_replicate

theorem size_frameOf (b : UInt8) : (frameOf b).size = 1524 := by
  rw [Frame.size, frameOf, List.length_replicate]

theorem total_frames (k : ℕ) : total Frame.size (List.replicate k (frameOf 0)) = k * 1524 := by
  rw [total, List.map_replicate, List.sum_replicate_nat, size_frameOf]

theorem frames_held : ∀ k ≤ 21,
    Holds (run (List.replicate k (.receive (frameOf 0)))) 0 (List.replicate k (frameOf 0)) ∧
    Whole (run (List.replicate k (.receive (frameOf 0)))) := by
  intro k
  induction k with
  | zero => exact fun _ => ⟨⟨rfl, rfl, by decide, rfl, rfl, by decide, trivial⟩, start_whole⟩
  | succ k ih =>
    intro hk
    obtain ⟨h, hwhole⟩ := ih (by omega)
    have hring : ringSize = 32768 := rfl
    have hstorage : rxStorageSize.toNat = 34284 := rfl
    have htotal := total_frames k
    have hsize := size_frameOf 0
    have hlen : (frameOf 0).bytes.length = 1514 := List.length_replicate
    have hroom : (run (List.replicate k (.receive (frameOf 0)))).card.used + (frameOf 0).size <
        ringSize := by
      rw [h.used]
      omega
    have hwr := h.wr
    rw [htotal, Nat.zero_add, Nat.mod_eq_of_lt (by omega)] at hwr
    have hharmless : Harmless (run (List.replicate k (.receive (frameOf 0)))).card (frameOf 0) :=
      ⟨fun i hi hend => by omega, by omega⟩
    have hnext := h.received hroom
    rw [asRead_eq ((asRead_bytes_iff h.wr_lt).mpr hharmless.same)] at hnext
    rw [List.replicate_succ', List.replicate_succ', run_append]
    refine ⟨?_, step_whole hwhole fun _ => hharmless⟩
    rw [step_received hroom]
    exact hnext

theorem first_byte (f : Frame) (h : 0 < f.text.length) : f.text[0] = f.status.toUInt8 := rfl

/-- Twenty-one frames, a poll and a frame that starts 764 bytes before the end. -/
def crossing : List Event :=
  List.replicate 21 (.receive (frameOf 0)) ++ [.poll] ++ [.receive (frameOf 0xFF)]

/-- The bytes past the end are read at the start of the ring, where the first header still stands. -/
theorem crossing_corrupts : ¬Intact (run crossing) := by
  intro hi
  have hring : ringSize = 32768 := rfl
  obtain ⟨hheld, hwhole⟩ := frames_held 21 (Nat.le_refl _)
  generalize hs : run (List.replicate 21 (.receive (frameOf 0))) = s at hheld hwhole
  rw [crossing, run_append, run_append, hs] at hi
  have hplaced := hheld.placed
  rw [List.replicate_succ] at hplaced
  have hpos : 0 < (frameOf 0).text.length := by rw [Frame.length_text]; omega
  have hfirst := hplaced.1 0 hpos
  rw [first_byte] at hfirst
  have hpolled := poll_polled hheld
  have hlast := step_whole hwhole (e := .poll) trivial
  have htotal : total Frame.size ((List.replicate 21 (frameOf 0)).take 16) = 16 * 1524 := by
    rw [List.take_replicate, total_frames]
    rfl
  have hrest : total Frame.size ((List.replicate 21 (frameOf 0)).drop 16) = 5 * 1524 := by
    rw [List.drop_replicate, total_frames]
  have hsize := size_frameOf 0xFF
  have hlen : (frameOf 0xFF).bytes.length = 1514 := List.length_replicate
  have hused := hpolled.holds.used
  have hwr := hpolled.holds.wr
  rw [htotal, hrest] at hwr
  rw [hrest] at hused
  have hroom : (step s .poll).card.used + (frameOf 0xFF).size < ringSize := by
    change (k64Rtl8139Poll s).card.used + _ < _
    omega
  have hharmless := harmless_of_intact hlast hroom hi
  have hwr : (step s .poll).card.wr = 32004 := hwr
  have hsame := hharmless.same 760 (by omega) (by omega)
  have hmem : (step s .poll).card.mem = s.card.mem := hpolled.mem
  have hstart : 32004 + 4 + 760 - ringSize = 0 := by rw [hring]
  have hhead : s.card.mem 0 = 1 := hfirst
  rw [hwr, hmem, hstart, hhead] at hsame
  have hbyte : (1 : UInt8) = 0xFF := hsame.trans (List.getElem_replicate _)
  exact absurd hbyte (by decide)

end RtlReceive
