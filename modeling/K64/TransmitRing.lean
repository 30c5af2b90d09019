import K64.RunPrefixes
import Mathlib.Logic.Function.Basic

/-! # The transmit ring of the E1000

`e1000_send_frame` and the card share eight descriptors. The driver writes the tail register and
never reads how far the card has got. -/
namespace TransmitRing

def txDescCount : ℕ := 8

/-- A transmit descriptor; `addr` is the buffer that it points to. -/
structure TxDesc where
  addr : ℕ
  length : ℕ
  cso : UInt8
  cmd : UInt8
  status : UInt8
  css : UInt8
  special : UInt16

structure Driver where
  present : Bool
  txTail : ℕ
  txDesc : ℕ → TxDesc
  txBuf : ℕ → List UInt8

/-- The bytes at the start of a buffer are overwritten. -/
def copyTo (bytes buf : List UInt8) : List UInt8 := bytes ++ buf.drop bytes.length

def padded (frame : List UInt8) : List UInt8 := frame ++ List.replicate (60 - frame.length) 0

/-- A missing frame is a null pointer; the second number is the new value of `REG_TDT`. -/
def e1000SendFrame (d : Driver) (frame : Option (List UInt8)) : Option (Driver × ℕ) :=
  match frame with
  | none => none
  | some frame =>
    if d.present = false ∨ frame.length = 0 ∨ frame.length > 1518 then none
    else
      let idx := d.txTail
      let buf :=
        if frame.length < 60 then copyTo frame (copyTo (List.replicate 60 0) (d.txBuf idx))
        else copyTo frame (d.txBuf idx)
      let len := if frame.length < 60 then 60 else frame.length
      let tail := (d.txTail + 1) % txDescCount
      some ({ d with
        txTail := tail
        txDesc := Function.update d.txDesc idx ⟨idx, len, 0, 0x0B, 0, 0, 0⟩
        txBuf := Function.update d.txBuf idx buf }, tail)

/-- What `k64_e1000_driver_start` leaves of the transmit side, whatever the buffers held before. -/
def started (txBuf : ℕ → List UInt8) : Driver where
  present := true
  txTail := 0
  txDesc i := ⟨i, 0, 0, 0, 1, 0, 0⟩
  txBuf := txBuf

def Driver.described (d : Driver) (i : ℕ) : List UInt8 :=
  (d.txBuf (d.txDesc i).addr).take (d.txDesc i).length

/-- The driver, the registers `TDH` and `TDT` of the card, the frames for which the driver returned
true and those on the wire. -/
structure System where
  driver : Driver
  head : ℕ
  tail : ℕ
  accepted : List (List UInt8)
  transmitted : List (List UInt8)

inductive Event where
  | send (frame : Option (List UInt8))
  | transmit
  deriving DecidableEq

def System.send (s : System) (frame : Option (List UInt8)) : System :=
  match e1000SendFrame s.driver frame with
  | none => s
  | some (driver, tail) =>
    { s with driver, tail, accepted := s.accepted ++ [padded (frame.getD [])] }

/-- The card transmits one buffer, if it has not got to the tail yet. -/
def System.transmit (s : System) : System :=
  if s.head = s.tail then s
  else { s with
    head := (s.head + 1) % txDescCount
    transmitted := s.transmitted ++ [s.driver.described s.head] }

def step (s : System) : Event → System
  | .send frame => s.send frame
  | .transmit => s.transmit

def start (txBuf : ℕ → List UInt8) : System := ⟨started txBuf, 0, 0, [], []⟩

def run (txBuf : ℕ → List UInt8) (events : List Event) : System :=
  events.foldl step (start txBuf)

/-- Accepted frames come out in order, all of them when the card has nothing left to do, and the
frames that are still to come are in their buffers. -/
structure Faithful (s : System) : Prop where
  in_order : s.transmitted <+: s.accepted
  drained : s.head = s.tail → s.transmitted = s.accepted
  intact : ∀ k frame, s.transmitted.length ≤ k → s.accepted[k]? = some frame →
    s.driver.described (k % txDescCount) = frame

/-- A frame that the driver does not refuse. -/
def Acceptable (frame : Option (List UInt8)) : Prop :=
  ∃ bytes, frame = some bytes ∧ 0 < bytes.length ∧ bytes.length ≤ 1518

/-- The card is less than seven frames behind when a frame is handed over. -/
def Room (s : System) : Event → Prop
  | .send frame => Acceptable frame → (s.driver.txTail + 1) % txDescCount ≠ s.head
  | .transmit => True

/-- Frame number `k` is in buffer `k % 8`, and at most seven frames are on their way. -/
structure Aligned (s : System) : Prop where
  present : s.driver.present = true
  txTail : s.driver.txTail = s.accepted.length % txDescCount
  tail : s.tail = s.accepted.length % txDescCount
  head : s.head = s.transmitted.length % txDescCount
  in_order : s.transmitted <+: s.accepted
  few : s.accepted.length < s.transmitted.length + txDescCount
  addr : ∀ i, (s.driver.txDesc i).addr = i
  intact : ∀ k frame, s.transmitted.length ≤ k → s.accepted[k]? = some frame →
    s.driver.described (k % txDescCount) = frame

variable {s : System} {txBuf : ℕ → List UInt8}

theorem start_aligned : Aligned (start txBuf) where
  present := rfl
  txTail := rfl
  tail := rfl
  head := rfl
  in_order := List.nil_prefix
  few := Nat.lt_add_of_pos_right (by decide)
  addr _ := rfl
  intact k frame _ hk := by cases hk

theorem Aligned.faithful (h : Aligned s) : Faithful s := by
  refine ⟨h.in_order, fun heq => ?_, h.intact⟩
  have hle := h.in_order.length_le
  have hfew := h.few
  rw [h.head, h.tail] at heq
  refine h.in_order.eq_of_length ?_
  simp only [txDescCount] at heq hfew
  omega

theorem take_padded (frame buf : List UInt8) (h : frame.length < 60) :
    (copyTo frame (copyTo (List.replicate 60 0) buf)).take 60 = padded frame := by
  have hdrop : (copyTo (List.replicate 60 (0 : UInt8)) buf).drop frame.length =
      List.replicate (60 - frame.length) 0 ++ buf.drop 60 := by
    rw [copyTo, List.length_replicate, List.drop_append_of_le_length (by simp; omega),
      List.drop_replicate]
  have hlen : (padded frame).length = 60 := by
    rw [padded, List.length_append, List.length_replicate]
    omega
  rw [copyTo, hdrop, ← List.append_assoc]
  exact List.take_left' hlen

structure Sent (d d' : Driver) (tail : ℕ) (frame : List UInt8) : Prop where
  present : d'.present = d.present
  txTail : d'.txTail = (d.txTail + 1) % txDescCount
  tail : tail = d'.txTail
  addr : ∀ i, (d.txDesc i).addr = i → (d'.txDesc i).addr = i
  described : d'.described d.txTail = padded frame
  others : ∀ i, i ≠ d.txTail → (d.txDesc i).addr = i → d'.described i = d.described i

theorem copyTo_take (bytes buf : List UInt8) : (copyTo bytes buf).take bytes.length = bytes :=
  List.take_left' rfl

theorem e1000SendFrame_eq_none_iff (d : Driver) (frame : Option (List UInt8))
    (hp : d.present = true) : e1000SendFrame d frame = none ↔ ¬ Acceptable frame := by
  cases frame with
  | none => simp [e1000SendFrame, Acceptable]
  | some bytes =>
    have hiff : Acceptable (some bytes) ↔ 0 < bytes.length ∧ bytes.length ≤ 1518 := by
      constructor
      · rintro ⟨_, heq, h⟩
        cases heq
        exact h
      · exact fun h => ⟨bytes, rfl, h⟩
    rw [hiff]
    simp only [e1000SendFrame, hp]
    split
    · rename_i h
      simp only [Bool.true_eq_false, false_or] at h
      simp only [true_iff]
      omega
    · rename_i h
      simp only [Bool.true_eq_false, false_or] at h
      simp only [reduceCtorEq, false_iff, not_not]
      omega

variable {frame : Option (List UInt8)}

theorem e1000SendFrame_sent {d d' : Driver} {tail : ℕ}
    (h : e1000SendFrame d frame = some (d', tail)) : Sent d d' tail (frame.getD []) := by
  cases frame with
  | none => cases h
  | some bytes =>
    simp only [e1000SendFrame] at h
    split at h
    · cases h
    · cases h
      refine ⟨rfl, rfl, rfl, fun i hi => ?_, ?_, fun i hne hi => ?_⟩
      · rcases eq_or_ne i d.txTail with rfl | hne
        · simp only [Function.update_self]
        · simpa only [Function.update_of_ne hne] using hi
      · simp only [Driver.described, Function.update_self, Option.getD_some]
        split
        · exact take_padded _ _ (by assumption)
        · rename_i hlong
          rw [copyTo_take, padded, Nat.sub_eq_zero_of_le (Nat.le_of_not_lt hlong),
            List.replicate_zero, List.append_nil]
      · simp only [Driver.described, Function.update_of_ne hne, hi]

theorem send_refused (hp : s.driver.present = true)
    (hbad : ¬ Acceptable frame) : s.send frame = s := by
  rw [System.send, (e1000SendFrame_eq_none_iff s.driver frame hp).2 hbad]

theorem send_accepted (hp : s.driver.present = true)
    (hok : Acceptable frame) : ∃ d tail, Sent s.driver d tail (frame.getD []) ∧
      s.send frame = { s with
        driver := d
        tail := tail
        accepted := s.accepted ++ [padded (frame.getD [])] } := by
  rcases hsend : e1000SendFrame s.driver frame with _ | ⟨d, tail⟩
  · exact absurd hok ((e1000SendFrame_eq_none_iff s.driver frame hp).1 hsend)
  · exact ⟨d, tail, e1000SendFrame_sent hsend, by rw [System.send, hsend]⟩

theorem Aligned.room_iff (h : Aligned s) :
    (s.driver.txTail + 1) % txDescCount ≠ s.head ↔
      s.accepted.length + 1 < s.transmitted.length + txDescCount := by
  have hle := h.in_order.length_le
  have hfew := h.few
  rw [h.txTail, h.head]
  simp only [txDescCount] at hfew ⊢
  omega

theorem send_aligned (h : Aligned s) (hroom : Room s (.send frame)) :
    Aligned (s.send frame) := by
  by_cases hok : Acceptable frame
  · obtain ⟨d, tail, hsent, heq⟩ := send_accepted h.present hok
    have hlt := h.room_iff.1 (hroom hok)
    have htail : d.txTail = (s.accepted.length + 1) % txDescCount := by
      rw [hsent.txTail, h.txTail, Nat.mod_add_mod]
    rw [heq]
    constructor
    · exact hsent.present.trans h.present
    · simpa using htail
    · simpa [hsent.tail] using htail
    · exact h.head
    · exact h.in_order.trans (List.prefix_append _ _)
    · simpa using hlt
    · exact fun i => hsent.addr i (h.addr i)
    · intro k bytes hk hget
      rcases Nat.lt_trichotomy k s.accepted.length with hold | rfl | hnew
      · rw [List.getElem?_append_left hold] at hget
        -- fewer than eight frames lie between the two, so the slots differ
        have hslot : k % txDescCount ≠ s.driver.txTail := by
          rw [h.txTail]
          simp only [txDescCount] at hlt hk ⊢
          omega
        exact (hsent.others _ hslot (h.addr _)).trans (h.intact k bytes hk hget)
      · rw [List.getElem?_concat_length] at hget
        cases hget
        rw [← h.txTail]
        exact hsent.described
      · rw [List.getElem?_eq_none (by simp; omega)] at hget
        cases hget
  · rwa [send_refused h.present hok]

theorem transmit_aligned (h : Aligned s) : Aligned s.transmit := by
  rw [System.transmit]
  split
  · exact h
  · rename_i hne
    have hlt : s.transmitted.length < s.accepted.length := by
      refine Nat.lt_of_le_of_ne h.in_order.length_le fun heq => hne ?_
      rw [h.head, h.tail, heq]
    have hnext : s.driver.described s.head = s.accepted[s.transmitted.length] := by
      rw [h.head]
      exact h.intact _ _ (Nat.le_refl _) (List.getElem?_eq_getElem hlt)
    constructor
    · exact h.present
    · exact h.txTail
    · exact h.tail
    · simp [h.head, Nat.mod_add_mod]
    · rw [hnext]
      refine List.prefix_iff_eq_take.2 ?_
      rw [List.length_append, List.length_singleton, List.take_add_one,
        ← List.prefix_iff_eq_take.1 h.in_order, List.getElem?_eq_getElem hlt]
      rfl
    · have hfew := h.few
      simp only [List.length_append, List.length_singleton]
      omega
    · exact h.addr
    · intro k bytes hk hget
      rw [List.length_append, List.length_singleton] at hk
      exact h.intact k bytes (Nat.le_of_succ_le hk) hget

theorem step_aligned (h : Aligned s) {e : Event} (hroom : Room s e) : Aligned (step s e) := by
  cases e with
  | send frame => exact send_aligned h hroom
  | transmit => exact transmit_aligned h

theorem Aligned.room_of_faithful (h : Aligned s) {e : Event} (hf : Faithful (step s e)) :
    Room s e := by
  cases e with
  | transmit => trivial
  | send frame =>
    intro hok hfull
    obtain ⟨d, tail, hsent, heq⟩ := send_accepted h.present hok
    rw [step, heq] at hf
    have hall : s.transmitted = s.accepted ++ [padded (frame.getD [])] :=
      hf.drained (by rw [hsent.tail, hsent.txTail, hfull])
    have hle := h.in_order.length_le
    rw [hall, List.length_append, List.length_singleton] at hle
    omega

/-- No accepted frame is lost, reordered or overwritten exactly as long as the card is never seven
frames behind when another one is handed over. -/
theorem frames_faithful_iff_room (txBuf : ℕ → List UInt8) (events : List Event) :
    (∀ n, Faithful (run txBuf (events.take n))) ↔
      ∀ n e, events[n]? = some e → Room (run txBuf (events.take n)) e := by
  refine (RunPrefixes.forall_prefix_iff start_aligned.faithful).trans
    (RunPrefixes.law_iff_guarded step (fun s e => Faithful (step s e)) (G := Room) start_aligned
      (fun s e h => step_aligned h) fun s e h => ?_)
  constructor
  · exact h.room_of_faithful
  · intro hroom
    exact (step_aligned h hroom).faithful

/-- Eight frames while the card is still at the first one, none of which is transmitted. -/
theorem eight_frames_lost : ¬ ∀ (txBuf : ℕ → List UInt8) (events : List Event),
    Faithful (run txBuf events) := by
  intro h
  have hf := h (fun _ => []) (List.replicate 8 (.send (some [1])))
  have hlen := congrArg List.length (hf.drained (by decide))
  exact absurd hlen (by decide)

end TransmitRing
