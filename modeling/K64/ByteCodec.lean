import Mathlib.Data.List.Basic
import Mathlib.Data.Nat.Bitwise
import Mathlib.Tactic.Common

/-! # Packed records over byte blocks

A codec lays one value out in a fixed number of bytes and reads it back, whatever bytes follow.
Codecs compose in field order, so a packed record is the sequence of the codecs of its fields.
A block is a fixed-size byte array in which slices are read and overwritten in place. -/
namespace ByteCodec

/-- The `w` low bytes of a number, least significant first. -/
def leBytes : ℕ → ℕ → List UInt8
  | 0, _ => []
  | w + 1, n => UInt8.ofNat n :: leBytes w (n / 256)

def leNat : List UInt8 → ℕ
  | [] => 0
  | b :: bs => b.toNat + 256 * leNat bs

@[simp] theorem length_leBytes (w n : ℕ) : (leBytes w n).length = w := by
  induction w generalizing n with
  | zero => rfl
  | succ w ih => simp [leBytes, ih]

theorem leNat_leBytes (w n : ℕ) : leNat (leBytes w n) = n % 256 ^ w := by
  induction w generalizing n with
  | zero => simp [leBytes, leNat, Nat.mod_one]
  | succ w ih =>
    have hb : (UInt8.ofNat n).toNat = n % 256 := by simp
    rw [leBytes, leNat, ih, hb, Nat.pow_succ, Nat.mul_comm (256 ^ w) 256, Nat.mod_mul]

theorem leNat_replicate_zero (w : ℕ) : leNat (List.replicate w 0) = 0 := by
  induction w with
  | zero => rfl
  | succ w ih => simp [List.replicate_succ, leNat, ih]

structure Codec (α : Type) where
  size : ℕ
  encode : α → List UInt8
  decode : List UInt8 → α
  length_encode : ∀ a, (encode a).length = size
  decode_append : ∀ a rest, decode (encode a ++ rest) = a

attribute [simp] Codec.length_encode

namespace Codec

variable {α β : Type}

theorem decode_encode (c : Codec α) (a : α) : c.decode (c.encode a) = a := by
  simpa using c.decode_append a []

/-- An unsigned field of `w` bytes, given by its value and the type's own wrapping cast. -/
def word (w : ℕ) (toNat : α → ℕ) (ofNat : ℕ → α)
    (h : ∀ a, ofNat (toNat a % 256 ^ w) = a) : Codec α where
  size := w
  encode a := leBytes w (toNat a)
  decode bs := ofNat (leNat (bs.take w))
  length_encode a := length_leBytes w _
  decode_append a rest := by
    rw [List.take_left' (length_leBytes w _), leNat_leBytes, h]

def u16 : Codec UInt16 := word 2 UInt16.toNat UInt16.ofNat (by
  intro a; rw [Nat.mod_eq_of_lt (by simpa using a.toNat_lt)]; simp)

def u32 : Codec UInt32 := word 4 UInt32.toNat UInt32.ofNat (by
  intro a; rw [Nat.mod_eq_of_lt (by simpa using a.toNat_lt)]; simp)

def u64 : Codec UInt64 := word 8 UInt64.toNat UInt64.ofNat (by
  intro a; rw [Nat.mod_eq_of_lt (by simpa using a.toNat_lt)]; simp)

def bytes (n : ℕ) : Codec (Vector UInt8 n) where
  size := n
  encode v := v.toList
  decode bs := Vector.ofFn fun i => bs.getD i 0
  length_encode v := by simp
  decode_append v rest := by
    ext i hi
    simp [List.getElem?_append_left]

def pair (c : Codec α) (d : Codec β) : Codec (α × β) where
  size := c.size + d.size
  encode p := c.encode p.1 ++ d.encode p.2
  decode bs := (c.decode bs, d.decode (bs.drop c.size))
  length_encode p := by simp
  decode_append p rest := by
    rw [List.append_assoc, c.decode_append, List.drop_left' (c.length_encode _),
      d.decode_append]

theorem drop_flatMap (c : Codec α) (l : List α) (rest : List UInt8) (i : ℕ)
    (hi : i < l.length) :
    (l.flatMap c.encode ++ rest).drop (i * c.size) =
      c.encode l[i] ++ ((l.drop (i + 1)).flatMap c.encode ++ rest) := by
  induction l generalizing i with
  | nil => simp at hi
  | cons a l ih =>
    cases i with
    | zero => simp
    | succ i =>
      have hsplit : (i + 1) * c.size = c.size + i * c.size := by
        rw [Nat.add_mul, Nat.one_mul, Nat.add_comm]
      rw [List.flatMap_cons, List.append_assoc, hsplit, ← List.drop_drop,
        List.drop_left' (c.length_encode a), ih i (by simpa using hi)]
      simp

/-- An array of records of one kind. -/
def vector (c : Codec α) (n : ℕ) : Codec (Vector α n) where
  size := n * c.size
  encode v := v.toList.flatMap c.encode
  decode bs := Vector.ofFn fun i => c.decode (bs.drop (i * c.size))
  length_encode v := by
    have h : ∀ l : List α, (l.flatMap c.encode).length = l.length * c.size := by
      intro l
      induction l with
      | nil => simp
      | cons a l ih => simp [ih, Nat.add_mul, Nat.add_comm]
    simp [h]
  decode_append v rest := by
    ext i hi
    rw [Vector.getElem_ofFn, drop_flatMap c v.toList rest i (by simpa using hi),
      c.decode_append]
    simp

/-- The same bytes read as another type, through a conversion with a left inverse. -/
def imap (c : Codec α) (f : β → α) (g : α → β) (h : ∀ b, g (f b) = b) : Codec β where
  size := c.size
  encode b := c.encode (f b)
  decode bs := g (c.decode bs)
  length_encode b := c.length_encode _
  decode_append b rest := by rw [c.decode_append, h]

end Codec

/-- A byte array of `n` bytes; reads past its end give zero. -/
structure Block (n : ℕ) where
  data : Vector UInt8 n
  deriving DecidableEq

namespace Block

variable {n : ℕ} {α : Type}

def zero : Block n := ⟨Vector.replicate n 0⟩

def get (b : Block n) (i : ℕ) : UInt8 := if h : i < n then b.data[i] else 0

def read (b : Block n) (off len : ℕ) : List UInt8 :=
  (List.range len).map fun i => b.get (off + i)

/-- Copies `bs` over the bytes from `off` on. -/
def write (b : Block n) (off : ℕ) (bs : List UInt8) : Block n :=
  let src := bs.toArray
  ⟨Vector.ofFn fun i =>
    if off ≤ i ∧ i < off + src.size then src.getD (i - off) 0 else b.get i⟩

variable (b : Block n)

@[simp] theorem length_read (off len : ℕ) : (b.read off len).length = len := by
  simp [read]

@[simp] theorem get_zero (i : ℕ) : (zero : Block n).get i = 0 := by
  simp [get, zero]

@[simp] theorem read_zero (off len : ℕ) :
    (zero : Block n).read off len = List.replicate len 0 := by
  simp [read, List.map_const']

theorem get_write (off : ℕ) (bs : List UInt8) {i : ℕ} (hi : i < n) :
    (b.write off bs).get i =
      if off ≤ i ∧ i < off + bs.length then bs.getD (i - off) 0 else b.get i := by
  simp [get, write, hi]

theorem ext_get {a b : Block n} (h : ∀ i < n, a.get i = b.get i) : a = b := by
  obtain ⟨a⟩ := a
  obtain ⟨b⟩ := b
  congr 1
  apply Vector.ext
  intro i hi
  simpa [get, hi] using h i hi

theorem read_write_self (off : ℕ) (bs : List UInt8)
    (h : off + bs.length ≤ n) : (b.write off bs).read off bs.length = bs := by
  apply List.ext_getElem (by simp)
  intro i h₁ h₂
  have hi : off + i < n := by simp at h₁; omega
  simp only [read, List.getElem_map, List.getElem_range, get_write b off bs hi]
  simp [h₂]

theorem read_write_disjoint (off off' len : ℕ) (bs : List UInt8)
    (h : off' + len ≤ off ∨ off + bs.length ≤ off') :
    (b.write off bs).read off' len = b.read off' len := by
  simp only [read]
  apply List.map_congr_left
  intro i hi
  have hi := List.mem_range.mp hi
  by_cases hn : off' + i < n
  · rw [get_write b off bs hn, if_neg (by omega)]
  · simp [get, hn]

theorem write_comm (off off' : ℕ) (bs bs' : List UInt8)
    (h : off + bs.length ≤ off' ∨ off' + bs'.length ≤ off) :
    (b.write off bs).write off' bs' = (b.write off' bs').write off bs := by
  refine ext_get fun i hi => ?_
  simp only [get_write _ _ _ hi]
  split_ifs <;> first | rfl | omega

def record (b : Block n) (c : Codec α) (off : ℕ) : α := c.decode (b.read off c.size)

def setRecord (b : Block n) (c : Codec α) (off : ℕ) (a : α) : Block n :=
  b.write off (c.encode a)

theorem record_setRecord (c : Codec α) (off : ℕ) (a : α)
    (h : off + c.size ≤ n) : (b.setRecord c off a).record c off = a := by
  have hr := read_write_self b off (c.encode a) (by simpa using h)
  rw [c.length_encode] at hr
  rw [record, setRecord, hr, c.decode_encode]

theorem record_setRecord_disjoint {β : Type} (c : Codec α) (d : Codec β)
    (off off' : ℕ) (a : α) (h : off' + d.size ≤ off ∨ off + c.size ≤ off') :
    (b.setRecord c off a).record d off' = b.record d off' := by
  rw [record, setRecord, read_write_disjoint _ _ _ _ _ (by simpa using h), record]

end Block

def bitMask (bit : ℕ) : UInt8 := 1 <<< UInt8.ofNat (bit % 8)

theorem toNat_bitMask (bit : ℕ) : (bitMask bit).toNat = 2 ^ (bit % 8) := by
  have h : ∀ k : Fin 8, ((1 : UInt8) <<< UInt8.ofNat k.val).toNat = 2 ^ k.val := by decide
  exact h ⟨bit % 8, Nat.mod_lt _ (by decide)⟩

theorem and_mask_ne_zero (x : UInt8) (bit : ℕ) :
    x &&& bitMask bit ≠ 0 ↔ x.toNat.testBit (bit % 8) = true := by
  rw [← UInt8.toNat_inj.ne, UInt8.toNat_and, toNat_bitMask, Nat.and_two_pow]
  cases x.toNat.testBit (bit % 8) <;> simp

theorem testBit_mask (bit k : ℕ) : (bitMask bit).toNat.testBit k = decide (bit % 8 = k) := by
  rw [toNat_bitMask, Nat.testBit_two_pow]

theorem testBit_or_mask (x : UInt8) (bit k : ℕ) :
    (x ||| bitMask bit).toNat.testBit k = (x.toNat.testBit k || decide (bit % 8 = k)) := by
  rw [UInt8.toNat_or, Nat.testBit_or, testBit_mask]

theorem testBit_and_not_mask (x : UInt8) (bit : ℕ) {k : ℕ} (hk : k < 8) :
    (x &&& ~~~bitMask bit).toNat.testBit k =
      (x.toNat.testBit k && !decide (bit % 8 = k)) := by
  have hn : (~~~bitMask bit).toNat.testBit k = !(bitMask bit).toNat.testBit k := by
    have h : (~~~bitMask bit).toBitVec.getLsbD k = !(bitMask bit).toBitVec.getLsbD k := by
      simp [hk]
    exact h
  rw [UInt8.toNat_and, Nat.testBit_and, hn, testBit_mask]

end ByteCodec
