import Mathlib.Data.Nat.Bitwise
import Mathlib.Logic.Function.Iterate
import Mathlib.Tactic.Common

/-! # Cyclic redundancy codes

Reflected division of a byte string by a polynomial of degree 32, whose leading coefficient is
the top bit of `poly`. Strings that differ only inside four consecutive bytes have different
remainders. -/
namespace Crc

variable {poly : UInt32}

def step (poly crc : UInt32) : UInt32 := (crc >>> 1) ^^^ (poly &&& (0 - (crc &&& 1)))

def feed (poly crc : UInt32) (b : UInt8) : UInt32 := (step poly)^[8] (crc ^^^ b.toUInt32)

theorem toNat_step (x : UInt32) : (step poly x).toNat =
    (x.toNat / 2) ^^^ (if x.toNat % 2 = 1 then poly.toNat else 0) := by
  have hbit : (x &&& 1).toNat = x.toNat % 2 := by simp [Nat.and_one_is_mod]
  have hshift : (x >>> 1).toNat = x.toNat / 2 := by simp [Nat.shiftRight_eq_div_pow]
  rw [step, UInt32.toNat_xor, hshift]
  split
  next hodd =>
    rw [show x &&& 1 = 1 from UInt32.toNat_inj.mp (hbit.trans hodd)]
    simp
  next heven =>
    rw [show x &&& 1 = 0 from UInt32.toNat_inj.mp (hbit.trans (by simp at heven ⊢; omega))]
    simp

theorem step_xor (x y : UInt32) : step poly (x ^^^ y) = step poly x ^^^ step poly y := by
  apply UInt32.toNat_inj.mp
  simp only [UInt32.toNat_xor, toNat_step, Nat.xor_mod_two_eq_one, Nat.xor_div_two]
  by_cases hx : x.toNat % 2 = 1 <;> by_cases hy : y.toNat % 2 = 1 <;>
    simp [hx, hy, Nat.xor_assoc, Nat.xor_left_comm, Nat.xor_comm]

theorem iterate_xor (n : ℕ) (x y : UInt32) :
    (step poly)^[n] (x ^^^ y) = (step poly)^[n] x ^^^ (step poly)^[n] y := by
  induction n generalizing x y with
  | zero => rfl
  | succ n ih => simp only [Function.iterate_succ_apply, step_xor, ih]

/-- A step that leaves the top bit clear has shifted out a zero. -/
theorem double_step (htop : 2 ^ 31 ≤ poly.toNat) {x : UInt32}
    (h : (step poly x).toNat < 2 ^ 31) : x.toNat = 2 * (step poly x).toNat := by
  have hx := x.toNat_lt
  have hp := poly.toNat_lt
  rw [toNat_step] at h ⊢
  split at h
  next =>
    have hxor := Nat.xor_lt_two_pow (x := x.toNat / 2) (n := 31) (by omega) h
    rw [← Nat.xor_assoc, Nat.xor_self, Nat.zero_xor] at hxor
    omega
  next heven =>
    rw [if_neg heven, Nat.xor_zero]
    omega

theorem pow_iterate (htop : 2 ^ 31 ≤ poly.toNat) {n : ℕ} {x : UInt32}
    (h : 2 ^ n * ((step poly)^[n] x).toNat < 2 ^ 32) :
    x.toNat = 2 ^ n * ((step poly)^[n] x).toNat := by
  induction n generalizing x with
  | zero => simp
  | succ n ih =>
    rw [Function.iterate_succ_apply, Nat.pow_succ', Nat.mul_assoc] at h ⊢
    have hstep := ih (x := step poly x) (by omega)
    rw [double_step htop (by omega), hstep]

/-- As long as it stays small, the difference after a byte gives the one before it. -/
theorem feed_xor (htop : 2 ^ 31 ≤ poly.toNat) {x y : UInt32} {a b : UInt8}
    (h : 256 * (feed poly x a ^^^ feed poly y b).toNat < 2 ^ 32) :
    x.toNat ^^^ y.toNat =
      a.toNat ^^^ b.toNat ^^^ (256 * (feed poly x a ^^^ feed poly y b).toNat) := by
  rw [feed, feed, ← iterate_xor] at h ⊢
  have hpow := pow_iterate htop (n := 8) h
  rw [show 256 = 2 ^ 8 from rfl, ← hpow]
  simp [Nat.xor_assoc, Nat.xor_left_comm]

/-- By induction from the last byte back. -/
theorem window (htop : 2 ^ 31 ≤ poly.toNat) {l l' : List UInt8} {x y : UInt32}
    (hlength : l'.length = l.length) (hshort : l.length ≤ 4)
    (h : l.foldl (feed poly) x = l'.foldl (feed poly) y) :
    x.toNat ^^^ y.toNat < 2 ^ (8 * l.length) ∧ (x = y → l' = l) := by
  induction l generalizing l' x y with
  | nil =>
    obtain rfl := List.eq_nil_of_length_eq_zero hlength
    obtain rfl : x = y := h
    simp
  | cons a l ih =>
    obtain ⟨b, l', rfl⟩ := List.exists_cons_of_length_eq_add_one hlength
    simp only [List.length_cons, Nat.add_right_cancel_iff] at hlength hshort ⊢
    obtain ⟨hbound, hrest⟩ := ih hlength (by omega) h
    rw [← UInt32.toNat_xor] at hbound
    have hpow : 2 ^ (8 * l.length) ≤ 2 ^ 24 := Nat.pow_le_pow_right (by decide) (by omega)
    have hfeed := feed_xor htop (x := x) (y := y) (a := a) (b := b) (by omega)
    have hbyte : a.toNat ^^^ b.toNat < 2 ^ 8 := Nat.xor_lt_two_pow a.toNat_lt b.toNat_lt
    refine ⟨?_, ?_⟩
    · rw [hfeed, Nat.mul_add]
      refine Nat.xor_lt_two_pow (hbyte.trans_le (Nat.pow_le_pow_right (by decide) (by omega))) ?_
      rw [Nat.pow_add, Nat.mul_comm]
      omega
    · rintro rfl
      rw [Nat.xor_self, eq_comm, Nat.xor_eq_zero_iff] at hfeed
      have hzero : (feed poly x a ^^^ feed poly x b).toNat = 0 := by omega
      rw [hzero, Nat.mul_zero, Nat.xor_eq_zero_iff] at hfeed
      have hsame := UInt32.xor_eq_zero_iff.mp (UInt32.toNat_inj.mp hzero)
      rw [UInt8.toNat_inj.mp hfeed, hrest hsame]

/-- Different strings of one length that differ only inside four consecutive bytes. -/
inductive Burst : List UInt8 → List UInt8 → Prop
  | intro (before old new after : List UInt8) (length : new.length = old.length)
      (short : old.length ≤ 4) (changed : new ≠ old) :
      Burst (before ++ old ++ after) (before ++ new ++ after)

theorem Burst.length {bytes bytes' : List UInt8} (h : Burst bytes bytes') :
    bytes'.length = bytes.length ∧ 0 < bytes.length := by
  obtain ⟨before, old, new, after, hlength, -, hchanged⟩ := h
  have hsome : old ≠ [] := by
    rintro rfl
    exact hchanged (List.eq_nil_of_length_eq_zero hlength)
  have := List.length_pos_iff.mpr hsome
  simp only [List.length_append]
  omega

theorem foldl_feed_inj (htop : 2 ^ 31 ≤ poly.toNat) {l : List UInt8} {x y : UInt32}
    (h : l.foldl (feed poly) x = l.foldl (feed poly) y) : x = y := by
  induction l generalizing x y with
  | nil => exact h
  | cons a l ih =>
    have hxor := feed_xor htop (x := x) (y := y) (a := a) (b := a) (by simp [ih h])
    exact UInt32.toNat_inj.mp (by simpa [ih h] using hxor)

theorem Burst.detected (htop : 2 ^ 31 ≤ poly.toNat) {bytes bytes' : List UInt8} (x : UInt32)
    (h : Burst bytes bytes') : bytes'.foldl (feed poly) x ≠ bytes.foldl (feed poly) x := by
  obtain ⟨before, old, new, after, hlength, hshort, hchanged⟩ := h
  simp only [List.foldl_append]
  intro heq
  exact hchanged ((window htop hlength hshort (foldl_feed_inj htop heq).symm).2 rfl)

end Crc
