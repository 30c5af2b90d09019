import Mathlib.Tactic.Common
import Mathlib.Algebra.BigOperators.Group.List.Basic
import Mathlib.Data.Nat.ModEq

/-! # One's-complement sums

Sums of 16-bit words with end-around carry. Such a sum is the sum of the numbers modulo 65535, in which
0 stands for an empty sum only. -/
namespace OnesComplement

def add (a b : ℕ) : ℕ := if a + b < 65536 then a + b else a + b - 65535

def sum (words : List ℕ) : ℕ := words.foldl add 0

/-- The words of a text, the high byte first; an odd last byte is padded with a zero. -/
def words : List UInt8 → List ℕ
  | a :: b :: rest => (a.toNat * 256 + b.toNat) :: words rest
  | [a] => [a.toNat * 256]
  | [] => []

def fold (s : ℕ) : ℕ := if s < 65536 then s else s % 65536 + s / 65536

theorem words_lt : ∀ bytes : List UInt8, ∀ w ∈ words bytes, w < 65536
  | [], _, hw => by cases hw
  | [a], w, hw => by
    have := a.toNat_lt
    rw [List.mem_singleton.mp hw]
    omega
  | a :: b :: rest, w, hw => by
    have ha := a.toNat_lt
    have hb := b.toNat_lt
    rw [words] at hw
    rcases List.mem_cons.mp hw with rfl | hw
    · omega
    · exact words_lt rest w hw

theorem words_append : ∀ (xs ys : List UInt8), xs.length % 2 = 0 →
    words (xs ++ ys) = words xs ++ words ys
  | [], _, _ => rfl
  | [_], _, h => by cases h
  | a :: b :: rest, ys, h => by
    have hrest : rest.length % 2 = 0 := by
      rw [List.length_cons, List.length_cons] at h
      omega
    rw [List.cons_append, List.cons_append, words, words, words_append rest ys hrest,
      List.cons_append]

theorem sum_words_le : ∀ bytes : List UInt8, (words bytes).sum ≤ 65535 * bytes.length
  | [] => Nat.le_refl _
  | [a] => by
    have := a.toNat_lt
    simp only [words, List.sum_cons, List.sum_nil, List.length_cons, List.length_nil]
    omega
  | a :: b :: rest => by
    have ha := a.toNat_lt
    have hb := b.toNat_lt
    have := sum_words_le rest
    simp only [words, List.sum_cons, List.length_cons]
    omega

structure Agrees (s n : ℕ) : Prop where
  small : s < 65536
  mod : s % 65535 = n % 65535
  zero : s = 0 ↔ n = 0

theorem Agrees.add {s n w : ℕ} (h : Agrees s n) (hw : w < 65536) : Agrees (add s w) (n + w) := by
  obtain ⟨hsmall, hmod, hzero⟩ := h
  unfold OnesComplement.add
  split
  · exact ⟨by omega, by omega, by omega⟩
  · exact ⟨by omega, by omega, by omega⟩

theorem agrees_foldl (ws : List ℕ) : ∀ s n, Agrees s n → (∀ w ∈ ws, w < 65536) →
    Agrees (ws.foldl add s) (n + ws.sum) := by
  induction ws with
  | nil => exact fun s n h _ => h
  | cons w ws ih =>
    intro s n h hws
    rw [List.foldl_cons, List.sum_cons, ← Nat.add_assoc]
    exact ih _ _ (h.add (hws w List.mem_cons_self)) fun x hx => hws x (List.mem_cons_of_mem _ hx)

theorem sum_ones {ws : List ℕ} (hws : ∀ w ∈ ws, w < 65536) (hpos : 0 < ws.sum)
    (hmod : ws.sum % 65535 = 0) : sum ws = 65535 := by
  have h := agrees_foldl ws 0 0 ⟨by decide, rfl, Iff.rfl⟩ hws
  rw [Nat.zero_add] at h
  have hsmall := h.small
  have hsame := h.mod
  have hzero := h.zero
  change ws.foldl add 0 = 65535
  omega

theorem agrees_fold {n : ℕ} (h : n < 2 ^ 32) : Agrees (fold (fold n)) n := by
  unfold fold
  split
  next hsmall => exact ⟨hsmall, rfl, Iff.rfl⟩
  next hlarge =>
    have hdiv := Nat.div_add_mod n 65536
    have hlow := Nat.mod_lt n (by decide : 0 < 65536)
    split
    · exact ⟨by omega, by omega, by omega⟩
    · have hdiv' := Nat.div_add_mod (n % 65536 + n / 65536) 65536
      have hlow' := Nat.mod_lt (n % 65536 + n / 65536) (by decide : 0 < 65536)
      exact ⟨by omega, by omega, by omega⟩

theorem complement_ones {n c : ℕ} (h : n < 2 ^ 32)
    (hc : c = 65535 - fold (fold n) ∨ c = 65535 ∧ fold (fold n) = 65535) :
    0 < n + c ∧ (n + c) % 65535 = 0 := by
  obtain ⟨hsmall, hmod, hzero⟩ := agrees_fold h
  rcases hc with rfl | ⟨rfl, hfull⟩
  · constructor
    · omega
    · omega
  · rw [hfull] at hmod
    constructor
    · omega
    · omega

end OnesComplement
