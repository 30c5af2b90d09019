import Mathlib.Algebra.Order.Group.Nat
import Mathlib.Tactic.Common

/-! # Loops over the pieces of a buffer

A buffer of `len` bytes goes through a loop in pieces of `size` bytes, the last of which may be
shorter. The loop ends behind the last piece, or at the first piece that does not go through. -/
namespace PieceLoops

variable {σ : Type*} (step : ℕ → σ → Option σ) (start : σ)

/-- The state after `k` pieces that all went through. -/
def reached : ℕ → Option σ
  | 0 => some start
  | k + 1 => (reached k).bind (step k)

def pieceLength (size len k : ℕ) : ℕ := min (len - k * size) size

variable {step start} {size len j k : ℕ} {a b : σ}

theorem reached_succ (h : reached step start k = some a) : reached step start (k + 1) = step k a := by
  rw [reached, h, Option.bind_some]

theorem reached_earlier (hjk : j ≤ k) (h : reached step start k = some a) :
    ∃ b, reached step start j = some b := by
  induction k generalizing a with
  | zero => exact ⟨a, Nat.le_zero.mp hjk ▸ h⟩
  | succ k ih =>
    obtain ⟨c, hc, -⟩ := Option.bind_eq_some_iff.mp h
    rcases Nat.lt_or_eq_of_le hjk with hlt | rfl
    · exact ih (by omega) hc
    · exact ⟨a, h⟩

theorem le_of_stopped (hj : reached step start j = some a) (hstop : step j a = none)
    (hk : reached step start k = some b) : k ≤ j := by
  by_contra hlt
  obtain ⟨c, hc⟩ := reached_earlier (show j + 1 ≤ k by omega) hk
  rw [reached_succ hj, hstop] at hc
  cases hc

theorem stopped_unique (hj : reached step start j = some a) (hstop : step j a = none)
    (hk : reached step start k = some b) (hstop' : step k b = none) : k = j ∧ b = a := by
  obtain rfl : k = j := Nat.le_antisymm (le_of_stopped hj hstop hk) (le_of_stopped hk hstop' hj)
  exact ⟨rfl, Option.some.inj (hk.symm.trans hj)⟩

theorem done_add_piece (h : k * size < len) :
    k * size + pieceLength size len k = min ((k + 1) * size) len := by
  rw [pieceLength, Nat.add_mul, Nat.one_mul]
  omega

theorem pieceLength_pos (hsize : 0 < size) (h : k * size < len) : 0 < pieceLength size len k := by
  rw [pieceLength]
  omega

theorem pieces_unique (hsize : 0 < size) (hj : j * size < len)
    (h : min (k * size) len = j * size) : k = j := by
  rcases Nat.lt_trichotomy k j with hlt | heq | hgt
  · have := Nat.mul_lt_mul_of_pos_right hlt hsize
    omega
  · exact heq
  · have := Nat.mul_lt_mul_of_pos_right hgt hsize
    omega

/-- A loop that only asks whether each piece goes through, with at most `n` turns. -/
def allPieces (ok : ℕ → ℕ → Bool) (size len : ℕ) : ℕ → ℕ → Bool
  | 0, _ => true
  | n + 1, done =>
    if len ≤ done then true
    else
      let count := min (len - done) size
      ok done count && allPieces ok size len n (done + count)

theorem allPieces_from {ok : ℕ → ℕ → Bool} (hsize : 0 < size) (n : ℕ) (hn : len ≤ min (k * size) len + n) :
    allPieces ok size len n (min (k * size) len) = true ↔
      ∀ j, k ≤ j → j * size < len → ok (j * size) (pieceLength size len j) = true := by
  induction n generalizing k with
  | zero =>
    refine ⟨fun _ j hkj hj => ?_, fun _ => rfl⟩
    have := Nat.mul_le_mul_right size hkj
    omega
  | succ n ih =>
    unfold allPieces
    by_cases hk : len ≤ k * size
    · rw [if_pos (by omega)]
      refine ⟨fun _ j hkj hj => ?_, fun _ => rfl⟩
      have := Nat.mul_le_mul_right size hkj
      omega
    · have hdone : min (k * size) len = k * size := by omega
      have hpos := pieceLength_pos hsize (Nat.not_le.mp hk)
      have hnext : k * size + pieceLength size len k = min ((k + 1) * size) len :=
        done_add_piece (by omega)
      rw [hdone] at hn ⊢
      rw [if_neg hk]
      simp only
      change (ok (k * size) (pieceLength size len k) &&
        allPieces ok size len n (k * size + pieceLength size len k)) = true ↔ _
      rw [hnext, Bool.and_eq_true, ih (by omega)]
      constructor
      · rintro ⟨hfirst, hrest⟩ j hkj hj
        rcases Nat.eq_or_lt_of_le hkj with rfl | hlt
        · exact hfirst
        · exact hrest j hlt hj
      · exact fun h => ⟨h k (Nat.le_refl k) (by omega), fun j hj => h j (by omega)⟩

theorem allPieces_iff (ok : ℕ → ℕ → Bool) (len : ℕ) (hsize : 0 < size) :
    allPieces ok size len len 0 = true ↔
      ∀ k, k * size < len → ok (k * size) (pieceLength size len k) = true := by
  have h : allPieces ok size len len (min (0 * size) len) = true ↔ _ :=
    allPieces_from hsize len (Nat.le_add_left ..)
  rw [Nat.zero_mul, Nat.zero_min] at h
  rw [h]
  exact ⟨fun h k => h k (Nat.zero_le k), fun h k _ => h k⟩

end PieceLoops
