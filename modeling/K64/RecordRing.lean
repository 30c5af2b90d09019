import Mathlib.Data.Nat.ModEq
import Mathlib.Algebra.BigOperators.Group.List.Basic

/-! # Records in a ring

Positions are counted over the whole run; the cell of a position is its remainder by the size `n` of
the ring. A record is kept in a slot of `size r` cells, of which `text r` is read. A writer that does
not go back to the first cell may run past the last one. -/
namespace RecordRing

variable {α ρ : Type} {n p q : ℕ} {mem : ℕ → α} {text : ρ → List α} {size : ρ → ℕ}

theorem mod_add (h : p % n + q < n) : (p + q) % n = p % n + q := by
  rw [← Nat.mod_add_mod, Nat.mod_eq_of_lt h]

theorem mod_ne (hlt : p < q) (hturn : q < p + n) : p % n ≠ q % n := by
  intro heq
  have hdvd : n ∣ q - p := (Nat.modEq_iff_dvd' hlt.le).mp heq
  have hle := Nat.le_of_dvd (by omega) hdvd
  omega

/-- The memory after `cells` are written from `p` on. -/
def put (mem : ℕ → α) (p : ℕ) (cells : List α) : ℕ → α :=
  fun a => if p ≤ a then cells[a - p]?.getD (mem a) else mem a

variable {cells : List α}

theorem put_inside {i : ℕ} (h : i < cells.length) :
    put mem p cells (p + i) = cells[i] := by
  rw [put, if_pos (Nat.le_add_right _ _), Nat.add_sub_cancel_left, List.getElem?_eq_getElem h]
  rfl

theorem put_outside {a : ℕ} (h : a < p ∨ p + cells.length ≤ a) :
    put mem p cells a = mem a := by
  unfold put
  split
  next hle => rw [List.getElem?_eq_none (by omega), Option.getD_none]
  next => rfl

/-- The cells are read from the ring at `p`. -/
def Reads (n : ℕ) (mem : ℕ → α) (p : ℕ) (cells : List α) : Prop :=
  ∀ i (h : i < cells.length), mem ((p + i) % n) = cells[i]

variable {more : List α}

theorem Reads.split (h : Reads n mem p (cells ++ more)) :
    Reads n mem p cells ∧ Reads n mem (p + cells.length) more := by
  refine ⟨fun i hi => ?_, fun i hi => ?_⟩
  · rw [h i (by rw [List.length_append]; omega), List.getElem_append_left hi]
  · rw [Nat.add_assoc, h (cells.length + i) (by rw [List.length_append]; omega),
      List.getElem_append_right (Nat.le_add_right _ _)]
    simp only [Nat.add_sub_cancel_left]

theorem Reads.append (h : Reads n mem p cells)
    (hmore : Reads n mem (p + cells.length) more) : Reads n mem p (cells ++ more) := by
  intro i hi
  rw [List.length_append] at hi
  by_cases hfirst : i < cells.length
  · rw [h i hfirst, List.getElem_append_left hfirst]
  · rw [List.getElem_append_right (by omega), ← hmore (i - cells.length) (by omega)]
    congr 2
    omega

theorem reads_put (h : p % n + cells.length ≤ n) :
    Reads n (put mem (p % n) (cells ++ more)) p cells := by
  intro i hi
  rw [mod_add (by omega), put_inside (by rw [List.length_append]; omega),
    List.getElem_append_left hi]

theorem Reads.put {written : List α} (h : Reads n mem p cells) (hbefore : p + cells.length ≤ q)
    (hturn : q + written.length ≤ p + n) : Reads n (put mem (q % n) written) p cells := by
  intro i hi
  rw [← h i hi]
  refine put_outside ?_
  by_contra hinside
  have hlt : (p + i) % n < n := Nat.mod_lt _ (by omega)
  obtain ⟨j, hj⟩ : ∃ j, (p + i) % n = q % n + j := ⟨(p + i) % n - q % n, by omega⟩
  have hcell : (p + i) % n = (q + j) % n := hj.trans (mod_add (by omega)).symm
  exact mod_ne (by omega) (by omega) hcell

def total (size : ρ → ℕ) (rs : List ρ) : ℕ := (rs.map size).sum

theorem total_append (rs more : List ρ) :
    total size (rs ++ more) = total size rs + total size more := by
  rw [total, List.map_append, List.sum_append]
  rfl

theorem total_cons (r : ρ) (rs : List ρ) : total size (r :: rs) = size r + total size rs := by
  rw [total, List.map_cons, List.sum_cons]
  rfl

/-- The records are read one after the other from `p` on. -/
def Placed (n : ℕ) (text : ρ → List α) (size : ρ → ℕ) (mem : ℕ → α) : ℕ → List ρ → Prop
  | _, [] => True
  | p, r :: rs => Reads n mem p (text r) ∧ Placed n text size mem (p + size r) rs

theorem Placed.append {r : ρ} : ∀ {p : ℕ} (rs : List ρ), Placed n text size mem p rs →
    Reads n mem (p + total size rs) (text r) → Placed n text size mem p (rs ++ [r]) := by
  intro p rs
  induction rs generalizing p with
  | nil => exact fun _ hreads => ⟨hreads, trivial⟩
  | cons first rs ih =>
    intro h hreads
    rw [total_cons, ← Nat.add_assoc] at hreads
    exact ⟨h.1, ih h.2 hreads⟩

theorem Placed.put {written : List α} (hsize : ∀ r, (text r).length ≤ size r) :
    ∀ {p : ℕ} (rs : List ρ), Placed n text size mem p rs →
    total size rs + written.length ≤ n →
    Placed n text size (RecordRing.put mem ((p + total size rs) % n) written) p rs := by
  intro p rs
  induction rs generalizing p with
  | nil => exact fun _ _ => trivial
  | cons r rs ih =>
    intro h hroom
    have hr := hsize r
    rw [total_cons] at hroom ⊢
    refine ⟨h.1.put (by omega) (by omega), ?_⟩
    rw [← Nat.add_assoc]
    exact ih h.2 (by omega)

end RecordRing
