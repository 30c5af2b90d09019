import Mathlib.Data.Nat.ModEq
import Mathlib.Data.List.Range
import Mathlib.Logic.Function.Basic

/-! # Ring buffers

A queue in an array of fixed length: elements are stored behind the last one and fetched from the
first one, and both positions go around. Loops store or fetch some elements one by one; the number
of elements is set after the loop. -/
namespace RingBuffer

variable {α : Type}

structure Buffer (α : Type) where
  data : ℕ → α
  readPos : ℕ
  writePos : ℕ
  size : ℕ

def storeOne (capacity : ℕ) (x : α) (b : Buffer α) : Buffer α :=
  { b with
    data := Function.update b.data b.writePos x
    writePos := (b.writePos + 1) % capacity }

def store (capacity : ℕ) (l : List α) (b : Buffer α) : Buffer α :=
  l.foldl (fun b x => storeOne capacity x b) b

def fetch (capacity : ℕ) : ℕ → Buffer α → List α × Buffer α
  | 0, b => ([], b)
  | n + 1, b =>
    let rest := fetch capacity n { b with readPos := (b.readPos + 1) % capacity }
    (b.data b.readPos :: rest.1, rest.2)

/-- The elements in the order of their arrival. -/
def contents (capacity : ℕ) (b : Buffer α) : List α :=
  (List.range b.size).map fun i => b.data ((b.readPos + i) % capacity)

structure WellFormed (capacity : ℕ) (b : Buffer α) : Prop where
  size_le : b.size ≤ capacity
  readPos_lt : b.readPos < capacity
  writePos : b.writePos = (b.readPos + b.size) % capacity

variable {capacity n : ℕ} {b : Buffer α}

@[simp] theorem length_contents : (contents capacity b).length = b.size := by
  simp [contents]

theorem contents_empty (h : b.size = 0) : contents capacity b = [] := by
  rw [← List.length_eq_zero_iff, length_contents, h]

theorem store_cons (x : α) (l : List α) (b : Buffer α) :
    store capacity (x :: l) b = store capacity l (storeOne capacity x b) := rfl

theorem store_resize (l : List α) (b : Buffer α) (n : ℕ) :
    store capacity l { b with size := n } = { store capacity l b with size := n } := by
  induction l generalizing b with
  | nil => rfl
  | cons x l ih =>
    rw [store_cons, store_cons]
    exact ih (storeOne capacity x b)

theorem position_ne (hi : n < b.size) (hs : b.size < capacity) :
    (b.readPos + n) % capacity ≠ (b.readPos + b.size) % capacity := by
  intro h
  have hmod : n % capacity = b.size % capacity := Nat.ModEq.add_left_cancel' b.readPos h
  rw [Nat.mod_eq_of_lt (by omega), Nat.mod_eq_of_lt hs] at hmod
  omega

theorem WellFormed.storeOne (h : WellFormed capacity b) (hs : b.size < capacity) (x : α) :
    WellFormed capacity { storeOne capacity x b with size := b.size + 1 } ∧
    contents capacity { storeOne capacity x b with size := b.size + 1 } =
      contents capacity b ++ [x] := by
  refine ⟨⟨hs, h.readPos_lt, ?_⟩, ?_⟩
  · change (b.writePos + 1) % capacity = (b.readPos + (b.size + 1)) % capacity
    rw [h.writePos, Nat.mod_add_mod, Nat.add_assoc]
  · unfold contents RingBuffer.storeOne
    dsimp only
    rw [List.range_succ, List.map_append, List.map_singleton, h.writePos, Function.update_self]
    congr 1
    apply List.map_congr_left
    intro i hi
    exact Function.update_of_ne (position_ne (List.mem_range.mp hi) hs) _ _

theorem WellFormed.store (h : WellFormed capacity b) (l : List α)
    (hs : b.size + l.length ≤ capacity) :
    WellFormed capacity { store capacity l b with size := b.size + l.length } ∧
    contents capacity { store capacity l b with size := b.size + l.length } =
      contents capacity b ++ l := by
  induction l generalizing b with
  | nil => exact ⟨h, (List.append_nil _).symm⟩
  | cons x l ih =>
    rw [List.length_cons] at hs
    obtain ⟨hone, hcontents⟩ := h.storeOne (by omega) x
    obtain ⟨hwf, hall⟩ := ih hone (by change b.size + 1 + l.length ≤ capacity; omega)
    rw [store_resize] at hwf hall
    have hlen : b.size + (x :: l).length = b.size + 1 + l.length := by
      rw [List.length_cons]
      omega
    rw [store_cons, hlen]
    refine ⟨hwf, hall.trans ?_⟩
    rw [hcontents, List.append_assoc, List.singleton_append]

theorem length_fetch (n : ℕ) (b : Buffer α) : (fetch capacity n b).1.length = n := by
  induction n generalizing b with
  | zero => rfl
  | succ n ih => exact congrArg (· + 1) (ih _)

theorem fetch_resize (n m : ℕ) (b : Buffer α) :
    fetch capacity n { b with size := m } =
      ((fetch capacity n b).1, { (fetch capacity n b).2 with size := m }) := by
  induction n generalizing b with
  | zero => rfl
  | succ n ih =>
    have hrest := ih { b with readPos := (b.readPos + 1) % capacity }
    dsimp only at hrest
    unfold fetch
    dsimp only
    rw [hrest]

theorem WellFormed.fetchOne (h : WellFormed capacity b) (hs : b.size = n + 1) :
    WellFormed capacity { b with readPos := (b.readPos + 1) % capacity, size := n } ∧
    contents capacity b = b.data b.readPos ::
      contents capacity { b with readPos := (b.readPos + 1) % capacity, size := n } := by
  have hle := h.size_le
  refine ⟨⟨by change n ≤ capacity; omega, Nat.mod_lt _ (by omega), ?_⟩, ?_⟩
  · change b.writePos = ((b.readPos + 1) % capacity + n) % capacity
    rw [h.writePos, hs, Nat.mod_add_mod, Nat.add_assoc, Nat.add_comm 1]
  · unfold contents
    rw [hs, List.range_succ_eq_map, List.map_cons, List.map_map, Nat.add_zero,
      Nat.mod_eq_of_lt h.readPos_lt]
    congr 1
    apply List.map_congr_left
    intro i _
    rw [Function.comp_apply, Nat.mod_add_mod, Nat.add_assoc, Nat.add_comm 1]

theorem WellFormed.fetch (h : WellFormed capacity b) (n : ℕ) (hn : n ≤ b.size) :
    WellFormed capacity { (fetch capacity n b).2 with size := b.size - n } ∧
    (fetch capacity n b).1 = (contents capacity b).take n ∧
    contents capacity { (fetch capacity n b).2 with size := b.size - n } =
      (contents capacity b).drop n := by
  induction n generalizing b with
  | zero => exact ⟨h, rfl, rfl⟩
  | succ n ih =>
    obtain ⟨m, hm⟩ : ∃ m, b.size = m + 1 := ⟨b.size - 1, by omega⟩
    obtain ⟨hone, hcontents⟩ := h.fetchOne hm
    obtain ⟨hwf, htake, hdrop⟩ := ih hone (by change n ≤ m; omega)
    have hsub : b.size - (n + 1) = m - n := by omega
    have hres : fetch capacity n _ = _ :=
      fetch_resize n m { b with readPos := (b.readPos + 1) % capacity }
    dsimp only at hres hwf htake hdrop
    rw [hres] at hwf htake hdrop
    rw [hcontents, hsub, RingBuffer.fetch, List.take_succ_cons, List.drop_succ_cons]
    exact ⟨hwf, congrArg _ htake, hdrop⟩

end RingBuffer
