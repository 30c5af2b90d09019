import Mathlib.Data.List.Range

/-! # First fit

Searches below a limit: the first free number, and the first run of free numbers. The run search
starts again behind the first number that stands in its way. -/
namespace FirstFit

variable {used : ℕ → Bool} {limit n k start : ℕ}

/-- `n` free numbers from `k` on, below `limit`. A run has at least one member. -/
structure Run (used : ℕ → Bool) (limit n k : ℕ) : Prop where
  nonempty : 0 < n
  below : k + n ≤ limit
  free : ∀ j, k ≤ j → j < k + n → used j = false

structure LowestRun (used : ℕ → Bool) (limit n k : ℕ) : Prop extends Run used limit n k where
  lowest : ∀ k' < k, ¬ Run used limit n k'

def firstFree (used : ℕ → Bool) (limit : ℕ) : Option ℕ :=
  (List.range' 0 limit).find? fun k => !used k

/-- Looks for a run from `k` on. -/
def runFrom (used : ℕ → Bool) (limit n : ℕ) : ℕ → ℕ → Option ℕ
  | 0, _ => none
  | fuel + 1, k =>
    if k + n ≤ limit then
      match (List.range' k n).find? used with
      | none => some k
      | some j => runFrom used limit n fuel (j + 1)
    else none

def firstRun (used : ℕ → Bool) (limit n : ℕ) : Option ℕ := runFrom used limit n (limit + 1) 0

theorem firstFree_some (h : firstFree used limit = some k) :
    k < limit ∧ used k = false ∧ ∀ j < k, used j = true := by
  obtain ⟨hk, hmem, hbefore⟩ := List.find?_range'_eq_some.mp h
  refine ⟨by simpa using List.mem_range'_1.mp hmem, by simpa using hk, fun j hj => ?_⟩
  simpa using hbefore j (Nat.zero_le j) hj

theorem firstFree_none : firstFree used limit = none ↔ ∀ j < limit, used j = true := by
  rw [firstFree, List.find?_range'_eq_none]
  simp

theorem Run.behind {j k' : ℕ} (h : Run used limit n k') (hj : j < k + n) (hused : used j = true)
    (hk : k ≤ k') : j < k' := by
  by_contra hle
  have hfree := h.free j (by omega) (by omega)
  rw [hused] at hfree
  cases hfree

theorem runFrom_spec (used : ℕ → Bool) (limit : ℕ) (hn : 0 < n) : ∀ fuel start, limit < start + fuel →
    match runFrom used limit n fuel start with
    | none => ∀ k, start ≤ k → ¬ Run used limit n k
    | some k => start ≤ k ∧ Run used limit n k ∧ ∀ k', start ≤ k' → k' < k → ¬ Run used limit n k' := by
  intro fuel
  induction fuel with
  | zero =>
    intro start hfuel k hk hrun
    have := hrun.below
    omega
  | succ fuel ih =>
    intro start hfuel
    rw [runFrom]
    by_cases hbelow : start + n ≤ limit
    case neg =>
      rw [if_neg hbelow]
      intro k hk hrun
      have := hrun.below
      omega
    rw [if_pos hbelow]
    cases hfind : (List.range' start n).find? used with
    | none =>
      have hfree : ∀ j, start ≤ j → j < start + n → used j = false := by
        simpa using List.find?_range'_eq_none.mp hfind
      exact ⟨Nat.le_refl _, ⟨hn, hbelow, hfree⟩, fun k' h1 h2 => by omega⟩
    | some j =>
      obtain ⟨hused, hmem, -⟩ := List.find?_range'_eq_some.mp hfind
      have hj := List.mem_range'_1.mp hmem
      have hskip : ∀ k', start ≤ k' → k' < j + 1 → ¬ Run used limit n k' := by
        intro k' h1 h2 hrun
        have := hrun.behind hj.2 hused h1
        omega
      have hrest := ih (j + 1) (by omega)
      dsimp only
      cases hres : runFrom used limit n fuel (j + 1) with
      | none =>
        rw [hres] at hrest
        intro k hk hrun
        by_cases hle : k < j + 1
        · exact hskip k hk hle hrun
        · exact hrest k (by omega) hrun
      | some k =>
        rw [hres] at hrest
        obtain ⟨hjk, hrun, hlow⟩ := hrest
        refine ⟨by omega, hrun, fun k' h1 h2 => ?_⟩
        by_cases hle : k' < j + 1
        · exact hskip k' h1 hle
        · exact hlow k' (by omega) h2

theorem firstRun_some (hn : 0 < n) (h : firstRun used limit n = some k) :
    LowestRun used limit n k := by
  have hspec := runFrom_spec used limit hn (limit + 1) 0 (by omega)
  rw [firstRun] at h
  rw [h] at hspec
  exact ⟨hspec.2.1, fun k' hk' => hspec.2.2 k' (Nat.zero_le k') hk'⟩

theorem firstRun_none (hn : 0 < n) : firstRun used limit n = none ↔ ∀ k, ¬ Run used limit n k := by
  have hspec := runFrom_spec used limit hn (limit + 1) 0 (by omega)
  constructor
  · intro h k
    rw [firstRun] at h
    rw [h] at hspec
    exact hspec k (Nat.zero_le k)
  · intro h
    cases hrun : firstRun used limit n with
    | none => rfl
    | some k => exact absurd (firstRun_some hn hrun).toRun (h k)

end FirstFit
