import Mathlib.Data.List.Basic

/-! # Noted reads

Computations over a list of bytes that note where they read, and the rules by which their reads stay
within a length. -/
namespace NotedReads

/-- A result, and the reads on the way to it: where each starts, and how many bytes it takes. -/
structure Noted (α : Type) where
  value : α
  reads : List (ℕ × ℕ)

instance : Monad Noted where
  pure a := ⟨a, []⟩
  bind m f := ⟨(f m.value).value, m.reads ++ (f m.value).reads⟩

def readBytes (bytes : List UInt8) (offset count : ℕ) : Noted (List UInt8) :=
  ⟨(bytes.drop offset).take count, [(offset, count)]⟩

variable {α β : Type}

/-- Nothing is read at or behind a length. -/
def Noted.Within (m : Noted α) (length : ℕ) : Prop := ∀ r ∈ m.reads, r.1 + r.2 ≤ length

@[simp] theorem bind_value (m : Noted α) (f : α → Noted β) :
    (m >>= f).value = (f m.value).value := rfl

variable {length : ℕ}

theorem within_pure (a : α) : (pure a : Noted α).Within length := fun _ h => absurd h List.not_mem_nil

theorem within_read {bytes : List UInt8} {offset count : ℕ} (h : offset + count ≤ length) :
    (readBytes bytes offset count).Within length := by
  intro r hr
  rw [List.mem_singleton.mp hr]
  exact h

theorem within_bind {m : Noted α} {f : α → Noted β} (hm : m.Within length)
    (hf : (f m.value).Within length) : (m >>= f).Within length := by
  intro r hr
  rcases List.mem_append.mp hr with hr | hr
  · exact hm r hr
  · exact hf r hr

theorem within_forM {l : List α} {f : α → Noted PUnit} (h : ∀ a ∈ l, (f a).Within length) :
    (l.forM f).Within length := by
  induction l with
  | nil => exact within_pure _
  | cons a l ih =>
    change (f a >>= fun _ => l.forM f).Within length
    exact within_bind (h a (List.mem_cons_self ..)) (ih fun b hb => h b (List.mem_cons_of_mem a hb))

/-- A loop over the numbers from `i` on that carries a value and stops where a step has none. -/
def scanFrom (step : ℕ → β → Noted (Option β)) : ℕ → ℕ → β → Noted (Option β)
  | 0, _, b => pure (some b)
  | n + 1, i, b => do
    match ← step i b with
    | none => pure none
    | some b => scanFrom step n (i + 1) b

variable {step : ℕ → β → Noted (Option β)}

theorem within_scanFrom {n i : ℕ} {b : β}
    (h : ∀ j b, i ≤ j → j < i + n → (step j b).Within length) :
    (scanFrom step n i b).Within length := by
  induction n generalizing i b with
  | zero => exact within_pure _
  | succ n ih =>
    refine within_bind (h i b (Nat.le_refl i) (by omega)) ?_
    cases (step i b).value with
    | none => exact within_pure _
    | some b => exact ih fun j b hj hlt => h j b (by omega) (by omega)

theorem scanFrom_some {n i : ℕ} {b b' : β}
    (h : (scanFrom step n i b).value = some b') :
    ∀ j, i ≤ j → j < i + n → ∃ c c', (step j c).value = some c' := by
  induction n generalizing i b with
  | zero => exact fun j hj hlt => by omega
  | succ n ih =>
    rw [scanFrom, bind_value] at h
    cases hstep : (step i b).value with
    | none =>
      rw [hstep] at h
      cases h
    | some c =>
      rw [hstep] at h
      intro j hj hlt
      by_cases hji : j = i
      · exact ⟨b, c, hji ▸ hstep⟩
      · exact ih h j (by omega) (by omega)

theorem scanFrom_foldlM {γ : Type} {get : ℕ → γ}
    {f : β → γ → Option β} (h : ∀ j b, (step j b).value = f b (get j)) (n i : ℕ) (b : β) :
    (scanFrom step n i b).value = ((List.range' i n).map get).foldlM f b := by
  induction n generalizing i b with
  | zero => rfl
  | succ n ih =>
    rw [scanFrom, bind_value, List.range'_succ, List.map_cons, List.foldlM_cons, h]
    cases f b (get i) with
    | none => rfl
    | some c => exact ih (i + 1) c

end NotedReads
