import K64.IoProgram

/-! # Programs that give up at the first failure

A procedure that fails as soon as a request is refused, and succeeds, saw no refusal. It then runs
alike on every handler that answers the accepted requests alike, such as one that never refuses. -/
namespace IoFailStop

open IoProgram

variable {Q : Type} {R : Q → Type} {α β μ σ τ : Type} {ok : (q : Q) → R q → Prop}

def Prog.Lost : Prog Q R (Option α × μ) → Prop
  | .ret r => r.1 = none
  | .ask _ k => ∀ r, Prog.Lost (k r)

/-- Behind every answer that is not `ok` the program is lost. -/
def Prog.FailStop (ok : (q : Q) → R q → Prop) : Prog Q R (Option α × μ) → Prop
  | .ret _ => True
  | .ask q k => ∀ r, Prog.FailStop ok (k r) ∧ (ok q r ∨ Prog.Lost (k r))

def Proc.FailStop (ok : (q : Q) → R q → Prop) (f : Proc Q R μ α) : Prop :=
  ∀ x, Prog.FailStop ok (f x)

variable {h : Handler Q R σ} {p : Prog Q R (Option α × μ)}

theorem Prog.Lost.run (hp : Prog.Lost p) (s : σ) :
    (p.run h s).1.1 = none := by
  induction p generalizing s with
  | ret r => exact hp
  | ask q k ih => exact ih _ (hp _) _

theorem Prog.FailStop.run {h' : Handler Q R τ} {f : σ → τ}
    (hstep : ∀ q s, ok q (h q s).1 → h' q (f s) = ((h q s).1, f (h q s).2))
    (hp : Prog.FailStop ok p) {s : σ}
    (hs : (p.run h s).1.1.isSome = true) : p.run h' (f s) = ((p.run h s).1, f (p.run h s).2) := by
  induction p generalizing s with
  | ret r => rfl
  | ask q k ih =>
    obtain ⟨hk, hok | hlost⟩ := hp (h q s).1
    · rw [Prog.run, hstep q s hok]
      exact ih _ hk hs
    · have hnone := Prog.Lost.run (h := h) hlost (h q s).2
      rw [Prog.run, hnone] at hs
      cases hs

theorem Proc.FailStop.exec {h' : Handler Q R τ} {f : σ → τ}
    (hstep : ∀ q s, ok q (h q s).1 → h' q (f s) = ((h q s).1, f (h q s).2)) {g : Proc Q R μ α}
    (hg : Proc.FailStop ok g) {x : μ} {s : σ} (hs : (g.exec h x s).1.isSome = true) :
    g.exec h' x (f s) = ((g.exec h x s).1, (g.exec h x s).2.1, f (g.exec h x s).2.2) := by
  have hrun := Prog.FailStop.run hstep (hg x) hs
  rw [Proc.exec, hrun]
  rfl

theorem failStop_pure (a : α) : Proc.FailStop ok (pure a : Proc Q R μ α) := fun _ => trivial

theorem failStop_load : Proc.FailStop ok (Proc.load : Proc Q R μ μ) := fun _ => trivial

theorem failStop_update (f : μ → μ) : Proc.FailStop ok (Proc.update f : Proc Q R μ Unit) :=
  fun _ => trivial

theorem failStop_guard (b : Bool) : Proc.FailStop ok (Proc.guard b : Proc Q R μ Unit) := by
  cases b <;> exact fun _ => trivial

theorem Prog.Lost.bind (hp : Prog.Lost p) (g : α → Proc Q R μ β) :
    Prog.Lost (p.bind fun r => match r.1 with
      | some a => g a r.2
      | none => .ret (none, r.2)) := by
  induction p with
  | ret r =>
    obtain ⟨o, x⟩ := r
    obtain rfl : o = none := hp
    rfl
  | ask q k ih => exact fun r => ih r (hp r)

theorem Proc.FailStop.bind {f : Proc Q R μ α} {g : α → Proc Q R μ β} (hf : Proc.FailStop ok f)
    (hg : ∀ a, Proc.FailStop ok (g a)) : Proc.FailStop ok (f >>= g) := by
  intro x
  have hp := hf x
  change Prog.FailStop ok ((f x).bind _)
  generalize f x = p at hp
  induction p with
  | ret r =>
    obtain ⟨o, y⟩ := r
    cases o with
    | none => trivial
    | some a => exact hg a y
  | ask q k ih => exact fun r => ⟨ih r (hp r).1, (hp r).2.imp id fun hl => hl.bind g⟩

theorem failStop_request {q : Q} (h : ∀ r, ok q r) :
    Proc.FailStop ok (Proc.request q : Proc Q R μ (R q)) := fun _ r => ⟨trivial, Or.inl (h r)⟩

theorem failStop_guarded {q : Q} {f : R q → Bool} (h : ∀ r, f r = true → ok q r) :
    Proc.FailStop ok (do Proc.guard (f (← Proc.request q)) : Proc Q R μ Unit) := by
  refine fun x r => ⟨failStop_guard (f r) x, ?_⟩
  by_cases hr : f r = true
  · exact Or.inl (h r hr)
  · refine Or.inr ?_
    change Prog.Lost ((Proc.guard (f r) : Proc Q R μ Unit) x)
    rw [Bool.not_eq_true _ |>.mp hr]
    rfl

theorem failStop_answered {q : Q} {f : R q → Option α} (h : ∀ r a, f r = some a → ok q r) :
    Proc.FailStop ok (do Proc.orFail (f (← Proc.request q)) : Proc Q R μ α) := by
  refine fun x r => ⟨trivial, ?_⟩
  cases hr : f r with
  | some a => exact Or.inl (h r a hr)
  | none => exact Or.inr hr

theorem failStop_loop {body : ℕ → Proc Q R μ Unit} (h : ∀ j, Proc.FailStop ok (body j)) (n : ℕ) :
    ∀ i, Proc.FailStop ok (Proc.loop body i n) := by
  induction n with
  | zero => exact fun _ => failStop_pure ()
  | succ n ih =>
    intro i
    rw [Proc.loop]
    exact (h i).bind fun _ => ih (i + 1)

end IoFailStop
