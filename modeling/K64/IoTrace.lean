import K64.IoProgram

/-! # Programs that keep a log

A procedure whose memory is a log of events mirrors one without a log when both make the same
requests and, whatever the answers, end with the same result. What is asked of the events then holds
on every device. -/
namespace IoTrace

open IoProgram

variable {Q : Type} {R : Q → Type} {α β γ δ ε μ σ : Type}

inductive Follows (S : α → β → Prop) : Prog Q R α → Prog Q R β → Prop where
  | ret {a : α} {b : β} (h : S a b) : Follows S (.ret a) (.ret b)
  | ask (q : Q) {k : R q → Prog Q R α} {k' : R q → Prog Q R β} (h : ∀ r, Follows S (k r) (k' r)) :
      Follows S (.ask q k) (.ask q k')

theorem Follows.bind {S : α → β → Prop} {T : γ → δ → Prop} {p : Prog Q R α} {p' : Prog Q R β}
    {g : α → Prog Q R γ} {g' : β → Prog Q R δ} (h : Follows S p p')
    (hg : ∀ a b, S a b → Follows T (g a) (g' b)) : Follows T (p.bind g) (p'.bind g') := by
  induction h with
  | ret hs => exact hg _ _ hs
  | ask q _ ih => exact .ask q ih

theorem Follows.map_left {S : α → β → Prop} {T : γ → β → Prop} {p : Prog Q R α} {p' : Prog Q R β}
    {g : α → γ} (h : Follows S p p') (hst : ∀ a b, S a b → T (g a) b) :
    Follows T (p.bind fun a => .ret (g a)) p' := by
  induction h with
  | ret hs => exact .ret (hst _ _ hs)
  | ask q _ ih => exact .ask q ih

theorem Follows.mono {S T : α → β → Prop} {p : Prog Q R α} {p' : Prog Q R β} (h : Follows S p p')
    (hst : ∀ a b, S a b → T a b) : Follows T p p' := by
  induction h with
  | ret hs => exact .ret (hst _ _ hs)
  | ask q _ ih => exact .ask q ih

theorem exec_bind (h : Handler Q R σ) (f : Proc Q R μ α) (g : α → Proc Q R μ β) (x : μ) (s : σ) :
    (f >>= g).exec h x s = match (f.exec h x s).1 with
      | some a => (g a).exec h (f.exec h x s).2.1 (f.exec h x s).2.2
      | none => (none, (f.exec h x s).2) := by
  have hprog : (f >>= g) x = (f x).bind fun r => match r.1 with
      | some a => g a r.2
      | none => .ret (none, r.2) := rfl
  unfold Proc.exec
  rw [hprog, Prog.run_bind]
  rcases (f x).run h s with ⟨⟨_ | a, x'⟩, s'⟩ <;> rfl

theorem Follows.lowered {Q' : Type} {R' : Q' → Type} {impl : (q : Q) → Proc Q' R' μ (R q)}
    {h : Handler Q' R' σ} {S : α → β → Prop} {p : Prog Q R α} {p' : Prog Q R β}
    (hf : Follows S p p') : ∀ (x : μ) (s : σ),
    match ((Proc.lowerProg impl p).exec h x s).1, ((Proc.lowerProg impl p').exec h x s).1 with
    | some a, some b => S a b
    | none, none => True
    | _, _ => False := by
  induction hf with
  | ret hs => exact fun _ _ => hs
  | ask q hk ih =>
    intro x s
    rw [Proc.lowerProg, Proc.lowerProg, exec_bind, exec_bind]
    rcases (impl q).exec h x s with ⟨_ | r, x', s'⟩
    · exact trivial
    · exact ih r x' s'

/-- A procedure with a log of events that are all of the kind `P` makes the requests of one without
a log and has its result. -/
def Mirrors (P : ε → Prop) (f : Proc Q R (List ε) α) (g : Proc Q R Unit α) : Prop :=
  ∀ log, (∀ a ∈ log, P a) →
    Follows (fun r r' => r.1 = r'.1 ∧ ∀ a ∈ r.2, P a) (f log) (g ())

/-- Writes events to the log. -/
def touch (events : List ε) : Proc Q R (List ε) Unit := Proc.update (· ++ events)

section Rules

variable {P : ε → Prop}

theorem Mirrors.pure (a : α) : Mirrors (Q := Q) (R := R) P (pure a) (pure a) :=
  fun _ hl => .ret ⟨rfl, hl⟩

theorem Mirrors.fail : Mirrors P (Proc.fail : Proc Q R (List ε) α) Proc.fail :=
  fun _ hl => .ret ⟨rfl, hl⟩

theorem Mirrors.guard (c : Bool) : Mirrors (Q := Q) (R := R) P (Proc.guard c) (Proc.guard c) := by
  cases c with
  | true => exact Mirrors.pure ()
  | false => exact Mirrors.fail

theorem Mirrors.guard_bind {c : Bool} {f : Unit → Proc Q R (List ε) α} {g : Unit → Proc Q R Unit α}
    (h : c = true → Mirrors P (f ()) (g ())) :
    Mirrors P (Proc.guard c >>= f) (Proc.guard c >>= g) := by
  cases c with
  | true => exact h rfl
  | false => exact fun _ hl => .ret ⟨rfl, hl⟩

theorem Mirrors.orFail (o : Option α) : Mirrors (Q := Q) (R := R) P (Proc.orFail o) (Proc.orFail o) :=
  fun _ hl => .ret ⟨rfl, hl⟩

theorem Mirrors.request (q : Q) : Mirrors (R := R) P (Proc.request q) (Proc.request q) :=
  fun _ hl => .ask q fun _ => .ret ⟨rfl, hl⟩

theorem Mirrors.bind {f : Proc Q R (List ε) α} {g : Proc Q R Unit α}
    {f' : α → Proc Q R (List ε) β} {g' : α → Proc Q R Unit β} (h : Mirrors P f g)
    (h' : ∀ a, Mirrors P (f' a) (g' a)) : Mirrors P (f >>= f') (g >>= g') := by
  intro log hl
  refine (h log hl).bind ?_
  rintro ⟨r, log'⟩ ⟨r', -⟩ ⟨rfl, hl'⟩
  cases r with
  | none => exact .ret ⟨rfl, hl'⟩
  | some a => exact h' a log' hl'

theorem Mirrors.touch {events : List ε} {f : Unit → Proc Q R (List ε) α} {g : Proc Q R Unit α}
    (he : ∀ a ∈ events, P a) (h : Mirrors P (f ()) g) : Mirrors P (IoTrace.touch events >>= f) g := by
  intro log hl
  refine h (log ++ events) fun a ha => ?_
  rcases List.mem_append.mp ha with ha | ha
  · exact hl a ha
  · exact he a ha

end Rules

/-- The events of a procedure, as the result of one without a log. -/
def traced (f : Proc Q R (List ε) α) : Proc Q R Unit (List ε) := fun _ =>
  (f []).bind fun r => .ret (some r.2, ())

theorem lower_result {Q' : Type} {R' : Q' → Type} (impl : (q : Q) → Proc Q' R' μ (R q))
    (h : Handler Q' R' σ) (f : Proc Q R Unit α) (x : μ) (s : σ) :
    ((Proc.lower impl f).exec h x s).1 =
      ((Proc.lowerProg impl (f ())).exec h x s).1.bind fun r => r.1 := by
  rw [Proc.lower, exec_bind]
  rcases (Proc.lowerProg impl (f ())).exec h x s with ⟨_ | r, x', s'⟩ <;> rfl

theorem traced_lowered {Q' : Type} {R' : Q' → Type} {impl : (q : Q) → Proc Q' R' μ (R q)}
    {h : Handler Q' R' σ} {S : List ε → Option β → Prop} {f : Proc Q R (List ε) α}
    {g : Proc Q R Unit β} (hf : Follows (fun r r' => S r.2 r'.1) (f []) (g ())) (x : μ) (s : σ) :
    (((Proc.lower impl (traced f)).exec h x s).1 = none ∧
        ((Proc.lower impl g).exec h x s).1 = none) ∨
      ∃ log, ((Proc.lower impl (traced f)).exec h x s).1 = some log ∧
        S log ((Proc.lower impl g).exec h x s).1 := by
  have hlog : Follows (fun (r : Option (List ε) × Unit) r' => ∃ log, r.1 = some log ∧ S log r'.1)
      (traced f ()) (g ()) := by
    exact hf.map_left fun r r' hs => ⟨r.2, rfl, hs⟩
  have hlow := @Follows.lowered _ _ _ _ _ _ _ _ impl h _ _ _ hlog x s
  rw [lower_result, lower_result]
  generalize ((Proc.lowerProg impl (traced f ())).exec h x s).1 = a at hlow ⊢
  generalize ((Proc.lowerProg impl (g ())).exec h x s).1 = b at hlow ⊢
  cases a with
  | none =>
    cases b with
    | none => exact Or.inl ⟨rfl, rfl⟩
    | some r' => exact hlow.elim
  | some r =>
    cases b with
    | none => exact hlow.elim
    | some r' =>
      obtain ⟨log, hr, hs⟩ := hlow
      exact Or.inr ⟨log, hr, hs⟩

end IoTrace
