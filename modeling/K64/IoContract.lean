import K64.IoProgram

/-! # Contracts of programs

A contract says what a program owes with each request and what it is owed with the answer. A program
that meets it keeps every invariant of every handler that honours it, however the requests fail. -/
namespace IoContract

open IoProgram

variable {Q : Type} {R : Q → Type} {α β μ σ : Type}

structure Contract (Q : Type) (R : Q → Type) where
  asks : Q → Prop
  answers : (q : Q) → R q → Prop

/-- As long as the answers are as agreed, so are all requests, and the result meets `P`. -/
def Prog.Meets (c : Contract Q R) (P : α → Prop) : Prog Q R α → Prop
  | .ret a => P a
  | .ask q k => c.asks q ∧ ∀ r, c.answers q r → Prog.Meets c P (k r)

variable {c : Contract Q R}

theorem Prog.Meets.bind {P : α → Prop} {S : β → Prop} {p : Prog Q R α} {g : α → Prog Q R β}
    (hp : Prog.Meets c P p) (hg : ∀ a, P a → Prog.Meets c S (g a)) :
    Prog.Meets c S (p.bind g) := by
  induction p with
  | ret a => exact hg a hp
  | ask q k ih => exact ⟨hp.1, fun r hr => ih r (hp.2 r hr)⟩

/-- A procedure that keeps `M` of its memory; `P` is said of the answers other than failure. -/
def Proc.Meets (c : Contract Q R) (M : μ → Prop) (P : α → Prop) (f : Proc Q R μ α) : Prop :=
  ∀ x, M x → Prog.Meets c (fun r => M r.2 ∧ ∀ a, r.1 = some a → P a) (f x)

variable {M : μ → Prop} {P : α → Prop} {S : β → Prop}

theorem meets_pure {a : α} (h : P a) : Proc.Meets c M P (pure a) :=
  fun _ hx => ⟨hx, fun _ hb => Option.some.inj hb ▸ h⟩

theorem meets_fail : Proc.Meets c M P (Proc.fail : Proc Q R μ α) :=
  fun _ hx => ⟨hx, fun _ hb => nomatch hb⟩

theorem meets_load : Proc.Meets c M M (Proc.load : Proc Q R μ μ) :=
  fun _ hx => ⟨hx, fun _ hb => Option.some.inj hb ▸ hx⟩

theorem meets_update {f : μ → μ} (h : ∀ x, M x → M (f x)) :
    Proc.Meets c M (fun _ => True) (Proc.update f : Proc Q R μ Unit) :=
  fun x hx => ⟨h x hx, fun _ _ => trivial⟩

theorem meets_request {q : Q} (h : c.asks q) :
    Proc.Meets c M (c.answers q) (Proc.request q : Proc Q R μ (R q)) :=
  fun _ hx => ⟨h, fun _ hr => ⟨hx, fun _ hb => Option.some.inj hb ▸ hr⟩⟩

theorem meets_orFail {o : Option α} (h : ∀ a, o = some a → P a) :
    Proc.Meets c M P (Proc.orFail o : Proc Q R μ α) := fun _ hx => ⟨hx, h⟩

theorem meets_guard {b : Bool} :
    Proc.Meets c M (fun _ => b = true) (Proc.guard b : Proc Q R μ Unit) := by
  cases b with
  | true => exact meets_pure rfl
  | false => exact meets_fail

variable {f : Proc Q R μ α}

theorem Proc.Meets.bind {g : α → Proc Q R μ β} (hf : Proc.Meets c M P f)
    (hg : ∀ a, P a → Proc.Meets c M S (g a)) : Proc.Meets c M S (f >>= g) := by
  intro x hx
  apply Prog.Meets.bind (hf x hx)
  intro ⟨o, y⟩ ⟨hy, ho⟩
  cases o with
  | none => exact ⟨hy, fun _ hb => nomatch hb⟩
  | some a => exact hg a (ho a rfl) y hy

theorem Proc.Meets.mono {T : α → Prop} (hf : Proc.Meets c M P f)
    (h : ∀ a, P a → T a) : Proc.Meets c M T f := by
  intro x hx
  have hp := hf x hx
  generalize f x = p at hp
  induction p with
  | ret r => exact ⟨hp.1, fun a ha => h a (hp.2 a ha)⟩
  | ask q k ih => exact ⟨hp.1, fun r hr => ih r (hp.2 r hr)⟩

theorem Proc.Meets.attempt (hf : Proc.Meets c M P f) :
    Proc.Meets c M (fun o => ∀ a, o = some a → P a) f.attempt := by
  intro x hx
  apply Prog.Meets.bind (hf x hx)
  intro ⟨o, y⟩ ⟨hy, ho⟩
  exact ⟨hy, fun _ hb => Option.some.inj hb ▸ ho⟩

theorem meets_loop {body : ℕ → Proc Q R μ Unit} (n : ℕ) : ∀ i,
    (∀ j, i ≤ j → j < i + n → Proc.Meets c M (fun _ => True) (body j)) →
    Proc.Meets c M (fun _ => True) (Proc.loop body i n) := by
  induction n with
  | zero => exact fun i _ => meets_pure trivial
  | succ n ih =>
    intro i hbody
    rw [Proc.loop]
    apply (hbody i (Nat.le_refl i) (by omega)).bind
    intro _ _
    exact ih (i + 1) fun j h1 h2 => hbody j (by omega) (by omega)

section Lower

variable {Q' : Type} {R' : Q' → Type} {c' : Contract Q' R'} {impl : (q : Q') → Proc Q R μ (R' q)}

theorem meets_lowerProg (hi : ∀ q, c'.asks q → Proc.Meets c M (c'.answers q) (impl q))
    {p : Prog Q' R' β} (hp : Prog.Meets c' S p) : Proc.Meets c M S (Proc.lowerProg impl p) := by
  induction p with
  | ret b => exact meets_pure hp
  | ask q k ih =>
    apply (hi q hp.1).bind
    exact fun r hr => ih r (hp.2 r hr)

theorem Proc.Meets.lower (hi : ∀ q, c'.asks q → Proc.Meets c M (c'.answers q) (impl q))
    {f : Proc Q' R' Unit α} (hf : Proc.Meets c' (fun _ => True) P f) :
    Proc.Meets c M P (Proc.lower impl f) := by
  apply (meets_lowerProg hi (hf () trivial)).bind
  exact fun r hr => meets_orFail hr.2

end Lower

/-- A handler that keeps `I` and answers as agreed. -/
def Honours (c : Contract Q R) (h : Handler Q R σ) (I : σ → Prop) : Prop :=
  ∀ q s, I s → c.asks q → c.answers q (h q s).1 ∧ I (h q s).2

variable {h : Handler Q R σ} {I : σ → Prop}

theorem Prog.Meets.run (hh : Honours c h I) {p : Prog Q R α}
    (hp : Prog.Meets c P p) : ∀ {s}, I s → P (p.run h s).1 ∧ I (p.run h s).2 := by
  induction p with
  | ret a => exact fun hs => ⟨hp, hs⟩
  | ask q k ih =>
    intro s hs
    obtain ⟨hans, hnext⟩ := hh q s hs hp.1
    exact ih _ (hp.2 _ hans) hnext

theorem Proc.Meets.exec (hh : Honours c h I) (hf : Proc.Meets c M P f) {x : μ} {s : σ} (hx : M x)
    (hs : I s) :
    (∀ a, (f.exec h x s).1 = some a → P a) ∧ M (f.exec h x s).2.1 ∧ I (f.exec h x s).2.2 := by
  obtain ⟨⟨hm, hp⟩, hi⟩ := Prog.Meets.run hh (hf x hx) hs
  exact ⟨hp, hm, hi⟩

theorem Proc.Meets.wp (hh : Honours c h I) (hf : Proc.Meets c M P f) {x : μ} {s : σ} (hx : M x) (hs : I s) :
    Proc.wp h (fun _ _ => True) f (fun r x' s' => (∀ a, r = some a → P a) ∧ M x' ∧ I s') x s := by
  have hp := hf x hx
  unfold Proc.wp
  generalize f x = p at hp
  induction p generalizing s with
  | ret r => exact ⟨hp.2, hp.1, hs⟩
  | ask q k ih =>
    obtain ⟨hans, hnext⟩ := hh q s hs hp.1
    exact ⟨trivial, ih _ hnext (hp.2 _ hans)⟩

end IoContract
