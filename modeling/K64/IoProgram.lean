import Mathlib.Tactic.Common

/-! # Programs that talk to a device

A program is a tree of requests and continuations, so its meaning is fixed only once a handler
answers the requests. One handler may be a concrete machine and another an idealised store;
`wp_sim` carries every property of the second run over to the first. The condition `C` of a
weakest precondition is checked at every request, before it is answered: it is a guard for an
idealised store and a crash condition for a machine. -/
namespace IoProgram

inductive Prog (Q : Type) (R : Q → Type) (α : Type) where
  | ret (a : α)
  | ask (q : Q) (k : R q → Prog Q R α)

abbrev Handler (Q : Type) (R : Q → Type) (σ : Type) := (q : Q) → σ → R q × σ

variable {Q : Type} {R : Q → Type} {α β σ τ μ : Type}

namespace Prog

def bind : Prog Q R α → (α → Prog Q R β) → Prog Q R β
  | ret a, g => g a
  | ask q k, g => ask q fun r => (k r).bind g

def run (h : Handler Q R σ) : Prog Q R α → σ → α × σ
  | ret a, s => (a, s)
  | ask q k, s => (k (h q s).1).run h (h q s).2

/-- Every request meets `C` in the state it is issued in, and the result meets `P`. -/
def wp (h : Handler Q R σ) (C : Q → σ → Prop) : Prog Q R α → (α → σ → Prop) → σ → Prop
  | ret a, P, s => P a s
  | ask q k, P, s => C q s ∧ (k (h q s).1).wp h C P (h q s).2

theorem run_bind (h : Handler Q R σ) (p : Prog Q R α) (g : α → Prog Q R β) (s : σ) :
    (p.bind g).run h s = (g (p.run h s).1).run h (p.run h s).2 := by
  induction p generalizing s with
  | ret a => rfl
  | ask q k ih => exact ih _ _

variable (p : Prog Q R α)

theorem wp_bind {h : Handler Q R σ} {C : Q → σ → Prop}
    (g : α → Prog Q R β) (P : β → σ → Prop) (s : σ) :
    (p.bind g).wp h C P s ↔ p.wp h C (fun a t => (g a).wp h C P t) s := by
  induction p generalizing s with
  | ret a => rfl
  | ask q k ih => exact and_congr_right fun _ => ih _ _

variable {P : α → σ → Prop}

theorem wp_mono {h : Handler Q R σ} {C D : Q → σ → Prop} {P' : α → σ → Prop}
    (hc : ∀ q s, C q s → D q s) (hp : ∀ a s, P a s → P' a s) (p : Prog Q R α) {s : σ}
    (hw : p.wp h C P s) : p.wp h D P' s := by
  induction p generalizing s with
  | ret a => exact hp a s hw
  | ask q k ih => exact ⟨hc q s hw.1, ih _ hw.2⟩

theorem wp_and {h : Handler Q R σ} {C : Q → σ → Prop} {P' : α → σ → Prop}
    {s : σ} (hw : p.wp h C P s) (hw' : p.wp h C P' s) :
    p.wp h C (fun a t => P a t ∧ P' a t) s := by
  induction p generalizing s with
  | ret a => exact ⟨hw, hw'⟩
  | ask q k ih => exact ⟨hw.1, ih _ hw.2 hw'.2⟩

theorem wp_keeps {h : Handler Q R σ} {C : Q → σ → Prop} {I : σ → Prop}
    (hi : ∀ q s, I s → I (h q s).2) (p : Prog Q R α) {s : σ} (hs : I s) (hw : p.wp h C P s) :
    p.wp h C (fun a t => P a t ∧ I t) s := by
  induction p generalizing s with
  | ret a => exact ⟨hw, hs⟩
  | ask q k ih => exact ⟨hw.1, ih _ (hi q s hs) hw.2⟩

theorem wp_run {h : Handler Q R σ} {C : Q → σ → Prop}
    {s : σ} (hw : p.wp h C P s) : P (p.run h s).1 (p.run h s).2 := by
  induction p generalizing s with
  | ret a => exact hw
  | ask q k ih => exact ih _ hw.2

theorem wp_sim {h : Handler Q R σ} {h' : Handler Q R τ} {C : Q → τ → Prop}
    {D : Q → σ → Prop} {S : σ → τ → Prop} {P : α → τ → Prop}
    (hstep : ∀ q s t, S s t → C q t →
      D q s ∧ (h q s).1 = (h' q t).1 ∧ S (h q s).2 (h' q t).2)
    (p : Prog Q R α) {s : σ} {t : τ} (hs : S s t) (hw : p.wp h' C P t) :
    p.wp h D (fun a s' => ∃ t', S s' t' ∧ P a t') s := by
  induction p generalizing s t with
  | ret a => exact ⟨t, hs, hw⟩
  | ask q k ih =>
    obtain ⟨hd, ha, hn⟩ := hstep q s t hs hw.1
    refine ⟨hd, ?_⟩
    rw [ha]
    exact ih _ hn hw.2

end Prog

/-! ## Procedures with memory and failure

A procedure works on a memory `μ` besides the device. Answering `none` is the `return false` of
a C function: what it did to the memory and the device stays done. -/

def Proc (Q : Type) (R : Q → Type) (μ α : Type) := μ → Prog Q R (Option α × μ)

namespace Proc

instance : Monad (Proc Q R μ) where
  pure a := fun x => .ret (some a, x)
  bind f g := fun x => (f x).bind fun r =>
    match r.1 with
    | some a => g a r.2
    | none => .ret (none, r.2)

def fail : Proc Q R μ α := fun x => .ret (none, x)

def load : Proc Q R μ μ := fun x => .ret (some x, x)

def update (f : μ → μ) : Proc Q R μ Unit := fun x => .ret (some (), f x)

def request (q : Q) : Proc Q R μ (R q) := fun x => .ask q fun r => .ret (some r, x)

/-- Runs `f` and reports its failure instead of passing it on. -/
def attempt (f : Proc Q R μ α) : Proc Q R μ (Option α) := fun x =>
  (f x).bind fun r => .ret (some r.1, r.2)

def orFail (o : Option α) : Proc Q R μ α := fun x => .ret (o, x)

def guard (c : Bool) : Proc Q R μ Unit := if c then pure () else fail

/-- Runs `body` for `n` counter values from `i` on. -/
def loop (body : ℕ → Proc Q R μ Unit) : ℕ → ℕ → Proc Q R μ Unit
  | _, 0 => pure ()
  | i, n + 1 => do
    body i
    loop body (i + 1) n

def exec (h : Handler Q R σ) (f : Proc Q R μ α) (x : μ) (s : σ) : Option α × μ × σ :=
  let r := (f x).run h s
  (r.1.1, r.1.2, r.2)

def wp (h : Handler Q R σ) (C : Q → σ → Prop) (f : Proc Q R μ α)
    (P : Option α → μ → σ → Prop) (x : μ) (s : σ) : Prop :=
  (f x).wp h C (fun r t => P r.1 r.2 t) s

variable {h : Handler Q R σ} {C : Q → σ → Prop} {x : μ} {s : σ}

@[simp] theorem wp_pure (a : α) (P : Option α → μ → σ → Prop) :
    wp h C (pure a : Proc Q R μ α) P x s ↔ P (some a) x s := Iff.rfl

@[simp] theorem wp_fail (P : Option α → μ → σ → Prop) :
    wp h C (fail : Proc Q R μ α) P x s ↔ P none x s := Iff.rfl

@[simp] theorem wp_load (P : Option μ → μ → σ → Prop) :
    wp h C (load : Proc Q R μ μ) P x s ↔ P (some x) x s := Iff.rfl

@[simp] theorem wp_update (f : μ → μ) (P : Option Unit → μ → σ → Prop) :
    wp h C (update f : Proc Q R μ Unit) P x s ↔ P (some ()) (f x) s := Iff.rfl

@[simp] theorem wp_request (q : Q) (P : Option (R q) → μ → σ → Prop) :
    wp h C (request q : Proc Q R μ (R q)) P x s ↔
      C q s ∧ P (some (h q s).1) x (h q s).2 := Iff.rfl

@[simp] theorem wp_attempt (f : Proc Q R μ α) (P : Option (Option α) → μ → σ → Prop) :
    wp h C f.attempt P x s ↔ wp h C f (fun r x' s' => P (some r) x' s') x s :=
  Prog.wp_bind _ _ _ _

@[simp] theorem wp_guard (c : Bool) (P : Option Unit → μ → σ → Prop) :
    wp h C (guard c : Proc Q R μ Unit) P x s ↔
      if c then P (some ()) x s else P none x s := by
  cases c <;> rfl

@[simp] theorem wp_orFail (o : Option α) (P : Option α → μ → σ → Prop) :
    wp h C (orFail o : Proc Q R μ α) P x s ↔ P o x s := Iff.rfl

/-- What a sequence has to establish after its first part answered `r`. -/
def wpNext (h : Handler Q R σ) (C : Q → σ → Prop) (g : α → Proc Q R μ β)
    (P : Option β → μ → σ → Prop) : Option α → μ → σ → Prop
  | some a, x, s => wp h C (g a) P x s
  | none, x, s => P none x s

@[simp] theorem wpNext_some (g : α → Proc Q R μ β) (P : Option β → μ → σ → Prop) (a : α) :
    wpNext h C g P (some a) x s ↔ wp h C (g a) P x s := Iff.rfl

@[simp] theorem wpNext_none (g : α → Proc Q R μ β) (P : Option β → μ → σ → Prop) :
    wpNext h C g P none x s ↔ P none x s := Iff.rfl

@[simp] theorem wp_bind (f : Proc Q R μ α) (g : α → Proc Q R μ β)
    (P : Option β → μ → σ → Prop) :
    wp h C (f >>= g) P x s ↔ wp h C f (wpNext h C g P) x s := by
  refine (Prog.wp_bind _ _ _ _).trans ?_
  unfold wp
  have heq : (fun (r : Option α × μ) t => Prog.wp h C
      (match r.1 with | some a => g a r.2 | none => .ret (none, r.2))
      (fun r t => P r.1 r.2 t) t) = fun r t => wpNext h C g P r.1 r.2 t := by
    funext r t
    rcases r with ⟨_ | a, x'⟩ <;> rfl
  rw [heq]

@[simp] theorem wp_ite (c : Prop) [Decidable c] (f g : Proc Q R μ α)
    (P : Option α → μ → σ → Prop) :
    wp h C (if c then f else g) P x s ↔ if c then wp h C f P x s else wp h C g P x s := by
  split <;> rfl

variable {P : Option α → μ → σ → Prop} {f : Proc Q R μ α}

theorem wp_any (hp : ∀ r x' s', P r x' s') :
    wp h (fun _ _ => True) f P x s := by
  unfold wp
  generalize f x = p
  induction p generalizing s with
  | ret r => exact hp r.1 r.2 s
  | ask q k ih => exact ⟨trivial, ih _⟩

theorem wp_mono {P' : Option α → μ → σ → Prop}
    (hw : wp h C f P x s) (hp : ∀ r x' s', P r x' s' → P' r x' s') : wp h C f P' x s :=
  Prog.wp_mono (fun _ _ hc => hc) (fun _ _ => hp _ _ _) _ hw

theorem wp_and {P' : Option α → μ → σ → Prop} (hw : wp h C f P x s)
    (hw' : wp h C f P' x s) : wp h C f (fun r x' s' => P r x' s' ∧ P' r x' s') x s :=
  Prog.wp_and _ hw hw'

theorem wp_seq {g : α → Proc Q R μ β} {M : Option α → μ → σ → Prop}
    {P : Option β → μ → σ → Prop} (hf : wp h C f M x s)
    (hn : ∀ x' s', M none x' s' → P none x' s')
    (hs : ∀ a x' s', M (some a) x' s' → wp h C (g a) P x' s') :
    wp h C (f >>= g) P x s := by
  rw [wp_bind]
  refine wp_mono hf fun r x' s' hm => ?_
  cases r with
  | none => exact hn x' s' hm
  | some a => exact hs a x' s' hm

/-- The invariant rule: `I` holds at every counter value, `F` where a turn failed. -/
theorem wp_loop {f : ℕ → Proc Q R μ Unit} {I : ℕ → μ → σ → Prop} {F : μ → σ → Prop} (n : ℕ) :
    ∀ i x s, I i x s →
    (∀ j x' s', i ≤ j → j < i + n → I j x' s' → wp h C (f j)
      (fun r x'' s'' => if r.isSome then I (j + 1) x'' s'' else F x'' s'') x' s') →
    wp h C (loop f i n)
      (fun r x' s' => if r.isSome then I (i + n) x' s' else F x' s') x s := by
  induction n with
  | zero => exact fun i x s hi _ => by simpa [loop] using hi
  | succ n ih =>
    intro i x s hi hb
    rw [loop]
    refine wp_seq (hb i x s (Nat.le_refl i) (by omega) hi) (fun x' s' hm => by simpa using hm) ?_
    intro _ x' s' hm
    have hrest := ih (i + 1) x' s' (by simpa using hm)
      (fun j x'' s'' hj hj' hI => hb j x'' s'' (by omega) (by omega) hI)
    rwa [show i + 1 + n = i + (n + 1) by omega] at hrest

theorem wp_exec (hw : wp h C f P x s) :
    P (f.exec h x s).1 (f.exec h x s).2.1 (f.exec h x s).2.2 :=
  Prog.wp_run _ hw

theorem wp_sim {h' : Handler Q R τ} {C : Q → τ → Prop} {D : Q → σ → Prop}
    {S : σ → τ → Prop} {P : Option α → μ → τ → Prop} {t : τ}
    (hstep : ∀ q s t, S s t → C q t →
      D q s ∧ (h q s).1 = (h' q t).1 ∧ S (h q s).2 (h' q t).2)
    (hs : S s t) (hw : wp h' C f P x t) :
    wp h D f (fun r x' s' => ∃ t', S s' t' ∧ P r x' t') x s :=
  Prog.wp_sim hstep _ hs hw

/-! ## Layers

A procedure over the calls of an upper layer becomes one over the requests below, once every call
has an implementation. -/

section Lower

variable {Q' : Type} {R' : Q' → Type} {C' : Q' → τ → Prop}

def lowerProg (impl : (q : Q') → Proc Q R μ (R' q)) : Prog Q' R' β → Proc Q R μ β
  | .ret b => pure b
  | .ask q k => do
    let r ← impl q
    lowerProg impl (k r)

def lower (impl : (q : Q') → Proc Q R μ (R' q)) (f : Proc Q' R' Unit α) : Proc Q R μ α := do
  let r ← lowerProg impl (f ())
  orFail r.1

/-- The implementation of `q` answers as `h'` does and keeps the two layers related. -/
def Implements (h : Handler Q R σ) (C : Q → σ → Prop) (h' : Handler Q' R' τ)
    (C' : Q' → τ → Prop) (S : μ → σ → τ → Prop) (q : Q') (f : Proc Q R μ (R' q)) : Prop :=
  ∀ x s t, S x s t → C' q t →
    wp h C f (fun r x' s' => r = some (h' q t).1 ∧ S x' s' (h' q t).2) x s

theorem wp_lowerProg {h' : Handler Q' R' τ} {S : μ → σ → τ → Prop}
    {impl : (q : Q') → Proc Q R μ (R' q)} (hi : ∀ q, Implements h C h' C' S q (impl q))
    {P : β → τ → Prop} (p : Prog Q' R' β) {x : μ} {s : σ} {t : τ} (hs : S x s t)
    (hw : p.wp h' C' P t) :
    wp h C (lowerProg impl p) (fun r x' s' => ∃ b t', r = some b ∧ S x' s' t' ∧ P b t') x s := by
  induction p generalizing x s t with
  | ret b => exact ⟨b, t, rfl, hs, hw⟩
  | ask q k ih =>
    refine wp_seq (hi q x s t hs hw.1) (by simp) ?_
    rintro a x' s' ⟨ha, hs'⟩
    obtain rfl := Option.some.inj ha
    exact ih _ hs' hw.2

theorem wp_lower {h' : Handler Q' R' τ} {S : μ → σ → τ → Prop}
    {impl : (q : Q') → Proc Q R μ (R' q)} (hi : ∀ q, Implements h C h' C' S q (impl q))
    {P : Option α → τ → Prop} {f : Proc Q' R' Unit α} {t : τ} (hs : S x s t)
    (hw : wp h' C' f (fun r _ t' => P r t') () t) :
    wp h C (lower impl f) (fun r x' s' => ∃ t', S x' s' t' ∧ P r t') x s := by
  refine wp_seq (wp_lowerProg hi _ hs hw) (by simp) ?_
  rintro a x' s' ⟨b, t', hb, hs', hp⟩
  obtain rfl := Option.some.inj hb
  exact ⟨t', hs', hp⟩

end Lower

end Proc

end IoProgram
