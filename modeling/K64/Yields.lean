import Mathlib.Tactic.Common

/-! # What a computation yields

`Yields P x` says that the value of `x` satisfies `P`, if `x` has one. The rules follow the way in which
`x` is put together. -/

variable {ε α β : Type} {P Q : α → Prop}

def Yields (P : α → Prop) (x : Except ε α) : Prop := ∀ a, x = .ok a → P a

namespace Yields

theorem ok {a : α} (h : P a) : Yields P (.ok a : Except ε α) := by
  intro b hb
  rwa [← Except.ok.inj hb]

theorem error (e : ε) : Yields P (.error e) := by
  intro b hb
  cases hb

variable {x : Except ε α}

theorem mono (h : Yields P x) (hPQ : ∀ a, P a → Q a) : Yields Q x :=
  fun a ha => hPQ a (h a ha)

variable {R : β → Prop}

theorem bind {f : α → Except ε β} (hx : Yields P x)
    (hf : ∀ a, P a → Yields R (f a)) : Yields R (x >>= f) := by
  cases x with
  | error e => exact error e
  | ok a => exact hf a (hx a rfl)

theorem following {f : α → Except ε β}
    (hf : ∀ a, Yields R (f a)) : Yields R (x >>= f) :=
  bind (P := fun _ => True) (fun _ _ => trivial) fun a _ => hf a

theorem map {f : α → β} (hx : Yields P x)
    (hf : ∀ a, P a → R (f a)) : Yields R (x.map f) := by
  cases x with
  | error e => exact error e
  | ok a => exact ok (hf a (hx a rfl))

end Yields
