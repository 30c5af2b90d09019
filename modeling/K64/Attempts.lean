import Mathlib.Tactic.Common

/-! # Attempts

A computation over a state that may stop half way; what it changed up to there stays changed. A
condition is kept by an attempt when it holds afterwards wherever the attempt stopped. -/
namespace Attempts

/-- The result, if the computation got there, and the state that it leaves. -/
def Attempt (σ α : Type) : Type := σ → Option α × σ

namespace Attempt

variable {σ α β : Type}

instance : Monad (Attempt σ) where
  pure a := fun s => (some a, s)
  bind x f := fun s =>
    match x s with
    | (some a, t) => f a t
    | (none, t) => (none, t)

def stop : Attempt σ α := fun s => (none, s)

def state : Attempt σ σ := fun s => (some s, s)

def change (f : σ → σ) : Attempt σ Unit := fun s => (some (), f s)

def require (b : Bool) : Attempt σ Unit := fun s => (if b then some () else none, s)

/-- Goes on behind a failure. -/
def tried (x : Attempt σ α) : Attempt σ (Option α) := fun s => (some (x s).1, (x s).2)

variable {x : Attempt σ α} {f : α → Attempt σ β}

theorem bind_of_some {s t : σ} {a : α}
    (h : x s = (some a, t)) : (x >>= f) s = f a t := by
  change (match x s with
    | (some a, t) => f a t
    | (none, t) => (none, t)) = f a t
  rw [h]

theorem bind_of_none {s t : σ} (h : x s = (none, t)) :
    (x >>= f) s = (none, t) := by
  change (match x s with
    | (some a, t) => f a t
    | (none, t) => (none, t)) = (none, t)
  rw [h]

theorem bind_some {s t : σ} {b : β}
    (h : (x >>= f) s = (some b, t)) : ∃ a s', x s = (some a, s') ∧ f a s' = (some b, t) := by
  rcases hrun : x s with ⟨_ | a, s'⟩
  · rw [bind_of_none hrun] at h
    cases h
  · rw [bind_of_some hrun] at h
    exact ⟨a, s', rfl, h⟩

theorem forM_append_of_some {l l' : List α} {f : α → Attempt σ PUnit} {s t : σ}
    (h : l.forM f s = (some ⟨⟩, t)) : (l ++ l').forM f s = l'.forM f t := by
  induction l generalizing s with
  | nil =>
    obtain rfl : s = t := congrArg Prod.snd h
    rfl
  | cons a l ih =>
    obtain ⟨b, s', ha, hl⟩ := bind_some h
    exact (bind_of_some ha).trans (ih hl)

instance : LawfulMonad (Attempt σ) :=
  LawfulMonad.mk' _
    (fun x => funext fun s => by
      rcases hrun : x s with ⟨_ | a, t⟩
      · exact bind_of_none hrun
      · exact bind_of_some hrun)
    (fun _ _ => rfl)
    (fun x f g => funext fun s => by
      rcases hrun : x s with ⟨_ | a, t⟩
      · rw [bind_of_none hrun, bind_of_none (bind_of_none hrun)]
      · rw [bind_of_some hrun]
        change (match (x >>= f) s with
          | (some b, t) => g b t
          | (none, t) => (none, t)) = _
        rw [bind_of_some hrun]
        rfl)

def Keeps (P : σ → Prop) (x : Attempt σ α) : Prop := ∀ s, P s → P (x s).2

variable {P : σ → Prop}

theorem keeps_pure (a : α) : Keeps P (pure a : Attempt σ α) := fun _ h => h

theorem keeps_stop : Keeps P (stop : Attempt σ α) := fun _ h => h

theorem keeps_state : Keeps P (state : Attempt σ σ) := fun _ h => h

theorem keeps_require (b : Bool) : Keeps P (require b : Attempt σ Unit) := fun _ h => h

theorem keeps_change {f : σ → σ} (h : ∀ s, P s → P (f s)) : Keeps P (change f) := h

theorem Keeps.tried (h : Keeps P x) : Keeps P x.tried := h

theorem Keeps.bind (hx : Keeps P x)
    (hf : ∀ a, Keeps P (f a)) : Keeps P (x >>= f) := by
  intro s hs
  have hmid := hx s hs
  rcases hrun : x s with ⟨_ | a, t⟩
  · rw [hrun] at hmid
    rw [bind_of_none hrun]
    exact hmid
  · rw [hrun] at hmid
    rw [bind_of_some hrun]
    exact hf a t hmid

theorem keeps_forM {l : List α} {f : α → Attempt σ PUnit} (hf : ∀ a ∈ l, Keeps P (f a)) :
    Keeps P (l.forM f) := by
  induction l with
  | nil => exact keeps_pure _
  | cons a l ih =>
    have hrest := ih fun b hb => hf b (List.mem_cons_of_mem a hb)
    exact (hf a List.mem_cons_self).bind fun _ => hrest

theorem keeps_foldlM {l : List α} {f : β → α → Attempt σ β} (hf : ∀ b, ∀ a ∈ l, Keeps P (f b a)) :
    ∀ b, Keeps P (l.foldlM f b) := by
  induction l with
  | nil => exact fun b => keeps_pure b
  | cons a l ih =>
    intro b
    rw [List.foldlM_cons]
    apply (hf b a List.mem_cons_self).bind
    exact ih fun c d hd => hf c d (List.mem_cons_of_mem a hd)

end Attempt

end Attempts
