import Mathlib.Logic.Function.Basic
import Mathlib.Data.List.Induction
import Mathlib.Tactic.Common

/-! # Sequences of writes to an array of blocks

A store that takes whole blocks is a function, and a sequence of writes changes it one block at a
time. What a run leaves behind does not depend on the blocks it overwrites, so a run may be started
again after any of its writes. -/
namespace BlockWrites

variable {ι β : Type} [DecidableEq ι]

/-- The store `c` after the writes `ws`, first to last. -/
def written (c : ι → β) (ws : List (ι × β)) : ι → β :=
  ws.foldl (fun c w => Function.update c w.1 w.2) c

variable (c : ι → β)

@[simp] theorem written_nil : written c [] = c := rfl

theorem written_cons (w : ι × β) (ws : List (ι × β)) :
    written c (w :: ws) = written (Function.update c w.1 w.2) ws := rfl

theorem written_append (ws ws' : List (ι × β)) :
    written c (ws ++ ws') = written (written c ws) ws' := List.foldl_append

theorem written_concat (ws : List (ι × β)) (w : ι × β) :
    written c (ws ++ [w]) = Function.update (written c ws) w.1 w.2 := by
  rw [written_append]
  rfl

variable (ws : List (ι × β))

theorem written_of_notMem {n : ι} : ∀ c : ι → β, n ∉ ws.map Prod.fst →
    written c ws n = c n := by
  induction ws with
  | nil => exact fun _ _ => rfl
  | cons w ws ih =>
    intro c hn
    rw [List.map_cons, List.mem_cons, not_or] at hn
    rw [written_cons, ih _ hn.2, Function.update_of_ne hn.1]

theorem written_of_mem {n : ι} : ∀ c c' : ι → β, n ∈ ws.map Prod.fst →
    written c ws n = written c' ws n := by
  induction ws using List.reverseRecOn with
  | nil =>
    intro _ _ hn
    exact absurd hn List.not_mem_nil
  | append_singleton ws w ih =>
    intro c c' hn
    rw [written_concat, written_concat]
    by_cases hw : n = w.1
    · rw [hw, Function.update_self, Function.update_self]
    · rw [Function.update_of_ne hw, Function.update_of_ne hw]
      refine ih c c' ?_
      rw [List.map_append, List.mem_append] at hn
      refine hn.resolve_right fun hmem => hw ?_
      rw [List.map_singleton, List.mem_singleton] at hmem
      exact hmem

theorem written_again {ws ws' : List (ι × β)}
    (h : ∀ n ∈ ws.map Prod.fst, n ∈ ws'.map Prod.fst) :
    written (written c ws) ws' = written c ws' := by
  funext n
  by_cases hn : n ∈ ws'.map Prod.fst
  · exact written_of_mem ws' _ _ hn
  · rw [written_of_notMem ws' _ hn, written_of_notMem ws' _ hn,
      written_of_notMem ws _ fun hmem => hn (h n hmem)]

theorem written_const {n : ι} {b : β} (h : ∀ w ∈ ws, w.1 = n → w.2 = b) :
    ∀ c : ι → β, n ∈ ws.map Prod.fst → written c ws n = b := by
  induction ws using List.reverseRecOn with
  | nil =>
    intro _ hn
    exact absurd hn List.not_mem_nil
  | append_singleton ws w ih =>
    intro c hn
    rw [written_concat]
    by_cases hw : n = w.1
    · rw [hw, Function.update_self]
      exact h w (by simp) hw.symm
    · rw [Function.update_of_ne hw]
      refine ih (fun v hv => h v (List.mem_append_left _ hv)) c ?_
      rw [List.map_append, List.mem_append] at hn
      refine hn.resolve_right fun hmem => hw ?_
      rw [List.map_singleton, List.mem_singleton] at hmem
      exact hmem

end BlockWrites
