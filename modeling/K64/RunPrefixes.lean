import Mathlib.Data.List.Basic

/-! # Prefixes of a run

A run folds a step over a list of events. An invariant that a guard keeps holds after every prefix whose
steps pass the guard, and a law of the steps that is the guard wherever the invariant holds is kept in a
whole run exactly if the guard is. -/
namespace RunPrefixes

variable {State Event : Type*} {step : State → Event → State} {start : State} {events : List Event}
  {I : State → Prop} {G : State → Event → Prop}

theorem foldl_take_succ {n : ℕ} {e : Event} (he : events[n]? = some e) :
    (events.take (n + 1)).foldl step start = step ((events.take n).foldl step start) e := by
  rw [List.take_add_one, he, List.foldl_append]
  rfl

theorem foldl_take_end {n : ℕ} (he : events[n]? = none) :
    (events.take (n + 1)).foldl step start = (events.take n).foldl step start := by
  rw [List.take_add_one, he, Option.toList_none, List.append_nil]

theorem invariant_of_guarded (hstart : I start)
    (hstep : ∀ s e, I s → G s e → I (step s e)) {n : ℕ}
    (hg : ∀ m < n, ∀ e, events[m]? = some e → G ((events.take m).foldl step start) e) :
    I ((events.take n).foldl step start) := by
  induction n with
  | zero => exact hstart
  | succ n ih =>
    have hbefore := ih fun m hm => hg m (Nat.lt_succ_of_lt hm)
    rcases he : events[n]? with _ | e
    · rwa [foldl_take_end he]
    · rw [foldl_take_succ he]
      exact hstep _ e hbefore (hg n (Nat.lt_succ_self n) e he)

theorem law_iff_guarded (step : State → Event → State) (law : State → Event → Prop)
    (hstart : I start) (hstep : ∀ s e, I s → G s e → I (step s e))
    (hlaw : ∀ s e, I s → (law s e ↔ G s e)) :
    (∀ n e, events[n]? = some e → law ((events.take n).foldl step start) e) ↔
      ∀ n e, events[n]? = some e → G ((events.take n).foldl step start) e := by
  constructor
  · intro hl n
    induction n using Nat.strongRecOn with
    | _ n ih =>
      intro e he
      exact (hlaw _ e (invariant_of_guarded hstart hstep ih)).mp (hl n e he)
  · intro hg n e he
    exact (hlaw _ e (invariant_of_guarded hstart hstep fun m _ => hg m)).mpr (hg n e he)

theorem forall_prefix_iff {holds : State → Prop} (hstart : holds start) :
    (∀ n, holds ((events.take n).foldl step start)) ↔
      ∀ n e, events[n]? = some e → holds (step ((events.take n).foldl step start) e) := by
  constructor
  · intro h n e he
    have hnext := h (n + 1)
    rwa [foldl_take_succ he] at hnext
  · intro h n
    induction n with
    | zero => exact hstart
    | succ n ih =>
      rcases he : events[n]? with _ | e
      · rwa [foldl_take_end he]
      · rw [foldl_take_succ he]
        exact h n e he

end RunPrefixes
