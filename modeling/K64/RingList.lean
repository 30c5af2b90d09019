import Mathlib.Data.List.Basic
import Mathlib.Logic.Function.Basic

/-! # Rings of links

Members that each link to the next one, the last to the first, and loops that go once around. -/
namespace RingList

variable {α σ : Type} {next next' : α → α} {start c t z : α} {l : List α}

/-- Each member links to the one behind it, the last one to `z`. -/
def Linked (next : α → α) : List α → α → Prop
  | [], _ => True
  | a :: l, z => next a = l.head?.getD z ∧ Linked next l z

structure Ring (next : α → α) (start : α) (l : List α) : Prop where
  first : l.head? = some start
  linked : Linked next l start
  nodup : l.Nodup

theorem linked_append (l l' : List α) : Linked next (l ++ l') z ↔
    Linked next l (l'.head?.getD z) ∧ Linked next l' z := by
  induction l with
  | nil => simp [Linked]
  | cons a l ih =>
    have hhead : (l ++ l').head?.getD z = l.head?.getD (l'.head?.getD z) := by
      cases l <;> rfl
    rw [List.cons_append, Linked, Linked, ih, hhead, and_assoc]

theorem linked_congr (h : ∀ a ∈ l, next' a = next a) : Linked next l z → Linked next' l z := by
  induction l with
  | nil => exact id
  | cons a l ih =>
    intro ⟨ha, hl⟩
    exact ⟨(h a List.mem_cons_self).trans ha, ih (fun b hb => h b (List.mem_cons_of_mem a hb)) hl⟩

theorem Ring.congr (h : Ring next start l) (hn : ∀ a ∈ l, next' a = next a) :
    Ring next' start l := ⟨h.first, linked_congr hn h.linked, h.nodup⟩

theorem Ring.start_mem (h : Ring next start l) : start ∈ l := List.mem_of_mem_head? h.first

theorem Ring.next_mem (h : Ring next start l) (hc : c ∈ l) : next c ∈ l := by
  obtain ⟨pre, post, rfl⟩ := List.append_of_mem hc
  have hlink := ((linked_append _ _).mp h.linked).2.1
  rw [hlink]
  cases post with
  | nil => exact h.start_mem
  | cons a post => exact List.mem_append_right _ (List.mem_cons_of_mem c List.mem_cons_self)

theorem Ring.insert (next' : α → α) (h : Ring next start l) (hc : c ∈ l) (ht : t ∉ l)
    (hnew : next' t = next c) (hlink : next' c = t) (hframe : ∀ p ∈ l, p ≠ c → next' p = next p) :
    ∃ l', Ring next' start l' ∧ l'.Perm (t :: l) := by
  obtain ⟨pre, post, rfl⟩ := List.append_of_mem hc
  have hnodup := h.nodup
  obtain ⟨hpre, hmid⟩ := (linked_append _ _).mp h.linked
  have hperm : (pre ++ c :: t :: post).Perm (t :: (pre ++ c :: post)) := by
    have hswap : (pre ++ c :: t :: post).Perm (pre ++ t :: c :: post) :=
      (List.Perm.swap t c post).append_left pre
    exact hswap.trans List.perm_middle
  refine ⟨pre ++ c :: t :: post, ⟨?_, ?_, ?_⟩, hperm⟩
  · have hfirst := h.first
    cases pre <;> exact hfirst
  · have hne : ∀ a, a ∈ pre ∨ a ∈ post → a ≠ c := by
      rintro a ha rfl
      rw [List.perm_middle.nodup_iff, List.nodup_cons] at hnodup
      exact hnodup.1 (List.mem_append.mpr ha)
    rw [linked_append]
    refine ⟨linked_congr (fun a ha => ?_) hpre, hlink, hnew.trans hmid.1,
      linked_congr (fun a ha => ?_) hmid.2⟩
    · exact hframe a (List.mem_append_left _ ha) (hne a (Or.inl ha))
    · exact hframe a (List.mem_append_right _ (List.mem_cons_of_mem c ha)) (hne a (Or.inr ha))
  · exact hperm.nodup_iff.mpr (List.nodup_cons.mpr ⟨ht, hnodup⟩)

/-- `do body while (!stop)`, along the links. The first argument bounds the number of rounds. -/
def doWhile (body : α → σ → σ) (next : σ → α → α) (stop : σ → α → Bool) : ℕ → α → σ → Option σ
  | 0, _, _ => none
  | n + 1, p, s =>
    let s' := body p s
    let p' := next s' p
    if stop s' p' then some s' else doWhile body next stop n p' s'

theorem doWhile_linked {body : α → σ → σ} {links : σ → α → α} {stop : σ → α → Bool} {I : σ → Prop}
    (hkeep : ∀ p s, I s → I (body p s)) (hnext : ∀ p s, I s → links s p = next p)
    (hstart : ∀ s, I s → stop s start = true) : ∀ l p n s, Linked next (p :: l) start →
    (∀ a ∈ l, ∀ s, I s → stop s a = false) → l.length < n → I s →
    doWhile body links stop n p s = some ((p :: l).foldl (fun s p => body p s) s) := by
  intro l
  induction l with
  | nil =>
    intro p n s hl _ hn hs
    obtain ⟨n, rfl⟩ := Nat.exists_eq_succ_of_ne_zero (Nat.ne_of_gt hn)
    have hbody := hkeep p s hs
    rw [doWhile, hnext p _ hbody, hl.1]
    simp only [List.head?_nil, Option.getD_none, hstart _ hbody, if_true]
    rfl
  | cons a l ih =>
    intro p n s hl hgo hn hs
    obtain ⟨n, rfl⟩ := Nat.exists_eq_succ_of_ne_zero (Nat.ne_of_gt (Nat.zero_lt_of_lt hn))
    have hbody := hkeep p s hs
    rw [doWhile, hnext p _ hbody, hl.1]
    simp only [List.head?_cons, Option.getD_some, hgo a List.mem_cons_self _ hbody,
      Bool.false_eq_true, if_false]
    exact ih a n (body p s) hl.2 (fun b hb => hgo b (List.mem_cons_of_mem a hb))
      (Nat.lt_of_succ_lt_succ hn) hbody

theorem Ring.doWhile (body : α → σ → σ) (links : σ → α → α) (stop : σ → α → Bool) (I : σ → Prop)
    {s : σ} {n : ℕ} (h : Ring next start l) (hkeep : ∀ p s, I s → I (body p s))
    (hnext : ∀ p s, I s → links s p = next p)
    (hstop : ∀ p ∈ l, ∀ s, I s → (stop s p = true ↔ p = start)) (hn : l.length ≤ n) (hs : I s) :
    RingList.doWhile body links stop n start s = some (l.foldl (fun s p => body p s) s) := by
  obtain ⟨rest, rfl⟩ : ∃ rest, l = start :: rest := List.head?_eq_some_iff.mp h.first
  refine doWhile_linked hkeep hnext (fun s hs => ?_) rest start n s h.linked (fun a ha s hs => ?_)
    hn hs
  · exact (hstop start List.mem_cons_self s hs).mpr rfl
  · have hne : a ≠ start := by
      rintro rfl
      exact (List.nodup_cons.mp h.nodup).1 ha
    by_contra hc
    exact hne ((hstop a (List.mem_cons_of_mem start ha) s hs).mp (Bool.not_eq_false _ ▸ hc))

end RingList
