import K64.XfsLookup

/-! # Paths and their components

`xfs_split_parent` takes the last component off a path and `xfs_resolve` walks the components one
by one; here the two are shown to cut a path in the same places. -/
namespace XfsPaths

open XfsDirectory XfsVolume XfsConsistency XfsLookup

theorem tokensFrom_slash (xs ys : List UInt8) : ∀ cur,
    tokensFrom cur (xs ++ slash :: ys) = tokensFrom cur xs ++ tokensFrom [] ys := by
  induction xs with
  | nil =>
    intro cur
    by_cases hc : cur = []
    · simp [tokensFrom, hc]
    · simp [tokensFrom, hc]
  | cons x xs ih =>
    intro cur
    simp only [List.cons_append, tokensFrom]
    by_cases hx : x = slash
    · by_cases hc : cur = []
      · simp [hx, hc, ih]
      · simp [hx, hc, ih]
    · simp [hx, ih]

theorem tokensFrom_word {xs : List UInt8} (h : slash ∉ xs) : ∀ cur,
    tokensFrom cur xs = if cur ++ xs = [] then [] else [cur ++ xs] := by
  induction xs with
  | nil => intro cur; simp [tokensFrom]
  | cons x xs ih =>
    intro cur
    simp only [List.mem_cons, not_or] at h
    rw [tokensFrom, if_neg fun hx => h.1 hx.symm, ih h.2]
    simp

theorem tokens_slash (xs ys : List UInt8) :
    tokens (xs ++ slash :: ys) = tokens xs ++ tokens ys := tokensFrom_slash xs ys []

theorem tokens_word {xs : List UInt8} (h : slash ∉ xs) (hne : xs ≠ []) : tokens xs = [xs] := by
  simp [tokens, tokensFrom_word h, hne]

@[simp] theorem tokens_nil : tokens [] = [] := rfl

@[simp] theorem tokens_root : tokens [slash] = [] := by
  have := tokens_slash [] []
  simpa using this

theorem tokens_slashes (xs : List UInt8) {ss : List UInt8} (h : ∀ x ∈ ss, x = slash) :
    tokens (xs ++ ss) = tokens xs := by
  induction ss using List.reverseRecOn with
  | nil => simp
  | append_singleton ss x ih =>
    have hx : x = slash := h x (by simp)
    rw [← List.append_assoc, hx, tokens_slash, ih fun y hy => h y (by simp [hy])]
    simp

theorem mem_tokensFrom {t : List UInt8} {x : UInt8} (xs : List UInt8) : ∀ cur, slash ∉ cur →
    t ∈ tokensFrom cur xs → x ∈ t → (x ∈ cur ∨ x ∈ xs) ∧ x ≠ slash := by
  induction xs with
  | nil =>
    intro cur hcur ht hx
    by_cases hc : cur = []
    · simp [tokensFrom, hc] at ht
    · simp only [tokensFrom, hc, if_false, List.mem_singleton] at ht
      subst ht
      exact ⟨Or.inl hx, fun h => hcur (h ▸ hx)⟩
  | cons y ys ih =>
    intro cur hcur ht hx
    rw [tokensFrom] at ht
    by_cases hy : y = slash
    · rw [if_pos hy] at ht
      by_cases hc : cur = []
      · rw [if_pos hc] at ht
        obtain ⟨h1, h2⟩ := ih [] (by simp) ht hx
        exact ⟨Or.inr (List.mem_cons_of_mem _ (by simpa using h1)), h2⟩
      · rw [if_neg hc] at ht
        rcases List.mem_cons.mp ht with rfl | ht
        · exact ⟨Or.inl hx, fun h => hcur (h ▸ hx)⟩
        · obtain ⟨h1, h2⟩ := ih [] (by simp) ht hx
          exact ⟨Or.inr (List.mem_cons_of_mem _ (by simpa using h1)), h2⟩
    · rw [if_neg hy] at ht
      have hcur' : slash ∉ cur ++ [y] := by
        simp only [List.mem_append, List.mem_singleton, not_or]
        exact ⟨hcur, fun h => hy h.symm⟩
      obtain ⟨h1, h2⟩ := ih (cur ++ [y]) hcur' ht hx
      refine ⟨?_, h2⟩
      rcases h1 with h1 | h1
      · rcases List.mem_append.mp h1 with h1 | h1
        · exact Or.inl h1
        · exact Or.inr (by simp [List.mem_singleton.mp h1])
      · exact Or.inr (List.mem_cons_of_mem _ h1)

variable {path : List UInt8}

theorem noNul_tokens {t : List UInt8} (h : (0 : UInt8) ∉ path) (ht : t ∈ tokens path) :
    (0 : UInt8) ∉ t := fun h0 => by
  obtain ⟨h1, -⟩ := mem_tokensFrom path [] (by simp) ht h0
  exact h (by simpa using h1)

theorem path_shape (hhead : path.head? = some slash)
    (hne : path.rdropWhile (· == slash) ≠ []) : ∃ init leaf ss,
      path = init ++ slash :: leaf ++ ss ∧ path.rdropWhile (· == slash) = init ++ slash :: leaf ∧
      (path.rdropWhile (· == slash)).rtakeWhile (· != slash) = leaf ∧ slash ∉ leaf ∧
      ∀ x ∈ ss, x = slash := by
  set p := path.rdropWhile (· == slash) with hp
  set pre := p.rdropWhile (· != slash) with hpre
  have hpath : p ++ path.rtakeWhile (· == slash) = path := List.rdropWhile_append_rtakeWhile ..
  have hsplit : pre ++ p.rtakeWhile (· != slash) = p := List.rdropWhile_append_rtakeWhile ..
  have hnoslash : slash ∉ p.rtakeWhile (· != slash) := fun hx => by
    simpa using List.mem_rtakeWhile_imp hx
  have hprene : pre ≠ [] := by
    intro hnil
    rw [hnil, List.nil_append] at hsplit
    have hmem : slash ∈ p := by
      obtain ⟨x, xs, hx⟩ := List.exists_cons_of_ne_nil hne
      rw [← hpath, hx] at hhead
      simp only [List.cons_append, List.head?_cons, Option.some.injEq] at hhead
      rw [hx, hhead]
      exact List.mem_cons_self ..
    rw [← hsplit] at hmem
    exact hnoslash hmem
  have hlast : pre.getLast hprene = slash := by
    have := List.rdropWhile_last_not (· != slash) p hprene
    simpa using this
  have hinit : pre.dropLast ++ [slash] = pre := by
    rw [← hlast, List.dropLast_append_getLast]
  have hp' : p = pre.dropLast ++ slash :: p.rtakeWhile (· != slash) := by
    conv_lhs => rw [← hsplit, ← hinit, List.append_assoc, List.singleton_append]
  refine ⟨pre.dropLast, _, path.rtakeWhile (· == slash), ?_, hp', rfl, hnoslash, fun x hx => ?_⟩
  · rw [← hp']; exact hpath.symm
  · simpa using List.mem_rtakeWhile_imp hx

variable {parent leaf : List UInt8}

theorem split_parent_cases
    (h : xfsSplitParent path = some (parent, leaf)) :
    path.head? = some slash ∧ path.rdropWhile (· == slash) ≠ [] ∧
      (path.rdropWhile (· == slash)).rtakeWhile (· != slash) = leaf ∧ xfsNameValid leaf = true ∧
      parent = if (path.rdropWhile (· == slash)).length - leaf.length ≤ 1 then [slash]
        else (path.rdropWhile (· == slash)).take
          ((path.rdropWhile (· == slash)).length - leaf.length - 1) := by
  unfold xfsSplitParent at h
  simp only [ne_eq, ite_not] at h
  split at h
  case isFalse => cases h
  case isTrue hhead =>
    split_ifs at h with h1 h2 h3 h4 h5
    · simp only [Option.some.injEq, Prod.mk.injEq] at h
      obtain ⟨rfl, rfl⟩ := h
      exact ⟨hhead, h1, rfl, h4, (if_pos h5).symm⟩
    · simp only [Option.some.injEq, Prod.mk.injEq] at h
      obtain ⟨rfl, rfl⟩ := h
      exact ⟨hhead, h1, rfl, h4, (if_neg h5).symm⟩

theorem split_parent_some (h0 : (0 : UInt8) ∉ path)
    (h : xfsSplitParent path = some (parent, leaf)) :
    path.head? = some slash ∧ parent.head? = some slash ∧ NameOk leaf ∧
      tokens path = tokens parent ++ [leaf] ∧ (0 : UInt8) ∉ parent := by
  obtain ⟨hhead, hne, hleaf, hvalid, hparent⟩ := split_parent_cases h
  obtain ⟨init, leaf', ss, hpath, hp, hleaf', hnoslash, hss⟩ := path_shape hhead hne
  rw [hleaf] at hleaf'
  subst hleaf'
  have hlne : leaf ≠ [] := by
    rintro rfl
    simp [xfsNameValid] at hvalid
  have hlen : (init ++ slash :: leaf).length - leaf.length = init.length + 1 := by
    simp only [List.length_append, List.length_cons]
    omega
  rw [hp, hlen, Nat.add_sub_cancel, List.take_left' rfl] at hparent
  have htok : tokens path = tokens init ++ [leaf] := by
    rw [hpath, tokens_slashes _ hss, tokens_slash, tokens_word hnoslash hlne]
  rw [hpath] at h0 hhead
  simp only [List.mem_append, List.mem_cons, not_or] at h0
  refine ⟨hpath ▸ hhead, ?_, ⟨hvalid, h0.1.2.2, hnoslash⟩, ?_, ?_⟩
  · rw [hparent]
    split
    case isTrue => rfl
    case isFalse hlong =>
      obtain ⟨x, xs, rfl⟩ := List.exists_cons_of_length_pos (show 0 < init.length by omega)
      simpa using hhead
  · rw [htok, hparent]
    split
    case isTrue hshort =>
      have : init = [] := List.eq_nil_of_length_eq_zero (by omega)
      simp [this]
    case isFalse => rfl
  · rw [hparent]
    split
    case isTrue => decide
    case isFalse => exact h0.1.1

theorem resolve_split {c : Content} (h0 : (0 : UInt8) ∉ path)
    (h : xfsSplitParent path = some (parent, leaf)) :
    resolve c path = (resolve c parent).bind fun p => descend c p leaf := by
  obtain ⟨hhead, hphead, -, htok, -⟩ := split_parent_some h0 h
  rw [resolve, resolve, if_pos hhead, if_pos hphead, htok, walk, walk]
  cases c.record 1 with
  | none => rfl
  | some root => simp [List.foldlM_append]

end XfsPaths
