import K64.FileCommands
import K64.ServiceHandlers

/-! # The directory that a check is about

A handler that creates something checks the directory that `fsctl_parent_path` (or, for a service,
`fs_call_can_create_path`) cuts off the text of the path. What the normalised path names is that directory
itself, its parent, or an entry in it. -/
namespace FileCommands
open FsPaths FileTree XfsDirectory XfsPaths
open StagedCalls (parentPath)

def Beside (names dir : List Str) : Prop :=
  names = dir ∨ names = dir.dropLast ∨ ∃ name, names = dir ++ [name]

theorem tokensFrom_ne_nil {t : Str} (xs : Str) : ∀ cur, t ∈ tokensFrom cur xs → t ≠ [] := by
  induction xs with
  | nil =>
    intro cur ht
    by_cases hcur : cur = []
    · simp [tokensFrom, hcur] at ht
    · simp only [tokensFrom, hcur, if_false, List.mem_singleton] at ht
      exact ht ▸ hcur
  | cons x xs ih =>
    intro cur ht
    rw [tokensFrom] at ht
    split at ht
    · split at ht
      · exact ih [] ht
      next hcur =>
        rcases List.mem_cons.mp ht with rfl | ht
        · exact hcur
        · exact ih [] ht
    · exact ih _ ht

variable {path : Str}

theorem tokens_plain {t : Str} (h : t ∈ tokens path) : slash ∉ t ∧ t ≠ [] :=
  ⟨fun hs => (mem_tokensFrom path [] (by simp) h hs).2 rfl, tokensFrom_ne_nil path [] h⟩

variable {word : Str}

theorem tokens_word_cases (h : slash ∉ word) :
    tokens word = [] ∨ ∃ w, tokens word = [w] := by
  by_cases hne : word = []
  · exact .inl (by rw [hne, tokens_nil])
  · exact .inr ⟨word, tokens_word h hne⟩

variable {ss : Str}

theorem tokens_take_word (h : slash ∉ word) (hss : ∀ x ∈ ss, x = slash) (k : ℕ) :
    tokens ((word ++ ss).take k) = [] ∨ ∃ w, tokens ((word ++ ss).take k) = [w] := by
  rw [List.take_append, tokens_slashes _ fun x hx => hss x (List.mem_of_mem_take hx)]
  exact tokens_word_cases fun hs => h (List.mem_of_mem_take hs)

theorem rdropWhile_slash_shape (out : Str) :
    out.rdropWhile (· != slash) = [] ∨ ∃ init, out.rdropWhile (· != slash) = init ++ [slash] := by
  by_cases hne : out.rdropWhile (· != slash) = []
  · exact .inl hne
  · have hlast := List.rdropWhile_last_not (· != slash) out hne
    refine .inr ⟨(out.rdropWhile (· != slash)).dropLast, ?_⟩
    have hslash : (out.rdropWhile (· != slash)).getLast hne = slash := by simpa using hlast
    exact (hslash ▸ List.dropLast_append_getLast hne).symm

variable {dir : Str}

theorem tokens_closed (h : dir = [] ∨ ∃ init, dir = init ++ [slash]) :
    tokens (dir ++ word) = tokens dir ++ tokens word := by
  rcases h with rfl | ⟨init, rfl⟩
  · simp
  · rw [List.append_assoc, List.singleton_append, tokens_slash, tokens_slash, tokens_nil,
      List.append_nil]

theorem tokens_dropComponent (out : Str) :
    tokens (dropComponent out) = tokens out ∨ tokens (dropComponent out) = (tokens out).dropLast := by
  unfold dropComponent
  split
  next hlong =>
    obtain ⟨init, x, rfl⟩ : ∃ init x, out = init ++ [x] :=
      ⟨out.dropLast, out.getLast (List.ne_nil_of_length_pos (by omega)),
        (List.dropLast_append_getLast _).symm⟩
    rw [List.dropLast_concat]
    have hshape := rdropWhile_slash_shape init
    have hsplit : init.rdropWhile (· != slash) ++ init.rtakeWhile (· != slash) = init :=
      List.rdropWhile_append_rtakeWhile ..
    have hword : slash ∉ init.rtakeWhile (· != slash) := fun hx => by
      simpa using List.mem_rtakeWhile_imp hx
    by_cases hx : x = slash
    · have htokens : tokens (init ++ [x]) = tokens (init.rdropWhile (· != slash)) ++
          tokens (init.rtakeWhile (· != slash)) := by
        rw [hx, tokens_slash, tokens_nil, List.append_nil, ← tokens_closed hshape, hsplit]
      rcases tokens_word_cases hword with hnone | ⟨w, hw⟩
      · exact .inl (by rw [htokens, hnone, List.append_nil])
      · exact .inr (by rw [htokens, hw, List.dropLast_concat])
    · have hword' : slash ∉ init.rtakeWhile (· != slash) ++ [x] := by
        simp only [List.mem_append, List.mem_singleton, not_or]
        exact ⟨hword, fun h => hx h.symm⟩
      have htokens : tokens (init ++ [x]) = tokens (init.rdropWhile (· != slash)) ++
          [init.rtakeWhile (· != slash) ++ [x]] := by
        conv_lhs => rw [← hsplit]
        rw [List.append_assoc, tokens_closed hshape, tokens_word hword' (by simp)]
      exact .inr (by rw [htokens, List.dropLast_concat])
  · exact .inl rfl

variable {out : Str}

theorem head_dropComponent (h : out.head? = some slash) :
    (dropComponent out).head? = some slash := by
  unfold dropComponent
  split
  next hlong =>
    obtain ⟨y, rest, rfl⟩ : ∃ y rest, out = slash :: y :: rest := by
      rcases out with _ | ⟨x, _ | ⟨y, rest⟩⟩
      · simp at hlong
      · simp at hlong
      · simp only [List.head?_cons, Option.some.injEq] at h
        exact ⟨y, rest, by rw [h]⟩
    have hsplit : (slash :: y :: rest).dropLast.rdropWhile (· != slash) ++
        (slash :: y :: rest).dropLast.rtakeWhile (· != slash) = (slash :: y :: rest).dropLast :=
      List.rdropWhile_append_rtakeWhile ..
    rw [List.dropLast_cons_of_ne_nil (by simp)] at hsplit ⊢
    rcases hdrop : (slash :: (y :: rest).dropLast).rdropWhile (· != slash) with _ | ⟨x, xs⟩
    · rw [hdrop, List.nil_append] at hsplit
      have hmem : slash ∈ (slash :: (y :: rest).dropLast).rtakeWhile (· != slash) := by
        rw [hsplit]
        exact List.mem_cons_self
      simpa using List.mem_rtakeWhile_imp hmem
    · rw [hdrop] at hsplit
      have := congrArg List.head? hsplit
      simpa using this
  · exact h

variable {full : Str}

theorem addComponent_beside (h : addComponent 256 out word = some full)
    (hhead : out.head? = some slash) (hslash : slash ∉ word) (hne : word ≠ []) :
    Beside (tokens full) (tokens out) ∧ full.head? = some slash := by
  have hword : tokens word = [word] := tokens_word hslash hne
  unfold addComponent at h
  split at h
  · simp at h
  split at h
  · obtain rfl := Option.some.inj h
    exact ⟨.inl rfl, hhead⟩
  split at h
  · obtain rfl := Option.some.inj h
    exact ⟨(tokens_dropComponent out).imp_right .inl, head_dropComponent hhead⟩
  split at h
  · split at h
    · simp at h
    split at h
    · simp at h
    obtain rfl := Option.some.inj h
    refine ⟨.inr (.inr ⟨word, by rw [tokens_slash, hword]⟩), ?_⟩
    rw [List.head?_append, hhead, Option.some_or]
  next hshort =>
    split at h
    · simp at h
    obtain rfl := Option.some.inj h
    obtain rfl : out = [slash] := by
      rcases out with _ | ⟨x, _ | ⟨y, rest⟩⟩
      · simp at hhead
      · simpa using hhead
      · simp at hshort
    exact ⟨.inr (.inr ⟨word, by rw [tokens_root]; exact (tokens_slash [] word).trans (by simp [hword])⟩),
      rfl⟩

theorem fold_head {ts : List Str}
    (h : ts.foldlM (addComponent 256) out = some full) (hts : ∀ t ∈ ts, slash ∉ t ∧ t ≠ [])
    (hhead : out.head? = some slash) : full.head? = some slash := by
  induction ts generalizing out with
  | nil =>
    obtain rfl := Option.some.inj h
    exact hhead
  | cons t ts ih =>
    rw [List.foldlM_cons] at h
    obtain ⟨next, hnext, hrest⟩ := Option.bind_eq_some_iff.mp h
    obtain ⟨hslash, hne⟩ := hts t List.mem_cons_self
    exact ih hrest (fun t ht => hts t (List.mem_cons_of_mem _ ht))
      (addComponent_beside hnext hhead hslash hne).2

def relativeBase (cwd : Str) : Str :=
  if cwd.take 255 = [slash] then cwd.take 255 else fsAppend 256 (cwd.take 255) [slash]

/-- The text that `fs_normalize` goes through. -/
def joined (cwd path : Str) : Str :=
  if path.head? = some slash then path.take 255 else fsAppend 256 (relativeBase cwd) path

variable (cwd : Str)

theorem fullPath_eq (h : path ≠ []) :
    fullPath cwd path = (tokens (joined cwd path)).foldlM (addComponent 256) [slash] := by
  unfold fullPath fsNormalize joined relativeBase
  simp only [if_neg h, fsCopy]
  rfl

theorem relativeBase_cases :
    (relativeBase cwd).length = 255 ∨ ∃ init, relativeBase cwd = init ++ [slash] := by
  unfold relativeBase
  split
  next hroot => exact .inr ⟨[], by rw [hroot]; rfl⟩
  next hroot =>
    by_cases hfull : (cwd.take 255).length = 255
    · exact .inl (by simp [fsAppend, hfull])
    · have hlen : (cwd.take 255).length ≤ 255 := List.length_take_le _ _
      have hroom : [slash].length ≤ 256 - 1 - (cwd.take 255).length := by
        rw [List.length_singleton]
        omega
      exact .inr ⟨cwd.take 255, by rw [fsAppend, List.take_of_length_le hroom]⟩

theorem tokens_relative (cwd path : Str) :
    (fsAppend 256 (relativeBase cwd) path = relativeBase cwd ∧ (relativeBase cwd).length = 255) ∨
      ∃ init, relativeBase cwd = init ++ [slash] ∧ tokens (fsAppend 256 (relativeBase cwd) path) =
        tokens init ++ tokens (path.take (255 - (relativeBase cwd).length)) := by
  rcases relativeBase_cases cwd with hfull | ⟨init, hinit⟩
  · exact .inl ⟨by simp [fsAppend, hfull], hfull⟩
  · refine .inr ⟨init, hinit, ?_⟩
    rw [fsAppend, hinit, List.append_assoc, List.singleton_append, tokens_slash]

theorem path_word (path : Str) : ∃ dir word ss, path = dir ++ word ++ ss ∧ slash ∉ word ∧
    (∀ x ∈ ss, x = slash) ∧ path.rdropWhile (· == slash) = dir ++ word ∧
    (dir ++ word).rdropWhile (· != slash) = dir ∧ (dir = [] ∨ ∃ init, dir = init ++ [slash]) ∧
    (word = [] → dir = []) := by
  have hpath : path.rdropWhile (· == slash) ++ path.rtakeWhile (· == slash) = path :=
    List.rdropWhile_append_rtakeWhile ..
  have hsplit : (path.rdropWhile (· == slash)).rdropWhile (· != slash) ++
      (path.rdropWhile (· == slash)).rtakeWhile (· != slash) = path.rdropWhile (· == slash) :=
    List.rdropWhile_append_rtakeWhile ..
  refine ⟨(path.rdropWhile (· == slash)).rdropWhile (· != slash),
    (path.rdropWhile (· == slash)).rtakeWhile (· != slash), path.rtakeWhile (· == slash),
    by rw [hsplit, hpath], fun hx => by simpa using List.mem_rtakeWhile_imp hx,
    fun x hx => by simpa using List.mem_rtakeWhile_imp hx, hsplit.symm, by rw [hsplit],
    rdropWhile_slash_shape _, fun hword => ?_⟩
  rw [hword, List.append_nil] at hsplit
  by_contra hne
  have hnamed : path.rdropWhile (· == slash) ≠ [] := hsplit ▸ hne
  have hlast := List.rdropWhile_last_not (· == slash) path hnamed
  have hlast' := List.rdropWhile_last_not (· != slash) (path.rdropWhile (· == slash)) hne
  simp only [hsplit] at hlast'
  simp_all

theorem parentPath_eq (hpath : path = dir ++ word ++ ss) (hne : path ≠ [])
    (hss : ∀ x ∈ ss, x = slash) (hnamed : path.rdropWhile (· == slash) = dir ++ word)
    (hdir : (dir ++ word).rdropWhile (· != slash) = dir) : parentPath path =
      if dir ++ word = [] then [slash]
      else if dir = [] then [dot] else if dir.length = 1 then dir else dir.dropLast := by
  unfold parentPath
  simp only [hnamed, List.length_eq_zero_iff]
  by_cases hnone : dir ++ word = []
  · have hfirst : path.take 1 = [slash] := by
      rcases ss with _ | ⟨x, rest⟩
      · simp [hpath, hnone] at hne
      · have hx : x = slash := hss x List.mem_cons_self
        simp [hpath, hnone, hx]
    rw [if_pos hnone, hfirst, if_pos hnone]
    decide
  · rw [if_neg hnone, if_neg hnone, hdir]

theorem joined_word (hword : slash ∉ word) (hne : word ≠ [])
    (hss : ∀ x ∈ ss, x = slash) :
    ∃ ts ws, (ws = [] ∨ ∃ w, ws = [w]) ∧ tokens (joined cwd (word ++ ss)) = ts ++ ws ∧
      (tokens (joined cwd [dot]) = ts ∨ tokens (joined cwd [dot]) = ts ++ [[dot]]) := by
  have hhead : (word ++ ss).head? ≠ some slash := by
    obtain ⟨x, rest, rfl⟩ := List.exists_cons_of_ne_nil hne
    simp only [List.cons_append, List.head?_cons, ne_eq, Option.some.injEq]
    exact fun hx => hword (hx ▸ List.mem_cons_self)
  have hdot : ([dot] : Str).head? ≠ some slash := by decide
  rw [joined, joined, if_neg hhead, if_neg hdot]
  rcases tokens_relative cwd (word ++ ss) with ⟨hbase, hfull⟩ | ⟨init, hinit, htokens⟩
  · refine ⟨tokens (relativeBase cwd), [], .inl rfl, by rw [hbase, List.append_nil], .inl ?_⟩
    simp [fsAppend, hfull]
  · refine ⟨tokens init, _, tokens_take_word hword hss _, htokens, ?_⟩
    rw [fsAppend, hinit, List.append_assoc, List.singleton_append, tokens_slash]
    rcases hk : 255 - (init ++ [slash]).length with _ | k
    · simp
    · exact .inr (by simp; decide)

theorem joined_entry {init : Str} (hword : slash ∉ word)
    (hss : ∀ x ∈ ss, x = slash) (hshort : (init ++ slash :: (word ++ ss)).length ≤ 255) :
    ∃ ts ws, (ws = [] ∨ ∃ w, ws = [w]) ∧
      tokens (joined cwd (init ++ slash :: (word ++ ss))) = ts ++ ws ∧
      tokens (joined cwd (if init = [] then [slash] else init)) = ts := by
  have hwords := tokens_take_word hword hss
  have hlast : (word ++ ss).take (word ++ ss).length = word ++ ss := List.take_length
  by_cases hinit : init = []
  · refine ⟨[], tokens (word ++ ss), hlast ▸ hwords _, ?_, ?_⟩
    · rw [hinit, List.nil_append] at hshort ⊢
      rw [joined, if_pos List.head?_cons, List.take_of_length_le (by omega)]
      exact (tokens_slash [] (word ++ ss)).trans (by simp)
    · simp [hinit, joined]
  · have hhead : (init ++ slash :: (word ++ ss)).head? = init.head? := by
      rw [List.head?_append_of_ne_nil _ hinit]
    rw [if_neg hinit]
    by_cases habsolute : init.head? = some slash
    · refine ⟨tokens init, tokens (word ++ ss), hlast ▸ hwords _, ?_, ?_⟩
      · rw [joined, if_pos (hhead.trans habsolute), List.take_of_length_le (by omega), tokens_slash]
      · have hlen : init.length ≤ 255 := by
          simp only [List.length_append] at hshort
          omega
        rw [joined, if_pos habsolute, List.take_of_length_le hlen]
    · rw [joined, joined, if_neg (hhead ▸ habsolute), if_neg habsolute]
      rcases tokens_relative cwd (init ++ slash :: (word ++ ss)) with
        ⟨hbase, hfull⟩ | ⟨base, hbase, htokens⟩
      · refine ⟨tokens (relativeBase cwd), [], .inl rfl, by rw [hbase, List.append_nil], ?_⟩
        simp [fsAppend, hfull]
      · have hdir : tokens (fsAppend 256 (relativeBase cwd) init) =
            tokens base ++ tokens (init.take (255 - (relativeBase cwd).length)) := by
          rw [fsAppend, hbase, List.append_assoc, List.singleton_append, tokens_slash]
        rw [htokens, hdir]
        generalize 255 - (relativeBase cwd).length = k
        by_cases hk : k ≤ init.length
        · exact ⟨_, [], .inl rfl, by rw [List.take_append_of_le_length hk, List.append_nil], rfl⟩
        · obtain ⟨j, hj⟩ : ∃ j, k - init.length = j + 1 := ⟨k - init.length - 1, by omega⟩
          refine ⟨_, _, hwords j, ?_, rfl⟩
          rw [List.take_append, List.take_of_length_le (by omega : init.length ≤ k), hj,
            List.take_succ_cons, tokens_slash, List.append_assoc]

theorem joined_beside (hne : path ≠ []) (hshort : path.length ≤ 255) :
    ∃ ts ws, (ws = [] ∨ ∃ w, ws = [w]) ∧ tokens (joined cwd path) = ts ++ ws ∧
      (tokens (joined cwd (parentPath path)) = ts ∨
        tokens (joined cwd (parentPath path)) = ts ++ [[dot]]) := by
  obtain ⟨dir, word, ss, hpath, hword, hss, hnamed, hdir, hshape, hempty⟩ := path_word path
  have hparent := parentPath_eq hpath hne hss hnamed hdir
  rcases hshape with rfl | ⟨init, rfl⟩
  · rw [List.nil_append] at hpath hparent
    by_cases hnone : word = []
    · rw [if_pos hnone] at hparent
      rw [hnone, List.nil_append] at hpath
      rw [hparent]
      refine ⟨[], [], .inl rfl, ?_, .inl (by simp [joined])⟩
      have hhead : path.head? = some slash := by
        obtain ⟨x, rest, rfl⟩ := List.exists_cons_of_ne_nil (hpath ▸ hne)
        rw [hpath, List.head?_cons, hss x List.mem_cons_self]
      rw [joined, if_pos hhead, hpath]
      simpa using tokens_slashes [] fun x hx => hss x (List.mem_of_mem_take hx)
    · rw [if_neg hnone, if_pos rfl] at hparent
      rw [hparent, hpath]
      exact joined_word cwd hword hnone hss
  · have hsome : init ++ [slash] ++ word ≠ [] := by simp
    rw [if_neg hsome, if_neg (by simp)] at hparent
    have hdir' : (if (init ++ [slash]).length = 1 then init ++ [slash]
        else (init ++ [slash]).dropLast) = if init = [] then [slash] else init := by
      by_cases hinit : init = []
      · simp [hinit]
      · simp [hinit]
    have hpath' : path = init ++ slash :: (word ++ ss) := by simp [hpath]
    rw [hparent, hdir', hpath']
    obtain ⟨ts, ws, hws, htokens, hdirTokens⟩ :=
      joined_entry cwd hword hss (hpath' ▸ hshort)
    exact ⟨ts, ws, hws, htokens, .inl hdirTokens⟩

theorem foldlM_dot {ts : List Str} :
    (ts ++ [[dot]]).foldlM (addComponent 256) out = ts.foldlM (addComponent 256) out := by
  rw [List.foldlM_append]
  simp [addComponent, dot]

theorem joined_take (hne : path ≠ []) :
    joined cwd path = joined cwd (path.take 255) := by
  obtain ⟨x, rest, rfl⟩ := List.exists_cons_of_ne_nil hne
  have hhead : ((x :: rest).take 255).head? = (x :: rest).head? := rfl
  have hbase : relativeBase cwd ≠ [] := by
    unfold relativeBase
    split
    next hroot => rw [hroot]; simp
    next hroot =>
      rcases cwd with _ | ⟨y, ys⟩
      · simp [fsAppend]
      · simp [fsAppend]
  have hlong := List.length_pos_iff.mpr hbase
  unfold joined
  rw [hhead]
  split
  · rw [List.take_take, Nat.min_self]
  · rw [fsAppend, fsAppend, List.take_take, Nat.min_eq_left (by omega)]

theorem fullPath_take (hne : path ≠ []) :
    fullPath cwd path = fullPath cwd (path.take 255) := by
  have hne' : path.take 255 ≠ [] := by
    obtain ⟨x, rest, rfl⟩ := List.exists_cons_of_ne_nil hne
    simp
  rw [fullPath_eq cwd hne, fullPath_eq cwd hne', ← joined_take cwd hne]

theorem fullPath_parent {cwd : Str} (hne : path ≠ []) (hshort : path.length ≤ 255)
    (hfull : fullPath cwd path = some full)
    (hdir : fullPath cwd (parentPath path) = some dir) : Beside (tokens full) (tokens dir) := by
  obtain ⟨ts, ws, hws, htokens, hparent⟩ := joined_beside cwd hne hshort
  have hplain : ∀ t ∈ tokens (joined cwd path), slash ∉ t ∧ t ≠ [] := fun t ht => tokens_plain ht
  have hparentNe : parentPath path ≠ [] := by
    obtain ⟨d, word, ss, hpath, -, hss, hnamed, hdir, -⟩ := path_word path
    rw [parentPath_eq hpath hne hss hnamed hdir]
    split
    · simp
    · split
      · simp
      · split
        · assumption
        next hlong =>
          intro hnil
          have := congrArg List.length hnil
          simp only [List.length_dropLast, List.length_nil] at this
          have hpos : d ≠ [] := by assumption
          have := List.length_pos_iff.mpr hpos
          omega
  rw [fullPath_eq cwd hne, htokens] at hfull
  rw [fullPath_eq cwd hparentNe] at hdir
  have hdir' : ts.foldlM (addComponent 256) [slash] = some dir := by
    rcases hparent with hparent | hparent
    · rwa [hparent] at hdir
    · rwa [hparent, foldlM_dot] at hdir
  rw [List.foldlM_append, hdir'] at hfull
  rcases hws with rfl | ⟨w, rfl⟩
  · obtain rfl : dir = full := Option.some.inj hfull
    exact .inl rfl
  · have hw := hplain w (by rw [htokens]; simp)
    have hhead := fold_head hdir' (fun t ht => hplain t (by rw [htokens]; simp [ht])) rfl
    have hadd : addComponent 256 dir w = some full := by simpa using hfull
    exact (addComponent_beside hadd hhead hw.1 hw.2).1

theorem fsctlParentPath_eq (path : Str) : fsctlParentPath path = parentPath (path.take 127) := by
  simp only [fsctlParentPath, parentPath, List.length_eq_zero_iff]

theorem fullPath_beside {cwd : Str} (hne : path ≠ []) (hshort : path.length < 128)
    (hfull : fullPath cwd path = some full)
    (hdir : fullPath cwd (fsctlParentPath path) = some dir) : Beside (tokens full) (tokens dir) := by
  rw [fsctlParentPath_eq, List.take_of_length_le (by omega)] at hdir
  exact fullPath_parent hne (by omega) hfull hdir

end FileCommands
