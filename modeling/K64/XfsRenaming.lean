import K64.XfsTree

/-! # Renaming as moving one node

A rename that meets its condition takes one name away and adds one for the same inode; the names
below it move along, and no other path leads anywhere else. Without the condition the new name leads
nowhere, although the call succeeds. -/
namespace XfsRenaming

open XfsFormat XfsCache XfsJournal XfsInode XfsCalls XfsDirectory XfsOperations XfsVolume
  XfsVolumeRefinement XfsConsistency XfsLookup XfsPaths XfsDirectoryUpdate XfsContentChanges
  XfsOperationEffects XfsUnlinkEffects XfsEffectsConsistent XfsRenameEffect XfsResolving XfsMounting
  XfsFormatting XfsSystem XfsRuns XfsAllocation XfsFileMap XfsSmallVolume XfsTree

variable {c c' : Content}

theorem moved_childOf {oldParent newParent b s : ℕ} {e e₀ : Dirent} (h : Consistent c)
    (hm : Moved c c' oldParent b s newParent e) (hold : Live c oldParent b s e₀)
    (hu' : Used c newParent) {d : ℕ} (hu : Used c d) {name : List UInt8} (hn : (0 : UInt8) ∉ name) :
    childOf c' d name =
      if d = newParent ∧ name = nameOf e then some e.inodeId.toNat
      else if d = oldParent ∧ name = nameOf e₀ then none else childOf c d name := by
  obtain ⟨b₁, s₁, hlive⟩ := hm.live
  have hd' := (hm.used d).mpr hu
  split
  · next hnew =>
    obtain ⟨rfl, rfl⟩ := hnew
    exact (childOf_eq_some hm.consistent hd' hn).mpr
      ⟨b₁, s₁, e, (hlive _ _ _ _).mpr (Or.inr ⟨rfl, rfl, rfl, rfl⟩), rfl, rfl⟩
  · next hnew =>
    have hback : ∀ id, childOf c' d name = some id → childOf c d name = some id ∧
        ¬ (d = oldParent ∧ name = nameOf e₀) := by
      intro id hid
      obtain ⟨b', s', e', hl, rfl, rfl⟩ := (childOf_eq_some hm.consistent hd' hn).mp hid
      rcases (hlive _ _ _ _).mp hl with ⟨hl, hnot⟩ | ⟨rfl, -, -, rfl⟩
      · refine ⟨(childOf_eq_some h hu hn).mpr ⟨b', s', e', hl, rfl, rfl⟩, ?_⟩
        rintro ⟨rfl, hname⟩
        exact hnot ⟨rfl, h.names _ _ _ _ _ _ _ hl hold hname⟩
      · exact absurd ⟨rfl, rfl⟩ hnew
    split
    · next hgone =>
      cases hid : childOf c' d name with
      | none => rfl
      | some id => exact absurd hgone (hback id hid).2
    · next hother =>
      refine Option.ext fun id => ⟨fun hid => (hback id hid).1, fun hid => ?_⟩
      obtain ⟨b', s', e', hl, rfl, rfl⟩ := (childOf_eq_some h hu hn).mp hid
      refine (childOf_eq_some hm.consistent hd' hn).mpr
        ⟨b', s', e', (hlive _ _ _ _).mpr (Or.inl ⟨hl, ?_⟩), rfl, rfl⟩
      rintro ⟨rfl, rfl, rfl⟩
      exact hother ⟨rfl, congrArg nameOf (hl.entry.symm.trans hold.entry)⟩

/-- The inode `id` had the name `oldLeaf` in the directory at `oldNames`, and now has the name
`newLeaf` in the one at `newNames`, which is not below it. -/
structure Relinked (c c' : Content) (oldParent newParent id : ℕ) (oldNames newNames : List (List UInt8))
    (oldLeaf newLeaf : List UInt8) : Prop where
  before : Consistent c
  after : Consistent c'
  oldNoNul : ∀ name ∈ oldNames ++ [oldLeaf], (0 : UInt8) ∉ name
  newNoNul : ∀ name ∈ newNames ++ [newLeaf], (0 : UInt8) ∉ name
  outside : ¬ oldNames ++ [oldLeaf] <+: newNames
  oldAt : locate c oldNames = some oldParent
  newAt : locate c newNames = some newParent
  oldChild : childOf c oldParent oldLeaf = some id
  newChild : childOf c newParent newLeaf = none
  child : ∀ d name, Used c d → (0 : UInt8) ∉ name → childOf c' d name =
    if d = newParent ∧ name = newLeaf then some id
    else if d = oldParent ∧ name = oldLeaf then none else childOf c d name

namespace Relinked

variable {oldParent newParent id : ℕ} {oldNames newNames : List (List UInt8)}
  {oldLeaf newLeaf : List UInt8}
  (h : Relinked c c' oldParent newParent id oldNames newNames oldLeaf newLeaf)

include h

theorem old : locate c (oldNames ++ [oldLeaf]) = some id := by
  rw [locate_append, h.oldAt]
  exact h.oldChild

theorem child_kept {pre : List (List UInt8)} {name : List UInt8} {d : ℕ}
    (hn : ∀ t ∈ pre ++ [name], (0 : UInt8) ∉ t) (hd : locate c pre = some d)
    (hold : pre ++ [name] ≠ oldNames ++ [oldLeaf])
    (hnew : pre ++ [name] ≠ newNames ++ [newLeaf]) : childOf c' d name = childOf c d name := by
  have hpre : ∀ t ∈ pre, (0 : UInt8) ∉ t := fun t ht => hn t (List.mem_append_left _ ht)
  have hu := locate_used h.before hpre hd
  rw [h.child d name hu (hn name (by simp)), if_neg, if_neg]
  · rintro ⟨rfl, rfl⟩
    exact hold (congrArg (· ++ [name]) (locate_unique h.before pre hpre d oldNames
      (fun t ht => h.oldNoNul t (List.mem_append_left _ ht)) hd h.oldAt))
  · rintro ⟨rfl, rfl⟩
    exact hnew (congrArg (· ++ [name]) (locate_unique h.before pre hpre d newNames
      (fun t ht => h.newNoNul t (List.mem_append_left _ ht)) hd h.newAt))

theorem others (other : List (List UInt8)) : (∀ t ∈ other, (0 : UInt8) ∉ t) →
    ¬ oldNames ++ [oldLeaf] <+: other → ¬ newNames ++ [newLeaf] <+: other →
    locate c' other = locate c other := by
  induction other using List.reverseRecOn with
  | nil =>
    intro _ _ _
    rw [locate, locate, List.foldlM_nil, List.foldlM_nil]
  | append_singleton pre name ih =>
    intro hn hold hnew
    have hpre : ∀ t ∈ pre, (0 : UInt8) ∉ t := fun t ht => hn t (List.mem_append_left _ ht)
    rw [locate_append, locate_append, ih hpre (fun hp => hold (hp.trans (List.prefix_append _ _)))
      fun hp => hnew (hp.trans (List.prefix_append _ _))]
    cases hd : locate c pre with
    | none => rw [Option.bind_none, Option.bind_none]
    | some d =>
      exact h.child_kept hn hd (fun heq => hold (heq ▸ List.prefix_refl _))
        fun heq => hnew (heq ▸ List.prefix_refl _)

theorem unused (rest : List (List UInt8)) : locate c (newNames ++ [newLeaf] ++ rest) = none := by
  have hnone : locate c (newNames ++ [newLeaf]) = none := by
    rw [locate_append, h.newAt]
    exact h.newChild
  rw [locate] at hnone ⊢
  rw [List.foldlM_append, hnone]
  rfl

theorem newNames_kept : locate c' newNames = some newParent := by
  rw [h.others newNames (fun t ht => h.newNoNul t (List.mem_append_left _ ht)) h.outside, h.newAt]
  intro hp
  have := hp.length_le
  rw [List.length_append, List.length_singleton] at this
  omega

theorem new : locate c' (newNames ++ [newLeaf]) = some id := by
  have hu := locate_used h.before (fun t ht => h.newNoNul t (List.mem_append_left _ ht)) h.newAt
  rw [locate_append, h.newNames_kept]
  change childOf c' newParent newLeaf = some id
  rw [h.child newParent newLeaf hu (h.newNoNul newLeaf (by simp)), if_pos ⟨rfl, rfl⟩]

theorem below (rest : List (List UInt8)) : (∀ t ∈ rest, (0 : UInt8) ∉ t) →
    ∀ k, locate c (oldNames ++ [oldLeaf] ++ rest) = some k →
      locate c' (newNames ++ [newLeaf] ++ rest) = some k := by
  induction rest using List.reverseRecOn with
  | nil =>
    intro _ k hk
    rw [List.append_nil] at hk ⊢
    rw [h.new, ← hk, h.old]
  | append_singleton pre name ih =>
    intro hn k hk
    have hpre : ∀ t ∈ pre, (0 : UInt8) ∉ t := fun t ht => hn t (List.mem_append_left _ ht)
    have hn' : ∀ t ∈ (oldNames ++ [oldLeaf] ++ pre) ++ [name], (0 : UInt8) ∉ t := by
      intro t ht
      rw [List.append_assoc] at ht
      rcases List.mem_append.mp ht with ht | ht
      · exact h.oldNoNul t ht
      · exact hn t ht
    rw [← List.append_assoc, locate_append] at hk ⊢
    obtain ⟨d, hd, hchild⟩ := Option.bind_eq_some_iff.mp hk
    rw [ih hpre d hd]
    change childOf c' d name = some k
    rw [h.child_kept hn' hd, hchild]
    · intro heq
      have := congrArg List.length heq
      simp only [List.length_append, List.length_singleton] at this
      omega
    · intro heq
      have hk' : locate c (oldNames ++ [oldLeaf] ++ pre ++ [name]) = some k := by
        rw [locate_append, hd]
        exact hchild
      rw [heq, ← List.append_nil (newNames ++ [newLeaf]), h.unused] at hk'
      cases hk'

theorem gone : locate c' (oldNames ++ [oldLeaf]) = none := by
  have hn : ∀ t ∈ oldNames, (0 : UInt8) ∉ t := fun t ht => h.oldNoNul t (List.mem_append_left _ ht)
  have hu := locate_used h.before hn h.oldAt
  have hkept : locate c' oldNames = some oldParent := by
    rw [h.others oldNames hn, h.oldAt]
    · intro hp
      have := hp.length_le
      rw [List.length_append, List.length_singleton] at this
      omega
    · rintro ⟨rest, hrest⟩
      have := h.oldAt
      rw [← hrest, h.unused] at this
      cases this
  rw [locate_append, hkept]
  change childOf c' oldParent oldLeaf = none
  rw [h.child oldParent oldLeaf hu (h.oldNoNul oldLeaf (by simp)), if_neg, if_pos ⟨rfl, rfl⟩]
  rintro ⟨hp, hl⟩
  have := h.newChild
  rw [← hp, ← hl, h.oldChild] at this
  cases this

theorem reached (other : List (List UInt8)) : (∀ t ∈ other, (0 : UInt8) ∉ t) →
    ∀ k, locate c' other = some k →
    ∃ before, (∀ t ∈ before, t ∈ other ∨ t ∈ oldNames ++ [oldLeaf]) ∧ locate c before = some k := by
  induction other using List.reverseRecOn with
  | nil =>
    intro _ k hk
    refine ⟨[], nofun, ?_⟩
    rw [locate, List.foldlM_nil] at hk ⊢
    exact hk
  | append_singleton pre name ih =>
    intro hn k hk
    have hpre : ∀ t ∈ pre, (0 : UInt8) ∉ t := fun t ht => hn t (List.mem_append_left _ ht)
    rw [locate_append] at hk
    obtain ⟨d, hd, hchild⟩ := Option.bind_eq_some_iff.mp hk
    obtain ⟨was, hwas, hloc⟩ := ih hpre d hd
    have hwas0 : ∀ t ∈ was, (0 : UInt8) ∉ t := by
      intro t ht
      rcases hwas t ht with ht | ht
      · exact hpre t ht
      · exact h.oldNoNul t ht
    change childOf c' d name = some k at hchild
    rw [h.child d name (locate_used h.before hwas0 hloc) (hn name (by simp))] at hchild
    split at hchild
    · obtain rfl := Option.some.inj hchild
      exact ⟨_, fun t ht => Or.inr ht, h.old⟩
    · split at hchild
      · cases hchild
      · refine ⟨was ++ [name], fun t ht => ?_, ?_⟩
        · rcases List.mem_append.mp ht with ht | ht
          · exact (hwas t ht).imp_left (List.mem_append_left _)
          · exact Or.inl (List.mem_append_right _ ht)
        · rw [locate_append, hloc]
          exact hchild

end Relinked

/-- The path behind a directory that leads through `names`. -/
def pathOf (names : List (List UInt8)) : List UInt8 := names.flatMap (slash :: ·)

theorem tokens_pathOf (names : List (List UInt8)) : (∀ t ∈ names, t ≠ [] ∧ slash ∉ t) →
    ∀ xs, tokens (xs ++ pathOf names) = tokens xs ++ names := by
  induction names with
  | nil =>
    intro _ xs
    rw [pathOf, List.flatMap_nil, List.append_nil, List.append_nil]
  | cons name rest ih =>
    intro hn xs
    obtain ⟨hne, hslash⟩ := hn name (by simp)
    have hrest := ih fun t ht => hn t (List.mem_cons_of_mem _ ht)
    rw [pathOf, List.flatMap_cons, List.cons_append, tokens_slash]
    change tokens xs ++ tokens (name ++ pathOf rest) = _
    rw [hrest name, tokens_word hslash hne, List.singleton_append]

theorem tokensFrom_ne_nil (xs : List UInt8) : ∀ cur t, t ∈ tokensFrom cur xs → t ≠ [] := by
  induction xs with
  | nil =>
    intro cur t ht
    rw [tokensFrom] at ht
    split at ht
    · cases ht
    · next hne =>
      rw [List.mem_singleton.mp ht]
      exact hne
  | cons x xs ih =>
    intro cur t ht
    rw [tokensFrom] at ht
    split at ht
    · split at ht
      · exact ih _ _ ht
      · next hne =>
        rcases List.mem_cons.mp ht with rfl | ht
        · exact hne
        · exact ih _ _ ht
    · exact ih _ _ ht

theorem tokens_words {path t : List UInt8} (ht : t ∈ tokens path) : t ≠ [] ∧ slash ∉ t :=
  ⟨tokensFrom_ne_nil path [] t ht, fun hs =>
    (mem_tokensFrom path [] (by simp) ht hs).2 rfl⟩

theorem exists_path {names : List (List UInt8)}
    (hn : ∀ t ∈ names, (0 : UInt8) ∉ t ∧ t ≠ [] ∧ slash ∉ t) :
    ∃ path : CString, path.bytes.head? = some slash ∧ tokens path.bytes = names := by
  have h0 : (0 : UInt8) ∉ [slash] ++ pathOf names := by
    simp only [pathOf, List.mem_append, List.mem_flatMap, List.mem_cons, not_or]
    refine ⟨by decide, ?_⟩
    rintro ⟨t, ht, h | h⟩
    · exact absurd h (by decide)
    · exact (hn t ht).1 h
  refine ⟨⟨[slash] ++ pathOf names, h0⟩, rfl, ?_⟩
  rw [tokens_pathOf names fun t ht => (hn t ht).2, tokens_root, List.nil_append]

/-- The answer of `xfs_read_data_block`. -/
def blockRead (s : System) (inode : Inode) (b : ℕ) : Option XBlock :=
  (s.call (lowered (readDataBlock inode b))).1

/-- Some entry of the directory's blocks is not in use. -/
def HasFreeSlot (s : System) (dir : Inode) : Prop :=
  ∃ b < sizeBlocks dir.size, ∃ block, blockRead s dir b = some block ∧
    ∃ k < 25, (dirent block k).inodeId = 0

/-- What `k64_xfs_rename` does not check: the new path is not below the old one, its parent is a
directory, and an entry can be added to it without growing when both names are in it. -/
structure RenameSafe (s : System) (old new : CString) : Prop where
  outside : ¬ tokens old.bytes <+: tokens new.bytes
  parent : ∀ parentPath leaf id dir, xfsSplitParent new.bytes = some (parentPath, leaf) →
    resolved s parentPath = some (id, dir) → dir.type = typeDirectory ∧
      ((tokens old.bytes).dropLast = tokens parentPath → HasFreeSlot s dir)

structure NodeMoved (u w : System) (old new : CString) : Prop where
  target : ∃ id inode inode', resolved u old.bytes = some (id, inode) ∧
    resolved w new.bytes = some (id, inode')
  gone : resolved w old.bytes = none
  others : ∀ (other : CString) id inode, ¬ tokens old.bytes <+: tokens other.bytes →
    resolved u other.bytes = some (id, inode) → ∃ inode', resolved w other.bytes = some (id, inode') ∧
      inode'.type = inode.type ∧
      (inode.type = typeRegular → ∀ max, fileRead w other max = fileRead u other max)
  /-- No other name has come in. -/
  noOther : ∀ other : CString, ¬ tokens new.bytes <+: tokens other.bytes →
    resolved u other.bytes = none → resolved w other.bytes = none
  files : ∀ id inode, Stored u id inode → inode.type = typeRegular →
    Stored w id inode ∧ ∀ b, blockRead w inode b = blockRead u inode b
  used : ∀ id : UInt32, id ≠ 0 → id.toNat ≤ 512 → inodeMarked w id = inodeMarked u id
  reachable : ∀ id : UInt32, (∃ path : CString, (resolved w path.bytes).map Prod.fst = some id) ↔
    ∃ path : CString, (resolved u path.bytes).map Prod.fst = some id
  tree : ∀ (p q : CString) id i j, resolved w p.bytes = some (id, i) →
    resolved w q.bytes = some (id, j) → tokens p.bytes = tokens q.bytes

variable {total : ℕ} {s t u : System} {V : Volume} {label : CString}

theorem steady_blockRead (h : Steady total u V) {id : ℕ} (hu : Used V.content id) (b : ℕ) :
    blockRead u (V.content.inode id) b = some (V.content.dataOf (V.content.inode id) b) :=
  answer_of_wp h.holds (wp_readDataBlock.mpr ⟨h.consistent.fits _ hu.pos hu.le, rfl⟩)

theorem slotFree_eq_none {x : XBlock} :
    slotFree x = none ↔ ∀ k < 25, (dirent x k).inodeId ≠ 0 := by
  simp only [slotFree, List.find?_eq_none, List.mem_range, beq_iff_eq, ne_eq]

theorem freeFrom_eq_none {dir : Inode} : ∀ n b, freeFrom c dir b n = none ↔
    ∀ b', b ≤ b' → b' < b + n → ∀ k < 25, (dirent (c.dataOf dir b') k).inodeId ≠ 0 := by
  intro n
  induction n with
  | zero =>
    intro b
    simp only [freeFrom, true_iff]
    intro b' _ _
    omega
  | succ n ih =>
    intro b
    rw [freeFrom]
    cases hs : slotFree (c.dataOf dir b) with
    | some k =>
      simp only [reduceCtorEq, false_iff]
      intro hall
      have := slotFree_eq_none.mpr (hall b (Nat.le_refl _) (by omega))
      rw [hs] at this
      cases this
    | none =>
      dsimp only
      rw [ih (b + 1)]
      constructor
      · intro h b' hb hlt
        rcases Nat.eq_or_lt_of_le hb with rfl | hb
        · exact slotFree_eq_none.mp hs
        · exact h b' hb (by omega)
      · intro h b' hb hlt
        exact h b' (by omega) (by omega)

theorem hasFreeSlot_iff (h : Steady total u V) {id : ℕ} (hu : Used V.content id) :
    HasFreeSlot u (V.content.inode id) ↔ freeSlot V.content (V.content.inode id) ≠ none := by
  rw [freeSlot, ne_eq, freeFrom_eq_none]
  constructor
  · rintro ⟨b, hb, block, hread, k, hk, hfree⟩ hall
    rw [steady_blockRead h hu] at hread
    obtain rfl := Option.some.inj hread
    exact hall b (Nat.zero_le _) (by omega) k hk hfree
  · intro hnot
    by_contra hno
    refine hnot fun b _ hb k hk hfree => hno ⟨b, by omega, _, steady_blockRead h hu b, k, hk, hfree⟩

theorem resolve_locate (h : Consistent c) {path : List UInt8} (h0 : (0 : UInt8) ∉ path)
    (hhead : path.head? = some slash) :
    resolve c path = (locate c (tokens path)).map fun k => (UInt32.ofNat k, c.inode k) := by
  rw [resolve, if_pos hhead, walk_eq h fun _ => noNul_tokens h0]

theorem exists_path_iff (h : Consistent c) {id : UInt32} :
    (∃ path : CString, (resolve c path.bytes).map Prod.fst = some id) ↔
      ∃ names k, (∀ t ∈ names, (0 : UInt8) ∉ t ∧ t ≠ [] ∧ slash ∉ t) ∧ locate c names = some k ∧
        UInt32.ofNat k = id := by
  constructor
  · rintro ⟨path, hres⟩
    rw [resolve_number h path.noNul] at hres
    split at hres
    · obtain ⟨k, hk, rfl⟩ := Option.map_eq_some_iff.mp hres
      exact ⟨tokens path.bytes, k, fun t ht => ⟨noNul_tokens path.noNul ht, tokens_words ht⟩, hk, rfl⟩
    · cases hres
  · rintro ⟨names, k, hn, hk, rfl⟩
    obtain ⟨path, hhead, htok⟩ := exists_path hn
    refine ⟨path, ?_⟩
    rw [resolve_number h path.noNul, if_pos hhead, htok, hk]
    rfl

section Moving

variable {w : System} {V' : Volume} {old new : CString} {oldParent newParent id b k : ℕ}
  {oldNames newNames : List (List UInt8)} {oldLeaf newLeaf : List UInt8} {e : Dirent}

theorem moved_file (hmv : Moved c c' oldParent b k newParent e)
    (hold : (c.inode oldParent).type = typeDirectory)
    (hnew : (c.inode newParent).type = typeDirectory) {i : ℕ} (hu : Used c i)
    (ht : (c.inode i).type = typeRegular) :
    c'.inode i = c.inode i ∧ ∀ l, c'.dataOf (c.inode i) l = c.dataOf (c.inode i) l := by
  have hnot : ¬ (i = oldParent ∨ i = newParent) := by
    rintro (rfl | rfl)
    · exact absurd (ht.symm.trans hold) (by decide)
    · exact absurd (ht.symm.trans hnew) (by decide)
  exact ⟨hmv.keeps.inode i hnot hu, hmv.keeps.data i hnot hu⟩

theorem relinked_reachable
    (hre : Relinked c c' oldParent newParent id oldNames newNames oldLeaf newLeaf)
    (hold : ∀ t ∈ oldNames ++ [oldLeaf], t ≠ [] ∧ slash ∉ t)
    (hnew : ∀ t ∈ newNames ++ [newLeaf], t ≠ [] ∧ slash ∉ t) (i : UInt32) :
    (∃ path : CString, (resolve c' path.bytes).map Prod.fst = some i) ↔
      ∃ path : CString, (resolve c path.bytes).map Prod.fst = some i := by
  rw [exists_path_iff hre.after, exists_path_iff hre.before]
  constructor
  · rintro ⟨names, n, hn, hloc, rfl⟩
    obtain ⟨was, hwas, hloc'⟩ := hre.reached names (fun t ht => (hn t ht).1) n hloc
    refine ⟨was, n, fun t ht => ?_, hloc', rfl⟩
    rcases hwas t ht with ht | ht
    · exact hn t ht
    · exact ⟨hre.oldNoNul t ht, hold t ht⟩
  · rintro ⟨names, n, hn, hloc, rfl⟩
    by_cases hbelow : oldNames ++ [oldLeaf] <+: names
    · obtain ⟨rest, rfl⟩ := hbelow
      have hrest : ∀ t ∈ rest, (0 : UInt8) ∉ t ∧ t ≠ [] ∧ slash ∉ t := fun t ht =>
        hn t (List.mem_append_right _ ht)
      refine ⟨newNames ++ [newLeaf] ++ rest, n, fun t ht => ?_,
        hre.below rest (fun t ht => (hrest t ht).1) n hloc, rfl⟩
      rcases List.mem_append.mp ht with ht | ht
      · exact ⟨hre.newNoNul t ht, hnew t ht⟩
      · exact hrest t ht
    · refine ⟨names, n, hn, ?_, rfl⟩
      rw [hre.others names (fun t ht => (hn t ht).1) hbelow, hloc]
      rintro ⟨rest, rfl⟩
      rw [hre.unused] at hloc
      cases hloc

theorem moved_node (hu : Steady total u V) (hm : V.mounted = true) (hw : Steady total w V')
    (hans' : Answers w V'.content)
    (hre : Relinked V.content V'.content oldParent newParent id oldNames newNames oldLeaf newLeaf)
    (hmv : Moved V.content V'.content oldParent b k newParent e)
    (holddir : (V.content.inode oldParent).type = typeDirectory)
    (hnewdir : (V.content.inode newParent).type = typeDirectory)
    (hold : tokens old.bytes = oldNames ++ [oldLeaf]) (hnew : tokens new.bytes = newNames ++ [newLeaf])
    (hhead : old.bytes.head? = some slash) (hhead' : new.bytes.head? = some slash) :
    NodeMoved u w old new := by
  have hans := steady_answers hu hm
  have hother : ∀ (other : CString) i inode, ¬ tokens old.bytes <+: tokens other.bytes →
      resolve V.content other.bytes = some (i, inode) → Used V.content i.toNat ∧
        inode = V.content.inode i.toNat ∧
        resolve V'.content other.bytes = some (i, V'.content.inode i.toNat) := by
    intro other i inode hnot hres
    obtain ⟨hused, rfl, -, hloc⟩ := resolve_used hre.before other.noNul hres
    refine ⟨hused, rfl, ?_⟩
    rw [hold] at hnot
    rw [resolve_locate hre.after other.noNul (resolve_head hres),
      hre.others _ (fun _ => noNul_tokens other.noNul) hnot, hloc]
    · rw [Option.map_some, UInt32.ofNat_toNat]
    · rintro ⟨rest, hrest⟩
      rw [← hrest, hre.unused] at hloc
      cases hloc
  constructor
  · refine ⟨UInt32.ofNat id, V.content.inode id, V'.content.inode id, ?_, ?_⟩
    · rw [hans.resolved, resolve_locate hre.before old.noNul hhead, hold, hre.old, Option.map_some]
    · rw [hans'.resolved, resolve_locate hre.after new.noNul hhead', hnew, hre.new, Option.map_some]
  · rw [hans'.resolved, resolve_locate hre.after old.noNul hhead, hold, hre.gone, Option.map_none]
  · intro other i inode hnot hres
    rw [hans.resolved] at hres
    obtain ⟨hused, rfl, hres'⟩ := hother other i inode hnot hres
    refine ⟨V'.content.inode i.toNat, by rw [hans'.resolved, hres'], hmv.type _ hused,
      fun ht max => ?_⟩
    obtain ⟨hrec, hdata⟩ := moved_file hmv holddir hnewdir hused ht
    rw [hans'.read, hans.read, fileBytes, fileBytes, hres, hres', Option.bind_some, Option.bind_some]
    dsimp only
    rw [hrec, bytesFrom_congr hdata]
  · intro other hnot hres
    rw [hans.resolved] at hres
    rw [hans'.resolved]
    by_cases hslash : other.bytes.head? = some slash
    · rw [resolve_locate hre.before other.noNul hslash, Option.map_eq_none_iff] at hres
      rw [resolve_locate hre.after other.noNul hslash, Option.map_eq_none_iff]
      rw [hnew] at hnot
      by_cases hbelow : oldNames ++ [oldLeaf] <+: tokens other.bytes
      · obtain ⟨rest, hrest⟩ := hbelow
        have hgone := hre.gone
        rw [locate] at hgone ⊢
        rw [← hrest, List.foldlM_append, hgone]
        rfl
      · rw [hre.others _ (fun _ => noNul_tokens other.noNul) hbelow hnot, hres]
    · rw [resolve, if_neg hslash]
  · intro i inode hstored ht
    obtain ⟨hused, rfl⟩ := stored_used (holds_seen hu.holds) hstored
    obtain ⟨hrec, hdata⟩ := moved_file hmv holddir hnewdir hused ht
    have hused' := (hmv.used i.toNat).mpr hused
    have hseen := holds_seen hw.holds
    refine ⟨⟨hstored.1, hstored.2.1, ?_, ?_⟩, fun l => ?_⟩
    · rw [hseen.inodeMarked i hstored.1 hstored.2.1]
      exact hused'.bit
    · rw [hseen.inode, record_used hw.consistent.toAllocated hused', hrec]
    · rw [steady_blockRead hu hused, ← hdata l, ← hrec, steady_blockRead hw hused']
  · intro i h0 h512
    rw [(holds_seen hw.holds).inodeMarked i h0 h512, (holds_seen hu.holds).inodeMarked i h0 h512,
      Bool.eq_iff_iff]
    have hiff := hmv.used i.toNat
    exact ⟨fun hbit => (hiff.mp ⟨pos_of_ne_zero h0, h512, hbit⟩).bit,
      fun hbit => (hiff.mpr ⟨pos_of_ne_zero h0, h512, hbit⟩).bit⟩
  · intro i
    simp only [hans.resolved, hans'.resolved]
    exact relinked_reachable hre (fun t ht => tokens_words (hold ▸ ht))
      (fun t ht => tokens_words (hnew ▸ ht)) i
  · intro p q i x y hp hq
    rw [hans'.resolved] at hp hq
    obtain ⟨-, -, -, hlp⟩ := resolve_used hre.after p.noNul hp
    obtain ⟨-, -, -, hlq⟩ := resolve_used hre.after q.noNul hq
    exact locate_unique hre.after _ (fun _ => noNul_tokens p.noNul) _ _
      (fun _ => noNul_tokens q.noNul) hlp hlq

theorem locate_above {names rest : List (List UInt8)} (h : locate c names = none) :
    locate c (names ++ rest) = none := by
  rw [locate] at h ⊢
  rw [List.foldlM_append, h]
  rfl

theorem renamed_relinked {newParentPath : List UInt8} {inodeId newId : UInt32} {e₀ : Dirent} {n : ℕ}
    (h : Consistent c)
    (hat : EntryAt c old.bytes oldParent inodeId.toNat oldLeaf oldNames e₀ b k n)
    (hsplit : xfsSplitParent new.bytes = some (newParentPath, newLeaf))
    (hres : resolve c newParentPath = some (newId, c.inode newId.toNat))
    (hfind : dirFind c (c.inode newId.toNat) newLeaf = none)
    (hmv : Moved c c' oldParent b k newId.toNat
      (makeDirent newLeaf inodeId (c.inode inodeId.toNat).type))
    (hout : ¬ tokens old.bytes <+: tokens new.bytes) :
    Relinked c c' oldParent newId.toNat inodeId.toNat oldNames (tokens newParentPath) oldLeaf
      newLeaf := by
  obtain ⟨-, -, hleaf, htok, hp0⟩ := split_parent_some new.noNul hsplit
  obtain ⟨hused, -, -, hloc⟩ := resolve_used h hp0 hres
  have hchild : childOf c newId.toNat newLeaf = none := by
    rw [childOf, hfind]
    rfl
  refine ⟨h, hmv.consistent, fun t ht => ?_, fun t ht => ?_, fun hp => hout ?_, hat.located, hloc, ?_,
    hchild, fun d name hd hn => ?_⟩
  · exact noNul_tokens old.noNul (hat.tokens ▸ ht)
  · exact noNul_tokens new.noNul (htok ▸ ht)
  · rw [hat.tokens, htok]
    exact hp.trans (List.prefix_append _ _)
  · rw [childOf, hat.found]
    exact congrArg some hat.target
  · rw [moved_childOf h hmv hat.live hused hd hn, nameOf_makeDirent hleaf.length_lt, hat.name,
      inodeId_makeDirent]

theorem moved_outside {x : UInt32 × Inode} (h : Consistent c) (hhead : old.bytes.head? = some slash)
    (hnew : resolve c new.bytes = some x) (hgone : resolve c old.bytes = none) :
    ¬ tokens old.bytes <+: tokens new.bytes := by
  rintro ⟨rest, hrest⟩
  rw [resolve_locate h old.noNul hhead, Option.map_eq_none_iff] at hgone
  rw [resolve_locate h new.noNul (resolve_head hnew), ← hrest, locate_above hgone] at hnew
  cases hnew

end Moving

/-- On every volume that successful calls have made of a formatted one, a rename that returns true
moves exactly one node of the tree if and only if what it does not check holds. -/
theorem rename_moves_iff {calls : List (PublicCall × Bool)} (hfresh : FreshMount label s t)
    (hf : ∀ i, s.machine.dev.faults i = false)
    (hsmall : xfsFsBlocks (System.geometry s) ≤ 32768)
    (hrun : Run (System.geometry s) t calls u) (hok : ∀ c ∈ calls, c.2 = true)
    (old new : CString) (hcall : (u.call (lowered (k64XfsRename old new))).1.isSome = true) :
    NodeMoved u (u.call (lowered (k64XfsRename old new))).2 old new ↔ RenameSafe u old new := by
  obtain ⟨-, hdev, -⟩ := fresh_holds hfresh hf hsmall
  obtain ⟨V, hV⟩ := fresh_run_steady hfresh hf hsmall hrun hok
  have h := hV.consistent
  obtain ⟨hm, j, V', he, hW, hans'⟩ := operation_stepped (o := .rename old new) hV
    (sector_of_ok hdev) (Nat.le_refl _) hcall
  change Steady _ (u.call (lowered (k64XfsRename old new))).2 V' at hW
  change Answers (u.call (lowered (k64XfsRename old new))).2 V'.content at hans'
  have hans := steady_answers hV hm
  obtain ⟨oldParent, inodeId, newId, oldLeaf, newLeaf, newParentPath, oldNames, e₀, b, k, n, hat,
    hsplit, hres, hfind, hren⟩ := rename_cases h old.noNul new.noNul he
  obtain ⟨hhead', -, hleaf, htok, hp0⟩ := split_parent_some new.noNul hsplit
  obtain ⟨hused, -, -, hloc⟩ := resolve_used h hp0 hres
  constructor
  · intro hmoved
    obtain ⟨i, x, y, -, hnew⟩ := hmoved.target
    have hgone := hmoved.gone
    rw [hans'.resolved] at hnew hgone
    have hout := moved_outside hren.consistent hat.head hnew hgone
    -- the parent of the new name is found again, so the new entry is there
    obtain ⟨z, hpar, htype, -⟩ := hmoved.others ⟨newParentPath, hp0⟩ newId _ (fun hp => hout
      (hp.trans (htok ▸ List.prefix_append _ _))) (by rw [hans.resolved]; exact hres)
    rw [hans'.resolved] at hpar
    rw [resolve_split new.noNul hsplit, hpar, Option.bind_some] at hnew
    refine ⟨hout, fun parentPath leaf pid dir hsplit' hres' => ?_⟩
    rw [hsplit] at hsplit'
    obtain ⟨rfl, rfl⟩ := Prod.mk.inj (Option.some.inj hsplit')
    rw [hans.resolved, hres] at hres'
    obtain ⟨rfl, rfl⟩ := Prod.mk.inj (Option.some.inj hres')
    cases hren with
    | moved hd hroom hmv =>
      refine ⟨hd, fun hsame => (hasFreeSlot_iff hV hused).mpr (hroom ?_)⟩
      rw [hat.tokens, List.dropLast_concat] at hsame
      rw [← hsame, hat.located] at hloc
      exact (Option.some.inj hloc).symm
    | intoFile hd hcons =>
      have hnone : dirFind V'.content z newLeaf = none := by
        rw [dirFind, if_neg (htype ▸ hd)]
      rw [descend, hnone] at hnew
      split at hnew <;> cases hnew
    | lost hsame hfull hcons hlive =>
      obtain ⟨hused', rfl, -, -⟩ := resolve_used hcons hp0 hpar
      refine absurd hnew ?_
      rw [descend_eq hcons hused' hleaf.noNul]
      cases hc : childOf V'.content newId.toNat newLeaf with
      | none => rintro ⟨⟩
      | some id =>
        obtain ⟨b', s', e', hl, hname, -⟩ := (childOf_eq_some hcons hused' hleaf.noNul).mp hc
        exact absurd hname ((dirFind_eq_none h hused hleaf.noNul).mp hfind b' s' e' (hlive _ _ _ _ hl))
  · intro hsafe
    obtain ⟨hd, hroom⟩ := hsafe.parent newParentPath newLeaf newId _ hsplit
      (by rw [hans.resolved]; exact hres)
    cases hren with
    | moved _ _ hmv =>
      exact moved_node hV hm hW hans' (renamed_relinked h hat hsplit hres hfind hmv hsafe.outside) hmv
        hat.live.isDir hd hat.tokens htok hat.head hhead'
    | intoFile hnd _ => exact absurd hd hnd
    | lost hsame hfull _ _ =>
      refine absurd hfull ((hasFreeSlot_iff hV hused).mp (hroom ?_))
      rw [hat.tokens, List.dropLast_concat]
      exact locate_unique h oldNames
        (fun t ht => noNul_tokens old.noNul (hat.tokens ▸ List.mem_append_left _ ht)) oldParent _
        (fun t ht => noNul_tokens hp0 ht) hat.located (hsame ▸ hloc)

def pathAB : List UInt8 := pathA ++ [slash, 98]

theorem split_pathAB : xfsSplitParent pathAB = some (pathA, [98]) := by decide

theorem rename_below_file {path new newLeaf leaf : List UInt8} {pid id : UInt32}
    {parent inode : Inode} {n : ℕ} (h : Consistent c) (h0 : (0 : UInt8) ∉ path)
    (hent : entryAt c path = some (pid, parent, leaf, id, inode))
    (hsplit : xfsSplitParent new = some (path, newLeaf)) (hreg : inode.type ≠ typeDirectory)
    (hsize : inode.size = 0) (hcount : inode.extentCount = 0) (halloc : allocRun c 1 = some n) :
    ∃ c', renameEffect c path new = .done 0 c' := by
  have hres : resolve c path = some (id, inode) := by
    rw [entryAt] at hent
    obtain ⟨x, -, hx⟩ := Option.bind_eq_some_iff.mp hent
    obtain ⟨y, -, hy⟩ := Option.bind_eq_some_iff.mp hx
    obtain ⟨z, hz, heq⟩ := Option.map_eq_some_iff.mp hy
    simp only [Prod.mk.injEq] at heq
    rw [hz, ← heq.2.2.2.1, ← heq.2.2.2.2]
  have hslot : freeSlot c inode = none := by
    rw [freeSlot, hsize]
    rfl
  have hadd : added c inode (makeDirent newLeaf id inode.type) =
      some (2, growBy c inode (makeDirent newLeaf id inode.type) n) := by
    rw [added, hslot, hcount, halloc]
    rfl
  obtain ⟨rfl, rfl, names, e₀, b, s, m, hat⟩ := entryAt_some h h0 hent
  have hsmall := h.small
  have hu := hat.live.used
  obtain ⟨-, -, -, -, hun⟩ := allocRun_some halloc
  have hfound : dirFind (growBy c (c.inode id.toNat)
      (makeDirent newLeaf id (c.inode id.toNat).type) n) (c.inode pid.toNat) leaf = some (e₀, b, s) := by
    rw [dirFind_congr fun l => dataOf_growBy _ (h.fits _ hu.pos hu.le) (by omega)
      (unmarked_not_owned h hu (hun n (Nat.le_refl _) (by omega))) _ l, hat.found]
  have hnew : dirFind c (c.inode id.toNat) newLeaf = none := by
    rw [dirFind, if_neg hreg]
  rw [renameEffect, hent, hsplit]
  simp only [hres, hnew, ne_eq, not_true_eq_false, if_false, hadd, hfound, hat.stored]
  exact ⟨_, rfl⟩

theorem entryAt_pathA {total : ℕ} {data : ℕ → XBlock} {generation : UInt64} {mode uid gid : UInt32}
    (h84 : 84 ≤ total) (hsmall : total ≤ 32768) :
    Consistent (firstFile total data generation mode uid gid) ∧
      ∃ parent, entryAt (firstFile total data generation mode uid gid) pathA =
        some (1, parent, [97], 2, (firstFile total data generation mode uid gid).inode 2) := by
  obtain ⟨hc, hres, -⟩ := @resolve_first total data mode uid gid generation h84 hsmall
  have hroot : resolve (firstFile total data generation mode uid gid) [slash] =
      some (1, (firstFile total data generation mode uid gid).inode 1) := by
    rw [resolve_locate hc (by decide) rfl, tokens_root, locate, List.foldlM_nil,
      Option.pure_def, Option.map_some]
    rfl
  refine ⟨hc, (firstFile total data generation mode uid gid).inode 1, ?_⟩
  rw [entryAt, split_pathA, Option.bind_some]
  dsimp only
  rw [hroot, Option.bind_some, hres, Option.map_some]

theorem created_renamed {total : ℕ} {data : ℕ → XBlock} {dev : Geometry} (h84 : 84 ≤ total)
    (hsmall : total ≤ 32768) (hV : Steady total s (mountedVolume (formatted total data) 1))
    (hsector : WholeSectors dev)
    (ht : total ≤ xfsFsBlocks dev) :
    (s.call (lowered (k64XfsCreate ⟨pathA, by decide⟩ 0o644 0 0))).1.isSome = true ∧
    ((s.call (lowered (k64XfsCreate ⟨pathA, by decide⟩ 0o644 0 0))).2.call
      (lowered (k64XfsRename ⟨pathA, by decide⟩ ⟨pathAB, by decide⟩))).1.isSome = true := by
  obtain ⟨hok, V, hV', hm, hcontent, -⟩ := first_created h84 hsmall hV hsector ht
  obtain ⟨hcons, parent, hent⟩ := @entryAt_pathA total data 1 0o644 0 0 h84 hsmall
  obtain ⟨c', hren⟩ := rename_below_file hcons (by decide) hent split_pathAB
    (show typeRegular ≠ typeDirectory by decide) rfl rfl (firstFile_alloc h84 hsmall)
  refine ⟨hok, operation_succeeds (o := .rename ⟨pathA, by decide⟩ ⟨pathAB, by decide⟩) (k := 0)
    (c := c') hV' hm ?_ hsector ht⟩
  rw [hcontent, Operation.effect]
  exact hren

/-- The small volume with an empty file `/a`. -/
def fileSystem : System :=
  ((freshSystem smallDevice).call (lowered (k64XfsCreate ⟨pathA, by decide⟩ 0o644 0 0))).2

theorem fileSystem_reached :
    Run smallDevice.toGeometry (freshSystem smallDevice)
      [(.operation (.create ⟨pathA, by decide⟩ 0o644 0 0), true)] fileSystem ∧
    (fileSystem.call (lowered (k64XfsRename ⟨pathA, by decide⟩ ⟨pathAB, by decide⟩))).1.isSome =
      true := by
  obtain ⟨total, h84, hsmall, hsteady, hsector, ht⟩ := small_steady
  obtain ⟨hok, hren⟩ := created_renamed h84 hsmall hsteady hsector ht
  exact ⟨first_call (.create ⟨pathA, by decide⟩ 0o644 0 0) hok, hren⟩

theorem rename_file_below_itself :
    NodeMoved fileSystem (fileSystem.call (lowered (k64XfsRename ⟨pathA, by decide⟩
        ⟨pathAB, by decide⟩))).2 ⟨pathA, by decide⟩ ⟨pathAB, by decide⟩ ↔
      RenameSafe fileSystem ⟨pathA, by decide⟩ ⟨pathAB, by decide⟩ :=
  rename_moves_iff fresh_smallDevice (fun _ => rfl) (by decide) fileSystem_reached.1
    (by simp) _ _ fileSystem_reached.2

/-- The call returns true, but the node it moved is not at `/a/b`. -/
theorem renamed_file_lost :
    (fileSystem.call (lowered (k64XfsRename ⟨pathA, by decide⟩ ⟨pathAB, by decide⟩))).1.isSome =
        true ∧
      ¬ NodeMoved fileSystem (fileSystem.call (lowered (k64XfsRename ⟨pathA, by decide⟩
        ⟨pathAB, by decide⟩))).2 ⟨pathA, by decide⟩ ⟨pathAB, by decide⟩ := by
  refine ⟨fileSystem_reached.2, fun hmoved => ?_⟩
  obtain ⟨V, hV⟩ := fresh_run_steady fresh_smallDevice (fun _ => rfl) (by decide)
    fileSystem_reached.1 (by simp)
  obtain ⟨-, hdev, -⟩ := fresh_holds fresh_smallDevice (fun _ => rfl) (by decide)
  obtain ⟨-, -, V', -, hW, hans⟩ := operation_stepped
    (o := .rename ⟨pathA, by decide⟩ ⟨pathAB, by decide⟩) hV (sector_of_ok hdev) (Nat.le_refl _)
    fileSystem_reached.2
  obtain ⟨i, x, y, -, hnew⟩ := hmoved.target
  have hgone := hmoved.gone
  refine moved_outside hW.consistent rfl
    ((hans.resolved _).symm.trans hnew) ((hans.resolved _).symm.trans hgone) ?_
  decide

end XfsRenaming
