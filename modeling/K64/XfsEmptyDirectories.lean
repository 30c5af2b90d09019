import K64.XfsRenaming

/-! # Removing empty directories

`k64_xfs_rmdir` looks for entries in the first block only, and only when the directory has no other.
A directory never gives a block back before it is removed. -/
namespace XfsEmptyDirectories

open ByteCodec XfsFormat XfsCache XfsJournal XfsInode XfsCalls XfsDirectory XfsOperations XfsVolume
  XfsVolumeLifecycle XfsConsistency XfsLookup XfsPaths XfsDirectoryUpdate XfsContentChanges
  XfsOperationEffects XfsUnlinkEffects XfsEffectsConsistent XfsResolving XfsMounting XfsFormatting
  XfsSystem XfsRuns XfsAllocation XfsFileMap XfsSmallVolume XfsTree XfsRenaming

variable {c c' : Content} {total : ℕ} {s t u : System} {V : Volume} {label : CString}

/-- The path up to the slash before its last component. -/
def parentPart (path : List UInt8) : List UInt8 :=
  (path.rdropWhile (· == slash)).rdropWhile (· != slash)

/-- The inode and the blocks of a directory are not in use. -/
structure Freed (w : System) (id : UInt32) (dir : Inode) : Prop where
  inode : inodeMarked w id = false
  blocks : ∀ ex ∈ Inode.extents dir, ∀ b ∈ Extent.blocks ex, blockMarked w b = false

/-- `k64_xfs_rmdir` succeeds exactly when the directory has no entry, and then frees it. -/
structure RemovesEmpty (u : System) (path : CString) (id : UInt32) (dir : Inode) : Prop where
  empty : (u.call (lowered (k64XfsRmdir path))).1.isSome = true ↔ dirEntries u dir = []
  freed : (u.call (lowered (k64XfsRmdir path))).1.isSome = true →
    Freed (u.call (lowered (k64XfsRmdir path))).2 id dir

theorem dropExtents_unmarked (exts : List Extent) : ∀ (c : Content) (b : ℕ),
    (c.blockUsed b = false ∨ ∃ ex ∈ exts, b ∈ Extent.blocks ex) →
    (dropExtents c exts).blockUsed b = false := by
  induction exts with
  | nil =>
    rintro c b (hb | ⟨ex, hex, -⟩)
    · exact hb
    · cases hex
  | cons ex rest ih =>
    intro c b h
    refine ih _ b ?_
    by_cases hrun : b ∈ Extent.blocks ex
    · exact Or.inl (if_pos (mem_extent_blocks.mp hrun))
    · rcases h with hb | ⟨ex', hex', hb⟩
      · exact Or.inl ((if_neg fun h => hrun (mem_extent_blocks.mpr h)).trans hb)
      · rcases List.mem_cons.mp hex' with rfl | hex'
        · exact absurd hb hrun
        · exact Or.inr ⟨ex', hex', hb⟩

theorem unlinked_marks (c : Content) (parent inode : Inode) (id b s n : ℕ) :
    (unlinked c parent inode id b s n).inodeUsed id = false ∧
    (unlinked c parent inode id b s n).total = c.total ∧
    ∀ ex ∈ Inode.extents inode, ∀ k ∈ Extent.blocks ex,
      (unlinked c parent inode id b s n).blockUsed k = false := by
  refine ⟨Function.update_self .., (dropExtents_fields (Inode.extents inode) c).2.2.2,
    fun ex hex k hk => ?_⟩
  exact dropExtents_unmarked _ c k (Or.inr ⟨ex, hex, hk⟩)

variable {inode : Inode} {path : List UInt8} {id : UInt32}

theorem last_component (h : Consistent c) (h0 : (0 : UInt8) ∉ path)
    (hres : resolve c path = some (id, inode)) (hroot : id ≠ 1) :
    path.rdropWhile (· == slash) ≠ [] ∧
      NameOk ((path.rdropWhile (· == slash)).rtakeWhile (· != slash)) := by
  obtain ⟨-, -, -, hloc⟩ := resolve_used h h0 hres
  have hne : path.rdropWhile (· == slash) ≠ [] := by
    intro hnil
    rw [List.rdropWhile_eq_nil_iff] at hnil
    have htok : tokens ([] ++ path) = tokens [] :=
      tokens_slashes [] fun x hx => by simpa using hnil x hx
    rw [List.nil_append] at htok
    rw [htok, tokens_nil, locate, List.foldlM_nil] at hloc
    exact hroot (UInt32.toNat_inj.mp (Option.some.inj hloc).symm)
  refine ⟨hne, ?_⟩
  obtain ⟨init, leaf, ss, hpath, hp, hleaf, hnoslash, hss⟩ := path_shape (resolve_head hres) hne
  have hlne : leaf ≠ [] := by
    rintro rfl
    have hlast := List.rdropWhile_last_not (· == slash) path hne
    simp only [hp] at hlast
    simp at hlast
  have htok : tokens path = tokens init ++ [leaf] := by
    rw [hpath, tokens_slashes _ hss, tokens_slash, tokens_word hnoslash hlne]
  have hn : ∀ name ∈ tokens init ++ [leaf], (0 : UInt8) ∉ name := fun name hname =>
    noNul_tokens h0 (htok ▸ hname)
  rw [htok, locate_append] at hloc
  obtain ⟨dir, hdir, hchild⟩ := Option.bind_eq_some_iff.mp hloc
  have hu := locate_used h (fun name hm => hn name (List.mem_append_left _ hm)) hdir
  obtain ⟨b, k, e, hlive, hname, -⟩ := (childOf_eq_some h hu (hn leaf (by simp))).mp hchild
  obtain ⟨m, hm, he⟩ := (h.entries _ _ _ _ hlive).made
  rw [hleaf, ← hname, he, nameOf_makeDirent hm.length_lt]
  exact hm

theorem split_iff (h : Consistent c) (h0 : (0 : UInt8) ∉ path)
    (hres : resolve c path = some (id, inode)) (hroot : id ≠ 1) :
    (xfsSplitParent path).isSome = true ↔ (parentPart path).length ≤ 256 := by
  obtain ⟨hne, hok⟩ := last_component h h0 hres hroot
  have hlen : (path.rdropWhile (· == slash)).length -
      ((path.rdropWhile (· == slash)).rtakeWhile (· != slash)).length =
      (parentPart path).length := by
    have := congrArg List.length (List.rdropWhile_append_rtakeWhile (p := (· != slash))
      (l := path.rdropWhile (· == slash)))
    rw [List.length_append] at this
    rw [parentPart]
    omega
  have hlt := hok.length_lt
  have hvalid := hok.valid
  unfold xfsSplitParent
  rw [if_neg (by simpa using resolve_head hres)]
  dsimp only
  rw [if_neg hne, if_neg (by omega), hlen, hvalid]
  split
  · simp only [Option.isSome_none, Bool.false_eq_true, false_iff]
    omega
  · simp only [if_true, Option.isSome_some, true_iff]
    omega

theorem of_entryAt {leaf : List UInt8} {pid : UInt32} {parent : Inode}
    (h : entryAt c path = some (pid, parent, leaf, id, inode)) :
    (xfsSplitParent path).isSome = true ∧ resolve c path = some (id, inode) := by
  obtain ⟨x, hsplit, h⟩ := Option.bind_eq_some_iff.mp h
  obtain ⟨y, -, h⟩ := Option.bind_eq_some_iff.mp h
  obtain ⟨z, hres, h⟩ := Option.map_eq_some_iff.mp h
  simp only [Prod.mk.injEq] at h
  obtain ⟨-, -, -, rfl, rfl⟩ := h
  exact ⟨Option.isSome_iff_exists.mpr ⟨x, hsplit⟩, hres⟩

theorem entryAt_of_split (h0 : (0 : UInt8) ∉ path)
    (hres : resolve c path = some (id, inode)) (hsplit : (xfsSplitParent path).isSome = true) :
    ∃ pid parent leaf, entryAt c path = some (pid, parent, leaf, id, inode) := by
  obtain ⟨⟨parentPath, leaf⟩, hsplit⟩ := Option.isSome_iff_exists.mp hsplit
  have hpar := hres
  rw [resolve_split h0 hsplit] at hpar
  obtain ⟨⟨pid, parent⟩, hpar, -⟩ := Option.bind_eq_some_iff.mp hpar
  refine ⟨pid, parent, leaf, ?_⟩
  rw [entryAt, hsplit, Option.bind_some]
  dsimp only
  rw [hpar, Option.bind_some, hres, Option.map_some]

theorem block_empty_iff (h : Consistent c) {id : ℕ} (hu : Used c id)
    (ht : (c.inode id).type = typeDirectory) (hsize : (c.inode id).size = 4096) :
    (List.range 25).all (fun s => (dirent (c.dataOf (c.inode id) 0) s).inodeId == 0) = true ↔
      ∀ b s e, ¬ Live c id b s e := by
  have hshape := ((h.shape _ hu).dir ht).size
  rw [hsize] at hshape
  have hone : (c.inode id).extentCount.toNat = 1 := by
    simp at hshape
    omega
  rw [List.all_eq_true]
  constructor
  · intro hall b k e hl
    have hb : b = 0 := by
      have := hl.block
      omega
    have hslot := hall k (List.mem_range.mpr hl.slot)
    rw [← hb, hl.entry] at hslot
    exact hl.id (by simpa using hslot)
  · intro hno k hk
    by_contra hx
    exact hno 0 k _ ⟨hu, ht, by omega, List.mem_range.mp hk, rfl, by simpa using hx⟩

variable {dir : Inode}

theorem rmdir_effect_iff (h : Consistent c) {path : CString}
    (hres : resolve c path.bytes = some (id, dir)) (ht : dir.type = typeDirectory)
    (hroot : id ≠ 1) :
    (∃ k c', rmdirEffect c path.bytes = .done k c') ↔
      (∀ b s e, ¬ Live c id.toNat b s e) ∧ dir.size = 4096 ∧
        (parentPart path.bytes).length ≤ 256 := by
  obtain ⟨hu, rfl, -, -⟩ := resolve_used h path.noNul hres
  rw [← split_iff h path.noNul hres hroot]
  constructor
  · rintro ⟨k, c', he⟩
    rw [rmdirEffect] at he
    split at he
    · cases he
    next pid parent leaf id' inode' hent =>
      obtain ⟨hsplit, hres'⟩ := of_entryAt hent
      obtain ⟨rfl, rfl⟩ := Prod.mk.inj (Option.some.inj (hres.symm.trans hres'))
      split at he
      · next hcheck =>
        exact ⟨(block_empty_iff h hu ht hcheck.2.1).mp hcheck.2.2, hcheck.2.1, hsplit⟩
      · cases he
  · rintro ⟨hno, hsize, hsplit⟩
    obtain ⟨pid, parent, leaf, hent⟩ := entryAt_of_split path.noNul hres hsplit
    obtain ⟨rfl, -, names, e, b, k, n, hat⟩ := entryAt_some h path.noNul hent
    rw [rmdirEffect, hent]
    dsimp only
    rw [if_pos ⟨ht, hsize, (block_empty_iff h hu ht hsize).mpr hno⟩, unlinkEffect, hat.found]
    dsimp only
    rw [hat.stored]
    exact ⟨_, _, rfl⟩

theorem rmdir_marks (h : Consistent c) {path : CString} {k : ℕ}
    (hres : resolve c path.bytes = some (id, dir)) (he : rmdirEffect c path.bytes = .done k c') :
    c'.inodeUsed id.toNat = false ∧ c'.total = c.total ∧
      ∀ ex ∈ Inode.extents dir, ∀ b ∈ Extent.blocks ex, c'.blockUsed b = false := by
  rw [rmdirEffect] at he
  split at he
  · cases he
  next pid parent leaf id' inode' hent =>
    obtain ⟨rfl, -, names, e, b, s, n, hat⟩ := entryAt_some h path.noNul hent
    obtain ⟨-, hres'⟩ := of_entryAt hent
    obtain ⟨rfl, rfl⟩ := Prod.mk.inj (Option.some.inj (hres.symm.trans hres'))
    split at he
    · rw [unlinkEffect, hat.found] at he
      dsimp only at he
      rw [hat.stored] at he
      cases he
      exact unlinked_marks c _ _ _ _ _ _
    · cases he

theorem resolved_mounted (h : Steady total u V) {x : UInt32 × Inode}
    (hres : resolved u path = some x) : V.mounted = true := by
  by_contra hm
  rw [Bool.not_eq_true] at hm
  have hnone : resolved u path = none := answer_of_wp h.holds ((wp_resolve_unmounted hm).mpr rfl)
  rw [hnone] at hres
  cases hres

theorem dirEntries_nil_iff (h : Steady total u V) {id : ℕ} (hu : Used V.content id)
    (ht : (V.content.inode id).type = typeDirectory) :
    dirEntries u (V.content.inode id) = [] ↔ ∀ b s e, ¬ Live V.content id b s e := by
  rw [steady_dirEntries h hu, List.eq_nil_iff_forall_not_mem]
  constructor
  · exact fun hno b s e hl => hno e ((mem_entries h.consistent hu ht).mpr ⟨b, s, hl⟩)
  · intro hno e he
    obtain ⟨b, s, hl⟩ := (mem_entries h.consistent hu ht).mp he
    exact hno b s e hl

variable {dev : Geometry}

theorem rmdir_some_iff (h : Steady total u V)
    (hsector : WholeSectors dev)
    (hdev : total ≤ xfsFsBlocks dev) {path : CString}
    (hres : resolved u path.bytes = some (id, dir)) (ht : dir.type = typeDirectory)
    (hroot : id ≠ 1) :
    (u.call (lowered (k64XfsRmdir path))).1.isSome = true ↔
      dirEntries u dir = [] ∧ dir.size = 4096 ∧ (parentPart path.bytes).length ≤ 256 := by
  have hm := resolved_mounted h hres
  rw [(steady_answers h hm).resolved] at hres
  obtain ⟨hu, hdir, -, -⟩ := resolve_used h.consistent path.noNul hres
  have hempty : dirEntries u dir = [] ↔ ∀ b s e, ¬ Live V.content id.toNat b s e := by
    rw [hdir]
    exact dirEntries_nil_iff h hu (hdir ▸ ht)
  rw [hempty, ← rmdir_effect_iff h.consistent hres ht hroot]
  constructor
  · intro hcall
    obtain ⟨-, k, V', he, -⟩ := operation_stepped (o := .rmdir path) h hsector hdev hcall
    exact ⟨k, V'.content, he⟩
  · rintro ⟨k, c', he⟩
    exact operation_succeeds (o := .rmdir path) h hm he hsector hdev

theorem rmdir_frees (h : Steady total u V)
    (hsector : WholeSectors dev)
    (hdev : total ≤ xfsFsBlocks dev) {path : CString}
    (hres : resolved u path.bytes = some (id, dir))
    (hcall : (u.call (lowered (k64XfsRmdir path))).1.isSome = true) :
    Freed (u.call (lowered (k64XfsRmdir path))).2 id dir := by
  obtain ⟨hm, k, V', he, hW, -⟩ := operation_stepped (o := .rmdir path) h hsector hdev hcall
  rw [(steady_answers h hm).resolved] at hres
  obtain ⟨hu, hdir, -, -⟩ := resolve_used h.consistent path.noNul hres
  obtain ⟨hinode, htotal, hblocks⟩ := rmdir_marks h.consistent hres he
  have hseen : Seen (u.call (lowered (k64XfsRmdir path))).2 V'.content := holds_seen hW.holds
  refine ⟨?_, fun ex hex b hb => ?_⟩
  · rw [hseen.inodeMarked id (fun h => ?_) hu.le, hinode]
    have hpos := hu.pos
    rw [h] at hpos
    exact absurd hpos (by decide)
  · have hfit := blocks_fit (h.consistent.fits _ hu.pos hu.le) (mem_blocks_of_extent (hdir ▸ hex) hb)
    rw [hseen.blockMarked b (by rw [htotal]; exact hfit.2), hblocks ex hex b hb]

/-- On every volume that successful calls have made of a formatted one, `k64_xfs_rmdir` is right
about a directory unless that is empty and has grown, or has so long a path to its parent. -/
theorem removes_empty_iff {calls : List (PublicCall × Bool)} (hfresh : FreshMount label s t)
    (hf : ∀ i, s.machine.dev.faults i = false)
    (hsmall : xfsFsBlocks (System.geometry s) ≤ 32768)
    (hrun : Run (System.geometry s) t calls u) (hok : ∀ c ∈ calls, c.2 = true) (path : CString)
    (id : UInt32) (dir : Inode) (hres : resolved u path.bytes = some (id, dir))
    (ht : dir.type = typeDirectory) (hroot : id ≠ 1) :
    RemovesEmpty u path id dir ↔
      (dirEntries u dir = [] → dir.size = 4096 ∧ (parentPart path.bytes).length ≤ 256) := by
  obtain ⟨-, hdev, -⟩ := fresh_holds hfresh hf hsmall
  obtain ⟨V, hV⟩ := fresh_run_steady hfresh hf hsmall hrun hok
  have hsector := sector_of_ok hdev
  have hsome := rmdir_some_iff hV hsector (Nat.le_refl _) hres ht hroot
  constructor
  · exact fun h hnil => (hsome.mp (h.empty.mpr hnil)).2
  · intro h
    refine ⟨⟨fun hcall => (hsome.mp hcall).1, fun hnil => hsome.mpr ⟨hnil, h hnil⟩⟩, ?_⟩
    exact fun hcall => rmdir_frees hV hsector (Nat.le_refl _) hres hcall

def firstDir (total : ℕ) (data : ℕ → XBlock) (generation : UInt64) (mode uid gid : UInt32) :
    Content :=
  putIn (freshDir (formatted total data) (newInode generation 2 typeDirectory mode uid gid) 83)
    (Inode.sealed formatRoot) (makeDirent [97] 2 typeDirectory) 0 0 82

variable {data : ℕ → XBlock}

theorem mkdir_pathA (h84 : 84 ≤ total) (hsmall : total ≤ 32768)
    (generation : UInt64) (mode uid gid : UInt32) :
    createEffect (formatted total data) generation pathA typeDirectory mode uid gid =
      .done 1 (firstDir total data generation mode uid gid) := by
  have hslot : ∀ i, freeSlot (freshDir (formatted total data) i 83) (Inode.sealed formatRoot) =
      some (0, 0) := by
    intro i
    have hdata : (freshDir (formatted total data) i 83).dataOf (Inode.sealed formatRoot) 0 =
        Block.zero := by
      rw [Content.dataOf, lookup_formatRoot]
      rfl
    rw [freeSlot, sizeBlocks_formatRoot, freeFrom, hdata, slotFree_zero]
  have hadd : ∀ i, added (freshDir (formatted total data) i 83) (Inode.sealed formatRoot)
      (makeDirent [97] 2 typeDirectory) = some (1, putIn (freshDir (formatted total data) i 83)
        (Inode.sealed formatRoot) (makeDirent [97] 2 typeDirectory) 0 0 82) := by
    intro i
    rw [added, hslot i]
    simp only [lookup_formatRoot, Option.map_some]
  rw [createEffect, creatable_first h84 hsmall split_pathA (by decide)]
  simp only [spareInode_formatted, prepared, if_true, formatted_alloc h84 hsmall, Option.map_some]
  rw [show (UInt32.ofNat 2) = 2 from rfl, hadd]
  rfl

/-- The path of 257 slashes and `a`. -/
def pathSlashes : List UInt8 := List.replicate 257 slash ++ [97]

theorem noNul_pathSlashes : (0 : UInt8) ∉ pathSlashes := by
  simp only [pathSlashes, List.mem_append, List.mem_replicate, List.mem_singleton, not_or]
  exact ⟨fun h => absurd h.2 (by decide), by decide⟩

theorem head_pathSlashes : pathSlashes.head? = some slash := by
  rw [pathSlashes, List.replicate_succ]
  rfl

theorem tokens_slashes_word (n : ℕ) (xs : List UInt8) :
    tokens (List.replicate n slash ++ xs) = tokens xs := by
  induction n with
  | zero => rfl
  | succ n ih =>
    have hstep := tokens_slash [] (List.replicate n slash ++ xs)
    rw [tokens_nil, List.nil_append, List.nil_append] at hstep
    rw [List.replicate_succ, List.cons_append, hstep, ih]

theorem tokens_pathSlashes : tokens pathSlashes = [[97]] := by
  rw [pathSlashes, tokens_slashes_word]
  decide

theorem parentPart_pathSlashes : (parentPart pathSlashes).length = 257 := by
  have hlast : ∀ xs : List UInt8, (xs ++ [(97 : UInt8)]).rdropWhile (· == slash) = xs ++ [97] :=
    fun xs => List.rdropWhile_concat_neg _ _ _ (by decide)
  rw [parentPart, pathSlashes, hlast, List.rdropWhile_concat_pos _ _ _ (by decide),
    List.replicate_succ', List.rdropWhile_concat_neg _ _ _ (by decide), List.length_append,
    List.length_replicate]
  rfl

theorem created_empty (h84 : 84 ≤ total)
    (hsmall : total ≤ 32768) (hV : Steady total s (mountedVolume (formatted total data) 1))
    (hsector : WholeSectors dev)
    (ht : total ≤ xfsFsBlocks dev) :
    (s.call (lowered (k64XfsMkdir ⟨pathA, by decide⟩ 0o755 0 0))).1.isSome = true ∧
    ∃ dir, dir.type = typeDirectory ∧
      dirEntries (s.call (lowered (k64XfsMkdir ⟨pathA, by decide⟩ 0o755 0 0))).2 dir = [] ∧
      resolved (s.call (lowered (k64XfsMkdir ⟨pathA, by decide⟩ 0o755 0 0))).2 pathSlashes =
        some (2, dir) := by
  have hcons := formatted_consistent data h84 hsmall
  have heff : (Operation.mkdir ⟨pathA, by decide⟩ 0o755 0 0).effect
      (mountedVolume (formatted total data) 1).content
      (mountedVolume (formatted total data) 1).generation =
      .done 1 (firstDir total data 1 0o755 0 0) := by
    rw [Operation.effect]
    exact mkdir_pathA h84 hsmall 1 0o755 0 0
  have hcall := operation_succeeds (o := .mkdir ⟨pathA, by decide⟩ 0o755 0 0) hV rfl heff hsector ht
  obtain ⟨-, k, V', he, hW, hans⟩ := operation_stepped
    (o := .mkdir ⟨pathA, by decide⟩ 0o755 0 0) hV hsector ht hcall
  obtain ⟨-, hcontent⟩ := Effect.done.inj (heff.symm.trans he)
  rw [Operation.effect] at he
  obtain ⟨-, parent, id, names, leaf, hcr⟩ := create_done hV.consistent
    (show (0 : UInt8) ∉ pathA by decide) (Or.inr rfl) he
  have hid : id = 2 := by
    by_contra hne
    refine hcr.fresh ⟨hcr.used.pos, hcr.used.le, ?_⟩
    have hbit := hcr.used.bit
    rw [← hcontent] at hbit
    exact (Function.update_of_ne hne _ _).symm.trans hbit
  subst hid
  refine ⟨hcall, V'.content.inode 2, hcr.type,
    (dirEntries_nil_iff hW hcr.used hcr.type).mpr hcr.empty, ?_⟩
  have hres := hcr.resolve hV.consistent (by decide)
  have hsame : resolve V'.content pathSlashes = resolve V'.content pathA := by
    rw [resolve_locate hW.consistent noNul_pathSlashes head_pathSlashes, tokens_pathSlashes,
      resolve_locate hW.consistent (by decide) rfl, tokens_pathA]
  exact (hans.resolved _).trans (hsame.trans hres)

/-- The small volume with an empty directory `/a`. -/
def dirSystem : System :=
  ((freshSystem smallDevice).call (lowered (k64XfsMkdir ⟨pathA, pathA_noNul⟩ 0o755 0 0))).2

theorem dirSystem_reached :
    Run smallDevice.toGeometry (freshSystem smallDevice)
      [(.operation (.mkdir ⟨pathA, by decide⟩ 0o755 0 0), true)] dirSystem ∧
    ∃ dir, dir.type = typeDirectory ∧ dirEntries dirSystem dir = [] ∧
      resolved dirSystem pathSlashes = some (2, dir) := by
  obtain ⟨total, h84, hsmall, hsteady, hsector, ht⟩ := small_steady
  obtain ⟨hok, hdir⟩ := created_empty h84 hsmall hsteady hsector ht
  exact ⟨first_call (.mkdir ⟨pathA, by decide⟩ 0o755 0 0) hok, hdir⟩

theorem removes_empty_iff_slashes : ∃ dir,
    resolved dirSystem pathSlashes = some (2, dir) ∧
    (RemovesEmpty dirSystem ⟨pathSlashes, noNul_pathSlashes⟩ 2 dir ↔
      (dirEntries dirSystem dir = [] →
        dir.size = 4096 ∧ (parentPart pathSlashes).length ≤ 256)) := by
  obtain ⟨hrun, dir, ht, -, hres⟩ := dirSystem_reached
  exact ⟨dir, hres, removes_empty_iff fresh_smallDevice (fun _ => rfl) (by decide) hrun (by simp)
    ⟨pathSlashes, noNul_pathSlashes⟩ 2 dir hres ht (by decide)⟩

/-- The path leads to an empty directory, but the call refuses it. -/
theorem slashes_refused :
    Run smallDevice.toGeometry (freshSystem smallDevice)
      [(.operation (.mkdir ⟨pathA, by decide⟩ 0o755 0 0), true)] dirSystem ∧
    ∃ dir, resolved dirSystem pathSlashes = some (2, dir) ∧ dir.type = typeDirectory ∧
      dirEntries dirSystem dir = [] ∧
      ¬ RemovesEmpty dirSystem ⟨pathSlashes, noNul_pathSlashes⟩ 2 dir := by
  obtain ⟨hrun, dir, ht, hempty, hres⟩ := dirSystem_reached
  refine ⟨hrun, dir, hres, ht, hempty, fun h => ?_⟩
  obtain ⟨-, hdev, -⟩ := fresh_holds fresh_smallDevice (fun _ => rfl) (by decide)
  obtain ⟨V, hV⟩ := fresh_run_steady fresh_smallDevice (fun _ => rfl) (by decide) hrun (by simp)
  have hshort := ((rmdir_some_iff hV (sector_of_ok hdev) (Nat.le_refl _)
    (show resolved dirSystem (CString.mk pathSlashes noNul_pathSlashes).bytes = _ from hres) ht
    (by decide)).mp (h.empty.mpr hempty)).2.2
  rw [show (parentPart _).length = 257 from parentPart_pathSlashes] at hshort
  omega

end XfsEmptyDirectories
