import K64.XfsAllocation
import K64.XfsFileMap

/-! # Directories as a tree of names

Names are followed from the root. A new entry adds one name, an unlinked one takes one away, and no
other path leads anywhere else than before. A listing shows every name once. -/
namespace XfsTree

open XfsFormat XfsCache XfsJournal XfsInode XfsCalls XfsDirectory XfsOperations XfsVolume
  XfsConsistency XfsLookup XfsPaths XfsDirectoryUpdate XfsContentChanges XfsOperationEffects
  XfsUnlinkEffects XfsEffectsConsistent XfsResolving XfsListing XfsSystem XfsRuns XfsAllocation
  XfsFileMap XfsSmallVolume

variable {c c' : Content}

theorem locate_unique (h : Consistent c) (names : List (List UInt8)) :
    (∀ name ∈ names, (0 : UInt8) ∉ name) → ∀ id names', (∀ name ∈ names', (0 : UInt8) ∉ name) →
    locate c names = some id → locate c names' = some id → names = names' := by
  have hroot : ∀ (pre : List (List UInt8)) (leaf : List UInt8),
      (∀ name ∈ pre ++ [leaf], (0 : UInt8) ∉ name) → locate c (pre ++ [leaf]) ≠ some 1 := by
    intro pre leaf hn hloc
    rw [locate_append] at hloc
    obtain ⟨dir, hdir, hchild⟩ := Option.bind_eq_some_iff.mp hloc
    have hu := locate_used h (fun name hm => hn name (List.mem_append_left _ hm)) hdir
    exact (childOf_used h hu (hn leaf (by simp)) hchild).2 rfl
  induction names using List.reverseRecOn with
  | nil =>
    intro _ id names' hn' hl hl'
    rw [locate, List.foldlM_nil] at hl
    obtain rfl := Option.some.inj hl
    rcases List.eq_nil_or_concat' names' with rfl | ⟨pre, leaf, rfl⟩
    · rfl
    · exact absurd hl' (hroot pre leaf hn')
  | append_singleton pre leaf ih =>
    intro hn id names' hn' hl hl'
    rcases List.eq_nil_or_concat' names' with rfl | ⟨pre', leaf', rfl⟩
    · rw [locate, List.foldlM_nil] at hl'
      obtain rfl := Option.some.inj hl'
      exact absurd hl (hroot pre leaf hn)
    · rw [locate_append] at hl hl'
      obtain ⟨dir, hdir, hchild⟩ := Option.bind_eq_some_iff.mp hl
      obtain ⟨dir', hdir', hchild'⟩ := Option.bind_eq_some_iff.mp hl'
      have hpre : ∀ name ∈ pre, (0 : UInt8) ∉ name := fun name hm =>
        hn name (List.mem_append_left _ hm)
      have hpre' : ∀ name ∈ pre', (0 : UInt8) ∉ name := fun name hm =>
        hn' name (List.mem_append_left _ hm)
      obtain ⟨b, s, e, hlive, hname, hid⟩ :=
        (childOf_eq_some h (locate_used h hpre hdir) (hn leaf (by simp))).mp hchild
      obtain ⟨b', s', e', hlive', hname', hid'⟩ :=
        (childOf_eq_some h (locate_used h hpre' hdir') (hn' leaf' (by simp))).mp hchild'
      obtain ⟨rfl, rfl, rfl⟩ := h.unique _ _ _ _ _ _ _ _ hlive hlive'
        (UInt32.toNat_inj.mp (hid.trans hid'.symm))
      have hsame : e = e' := hlive.entry.symm.trans hlive'.entry
      rw [ih hpre dir pre' hpre' hdir hdir', ← hname, ← hname', hsame]

theorem locate_unlinked {parent id : ℕ} {leaf : List UInt8} {names : List (List UInt8)}
    (h : Consistent c) (hun : Unlinked c c' parent id leaf)
    (hn : ∀ name ∈ names ++ [leaf], (0 : UInt8) ∉ name) (hloc : locate c names = some parent)
    (hchild : childOf c parent leaf = some id) (other : List (List UInt8)) :
    (∀ name ∈ other, (0 : UInt8) ∉ name) → ¬ names ++ [leaf] <+: other →
    locate c' other = locate c other := by
  have hnames : ∀ name ∈ names, (0 : UInt8) ∉ name := fun name hm =>
    hn name (List.mem_append_left _ hm)
  induction other using List.reverseRecOn with
  | nil =>
    intro _ _
    rw [locate, locate, List.foldlM_nil, List.foldlM_nil]
  | append_singleton pre name ih =>
    intro hn' hnot
    have hpre : ∀ t ∈ pre, (0 : UInt8) ∉ t := fun t ht => hn' t (List.mem_append_left _ ht)
    rw [locate_append, locate_append,
      ih hpre fun hp => hnot (hp.trans (List.prefix_append _ _))]
    cases hdir : locate c pre with
    | none => rw [Option.bind_none, Option.bind_none]
    | some dir =>
      have hu := locate_used h hpre hdir
      have hname := hn' name (by simp)
      change childOf c' dir name = childOf c dir name
      by_cases hp : dir = parent
      · subst hp
        rw [hun.child name hname, if_neg]
        rintro rfl
        rw [locate_unique h pre hpre dir names hnames hdir hloc] at hnot
        exact hnot (List.prefix_refl _)
      · refine childOf_keeps h hun.consistent hun.keeps ?_ hu hname
        rintro (hd | rfl)
        · exact hp hd
        · -- the unlinked inode is reached through its entry only
          have hid : locate c (names ++ [leaf]) = some dir := by
            rw [locate_append, hloc]
            exact hchild
          rw [locate_unique h pre hpre dir _ hn hdir hid] at hnot
          exact hnot (List.prefix_append _ _)

theorem resolve_number (h : Consistent c) {path : List UInt8} (h0 : (0 : UInt8) ∉ path) :
    (resolve c path).map Prod.fst =
      if path.head? = some slash then (locate c (tokens path)).map UInt32.ofNat else none := by
  unfold resolve
  split
  · rw [walk_eq h fun name => noNul_tokens h0, Option.map_map]
    rfl
  · rfl

theorem mem_blockEntries {b : XBlock} {e : Dirent} :
    e ∈ blockEntries b ↔ ∃ s < 25, dirent b s = e ∧ e.inodeId ≠ 0 := by
  simp only [blockEntries, List.mem_filter, List.mem_map, List.mem_range, bne_iff_ne]
  constructor
  · rintro ⟨⟨s, hs, he⟩, h0⟩
    exact ⟨s, hs, he, h0⟩
  · rintro ⟨s, hs, he, h0⟩
    exact ⟨⟨s, hs, he⟩, h0⟩

theorem mem_entries (h : Consistent c) {dir : ℕ} (hu : Used c dir)
    (ht : (c.inode dir).type = typeDirectory) {e : Dirent} :
    e ∈ entriesFrom c (c.inode dir) 0 (sizeBlocks (c.inode dir).size) ↔
      ∃ b s, Live c dir b s e := by
  rw [entriesFrom, List.mem_flatMap, sizeBlocks_dir (h.shape dir hu) ((h.shape dir hu).dir ht)]
  constructor
  · rintro ⟨b, hb, he⟩
    obtain ⟨s, hs, he, h0⟩ := mem_blockEntries.mp he
    have hb := (List.mem_range'_1.mp hb).2
    exact ⟨b, s, hu, ht, by omega, hs, he, h0⟩
  · rintro ⟨b, s, hl⟩
    have hb := hl.block
    exact ⟨b, List.mem_range'_1.mpr ⟨Nat.zero_le _, by omega⟩,
      mem_blockEntries.mpr ⟨s, hl.slot, hl.entry, hl.id⟩⟩

theorem entries_nodup (h : Consistent c) {dir : ℕ} (hu : Used c dir)
    (ht : (c.inode dir).type = typeDirectory) :
    ((entriesFrom c (c.inode dir) 0 (sizeBlocks (c.inode dir).size)).map nameOf).Nodup := by
  have hlive : ∀ b < (c.inode dir).extentCount.toNat, ∀ s < 25,
      (dirent (c.dataOf (c.inode dir) b) s).inodeId ≠ 0 →
      Live c dir b s (dirent (c.dataOf (c.inode dir) b) s) :=
    fun b hb s hs h0 => ⟨hu, ht, hb, hs, rfl, h0⟩
  rw [sizeBlocks_dir (h.shape dir hu) ((h.shape dir hu).dir ht), List.Nodup, List.pairwise_map,
    entriesFrom, List.pairwise_flatMap]
  constructor
  · intro b hb
    have hb := (List.mem_range'_1.mp hb).2
    rw [blockEntries, List.pairwise_filter, List.pairwise_map]
    refine List.Pairwise.imp_of_mem ?_ List.nodup_range
    intro s s' hs hs' hne h0 h0' heq
    have hl := hlive b (by omega) s (List.mem_range.mp hs) (by simpa using h0)
    have hl' := hlive b (by omega) s' (List.mem_range.mp hs') (by simpa using h0')
    exact hne (h.names _ _ _ _ _ _ _ hl hl' heq).2
  · refine List.Pairwise.imp_of_mem ?_ List.nodup_range'
    intro b b' hb hb' hne e he e' he' heq
    have hb := (List.mem_range'_1.mp hb).2
    have hb' := (List.mem_range'_1.mp hb').2
    obtain ⟨s, hs, rfl, h0⟩ := mem_blockEntries.mp he
    obtain ⟨s', hs', rfl, h0'⟩ := mem_blockEntries.mp he'
    exact hne (h.names _ _ _ _ _ _ _ (hlive b (by omega) s hs h0)
      (hlive b' (by omega) s' hs' h0') heq).1

theorem mem_names (h : Consistent c) {dir : ℕ} (hu : Used c dir)
    (ht : (c.inode dir).type = typeDirectory) {name : List UInt8} {isDir : Bool} :
    (name, isDir) ∈ (entriesFrom c (c.inode dir) 0 (sizeBlocks (c.inode dir).size)).map
        (fun e => (nameOf e, e.type == typeDirectory)) ↔
      NameOk name ∧ ∃ id, childOf c dir name = some id ∧
        isDir = ((c.inode id).type == typeDirectory) := by
  rw [List.mem_map]
  constructor
  · rintro ⟨e, he, heq⟩
    obtain ⟨b, s, hl⟩ := (mem_entries h hu ht).mp he
    have hok := h.entries _ _ _ _ hl
    obtain ⟨name', hname', hmade⟩ := hok.made
    obtain ⟨rfl, rfl⟩ := Prod.mk.inj heq
    have hn : nameOf e = name' := by
      rw [hmade]
      exact nameOf_makeDirent hname'.length_lt _ _
    rw [hn]
    refine ⟨hname', e.inodeId.toNat, ?_, by rw [hok.type]⟩
    exact (childOf_eq_some h hu hname'.noNul).mpr ⟨b, s, e, hl, hn, rfl⟩
  · rintro ⟨hok, id, hchild, rfl⟩
    obtain ⟨b, s, e, hl, hname, rfl⟩ := (childOf_eq_some h hu hok.noNul).mp hchild
    refine ⟨e, (mem_entries h hu ht).mpr ⟨b, s, hl⟩, ?_⟩
    rw [hname, (h.entries _ _ _ _ hl).type]

/-- The entries of a directory, as reading its blocks shows them. -/
def dirEntries (s : System) (dir : Inode) : List Dirent :=
  (List.range' 0 (sizeBlocks dir.size)).flatMap fun b =>
    match (s.call (lowered (readDataBlock dir b))).1 with
    | some block => blockEntries block
    | none => []

/-- `path` is a new node of `w`; every path of `u` leads where it led. -/
structure NodeCreated (u w : System) (path : CString) (type : UInt16) : Prop where
  node : ∃ id inode, resolved w path.bytes = some (id, inode) ∧ inode.type = type ∧
    inodeMarked u id = false ∧ ∀ (other : CString) k i, resolved u other.bytes = some (k, i) → k ≠ id
  others : ∀ (other : CString) id inode, resolved u other.bytes = some (id, inode) →
    ∃ inode', resolved w other.bytes = some (id, inode')

/-- `path` leads nowhere in `w`; every path that is not at or below it leads where it led. -/
structure NodeRemoved (u w : System) (path : CString) : Prop where
  gone : resolved w path.bytes = none
  others : ∀ other : CString, ¬ tokens path.bytes <+: tokens other.bytes →
    (resolved w other.bytes).map Prod.fst = (resolved u other.bytes).map Prod.fst

def listingText (entries : List (List UInt8 × Bool)) : List UInt8 :=
  entries.flatMap fun (name, isDir) => name ++ (if isDir then [slash] else []) ++ [10]

/-- A listing that is not cut off shows every name of the directory once. -/
def Listed (s : System) (path : CString) : Prop :=
  ∃ entries, (entries.map Prod.fst).Nodup ∧
    (∀ name isDir, (name, isDir) ∈ entries ↔ NameOk name ∧ ∃ id inode,
      resolved s (orRoot path ++ slash :: name) = some (id, inode) ∧
        isDir = (inode.type == typeDirectory)) ∧
    ∀ outSize : ℤ, ((listingText entries).length : ℤ) < outSize →
      (s.call (lowered (k64XfsListDir path outSize))).1 = some (listingText entries)

variable {total : ℕ} {s t u : System} {V : Volume} {label : CString}

theorem resolve_child (h : Consistent c) {path name : List UInt8} (h0 : (0 : UInt8) ∉ path)
    (hname : NameOk name) {id : UInt32} {inode : Inode} (hres : resolve c path = some (id, inode)) :
    resolve c (path ++ slash :: name) =
      (childOf c id.toNat name).map fun k => (UInt32.ofNat k, c.inode k) := by
  have hne : name ≠ [] := fun hnil => by
    have := hname.length_pos
    rw [hnil] at this
    exact absurd this (by decide)
  have h0' : (0 : UInt8) ∉ path ++ slash :: name := by
    simp only [List.mem_append, List.mem_cons, not_or]
    exact ⟨h0, by decide, hname.noNul⟩
  have hhead : (path ++ slash :: name).head? = some slash := by
    rw [List.head?_append, resolve_head hres]
    rfl
  obtain ⟨-, -, -, hloc⟩ := resolve_used h h0 hres
  rw [resolve, if_pos hhead, walk_eq h fun _ => noNul_tokens h0', tokens_slash,
    tokens_word hname.noSlash hne, locate_append, hloc]
  rfl

theorem mem_listed (h : Steady total s V) (hm : V.mounted = true) {path : List UInt8}
    (h0 : (0 : UInt8) ∉ path) {id : UInt32} {dir : Inode} (hres : resolved s path = some (id, dir))
    (ht : dir.type = typeDirectory) {name : List UInt8} {isDir : Bool} :
    (name, isDir) ∈ (entriesFrom V.content dir 0 (sizeBlocks dir.size)).map
        (fun e => (nameOf e, e.type == typeDirectory)) ↔
      NameOk name ∧ ∃ id inode, resolved s (path ++ slash :: name) = some (id, inode) ∧
        isDir = (inode.type == typeDirectory) := by
  have hans := steady_answers h hm
  rw [hans.resolved] at hres
  obtain ⟨hu, rfl, -, -⟩ := resolve_used h.consistent h0 hres
  rw [mem_names h.consistent hu ht]
  refine and_congr_right fun hname => ?_
  rw [hans.resolved, resolve_child h.consistent h0 hname hres]
  constructor
  · rintro ⟨k, hk, rfl⟩
    exact ⟨UInt32.ofNat k, V.content.inode k, by rw [hk]; rfl, rfl⟩
  · rintro ⟨k, inode, hk, rfl⟩
    obtain ⟨n, hn, heq⟩ := Option.map_eq_some_iff.mp hk
    obtain ⟨-, rfl⟩ := Prod.mk.inj heq
    exact ⟨n, hn, rfl⟩

theorem listingText_lines (entries : List Dirent) :
    listingText (entries.map fun e => (nameOf e, e.type == typeDirectory)) =
      entries.flatMap line := by
  rw [listingText, List.flatMap_map]
  simp only [beq_iff_eq]
  rfl

theorem steady_listed (h : Steady total s V) (hm : V.mounted = true) {path : CString} {id : UInt32}
    {dir : Inode} (hres : resolved s (orRoot path) = some (id, dir))
    (ht : dir.type = typeDirectory) : Listed s path := by
  have hans := steady_answers h hm
  have hresolve := hres
  rw [hans.resolved] at hresolve
  obtain ⟨hu, hdir, -, -⟩ := resolve_used h.consistent (noNul_orRoot path) hresolve
  refine ⟨(entriesFrom V.content dir 0 (sizeBlocks dir.size)).map
    (fun e => (nameOf e, e.type == typeDirectory)), ?_,
    fun name isDir => mem_listed h hm (noNul_orRoot path) hres ht, fun outSize hlt => ?_⟩
  · rw [List.map_map, hdir]
    exact entries_nodup h.consistent hu (hdir ▸ ht)
  · rw [listingText_lines] at hlt ⊢
    have hpos : 0 < outSize := Int.lt_of_le_of_lt (Int.natCast_nonneg _) hlt
    rw [hans.list, dirListing, if_pos hpos, hresolve, Option.bind_some]
    dsimp only
    rw [if_pos ht, listBytes_lines _ _ _ (by simpa using hlt), List.nil_append]

theorem created_node {w : System} {V' : Volume} {path : CString} {type : UInt16} {parent id : ℕ}
    {names : List (List UInt8)} {leaf : List UInt8} (hu : Steady total u V)
    (hm : V.mounted = true) (hw : Answers w V'.content)
    (hcr : CreatedAt V.content V'.content path.bytes type parent id names leaf) :
    NodeCreated u w path type := by
  have hans := steady_answers hu hm
  have hid : (UInt32.ofNat id).toNat = id := by
    rw [UInt32.toNat_ofNat', Nat.mod_eq_of_lt (Nat.lt_of_le_of_lt hcr.used.le (by decide))]
  have hpos := hcr.used.pos
  have hne : UInt32.ofNat id ≠ 0 := fun hz => by
    rw [hz] at hid
    have : (0 : UInt32).toNat = 0 := rfl
    omega
  have hfresh : inodeMarked u (UInt32.ofNat id) = false := by
    rw [(holds_seen hu.holds).inodeMarked _ hne (by rw [hid]; exact hcr.used.le), hid]
    by_contra hx
    exact hcr.fresh ⟨hcr.used.pos, hcr.used.le, by simpa using hx⟩
  constructor
  · refine ⟨UInt32.ofNat id, V'.content.inode id, ?_, hcr.type, hfresh, fun other k i hk => ?_⟩
    · rw [hw.resolved]
      exact hcr.resolve hu.consistent path.noNul
    · rw [hans.resolved] at hk
      obtain ⟨hused, -, -, -⟩ := resolve_used hu.consistent other.noNul hk
      rintro rfl
      rw [hid] at hused
      exact hcr.fresh hused
  · intro other k i hk
    rw [hans.resolved] at hk
    refine ⟨V'.content.inode k.toNat, ?_⟩
    rw [hw.resolved]
    exact resolve_mono hu.consistent hcr.consistent (fun _ _ _ => hcr.childOf_mono) other.noNul hk

theorem removed_node {w : System} {V' : Volume} {path : CString} {parent id : ℕ}
    {names : List (List UInt8)} {leaf : List UInt8} {e : Dirent} {b k n : ℕ}
    (hu : Steady total u V) (hm : V.mounted = true) (hw : Answers w V'.content)
    (hat : EntryAt V.content path.bytes parent id leaf names e b k n)
    (hun : Unlinked V.content V'.content parent id leaf) : NodeRemoved u w path := by
  have hans := steady_answers hu hm
  have hn : ∀ name ∈ names ++ [leaf], (0 : UInt8) ∉ name := fun name hmem =>
    noNul_tokens path.noNul (hat.tokens ▸ hmem)
  have hnames : ∀ name ∈ names, (0 : UInt8) ∉ name := fun name hmem =>
    hn name (List.mem_append_left _ hmem)
  have hchild : childOf V.content parent leaf = some id := by
    rw [childOf, hat.found]
    exact congrArg some hat.target
  constructor
  · -- the parent is still where it was, but the name is gone
    have hpar : locate V'.content names = some parent := by
      rw [locate_unlinked hu.consistent hun hn hat.located hchild names hnames, hat.located]
      intro hpre
      have := hpre.length_le
      rw [List.length_append, List.length_singleton] at this
      omega
    rw [hw.resolved, resolve, if_pos hat.head, walk_eq hun.consistent fun _ => noNul_tokens path.noNul,
      hat.tokens, locate_append, hpar]
    change (childOf V'.content parent leaf).map _ = none
    rw [hun.child leaf hat.leafOk.noNul, if_pos rfl]
    rfl
  · intro other hnot
    rw [hw.resolved, hans.resolved, resolve_number hun.consistent other.noNul,
      resolve_number hu.consistent other.noNul]
    rw [hat.tokens] at hnot
    rw [locate_unlinked hu.consistent hun hn hat.located hchild _
      (fun _ => noNul_tokens other.noNul) hnot]

/-- A tree of directories with names, and what the calls do to it. -/
structure TreeLike (u : System) : Prop where
  names : ∀ id dir, Stored u id dir → dir.type = typeDirectory → ((dirEntries u dir).map nameOf).Nodup
  mkdir : ∀ path mode uid gid, (u.call (lowered (k64XfsMkdir path mode uid gid))).1.isSome = true →
    NodeCreated u (u.call (lowered (k64XfsMkdir path mode uid gid))).2 path typeDirectory
  create : ∀ path mode uid gid, (u.call (lowered (k64XfsCreate path mode uid gid))).1.isSome = true →
    NodeCreated u (u.call (lowered (k64XfsCreate path mode uid gid))).2 path typeRegular
  remove : ∀ path, (u.call (lowered (k64XfsRemove path))).1.isSome = true →
    NodeRemoved u (u.call (lowered (k64XfsRemove path))).2 path
  rmdir : ∀ path, (u.call (lowered (k64XfsRmdir path))).1.isSome = true →
    NodeRemoved u (u.call (lowered (k64XfsRmdir path))).2 path
  list : ∀ path id dir, resolved u (orRoot path) = some (id, dir) → dir.type = typeDirectory →
    Listed u path

theorem operation_stepped {dev : Geometry} {o : Operation} (h : Steady total u V)
    (hsector : WholeSectors dev)
    (ht : total ≤ xfsFsBlocks dev) (hok : (u.call (lowered o.call)).1.isSome = true) :
    V.mounted = true ∧ ∃ k V', o.effect V.content V.generation = .done k V'.content ∧
      Steady total (u.call (lowered o.call)).2 V' ∧ Answers (u.call (lowered o.call)).2 V'.content := by
  obtain ⟨V', hV', hshown⟩ := step_steady (a := .operation o) h nofun hsector ht hok
  obtain ⟨hm, k, c, n, he, rfl⟩ := operation_done hshown
  exact ⟨hm, k, _, he, hV', steady_answers hV' hm⟩

theorem steady_dirEntries (h : Steady total u V) {id : ℕ} (hused : Used V.content id) :
    dirEntries u (V.content.inode id) =
      entriesFrom V.content (V.content.inode id) 0 (sizeBlocks (V.content.inode id).size) := by
  have hread : ∀ b, (u.call (lowered (readDataBlock (V.content.inode id) b))).1 =
      some (V.content.dataOf (V.content.inode id) b) := by
    intro b
    exact answer_of_wp h.holds (wp_readDataBlock.mpr ⟨h.consistent.fits _ hused.pos hused.le, rfl⟩)
  unfold dirEntries entriesFrom
  simp only [hread]

theorem steady_names (h : Steady total u V) {id : UInt32} {dir : Inode} (hstored : Stored u id dir)
    (ht : dir.type = typeDirectory) : ((dirEntries u dir).map nameOf).Nodup := by
  obtain ⟨hused, rfl⟩ := stored_used (holds_seen h.holds) hstored
  rw [steady_dirEntries h hused]
  exact entries_nodup h.consistent hused ht

/-- On every volume that successful calls have made of a formatted one, the directories are a tree of
names: each call changes the one name it is about. -/
theorem directories_are_tree {calls : List (PublicCall × Bool)} (hfresh : FreshMount label s t)
    (hf : ∀ i, s.machine.dev.faults i = false)
    (hsmall : xfsFsBlocks (System.geometry s) ≤ 32768)
    (hrun : Run (System.geometry s) t calls u) (hok : ∀ c ∈ calls, c.2 = true) : TreeLike u := by
  obtain ⟨-, hdev, -⟩ := fresh_holds hfresh hf hsmall
  obtain ⟨V, hV⟩ := fresh_run_steady hfresh hf hsmall hrun hok
  have hsector := sector_of_ok hdev
  have hc := hV.consistent
  refine ⟨fun id dir => steady_names hV, fun path mode uid gid hcall => ?_,
    fun path mode uid gid hcall => ?_, fun path hcall => ?_, fun path hcall => ?_,
    fun path id dir hres ht => ?_⟩
  · obtain ⟨hm, k, V', he, -, hw⟩ := operation_stepped (o := .mkdir path mode uid gid) hV hsector
      (Nat.le_refl _) hcall
    obtain ⟨-, parent, id, names, leaf, hcr⟩ := create_done hc path.noNul (Or.inr rfl) he
    exact created_node hV hm hw hcr
  · obtain ⟨hm, k, V', he, -, hw⟩ := operation_stepped (o := .create path mode uid gid) hV hsector
      (Nat.le_refl _) hcall
    obtain ⟨-, parent, id, names, leaf, hcr⟩ := create_done hc path.noNul (Or.inl rfl) he
    exact created_node hV hm hw hcr
  · obtain ⟨hm, k, V', he, -, hw⟩ := operation_stepped (o := .remove path) hV hsector
      (Nat.le_refl _) hcall
    obtain ⟨parent, id, leaf, names, e, b, k, n, hat, -, hun⟩ := remove_done hc path.noNul he
    exact removed_node hV hm hw hat hun
  · obtain ⟨hm, k, V', he, -, hw⟩ := operation_stepped (o := .rmdir path) hV hsector
      (Nat.le_refl _) hcall
    obtain ⟨parent, id, leaf, names, e, b, k, n, hat, -, hun⟩ := rmdir_done hc path.noNul he
    exact removed_node hV hm hw hat hun
  · have hm : V.mounted = true := by
      by_contra hm
      rw [Bool.not_eq_true] at hm
      have hnone : resolved u (orRoot path) = none :=
        answer_of_wp hV.holds ((wp_resolve_unmounted hm).mpr rfl)
      rw [hnone] at hres
      cases hres
    exact steady_listed hV hm hres ht

theorem written_directories_are_tree : TreeLike writtenSystem :=
  directories_are_tree fresh_smallDevice (fun _ => rfl) (by decide) written_reached (by simp)

end XfsTree
