import K64.XfsFileChanges

/-! # The effect of each public call

A call on a mounted, consistent volume is a function of the content: it fails and leaves a content
behind, it fails behind a change it does not take back, or it succeeds. Each function below follows
the checks and allocations of the call it is named after, and `operation_effect` says that the call
does just that as long as the journal has room. -/
namespace XfsOperationEffects

open ByteCodec IoProgram XfsFormat XfsInode XfsCalls XfsDirectory XfsOperations XfsVolume
  XfsConsistency XfsLookup XfsPaths XfsDirectoryUpdate XfsContentChanges XfsFileChanges

inductive Effect where
  /-- The call fails and leaves this content; `begun` says that it has opened a transaction. -/
  | failed (begun : Bool) (c : Content)
  /-- The call fails behind a change that it does not take back. -/
  | broken
  /-- The call succeeds with this content after so many commits. -/
  | done (commits : ℕ) (c : Content)

/-- A byte string in memory: no C object takes 2^63 bytes. -/
structure Buffer where
  bytes : List UInt8
  bounded : bytes.length < 2 ^ 63

/-- The directory and the name that `xfs_create_at` accepts for a new inode. -/
def creatable (c : Content) (path : List UInt8) : Option (Inode × List UInt8) :=
  (xfsSplitParent path).bind fun (parentPath, leaf) =>
    (resolve c parentPath).bind fun (_, parent) =>
      if parent.type = typeDirectory ∧ dirFind c parent leaf = none then some (parent, leaf)
      else none

def createEffect (c : Content) (generation : UInt64) (path : List UInt8) (type : UInt16)
    (mode uid gid : UInt32) : Effect :=
  match creatable c path with
  | none => .failed true c
  | some (parent, leaf) =>
    match c.spareInode with
    | none => .failed true c
    | some id =>
      let inode := newInode generation (UInt32.ofNat id) type mode uid gid
      match prepared c inode type with
      | none => .failed true ((freshFile c inode).setInodeUsed id false)
      | some (_, c') =>
        match added c' parent (makeDirent leaf (UInt32.ofNat id) type) with
        | none => .broken
        | some (_, c'') => .done 1 c''

def blocksFor (data : List UInt8) : ℕ := (data.length + 4095) / 4096

/-- The record a write of `data` ends with. -/
def finalInode (generation : UInt64) (inode : Inode) (data : List UInt8) (blocks : ℕ)
    (uid gid : UInt32) (start : ℕ) : Inode :=
  writtenInode inode start blocks (UInt64.ofNat data.length) uid gid (generation + 1)

def overwriteEffect (c : Content) (generation : UInt64) (inode : Inode) (data : List UInt8)
    (uid gid : UInt32) : Effect :=
  if inode.type ≠ typeRegular ∨ 2 ^ 32 - 1 < blocksFor data then .failed false c
  else
    let final := finalInode generation inode data (blocksFor data) uid gid
    if blocksFor data = 0 then .done 1 (truncated c inode (final 0))
    else
      match allocRun (dropExtents c (Inode.extents inode)) (blocksFor data) with
      | some start => .done 1 (written c inode (final start) start (blocksFor data) data)
      | none => if Inode.extents inode = [] then .failed true c else .broken

def writeEffect (c : Content) (generation : UInt64) (path data : List UInt8)
    (uid gid : UInt32) : Effect :=
  match resolve c path with
  | some (_, inode) => overwriteEffect c generation inode data uid gid
  | none =>
    match createEffect c generation path typeRegular 0o644 uid gid with
    | .done _ c' =>
      match resolve c' path with
      | none => .broken
      | some (_, inode) =>
        match overwriteEffect c' (generation + 1) inode data uid gid with
        | .done _ c'' => .done 2 c''
        | _ => .broken
    | effect => effect

/-- The copy loop of `k64_xfs_read_file` on the content. -/
def bytesFrom (c : Content) (inode : Inode) (max : ℕ) (out : List UInt8) : Option (List UInt8) :=
  if _h : out.length < inode.size.toNat ∧ out.length < max then
    if out.length / 4096 < sizeBlocks inode.size then
      bytesFrom c inode max (out ++ (c.dataOf inode (out.length / 4096)).read (out.length % 4096)
        (min (4096 - out.length % 4096)
          (min (inode.size.toNat - out.length) (max - out.length))))
    else none
  else some out
termination_by inode.size.toNat - out.length
decreasing_by
  have := Nat.mod_lt out.length (show 4096 > 0 by decide)
  simp only [List.length_append, Block.length_read]
  omega

/-- What `k64_xfs_read_file` reads of a file. -/
def fileBytes (c : Content) (path : List UInt8) (max : ℕ) : Option (List UInt8) :=
  (resolve c path).bind fun (_, inode) =>
    if inode.type = typeRegular then bytesFrom c inode max [] else none

/-- What `k64_xfs_truncate` hands to `k64_xfs_write_file`. -/
def truncateData (c : Content) (path : List UInt8) (inode : Inode) (newSize : ℕ) :
    Option (List UInt8) :=
  if newSize = 0 then some []
  else if newSize ≤ inode.size.toNat then
    if newSize ≤ 4096 then fileBytes c path newSize else none
  else some [0]

def truncateEffect (c : Content) (generation : UInt64) (path : List UInt8) (newSize : ℕ) :
    Effect :=
  match resolve c path with
  | none => .failed false c
  | some (_, inode) =>
    if inode.type ≠ typeRegular then .failed false c
    else
      match truncateData c path inode newSize with
      | none => .failed false c
      | some data => writeEffect c generation path data inode.uid inode.gid

/-- Taking the entry `leaf` and its inode out; `wipe` says whether the record is cleared too. -/
def unlinkEffect (c : Content) (parent : Inode) (leaf : List UInt8) (inodeId : UInt32)
    (inode : Inode) (wipe : Bool) : Effect :=
  match dirFind c parent leaf with
  | none => .broken
  | some (_, b, s) =>
    match Inode.lookup parent b with
    | none => .broken
    | some n =>
      let c' := unlinked c parent inode inodeId.toNat b s n
      .done 1 (if wipe then c'.setInode { Inode.zero with inodeId := inodeId } else c')

def entryAt (c : Content) (path : List UInt8) :
    Option (UInt32 × Inode × List UInt8 × UInt32 × Inode) :=
  (xfsSplitParent path).bind fun (parentPath, leaf) =>
    (resolve c parentPath).bind fun (parentId, parent) =>
      (resolve c path).map fun (inodeId, inode) => (parentId, parent, leaf, inodeId, inode)

def removeEffect (c : Content) (path : List UInt8) : Effect :=
  match entryAt c path with
  | none => .failed false c
  | some (_, parent, leaf, inodeId, inode) =>
    if inode.type = typeRegular then unlinkEffect c parent leaf inodeId inode true
    else .failed false c

def rmdirEffect (c : Content) (path : List UInt8) : Effect :=
  match entryAt c path with
  | none => .failed false c
  | some (_, parent, leaf, inodeId, inode) =>
    if inode.type = typeDirectory ∧ inode.size = 4096 ∧
        (List.range 25).all (fun s => (dirent (c.dataOf inode 0) s).inodeId == 0) then
      unlinkEffect c parent leaf inodeId inode false
    else .failed false c

def renameEffect (c : Content) (oldPath newPath : List UInt8) : Effect :=
  match entryAt c oldPath, xfsSplitParent newPath with
  | some (_, oldParent, oldLeaf, inodeId, inode), some (newParentPath, newLeaf) =>
    match resolve c newParentPath with
    | none => .failed false c
    | some (_, newParent) =>
      if dirFind c newParent newLeaf ≠ none then .failed false c
      else
        let e := makeDirent newLeaf inodeId inode.type
        match added c newParent e with
        | none => .failed false (unadded c newParent e)
        | some (_, c') =>
          match dirFind c' oldParent oldLeaf with
          | none => .broken
          | some (_, b, s) =>
            match Inode.lookup oldParent b with
            | none => .broken
            | some n => .done 0 (putIn c' oldParent Dirent.zero b s n)
  | _, _ => .failed false c

def changeEffect (c : Content) (generation : UInt64) (f : UInt64 → Inode → Inode)
    (path : List UInt8) : Effect :=
  match resolve c path with
  | none => .failed false c
  | some (_, inode) => .done 1 (c.setInode (f (generation + 1) inode))

/-- The public calls that change a mounted volume. -/
inductive Operation where
  | mkdir (path : CString) (mode uid gid : UInt32)
  | create (path : CString) (mode uid gid : UInt32)
  | writeFile (path : CString) (data : Buffer) (uid gid : UInt32)
  | truncate (path : CString) (newSize : UInt64)
  | remove (path : CString)
  | rmdir (path : CString)
  | rename (oldPath newPath : CString)
  | chmod (path : CString) (mode : UInt32)
  | chown (path : CString) (uid gid : UInt32)

def Operation.call : Operation → XfsV Unit
  | .mkdir path mode uid gid => k64XfsMkdir path mode uid gid
  | .create path mode uid gid => k64XfsCreate path mode uid gid
  | .writeFile path data uid gid => k64XfsWriteFile path data.bytes uid gid
  | .truncate path newSize => k64XfsTruncate path newSize.toNat
  | .remove path => k64XfsRemove path
  | .rmdir path => k64XfsRmdir path
  | .rename oldPath newPath => k64XfsRename oldPath newPath
  | .chmod path mode => k64XfsChmod path mode
  | .chown path uid gid => k64XfsChown path uid gid

def chmodded (mode : UInt32) (tick : UInt64) (inode : Inode) : Inode :=
  { inode with mode := modeBits inode.type mode, modifiedTick := tick }

def chowned (uid gid : UInt32) (tick : UInt64) (inode : Inode) : Inode :=
  { inode with uid := uid, gid := gid, modifiedTick := tick }

def Operation.effect (c : Content) (generation : UInt64) : Operation → Effect
  | .mkdir path mode uid gid => createEffect c generation path.bytes typeDirectory
      (if mode = 0 then 0o755 else mode) uid gid
  | .create path mode uid gid => createEffect c generation path.bytes typeRegular
      (if mode = 0 then 0o644 else mode) uid gid
  | .writeFile path data uid gid => writeEffect c generation path.bytes data.bytes uid gid
  | .truncate path newSize => truncateEffect c generation path.bytes newSize.toNat
  | .remove path => removeEffect c path.bytes
  | .rmdir path => rmdirEffect c path.bytes
  | .rename oldPath newPath => renameEffect c oldPath.bytes newPath.bytes
  | .chmod path mode => changeEffect c generation (chmodded mode) path.bytes
  | .chown path uid gid => changeEffect c generation (chowned uid gid) path.bytes

/-- The volume after a call. How far a transaction that is not open had filled the journal does
not matter. -/
def after (V : Volume) (active : Bool) (commits n : ℕ) (c : Content) : Volume :=
  { V with
    content := c
    generation := V.generation + UInt64.ofNat commits
    journalActive := active
    journalRecords := n }

def Effect.Shown (V : Volume) (r : Option Unit) (V' : Volume) : Effect → Prop
  | .failed begun c => r = none ∧ ∃ n, V' = after V (V.journalActive || begun) 0 n c
  | .broken => r = none
  | .done commits c => r = some () ∧
      ∃ n, V' = after V (V.journalActive && commits == 0) commits n c

variable {V : Volume} {c : Content} {P : Option Unit → Unit → Volume → Prop}

def opened (V : Volume) : Volume :=
  if V.journalActive then V else { V with journalActive := true, journalRecords := 0 }

theorem opened_fields (V : Volume) : (opened V).content = V.content ∧
    (opened V).mounted = V.mounted ∧ (opened V).generation = V.generation ∧
    (opened V).journalActive = true := by
  unfold opened
  split <;> simp_all

variable {k : ℕ}

theorem room_opened (h : Room k V) (hk : k ≤ 16) : Room k (opened V) := by
  refine ⟨(opened_fields V).2.1.trans h.mounted, fun _ => ?_⟩
  unfold opened
  split
  · next ha => exact h.records ha
  · simpa using hk

theorem logged_opened (V : Volume) (k : ℕ) (c : Content) :
    ∃ n, logged k (opened V) c = after V (V.journalActive || true) 0 n c := by
  refine ⟨(logged k (opened V) c).journalRecords, ?_⟩
  unfold opened
  split <;> simp_all [logged, after]

theorem opened_after (V : Volume) :
    ∃ n, opened V = after V (V.journalActive || true) 0 n V.content := by
  obtain ⟨n, hn⟩ := logged_opened V 0 V.content
  refine ⟨n, hn ▸ ?_⟩
  rw [← (opened_fields V).1, logged_zero]

theorem logged_after (V : Volume) (k : ℕ) (c : Content) :
    ∃ n, logged k V c = after V (V.journalActive || false) 0 n c :=
  ⟨(logged k V c).journalRecords, by simp [logged, after]⟩

theorem wp_journalBegin (hm : V.mounted = true) :
    Proc.wp volume volumeGuard journalBegin P () V ↔ P (some ()) () (opened V) := by
  simp only [journalBegin, Proc.wp_bind, Proc.wp_request, volumeGuard, true_and, volume, hm,
    Bool.not_true, Bool.false_eq_true, if_false, Proc.wpNext_some, opened]
  split <;> simp

theorem wp_finish (hr : Room (k + 1) (opened V)) :
    Proc.wp volume volumeGuard (do XfsCalls.journalCommit; writeSuper) P () (logged k (opened V) c) ↔
      P (some ()) () (after V false 1 0 c) := by
  obtain ⟨-, -, hg, ha⟩ := opened_fields V
  have hrec := hr.records ha
  have hnot : ¬ 16 ≤ (logged k (opened V) c).journalRecords := by
    simp only [logged, ha, Bool.toNat_true]
    omega
  have hcommit : volume .journalCommit (logged k (opened V) c) = (true, after V false 1 0 c) := by
    simp only [volume]
    rw [if_neg (by simp [hr.mounted]), if_neg (by simp [logged, ha]), if_neg hnot]
    simp [after, logged, hg, (opened_fields V).2.1]
  have hsuper : volume .writeSuper (after V false 1 0 c) = (true, after V false 1 0 c) := rfl
  simp only [XfsCalls.journalCommit, writeSuper, Proc.wp_bind, Proc.wp_request, volumeGuard, true_and,
    hcommit, Proc.wpNext_some, Proc.wp_guard, if_true, hsuper]

variable {path leaf : List UInt8}

theorem creatable_some {parent : Inode}
    (h : creatable c path = some (parent, leaf)) :
    ∃ parentPath parentId, Creatable c path parentPath leaf parentId parent := by
  obtain ⟨⟨parentPath, leaf'⟩, hsplit, h⟩ := Option.bind_eq_some_iff.mp h
  obtain ⟨⟨parentId, parent'⟩, hres, h⟩ := Option.bind_eq_some_iff.mp h
  dsimp only at h hres
  split at h
  · next hcheck =>
    obtain ⟨rfl, rfl⟩ := Prod.mk.inj (Option.some.inj h)
    exact ⟨parentPath, parentId, hsplit, hres, hcheck.1, hcheck.2⟩
  · cases h

theorem Creatable.creatable {parentPath : List UInt8} {parentId : UInt32}
    {parent : Inode} (h : Creatable c path parentPath leaf parentId parent) :
    XfsOperationEffects.creatable c path = some (parent, leaf) := by
  simp [XfsOperationEffects.creatable, h.split, h.resolved, h.isDir, h.absent]

theorem create_effect (hc : Consistent V.content) (hr : Room 12 V)
    (h0 : (0 : UInt8) ∉ path) (type : UInt16) (mode uid gid : UInt32) :
    vwp (do
      journalBegin
      let _ ← xfsCreateAt path type mode uid gid
      XfsCalls.journalCommit
      writeSuper)
      (fun r V' => (createEffect V.content V.generation path type mode uid gid).Shown V r V') V := by
  obtain ⟨hcont, -, hg, -⟩ := opened_fields V
  have hro := room_opened hr (by decide)
  rw [vwp, Proc.wp_bind, wp_journalBegin hr.mounted, Proc.wpNext_some, Proc.wp_bind]
  rw [← hcont] at hc
  refine createAt_rule hc (hro.mono (by decide)) h0 ?_ ?_
  · intro hno
    have hnone : creatable V.content path = none := by
      rw [Option.eq_none_iff_forall_ne_some]
      rintro ⟨parent, leaf⟩ hsome
      obtain ⟨parentPath, parentId, hcr⟩ := creatable_some hsome
      exact hno parentPath leaf parentId parent (hcont ▸ hcr)
    rw [Proc.wpNext_none, createEffect, hnone]
    exact ⟨rfl, opened_after V⟩
  · rintro parentPath leaf parentId parent hcr hleaf hu rfl
    have hsome := Creatable.creatable hcr
    rw [hcont] at hsome
    refine createBody_rule hc (hro.mono (by decide)) hu hleaf hcr.absent ?_ ?_
    · intro hspare
      rw [hcont] at hspare
      rw [Proc.wpNext_none, createEffect, hsome, hspare]
      exact ⟨rfl, opened_after V⟩
    · rintro id inode hspare rfl
      rw [hcont] at hspare
      rw [hcont, hg]
      refine ⟨fun hprep => ?_, fun k c' hprep => ⟨fun hadd V' => ?_, fun j c'' out hadd => ?_⟩⟩
      · rw [Proc.wpNext_none, createEffect, hsome, hspare]
        simp only [hprep]
        exact ⟨rfl, logged_opened V 3 _⟩
      · rw [Proc.wpNext_none, createEffect, hsome, hspare]
        simp only [hprep, hadd]
        rfl
      · have hk := (prepared_total hprep).2
        have hj := (added_records hadd).1
        rw [Proc.wpNext_some, wp_finish (hro.mono (by omega)), createEffect, hsome, hspare]
        simp only [hprep, hadd]
        exact ⟨rfl, 0, by simp⟩

/-- A new inode `id` under the name `leaf` of the directory `parent`. -/
structure Created (c c' : Content) (parent : ℕ) (leaf : List UInt8) (id : ℕ) (type : UInt16) :
    Prop where
  consistent : Consistent c'
  keeps : Keeps (fun k => k = parent ∨ k = id) c c'
  fresh : ¬ Used c id
  used : Used c' id
  parentUsed : Used c' parent
  type : (c'.inode id).type = type
  parentType : (c'.inode parent).type = (c.inode parent).type
  absent : childOf c parent leaf = none
  child : ∀ name, (0 : UInt8) ∉ name →
    childOf c' parent name = if name = leaf then some id else childOf c parent name
  empty : ∀ b s e, ¬ Live c' id b s e

variable {type : UInt16} {parent id : ℕ}

theorem fresh_entry {c₁ : Content}
    (hc : Consistent c) (hp : PreparedInode c c₁ id type) (hspare : c.spareInode = some id)
    (hu : Used c parent) (hleaf : NameOk leaf)
    (hnew : dirFind c (c.inode parent) leaf = none) :
    Fresh c₁ parent (makeDirent leaf (UInt32.ofNat id) type) := by
  obtain ⟨h2, -, hbit, htoNat, -⟩ := spareInode_some hspare
  have hname := nameOf_makeDirent hleaf.length_lt (UInt32.ofNat id) type
  refine ⟨⟨⟨leaf, hleaf, rfl⟩, ?_, ?_, ?_⟩, fun dir b s e' hl heq => ?_, fun b s e' hl heq => ?_⟩
  · rw [inodeId_makeDirent, htoNat]
    exact hp.used
  · rw [inodeId_makeDirent]
    omega
  · change type = (c₁.inode (UInt32.ofNat id).toNat).type
    rw [htoNat, hp.type]
  · have hused := (hc.entries _ _ _ _ ((hp.live _ _ _ _).mp hl)).used
    rw [heq, inodeId_makeDirent, htoNat] at hused
    exact absurd (hbit.symm.trans hused.bit) (by decide)
  · rw [hname] at heq
    exact (dirFind_eq_none hc hu hleaf.noNul).mp hnew b s e' ((hp.live _ _ _ _).mp hl) heq

variable {c' : Content}

theorem created {c₁ : Content} {j : ℕ}
    (hc : Consistent c) (hp : PreparedInode c c₁ id type) (hspare : c.spareInode = some id)
    (hu : Used c parent) (hd : (c.inode parent).type = typeDirectory) (hleaf : NameOk leaf)
    (hnew : dirFind c (c.inode parent) leaf = none)
    (hadd : added c₁ (c.inode parent) (makeDirent leaf (UInt32.ofNat id) type) = some (j, c')) :
    Created c c' parent leaf id type := by
  obtain ⟨-, -, hbit, htoNat, hid0⟩ := spareInode_some hspare
  have hfresh : ¬ Used c id := fun h => absurd (hbit.symm.trans h.bit) (by decide)
  have hne : parent ≠ id := by rintro rfl; exact hfresh hu
  have hpar : c₁.inode parent = c.inode parent := hp.keeps.inode parent hne hu
  have hu₁ : Used c₁ parent := (hp.keeps.used parent hne).mpr hu
  have hentry := fresh_entry hc hp hspare hu hleaf hnew
  rw [← hpar] at hadd hd
  have hname := nameOf_makeDirent hleaf.length_lt (UInt32.ofNat id) type
  obtain ⟨hadded, -⟩ := added_entry hp.consistent hu₁ hd hentry hid0 hadd
  have hchild : ∀ name, (0 : UInt8) ∉ name → childOf c₁ parent name = childOf c parent name := by
    intro name _
    exact hp.keeps.childOf hne hu name
  have hnone : childOf c₁ parent leaf = none := by
    rw [hchild leaf hleaf.noNul, childOf, hnew]
    rfl
  refine ⟨hadded.consistent, ?_, hfresh, (hadded.keeps.used id hne.symm).mpr hp.used,
    hadded.used, ?_, by rw [hadded.type, hpar], by rw [← hchild leaf hleaf.noNul, hnone],
    fun name hn => ?_, fun b s e hl => ?_⟩
  · exact (hp.keeps.weaken fun k hk => Or.inr hk).trans (hadded.keeps.weaken fun k hk => Or.inl hk)
  · rw [hadded.keeps.inode id hne.symm hp.used, hp.type]
  · rw [hadded.childOf hp.consistent hu₁ hn (by rw [hname]; exact hnone), hname, hchild name hn,
      inodeId_makeDirent, htoNat]
  · have hlive := (hp.live _ _ _ _).mp ((live_of_keeps hadded.keeps hne.symm).mp hl)
    exact hfresh hlive.used

theorem locate_mono (hc : Consistent c)
    (hchild : ∀ dir name id, Used c dir → (0 : UInt8) ∉ name → childOf c dir name = some id →
      childOf c' dir name = some id) (path : List (List UInt8)) :
    (∀ name ∈ path, (0 : UInt8) ∉ name) → ∀ dir id, Used c dir →
    path.foldlM (childOf c) dir = some id → path.foldlM (childOf c') dir = some id := by
  induction path with
  | nil =>
    intro _ dir id _ h
    rwa [List.foldlM_nil] at h ⊢
  | cons name rest ih =>
    intro hn dir id hu h
    have h0 := hn name (List.mem_cons_self ..)
    rw [List.foldlM_cons, Option.bind_eq_bind, Option.bind_eq_some_iff] at h ⊢
    obtain ⟨k, hk, h⟩ := h
    have hrest := ih (fun t ht => hn t (List.mem_cons_of_mem _ ht)) k id
      (childOf_used hc hu h0 hk).1 h
    exact ⟨k, hchild dir name k hu h0 hk, hrest⟩

theorem Created.childOf_mono
    (h : Created c c' parent leaf id type) {dir : ℕ} {name : List UInt8} (hu : Used c dir)
    (hn : (0 : UInt8) ∉ name) (hk : childOf c dir name = some k) :
    childOf c' dir name = some k := by
  by_cases hdir : dir = parent
  · subst hdir
    have hne : name ≠ leaf := by rintro rfl; simp [h.absent] at hk
    rw [h.child name hn, if_neg hne, hk]
  · have hid : dir ≠ id := by rintro rfl; exact h.fresh hu
    rw [h.keeps.childOf (by simp [hdir, hid]) hu name, hk]

structure CreatedAt (c c' : Content) (path : List UInt8) (type : UInt16) (parent id : ℕ)
    (names : List (List UInt8)) (leaf : List UInt8) : Prop extends
    Created c c' parent leaf id type where
  head : path.head? = some slash
  tokens : tokens path = names ++ [leaf]
  located : locate c names = some parent
  isDir : (c.inode parent).type = typeDirectory
  leafOk : NameOk leaf

variable {uid gid : UInt32}

theorem create_done {generation : UInt64}
    {mode : UInt32} (hc : Consistent c) (h0 : (0 : UInt8) ∉ path)
    (ht : type = typeRegular ∨ type = typeDirectory)
    (h : createEffect c generation path type mode uid gid = .done k c') :
    k = 1 ∧ ∃ parent id names leaf, CreatedAt c c' path type parent id names leaf := by
  unfold createEffect at h
  split at h
  · cases h
  next parent leaf hcr =>
    split at h
    · cases h
    next id hspare =>
      simp only at h
      split at h
      · cases h
      next hprep =>
        split at h
        · cases h
        next hadd =>
          cases h
          obtain ⟨parentPath, parentId, hsplit, hres, hdir, habs⟩ := creatable_some hcr
          obtain ⟨hhead, -, hleaf, htok, hp0⟩ := split_parent_some h0 hsplit
          obtain ⟨hu, rfl, -, hloc⟩ := resolve_used hc hp0 hres
          have hcreated := created hc (prepared_inode hc hspare rfl ht hprep) hspare hu hdir
            hleaf habs hadd
          exact ⟨rfl, parentId.toNat, id, _, leaf, hcreated, hhead, htok, hloc, hdir, hleaf⟩

theorem CreatedAt.resolve
    {names : List (List UInt8)} (hc : Consistent c)
    (h : CreatedAt c c' path type parent id names leaf) (h0 : (0 : UInt8) ∉ path) :
    XfsLookup.resolve c' path = some (UInt32.ofNat id, c'.inode id) := by
  have hn : ∀ name ∈ XfsDirectory.tokens path, (0 : UInt8) ∉ name := fun _ => noNul_tokens h0
  have hnames : ∀ name ∈ names, (0 : UInt8) ∉ name :=
    fun name hm => hn name (h.tokens ▸ List.mem_append_left _ hm)
  have hloc : locate c' names = some parent :=
    locate_mono hc (fun _ _ _ => h.childOf_mono) names hnames 1 parent hc.rootInUse h.located
  have hfull : locate c' (XfsDirectory.tokens path) = some id := by
    rw [h.tokens, locate, List.foldlM_append]
    refine Option.bind_eq_some_iff.mpr ⟨parent, hloc, ?_⟩
    simp [h.child leaf h.leafOk.noNul]
  rw [XfsLookup.resolve, if_pos h.head, walk_eq h.consistent hn, hfull]
  rfl

theorem wp_freeExtents (exts : List Extent) : ∀ {V : Volume}, Room exts.length V →
    (∀ ex ∈ exts, Extent.Fits V.content.total ex ∧ 0 < ex.blockCount.toNat) →
    (Proc.wp volume volumeGuard (freeExtents exts) P () V ↔
      P (some ()) () (logged exts.length V (dropExtents V.content exts))) := by
  induction exts with
  | nil =>
    intro V _ _
    rw [freeExtents, Proc.wp_pure, dropExtents, List.length_nil, logged_zero]
  | cons ex rest ih =>
    intro V hr hfit
    obtain ⟨⟨h1, h2⟩, hpos⟩ := hfit ex (List.mem_cons_self ..)
    have hne : ex.blockCount ≠ 0 := by
      rintro h0
      rw [h0] at hpos
      exact absurd hpos (by decide)
    rw [List.length_cons, Nat.add_comm] at hr
    rw [freeExtents, if_pos hne, Proc.wp_bind, wp_freeExtent (hr.mono (by omega)) (by omega),
      Proc.wpNext_some]
    rw [ih (V := logged 1 V (V.content.dropRun ex.physicalBlock.toNat ex.blockCount.toNat))
      (hr.logged _) fun x hx => hfit x (List.mem_cons_of_mem _ hx),
      logged_logged, content_logged, dropExtents, List.length_cons, Nat.add_comm 1]
    exact and_iff_right ⟨h1, h2⟩

theorem wp_writeChunks {start : ℕ} (data : List UInt8) (h82 : 82 ≤ start)
    (ht : V.content.total ≤ 32768) : ∀ n i, start + (i + n) ≤ V.content.total →
    (Proc.wp volume volumeGuard (Proc.loop (writeChunk start data) i n) P ()
        (logged 0 V (fillRun start data V.content i)) ↔
      P (some ()) () (logged 0 V (fillRun start data V.content (i + n)))) := by
  have htotal : ∀ i, (fillRun start data V.content i).total = V.content.total := by
    intro i
    induction i with
    | zero => rfl
    | succ i ih => exact ih
  intro n
  induction n with
  | zero => exact fun i _ => Iff.rfl
  | succ n ih =>
    intro i hi
    have hmod : (start + i) % 2 ^ 64 = start + i := Nat.mod_eq_of_lt (by omega)
    simp only [Proc.loop, Proc.wp_bind, writeChunk, wp_scratch, Proc.wpNext_some, wp_blockWrite,
      hmod, content_logged, htotal]
    rw [logged_logged, show (fillRun start data V.content i).setData (start + i) (dataChunk data i) =
      fillRun start data V.content (i + 1) from rfl, ih (i + 1) (by omega),
      show i + 1 + n = i + (n + 1) by omega]
    exact and_iff_right ⟨by omega, by omega⟩

variable {inode : Inode} {data : List UInt8}

theorem wp_placeData {blocks : ℕ} (hr : Room 1 V)
    (hsmall : V.content.total ≤ 32768) {P : Option Inode → Unit → Volume → Prop} :
    Proc.wp volume volumeGuard (placeData inode data blocks) P () V ↔
      if 0 < blocks then
        match allocRun V.content blocks with
        | some start => P (some (Inode.withRun inode start blocks)) ()
            (logged 1 V (fillRun start data (V.content.takeRun start blocks) blocks))
        | none => P none () V
      else P (some inode) () V := by
  unfold placeData
  rw [Proc.wp_ite]
  by_cases hb : 0 < blocks
  case neg => rw [if_neg hb, if_neg hb, Proc.wp_pure]
  rw [if_pos hb, if_pos hb, Proc.wp_bind, wp_allocExtent hr]
  cases halloc : allocRun V.content blocks with
  | none => rfl
  | some start =>
    obtain ⟨-, -, h82, hend, -⟩ := allocRun_some halloc
    have hloop := wp_writeChunks (V := logged 1 V (V.content.takeRun start blocks))
      (P := Proc.wpNext volume volumeGuard
        (fun _ => (pure (Inode.withRun inode start blocks) : XfsV Inode)) P)
      data h82 hsmall blocks 0 (by rw [Nat.zero_add]; exact hend)
    rw [Nat.zero_add, logged_logged, logged_logged] at hloop
    dsimp only
    rw [Proc.wpNext_some, Proc.wp_bind]
    exact hloop

theorem Used.inodeId_ne (h : Allocated c) (hu : Used c id) :
    (c.inode id).inodeId ≠ 0 ∧ (c.inode id).inodeId.toNat ≤ 512 := by
  have hid := (Used.inodeId h hu).2
  have hpos := hu.pos
  refine ⟨fun h0 => ?_, by have := hu.le; omega⟩
  rw [h0] at hid
  simp at hid
  omega

theorem wp_writeBody {blocks : ℕ}
    (hc : Consistent V.content) (hr : Room 10 V) (hu : Used V.content id)
    (hi : inode = V.content.inode id) :
    Proc.wp volume volumeGuard (writeBody inode data blocks uid gid) P () V ↔
      if 0 < blocks then
        match allocRun (dropExtents V.content (Inode.extents inode)) blocks with
        | some start => P (some ()) () (logged ((Inode.extents inode).length + 2) V
            (written V.content inode (finalInode V.generation inode data blocks uid gid start)
              start blocks data))
        | none => P none () (logged (Inode.extents inode).length V
            (dropExtents V.content (Inode.extents inode)))
      else P (some ()) () (logged ((Inode.extents inode).length + 1) V
        (truncated V.content inode (finalInode V.generation inode data blocks uid gid 0))) := by
  have hshape := hc.shape id hu
  have hlen : (Inode.extents inode).length ≤ 8 := by
    rw [hi, length_extents hshape.few]
    exact hshape.few
  obtain ⟨h0, h512⟩ := Used.inodeId_ne hc.toAllocated hu
  rw [← hi] at hshape h0 h512
  have hfit : ∀ ex ∈ Inode.extents inode, Extent.Fits V.content.total ex ∧
      0 < ex.blockCount.toNat :=
    fun ex hex => ⟨hc.fits id hu.pos hu.le ex (hi ▸ hex), hshape.nonempty ex hex⟩
  have hroom : Room 2 (logged (Inode.extents inode).length V
      (dropExtents V.content (Inode.extents inode))) := (hr.mono (by omega)).logged _
  have hsmall : (dropExtents V.content (Inode.extents inode)).total ≤ 32768 := by
    rw [(dropExtents_fields _ _).2.2.2]
    exact hc.small
  rw [writeBody, Proc.wp_bind, xfsFreeFileExtents, Proc.wp_bind,
    wp_freeExtents _ (hr.mono (by omega)) hfit, Proc.wpNext_some, Proc.wp_pure, Proc.wpNext_some,
    Proc.wp_bind, wp_placeData (hroom.mono (by decide)) hsmall, content_logged]
  have hwrite : ∀ {k : ℕ} {c : Content} (i : Inode), k ≤ (Inode.extents inode).length + 1 →
      i.inodeId = inode.inodeId →
      (Proc.wpNext volume volumeGuard (fun inode => do
        let fs ← info
        writeInode (Inode.stamped inode (UInt64.ofNat data.length) uid gid (fs.generation + 1))) P
          (some i) () (logged k V c) ↔ P (some ()) () (logged (k + 1) V (c.setInode
            (Inode.stamped i (UInt64.ofNat data.length) uid gid (V.generation + 1))))) := by
    intro k c i hk hid
    have hr1 : Room 1 (logged k V c) := (hr.mono (by omega)).logged _
    rw [Proc.wpNext_some, Proc.wp_bind, wp_info, Proc.wpNext_some,
      wp_writeInode hr1 (hid ▸ h0) (hid ▸ h512), logged_logged]
    rfl
  by_cases hb : 0 < blocks
  · rw [if_pos hb, if_pos hb]
    cases halloc : allocRun (dropExtents V.content (Inode.extents inode)) blocks with
    | none => rfl
    | some start =>
      dsimp only
      rw [logged_logged, hwrite (Inode.withRun (Inode.emptied inode) start blocks) (Nat.le_refl _) rfl,
        written, finalInode, writtenInode, if_pos hb]
  · rw [if_neg hb, if_neg hb, hwrite (Inode.emptied inode) (by omega) rfl, truncated, finalInode,
      writtenInode, if_neg hb]

theorem overwrite_effect
    (hc : Consistent V.content) (hr : Room 12 V) (hu : Used V.content id)
    (hd : data.length < 2 ^ 63) :
    vwp (writeExisting (V.content.inode id) data uid gid) (fun r V' =>
      (overwriteEffect V.content V.generation (V.content.inode id) data uid gid).Shown V r V')
      V := by
  have hlen : (Inode.extents (V.content.inode id)).length ≤ 8 := by
    rw [length_extents (hc.shape id hu).few]
    exact (hc.shape id hu).few
  obtain ⟨hcont, -, hg, -⟩ := opened_fields V
  have hro := room_opened hr (by decide)
  have hblocks : (data.length + 4095) % 2 ^ 64 / 4096 = blocksFor data := by
    rw [Nat.mod_eq_of_lt (by omega)]
    rfl
  simp only [vwp, writeExisting, hblocks, Proc.wp_bind, Proc.wp_guard]
  unfold overwriteEffect
  by_cases ht : (V.content.inode id).type = typeRegular
  case neg =>
    rw [if_neg (by simpa using ht), if_pos (Or.inl ht)]
    exact ⟨rfl, by simpa [logged_zero] using logged_after V 0 V.content⟩
  rw [if_pos (by simpa using ht), Proc.wpNext_some, Proc.wp_bind, Proc.wp_guard]
  by_cases hb : 2 ^ 32 - 1 < blocksFor data
  case pos =>
    rw [if_neg (by simpa using hb), if_pos (Or.inr hb)]
    exact ⟨rfl, by simpa [logged_zero] using logged_after V 0 V.content⟩
  rw [if_pos (by simpa using hb), if_neg (by simpa [ht] using hb), Proc.wpNext_some, Proc.wp_bind,
    wp_journalBegin hr.mounted, Proc.wpNext_some, Proc.wp_bind,
    wp_writeBody (hcont.symm ▸ hc) (hro.mono (by decide)) (hcont.symm ▸ hu) (by rw [hcont]), hcont,
    hg]
  by_cases h0 : blocksFor data = 0
  · rw [if_neg (by omega), if_pos h0, Proc.wpNext_some, wp_finish (hro.mono (by omega))]
    exact ⟨rfl, 0, by simp⟩
  · rw [if_pos (by omega), if_neg h0]
    cases halloc : allocRun (dropExtents V.content (Inode.extents (V.content.inode id)))
      (blocksFor data) with
    | some start =>
      dsimp only
      rw [Proc.wpNext_some, wp_finish (hro.mono (by omega))]
      exact ⟨rfl, 0, by simp⟩
    | none =>
      dsimp only
      rw [Proc.wpNext_none]
      by_cases hexts : Inode.extents (V.content.inode id) = []
      · rw [if_pos hexts, hexts]
        exact ⟨rfl, logged_opened V 0 V.content⟩
      · rw [if_neg hexts]
        rfl

theorem room_after (hm : V.mounted = true) (k n : ℕ) (c : Content) :
    Room 12 (after V false k n c) := ⟨hm, by simp [after]⟩

theorem after_after (V : Volume) (a b : Bool) (j k m n : ℕ) (c c' : Content) :
    after (after V a j m c) b k n c' = after V b (j + k) n c' := by
  simp [after, UInt64.add_assoc]

theorem overwrite_commits {generation : UInt64}
    (h : overwriteEffect c generation inode data uid gid = .done k c') : k = 1 := by
  unfold overwriteEffect at h
  split at h
  · cases h
  · dsimp only at h
    split at h
    · cases h
      rfl
    · split at h
      · cases h
        rfl
      · split at h <;> cases h

theorem write_effect (hc : Consistent V.content) (hr : Room 12 V) (path : CString) (data : Buffer)
    (uid gid : UInt32) :
    vwp (k64XfsWriteFile path data.bytes uid gid) (fun r V' =>
      (writeEffect V.content V.generation path.bytes data.bytes uid gid).Shown V r V') V := by
  rw [vwp, k64XfsWriteFile, Proc.wp_bind, writeTarget, Proc.wp_bind, Proc.wp_attempt,
    wp_resolve hc.toAllocated hr.mounted, writeEffect]
  cases hres : resolve V.content path.bytes with
  | some target =>
    obtain ⟨id, inode⟩ := target
    obtain ⟨hu, rfl, -, -⟩ := resolve_used hc path.noNul hres
    exact overwrite_effect hc hr hu data.bounded
  | none =>
    rw [Proc.wpNext_some]
    refine Proc.wp_seq (create_effect hc hr path.noNul typeRegular 0o644 uid gid) ?_ ?_
    · intro _ V' hshown
      rw [Proc.wpNext_none]
      cases heff : createEffect V.content V.generation path.bytes typeRegular 0o644 uid gid with
      | failed begun c' => rwa [heff] at hshown
      | broken => rfl
      | done k c' =>
        rw [heff] at hshown
        exact absurd hshown.1 (by simp)
    · intro _ _ V' hshown
      cases heff : createEffect V.content V.generation path.bytes typeRegular 0o644 uid gid with
      | failed begun c' =>
        rw [heff] at hshown
        exact absurd hshown.1 (by simp)
      | broken =>
        rw [heff] at hshown
        exact absurd hshown (by simp [Effect.Shown])
      | done k c' =>
        rw [heff] at hshown
        obtain ⟨-, n, rfl⟩ := hshown
        obtain ⟨rfl, parent, id, names, leaf, hat⟩ := create_done hc path.noNul (Or.inl rfl) heff
        have hfound := hat.resolve hc path.noNul
        rw [show (V.journalActive && (1 : ℕ) == 0) = false from Bool.and_false _,
          wp_resolve (V := after V false 1 n c') hat.consistent.toAllocated hr.mounted]
        change Proc.wpNext volume volumeGuard _ _ (resolve c' path.bytes) _ _
        rw [hfound, Proc.wpNext_some]
        dsimp only
        rw [hfound]
        refine Proc.wp_mono (overwrite_effect (V := after V false 1 n c') hat.consistent
          (room_after hr.mounted 1 n c') hat.used data.bounded) ?_
        intro r _ V' hshown
        change (overwriteEffect c' (V.generation + 1) (c'.inode id) data.bytes uid gid).Shown
          (after V false 1 n c') r V' at hshown
        dsimp only
        cases hover : overwriteEffect c' (V.generation + 1) (c'.inode id) data.bytes uid gid with
        | failed begun c'' =>
          rw [hover] at hshown
          exact hshown.1
        | broken =>
          rw [hover] at hshown
          exact hshown
        | done k c'' =>
          rw [hover] at hshown
          obtain ⟨hr', m, rfl⟩ := hshown
          obtain rfl := overwrite_commits hover
          exact ⟨hr', m, by rw [after_after]; simp [after]⟩

theorem wp_readFrom (hf : Inode.Fits V.content.total inode) (max : ℕ)
    (out : List UInt8) {P : Option (List UInt8) → Unit → Volume → Prop} :
    Proc.wp volume volumeGuard (readFrom inode max out) P () V ↔
      P (bytesFrom V.content inode max out) () V := by
  fun_induction bytesFrom V.content inode max out with
  | case1 out h hb ih =>
    rw [readFrom, dif_pos h, Proc.wp_bind, Proc.wp_guard, if_pos (by simpa using hb),
      Proc.wpNext_some, Proc.wp_bind, wp_readDataBlock, Proc.wpNext_some, ih]
    exact and_iff_right hf
  | case2 out h hb =>
    rw [readFrom, dif_pos h, Proc.wp_bind, Proc.wp_guard, if_neg (by simpa using hb)]
    exact Iff.rfl
  | case3 out h =>
    rw [readFrom, dif_neg h, Proc.wp_pure]

theorem wp_readFile {path : CString} (hc : Consistent V.content) (hm : V.mounted = true) (max : ℕ)
    {P : Option (List UInt8) → Unit → Volume → Prop} :
    Proc.wp volume volumeGuard (k64XfsReadFile path max) P () V ↔
      P (fileBytes V.content path.bytes max) () V := by
  rw [k64XfsReadFile, Proc.wp_bind, wp_resolve hc.toAllocated hm, fileBytes]
  cases hres : resolve V.content path.bytes with
  | none => rfl
  | some target =>
    obtain ⟨id, inode⟩ := target
    obtain ⟨hu, rfl, -, -⟩ := resolve_used hc path.noNul hres
    rw [Proc.wpNext_some, Proc.wp_bind, Proc.wp_guard, Option.bind_some]
    dsimp only
    by_cases ht : (V.content.inode id.toNat).type = typeRegular
    · rw [if_pos (by simpa using ht), if_pos ht, Proc.wpNext_some,
        wp_readFrom (hc.fits _ hu.pos hu.le)]
    · rw [if_neg (by simpa using ht), if_neg ht, Proc.wpNext_none]

theorem length_bytesFrom {max : ℕ} {out bytes : List UInt8}
    (hout : out.length ≤ max) (h : bytesFrom c inode max out = some bytes) :
    bytes.length ≤ max := by
  fun_induction bytesFrom c inode max out with
  | case1 out hlt hb ih =>
    refine ih ?_ h
    simp only [List.length_append, Block.length_read]
    omega
  | case2 => cases h
  | case3 =>
    cases h
    exact hout

theorem length_truncateData {newSize : ℕ}
    (h : truncateData c path inode newSize = some data) : data.length < 2 ^ 63 := by
  unfold truncateData at h
  split at h
  · cases h
    decide
  · split at h
    · split at h
      · obtain ⟨⟨id, inode⟩, -, h⟩ := Option.bind_eq_some_iff.mp h
        dsimp only at h
        split at h
        · have := length_bytesFrom (Nat.zero_le _) h
          omega
        · cases h
      · cases h
    · cases h
      decide

theorem truncate_effect {path : CString} {newSize : ℕ} (hc : Consistent V.content)
    (hr : Room 12 V) :
    vwp (k64XfsTruncate path newSize) (fun r V' =>
      (truncateEffect V.content V.generation path.bytes newSize).Shown V r V') V := by
  have hkept : (Effect.failed false V.content).Shown V none V :=
    ⟨rfl, by simpa [logged_zero] using logged_after V 0 V.content⟩
  rw [vwp, k64XfsTruncate, Proc.wp_bind, wp_resolve hc.toAllocated hr.mounted, truncateEffect]
  cases hres : resolve V.content path.bytes with
  | none => exact hkept
  | some target =>
    obtain ⟨id, inode⟩ := target
    rw [Proc.wpNext_some, Proc.wp_bind, Proc.wp_guard]
    dsimp only
    by_cases ht : inode.type = typeRegular
    case neg =>
      rw [if_neg (by simpa using ht), if_pos ht]
      exact hkept
    rw [if_pos (by simpa using ht), if_neg (not_not.mpr ht), Proc.wpNext_some, Proc.wp_ite]
    have hwrite : ∀ data, truncateData V.content path.bytes inode newSize = some data →
        Proc.wp volume volumeGuard (k64XfsWriteFile path data inode.uid inode.gid)
          (fun r _ V' => (writeEffect V.content V.generation path.bytes data inode.uid
            inode.gid).Shown V r V') () V :=
      fun data hd => write_effect hc hr path ⟨data, length_truncateData hd⟩ _ _
    by_cases h0 : newSize = 0
    · have hd : truncateData V.content path.bytes inode newSize = some [] := if_pos h0
      rw [if_pos h0, hd]
      exact hwrite [] hd
    rw [if_neg h0, Proc.wp_ite]
    by_cases hle : newSize ≤ inode.size.toNat
    · rw [if_pos hle, Proc.wp_bind, Proc.wp_guard]
      by_cases h4 : newSize ≤ 4096
      · have hd : truncateData V.content path.bytes inode newSize =
            fileBytes V.content path.bytes newSize := by
          rw [truncateData, if_neg h0, if_pos hle, if_pos h4]
        rw [if_pos (by simpa using h4), Proc.wpNext_some, Proc.wp_bind, wp_readFile hc hr.mounted, hd]
        cases hbytes : fileBytes V.content path.bytes newSize with
        | none => exact hkept
        | some data => exact hwrite data (hd.trans hbytes)
      · have hd : truncateData V.content path.bytes inode newSize = none := by
          rw [truncateData, if_neg h0, if_pos hle, if_neg h4]
        rw [if_neg (by simpa using h4), hd]
        exact hkept
    · have hd : truncateData V.content path.bytes inode newSize = some [0] := by
        rw [truncateData, if_neg h0, if_neg hle]
      rw [if_neg hle, hd]
      exact hwrite [0] hd

end XfsOperationEffects
