import K64.XfsOperationEffects

/-! # The effect of calls on existing entries

`k64_xfs_remove`, `k64_xfs_rmdir`, `k64_xfs_rename`, `k64_xfs_chmod` and `k64_xfs_chown`, and with
them every public call that changes a mounted volume. -/
namespace XfsUnlinkEffects

open IoProgram XfsFormat XfsInode XfsCalls XfsDirectory XfsOperations XfsVolume XfsConsistency
  XfsLookup XfsPaths XfsDirectoryUpdate XfsContentChanges XfsOperationEffects

variable {V : Volume} {c : Content} {P : Option Unit → Unit → Volume → Prop}

/-- The entry `e` in slot `s` of block `b` of a directory, which is stored in block `n`, and the
path it ends. -/
structure EntryAt (c : Content) (path : List UInt8) (parent id : ℕ) (leaf : List UInt8)
    (names : List (List UInt8)) (e : Dirent) (b s n : ℕ) : Prop where
  head : path.head? = some slash
  tokens : tokens path = names ++ [leaf]
  located : locate c names = some parent
  leafOk : NameOk leaf
  live : Live c parent b s e
  name : nameOf e = leaf
  target : e.inodeId.toNat = id
  used : Used c id
  found : dirFind c (c.inode parent) leaf = some (e, b, s)
  stored : Inode.lookup (c.inode parent) b = some n

theorem entryAt_some {path leaf : List UInt8} {parentId inodeId : UInt32} {parent inode : Inode}
    (hc : Consistent c) (h0 : (0 : UInt8) ∉ path)
    (h : entryAt c path = some (parentId, parent, leaf, inodeId, inode)) :
    parent = c.inode parentId.toNat ∧ inode = c.inode inodeId.toNat ∧
      ∃ names e b s n, EntryAt c path parentId.toNat inodeId.toNat leaf names e b s n := by
  obtain ⟨⟨parentPath, leaf'⟩, hsplit, h⟩ := Option.bind_eq_some_iff.mp h
  obtain ⟨⟨parentId', parent'⟩, hpar, h⟩ := Option.bind_eq_some_iff.mp h
  obtain ⟨⟨inodeId', inode'⟩, hres, h⟩ := Option.map_eq_some_iff.mp h
  simp only [Prod.mk.injEq] at h
  obtain ⟨rfl, rfl, rfl, rfl, rfl⟩ := h
  obtain ⟨hhead, -, hleaf, htok, hp0⟩ := split_parent_some h0 hsplit
  obtain ⟨hu, rfl, -, hloc⟩ := resolve_used hc hp0 hpar
  obtain ⟨hu', rfl, -, -⟩ := resolve_used hc h0 hres
  rw [resolve_split h0 hsplit, hpar, Option.bind_some, descend, if_pos hleaf.length_lt] at hres
  obtain ⟨⟨e, b, s⟩, hfind, hres⟩ := Option.bind_eq_some_iff.mp hres
  obtain ⟨_, _, hid⟩ := Option.map_eq_some_iff.mp hres
  obtain ⟨hlive, hname⟩ := (dirFind_eq_some hc hu hleaf.noNul).mp hfind
  have hshape := hc.shape _ hu
  obtain ⟨ex, hex⟩ := exists_extent hshape hlive.block
  have hsmall := hc.small
  have hlook := lookup_dir hshape (hshape.dir hlive.isDir) (hc.fits _ hu.pos hu.le) (by omega) hex
  exact ⟨rfl, rfl, _, e, b, s, _, hhead, htok, hloc, hleaf, hlive, hname,
    congrArg UInt32.toNat (Prod.mk.inj hid).1, hu', hfind, hlook⟩

theorem wp_unlinkBody {path leaf : List UInt8} {parent : ℕ} {inodeId : UInt32}
    {names : List (List UInt8)} {e : Dirent} {b s n : ℕ}
    (hc : Consistent V.content) (hr : Room 10 V)
    (h : EntryAt V.content path parent inodeId.toNat leaf names e b s n) :
    Proc.wp volume volumeGuard
        (unlinkBody (V.content.inode parent) (V.content.inode inodeId.toNat) inodeId leaf) P () V ↔
      P (some ()) () (logged ((Inode.extents (V.content.inode inodeId.toNat)).length + 2) V
        (unlinked V.content (V.content.inode parent) (V.content.inode inodeId.toNat)
          inodeId.toNat b s n)) := by
  set inode := V.content.inode inodeId.toNat with hinode
  have hshape := hc.shape _ h.used
  have hlen : (Inode.extents inode).length ≤ 8 := by
    rw [length_extents hshape.few]
    exact hshape.few
  obtain ⟨hp0, hp512⟩ := Used.inodeId_ne hc.toAllocated h.live.used
  have hid0 : inodeId ≠ 0 := by
    rintro rfl
    exact absurd h.used.pos (by decide)
  have hfit : ∀ ex ∈ Inode.extents inode, Extent.Fits V.content.total ex ∧
      0 < ex.blockCount.toNat :=
    fun ex hex => ⟨hc.fits _ h.used.pos h.used.le ex hex, hshape.nonempty ex hex⟩
  have hfields := dropExtents_fields (Inode.extents inode) V.content
  set c₁ := dropExtents V.content (Inode.extents inode) with hc₁
  have hroom : Room 2 (logged (Inode.extents inode).length V c₁) := (hr.mono (by omega)).logged _
  have hroom' : Room 1 (logged ((Inode.extents inode).length + 1) V
      (c₁.setInodeUsed inodeId.toNat false)) := (hr.mono (by omega)).logged _
  have hfind : dirFind (c₁.setInodeUsed inodeId.toNat false) (V.content.inode parent) leaf =
      some (e, b, s) := by
    rw [← h.found]
    refine dirFind_congr fun k => ?_
    unfold Content.dataOf
    split
    · exact congrFun hfields.1 _
    · rfl
  have hpfit : Inode.Fits c₁.total (V.content.inode parent) := by
    rw [hfields.2.2.2]
    exact hc.fits _ h.live.used.pos h.live.used.le
  rw [unlinkBody, Proc.wp_bind, xfsFreeFileExtents, Proc.wp_bind,
    wp_freeExtents _ (hr.mono (by omega)) hfit, Proc.wpNext_some, Proc.wp_pure, Proc.wpNext_some,
    Proc.wp_bind, wp_freeInode (hroom.mono (by decide)) hid0 h.used.le, logged_logged,
    Proc.wpNext_some, content_logged, Proc.wp_bind, wp_dirRemove hroom' hpfit hp0 hp512,
    content_logged, hfind]
  dsimp only
  rw [h.stored]
  dsimp only
  rw [Proc.wpNext_some, Proc.wp_pure, logged_logged]
  rfl

theorem kept_effect (V : Volume) : (Effect.failed false V.content).Shown V none V :=
  ⟨rfl, by simpa [logged_zero] using logged_after V 0 V.content⟩

theorem wp_entryAt (path : List UInt8) {α : Type}
    {k : List UInt8 → UInt32 × Inode → UInt32 × Inode → XfsV α} (hc : Allocated V.content)
    (hm : V.mounted = true) {P : Option α → Unit → Volume → Prop} :
    Proc.wp volume volumeGuard (do
        let (parentPath, leaf) ← Proc.orFail (xfsSplitParent path)
        let parent ← xfsResolve parentPath
        let target ← xfsResolve path
        k leaf parent target) P () V ↔
      match entryAt V.content path with
      | some (parentId, parent, leaf, inodeId, inode) =>
        Proc.wp volume volumeGuard (k leaf (parentId, parent) (inodeId, inode)) P () V
      | none => P none () V := by
  rw [Proc.wp_bind, Proc.wp_orFail, entryAt]
  cases xfsSplitParent path with
  | none => rfl
  | some sp =>
    obtain ⟨parentPath, leaf⟩ := sp
    rw [Proc.wpNext_some, Proc.wp_bind, wp_resolve hc hm, Option.bind_some]
    dsimp only
    cases resolve V.content parentPath with
    | none => rfl
    | some pp =>
      obtain ⟨parentId, parent⟩ := pp
      rw [Proc.wpNext_some, Proc.wp_bind, wp_resolve hc hm, Option.bind_some]
      dsimp only
      cases resolve V.content path with
      | none => rfl
      | some tt => rfl

section Bodies

variable (hc : Consistent V.content) (hr : Room 12 V)

include hc hr

theorem wp_unlink {path leaf : List UInt8} {parent : ℕ} {inodeId : UInt32}
    {names : List (List UInt8)} {e : Dirent} {b s n : ℕ} {tail : XfsV Unit}
    (h : EntryAt V.content path parent inodeId.toNat leaf names e b s n)
    (htail : ∀ k ≤ 10, Proc.wp volume volumeGuard tail P () (logged k (opened V)
      (unlinked V.content (V.content.inode parent) (V.content.inode inodeId.toNat)
        inodeId.toNat b s n))) :
    Proc.wp volume volumeGuard (do
      journalBegin
      unlinkBody (V.content.inode parent) (V.content.inode inodeId.toNat) inodeId leaf
      tail) P () V := by
  have hcont := (opened_fields V).1
  have hlen : (Inode.extents (V.content.inode inodeId.toNat)).length ≤ 8 := by
    rw [length_extents (hc.shape _ h.used).few]
    exact (hc.shape _ h.used).few
  have hbody := htail ((Inode.extents (V.content.inode inodeId.toNat)).length + 2) (by omega)
  rw [Proc.wp_bind, wp_journalBegin hr.mounted, Proc.wpNext_some, Proc.wp_bind]
  rw [← hcont] at hc h hbody ⊢
  rw [wp_unlinkBody hc ((room_opened hr (by decide)).mono (by decide)) h, Proc.wpNext_some]
  exact hbody

theorem remove_effect (path : CString) :
    vwp (k64XfsRemove path) (fun r V' => (removeEffect V.content path.bytes).Shown V r V') V := by
  refine (wp_entryAt path.bytes (k := fun leaf parent target => do
    Proc.guard (target.2.type == typeRegular)
    journalBegin
    unlinkBody parent.2 target.2 target.1 leaf
    let _ ← (writeInode { Inode.zero with inodeId := target.1 }).attempt
    XfsCalls.journalCommit
    writeSuper) hc.toAllocated hr.mounted).mpr ?_
  unfold removeEffect
  cases hent : entryAt V.content path.bytes with
  | none => exact kept_effect V
  | some found =>
    obtain ⟨parentId, parent, leaf, inodeId, inode⟩ := found
    obtain ⟨rfl, rfl, names, e, b, s, n, hat⟩ := entryAt_some hc path.noNul hent
    dsimp only
    rw [Proc.wp_bind, Proc.wp_guard]
    by_cases ht : (V.content.inode inodeId.toNat).type = typeRegular
    case neg =>
      rw [if_neg (by simpa using ht), if_neg ht]
      exact kept_effect V
    rw [if_pos (by simpa using ht), if_pos ht, Proc.wpNext_some, unlinkEffect, hat.found]
    dsimp only
    rw [hat.stored]
    refine wp_unlink hc hr hat fun k hk => ?_
    have hro := room_opened hr (by decide)
    have hroom : Room 1 (logged k (opened V) (unlinked V.content (V.content.inode parentId.toNat)
        (V.content.inode inodeId.toNat) inodeId.toNat b s n)) := (hro.mono (by omega)).logged _
    have hid0 : inodeId ≠ 0 := by
      rintro rfl
      exact absurd hat.used.pos (by decide)
    rw [Proc.wp_bind, Proc.wp_attempt, wp_writeInode hroom hid0 hat.used.le, logged_logged,
      Proc.wpNext_some, wp_finish (hro.mono (by omega))]
    exact ⟨rfl, 0, by simp⟩

theorem rmdir_effect (path : CString) :
    vwp (k64XfsRmdir path) (fun r V' => (rmdirEffect V.content path.bytes).Shown V r V') V := by
  refine (wp_entryAt path.bytes (k := fun leaf parent target => do
    Proc.guard (target.2.type == typeDirectory && target.2.size == 4096)
    let tmp ← readDataBlock target.2 0
    Proc.guard ((List.range 25).all fun s => (dirent tmp s).inodeId == 0)
    journalBegin
    unlinkBody parent.2 target.2 target.1 leaf
    XfsCalls.journalCommit
    writeSuper) hc.toAllocated hr.mounted).mpr ?_
  unfold rmdirEffect
  cases hent : entryAt V.content path.bytes with
  | none => exact kept_effect V
  | some found =>
    obtain ⟨parentId, parent, leaf, inodeId, inode⟩ := found
    obtain ⟨rfl, rfl, names, e, b, s, n, hat⟩ := entryAt_some hc path.noNul hent
    dsimp only
    rw [Proc.wp_bind, Proc.wp_guard]
    by_cases ht : (V.content.inode inodeId.toNat).type = typeDirectory ∧
        (V.content.inode inodeId.toNat).size = 4096
    case neg =>
      rw [if_neg (by simpa using ht), if_neg fun h => ht ⟨h.1, h.2.1⟩]
      exact kept_effect V
    rw [if_pos (by simpa using ht), Proc.wpNext_some, Proc.wp_bind, wp_readDataBlock,
      Proc.wpNext_some, Proc.wp_bind, Proc.wp_guard]
    refine ⟨hc.fits _ hat.used.pos hat.used.le, ?_⟩
    by_cases hempty : (List.range 25).all
        (fun s => (dirent (V.content.dataOf (V.content.inode inodeId.toNat) 0) s).inodeId == 0)
    case neg =>
      rw [if_neg hempty, if_neg fun h => hempty h.2.2]
      exact kept_effect V
    rw [if_pos hempty, if_pos ⟨ht.1, ht.2, hempty⟩, Proc.wpNext_some, unlinkEffect, hat.found]
    dsimp only
    rw [hat.stored]
    refine wp_unlink hc hr hat fun k hk => ?_
    rw [wp_finish ((room_opened hr (by decide)).mono (by omega))]
    exact ⟨rfl, 0, by simp⟩

theorem change_effect {f : UInt64 → Inode → Inode}
    (hf : ∀ tick inode, (f tick inode).inodeId = inode.inodeId) (path : CString) :
    vwp (changeInode f path)
      (fun r V' => (changeEffect V.content V.generation f path.bytes).Shown V r V') V := by
  rw [vwp, changeInode, Proc.wp_bind, wp_resolve hc.toAllocated hr.mounted, changeEffect]
  cases hres : resolve V.content path.bytes with
  | none => exact kept_effect V
  | some target =>
    obtain ⟨id, inode⟩ := target
    obtain ⟨hu, rfl, -, -⟩ := resolve_used hc path.noNul hres
    obtain ⟨h0, h512⟩ := Used.inodeId_ne hc.toAllocated hu
    have hro := room_opened hr (by decide)
    rw [Proc.wpNext_some, Proc.wp_bind, wp_info, Proc.wpNext_some, Proc.wp_bind,
      wp_journalBegin hr.mounted, Proc.wpNext_some, Proc.wp_bind,
      wp_writeInode (hro.mono (by decide)) (by rwa [hf]) (by rwa [hf]), Proc.wpNext_some,
      wp_finish (hro.mono (by decide)), (opened_fields V).1]
    exact ⟨rfl, 0, by simp⟩

theorem rename_body {oldPath newLeaf oldLeaf : List UInt8} {oldParent newParent : ℕ}
    {inodeId : UInt32} {names : List (List UInt8)} {e : Dirent} {b s n : ℕ} {type : UInt16}
    (h : EntryAt V.content oldPath oldParent inodeId.toNat oldLeaf names e b s n)
    (hu : Used V.content newParent) (hleaf : NameOk newLeaf)
    (hnew : dirFind V.content (V.content.inode newParent) newLeaf = none)
    (hfail : added V.content (V.content.inode newParent) (makeDirent newLeaf inodeId type) = none →
      ∀ k, P none () (logged k V (unadded V.content (V.content.inode newParent)
        (makeDirent newLeaf inodeId type))))
    (hdone : ∀ k c', added V.content (V.content.inode newParent)
        (makeDirent newLeaf inodeId type) = some (k, c') →
      match dirFind c' (V.content.inode oldParent) oldLeaf with
      | none => ∀ V', P none () V'
      | some (_, b, s) =>
        match Inode.lookup (V.content.inode oldParent) b with
        | none => ∀ V', P none () V'
        | some n => P (some ()) () (logged (k + 1) V
            (putIn c' (V.content.inode oldParent) Dirent.zero b s n))) :
    Proc.wp volume volumeGuard (do
      let _ ← xfsDirAdd (V.content.inode newParent) newLeaf inodeId type
      let _ ← xfsDirRemove (V.content.inode oldParent) oldLeaf) P () V := by
  obtain ⟨h0, h512⟩ := Used.inodeId_ne hc.toAllocated hu
  obtain ⟨ho0, ho512⟩ := Used.inodeId_ne hc.toAllocated h.live.used
  have hid0 : inodeId ≠ 0 := by
    rintro rfl
    exact absurd h.used.pos (by decide)
  rw [Proc.wp_bind]
  refine dirAdd_rule (hr.mono (by decide)) (hc.fits _ hu.pos hu.le) h0 h512 hleaf.valid hid0 hnew
    ?_ hfail
  intro k c' _ hadd
  obtain ⟨hk, htotal⟩ := added_records hadd
  have hroom : Room 1 (logged k V c') := (hr.mono (by omega)).logged _
  have hfit : Inode.Fits c'.total (V.content.inode oldParent) := by
    rw [htotal]
    exact hc.fits _ h.live.used.pos h.live.used.le
  have hstep := hdone k c' hadd
  rw [Proc.wpNext_some, Proc.wp_bind, wp_dirRemove hroom hfit ho0 ho512, content_logged]
  cases hfind : dirFind c' (V.content.inode oldParent) oldLeaf with
  | none =>
    rw [hfind] at hstep
    exact hstep _
  | some found =>
    obtain ⟨e', b', s'⟩ := found
    rw [hfind] at hstep
    dsimp only at hstep ⊢
    cases hlook : Inode.lookup (V.content.inode oldParent) b' with
    | none =>
      rw [hlook] at hstep
      exact hstep _
    | some n' =>
      rw [hlook] at hstep
      dsimp only at hstep ⊢
      rw [Proc.wpNext_some, Proc.wp_pure, logged_logged]
      exact hstep

end Bodies

theorem entryAt_eq (c : Content) (path : List UInt8) : entryAt c path =
    match xfsSplitParent path with
    | none => none
    | some (parentPath, leaf) =>
      match resolve c parentPath, resolve c path with
      | some (parentId, parent), some (inodeId, inode) =>
        some (parentId, parent, leaf, inodeId, inode)
      | _, _ => none := by
  unfold entryAt
  cases xfsSplitParent path with
  | none => rfl
  | some sp =>
    simp only [Option.bind_some]
    cases resolve c sp.1 <;> cases resolve c path <;> rfl

theorem rename_effect (hc : Consistent V.content) (hr : Room 12 V) (oldPath newPath : CString) :
    vwp (k64XfsRename oldPath newPath)
      (fun r V' => (renameEffect V.content oldPath.bytes newPath.bytes).Shown V r V') V := by
  have hkept := kept_effect V
  have hwp := fun path P => @wp_resolve V hc.toAllocated hr.mounted path P
  rw [vwp, k64XfsRename, Proc.wp_bind, Proc.wp_orFail]
  have hent := entryAt_eq V.content oldPath.bytes
  unfold renameEffect
  cases hold : xfsSplitParent oldPath.bytes with
  | none =>
    rw [hold] at hent
    rw [hent]
    exact hkept
  | some oldSplit =>
    obtain ⟨oldParentPath, oldLeaf⟩ := oldSplit
    rw [hold] at hent
    rw [Proc.wpNext_some, Proc.wp_bind, Proc.wp_orFail]
    cases hnew : xfsSplitParent newPath.bytes with
    | none =>
      cases entryAt V.content oldPath.bytes <;> exact hkept
    | some newSplit =>
      obtain ⟨newParentPath, newLeaf⟩ := newSplit
      rw [Proc.wpNext_some, Proc.wp_bind, hwp]
      dsimp only at hent ⊢
      cases hop : resolve V.content oldParentPath with
      | none =>
        rw [hop] at hent
        rw [hent]
        exact hkept
      | some oldP =>
        rw [hop] at hent
        rw [Proc.wpNext_some, Proc.wp_bind, hwp]
        cases hnp : resolve V.content newParentPath with
        | none =>
          cases entryAt V.content oldPath.bytes with
          | none => exact hkept
          | some found =>
            dsimp only
            rw [hnp]
            exact hkept
        | some newP =>
          obtain ⟨newParentId, newParent⟩ := newP
          rw [Proc.wpNext_some, Proc.wp_bind, hwp]
          cases hres : resolve V.content oldPath.bytes with
          | none =>
            rw [hres] at hent
            rw [hent]
            exact hkept
          | some target =>
            obtain ⟨oldParentId, oldParent⟩ := oldP
            obtain ⟨inodeId, inode⟩ := target
            rw [hres] at hent
            dsimp only at hent
            obtain ⟨rfl, rfl, names, e, b, s, n, hat⟩ := entryAt_some hc oldPath.noNul hent
            obtain ⟨-, -, hleaf, -, hn0⟩ := split_parent_some newPath.noNul hnew
            obtain ⟨hu, rfl, -, -⟩ := resolve_used hc hn0 hnp
            rw [hent, Proc.wpNext_some]
            dsimp only
            rw [hnp, Proc.wp_bind, Proc.wp_attempt, wp_dirFind (hc.fits _ hu.pos hu.le),
              Proc.wpNext_some, Proc.wp_bind, Proc.wp_guard]
            dsimp only
            by_cases habs : dirFind V.content (V.content.inode newParentId.toNat) newLeaf = none
            case neg =>
              rw [if_pos habs, if_neg (by simpa using habs)]
              exact hkept
            rw [if_neg (not_not.mpr habs), if_pos (by simp [habs]), Proc.wpNext_some]
            refine rename_body hc hr hat hu hleaf habs ?_ ?_
            · intro hadd k
              rw [hadd]
              exact ⟨rfl, logged_after V k _⟩
            · intro k c' hadd
              rw [hadd]
              dsimp only
              cases dirFind c' (V.content.inode oldParentId.toNat) oldLeaf with
              | none => exact fun _ => rfl
              | some found =>
                dsimp only
                cases Inode.lookup (V.content.inode oldParentId.toNat) found.2.1 with
                | none => exact fun _ => rfl
                | some n => exact ⟨rfl, by simpa using logged_after V (k + 1) _⟩

theorem operation_effect (hc : Consistent V.content) (hr : Room 12 V) (op : Operation) :
    vwp op.call (fun r V' => (op.effect V.content V.generation).Shown V r V') V := by
  cases op with
  | mkdir path mode uid gid => exact create_effect hc hr path.noNul _ _ _ _
  | create path mode uid gid => exact create_effect hc hr path.noNul _ _ _ _
  | writeFile path data uid gid => exact write_effect hc hr path data uid gid
  | truncate path newSize => exact truncate_effect hc hr
  | remove path => exact remove_effect hc hr path
  | rmdir path => exact rmdir_effect hc hr path
  | rename oldPath newPath => exact rename_effect hc hr oldPath newPath
  | chmod path mode => exact change_effect hc hr (f := chmodded mode) (fun _ _ => rfl) path
  | chown path uid gid => exact change_effect hc hr (f := chowned uid gid) (fun _ _ => rfl) path

end XfsUnlinkEffects
