import K64.XfsUnlinkEffects

/-! # Effects keep the volume consistent

A call that fails without being broken leaves the logical filesystem as it was, and a call that
succeeds leaves a consistent one. For each call there is a statement of what it changed. -/
namespace XfsEffectsConsistent

open ByteCodec XfsFormat XfsInode XfsDirectory XfsOperations XfsVolume XfsConsistency XfsLookup
  XfsPaths XfsDirectoryUpdate XfsContentChanges XfsFileChanges XfsOperationEffects XfsUnlinkEffects

variable {c c' c'' : Content}

/-- The same logical filesystem: bitmaps, free count, used inodes and marked blocks. What unused
inodes and unmarked blocks hold is not part of it. -/
structure Same (c c' : Content) : Prop where
  total : c'.total = c.total
  freeBlocks : c'.freeBlocks = c.freeBlocks
  inodeUsed : c'.inodeUsed = c.inodeUsed
  blockUsed : c'.blockUsed = c.blockUsed
  inode : ∀ id, Used c id → c'.inode id = c.inode id
  data : ∀ b, c.blockUsed b = true → c'.data b = c.data b

theorem Same.refl (c : Content) : Same c c :=
  ⟨rfl, rfl, rfl, rfl, fun _ _ => rfl, fun _ _ => rfl⟩

variable {id : ℕ}

theorem unmade_same {i : Inode} (h : Consistent c) (hs : c.spareInode = some id)
    (hid : i.inodeId = UInt32.ofNat id) (hcount : i.extentCount = 0) :
    Consistent ((freshFile c i).setInodeUsed id false) ∧
      Same c ((freshFile c i).setInodeUsed id false) := by
  obtain ⟨-, -, hbit, htoNat, -⟩ := spareInode_some hs
  have hi : i.inodeId.toNat = id := hid ▸ htoNat
  have heq : (freshFile c i).setInodeUsed id false = c.setInode i := by
    have hupd : Function.update (Function.update c.inodeUsed id true) id false = c.inodeUsed := by
      rw [Function.update_idem, ← hbit, Function.update_eq_self]
    simp only [freshFile, Content.setInodeUsed, Content.setInode, hi, hupd]
  rw [heq]
  refine ⟨h.setUnused (by rw [hi]; exact hbit) (fits_empty hcount), rfl, rfl, rfl, rfl, ?_,
    fun _ _ => rfl⟩
  intro k hk
  refine Function.update_of_ne ?_ _ _
  rintro rfl
  rw [hi] at hk
  exact absurd (hbit.symm.trans hk.bit) (by decide)

theorem ungrown_same {n : ℕ} (h : Consistent c) (hn : allocRun c 1 = some n) (e : Dirent) :
    Consistent (ungrown c e n) ∧ Same c (ungrown c e n) := by
  obtain ⟨-, hfree, h82, hend, hun⟩ := allocRun_some hn
  have hown : ∀ id, Used c id → n ∉ Inode.blocks (c.inode id) :=
    fun id hu => unmarked_not_owned h hu (hun n (Nat.le_refl n) (by omega))
  have hcons : Consistent ((c.takeRun n 1).setData n (setDirent Block.zero 0 e)) :=
    (h.takeRun h82 hend hun).setData (fun dir hu _ => hown dir ⟨hu.1, hu.2, hu.3⟩) _
  have hmark : ((c.takeRun n 1).setData n (setDirent Block.zero 0 e)).usedIn n 1 = 1 := by
    simp [Content.usedIn, Content.setData, Content.takeRun, Content.markRun, Content.withFree]
  refine ⟨hcons.dropRun h82 hend fun id hu b hb hx => ?_, rfl, ?_, rfl, ?_, fun _ _ => rfl, ?_⟩
  · obtain rfl : b = n := by omega
    exact hown id ⟨hu.1, hu.2, hu.3⟩ hb
  · change c.freeBlocks - UInt64.ofNat 1 + UInt64.ofNat _ = c.freeBlocks
    rw [hmark]
    exact UInt64.sub_add_cancel _ _
  · funext b
    change (if n ≤ b ∧ b < n + 1 then false else if n ≤ b ∧ b < n + 1 then true else c.blockUsed b) =
      c.blockUsed b
    split
    · next hb => rw [hun b hb.1 hb.2]
    · rfl
  · intro b hb
    refine Function.update_of_ne ?_ _ _
    rintro rfl
    exact absurd ((hun b (Nat.le_refl b) (by omega)).symm.trans hb) (by decide)

theorem unadded_same {dir : Inode} {e : Dirent} (h : Consistent c) :
    Consistent (unadded c dir e) ∧ Same c (unadded c dir e) := by
  unfold unadded
  split
  · cases hn : allocRun c 1 with
    | none => exact ⟨h, Same.refl c⟩
    | some n => exact ungrown_same h hn e
  · exact ⟨h, Same.refl c⟩

variable {begun : Bool} {path : List UInt8}

theorem create_failed {generation : UInt64} {type : UInt16}
    {mode uid gid : UInt32} (h : Consistent c)
    (he : createEffect c generation path type mode uid gid = .failed begun c') :
    begun = true ∧ Consistent c' ∧ Same c c' := by
  unfold createEffect at he
  split at he
  · cases he
    exact ⟨rfl, h, Same.refl c⟩
  · split at he
    · cases he
      exact ⟨rfl, h, Same.refl c⟩
    next hspare =>
      dsimp only at he
      split at he
      · cases he
        exact ⟨rfl, unmade_same h hspare rfl rfl⟩
      · split at he <;> cases he

theorem overwrite_failed {generation : UInt64} {inode : Inode} {data : List UInt8}
    {uid gid : UInt32}
    (he : overwriteEffect c generation inode data uid gid = .failed begun c') : c' = c := by
  unfold overwriteEffect at he
  split at he
  · cases he
    rfl
  · dsimp only at he
    split at he
    · cases he
    · split at he
      · cases he
      · split at he
        · cases he
          rfl
        · cases he

theorem write_failed {generation : UInt64} {data : List UInt8} {uid gid : UInt32} (h : Consistent c)
    (he : writeEffect c generation path data uid gid = .failed begun c') :
    c' = c ∨ begun = true ∧ Consistent c' ∧ Same c c' := by
  unfold writeEffect at he
  split at he
  · exact .inl (overwrite_failed he)
  · split at he
    · split at he
      · cases he
      · split at he <;> cases he
    · exact .inr (create_failed h he)

theorem unlink_not_failed (parent : Inode) (leaf : List UInt8) (inodeId : UInt32) (inode : Inode)
    (wipe : Bool) : unlinkEffect c parent leaf inodeId inode wipe ≠ .failed begun c' := by
  unfold unlinkEffect
  split
  · nofun
  · split <;> nofun

/-- What a call that fails leaves behind: nothing, a file that was not made (it has opened a
transaction), or a directory that was not grown. -/
theorem effect_failed {op : Operation} {generation : UInt64} (h : Consistent c)
    (he : op.effect c generation = .failed begun c') :
    (c' = c ∨ begun = true ∧ Consistent c' ∧ Same c c') ∨ ∃ dir e, c' = unadded c dir e := by
  cases op with
  | mkdir path mode uid gid => exact .inl (.inr (create_failed h he))
  | create path mode uid gid =>
    rw [Operation.effect] at he
    exact .inl (.inr (create_failed h he))
  | writeFile path data uid gid => exact .inl (write_failed h he)
  | truncate path newSize =>
    simp only [Operation.effect, truncateEffect] at he
    split at he
    · exact .inl (.inl (by cases he; rfl))
    · split at he
      · exact .inl (.inl (by cases he; rfl))
      · split at he
        · exact .inl (.inl (by cases he; rfl))
        · exact .inl (write_failed h he)
  | remove path =>
    simp only [Operation.effect, removeEffect] at he
    split at he
    · exact .inl (.inl (by cases he; rfl))
    · split at he
      · exact absurd he (unlink_not_failed _ _ _ _ _)
      · exact .inl (.inl (by cases he; rfl))
  | rmdir path =>
    simp only [Operation.effect, rmdirEffect] at he
    split at he
    · exact .inl (.inl (by cases he; rfl))
    · split at he
      · exact absurd he (unlink_not_failed _ _ _ _ _)
      · exact .inl (.inl (by cases he; rfl))
  | rename oldPath newPath =>
    simp only [Operation.effect, renameEffect] at he
    split at he
    · split at he
      · exact .inl (.inl (by cases he; rfl))
      · split at he
        · exact .inl (.inl (by cases he; rfl))
        · split at he
          · cases he
            exact .inr ⟨_, _, rfl⟩
          · split at he
            · cases he
            · split at he <;> cases he
    · exact .inl (.inl (by cases he; rfl))
  | chmod path mode =>
    simp only [Operation.effect, changeEffect] at he
    split at he <;> cases he
    exact .inl (.inl rfl)
  | chown path uid gid =>
    simp only [Operation.effect, changeEffect] at he
    split at he <;> cases he
    exact .inl (.inl rfl)

theorem failed_same {op : Operation} {generation : UInt64} (h : Consistent c)
    (he : op.effect c generation = .failed begun c') : Consistent c' ∧ Same c c' := by
  obtain (rfl | ⟨-, hsame⟩) | ⟨dir, e, rfl⟩ := effect_failed h he
  · exact ⟨h, Same.refl _⟩
  · exact hsame
  · exact unadded_same h

section Final

variable (generation : UInt64) (inode : Inode) (data : List UInt8) (uid gid : UInt32) (start : ℕ)

theorem final_fields (blocks : ℕ) :
    (finalInode generation inode data blocks uid gid start).magic = inode.magic ∧
      (finalInode generation inode data blocks uid gid start).inodeId = inode.inodeId ∧
      (finalInode generation inode data blocks uid gid start).type = inode.type ∧
      (finalInode generation inode data blocks uid gid start).size = UInt64.ofNat data.length := by
  unfold finalInode writtenInode
  split <;> exact ⟨rfl, rfl, rfl, rfl⟩

theorem final_empty {blocks : ℕ} (h : blocks = 0) :
    (finalInode generation inode data blocks uid gid start).extentCount = 0 := by
  unfold finalInode writtenInode
  rw [if_neg (by omega)]
  rfl

theorem final_run {blocks : ℕ} (h : 0 < blocks) :
    (finalInode generation inode data blocks uid gid start).extentCount = 1 ∧
      Inode.extents (finalInode generation inode data blocks uid gid start) =
        [singleExtent start blocks] := by
  have hcount : (finalInode generation inode data blocks uid gid start).extentCount = 1 := by
    unfold finalInode writtenInode
    rw [if_pos h]
    rfl
  refine ⟨hcount, extents_single (v := Vector.replicate 8 Extent.zero) hcount ?_⟩
  unfold finalInode writtenInode
  rw [if_pos h]
  rfl

end Final

/-- The file `id` holds `data`, and nothing else has changed. -/
structure Wrote (c c' : Content) (id : ℕ) (data : List UInt8) (final : Inode) : Prop extends
    Rewritten c c' id final where
  type : final.type = typeRegular
  size : final.size = UInt64.ofNat data.length
  bytes : ∀ b < blocksFor data, c'.dataOf final b = dataChunk data b

variable {k : ℕ}

theorem overwrite_done {generation : UInt64} {data : List UInt8} {uid gid : UInt32}
    (h : Consistent c) (hu : Used c id)
    (he : overwriteEffect c generation (c.inode id) data uid gid = .done k c') :
    ∃ final, Wrote c c' id data final ∧ (c.inode id).type = typeRegular := by
  unfold overwriteEffect at he
  split at he
  · cases he
  next hcheck =>
    have ht : (c.inode id).type = typeRegular := by
      by_contra hx
      exact hcheck (Or.inl hx)
    have hrec : ∀ start, FileRecord c id
        (finalInode generation (c.inode id) data (blocksFor data) uid gid start) := by
      intro start
      obtain ⟨h1, h2, h3, -⟩ := final_fields generation (c.inode id) data uid gid start
        (blocksFor data)
      exact ⟨h2, h1.trans (Used.inodeId h.toAllocated hu).1, h3.trans ht⟩
    have hsize := fun start => (final_fields generation (c.inode id) data uid gid start
      (blocksFor data)).2.2.2
    dsimp only at he
    split at he
    · next h0 =>
      cases he
      refine ⟨_, ⟨truncated_ok h hu ht (hrec 0) (final_empty _ _ _ _ _ _ h0), (hrec 0).type,
        hsize 0, ?_⟩, ht⟩
      intro b hb
      omega
    · next h0 =>
      split at he
      · next start halloc =>
        cases he
        obtain ⟨hcount, hext⟩ := final_run generation (c.inode id) data uid gid start
          (Nat.pos_of_ne_zero h0)
        obtain ⟨hw, hb⟩ := written_ok h hu ht (hrec start) data halloc hext hcount
        exact ⟨_, ⟨hw, (hrec start).type, hsize start, hb⟩, ht⟩
      · split at he <;> cases he

theorem write_done {generation : UInt64} {data : List UInt8} {uid gid : UInt32}
    (h : Consistent c) (h0 : (0 : UInt8) ∉ path)
    (he : writeEffect c generation path data uid gid = .done k c') :
    (∃ id final, resolve c path = some (id, c.inode id.toNat) ∧ Used c id.toNat ∧
      (c.inode id.toNat).type = typeRegular ∧ Wrote c c' id.toNat data final) ∨
    (resolve c path = none ∧ ∃ c₁ parent id names leaf final,
      CreatedAt c c₁ path typeRegular parent id names leaf ∧ Wrote c₁ c' id data final) := by
  unfold writeEffect at he
  split at he
  · next id inode hres =>
    obtain ⟨hu, rfl, -, -⟩ := resolve_used h h0 hres
    obtain ⟨final, hw, ht⟩ := overwrite_done h hu he
    exact Or.inl ⟨id, final, hres, hu, ht, hw⟩
  · next hres =>
    refine Or.inr ⟨hres, ?_⟩
    split at he
    · next hcreate =>
      obtain ⟨-, parent, id, names, leaf, hat⟩ := create_done h h0 (Or.inl rfl) hcreate
      rw [hat.resolve h h0] at he
      dsimp only at he
      split at he
      · next hover =>
        cases he
        obtain ⟨final, hw, -⟩ := overwrite_done hat.consistent hat.used hover
        exact ⟨_, parent, id, names, leaf, final, hat, hw⟩
      · cases he
    · next hno => exact absurd he (hno _ _)

theorem truncate_done {generation : UInt64} {newSize : ℕ}
    (h : Consistent c) (h0 : (0 : UInt8) ∉ path)
    (he : truncateEffect c generation path newSize = .done k c') :
    ∃ id data final, resolve c path = some (id, c.inode id.toNat) ∧ Used c id.toNat ∧
      (c.inode id.toNat).type = typeRegular ∧ Wrote c c' id.toNat data final := by
  unfold truncateEffect at he
  split at he
  · cases he
  · next id inode hres =>
    split at he
    · cases he
    · split at he
      · cases he
      · next data _ =>
        rcases write_done h h0 he with ⟨id, final, hw⟩ | ⟨hnone, -⟩
        · exact ⟨id, data, final, hw⟩
        · rw [hres] at hnone
          cases hnone

theorem locate_append (c : Content) (names : List (List UInt8)) (leaf : List UInt8) :
    locate c (names ++ [leaf]) = (locate c names).bind fun dir => childOf c dir leaf := by
  rw [locate, locate, List.foldlM_append, Option.bind_eq_bind]
  congr 1
  funext dir
  simp

theorem located_not_self (h : Consistent c) (names : List (List UInt8)) :
    (∀ name ∈ names, (0 : UInt8) ∉ name) → ∀ dir, locate c names = some dir →
    ∀ b s e, Live c dir b s e → e.inodeId.toNat ≠ dir := by
  induction names using List.reverseRecOn with
  | nil =>
    intro _ dir hloc b s e hl hself
    rw [locate, List.foldlM_nil] at hloc
    obtain rfl := Option.some.inj hloc
    exact (h.entries _ _ _ _ hl).notRoot hself
  | append_singleton names name ih =>
    intro hn dir hloc b s e hl hself
    rw [locate_append] at hloc
    obtain ⟨parent, hpar, hchild⟩ := Option.bind_eq_some_iff.mp hloc
    have hn' : ∀ t ∈ names, (0 : UInt8) ∉ t := fun t ht => hn t (List.mem_append_left _ ht)
    obtain ⟨b', s', e', hl', -, hid'⟩ := (childOf_eq_some h (locate_used h hn' hpar)
      (hn name (by simp))).mp hchild
    obtain ⟨rfl, -, -⟩ := h.unique _ _ _ _ _ _ _ _ hl' hl
      (UInt32.toNat_inj.mp (hid'.trans hself.symm))
    exact ih hn' parent hpar b s e hl hself

variable {leaf : List UInt8} {parent : ℕ}

theorem entry_parent_ne {names : List (List UInt8)}
    {e : Dirent} {b s n : ℕ} (h : Consistent c) (h0 : (0 : UInt8) ∉ path)
    (hat : EntryAt c path parent id leaf names e b s n) : parent ≠ id := by
  rintro rfl
  refine located_not_self h names (fun name hm => ?_) _ hat.located b s e hat.live hat.target
  exact noNul_tokens h0 (hat.tokens ▸ List.mem_append_left _ hm)

theorem unlinked_wipe {i : Inode}
    (h : Unlinked c c' parent id leaf) (hid : i.inodeId.toNat = id) (hne : parent ≠ id)
    (h1 : 1 ≤ id) (h512 : id ≤ 512) (hcount : i.extentCount = 0) :
    Unlinked c (c'.setInode i) parent id leaf := by
  have hun : c'.inodeUsed i.inodeId.toNat = false := by
    rw [hid]
    by_contra hx
    exact h.gone ⟨h1, h512, by simpa using hx⟩
  have hk : Keeps (fun k => k = id) c' (c'.setInode i) := hid ▸ keeps_setInode c' i
  refine ⟨h.consistent.setUnused hun (fits_empty hcount), ?_, ⟨h.used.1, h.used.2, h.used.3⟩,
    fun hx => h.gone ⟨hx.1, hx.2, hx.3⟩, ?_, fun name hn => ?_⟩
  · exact h.keeps.trans (hk.weaken fun _ => Or.inr)
  · rw [hk.inode parent hne h.used, h.type]
  · rw [hk.childOf hne h.used, h.child name hn]

theorem unlink_done {inodeId : UInt32}
    {names : List (List UInt8)} {e : Dirent} {b s n : ℕ} {wipe : Bool} (h : Consistent c)
    (h0 : (0 : UInt8) ∉ path) (hat : EntryAt c path parent inodeId.toNat leaf names e b s n)
    (he : unlinkEffect c (c.inode parent) leaf inodeId (c.inode inodeId.toNat) wipe = .done k c') :
    Unlinked c c' parent inodeId.toNat leaf := by
  have hne := entry_parent_ne h h0 hat
  have hun := unlinked_ok h hat.live hat.target hne hat.stored
  rw [hat.name] at hun
  rw [unlinkEffect, hat.found] at he
  dsimp only at he
  rw [hat.stored] at he
  cases he
  cases wipe with
  | false => exact hun
  | true => exact unlinked_wipe hun rfl hne hat.used.pos hat.used.le rfl

theorem remove_done (h : Consistent c) (h0 : (0 : UInt8) ∉ path)
    (he : removeEffect c path = .done k c') : ∃ parent id leaf names e b s n,
      EntryAt c path parent id leaf names e b s n ∧ (c.inode id).type = typeRegular ∧
      Unlinked c c' parent id leaf := by
  unfold removeEffect at he
  split at he
  · cases he
  · next parentId parent leaf inodeId inode hent =>
    obtain ⟨rfl, rfl, names, e, b, s, n, hat⟩ := entryAt_some h h0 hent
    split at he
    · next ht => exact ⟨_, _, _, _, e, b, s, n, hat, ht, unlink_done h h0 hat he⟩
    · cases he

theorem rmdir_done (h : Consistent c) (h0 : (0 : UInt8) ∉ path)
    (he : rmdirEffect c path = .done k c') : ∃ parent id leaf names e b s n,
      EntryAt c path parent id leaf names e b s n ∧ (∀ b s e, ¬ Live c id b s e) ∧
      Unlinked c c' parent id leaf := by
  unfold rmdirEffect at he
  split at he
  · cases he
  · next parentId parent leaf inodeId inode hent =>
    obtain ⟨rfl, rfl, names, e, b, s, n, hat⟩ := entryAt_some h h0 hent
    split at he
    · next hcheck =>
      obtain ⟨ht, hsize, hempty⟩ := hcheck
      refine ⟨_, _, _, _, e, b, s, n, hat, fun b' s' e' hl => ?_, unlink_done h h0 hat he⟩
      have hshape := (h.shape _ hat.used).dir ht
      have hone : (c.inode inodeId.toNat).extentCount.toNat = 1 := by
        have := hshape.size
        rw [hsize] at this
        simp at this
        omega
      have hb : b' = 0 := by
        have := hl.block
        omega
      have hslot := List.all_eq_true.mp hempty s' (List.mem_range.mpr hl.slot)
      rw [← hb, hl.entry] at hslot
      exact hl.id (by simpa using hslot)
    · cases he

/-- `k64_xfs_chmod` and `k64_xfs_chown` change no field that the invariant speaks of. -/
theorem change_done {generation : UInt64} {f : UInt64 → Inode → Inode}
    (h : Consistent c) (h0 : (0 : UInt8) ∉ path) (hf : ∀ tick i, Alike (f tick i) i)
    (he : changeEffect c generation f path = .done k c') : Consistent c' := by
  unfold changeEffect at he
  split at he
  · cases he
  · next id inode hres =>
    obtain ⟨hu, rfl, -, -⟩ := resolve_used h h0 hres
    cases he
    exact h.touch hu (hf _ _)

end XfsEffectsConsistent
