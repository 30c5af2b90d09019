import K64.XfsEffectsConsistent

/-! # Renaming

`k64_xfs_rename` adds the new entry before it clears the old one, so between the two steps an inode
has two entries. The content it ends with is also reached by clearing first. When both names are
in one directory and the new entry makes it grow, the record read before the growth is written back:
the new entry is lost and its block stays marked without an owner. -/
namespace XfsRenameEffect

open ByteCodec XfsFormat XfsInode XfsDirectory XfsOperations XfsVolume XfsConsistency XfsLookup
  XfsPaths XfsDirectoryUpdate XfsContentChanges XfsFileChanges XfsOperationEffects XfsUnlinkEffects
  XfsEffectsConsistent

variable {c c' : Content}

theorem freeFrom_congr {dir : Inode} (h : ∀ b, c'.dataOf dir b = c.dataOf dir b) : ∀ n b,
    freeFrom c' dir b n = freeFrom c dir b n := by
  intro n
  induction n with
  | zero => exact fun _ => rfl
  | succ n ih => intro b; rw [freeFrom, freeFrom, h b, ih (b + 1)]

theorem dataOf_putIn {total : ℕ} (dir : Inode) {inode : Inode} (hf : Inode.Fits total inode)
    (ht : total ≤ 2 ^ 64) {n : ℕ} (hn : n ∉ Inode.blocks inode) (e : Dirent) (b s logical : ℕ) :
    (putIn c dir e b s n).dataOf inode logical = c.dataOf inode logical :=
  dataOf_setData hf ht hn _ _

theorem dataOf_growBy {total : ℕ} (dir : Inode) {inode : Inode} (hf : Inode.Fits total inode)
    (ht : total ≤ 2 ^ 64) {n : ℕ} (hn : n ∉ Inode.blocks inode) (e : Dirent) (logical : ℕ) :
    (growBy c dir e n).dataOf inode logical = c.dataOf inode logical :=
  dataOf_setData hf ht hn _ _

section Rename

variable {oldPath oldLeaf newLeaf : List UInt8} {oldParent newParent id : ℕ}
  {names : List (List UInt8)} {e₀ : Dirent} {b s n : ℕ} {inodeId : UInt32}

variable {e : Dirent} {k : ℕ}

theorem added_cleared (h : Consistent c)
    (hat : EntryAt c oldPath oldParent id oldLeaf names e₀ b s n) (hu : Used c newParent)
    (hne : newParent ≠ oldParent) (hadd : added c (c.inode newParent) e = some (k, c')) :
    added (putIn c (c.inode oldParent) Dirent.zero b s n) (c.inode newParent) e =
        some (k, putIn c' (c.inode oldParent) Dirent.zero b s n) ∧
      ∀ l, c'.dataOf (c.inode oldParent) l = c.dataOf (c.inode oldParent) l := by
  have hsmall := h.small
  have hou := hat.live.used
  have hof := h.fits _ hou.pos hou.le
  have hnf := h.fits _ hu.pos hu.le
  have hon := lookup_mem_blocks hof (by omega) hat.stored
  have hnn : n ∉ Inode.blocks (c.inode newParent) :=
    fun hx => hne (h.owner _ _ hu hou n hx hon)
  have hoid := (Used.inodeId h.toAllocated hou).2
  have hnid := (Used.inodeId h.toAllocated hu).2
  have hfree : freeSlot (putIn c (c.inode oldParent) Dirent.zero b s n) (c.inode newParent) =
      freeSlot c (c.inode newParent) :=
    freeFrom_congr (fun l => dataOf_putIn _ hnf (by omega) hnn _ _ _ l) _ _
  unfold added
  rw [hfree]
  obtain ⟨b₁, s₁, n₁, hslot, hl, rfl, rfl⟩ | ⟨n₁, hslot, h8, halloc, rfl, rfl⟩ := added_cases hadd
  · have hn₁ := lookup_mem_blocks hnf (by omega) hl
    have hn₁o : n₁ ∉ Inode.blocks (c.inode oldParent) :=
      fun hx => hne (h.owner _ _ hu hou n₁ hn₁ hx)
    have hnn₁ : n ≠ n₁ := fun hx => hnn (hx ▸ hn₁)
    have hold := fun l => dataOf_putIn (c := c) (c.inode newParent) hof (by omega) hn₁o e
      b₁ s₁ l
    refine ⟨?_, hold⟩
    rw [hslot]
    dsimp only
    rw [hl, Option.map_some]
    congr 2
    rw [putIn_fields, putIn_fields (putIn c _ _ _ _ _), hold b,
      dataOf_putIn _ hnf (by omega) hnn]
    simp only [putIn_fields, Content.setData, Content.setInode]
    have hids : (Inode.ticked (c.inode oldParent)).inodeId.toNat ≠
        (Inode.ticked (c.inode newParent)).inodeId.toNat :=
      fun hx => hne (hnid.symm.trans (hx.symm.trans hoid))
    rw [Function.update_comm hnn₁, Function.update_comm hids]
  · obtain ⟨-, -, -, -, hun⟩ := allocRun_some halloc
    have hn₁o := unmarked_not_owned h hou (hun n₁ (Nat.le_refl _) (by omega))
    have hnn₁ : n ≠ n₁ := fun hx => hn₁o (hx ▸ hon)
    have hold := fun l => dataOf_growBy (c := c) (c.inode newParent) hof (by omega) hn₁o e l
    refine ⟨?_, hold⟩
    rw [hslot]
    dsimp only
    rw [if_neg (by omega), show allocRun (putIn c (c.inode oldParent) Dirent.zero b s n) 1 =
      allocRun c 1 from rfl, halloc, Option.map_some]
    congr 2
    rw [putIn_fields, putIn_fields (growBy _ _ _ _), hold b]
    simp only [growBy, Content.setData, Content.setInode, Content.takeRun,
      Content.markRun, Content.withFree]
    have hids : (Inode.ticked (c.inode oldParent)).inodeId.toNat ≠
        (Inode.grown (c.inode newParent) n₁).inodeId.toNat := by
      rw [inodeId_grown]
      exact fun hx => hne (hnid.symm.trans (hx.symm.trans hoid))
    rw [Function.update_comm hnn₁, Function.update_comm hids]

theorem renamed_fresh (h : Consistent c)
    (hat : EntryAt c oldPath oldParent inodeId.toNat oldLeaf names e₀ b s n) {c₀ : Content}
    (hcl : Cleared c c₀ oldParent b s) (hu : Used c newParent) (hleaf : NameOk newLeaf)
    (hnew : dirFind c (c.inode newParent) newLeaf = none) :
    Fresh c₀ newParent (makeDirent newLeaf inodeId (c.inode inodeId.toNat).type) := by
  have hok := h.entries _ _ _ _ hat.live
  refine ⟨⟨⟨newLeaf, hleaf, rfl⟩, ?_, ?_, ?_⟩, fun d b' s' e' hl heq => ?_,
    fun b' s' e' hl heq => ?_⟩
  · rw [inodeId_makeDirent]
    exact (hcl.used _).mpr hat.used
  · rw [inodeId_makeDirent, ← hat.target]
    exact hok.notRoot
  · rw [inodeId_makeDirent, hcl.type]
    rfl
  · obtain ⟨hl, hnot⟩ := (hcl.live _ _ _ _).mp hl
    rw [inodeId_makeDirent] at heq
    exact hnot (h.unique _ _ _ _ _ _ _ _ hl hat.live
      (heq.trans (UInt32.toNat_inj.mp hat.target).symm))
  · rw [nameOf_makeDirent hleaf.length_lt] at heq
    exact (dirFind_eq_none h hu hleaf.noNul).mp hnew b' s' e' ((hcl.live _ _ _ _).mp hl).1 heq

/-- The entry in slot `s` of block `b` of `oldParent` is gone, `newParent` has the entry `e`, and
nothing else has changed. -/
structure Moved (c c' : Content) (oldParent b s newParent : ℕ) (e : Dirent) : Prop where
  consistent : Consistent c'
  keeps : Keeps (fun k => k = oldParent ∨ k = newParent) c c'
  used : ∀ k, Used c' k ↔ Used c k
  type : ∀ k, Used c k → (c'.inode k).type = (c.inode k).type
  live : ∃ b₁ s₁, ∀ d b' s' e', Live c' d b' s' e' ↔
    (Live c d b' s' e' ∧ ¬ (d = oldParent ∧ b' = b ∧ s' = s)) ∨
      (d = newParent ∧ b' = b₁ ∧ s' = s₁ ∧ e' = e)

theorem Cleared.moved {c₀ : Content} (hcl : Cleared c c₀ oldParent b s)
    (hu : Used c newParent) (hadd : AddedEntry c₀ c' newParent e) :
    Moved c c' oldParent b s newParent e := by
  have hused : ∀ k, Used c' k ↔ Used c k := by
    intro k
    by_cases hk : k = newParent
    · subst hk
      exact ⟨fun _ => hu, fun _ => hadd.used⟩
    · exact (hadd.keeps.used k hk).trans (hcl.used k)
  refine ⟨hadd.consistent, (hcl.keeps.weaken fun _ => Or.inl).trans
    (hadd.keeps.weaken fun _ => Or.inr), hused, fun k hk => ?_, ?_⟩
  · by_cases hnew : k = newParent
    · rw [hnew, hadd.type, hcl.type]
    · rw [hadd.keeps.inode k hnew ((hcl.used k).mpr hk), hcl.type]
  · obtain ⟨b₁, s₁, hlive⟩ := hadd.live
    refine ⟨b₁, s₁, fun d b' s' e' => ?_⟩
    by_cases hd : d = newParent
    · subst hd
      rw [hlive, hcl.live]
      simp only [true_and]
    · rw [live_of_keeps hadd.keeps hd, hcl.live]
      simp only [hd, false_and, or_false]

theorem Moved.touch {i : Inode} (h : Moved c c' oldParent b s newParent e)
    (hid : i.inodeId.toNat = newParent) (hu : Used c newParent)
    (hi : Alike i (c'.inode newParent)) :
    Moved c (c'.setInode i) oldParent b s newParent e := by
  have hu' := (h.used newParent).mpr hu
  refine ⟨h.consistent.touch hu' hi, ?_, fun k => used_setInode.trans (h.used k),
    fun k hk => ?_, ?_⟩
  · refine h.keeps.trans ((keeps_setInode c' i).weaken fun k hk => ?_)
    exact Or.inr (hk.trans hid)
  · by_cases hk' : k = newParent
    · rw [← h.type k hk]
      change (Function.update c'.inode i.inodeId.toNat (Inode.sealed i) k).type = _
      rw [hid, hk', Function.update_self]
      exact hi.type
    · rw [(keeps_setInode c' i).inode k (fun hx => hk' (hx.trans hid)) ((h.used k).mpr hk)]
      exact h.type k hk
  · obtain ⟨b₁, s₁, hlive⟩ := h.live
    exact ⟨b₁, s₁, fun d b' s' e' => (live_touch hid hi).trans (hlive d b' s' e')⟩

theorem moved_entry (h : Consistent c)
    (hat : EntryAt c oldPath oldParent inodeId.toNat oldLeaf names e₀ b s n)
    (hu : Used c newParent) (hne : newParent ≠ oldParent) (hleaf : NameOk newLeaf)
    (hnew : dirFind c (c.inode newParent) newLeaf = none)
    (he : e = makeDirent newLeaf inodeId (c.inode inodeId.toNat).type)
    (hd : (c.inode newParent).type = typeDirectory)
    (hadd : added c (c.inode newParent) e = some (k, c')) :
    Moved c (putIn c' (c.inode oldParent) Dirent.zero b s n) oldParent b s newParent e := by
  obtain ⟨hadd', -⟩ := added_cleared h hat hu hne hadd
  have hcl := cleared_ok h hat.live hat.stored
  have hrec := hcl.keeps.inode newParent hne hu
  have hu₀ := (hcl.used newParent).mpr hu
  rw [← hrec] at hadd'
  have hid0 : e.inodeId ≠ 0 := by
    rw [he, inodeId_makeDirent]
    rintro rfl
    exact absurd hat.used.pos (by decide)
  exact Cleared.moved hcl hu (added_entry hcl.consistent hu₀ (hrec.symm ▸ hd)
    (he ▸ renamed_fresh h hat hcl hu hleaf hnew) hid0 hadd').1

theorem moved_into_file (h : Consistent c)
    (hat : EntryAt c oldPath oldParent id oldLeaf names e₀ b s n)
    (hu : Used c newParent) (hne : newParent ≠ oldParent)
    (hd : (c.inode newParent).type ≠ typeDirectory)
    (hadd : added c (c.inode newParent) e = some (k, c')) :
    Consistent (putIn c' (c.inode oldParent) Dirent.zero b s n) := by
  obtain ⟨hadd', -⟩ := added_cleared h hat hu hne hadd
  have hcl := cleared_ok h hat.live hat.stored
  have hrec := hcl.keeps.inode newParent hne hu
  rw [← hrec] at hadd'
  exact (added_regular hcl.consistent ((hcl.used newParent).mpr hu) (hrec.symm ▸ hd) hadd').1

theorem setDirent_comm (x : XBlock) {s t : ℕ} (hst : s ≠ t) (e e' : Dirent) :
    setDirent (setDirent x s e) t e' = setDirent (setDirent x t e') s e := by
  refine Block.write_comm _ _ _ _ _ ?_
  rw [Codec.length_encode, Codec.length_encode, size_direntCodec]
  omega

variable {n₁ s₁ : ℕ}

theorem setDirent_swap (data : ℕ → XBlock) {n s : ℕ} (hne : n₁ = n → s₁ ≠ s)
    (e e₁ : Dirent) :
    Function.update (Function.update data n₁ (setDirent (data n₁) s₁ e₁)) n
        (setDirent (Function.update data n₁ (setDirent (data n₁) s₁ e₁) n) s e) =
      Function.update (Function.update data n (setDirent (data n) s e)) n₁
        (setDirent (Function.update data n (setDirent (data n) s e) n₁) s₁ e₁) := by
  by_cases hn : n₁ = n
  · subst hn
    rw [Function.update_self, Function.update_self, Function.update_idem, Function.update_idem,
      setDirent_comm _ (hne rfl)]
  · rw [Function.update_of_ne (Ne.symm hn), Function.update_of_ne hn, Function.update_comm hn]

variable {b₁ : ℕ}

/-- Both names in one directory, the new one in a free slot. -/
theorem renamed_in_place (h : Consistent c)
    (hat : EntryAt c oldPath oldParent inodeId.toNat oldLeaf names e₀ b s n)
    (hleaf : NameOk newLeaf) (hnew : dirFind c (c.inode oldParent) newLeaf = none)
    (he : e = makeDirent newLeaf inodeId (c.inode inodeId.toNat).type)
    (hslot : freeSlot c (c.inode oldParent) = some (b₁, s₁))
    (hl : Inode.lookup (c.inode oldParent) b₁ = some n₁) :
    Moved c (putIn (putIn c (c.inode oldParent) e b₁ s₁ n₁) (c.inode oldParent) Dirent.zero b s n)
      oldParent b s oldParent e := by
  have hsmall := h.small
  have hu := hat.live.used
  have hself := (Used.inodeId h.toAllocated hu).2
  have hcl := cleared_ok h hat.live hat.stored
  have hid0 : e.inodeId ≠ 0 := by
    rw [he, inodeId_makeDirent]
    rintro rfl
    exact absurd hat.used.pos (by decide)
  obtain ⟨hb₁, hs₁, hfree⟩ := freeSlot_some h hu hat.live.isDir hslot
  have hdata : c.dataOf (c.inode oldParent) b = c.data n := by simp [Content.dataOf, hat.stored]
  have hdata₁ : c.dataOf (c.inode oldParent) b₁ = c.data n₁ := by simp [Content.dataOf, hl]
  set c₀ := putIn c (c.inode oldParent) Dirent.zero b s n with hc₀
  have hrec : c₀.inode oldParent = Inode.sealed (Inode.ticked (c.inode oldParent)) := by
    change Function.update c.inode (c.inode oldParent).inodeId.toNat _ oldParent = _
    rw [hself, Function.update_self]
  have hl₀ : Inode.lookup (c₀.inode oldParent) b₁ = some n₁ := by
    rw [hrec]
    exact hl
  have hat₁ : c₀.dataOf (c₀.inode oldParent) b₁ = c₀.data n₁ := by simp [Content.dataOf, hl₀]
  have hslots : (b₁, s₁) ≠ (b, s) := by
    intro hx
    obtain ⟨rfl, rfl⟩ := Prod.mk.inj hx
    rw [hat.live.entry] at hfree
    exact hat.live.id hfree
  have hnew₀ : c₀.data n₁ = if n₁ = n then setDirent (c.data n) s Dirent.zero else c.data n₁ := by
    change Function.update c.data n (setDirent (c.dataOf (c.inode oldParent) b) s Dirent.zero) n₁ = _
    rw [hdata, Function.update_apply]
  have hfree₀ : (dirent (c₀.dataOf (c₀.inode oldParent) b₁) s₁).inodeId = 0 := by
    rw [hat₁, hnew₀]
    split
    · next hx =>
      rw [dirent_setDirent _ hat.live.slot]
      split
      · rfl
      · rw [hdata₁, hx] at hfree
        exact hfree
    · rw [hdata₁] at hfree
      exact hfree
  have hadd := putIn_added hcl.consistent ((hcl.used _).mpr hu) ((hcl.type _).trans hat.live.isDir)
    (by rw [hrec]; exact hb₁) hs₁ hl₀ hfree₀ (he ▸ renamed_fresh h hat hcl hu hleaf hnew) hid0
  have hrec₁ : (putIn c₀ (c₀.inode oldParent) e b₁ s₁ n₁).inode oldParent =
      Inode.sealed (Inode.ticked (c₀.inode oldParent)) := by
    change Function.update c₀.inode (c₀.inode oldParent).inodeId.toNat _ oldParent = _
    rw [show (c₀.inode oldParent).inodeId.toNat = oldParent by rw [hrec]; exact hself,
      Function.update_self]
  have halike : Alike (Inode.ticked (c.inode oldParent))
      ((putIn c₀ (c₀.inode oldParent) e b₁ s₁ n₁).inode oldParent) := by
    rw [hrec₁, hrec]
    exact ⟨rfl, rfl, rfl, rfl, rfl, rfl⟩
  -- the two contents differ in the order of the writes and in the modification tick
  have heq : putIn (putIn c (c.inode oldParent) e b₁ s₁ n₁) (c.inode oldParent) Dirent.zero b s n =
      (putIn c₀ (c₀.inode oldParent) e b₁ s₁ n₁).setInode (Inode.ticked (c.inode oldParent)) := by
    have hne : n₁ = n → s₁ ≠ s := by
      rintro rfl rfl
      have hshape := h.shape _ hu
      have hb := lookup_dir_injective hshape (hshape.dir hat.live.isDir) (h.fits _ hu.pos hu.le)
        (by omega) hb₁ hat.live.block hl hat.stored
      exact hslots (by rw [hb])
    have hdata' : (putIn c (c.inode oldParent) e b₁ s₁ n₁).dataOf (c.inode oldParent) b =
        Function.update c.data n₁ (setDirent (c.data n₁) s₁ e) n := by
      rw [← hdata₁]
      simp [Content.dataOf, hat.stored, putIn_fields, Content.setData, Content.setInode]
    have hid₀ : (Inode.ticked (c₀.inode oldParent)).inodeId =
        (Inode.ticked (c.inode oldParent)).inodeId := by
      rw [hrec]
      rfl
    rw [putIn_fields, hdata', putIn_fields c₀, hat₁, setInode_setInode hid₀]
    have hdata₀ : c₀.data = Function.update c.data n (setDirent (c.data n) s Dirent.zero) := by
      rw [← hdata]
      rfl
    have hinode₀ : c₀.inode = Function.update c.inode (Inode.ticked (c.inode oldParent)).inodeId.toNat
        (Inode.sealed (Inode.ticked (c.inode oldParent))) := rfl
    simp only [Content.setInode, Content.setData, putIn_fields, hdata₁, hdata₀, hinode₀,
      setDirent_swap c.data hne, Function.update_idem]
    rfl
  rw [heq]
  exact Moved.touch (Cleared.moved hcl hu hadd) hself hu halike

theorem putIn_setInode (c : Content) {i dir : Inode} (hi : i.inodeId = dir.inodeId) (e : Dirent)
    (b s n : ℕ) : putIn (c.setInode i) dir e b s n = putIn c dir e b s n := by
  have hdata : (c.setInode i).dataOf dir b = c.dataOf dir b := rfl
  have hcomm : ∀ x, (c.setInode i).setData n x = (c.setData n x).setInode i := fun _ => rfl
  rw [putIn_fields, putIn_fields, hdata, hcomm]
  exact setInode_setInode (j := Inode.ticked dir) hi _

theorem renamed_lost (h : Consistent c)
    (hat : EntryAt c oldPath oldParent inodeId.toNat oldLeaf names e₀ b s n)
    (halloc : allocRun c 1 = some n₁) :
    (∃ c₂, Cleared c₂ (putIn (growBy c (c.inode oldParent) e n₁) (c.inode oldParent) Dirent.zero b s n)
        oldParent b s ∧ ∀ d b' s' e', Live c₂ d b' s' e' ↔ Live c d b' s' e') ∧
      ∀ l, (growBy c (c.inode oldParent) e n₁).dataOf (c.inode oldParent) l =
        c.dataOf (c.inode oldParent) l := by
  have hsmall := h.small
  have hu := hat.live.used
  obtain ⟨-, -, h82, hend, hun⟩ := allocRun_some halloc
  have hown : ∀ id, Used c id → n₁ ∉ Inode.blocks (c.inode id) :=
    fun id hid => unmarked_not_owned h hid (hun n₁ (Nat.le_refl _) (by omega))
  have hold := fun l => dataOf_growBy (c := c) (c.inode oldParent) (h.fits _ hu.pos hu.le) (by omega)
    (hown _ hu) e l
  refine ⟨?_, hold⟩
  set c₂ := (c.takeRun n₁ 1).setData n₁ (setDirent Block.zero 0 e) with hc₂
  have hcons : Consistent c₂ := (h.takeRun h82 hend hun).setData
    (fun dir hdir _ => hown dir ⟨hdir.1, hdir.2, hdir.3⟩) _
  have hkeeps : Keeps (fun _ => False) c c₂ := (keeps_takeRun _ c n₁ 1).trans
    (keeps_setData (h.takeRun h82 hend hun).toAllocated
      (fun id _ hid => hown id ⟨hid.1, hid.2, hid.3⟩) _)
  have hlive : Live c₂ oldParent b s e₀ := (live_of_keeps hkeeps (fun hx => hx)).mpr hat.live
  rw [growBy, ← hc₂, putIn_setInode c₂ (inodeId_grown _ _)]
  exact ⟨c₂, cleared_ok (c := c₂) hcons hlive hat.stored,
    fun _ _ _ _ => live_of_keeps hkeeps fun hx => hx⟩

theorem dataOf_putIn_self {dir l : ℕ} (h : Consistent c) (hu : Used c dir)
    (hd : (c.inode dir).type = typeDirectory) (hb₁ : b₁ < (c.inode dir).extentCount.toNat)
    (hl₁ : Inode.lookup (c.inode dir) b₁ = some n₁) (hl : l < (c.inode dir).extentCount.toNat)
    (e : Dirent) (s₁ : ℕ) : (putIn c (c.inode dir) e b₁ s₁ n₁).dataOf (c.inode dir) l =
      if l = b₁ then setDirent (c.dataOf (c.inode dir) b₁) s₁ e else c.dataOf (c.inode dir) l := by
  have hsmall := h.small
  have hshape := h.shape _ hu
  have hdir := hshape.dir hd
  obtain ⟨ex, hex⟩ := exists_extent hshape hl
  have hl' := lookup_dir hshape hdir (h.fits _ hu.pos hu.le) (by omega) hex
  simp only [Content.dataOf, hl', putIn_fields, Content.setData, Content.setInode]
  by_cases hx : l = b₁
  · subst hx
    rw [hl₁] at hl'
    rw [if_pos rfl, ← Option.some.inj hl', Function.update_self, hl₁]
  · rw [if_neg hx, Function.update_of_ne]
    intro hn
    rw [hn] at hl'
    exact hx (lookup_dir_injective hshape hdir (h.fits _ hu.pos hu.le) (by omega) hl hb₁ hl' hl₁)

theorem old_entry_found {e' : Dirent} {b' s' : ℕ} (h : Consistent c)
    (hat : EntryAt c oldPath oldParent inodeId.toNat oldLeaf names e₀ b s n)
    (hleaf : NameOk newLeaf) (hnew : dirFind c (c.inode oldParent) newLeaf = none)
    (he : e = makeDirent newLeaf inodeId (c.inode inodeId.toNat).type)
    (hslot : freeSlot c (c.inode oldParent) = some (b₁, s₁))
    (hl : Inode.lookup (c.inode oldParent) b₁ = some n₁)
    (hfind : dirFind (putIn c (c.inode oldParent) e b₁ s₁ n₁) (c.inode oldParent) oldLeaf =
      some (e', b', s')) : b' = b ∧ s' = s := by
  have hsmall := h.small
  have hu := hat.live.used
  have hshape := h.shape _ hu
  have hdir := hshape.dir hat.live.isDir
  obtain ⟨hb₁, hs₁, -⟩ := freeSlot_some h hu hat.live.isDir hslot
  rw [dirFind, if_pos hat.live.isDir, sizeBlocks_dir hshape hdir] at hfind
  obtain ⟨hb', hs', hentry, hmatch⟩ := findFrom_some _ _ hfind
  have hdata' := dataOf_putIn_self h hu hat.live.isDir hb₁ hl (show b' < _ by omega) e s₁
  have hnewslot : ¬ (b' = b₁ ∧ s' = s₁) := by
    rintro ⟨rfl, rfl⟩
    rw [hdata', if_pos rfl, dirent_setDirent _ hs₁, if_pos rfl] at hentry
    have hid0 : inodeId ≠ 0 := by
      rintro rfl
      exact absurd hat.used.pos (by decide)
    rw [← hentry, he, dirent_matches hleaf hat.leafOk.noNul hid0] at hmatch
    rw [hmatch, hat.found] at hnew
    cases hnew
  have hold : dirent (c.dataOf (c.inode oldParent) b') s' = e' := by
    rw [hdata'] at hentry
    by_cases hx : b' = b₁
    · rw [if_pos hx, dirent_setDirent _ hs₁, if_neg fun hs => hnewslot ⟨hx, hs.symm⟩] at hentry
      rw [hx]
      exact hentry
    · rwa [if_neg hx] at hentry
  have hid' : e'.inodeId ≠ 0 := by
    simp only [direntMatches, Bool.and_eq_true, bne_iff_ne] at hmatch
    exact hmatch.1.1.1
  have hlive' : Live c oldParent b' s' e' := ⟨hu, hat.live.isDir, by omega, hs', hold, hid'⟩
  refine h.names _ _ _ _ _ _ _ hlive' hat.live ?_
  obtain ⟨name, hname, hmade⟩ := (h.entries _ _ _ _ hlive').made
  rw [hmade, dirent_matches hname hat.leafOk.noNul hid'] at hmatch
  rw [hmade, nameOf_makeDirent hname.length_lt, hmatch, hat.name]

theorem old_entry_kept (h : Consistent c)
    (hat : EntryAt c oldPath oldParent id oldLeaf names e₀ b s n)
    (hslot : freeSlot c (c.inode oldParent) = some (b₁, s₁))
    (hl : Inode.lookup (c.inode oldParent) b₁ = some n₁) :
    dirFind (putIn c (c.inode oldParent) e b₁ s₁ n₁) (c.inode oldParent) oldLeaf ≠ none := by
  intro hnone
  have hu := hat.live.used
  have hshape := h.shape _ hu
  obtain ⟨hb₁, hs₁, hfree⟩ := freeSlot_some h hu hat.live.isDir hslot
  have hfound := hat.found
  rw [dirFind, if_pos hat.live.isDir, sizeBlocks_dir hshape (hshape.dir hat.live.isDir)] at hnone hfound
  obtain ⟨hb, hs, hentry, hmatch⟩ := findFrom_some _ _ hfound
  have hmiss := findFrom_none _ _ hnone b (Nat.zero_le b) hb s hs
  have hlive : (dirent (c.dataOf (c.inode oldParent) b) s).inodeId ≠ 0 := by
    rw [hentry]
    exact hat.live.id
  have hkept : dirent ((putIn c (c.inode oldParent) e b₁ s₁ n₁).dataOf (c.inode oldParent) b) s =
      e₀ := by
    rw [dataOf_putIn_self h hu hat.live.isDir hb₁ hl (by omega)]
    split
    case isTrue hx =>
      subst hx
      rw [dirent_setDirent _ hs₁, if_neg, hentry]
      rintro rfl
      exact hlive hfree
    case isFalse => exact hentry
  rw [hkept, hmatch] at hmiss
  cases hmiss

/-- What a rename that succeeds can have done with the new entry `e`. -/
inductive RenamedAs (c c' : Content) (oldParent b s newParent : ℕ) (e : Dirent) : Prop
  | moved (hd : (c.inode newParent).type = typeDirectory)
      (hroom : newParent = oldParent → freeSlot c (c.inode newParent) ≠ none)
      (h : Moved c c' oldParent b s newParent e)
  | intoFile (hd : (c.inode newParent).type ≠ typeDirectory) (h : Consistent c')
  | lost (hsame : newParent = oldParent) (hfull : freeSlot c (c.inode newParent) = none)
      (h : Consistent c') (live : ∀ d b' s' e', Live c' d b' s' e' → Live c d b' s' e')

theorem RenamedAs.consistent (h : RenamedAs c c' oldParent b s newParent e) :
    Consistent c' := by
  cases h with
  | moved _ _ h => exact h.consistent
  | intoFile _ h => exact h
  | lost _ _ h _ => exact h

variable {newPath : List UInt8}

section Cases

variable (h : Consistent c) (h0 : (0 : UInt8) ∉ oldPath) (h0' : (0 : UInt8) ∉ newPath)

include h h0 h0'

theorem rename_cases (he : renameEffect c oldPath newPath = .done k c') :
    ∃ (oldParent : ℕ) (inodeId newParent : UInt32) (oldLeaf newLeaf newParentPath : List UInt8)
      (names : List (List UInt8)) (e₀ : Dirent) (b s n : ℕ),
      EntryAt c oldPath oldParent inodeId.toNat oldLeaf names e₀ b s n ∧
      xfsSplitParent newPath = some (newParentPath, newLeaf) ∧
      resolve c newParentPath = some (newParent, c.inode newParent.toNat) ∧
      dirFind c (c.inode newParent.toNat) newLeaf = none ∧
      RenamedAs c c' oldParent b s newParent.toNat
        (makeDirent newLeaf inodeId (c.inode inodeId.toNat).type) := by
  unfold renameEffect at he
  split at he
  next oldParentId oldP leaf inodeId inode newParentPath newLeaf hent hsplit =>
    obtain ⟨rfl, rfl, names, e₀, b, s, n, hat⟩ := entryAt_some h h0 hent
    obtain ⟨-, -, hleaf, -, hn0⟩ := split_parent_some h0' hsplit
    split at he
    · cases he
    next newParentId newP hres =>
      obtain ⟨hu, rfl, -, -⟩ := resolve_used h hn0 hres
      split at he
      · cases he
      next hnew =>
        rw [not_not] at hnew
        dsimp only at he
        split at he
        · cases he
        next k c₁ hadd =>
          split at he
          · cases he
          next e' b' s' hfind =>
            split at he
            · cases he
            next n' hlook =>
              cases he
              refine ⟨_, _, _, _, _, _, _, _, _, _, _, hat, hsplit, hres, hnew, ?_⟩
              have hsame : (∀ l, c₁.dataOf (c.inode oldParentId.toNat) l =
                  c.dataOf (c.inode oldParentId.toNat) l) → b' = b ∧ s' = s := by
                intro hdata
                rw [dirFind_congr hdata, hat.found] at hfind
                simp only [Option.some.injEq, Prod.mk.injEq] at hfind
                exact ⟨hfind.2.1.symm, hfind.2.2.symm⟩
              have hstored : b' = b → n' = n := by
                rintro rfl
                exact Option.some.inj (hlook.symm.trans hat.stored)
              by_cases hne : newParentId.toNat = oldParentId.toNat
              · rw [hne] at hadd hnew ⊢
                obtain ⟨b₁, s₁, n₁, hslot, hl, rfl, rfl⟩ | ⟨n₁, hslot, -, halloc, rfl, rfl⟩ :=
                  added_cases hadd
                · obtain ⟨hb, rfl⟩ := old_entry_found h hat hleaf hnew rfl hslot hl hfind
                  obtain rfl := hstored hb
                  subst hb
                  exact .moved hat.live.isDir (fun _ => by rw [hslot]; exact Option.some_ne_none _)
                    (renamed_in_place h hat hleaf hnew rfl hslot hl)
                · obtain ⟨⟨c₂, hcl, hlive⟩, hdata⟩ := renamed_lost h hat halloc
                  obtain ⟨hb, rfl⟩ := hsame hdata
                  obtain rfl := hstored hb
                  subst hb
                  exact .lost rfl hslot hcl.consistent
                    fun d b' s' e' hl => (hlive d b' s' e').mp ((hcl.live d b' s' e').mp hl).1
              · obtain ⟨hb, rfl⟩ := hsame (added_cleared h hat hu hne hadd).2
                obtain rfl := hstored hb
                subst hb
                by_cases hd : (c.inode newParentId.toNat).type = typeDirectory
                · exact .moved hd (fun hx => absurd hx hne)
                    (moved_entry h hat hu hne hleaf hnew rfl hd hadd)
                · exact .intoFile hd (moved_into_file h hat hu hne hd hadd)
  next => cases he

theorem rename_done (he : renameEffect c oldPath newPath = .done k c') : Consistent c' := by
  obtain ⟨_, _, _, _, _, _, _, _, _, _, _, -, -, -, -, hren⟩ := rename_cases h h0 h0' he
  exact hren.consistent

theorem rename_unbroken : renameEffect c oldPath newPath ≠ .broken := by
  intro he
  unfold renameEffect at he
  split at he
  next oldParentId oldP leaf inodeId inode newParentPath newLeaf hent hsplit =>
    obtain ⟨rfl, rfl, names, e₀, b, s, n, hat⟩ := entryAt_some h h0 hent
    obtain ⟨-, -, -, -, hn0⟩ := split_parent_some h0' hsplit
    split at he
    · cases he
    next newParentId newP hres =>
      obtain ⟨hu, rfl, -, -⟩ := resolve_used h hn0 hres
      split at he
      · cases he
      next hnew =>
        dsimp only at he
        split at he
        · cases he
        next k c₁ hadd =>
          have hkept : (∀ l, c₁.dataOf (c.inode oldParentId.toNat) l =
              c.dataOf (c.inode oldParentId.toNat) l) →
              dirFind c₁ (c.inode oldParentId.toNat) leaf ≠ none := by
            intro hdata
            rw [dirFind_congr hdata, hat.found]
            exact Option.some_ne_none _
          have hfind : dirFind c₁ (c.inode oldParentId.toNat) leaf ≠ none := by
            by_cases hne : newParentId.toNat = oldParentId.toNat
            · rw [hne] at hadd
              obtain ⟨b₁, s₁, n₁, hslot, hl, rfl, rfl⟩ | ⟨n₁, -, -, halloc, rfl, rfl⟩ :=
                added_cases hadd
              · exact old_entry_kept h hat hslot hl
              · exact hkept (renamed_lost h hat halloc).2
            · exact hkept (added_cleared h hat hu hne hadd).2
          split at he
          next hnone => exact hfind hnone
          next e' b' s' hsome =>
            split at he
            next hlook =>
              -- an entry that is found is in a block of the directory
              have hsmall := h.small
              have hshape := h.shape _ hat.live.used
              rw [dirFind, if_pos hat.live.isDir,
                sizeBlocks_dir hshape (hshape.dir hat.live.isDir)] at hsome
              obtain ⟨hb', -⟩ := findFrom_some _ _ hsome
              obtain ⟨ex, hex⟩ := exists_extent hshape (by omega : b' < _)
              rw [lookup_dir hshape (hshape.dir hat.live.isDir)
                (h.fits _ hat.live.used.pos hat.live.used.le) (by omega) hex] at hlook
              cases hlook
            next => cases he
  next => cases he

end Cases

end Rename

theorem done_consistent {op : Operation} {generation : UInt64} {k : ℕ} (h : Consistent c)
    (he : op.effect c generation = .done k c') : Consistent c' := by
  cases op with
  | mkdir path mode uid gid =>
    rw [Operation.effect] at he
    obtain ⟨-, _, _, _, _, hat⟩ := create_done h path.noNul (Or.inr rfl) he
    exact hat.consistent
  | create path mode uid gid =>
    rw [Operation.effect] at he
    obtain ⟨-, _, _, _, _, hat⟩ := create_done h path.noNul (Or.inl rfl) he
    exact hat.consistent
  | writeFile path data uid gid =>
    rcases write_done h path.noNul he with ⟨_, _, -, -, -, hw⟩ | ⟨-, _, _, _, _, _, _, -, hw⟩
    · exact hw.consistent
    · exact hw.consistent
  | truncate path newSize =>
    obtain ⟨_, _, _, -, -, -, hw⟩ := truncate_done h path.noNul he
    exact hw.consistent
  | remove path =>
    obtain ⟨_, _, _, _, _, _, _, _, -, -, hun⟩ := remove_done h path.noNul he
    exact hun.consistent
  | rmdir path =>
    obtain ⟨_, _, _, _, _, _, _, _, -, -, hun⟩ := rmdir_done h path.noNul he
    exact hun.consistent
  | rename oldPath newPath => exact rename_done h oldPath.noNul newPath.noNul he
  | chmod path mode =>
    rw [Operation.effect] at he
    exact change_done (f := chmodded mode) h path.noNul (fun _ _ => ⟨rfl, rfl, rfl, rfl, rfl, rfl⟩) he
  | chown path uid gid =>
    rw [Operation.effect] at he
    exact change_done (f := chowned uid gid) h path.noNul (fun _ _ => ⟨rfl, rfl, rfl, rfl, rfl, rfl⟩) he

end XfsRenameEffect
