import K64.XfsFailures
import K64.XfsRenaming

/-! # Transactions and the calls that begin them

Between two calls no transaction should be open. `k64_xfs_mkdir`, `k64_xfs_create` and
`k64_xfs_write_file` return without closing theirs when a check behind `k64_xfs_journal_begin` fails.
In a run in which none of them does, every transaction ends with its call, and a call that fails has
no influence on the answers of later ones: all it can leave behind is data in a block that is not
marked. -/
namespace XfsTransactions

open ByteCodec IoProgram XfsFormat XfsCache XfsCacheRefinement XfsJournal XfsInode XfsCalls
  XfsDirectory XfsOperations XfsVolume XfsVolumeRefinement XfsConsistency XfsLookup XfsPaths
  XfsDirectoryUpdate XfsContentChanges XfsFileChanges XfsOperationEffects XfsUnlinkEffects
  XfsEffectsConsistent XfsListing XfsVolumeLifecycle XfsMounting XfsFormatting XfsChecking XfsSystem
  XfsRuns XfsFileMap XfsSmallVolume XfsRenaming XfsFailures

/-- The same content but for the data of unmarked blocks and of the blocks in `S`. -/
def UpTo (S : ℕ → Prop) (c c' : Content) : Prop :=
  ∃ d, c' = { c with data := d } ∧ ∀ b, c.blockUsed b = true → ¬ S b → d b = c.data b

def Twin (c c' : Content) : Prop := UpTo (fun _ => False) c c'

variable {S T : ℕ → Prop} {c c' : Content}

theorem Twin.refl (c : Content) : Twin c c := ⟨c.data, rfl, fun _ _ _ => rfl⟩

theorem UpTo.setInode (h : UpTo S c c') (i : Inode) : UpTo S (c.setInode i) (c'.setInode i) := by
  obtain ⟨d, rfl, hd⟩ := h
  exact ⟨d, rfl, hd⟩

theorem UpTo.setInodeUsed (h : UpTo S c c') (id : ℕ) (used : Bool) :
    UpTo S (c.setInodeUsed id used) (c'.setInodeUsed id used) := by
  obtain ⟨d, rfl, hd⟩ := h
  exact ⟨d, rfl, hd⟩

theorem UpTo.setData (h : UpTo S c c') (n : ℕ) (x : XBlock) (hT : ∀ b, b ≠ n → S b → T b) :
    UpTo T (c.setData n x) (c'.setData n x) := by
  obtain ⟨d, rfl, hd⟩ := h
  refine ⟨Function.update d n x, rfl, fun b hb hs => ?_⟩
  by_cases hbn : b = n
  · rw [hbn]
    exact (Function.update_self n x d).trans (Function.update_self n x c.data).symm
  · change Function.update d n x b = Function.update c.data n x b
    rw [Function.update_of_ne hbn, Function.update_of_ne hbn]
    exact hd b hb fun h => hs (hT b hbn h)

theorem UpTo.dropRun (h : UpTo S c c') (start blocks : ℕ) :
    UpTo S (c.dropRun start blocks) (c'.dropRun start blocks) := by
  obtain ⟨d, rfl, hd⟩ := h
  refine ⟨d, rfl, fun b hb hs => hd b ?_ hs⟩
  change (if start ≤ b ∧ b < start + blocks then false else c.blockUsed b) = true at hb
  split at hb
  · cases hb
  · exact hb

theorem UpTo.takeRun (h : UpTo S c c') (start blocks : ℕ) :
    UpTo (fun b => S b ∨ start ≤ b ∧ b < start + blocks) (c.takeRun start blocks)
      (c'.takeRun start blocks) := by
  obtain ⟨d, rfl, hd⟩ := h
  refine ⟨d, rfl, fun b hb hs => hd b ?_ fun h => hs (Or.inl h)⟩
  change (if start ≤ b ∧ b < start + blocks then true else c.blockUsed b) = true at hb
  rwa [if_neg fun h => hs (Or.inr h)] at hb

theorem UpTo.dropExtents (exts : List Extent) : ∀ {c c' : Content}, UpTo S c c' →
    UpTo S (dropExtents c exts) (dropExtents c' exts) := by
  induction exts with
  | nil => exact fun h => h
  | cons ex rest ih => exact fun h => ih (h.dropRun _ _)

theorem UpTo.fillRun {start m : ℕ} (h : UpTo (fun b => False ∨ start ≤ b ∧ b < start + m) c c')
    (data : List UInt8) (n : ℕ) :
    UpTo (fun b => start + n ≤ b ∧ b < start + m) (fillRun start data c n)
      (fillRun start data c' n) := by
  induction n with
  | zero =>
    obtain ⟨d, rfl, hd⟩ := h
    exact ⟨d, rfl, fun b hb hs => hd b hb fun h => hs (h.resolve_left id)⟩
  | succ n ih =>
    refine ih.setData _ _ fun b hb hs => ?_
    omega

theorem UpTo.written (h : Twin c c') (inode final : Inode) (start blocks : ℕ) (data : List UInt8) :
    Twin (written c inode final start blocks data) (written c' inode final start blocks data) := by
  have hfill := UpTo.fillRun ((h.dropExtents (Inode.extents inode)).takeRun start blocks) data blocks
  obtain ⟨d, hd, hsame⟩ := hfill.setInode final
  exact ⟨d, hd, fun b hb _ => hsame b hb (by omega)⟩

theorem UpTo.allocRun (h : UpTo S c c') (n : ℕ) : allocRun c' n = allocRun c n := by
  obtain ⟨d, rfl, -⟩ := h
  rfl

theorem UpTo.freshFile (h : UpTo S c c') (i : Inode) : UpTo S (freshFile c i) (freshFile c' i) :=
  (h.setInodeUsed _ _).setInode i

theorem Twin.takeBlock (h : Twin c c') (n : ℕ) (x : XBlock) :
    Twin ((c.takeRun n 1).setData n x) ((c'.takeRun n 1).setData n x) :=
  (h.takeRun n 1).setData n x fun b hb hs => hs.elim (fun h => h) fun hs => hb (by omega)

variable {dir : Inode}

theorem Twin.putIn (h : Twin c c') {b : ℕ} (hdata : c'.dataOf dir b = c.dataOf dir b)
    (e : Dirent) (s n : ℕ) : Twin (putIn c dir e b s n) (putIn c' dir e b s n) := by
  unfold XfsDirectoryUpdate.putIn
  rw [hdata]
  exact (h.setData n _ fun _ _ hs => hs).setInode _

theorem Twin.dataOf_marked (h : Twin c c') {i : Inode} {total : ℕ} (hf : Inode.Fits total i)
    (ht : total ≤ 32768) (hmark : ∀ b ∈ Inode.blocks i, c.blockUsed b = true) (b : ℕ) :
    c'.dataOf i b = c.dataOf i b := by
  obtain ⟨d, rfl, hd⟩ := h
  unfold Content.dataOf
  cases hl : Inode.lookup i b with
  | none => rfl
  | some n => exact hd n (hmark n (lookup_mem_blocks hf (by omega) hl)) fun h => h

theorem Twin.dataOf (h : Twin c c') (hc : Consistent c) {id : ℕ} (hu : Used c id) (b : ℕ) :
    c'.dataOf (c.inode id) b = c.dataOf (c.inode id) b :=
  h.dataOf_marked (hc.fits id hu.pos hu.le) hc.small (hc.marked id hu) b

theorem Twin.used (h : Twin c c') (id : ℕ) : Used c' id ↔ Used c id := by
  obtain ⟨d, rfl, -⟩ := h
  exact ⟨fun hu => ⟨hu.pos, hu.le, hu.bit⟩, fun hu => ⟨hu.pos, hu.le, hu.bit⟩⟩

theorem Twin.inode (h : Twin c c') (id : ℕ) : c'.inode id = c.inode id := by
  obtain ⟨d, rfl, -⟩ := h
  rfl

theorem Twin.live (h : Twin c c') (hc : Consistent c) {dir b s : ℕ} {e : Dirent}
    (hl : Live c' dir b s e) : Live c dir b s e := by
  have hu := (h.used dir).mp hl.used
  have hi := h.inode dir
  refine ⟨hu, hi ▸ hl.isDir, hi ▸ hl.block, hl.slot, ?_, hl.id⟩
  rw [← hl.entry, hi, h.dataOf hc hu]

theorem Twin.consistent (h : Twin c c') (hc : Consistent c) : Consistent c' := by
  have hlive : ∀ dir b s e, Live c' dir b s e → Live c dir b s e := fun _ _ _ _ hl => h.live hc hl
  have hused := h.used
  obtain ⟨d, rfl, -⟩ := h
  refine ⟨⟨hc.large, hc.small, hc.free, hc.rootUsed, hc.rootDir, hc.fits, ?_, ?_, ?_, ?_⟩,
    hc.toLinked.fewer hlive fun _ _ _ _ _ hok =>
      ⟨hok.made, (hused _).mpr hok.used, hok.notRoot, hok.type⟩⟩
  · exact fun id hu => hc.valid id ((hused id).mp hu)
  · exact fun id hu => hc.shape id ((hused id).mp hu)
  · exact fun id hu => hc.marked id ((hused id).mp hu)
  · exact fun id id' hu hu' => hc.owner id id' ((hused id).mp hu) ((hused id').mp hu')

theorem Twin.dirFind (h : Twin c c') (hc : Consistent c) {id : ℕ} (hu : Used c id)
    (name : List UInt8) : dirFind c' (c.inode id) name = dirFind c (c.inode id) name :=
  dirFind_congr (h.dataOf hc hu)

theorem Twin.childOf (h : Twin c c') (hc : Consistent c) {id : ℕ} (hu : Used c id)
    (name : List UInt8) : childOf c' id name = childOf c id name := by
  rw [XfsLookup.childOf, XfsLookup.childOf, h.inode, h.dirFind hc hu]

theorem Twin.locate (h : Twin c c') (hc : Consistent c) {path : List (List UInt8)}
    (h0 : ∀ name ∈ path, (0 : UInt8) ∉ name) : locate c' path = locate c path := by
  refine Option.ext fun id => ⟨fun hl => ?_, fun hl => ?_⟩
  · refine locate_mono (h.consistent hc) (fun dir name id hu _ hk => ?_) path h0 1 id
      (h.consistent hc).rootInUse hl
    rwa [← h.childOf hc ((h.used dir).mp hu)]
  · refine locate_mono hc (fun dir name id hu _ hk => ?_) path h0 1 id hc.rootInUse hl
    rwa [h.childOf hc hu]

variable {path : List UInt8}

theorem Twin.resolve (h : Twin c c') (hc : Consistent c)
    (h0 : (0 : UInt8) ∉ path) : resolve c' path = resolve c path := by
  by_cases hhead : path.head? = some slash
  · rw [resolve_locate hc h0 hhead, resolve_locate (h.consistent hc) h0 hhead,
      h.locate hc fun _ => noNul_tokens h0]
    simp only [h.inode]
  · rw [XfsLookup.resolve, XfsLookup.resolve, if_neg hhead, if_neg hhead]

theorem resolve_bind {β : Type} (hc : Consistent c) (h0 : (0 : UInt8) ∉ path)
    {f g : UInt32 × Inode → Option β}
    (hfg : ∀ id, Used c id.toNat → f (id, c.inode id.toNat) = g (id, c.inode id.toNat)) :
    (XfsLookup.resolve c path).bind f = (XfsLookup.resolve c path).bind g := by
  cases hres : XfsLookup.resolve c path with
  | none => rfl
  | some target =>
    obtain ⟨id, inode⟩ := target
    obtain ⟨hu, rfl, -, -⟩ := resolve_used hc h0 hres
    exact hfg id hu

theorem split_bind {β : Type} (h0 : (0 : UInt8) ∉ path)
    {f g : List UInt8 × List UInt8 → Option β}
    (hfg : ∀ parentPath leaf, (0 : UInt8) ∉ parentPath → f (parentPath, leaf) = g (parentPath, leaf)) :
    (xfsSplitParent path).bind f = (xfsSplitParent path).bind g := by
  cases hsplit : xfsSplitParent path with
  | none => rfl
  | some split =>
    obtain ⟨parentPath, leaf⟩ := split
    obtain ⟨-, -, -, -, hp0⟩ := split_parent_some h0 hsplit
    exact hfg parentPath leaf hp0

theorem Twin.creatable (h : Twin c c') (hc : Consistent c)
    (h0 : (0 : UInt8) ∉ path) : creatable c' path = creatable c path := by
  unfold XfsOperationEffects.creatable
  refine split_bind h0 fun parentPath leaf hp0 => ?_
  dsimp only
  rw [h.resolve hc hp0]
  refine resolve_bind hc hp0 fun id hu => ?_
  dsimp only
  rw [h.dirFind hc hu]

theorem Twin.entryAt (h : Twin c c') (hc : Consistent c)
    (h0 : (0 : UInt8) ∉ path) : entryAt c' path = entryAt c path := by
  unfold XfsOperationEffects.entryAt
  rw [h.resolve hc h0]
  refine split_bind h0 fun parentPath leaf hp0 => ?_
  dsimp only
  rw [h.resolve hc hp0]

theorem Twin.fileBytes (h : Twin c c') (hc : Consistent c)
    (h0 : (0 : UInt8) ∉ path) (max : ℕ) : fileBytes c' path max = fileBytes c path max := by
  unfold XfsOperationEffects.fileBytes
  rw [h.resolve hc h0]
  refine resolve_bind hc h0 fun id hu => ?_
  dsimp only
  rw [bytesFrom_congr (h.dataOf hc hu)]

theorem listBytes_congr (hdata : ∀ b, c'.dataOf dir b = c.dataOf dir b) (outSize : ℤ) :
    ∀ n b out, listBytes c' dir outSize b n out = listBytes c dir outSize b n out := by
  intro n
  induction n with
  | zero => exact fun _ _ => rfl
  | succ n ih =>
    intro b out
    rw [listBytes, listBytes, hdata, ih]

theorem Twin.dirListing (h : Twin c c') (hc : Consistent c) (path : CString) (outSize : ℤ) :
    dirListing c' path outSize = dirListing c path outSize := by
  have h0 := noNul_orRoot path
  unfold XfsListing.dirListing
  rw [h.resolve hc h0]
  refine if_congr Iff.rfl (resolve_bind hc h0 fun id hu => ?_) rfl
  dsimp only
  rw [listBytes_congr (h.dataOf hc hu)]

theorem Twin.fileStat (h : Twin c c') (hc : Consistent c) (path : CString) :
    fileStat c' path = fileStat c path := by
  rw [XfsSystem.fileStat, XfsSystem.fileStat, h.resolve hc (noNul_orRoot path)]

inductive EffectTwin : Effect → Effect → Prop where
  | failed (begun : Bool) {c c' : Content} (h : Twin c c') :
      EffectTwin (.failed begun c) (.failed begun c')
  | broken : EffectTwin .broken .broken
  | done (commits : ℕ) {c c' : Content} (h : Twin c c') :
      EffectTwin (.done commits c) (.done commits c')

def StepTwin (o o' : Option (ℕ × Content)) : Prop :=
  match o with
  | none => o' = none
  | some (k, c) => ∃ c', o' = some (k, c') ∧ Twin c c'

theorem Twin.added (h : Twin c c') (hdata : ∀ b, c'.dataOf dir b = c.dataOf dir b)
    (e : Dirent) : StepTwin (added c dir e) (added c' dir e) := by
  unfold XfsDirectoryUpdate.added
  rw [freeSlot_congr hdata, h.allocRun]
  cases freeSlot c dir with
  | some slot =>
    obtain ⟨b, s⟩ := slot
    dsimp only
    cases Inode.lookup dir b with
    | none => exact rfl
    | some n => exact ⟨_, rfl, h.putIn (hdata b) e s n⟩
  | none =>
    dsimp only
    split
    · exact rfl
    · cases XfsDirectoryUpdate.allocRun c 1 with
      | none => exact rfl
      | some n => exact ⟨_, rfl, (h.takeBlock n _).setInode _⟩

theorem Twin.unadded (h : Twin c c') (hdata : ∀ b, c'.dataOf dir b = c.dataOf dir b)
    (e : Dirent) : Twin (unadded c dir e) (unadded c' dir e) := by
  unfold XfsDirectoryUpdate.unadded
  rw [freeSlot_congr hdata, h.allocRun]
  split
  · cases XfsDirectoryUpdate.allocRun c 1 with
    | none => exact h
    | some n => exact (h.takeBlock n _).dropRun n 1
  · exact h

theorem Twin.prepared (h : Twin c c') (i : Inode) (type : UInt16) :
    StepTwin (prepared c i type) (prepared c' i type) := by
  unfold XfsDirectoryUpdate.prepared
  split
  · rw [(h.freshFile i).allocRun]
    cases XfsDirectoryUpdate.allocRun (XfsDirectoryUpdate.freshFile c i) 1 with
    | none => exact rfl
    | some n => exact ⟨_, rfl, (Twin.takeBlock (h.freshFile i) n _).setInode _⟩
  · exact ⟨_, rfl, h.freshFile i⟩

theorem Twin.spareInode (h : Twin c c') : c'.spareInode = c.spareInode := by
  obtain ⟨d, rfl, -⟩ := h
  rfl

theorem Twin.createEffect (h : Twin c c') (hc : Consistent c)
    (h0 : (0 : UInt8) ∉ path) (generation : UInt64) (type : UInt16) (mode uid gid : UInt32) :
    EffectTwin (createEffect c generation path type mode uid gid)
      (createEffect c' generation path type mode uid gid) := by
  unfold XfsOperationEffects.createEffect
  rw [h.creatable hc h0, h.spareInode]
  cases hcr : XfsOperationEffects.creatable c path with
  | none => exact .failed true h
  | some target =>
    obtain ⟨parent, leaf⟩ := target
    obtain ⟨parentPath, parentId, hat⟩ := creatable_some hcr
    obtain ⟨-, -, -, -, hp0⟩ := split_parent_some h0 hat.split
    obtain ⟨hu, rfl, -, -⟩ := resolve_used hc hp0 hat.resolved
    dsimp only
    cases c.spareInode with
    | none => exact .failed true h
    | some id =>
      dsimp only
      have hprep := h.prepared (newInode generation (UInt32.ofNat id) type mode uid gid) type
      cases hp : XfsDirectoryUpdate.prepared c
          (newInode generation (UInt32.ofNat id) type mode uid gid) type with
      | none =>
        rw [hp] at hprep
        rw [show XfsDirectoryUpdate.prepared c' _ _ = none from hprep]
        exact .failed true ((h.freshFile _).setInodeUsed _ _)
      | some made =>
        obtain ⟨k, c₁⟩ := made
        rw [hp] at hprep
        obtain ⟨c₁', hp', h₁⟩ := hprep
        rw [hp']
        dsimp only
        have hdata : ∀ b, c₁'.dataOf (c.inode parentId.toNat) b =
            c₁.dataOf (c.inode parentId.toNat) b := by
          intro b
          have hkept := prepared_dataOf (h.consistent hc) hp' ((h.used _).mpr hu) b
          rw [h.inode, h.dataOf hc hu] at hkept
          rw [hkept, prepared_dataOf hc hp hu]
        have hadd := h₁.added hdata (makeDirent leaf (UInt32.ofNat id) type)
        cases ha : XfsDirectoryUpdate.added c₁ (c.inode parentId.toNat)
            (makeDirent leaf (UInt32.ofNat id) type) with
        | none =>
          rw [ha] at hadd
          rw [show XfsDirectoryUpdate.added c₁' _ _ = none from hadd]
          exact .broken
        | some entered =>
          obtain ⟨j, c₂⟩ := entered
          rw [ha] at hadd
          obtain ⟨c₂', ha', h₂⟩ := hadd
          rw [ha']
          exact .done 1 h₂

theorem Twin.overwriteEffect (h : Twin c c') (generation : UInt64) (inode : Inode)
    (data : List UInt8) (uid gid : UInt32) :
    EffectTwin (overwriteEffect c generation inode data uid gid)
      (overwriteEffect c' generation inode data uid gid) := by
  unfold XfsOperationEffects.overwriteEffect
  split
  · exact .failed false h
  · dsimp only
    split
    · exact .done 1 ((h.dropExtents _).setInode _)
    · rw [(h.dropExtents (Inode.extents inode)).allocRun]
      cases XfsDirectoryUpdate.allocRun (XfsContentChanges.dropExtents c (Inode.extents inode))
          (blocksFor data) with
      | some start => exact .done 1 (UpTo.written h _ _ _ _ _)
      | none =>
        dsimp only
        split
        · exact .failed true h
        · exact .broken

theorem Twin.writeEffect (h : Twin c c') (hc : Consistent c)
    (h0 : (0 : UInt8) ∉ path) (generation : UInt64) (data : List UInt8) (uid gid : UInt32) :
    EffectTwin (writeEffect c generation path data uid gid)
      (writeEffect c' generation path data uid gid) := by
  unfold XfsOperationEffects.writeEffect
  rw [h.resolve hc h0]
  cases hres : XfsLookup.resolve c path with
  | some target => exact h.overwriteEffect _ _ _ _ _
  | none =>
    dsimp only
    have hcreate := h.createEffect hc h0 generation typeRegular 0o644 uid gid
    generalize XfsOperationEffects.createEffect c' generation path typeRegular 0o644 uid gid = y
      at hcreate ⊢
    cases he : XfsOperationEffects.createEffect c generation path typeRegular 0o644 uid gid with
    | failed begun c₁ =>
      rw [he] at hcreate
      cases hcreate with
      | failed _ h₁ => exact .failed begun h₁
    | broken =>
      rw [he] at hcreate
      cases hcreate
      exact .broken
    | done k c₁ =>
      rw [he] at hcreate
      obtain ⟨-, parent, id, names, leaf, hat⟩ := create_done hc h0 (Or.inl rfl) he
      cases hcreate with
      | @done _ _ c₁' h₁ =>
        dsimp only
        rw [h₁.resolve hat.consistent h0]
        cases XfsLookup.resolve c₁ path with
        | none => exact .broken
        | some target =>
          dsimp only
          have hover := h₁.overwriteEffect (generation + 1) target.2 data uid gid
          generalize XfsOperationEffects.overwriteEffect c₁ (generation + 1) target.2 data uid gid = x,
            XfsOperationEffects.overwriteEffect c₁' (generation + 1) target.2 data uid gid = y
            at hover ⊢
          cases hover with
          | failed begun h₂ => exact .broken
          | broken => exact .broken
          | done k h₂ => exact .done 2 h₂

theorem data_dropExtents (exts : List Extent) : ∀ c : Content, (dropExtents c exts).data = c.data := by
  induction exts with
  | nil => exact fun _ => rfl
  | cons ex rest ih => exact fun c => ih _

theorem Twin.unlinkEffect (h : Twin c c') (hc : Consistent c) {parent : ℕ} (hu : Used c parent)
    (leaf : List UInt8) (inodeId : UInt32) (inode : Inode) (wipe : Bool) :
    EffectTwin (unlinkEffect c (c.inode parent) leaf inodeId inode wipe)
      (unlinkEffect c' (c.inode parent) leaf inodeId inode wipe) := by
  unfold XfsOperationEffects.unlinkEffect
  rw [h.dirFind hc hu]
  cases XfsLookup.dirFind c (c.inode parent) leaf with
  | none => exact .broken
  | some found =>
    obtain ⟨e, b, s⟩ := found
    dsimp only
    cases Inode.lookup (c.inode parent) b with
    | none => exact .broken
    | some n =>
      dsimp only
      have hdata : ((dropExtents c' (Inode.extents inode)).setInodeUsed inodeId.toNat false).dataOf
          (c.inode parent) b = ((dropExtents c (Inode.extents inode)).setInodeUsed inodeId.toNat
            false).dataOf (c.inode parent) b := by
        unfold Content.dataOf
        rw [Content.setInodeUsed, Content.setInodeUsed]
        dsimp only
        rw [data_dropExtents, data_dropExtents]
        exact h.dataOf hc hu b
      have hun := Twin.putIn ((h.dropExtents (Inode.extents inode)).setInodeUsed inodeId.toNat false)
        hdata Dirent.zero s n
      cases wipe with
      | true => exact .done 1 (hun.setInode _)
      | false => exact .done 1 hun

theorem added_marked {e : Dirent} {k : ℕ} (hadd : added c dir e = some (k, c')) {b : ℕ}
    (hb : c.blockUsed b = true) : c'.blockUsed b = true := by
  obtain ⟨_, s, n, -, -, -, rfl⟩ | ⟨n, -, -, -, -, rfl⟩ := added_cases hadd
  · exact hb
  · change (if n ≤ b ∧ b < n + 1 then true else c.blockUsed b) = true
    rw [hb, ite_self]

theorem Twin.renameEffect (h : Twin c c') (hc : Consistent c) {oldPath newPath : List UInt8}
    (h0 : (0 : UInt8) ∉ oldPath) (h0' : (0 : UInt8) ∉ newPath) :
    EffectTwin (renameEffect c oldPath newPath) (renameEffect c' oldPath newPath) := by
  unfold XfsOperationEffects.renameEffect
  rw [h.entryAt hc h0]
  cases hent : XfsOperationEffects.entryAt c oldPath with
  | none => exact .failed false h
  | some target =>
    obtain ⟨parentId, parent, leaf, inodeId, inode⟩ := target
    obtain ⟨rfl, rfl, names, e₀, b₀, s₀, n₀, hat⟩ := entryAt_some hc h0 hent
    cases hsplit : xfsSplitParent newPath with
    | none => exact .failed false h
    | some split =>
      obtain ⟨newParentPath, newLeaf⟩ := split
      obtain ⟨-, -, -, -, hp0⟩ := split_parent_some h0' hsplit
      dsimp only
      rw [h.resolve hc hp0]
      cases hres : XfsLookup.resolve c newParentPath with
      | none => exact .failed false h
      | some found =>
        obtain ⟨newId, newParent⟩ := found
        obtain ⟨hu, rfl, -, -⟩ := resolve_used hc hp0 hres
        dsimp only
        rw [h.dirFind hc hu]
        split
        · exact .failed false h
        · have hadd := h.added (h.dataOf hc hu)
            (makeDirent newLeaf inodeId (c.inode inodeId.toNat).type)
          cases ha : XfsDirectoryUpdate.added c (c.inode newId.toNat)
              (makeDirent newLeaf inodeId (c.inode inodeId.toNat).type) with
          | none =>
            rw [ha] at hadd
            rw [show XfsDirectoryUpdate.added c' _ _ = none from hadd]
            exact .failed false (h.unadded (h.dataOf hc hu) _)
          | some entered =>
            obtain ⟨k, c₁⟩ := entered
            rw [ha] at hadd
            obtain ⟨c₁', ha', h₁⟩ := hadd
            rw [ha']
            dsimp only
            have hold := hat.live.used
            have hdata := h₁.dataOf_marked (hc.fits _ hold.pos hold.le) hc.small
              fun b hb => added_marked ha (hc.marked _ hold b hb)
            rw [dirFind_congr hdata]
            cases XfsLookup.dirFind c₁ (c.inode parentId.toNat) leaf with
            | none => exact .broken
            | some found =>
              obtain ⟨e, b, s⟩ := found
              dsimp only
              cases Inode.lookup (c.inode parentId.toNat) b with
              | none => exact .broken
              | some n => exact .done 0 (h₁.putIn (hdata b) Dirent.zero s n)

theorem Twin.changeEffect (h : Twin c c') (hc : Consistent c)
    (h0 : (0 : UInt8) ∉ path) (generation : UInt64) (f : UInt64 → Inode → Inode) :
    EffectTwin (changeEffect c generation f path) (changeEffect c' generation f path) := by
  unfold XfsOperationEffects.changeEffect
  rw [h.resolve hc h0]
  cases XfsLookup.resolve c path with
  | none => exact .failed false h
  | some target => exact .done 1 (h.setInode _)

theorem Twin.effect (h : Twin c c') (hc : Consistent c) (generation : UInt64) (op : Operation) :
    EffectTwin (op.effect c generation) (op.effect c' generation) := by
  cases op with
  | mkdir path mode uid gid => exact h.createEffect hc path.noNul _ _ _ _ _
  | create path mode uid gid => exact h.createEffect hc path.noNul _ typeRegular _ _ _
  | writeFile path data uid gid => exact h.writeEffect hc path.noNul _ _ _ _
  | truncate path newSize =>
    rw [Operation.effect, Operation.effect, truncateEffect, truncateEffect, h.resolve hc path.noNul]
    cases XfsLookup.resolve c path.bytes with
    | none => exact .failed false h
    | some target =>
      dsimp only
      have hdata : truncateData c' path.bytes target.2 newSize.toNat =
          truncateData c path.bytes target.2 newSize.toNat := by
        unfold truncateData
        rw [h.fileBytes hc path.noNul]
      rw [hdata]
      split
      · exact .failed false h
      · cases truncateData c path.bytes target.2 newSize.toNat with
        | none => exact .failed false h
        | some data => exact h.writeEffect hc path.noNul _ _ _ _
  | remove path =>
    rw [Operation.effect, Operation.effect, removeEffect, removeEffect, h.entryAt hc path.noNul]
    cases hent : XfsOperationEffects.entryAt c path.bytes with
    | none => exact .failed false h
    | some target =>
      obtain ⟨parentId, parent, leaf, inodeId, inode⟩ := target
      obtain ⟨rfl, rfl, names, e, b, s, n, hat⟩ := entryAt_some hc path.noNul hent
      dsimp only
      split
      · exact h.unlinkEffect hc hat.live.used _ _ _ _
      · exact .failed false h
  | rmdir path =>
    rw [Operation.effect, Operation.effect, rmdirEffect, rmdirEffect, h.entryAt hc path.noNul]
    cases hent : XfsOperationEffects.entryAt c path.bytes with
    | none => exact .failed false h
    | some target =>
      obtain ⟨parentId, parent, leaf, inodeId, inode⟩ := target
      obtain ⟨rfl, rfl, names, e, b, s, n, hat⟩ := entryAt_some hc path.noNul hent
      dsimp only
      rw [h.dataOf hc hat.used]
      split
      · exact h.unlinkEffect hc hat.live.used _ _ _ _
      · exact .failed false h
  | rename oldPath newPath => exact h.renameEffect hc oldPath.noNul newPath.noNul
  | chmod path mode => exact h.changeEffect hc path.noNul _ _
  | chown path uid gid => exact h.changeEffect hc path.noNul _ _

theorem unadded_twin (hc : Consistent c) (dir : Inode) (e : Dirent) :
    Twin c (unadded c dir e) := by
  unfold unadded
  split
  · cases hn : allocRun c 1 with
    | none => exact Twin.refl c
    | some n =>
      have hsame := (ungrown_same hc hn e).2
      refine ⟨(ungrown c e n).data, ?_, fun b hb _ => hsame.data b hb⟩
      have heq : ungrown c e n = ⟨c.total, (ungrown c e n).freeBlocks, c.inodeUsed,
        (ungrown c e n).blockUsed, c.inode, (ungrown c e n).data⟩ := rfl
      rw [hsame.freeBlocks, hsame.blockUsed] at heq
      exact heq
  · exact Twin.refl c

variable {op : Operation} {generation : UInt64}

theorem failed_twin (hc : Consistent c)
    (he : op.effect c generation = .failed false c') : Twin c c' := by
  obtain (rfl | ⟨hbegun, -⟩) | ⟨dir, e, rfl⟩ := effect_failed hc he
  · exact Twin.refl _
  · cases hbegun
  · exact unadded_twin hc dir e

/-- `xfs_create_at` comes to its end. -/
def CreateGranted (c : Content) (path : List UInt8) (type : UInt16) : Prop :=
  ∃ parent leaf, creatable c path = some (parent, leaf) ∧ c.spareInode ≠ none ∧
    if type = typeDirectory then ∃ n, allocRun c 1 = some n ∧ EntryRoom (c.takeRun n 1) parent
    else EntryRoom c parent

/-- A regular file finds a run for the new data. -/
def OverwriteGranted (c : Content) (inode : Inode) (data : List UInt8) : Prop :=
  inode.type = typeRegular → 0 < blocksFor data → blocksFor data ≤ 2 ^ 32 - 1 →
    allocRun (dropExtents c (Inode.extents inode)) (blocksFor data) ≠ none

def WriteGranted (c : Content) (path data : List UInt8) : Prop :=
  match resolve c path with
  | some (_, inode) => OverwriteGranted c inode data
  | none => CreateGranted c path typeRegular ∧ ∀ parent leaf,
      creatable c path = some (parent, leaf) → 0 < blocksFor data →
      allocRun (entryTaken c parent) (blocksFor data) ≠ none

/-- The operation does not fail behind `k64_xfs_journal_begin`. -/
def Granted (c : Content) : Operation → Prop
  | .mkdir path _ _ _ => CreateGranted c path.bytes typeDirectory
  | .create path _ _ _ => CreateGranted c path.bytes typeRegular
  | .writeFile path data _ _ => WriteGranted c path.bytes data.bytes
  | .truncate path newSize => ∀ id inode data, resolve c path.bytes = some (id, inode) →
      inode.type = typeRegular → truncateData c path.bytes inode newSize.toNat = some data →
      OverwriteGranted c inode data
  | _ => True

theorem CreateGranted.room {type : UInt16} (h : CreateGranted c path type) :
    CreateRoom c path type := by
  obtain ⟨parent, leaf, hcr, -, hroom⟩ := h
  intro parent' leaf' hcr' _
  obtain ⟨rfl, rfl⟩ := Prod.mk.inj (Option.some.inj (hcr.symm.trans hcr'))
  split at hroom
  case isTrue ht =>
    rw [if_pos ht]
    obtain ⟨n, hn, hroom⟩ := hroom
    intro n' hn'
    obtain rfl := Option.some.inj (hn.symm.trans hn')
    exact hroom
  case isFalse ht =>
    rw [if_neg ht]
    exact hroom

variable {data : List UInt8}

theorem OverwriteGranted.room {inode : Inode}
    (h : OverwriteGranted c inode data) : OverwriteRoom c inode data :=
  fun ht hpos hle _ => h ht hpos hle

theorem WriteGranted.room (h : WriteGranted c path data) :
    WriteRoom c path data := by
  unfold WriteGranted at h
  unfold WriteRoom
  cases hres : XfsLookup.resolve c path with
  | some target =>
    rw [hres] at h
    exact h.room
  | none =>
    rw [hres] at h
    exact ⟨h.1.room, fun parent leaf hcr _ => h.2 parent leaf hcr⟩

theorem granted_provided (h : Granted c op) : Provided c op := by
  cases op with
  | mkdir path mode uid gid => exact CreateGranted.room h
  | create path mode uid gid => exact CreateGranted.room h
  | writeFile path data uid gid => exact WriteGranted.room h
  | truncate path newSize => exact fun id inode data hr ht hd => (h id inode data hr ht hd).room
  | remove path => trivial
  | rmdir path => trivial
  | rename oldPath newPath => trivial
  | chmod path mode => trivial
  | chown path uid gid => trivial

theorem create_closed {type : UInt16}
    {mode uid gid : UInt32} (h : CreateGranted c path type) (begun : Bool) (x : Content) :
    createEffect c generation path type mode uid gid ≠ .failed begun x := by
  intro he
  obtain ⟨parent, leaf, hcr, hspare, hroom⟩ := h
  obtain ⟨id, hid⟩ := Option.ne_none_iff_exists'.mp hspare
  unfold createEffect at he
  rw [hcr, hid] at he
  dsimp only at he
  split at he
  next hprep =>
    unfold prepared at hprep
    split at hprep
    case isTrue ht =>
      rw [if_pos ht] at hroom
      obtain ⟨n, hn, -⟩ := hroom
      have hnone : allocRun c 1 = none := Option.map_eq_none_iff.mp hprep
      rw [hnone] at hn
      cases hn
    case isFalse => cases hprep
  next => split at he <;> cases he

theorem overwrite_closed {inode : Inode} {uid gid : UInt32}
    (h : OverwriteGranted c inode data) (x : Content) :
    overwriteEffect c generation inode data uid gid ≠ .failed true x := by
  intro he
  unfold overwriteEffect at he
  split at he
  · cases he
  next hok =>
    rw [not_or, not_not, Nat.not_lt] at hok
    dsimp only at he
    split at he
    · cases he
    next hpos =>
      split at he
      · cases he
      next hnone => exact h hok.1 (Nat.pos_of_ne_zero hpos) hok.2 hnone

theorem write_closed {uid gid : UInt32}
    (h : WriteGranted c path data) (x : Content) :
    writeEffect c generation path data uid gid ≠ .failed true x := by
  intro he
  unfold writeEffect at he
  unfold WriteGranted at h
  split at he
  next hres =>
    rw [hres] at h
    exact overwrite_closed h x he
  next hres =>
    rw [hres] at h
    split at he
    · split at he
      · cases he
      · split at he <;> cases he
    · exact create_closed h.1 true x he

theorem effect_closed (h : Granted c op) (x : Content) :
    op.effect c generation ≠ .failed true x := by
  cases op with
  | mkdir path mode uid gid => exact create_closed h true x
  | create path mode uid gid => exact create_closed h true x
  | writeFile path data uid gid => exact write_closed h x
  | truncate path newSize =>
    rw [Operation.effect, truncateEffect]
    split
    · rintro ⟨⟩
    next id inode hres =>
      split
      · rintro ⟨⟩
      next hreg =>
        split
        · rintro ⟨⟩
        next data hdata =>
          refine write_closed ?_ x
          rw [WriteGranted, hres]
          exact h id inode data hres (not_not.mp hreg) hdata
  | remove path =>
    rw [Operation.effect, removeEffect]
    split
    · rintro ⟨⟩
    · split
      · exact unlink_not_failed _ _ _ _ _
      · rintro ⟨⟩
  | rmdir path =>
    rw [Operation.effect, rmdirEffect]
    split
    · rintro ⟨⟩
    · split
      · exact unlink_not_failed _ _ _ _ _
      · rintro ⟨⟩
  | rename oldPath newPath =>
    rw [Operation.effect, renameEffect]
    split
    · split
      · rintro ⟨⟩
      · split
        · rintro ⟨⟩
        · dsimp only
          split
          · rintro ⟨⟩
          · split
            · rintro ⟨⟩
            · split <;> rintro ⟨⟩
    · rintro ⟨⟩
  | chmod path mode =>
    rw [Operation.effect, changeEffect]
    split <;> rintro ⟨⟩
  | chown path uid gid =>
    rw [Operation.effect, changeEffect]
    split <;> rintro ⟨⟩

theorem added_entryRoom {e : Dirent} {k : ℕ} (hadd : added c dir e = some (k, c')) :
    EntryRoom c dir := by
  obtain ⟨b, s, n, hslot, -⟩ | ⟨n, -, hfew, halloc, -⟩ := added_cases hadd
  · exact .inl (by rw [hslot]; exact Option.some_ne_none _)
  · exact .inr ⟨hfew, by rw [halloc]; exact Option.some_ne_none _⟩

theorem create_granted {type : UInt16} {mode uid gid : UInt32} {k : ℕ} (hc : Consistent c)
    (h0 : (0 : UInt8) ∉ path)
    (he : createEffect c generation path type mode uid gid = .done k c') :
    CreateGranted c path type := by
  unfold createEffect at he
  split at he
  · cases he
  next parent leaf hcr =>
    split at he
    · cases he
    next id hspare =>
      dsimp only at he
      split at he
      · cases he
      next j c₁ hprep =>
        split at he
        · cases he
        next hadd =>
          obtain ⟨parentPath, parentId, hat⟩ := creatable_some hcr
          obtain ⟨-, -, -, -, hp0⟩ := split_parent_some h0 hat.split
          obtain ⟨hu, rfl, -, -⟩ := resolve_used hc hp0 hat.resolved
          have hdata := fun b => (prepared_dataOf hc hprep hu b).symm
          have hroom := added_entryRoom hadd
          refine ⟨_, leaf, hcr, by rw [hspare]; exact Option.some_ne_none _, ?_⟩
          unfold prepared at hprep
          split at hprep
          case isTrue ht =>
            obtain ⟨n, hn, heq⟩ := Option.map_eq_some_iff.mp hprep
            obtain ⟨-, rfl⟩ := Prod.mk.inj heq
            rw [if_pos ht]
            exact ⟨n, hn, @EntryRoom.congr _ (c.takeRun n 1) _ hdata rfl hroom⟩
          case isFalse ht =>
            obtain ⟨-, rfl⟩ := Prod.mk.inj (Option.some.inj hprep)
            rw [if_neg ht]
            exact EntryRoom.congr hdata rfl hroom

theorem overwrite_granted {inode : Inode} {uid gid : UInt32} {k : ℕ}
    (he : overwriteEffect c generation inode data uid gid = .done k c') :
    OverwriteGranted c inode data := by
  intro ht hpos hle hnone
  rw [overwriteEffect, if_neg (by rw [ht]; simpa using hle)] at he
  dsimp only at he
  rw [if_neg (by omega), hnone] at he
  dsimp only at he
  split at he <;> cases he

theorem write_granted {uid gid : UInt32} {k : ℕ} (hc : Consistent c) (h0 : (0 : UInt8) ∉ path)
    (he : writeEffect c generation path data uid gid = .done k c') : WriteGranted c path data := by
  unfold writeEffect at he
  unfold WriteGranted
  cases hres : XfsLookup.resolve c path with
  | some target =>
    rw [hres] at he
    exact overwrite_granted he
  | none =>
    rw [hres] at he
    dsimp only at he
    cases hcreate : createEffect c generation path typeRegular 0o644 uid gid with
    | failed begun c₁ => rw [hcreate] at he; cases he
    | broken => rw [hcreate] at he; cases he
    | done j c₁ =>
      obtain ⟨parent, leaf, id, hcr, -, hfound, htype, hext, halloc⟩ := created_file hc h0 hcreate
      rw [hcreate] at he
      dsimp only at he
      rw [hfound] at he
      dsimp only at he
      split at he
      next hover =>
        have hgranted := overwrite_granted hover
        refine ⟨create_granted hc h0 hcreate, fun parent' leaf' hcr' hpos => ?_⟩
        obtain ⟨rfl, rfl⟩ := Prod.mk.inj (Option.some.inj (hcr.symm.trans hcr'))
        rw [overwriteEffect] at hover
        split at hover
        · cases hover
        next hfits =>
          rw [not_or, Nat.not_lt] at hfits
          have hfree := hgranted htype hpos hfits.2
          rwa [hext, XfsContentChanges.dropExtents, halloc] at hfree
      next => cases he

/-- An operation that succeeds was granted what it needs. -/
theorem done_granted {k : ℕ} (hc : Consistent c) (he : op.effect c generation = .done k c') :
    Granted c op := by
  cases op with
  | mkdir path mode uid gid => exact create_granted hc path.noNul he
  | create path mode uid gid => exact create_granted hc path.noNul he
  | writeFile path data uid gid => exact write_granted hc path.noNul he
  | truncate path newSize =>
    intro id inode data hres ht hdata
    rw [Operation.effect, truncateEffect, hres] at he
    dsimp only at he
    rw [if_neg (not_not.mpr ht), hdata] at he
    have hgranted := write_granted hc path.noNul he
    rwa [WriteGranted, hres] at hgranted
  | remove path => trivial
  | rmdir path => trivial
  | rename oldPath newPath => trivial
  | chmod path mode => trivial
  | chown path uid gid => trivial

/-- The condition on a call: no transaction is begun that the call does not end. -/
def Settles (s : System) (call : PublicCall) : Prop :=
  s.fs.mounted = true → ∀ op, call = .operation op → Granted (content s) op

structure Closed (total : ℕ) (s : System) : Prop extends Sound total s where
  inactive : s.fs.journalActive = false

structure VolumeTwin (V W : Volume) : Prop where
  content : Twin V.content W.content
  mounted : W.mounted = V.mounted
  generation : W.generation = V.generation
  inactive : V.journalActive = false
  inactive' : W.journalActive = false

variable {total : ℕ} {s t u w : System} {V V' W W' : Volume} {label : CString} {dev : Geometry}
  {a : PublicCall}

theorem granted_effect (generation : UInt64) (hc : Consistent c) (hgranted : Granted c op) :
    (∃ c', op.effect c generation = .failed false c') ∨
      ∃ k c', op.effect c generation = .done k c' := by
  cases he : op.effect c generation with
  | failed begun c' =>
    cases begun with
    | true => exact absurd he (effect_closed hgranted c')
    | false => exact .inl ⟨c', rfl⟩
  | broken => exact absurd he (effect_unbroken hc (granted_provided hgranted))
  | done k c' => exact .inr ⟨k, c', rfl⟩

theorem shown_inactive {ok : Bool} (hc : Consistent V.content) (ha : V.journalActive = false)
    (hop : V.mounted = true → ∀ op, a = .operation op → Granted V.content op)
    (h : a.Shown V ok V') : V'.journalActive = false := by
  obtain ⟨op, r, rfl, hm, -, hshown⟩ | ⟨-, -, hidle, -⟩ := h.cases
  · obtain ⟨c, he⟩ | ⟨k, c, he⟩ := granted_effect V.generation hc (hop hm op rfl)
    · rw [he] at hshown
      obtain ⟨-, n, rfl⟩ := hshown
      change (V.journalActive || false) = false
      rw [ha]
      rfl
    · rw [he] at hshown
      obtain ⟨-, n, rfl⟩ := hshown
      change (V.journalActive && k == 0) = false
      rw [ha, Bool.false_and]
  · exact hidle ha

theorem holds_inactive (h : XfsSystem.Holds total s V) : s.fs.journalActive = V.journalActive := by
  obtain ⟨d, -, -, hs, -⟩ := h
  exact hs.active

theorem Closed.steady (h : Closed total s) : Steady total s (volumeOf s) :=
  ⟨h.holds, h.consistent, h.inactive⟩

theorem Closed.ready (h : Closed total s) (hset : Settles s a) : Ready s a := by
  refine fun hm => ⟨fun ha => ?_, fun op hop => granted_provided (hset hm op hop)⟩
  rw [h.inactive] at ha
  cases ha

theorem closed_step (h : Closed total s) (hset : Settles s a)
    (hp : a = .mount → s.fs.mounted = false)
    (hsector : WholeSectors dev)
    (ht : total ≤ xfsFsBlocks dev) :
    Closed total (s.call (a.proc dev)).2 ∧ ∃ V', XfsSystem.Holds total (s.call (a.proc dev)).2 V' ∧
      Consistent V'.content ∧ a.Shown (volumeOf s) (s.call (a.proc dev)).1.isSome V' := by
  have hready := h.ready hset
  obtain ⟨hsound, V', hV', hshown⟩ := ready_step h.toSound hready hp hsector ht
  have hcons := shown_consistent (V := volumeOf s) h.consistent (fun hm => (hready hm).2) hshown
  have hidle := shown_inactive (V := volumeOf s) h.consistent h.inactive hset hshown
  exact ⟨⟨hsound, (holds_inactive hV').trans hidle⟩, V', hV', hcons, hshown⟩

theorem closed_run (hrun : RunWhere Settles dev s t)
    (hsector : WholeSectors dev)
    (ht : total ≤ xfsFsBlocks dev) (h : Closed total s) : Closed total t := by
  induction hrun with
  | refl s => exact h
  | step met proper tail ih => exact ih (closed_step h met proper hsector ht).1

theorem closed_of_steady (h : Steady total s V) : Closed total s :=
  ⟨sound_of_holds h.holds h.consistent, (holds_inactive h.holds).trans h.closed⟩

theorem succeeded_settles (h : Closed total s) (hp : a = .mount → s.fs.mounted = false)
    (hsector : WholeSectors dev) (ht : total ≤ xfsFsBlocks dev)
    (hok : (s.call (a.proc dev)).1.isSome = true) : Settles s a := by
  rintro - op rfl
  obtain ⟨V', -, hshown⟩ := step_steady h.steady hp hsector ht hok
  obtain ⟨-, k, c, n, he, -⟩ := operation_done hshown
  exact done_granted h.consistent he

/-- Successful calls end the transactions they begin. -/
theorem run_settles {calls : List (PublicCall × Bool)} (hrun : Run dev s calls t)
    (hsector : WholeSectors dev) (ht : total ≤ xfsFsBlocks dev) (hok : ∀ c ∈ calls, c.2 = true)
    (h : Closed total s) : RunWhere Settles dev s t := by
  induction hrun with
  | nil s => exact .refl s
  | cons hp tail ih =>
    have hset := succeeded_settles h hp hsector ht (hok _ List.mem_cons_self)
    exact .step hset hp (ih (fun c hc => hok c (List.mem_cons_of_mem _ hc))
      (closed_step h hset hp hsector ht).1)

theorem settles_ready (hrun : RunWhere Settles dev s t) (hsector : WholeSectors dev)
    (ht : total ≤ xfsFsBlocks dev) (h : Closed total s) : RunWhere Ready dev s t := by
  induction hrun with
  | refl s => exact .refl s
  | step met proper tail ih =>
    exact .step (h.ready met) proper (ih (closed_step h met proper hsector ht).1)

theorem fresh_closed (hfresh : FreshMount label s t) (hf : ∀ i, s.machine.dev.faults i = false)
    (hsmall : xfsFsBlocks (System.geometry s) ≤ 32768) :
    Closed (xfsFsBlocks (System.geometry s)) t := by
  obtain ⟨-, -, hholds⟩ := fresh_holds hfresh hf hsmall
  exact ⟨fresh_sound hfresh hf hsmall, holds_inactive hholds⟩

/-- One call on two volumes that differ in unmarked blocks only. -/
theorem shown_twin {ok ok' : Bool} (h : VolumeTwin V W) (hc : Consistent V.content)
    (hop : V.mounted = true → ∀ op, a = .operation op → Granted V.content op)
    (hV : a.Shown V ok V') (hW : a.Shown W ok' W') : ok' = ok ∧ VolumeTwin V' W' := by
  have hV'a := shown_inactive hc h.inactive hop hV
  cases a with
  | operation op =>
    rw [PublicCall.Shown] at hV hW
    rw [h.mounted, h.generation] at hW
    split at hV
    case isFalse hm =>
      rw [if_neg hm] at hW
      obtain ⟨rfl, rfl⟩ := hV
      obtain ⟨rfl, rfl⟩ := hW
      exact ⟨rfl, h⟩
    case isTrue hm =>
      rw [if_pos hm] at hW
      obtain ⟨r, rfl, hV⟩ := hV
      obtain ⟨r', rfl, hW⟩ := hW
      have htwin := h.content.effect hc V.generation op
      obtain ⟨c, he⟩ | ⟨k, c, he⟩ := granted_effect V.generation hc (hop hm op rfl)
      · rw [he] at htwin hV
        generalize op.effect W.content V.generation = y at htwin hW
        cases htwin with
        | failed _ h₁ =>
          obtain ⟨rfl, n, rfl⟩ := hV
          obtain ⟨rfl, m, rfl⟩ := hW
          refine ⟨rfl, h₁, h.mounted, ?_, hV'a, ?_⟩
          · exact congrArg (· + UInt64.ofNat 0) h.generation
          · change (W.journalActive || false) = false
            rw [h.inactive']
            rfl
      · rw [he] at htwin hV
        generalize op.effect W.content V.generation = y at htwin hW
        cases htwin with
        | done _ h₁ =>
          obtain ⟨rfl, n, rfl⟩ := hV
          obtain ⟨rfl, m, rfl⟩ := hW
          refine ⟨rfl, h₁, h.mounted, ?_, hV'a, ?_⟩
          · exact congrArg (· + UInt64.ofNat k) h.generation
          · change (W.journalActive && k == 0) = false
            rw [h.inactive', Bool.false_and]
  | stat path =>
    obtain ⟨rfl, rfl⟩ := hV
    obtain ⟨rfl, rfl⟩ := hW
    rw [h.mounted, h.content.fileStat hc]
    exact ⟨rfl, h⟩
  | listDir path outSize =>
    obtain ⟨rfl, rfl⟩ := hV
    obtain ⟨rfl, rfl⟩ := hW
    rw [h.mounted, h.content.dirListing hc]
    exact ⟨rfl, h⟩
  | readFile path max =>
    obtain ⟨rfl, rfl⟩ := hV
    obtain ⟨rfl, rfl⟩ := hW
    rw [h.mounted, h.content.fileBytes hc path.noNul]
    exact ⟨rfl, h⟩
  | check =>
    obtain ⟨rfl, rfl⟩ := hV
    obtain ⟨rfl, rfl⟩ := hW
    exact ⟨rfl, h⟩
  | sync =>
    obtain ⟨rfl, rfl⟩ := hV
    obtain ⟨rfl, rfl⟩ := hW
    refine ⟨h.mounted, ?_⟩
    rw [h.mounted]
    split
    · exact ⟨h.content, h.mounted, h.generation, h.inactive, h.inactive'⟩
    · exact h
  | unmount =>
    obtain ⟨rfl, rfl⟩ := hV
    obtain ⟨rfl, rfl⟩ := hW
    refine ⟨h.mounted, ?_⟩
    rw [h.mounted]
    split
    · exact ⟨h.content, rfl, h.generation, h.inactive, h.inactive'⟩
    · exact h
  | mount =>
    obtain ⟨rfl, rfl⟩ := hV
    obtain ⟨rfl, rfl⟩ := hW
    exact ⟨rfl, h.content, rfl, h.generation, rfl, rfl⟩

theorem Twin.clip (h : Twin c c') : Twin (clip c) (clip c') := by
  obtain ⟨d, rfl, hd⟩ := h
  refine ⟨fun b => if 82 ≤ b ∧ b < c.total then d b else Block.zero, rfl, fun b hb hs => ?_⟩
  have hmark : c.blockUsed b = true := (Bool.and_eq_true_iff.mp hb).2
  change (if 82 ≤ b ∧ b < c.total then d b else Block.zero) =
    if 82 ≤ b ∧ b < c.total then c.data b else Block.zero
  rw [hd b hmark hs]

theorem holds_content (h : XfsSystem.Holds total s V) : content s = clip V.content := by
  obtain ⟨d, -, hrep, hs, -⟩ := h
  exact shows_content hrep hs

theorem clipped_twin (hV : XfsSystem.Holds total u V) (hW : XfsSystem.Holds total w W)
    (hc : Twin (clip V.content) (clip W.content)) (hm : W.mounted = V.mounted)
    (hg : W.generation = V.generation) (ha : V.journalActive = false)
    (ha' : W.journalActive = false) : VolumeTwin (volumeOf u) (volumeOf w) := by
  rw [← holds_content hV, ← holds_content hW] at hc
  obtain ⟨d, -, -, hs, -⟩ := hV
  obtain ⟨d', -, -, hs', -⟩ := hW
  exact ⟨hc, hs'.mounted.trans (hm.trans hs.mounted.symm),
    hs'.generation.trans (hg.trans hs.generation.symm), hs.active.trans ha, hs'.active.trans ha'⟩

theorem volumeOf_twin (hV : XfsSystem.Holds total u V) (hW : XfsSystem.Holds total w W)
    (h : VolumeTwin V W) : VolumeTwin (volumeOf u) (volumeOf w) :=
  clipped_twin hV hW h.content.clip h.mounted h.generation h.inactive h.inactive'

/-- What a call hands back when it succeeds. -/
inductive Reply where
  | done
  | stat (st : FsStat)
  | listing (text : List UInt8)
  | bytes (data : List UInt8)
  | report (result : CheckResult)

def reply (dev : Geometry) (s : System) : PublicCall → Option Reply
  | .stat path => (s.call (lowered (k64XfsStat path))).1.map .stat
  | .listDir path outSize => (s.call (lowered (k64XfsListDir path outSize))).1.map .listing
  | .readFile path max => (s.call (lowered (k64XfsReadFile path max))).1.map .bytes
  | .check => (s.call k64XfsCheck).1.map .report
  | a => (s.call (a.proc dev)).1.map fun _ => .done

/-- The replies to the calls of the sequence, `none` for those that fail. -/
def answers (dev : Geometry) : System → List PublicCall → List (Option Reply)
  | _, [] => []
  | s, a :: rest => reply dev s a :: answers dev (s.call (a.proc dev)).2 rest

theorem call_isSome {α : Type} (f : XfsM α) (s : System) :
    (s.call (do let _ ← f)).1.isSome = (s.call f).1.isSome := by
  have hbind : (s.call (do let _ ← f)).1 = (s.call f).1.map fun _ => () := by
    simp only [System.call, Proc.exec, bind, Prog.run_bind]
    split <;> simp_all [pure, Prog.run]
  rw [hbind, Option.isSome_map]

theorem counted_congr (hu : c'.inodeUsed = c.inodeUsed) (hi : c'.inode = c.inode) (n : ℕ) :
    counted c' n = counted c n := by
  induction n with
  | zero => rfl
  | succ n ih => rw [counted, counted, hu, hi, ih]

theorem Twin.cleanReport (h : Twin c c') : cleanReport c' = cleanReport c := by
  obtain ⟨d, rfl, -⟩ := h
  have hcounted := @counted_congr c { c with data := d } rfl rfl 512
  rw [XfsChecking.cleanReport, XfsChecking.cleanReport, hcounted]

theorem check_answer (h : Closed total s) : (s.call k64XfsCheck).1 =
    some (if s.fs.mounted then cleanReport (content s) else CheckResult.bad "bad superblock") := by
  obtain ⟨d, -, hrep, hs, -⟩ := h.holds
  by_cases hm : s.fs.mounted = true
  · obtain ⟨-, -, -, -, hreport⟩ := call_of_wp hrep (check_disk h.consistent hs hm)
    rw [hreport, if_pos hm]
    rfl
  · obtain ⟨-, -, -, hreport, -⟩ := call_of_wp hrep (check_unmounted (Bool.not_eq_true _ ▸ hm))
    rw [hreport, if_neg hm]

theorem reply_twin {ok : Bool} (hu : Closed total u) (hw : Closed total w)
    (h : VolumeTwin (volumeOf u) (volumeOf w)) (hV : a.Shown (volumeOf u) ok V')
    (hok : ok = (u.call (a.proc dev)).1.isSome) (hok' : ok = (w.call (a.proc dev)).1.isSome) :
    reply dev w a = reply dev u a := by
  have hunit : (w.call (a.proc dev)).1 = (u.call (a.proc dev)).1 := by
    rw [hok] at hok'
    generalize (w.call (a.proc dev)).1 = r', (u.call (a.proc dev)).1 = r at hok'
    cases r <;> cases r' <;> first | rfl | cases hok'
  -- a call that reads answers from the content, and not at all without a mounted volume
  have hread : ∀ {α : Type} {f : XfsM α} (r : α → Reply), (PublicCall.proc dev a = do let _ ← f) →
      ((volumeOf u).mounted = false → ok = false) →
      (u.fs.mounted = true → (w.call f).1 = (u.call f).1) → (w.call f).1.map r = (u.call f).1.map r := by
    intro α f r hf hidle hsame
    by_cases hm : u.fs.mounted = true
    · rw [hsame hm]
    · rw [hf, call_isSome, hidle (Bool.not_eq_true _ ▸ hm)] at hok hok'
      rw [Option.isNone_iff_eq_none.mp (Option.isSome_eq_false_iff.mp hok.symm),
        Option.isNone_iff_eq_none.mp (Option.isSome_eq_false_iff.mp hok'.symm)]
  have hansu := steady_answers hu.steady
  have hansw := fun hm : u.fs.mounted = true => steady_answers hw.steady (h.mounted.trans hm)
  have hc : Consistent (content u) := hu.consistent
  have htwin : Twin (content u) (content w) := h.content
  cases a with
  | stat path =>
    refine hread _ rfl (fun hm => by rw [hV.1, hm]; rfl) fun hm => ?_
    rw [(hansu hm).stat, (hansw hm).stat]
    exact htwin.fileStat hc path
  | listDir path outSize =>
    refine hread _ rfl (fun hm => by rw [hV.1, hm]; rfl) fun hm => ?_
    rw [(hansu hm).list, (hansw hm).list]
    exact htwin.dirListing hc path outSize
  | readFile path max =>
    refine hread _ rfl (fun hm => by rw [hV.1, hm]; rfl) fun hm => ?_
    rw [← fileRead, ← fileRead, (hansu hm).read, (hansw hm).read]
    exact htwin.fileBytes hc path.noNul max
  | check =>
    have hm : w.fs.mounted = u.fs.mounted := h.mounted
    rw [reply, reply, check_answer hu, check_answer hw, hm, htwin.cleanReport]
  | operation op => exact congrArg (Option.map _) hunit
  | sync => exact congrArg (Option.map _) hunit
  | unmount => exact congrArg (Option.map _) hunit
  | mount => exact congrArg (Option.map _) hunit

/-- Each call of the sequence meets the condition in the state it finds. -/
def Each (ok : System → PublicCall → Prop) (dev : Geometry) : System → List PublicCall → Prop
  | _, [] => True
  | s, a :: rest => ok s a ∧ (a = .mount → s.fs.mounted = false) ∧
      Each ok dev (s.call (a.proc dev)).2 rest

def after (dev : Geometry) (calls : List PublicCall) (s : System) : System :=
  calls.foldl (fun s a => (s.call (a.proc dev)).2) s

theorem calls_twin (hsector : WholeSectors dev)
    (ht : total ≤ xfsFsBlocks dev) (calls : List PublicCall) : ∀ {u w : System}, Closed total u →
    Closed total w → VolumeTwin (volumeOf u) (volumeOf w) → Each Settles dev u calls →
    answers dev w calls = answers dev u calls ∧ Closed total (after dev calls u) ∧
      Closed total (after dev calls w) ∧
      VolumeTwin (volumeOf (after dev calls u)) (volumeOf (after dev calls w)) := by
  induction calls with
  | nil => exact fun hu hw htwin _ => ⟨rfl, hu, hw, htwin⟩
  | cons a rest ih =>
    intro u w hu hw htwin ⟨hset, hp, hrest⟩
    obtain ⟨hu', V', hV', hcV', hshown⟩ := closed_step hu hset hp hsector ht
    have hp' : a = .mount → w.fs.mounted = false := fun ha => htwin.mounted.trans (hp ha)
    have hroom : (volumeOf w).mounted = true → Room 12 (volumeOf w) :=
      fun hm => ⟨hm, fun ha => absurd (hw.inactive.symm.trans ha) nofun⟩
    obtain ⟨W', hW', hshown'⟩ := call_shown hw.holds hw.consistent hroom hp' hsector ht
    obtain ⟨hok, htwin'⟩ := shown_twin (V := volumeOf u) (W := volumeOf w) htwin hu.consistent hset
      hshown hshown'
    have hw' : Closed total (w.call (a.proc dev)).2 :=
      ⟨sound_of_holds hW' (htwin'.content.consistent hcV'), (holds_inactive hW').trans
        htwin'.inactive'⟩
    obtain ⟨hrest, hends⟩ := ih hu' hw' (volumeOf_twin hV' hW' htwin') hrest
    have hreply := reply_twin hu hw htwin hshown rfl hok.symm
    exact ⟨by rw [answers, answers, hreply, hrest], hends⟩

theorem answers_twin (hsector : WholeSectors dev) (ht : total ≤ xfsFsBlocks dev)
    (calls : List PublicCall) (hu : Closed total u) (hw : Closed total w)
    (htwin : VolumeTwin (volumeOf u) (volumeOf w)) (hcalls : Each Settles dev u calls) :
    answers dev w calls = answers dev u calls :=
  (calls_twin hsector ht calls hu hw htwin hcalls).1

theorem shown_failed (hc : Consistent V.content) (ha : V.journalActive = false)
    (hop : V.mounted = true → ∀ op, a = .operation op → Granted V.content op)
    (h : a.Shown V false V') : VolumeTwin V V' := by
  have hidle := shown_inactive hc ha hop h
  obtain ⟨op, r, rfl, hm, hr, hshown⟩ | ⟨-, -, -, hsame⟩ := h.cases
  · obtain ⟨c, he⟩ | ⟨k, c, he⟩ := granted_effect V.generation hc (hop hm op rfl)
    · rw [he] at hshown
      obtain ⟨-, n, rfl⟩ := hshown
      exact ⟨failed_twin hc he, rfl, UInt64.add_zero _, ha, hidle⟩
    · rw [he] at hshown
      rw [hshown.1] at hr
      cases hr
  · obtain rfl := hsame rfl
    exact ⟨Twin.refl _, rfl, rfl, ha, ha⟩

theorem begin_at_zero (h : XfsSystem.Holds total s V) (hm : s.fs.mounted = true)
    (ha : s.fs.journalActive = false) :
    (s.call k64XfsJournalBegin).2.fs.journalRecords = 0 := by
  obtain ⟨d, -, hrep, -, -⟩ := h
  have hw : dwp k64XfsJournalBegin (fun _ fs' _ => fs'.journalRecords = 0) s.fs d := by
    rw [dwp, k64XfsJournalBegin, Proc.wp_bind, Proc.wp_load, Proc.wpNext_some, Proc.wp_bind,
      Proc.wp_guard, if_pos hm, Proc.wpNext_some, Proc.wp_ite, if_neg (by rw [ha]; decide),
      Proc.wp_update]
    rfl
  obtain ⟨d', -, -, hrecords⟩ := call_of_wp hrep hw
  exact hrecords

/-- In every run of calls that end the transactions they begin, no transaction is open between two
calls, the next one starts at slot 0, and a call that fails changes no later answer. -/
theorem transactions_end_with_their_calls (hfresh : FreshMount label s t)
    (hf : ∀ i, s.machine.dev.faults i = false)
    (hsmall : xfsFsBlocks (System.geometry s) ≤ 32768)
    (hrun : RunWhere Settles (System.geometry s) t u) :
    u.fs.journalActive = false ∧
      (u.fs.mounted = true → (u.call k64XfsJournalBegin).2.fs.journalRecords = 0) ∧
      ∀ a : PublicCall, Settles u a → (a = .mount → u.fs.mounted = false) →
        (u.call (a.proc (System.geometry s))).1 = none →
        ∀ later, Each Settles (System.geometry s) u later →
          answers (System.geometry s) (u.call (a.proc (System.geometry s))).2 later =
            answers (System.geometry s) u later := by
  obtain ⟨-, hdev, -⟩ := fresh_holds hfresh hf hsmall
  have hsector := sector_of_ok hdev
  have hu := closed_run hrun hsector (Nat.le_refl _) (fresh_closed hfresh hf hsmall)
  refine ⟨hu.inactive, fun hm => begin_at_zero hu.holds hm hu.inactive, ?_⟩
  intro a hset hp hfail later hlater
  obtain ⟨hw, V', hV', -, hshown⟩ := closed_step hu hset hp hsector (Nat.le_refl _)
  rw [hfail] at hshown
  have htwin := shown_failed (V := volumeOf u) hu.consistent hu.inactive hset hshown
  exact answers_twin hsector (Nat.le_refl _) later hu hw (volumeOf_twin hu.holds hV' htwin) hlater

theorem small_closed : ∃ total, Closed total (freshSystem smallDevice) ∧ Closed total createdSystem ∧
    Closed total writtenSystem ∧ WholeSectors (System.geometry (blankSystem smallDevice)) ∧
    total ≤ xfsFsBlocks (System.geometry (blankSystem smallDevice)) := by
  obtain ⟨total, h84, hsmall, hsteady, hsector, ht⟩ := small_steady
  obtain ⟨-, V, hV, -⟩ := first_created h84 hsmall hsteady hsector ht
  have hcreated := closed_of_steady hV
  have hset := succeeded_settles (a := .operation (.writeFile fileA byteSeven 0 0)) hcreated nofun
    hsector ht created_written.2
  exact ⟨total, closed_of_steady hsteady, hcreated, (closed_step hcreated hset nofun hsector ht).1,
    hsector, ht⟩

theorem written_settled : RunWhere Settles (System.geometry (blankSystem smallDevice))
    (freshSystem smallDevice) writtenSystem := by
  obtain ⟨total, hfresh, -, -, hsector, ht⟩ := small_closed
  exact run_settles written_reached hsector ht (by simp) hfresh

theorem quiet_settles {calls : List PublicCall} (hq : ∀ a ∈ calls, ∀ op, a ≠ .operation op)
    (hp : ∀ a ∈ calls, a ≠ .mount) (s : System) : Each Settles dev s calls := by
  induction calls generalizing s with
  | nil => trivial
  | cons a rest ih =>
    exact ⟨fun _ op ha => absurd ha (hq a List.mem_cons_self op),
      fun ha => absurd ha (hp a List.mem_cons_self),
      ih (fun b hb => hq b (List.mem_cons_of_mem _ hb)) (fun b hb => hp b (List.mem_cons_of_mem _ hb)) _⟩

theorem remove_root_fails (h : Closed total s) (hsector : WholeSectors dev)
    (ht : total ≤ xfsFsBlocks dev) :
    Settles s (.operation (.remove rootPath)) ∧ (s.call (lowered (k64XfsRemove rootPath))).1 = none := by
  have hset : Settles s (.operation (.remove rootPath)) := by
    intro _ op hop
    obtain rfl := PublicCall.operation.inj hop
    trivial
  refine ⟨hset, Option.isNone_iff_eq_none.mp (Option.isSome_eq_false_iff.mp ?_)⟩
  obtain ⟨-, V', -, -, hshown⟩ := closed_step h hset nofun hsector ht
  rw [PublicCall.Shown] at hshown
  split at hshown
  · obtain ⟨r, hr, hshown⟩ := hshown
    rw [Operation.effect, removeEffect, entryAt, show xfsSplitParent rootPath.bytes = none by decide]
      at hshown
    rw [hshown.1] at hr
    exact hr
  · exact hshown.1

/-- `/a` is created and written, and what is read and checked then does not depend on a removal of
the root that fails. -/
theorem journal_closed_after_write :
    writtenSystem.fs.journalActive = false ∧
      (writtenSystem.call k64XfsJournalBegin).2.fs.journalRecords = 0 ∧
      answers smallDevice.toGeometry (writtenSystem.call (lowered (k64XfsRemove rootPath))).2
        [.readFile fileA 1, .check] =
      answers smallDevice.toGeometry writtenSystem [.readFile fileA 1, .check] := by
  obtain ⟨total, -, -, hclosed, hsector, ht⟩ := small_closed
  obtain ⟨hset, hfails⟩ := remove_root_fails hclosed hsector ht
  obtain ⟨hidle, hslot, hsame⟩ := transactions_end_with_their_calls fresh_smallDevice (fun _ => rfl)
    (by decide) written_settled
  exact ⟨hidle, hslot written_mounted, hsame (.operation (.remove rootPath)) hset nofun hfails _
    (quiet_settles (by simp) (by simp) _)⟩

theorem mkdir_root_leaves_open (h : Closed total s) (hm : s.fs.mounted = true)
    (hsector : WholeSectors dev)
    (ht : total ≤ xfsFsBlocks dev) :
    (s.call (lowered (k64XfsMkdir rootPath 0 0 0))).2.fs.journalActive = true := by
  obtain ⟨hready, -⟩ := mkdir_root_fails h.toSound hm h.inactive hsector ht
  obtain ⟨-, V', hV', hshown⟩ := ready_step h.toSound hready nofun hsector ht
  rw [PublicCall.Shown, if_pos (show (volumeOf s).mounted = true from hm)] at hshown
  obtain ⟨r, -, hshown⟩ := hshown
  rw [Operation.effect, XfsOperationEffects.createEffect, show rootPath.bytes = [slash] from rfl,
    creatable_root] at hshown
  obtain ⟨-, n, rfl⟩ := hshown
  exact (holds_inactive hV').trans (Bool.or_true _)

theorem failed_mkdir_leaves_transaction :
    ((freshSystem smallDevice).call (lowered (k64XfsMkdir rootPath 0 0 0))).2.fs.journalActive =
      true := by
  have hsmall : xfsFsBlocks (System.geometry (blankSystem smallDevice)) ≤ 32768 := by decide
  obtain ⟨-, hdev, hholds⟩ := fresh_holds fresh_smallDevice (fun _ => rfl) hsmall
  obtain ⟨d, -, -, hs, -⟩ := hholds
  exact mkdir_root_leaves_open (fresh_closed fresh_smallDevice (fun _ => rfl) hsmall) hs.mounted
    (sector_of_ok hdev) (Nat.le_refl _)

/-- Calls that ask, check, sync, unmount or mount. -/
def Quiet (_ : System) (a : PublicCall) : Prop := ∀ op, a ≠ .operation op

theorem quiet_step (h : Closed total s) (hq : Quiet s a) (hp : a = .mount → s.fs.mounted = false)
    (hsector : WholeSectors dev)
    (ht : total ≤ xfsFsBlocks dev) :
    Closed total (s.call (a.proc dev)).2 ∧ content (s.call (a.proc dev)).2 = content s ∧
      (s.call (a.proc dev)).2.fs.super.generation = s.fs.super.generation := by
  have hset : Settles s a := fun _ op ha => absurd ha (hq op)
  obtain ⟨hclosed, V', hV', -, hshown⟩ := closed_step h hset hp hsector ht
  obtain ⟨op, -, ha, -⟩ | ⟨hcontent, hgeneration, -⟩ := hshown.cases
  · exact absurd ha (hq op)
  · refine ⟨hclosed, ?_, ?_⟩
    · rw [holds_content hV', hcontent]
      exact (holds_content h.holds).symm
    · obtain ⟨d, -, -, hs, -⟩ := hV'
      exact hs.generation.trans hgeneration

theorem quiet_run (hrun : RunWhere Quiet dev s t)
    (hsector : WholeSectors dev)
    (ht : total ≤ xfsFsBlocks dev) (h : Closed total s) :
    Closed total t ∧ content t = content s ∧ t.fs.super.generation = s.fs.super.generation := by
  induction hrun with
  | refl s => exact ⟨h, rfl, rfl⟩
  | step met proper tail ih =>
    obtain ⟨hnext, hcontent, hgeneration⟩ := quiet_step h met proper hsector ht
    obtain ⟨hlast, hsame, hcount⟩ := ih hnext
    exact ⟨hlast, hsame.trans hcontent, hcount.trans hgeneration⟩

/-- Whatever is asked, checked, synced, unmounted and mounted between two calls, the content stays
what it is; once the volume is mounted as before, every later call has the answer it would have had. -/
theorem maintenance_invisible (hfresh : FreshMount label s t)
    (hf : ∀ i, s.machine.dev.faults i = false)
    (hsmall : xfsFsBlocks (System.geometry s) ≤ 32768)
    (hrun : RunWhere Settles (System.geometry s) t u)
    (hquiet : RunWhere Quiet (System.geometry s) u w) :
    content w = content u ∧ (w.fs.mounted = u.fs.mounted → ∀ later,
      Each Settles (System.geometry s) u later →
        answers (System.geometry s) w later = answers (System.geometry s) u later) := by
  obtain ⟨-, hdev, -⟩ := fresh_holds hfresh hf hsmall
  have hsector := sector_of_ok hdev
  have hu := closed_run hrun hsector (Nat.le_refl _) (fresh_closed hfresh hf hsmall)
  obtain ⟨hw, hcontent, hgeneration⟩ := quiet_run hquiet hsector (Nat.le_refl _) hu
  refine ⟨hcontent, fun hm later hlater => ?_⟩
  refine answers_twin hsector (Nat.le_refl _) later hu hw ⟨?_, hm, hgeneration, hu.inactive,
    hw.inactive⟩ hlater
  rw [show (volumeOf w).content = (volumeOf u).content from hcontent]
  exact Twin.refl _

/-- Whether the volume is mounted behind a call that is no operation. -/
def mountedAfter : PublicCall → Bool → Bool
  | .unmount, _ => false
  | .mount, _ => true
  | _, mounted => mounted

theorem quiet_mounted (h : Closed total s) (hq : Quiet s a) (hp : a = .mount → s.fs.mounted = false)
    (hsector : WholeSectors dev) (ht : total ≤ xfsFsBlocks dev) :
    (s.call (a.proc dev)).2.fs.mounted = mountedAfter a s.fs.mounted := by
  obtain ⟨-, V', ⟨d, -, -, hs, -⟩, -, hshown⟩ :=
    closed_step h (fun _ op ha => absurd ha (hq op)) hp hsector ht
  rw [hs.mounted]
  cases a with
  | operation op => exact absurd rfl (hq op)
  | stat path => rw [hshown.2]; rfl
  | listDir path outSize => rw [hshown.2]; rfl
  | readFile path max => rw [hshown.2]; rfl
  | check => rw [hshown.2]; rfl
  | sync => rw [hshown.2]; split <;> rfl
  | unmount =>
    rw [hshown.2]
    split
    case isTrue => rfl
    case isFalse hm => exact Bool.not_eq_true _ ▸ hm
  | mount => rw [hshown.2]; rfl

theorem each_run {ok : System → PublicCall → Prop} (calls : List PublicCall) :
    ∀ {s : System}, Each ok dev s calls → RunWhere ok dev s (after dev calls s) := by
  induction calls with
  | nil => exact fun _ => .refl _
  | cons a rest ih => exact fun ⟨hok, hp, hrest⟩ => .step hok hp (ih hrest)

theorem maintained (h : Closed total s) (hsector : WholeSectors dev)
    (ht : total ≤ xfsFsBlocks dev) :
    RunWhere Quiet dev s (after dev [.check, .unmount, .mount, .sync] s) ∧
      (after dev [.check, .unmount, .mount, .sync] s).fs.mounted = true := by
  have hstep : ∀ {s : System} {a : PublicCall}, Closed total s → Quiet s a →
      (a = .mount → s.fs.mounted = false) →
      Closed total (s.call (a.proc dev)).2 ∧
        (s.call (a.proc dev)).2.fs.mounted = mountedAfter a s.fs.mounted :=
    fun h hq hp => ⟨(quiet_step h hq hp hsector ht).1, quiet_mounted h hq hp hsector ht⟩
  obtain ⟨h₁, -⟩ := hstep (a := .check) h (fun _ => nofun) nofun
  obtain ⟨h₂, hm₂⟩ := hstep (a := .unmount) h₁ (fun _ => nofun) nofun
  obtain ⟨h₃, hm₃⟩ := hstep (a := .mount) h₂ (fun _ => nofun) fun _ => hm₂
  obtain ⟨-, hm₄⟩ := hstep (a := .sync) h₃ (fun _ => nofun) nofun
  exact ⟨each_run _ ⟨fun _ => nofun, nofun, fun _ => nofun, nofun, fun _ => nofun, fun _ => hm₂,
    fun _ => nofun, nofun, trivial⟩, hm₄.trans hm₃⟩

theorem read_checked (h : Closed total s) (hm : s.fs.mounted = true) (hsector : WholeSectors dev)
    (ht : total ≤ xfsFsBlocks dev) {bytes : List UInt8}
    (hread : fileRead s fileA 1 = some bytes) :
    answers dev s [.readFile fileA 1, .check] =
      [some (.bytes bytes), some (.report (cleanReport (content s)))] := by
  obtain ⟨hafter, hkept, -⟩ := quiet_step (a := .readFile fileA 1) h (fun _ => nofun) nofun hsector ht
  have hm' := quiet_mounted (a := .readFile fileA 1) h (fun _ => nofun) nofun hsector ht
  rw [answers, answers, answers, reply, reply, ← fileRead, hread, check_answer hafter, hkept,
    if_pos (hm'.trans hm)]
  rfl

/-- A file with one byte, which is there after a check, an unmount, a mount and a sync. -/
theorem written_kept :
    content (after smallDevice.toGeometry [.check, .unmount, .mount, .sync] writtenSystem) =
      content writtenSystem ∧
    answers smallDevice.toGeometry
        (after smallDevice.toGeometry [.check, .unmount, .mount, .sync] writtenSystem)
        [.readFile fileA 1, .check] =
      [some (.bytes [7]), some (.report (cleanReport (content writtenSystem)))] := by
  rw [show smallDevice.toGeometry = System.geometry (blankSystem smallDevice) from rfl]
  obtain ⟨total, -, -, hclosed, hsector, ht⟩ := small_closed
  obtain ⟨hquiet, hm⟩ := maintained (s := writtenSystem) hclosed hsector ht
  obtain ⟨hcontent, hsame⟩ := maintenance_invisible fresh_smallDevice (fun _ => rfl) (by decide)
    written_settled hquiet
  have hread := read_checked hclosed written_mounted hsector ht (written_bytes 1)
  exact ⟨hcontent, (hsame (hm.trans written_mounted.symm) _ (quiet_settles (by simp) (by simp) _)).trans
    hread⟩

section Formatting

variable {label' : CString} {s' t' : System} (hfresh : FreshMount label s t)
  (hfresh' : FreshMount label' s' t') (hf : ∀ i, s.machine.dev.faults i = false)
  (hf' : ∀ i, s'.machine.dev.faults i = false)
  (hsmall : xfsFsBlocks (System.geometry s) ≤ 32768)
  (hsame : System.geometry s' = System.geometry s)

include hfresh hfresh' hf hf' hsmall hsame

theorem fresh_twin : VolumeTwin (volumeOf t) (volumeOf t') := by
  obtain ⟨-, -, hV⟩ := fresh_holds hfresh hf hsmall
  obtain ⟨-, -, hW⟩ := fresh_holds hfresh' hf' (hsame ▸ hsmall)
  rw [hsame] at hW
  refine clipped_twin hV hW ⟨_, rfl, fun b hb _ => ?_⟩ rfl rfl rfl rfl
  -- the one marked block from 82 on is that of the root
  simp only [clip, formatted, mountedVolume, Bool.and_eq_true, decide_eq_true_eq] at hb ⊢
  by_cases h : b = 82
  · rw [h]
    rfl
  · simp only [show ¬ 82 ≤ b by omega, false_and, if_false]

/-- Formatting forgets: whatever two devices of one geometry held, once they are formatted and
mounted they answer the same calls alike, and behind these every path leads to the same bytes, the
same record and the same listing. -/
theorem format_forgets (calls : List PublicCall)
    (hcalls : Each Settles (System.geometry s) t calls) :
    let u := after (System.geometry s) calls t
    let u' := after (System.geometry s) calls t'
    answers (System.geometry s) t' calls = answers (System.geometry s) t calls ∧
      (u.fs.mounted = true → ∀ path : CString,
        (∀ max, fileRead u' path max = fileRead u path max) ∧
        (u'.call (lowered (k64XfsStat path))).1 = (u.call (lowered (k64XfsStat path))).1 ∧
        ∀ outSize, (u'.call (lowered (k64XfsListDir path outSize))).1 =
          (u.call (lowered (k64XfsListDir path outSize))).1) := by
  obtain ⟨-, hdev, -⟩ := fresh_holds hfresh hf hsmall
  have ht' := fresh_closed hfresh' hf' (hsame ▸ hsmall)
  rw [hsame] at ht'
  obtain ⟨hans, hu, hu', htwin⟩ := calls_twin (sector_of_ok hdev) (Nat.le_refl _) calls
    (fresh_closed hfresh hf hsmall) ht' (fresh_twin hfresh hfresh' hf hf' hsmall hsame) hcalls
  refine ⟨hans, fun hm path => ?_⟩
  have h := steady_answers hu.steady hm
  have h' := steady_answers hu'.steady (htwin.mounted.trans hm)
  have hc := htwin.content
  refine ⟨fun max => ?_, ?_, fun outSize => ?_⟩
  · rw [h.read, h'.read, hc.fileBytes hu.consistent path.noNul]
  · rw [h.stat, h'.stat, hc.fileStat hu.consistent]
  · rw [h.list, h'.list, hc.dirListing hu.consistent]

end Formatting

def writtenDevice : Device := { smallDevice with log := [(82, rootBlock)] }

section Written

variable {path : CString} {data : Buffer}
  (hcreate : (s.call (lowered (k64XfsCreate path 0o644 0 0))).1.isSome = true)
  (hwrite : ((s.call (lowered (k64XfsCreate path 0o644 0 0))).2.call
    (lowered (k64XfsWriteFile path data.bytes 0 0))).1.isSome = true)

include hcreate hwrite

theorem each_written (h : Closed total s)
    (h' : Closed total (s.call (lowered (k64XfsCreate path 0o644 0 0))).2)
    (hsector : WholeSectors dev) (ht : total ≤ xfsFsBlocks dev) :
    Each Settles dev s [.operation (.create path 0o644 0 0), .operation (.writeFile path data 0 0),
      .readFile path 1] :=
  ⟨succeeded_settles h nofun hsector ht hcreate, nofun,
    succeeded_settles (a := .operation (.writeFile path data 0 0)) h' nofun hsector ht hwrite, nofun,
    quiet_settles (by simp) (by simp) _⟩

theorem answers_written {bytes : List UInt8}
    (hread : fileRead ((s.call (lowered (k64XfsCreate path 0o644 0 0))).2.call
      (lowered (k64XfsWriteFile path data.bytes 0 0))).2 path 1 = some bytes) :
    answers dev s [.operation (.create path 0o644 0 0), .operation (.writeFile path data 0 0),
      .readFile path 1] = [some .done, some .done, some (.bytes bytes)] := by
  obtain ⟨x, hx⟩ := Option.isSome_iff_exists.mp hcreate
  obtain ⟨y, hy⟩ := Option.isSome_iff_exists.mp hwrite
  rw [fileRead] at hread
  simp only [answers, reply, PublicCall.proc, Operation.call, hx, hy, hread, Option.map_some]

end Written

/-- A file is created, written and read on a device with something in block 82, which holds the root
directory, and on an empty one. -/
theorem written_forgotten :
    answers smallDevice.toGeometry (freshSystem writtenDevice) [.operation (.create fileA 0o644 0 0),
        .operation (.writeFile fileA byteSeven 0 0), .readFile fileA 1] =
      [some .done, some .done, some (.bytes [7])] := by
  have hfresh : FreshMount ⟨[], by simp⟩ (blankSystem writtenDevice) (freshSystem writtenDevice) :=
    (format_mount (s := blankSystem writtenDevice) ⟨[], by simp⟩ (by decide) (by decide) (by decide)
      fun _ => rfl).1
  rw [show smallDevice.toGeometry = System.geometry (blankSystem smallDevice) from rfl]
  obtain ⟨total, hclosed, hcreated, -, hsector, ht⟩ := small_closed
  obtain ⟨hsame, -⟩ := format_forgets fresh_smallDevice hfresh (fun _ => rfl) (fun _ => rfl) (by decide)
    rfl _ (each_written created_written.1 created_written.2 hclosed hcreated hsector ht)
  exact hsame.trans (answers_written created_written.1 created_written.2 (written_bytes 1))

end XfsTransactions
