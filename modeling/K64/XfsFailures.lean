import K64.XfsFileMap

/-! # Failing calls

A call that fails should leave the logical filesystem as it was. Four exits do not: a new inode whose
entry finds no place, a file whose old blocks are given back before the new ones are found, a
new file whose data finds no place, and any metadata write that a full journal refuses. A call that
comes to none of them is all or nothing, in every run of such calls. -/
namespace XfsFailures

open ByteCodec IoProgram XfsFormat XfsCache XfsCacheRefinement XfsJournal XfsInode XfsCalls
  XfsDirectory XfsOperations XfsLogicalDisk XfsVolume XfsVolumeRefinement XfsConsistency XfsLookup
  XfsPaths XfsDirectoryUpdate XfsContentChanges XfsOperationEffects XfsUnlinkEffects
  XfsEffectsConsistent XfsRenameEffect XfsMounting XfsFormatting XfsSystem XfsRuns XfsSmallVolume
  XfsVolumeLifecycle XfsChecking

/-- What the blocks of the volume hold, read through the cache. -/
def shown (s : System) : Content where
  total := s.fs.super.totalBlocks.toNat
  freeBlocks := s.fs.super.freeBlocks
  inodeUsed id := xfsBitmapGet (view s.machine s.fs.super.inodeBitmapStart.toNat) (id - 1)
  blockUsed b := xfsBitmapGet (view s.machine s.fs.super.blockBitmapStart.toNat) b
  inode id := (view s.machine (s.fs.super.inodeTableStart.toNat + (id - 1) / 11)).record inodeCodec
    ((id - 1) % 11 * 372)
  data b := view s.machine b

/-- Nothing outside of the inode table and the volume. -/
def clip (c : Content) : Content where
  total := c.total
  freeBlocks := c.freeBlocks
  inodeUsed id := decide (1 ≤ id ∧ id ≤ 512) && c.inodeUsed id
  blockUsed b := decide (b < c.total) && c.blockUsed b
  inode id := if 1 ≤ id ∧ id ≤ 512 then c.inode id else Inode.zero
  data b := if 82 ≤ b ∧ b < c.total then c.data b else Block.zero

/-- The logical filesystem as the cache shows it. -/
def content (s : System) : Content := clip (shown s)

def volumeOf (s : System) : Volume :=
  ⟨content s, s.fs.mounted, s.fs.super.generation, s.fs.journalActive, s.fs.journalRecords.toNat⟩

structure Agree (c c' : Content) : Prop where
  total : c'.total = c.total
  freeBlocks : c'.freeBlocks = c.freeBlocks
  inodeUsed : ∀ id, 1 ≤ id → id ≤ 512 → c'.inodeUsed id = c.inodeUsed id
  blockUsed : ∀ b < c.total, c'.blockUsed b = c.blockUsed b
  inode : ∀ id, 1 ≤ id → id ≤ 512 → c'.inode id = c.inode id
  data : ∀ b, 82 ≤ b → b < c.total → c'.data b = c.data b

variable {total : ℕ} {s t u : System} {V V' : Volume} {c c' : Content} {label : CString}

theorem Agree.used (h : Agree c c') (id : ℕ) : Used c' id ↔ Used c id := by
  constructor
  · exact fun hu => ⟨hu.pos, hu.le, (h.inodeUsed id hu.pos hu.le).symm.trans hu.bit⟩
  · exact fun hu => ⟨hu.pos, hu.le, (h.inodeUsed id hu.pos hu.le).trans hu.bit⟩

theorem Agree.record (h : Agree c c') {id : ℕ} (hu : Used c id) : c'.inode id = c.inode id :=
  h.inode id hu.pos hu.le

theorem Agree.dataOf (h : Agree c c') {i : Inode} (hf : Inode.Fits c.total i)
    (ht : c.total ≤ 32768) (b : ℕ) : c'.dataOf i b = c.dataOf i b := by
  unfold Content.dataOf
  cases hl : Inode.lookup i b with
  | none => rfl
  | some n =>
    obtain ⟨h82, hlt⟩ := lookup_fits hf hl (by omega)
    exact h.data n h82 hlt

theorem Agree.live (h : Agree c c') (hc : Consistent c) {dir b s : ℕ} {e : Dirent}
    (hl : Live c' dir b s e) : Live c dir b s e := by
  have hu := (h.used dir).mp hl.used
  have hi := h.record hu
  refine ⟨hu, hi ▸ hl.isDir, hi ▸ hl.block, hl.slot, ?_, hl.id⟩
  rw [← hl.entry, hi, h.dataOf (hc.fits dir hu.pos hu.le) hc.small]

theorem Agree.consistent (h : Agree c c') (hc : Consistent c) : Consistent c' := by
  have hspare : spare c' = spare c := by
    unfold spare
    rw [h.total]
    refine List.countP_congr fun b hb => ?_
    have := List.mem_range'_1.mp hb
    rw [h.blockUsed b (by have := hc.large; omega)]
  have hfits : ∀ id, 1 ≤ id → id ≤ 512 → Inode.Fits c'.total (c'.inode id) := by
    intro id h1 h2
    rw [h.total, h.inode id h1 h2]
    exact hc.fits id h1 h2
  refine ⟨⟨?_, ?_, ?_, ?_, ?_, hfits, ?_, ?_, ?_, ?_⟩, ?_⟩
  · rw [h.total]
    exact hc.large
  · rw [h.total]
    exact hc.small
  · rw [h.freeBlocks, hspare]
    exact hc.free
  · rw [h.inodeUsed 1 (by decide) (by decide)]
    exact hc.rootUsed
  · rw [h.inode 1 (by decide) (by decide)]
    exact hc.rootDir
  · intro id hu
    rw [h.inode id hu.pos hu.le]
    exact hc.valid id ((h.used id).mp hu)
  · intro id hu
    rw [h.inode id hu.pos hu.le]
    exact hc.shape id ((h.used id).mp hu)
  · intro id hu b hb
    rw [h.inode id hu.pos hu.le] at hb
    rw [h.blockUsed b (blocks_fit (hc.fits id hu.pos hu.le) hb).2]
    exact hc.marked id ((h.used id).mp hu) b hb
  · intro id id' hu hu' b hb hb'
    rw [h.inode id hu.pos hu.le] at hb
    rw [h.inode id' hu'.pos hu'.le] at hb'
    exact hc.owner id id' ((h.used id).mp hu) ((h.used id').mp hu') b hb hb'
  · refine hc.toLinked.fewer (fun _ _ _ _ hl => h.live hc hl) fun _ _ _ _ _ hok => ?_
    have hu := (h.used _).mpr hok.used
    exact ⟨hok.made, hu, hok.notRoot, by rw [h.inode _ hu.pos hu.le]; exact hok.type⟩

theorem Agree.clip_eq (h : Agree c c') : clip c' = clip c := by
  unfold clip
  congr 1
  · exact h.total
  · exact h.freeBlocks
  · funext id
    by_cases hid : 1 ≤ id ∧ id ≤ 512
    · rw [h.inodeUsed id hid.1 hid.2]
    · rw [decide_eq_false hid, Bool.false_and, Bool.false_and]
  · funext b
    rw [h.total]
    by_cases hb : b < c.total
    · rw [h.blockUsed b hb]
    · rw [decide_eq_false hb, Bool.false_and, Bool.false_and]
  · funext id
    split
    case isTrue hid => exact h.inode id hid.1 hid.2
    case isFalse => rfl
  · funext b
    rw [h.total]
    split
    case isTrue hb => exact h.data b hb.1 hb.2
    case isFalse => rfl

theorem agree_clip (c : Content) : Agree c (clip c) where
  total := rfl
  freeBlocks := rfl
  inodeUsed id h1 h2 := by simp [clip, h1, h2]
  blockUsed b hb := by simp [clip, hb]
  inode id h1 h2 := if_pos ⟨h1, h2⟩
  data b h82 hb := if_pos ⟨h82, hb⟩

theorem shows_content {d : Disk} (hrep : Represents journalArea s.machine d) (hs : Shows s.fs d V) :
    content s = clip V.content := by
  refine Agree.clip_eq ?_
  have hst := hs.stores
  have hone : s.fs.super.inodeBitmapStart.toNat = 1 := by rw [hs.layout.inodeBitmapStart]; rfl
  have htwo : s.fs.super.blockBitmapStart.toNat = 2 := by rw [hs.layout.blockBitmapStart]; rfl
  have htable : s.fs.super.inodeTableStart.toNat = 35 := by rw [hs.layout.inodeTableStart]; rfl
  refine ⟨hs.total, hs.free, fun id h1 h2 => ?_, fun b hb => ?_, fun id h1 h2 => ?_,
    fun b h82 hb => ?_⟩
  · dsimp only [shown]
    rw [hone, hrep.cached 1 (by decide)]
    exact hst.inodeUsed id h1 h2
  · dsimp only [shown]
    rw [htwo, hrep.cached 2 (by decide)]
    exact hst.blockUsed b hb
  · dsimp only [shown]
    rw [htable, hrep.cached _ (by simp [journalArea])]
    exact hst.inode id h1 h2
  · dsimp only [shown]
    rw [hrep.cached b (by simp [journalArea]; omega)]
    exact hst.data b h82 hb

theorem shows_agree {d : Disk} (hrep : Represents journalArea s.machine d) (hs : Shows s.fs d V) :
    Agree V.content (content s) := by
  rw [shows_content hrep hs]
  exact agree_clip _

theorem holds_agree (h : XfsSystem.Holds total s V) : Agree V.content (content s) := by
  obtain ⟨d, -, hrep, hs, -⟩ := h
  exact shows_agree hrep hs

theorem holds_volumeOf (h : XfsSystem.Holds total s V) : XfsSystem.Holds total s (volumeOf s) := by
  have hag := holds_agree h
  obtain ⟨d, hsize, hrep, hs, hset⟩ := h
  have hst := hs.stores
  have hbound := hs.bounded
  rw [← hs.records] at hbound
  refine ⟨d, hsize, hrep, ⟨hs.layout, ⟨?_, ?_, ?_, ?_, ?_, ?_, ?_⟩, rfl, rfl, rfl, rfl, rfl, rfl,
    hbound⟩, fun hm => hset (hs.mounted.symm.trans hm)⟩
  · exact hst.size_eq.trans hag.total.symm
  · exact hst.large.trans_eq hag.total.symm
  · exact hag.total.le.trans hst.small
  · exact fun id h1 h2 => (hst.inodeUsed id h1 h2).trans (hag.inodeUsed id h1 h2).symm
  · intro b hb
    have hb : b < V.content.total := hag.total ▸ hb
    exact (hst.blockUsed b hb).trans (hag.blockUsed b hb).symm
  · exact fun id h1 h2 => (hst.inode id h1 h2).trans (hag.inode id h1 h2).symm
  · intro b h82 hb
    have hb : b < V.content.total := hag.total ▸ hb
    exact (hst.data b h82 hb).trans (hag.data b h82 hb).symm

/-- The directory has a free slot, or an extent and a block to grow by. -/
def EntryRoom (c : Content) (dir : Inode) : Prop :=
  freeSlot c dir ≠ none ∨ dir.extentCount.toNat < 8 ∧ allocRun c 1 ≠ none

/-- Where `xfs_create_at` finds an inode, and a block if it needs one, the entry finds a place. -/
def CreateRoom (c : Content) (path : List UInt8) (type : UInt16) : Prop :=
  ∀ parent leaf, creatable c path = some (parent, leaf) → c.spareInode ≠ none →
    if type = typeDirectory then ∀ n, allocRun c 1 = some n → EntryRoom (c.takeRun n 1) parent
    else EntryRoom c parent

/-- The blocks left when the directory has got one more entry. -/
def entryTaken (c : Content) (dir : Inode) : Content :=
  match freeSlot c dir, allocRun c 1 with
  | none, some n => c.takeRun n 1
  | _, _ => c

/-- A file that has blocks finds a run for the new data once they are given back. -/
def OverwriteRoom (c : Content) (inode : Inode) (data : List UInt8) : Prop :=
  inode.type = typeRegular → 0 < blocksFor data → blocksFor data ≤ 2 ^ 32 - 1 →
    Inode.extents inode ≠ [] →
    allocRun (dropExtents c (Inode.extents inode)) (blocksFor data) ≠ none

/-- A new file gets its entry, and then finds a run for its data. -/
def WriteRoom (c : Content) (path data : List UInt8) : Prop :=
  match resolve c path with
  | some (_, inode) => OverwriteRoom c inode data
  | none => CreateRoom c path typeRegular ∧ ∀ parent leaf, creatable c path = some (parent, leaf) →
      c.spareInode ≠ none → 0 < blocksFor data →
      allocRun (entryTaken c parent) (blocksFor data) ≠ none

/-- No exit of the operation that leaves a change behind is taken. -/
def Provided (c : Content) : Operation → Prop
  | .mkdir path _ _ _ => CreateRoom c path.bytes typeDirectory
  | .create path _ _ _ => CreateRoom c path.bytes typeRegular
  | .writeFile path data _ _ => WriteRoom c path.bytes data.bytes
  | .truncate path newSize => ∀ id inode data, resolve c path.bytes = some (id, inode) →
      inode.type = typeRegular → truncateData c path.bytes inode newSize.toNat = some data →
      OverwriteRoom c inode data
  | _ => True

theorem added_room {dir : ℕ} (h : Consistent c) (hu : Used c dir)
    (hd : (c.inode dir).type = typeDirectory) (hdata : ∀ b, c'.dataOf (c.inode dir) b =
      c.dataOf (c.inode dir) b) (hroom : EntryRoom c' (c.inode dir)) (e : Dirent) :
    added c' (c.inode dir) e ≠ none := by
  have hsmall := h.small
  have hslot : freeSlot c' (c.inode dir) = freeSlot c (c.inode dir) := freeFrom_congr hdata _ _
  unfold added
  rw [hslot]
  cases hs : freeSlot c (c.inode dir) with
  | some slot =>
    obtain ⟨b, k⟩ := slot
    have hshape := h.shape dir hu
    obtain ⟨ex, hex⟩ := exists_extent hshape (freeSlot_some h hu hd hs).1
    dsimp only
    rw [lookup_dir hshape (hshape.dir hd) (h.fits dir hu.pos hu.le) (by omega) hex]
    exact Option.some_ne_none _
  | none =>
    rcases hroom with hroom | ⟨hfew, halloc⟩
    · exact absurd (hslot.trans hs) hroom
    · dsimp only
      rw [if_neg (by omega)]
      simpa using halloc

theorem freeSlot_congr {dir : Inode} (hdata : ∀ b, c'.dataOf dir b = c.dataOf dir b) :
    freeSlot c' dir = freeSlot c dir := freeFrom_congr hdata _ _

theorem EntryRoom.congr {dir : Inode} (hdata : ∀ b, c'.dataOf dir b = c.dataOf dir b)
    (halloc : allocRun c' 1 = allocRun c 1) (h : EntryRoom c dir) : EntryRoom c' dir := by
  unfold EntryRoom at h ⊢
  rwa [freeSlot_congr hdata, halloc]

variable {path : List UInt8} {mode uid gid : UInt32} {generation : UInt64}

theorem create_unbroken {type : UInt16} (h : Consistent c) (h0 : (0 : UInt8) ∉ path)
    (hroom : CreateRoom c path type) :
    createEffect c generation path type mode uid gid ≠ .broken := by
  intro he
  unfold createEffect at he
  split at he
  · cases he
  next parent leaf hcr =>
    split at he
    · cases he
    next id hspare =>
      dsimp only at he
      split at he
      · cases he
      next k c₁ hprep =>
        have hneed := hroom parent leaf hcr (by rw [hspare]; exact Option.some_ne_none _)
        obtain ⟨parentPath, parentId, hat⟩ := creatable_some hcr
        obtain ⟨-, -, -, -, hp0⟩ := split_parent_some h0 hat.split
        obtain ⟨hu, rfl, -, -⟩ := resolve_used h hp0 hat.resolved
        have hdata := fun b => prepared_dataOf h hprep hu b
        have hroom₁ : EntryRoom c₁ (c.inode parentId.toNat) := by
          unfold prepared at hprep
          split at hprep
          case isTrue ht =>
            rw [if_pos ht] at hneed
            obtain ⟨n, hn, heq⟩ := Option.map_eq_some_iff.mp hprep
            obtain ⟨-, rfl⟩ := Prod.mk.inj heq
            exact EntryRoom.congr (c := c.takeRun n 1) hdata rfl (hneed n hn)
          case isFalse ht =>
            rw [if_neg ht] at hneed
            obtain ⟨-, rfl⟩ := Prod.mk.inj (Option.some.inj hprep)
            exact EntryRoom.congr hdata rfl hneed
        split at he
        next hadd => exact added_room h hu hat.isDir hdata hroom₁ _ hadd
        next => cases he

variable {inode : Inode} {data : List UInt8}

theorem overwrite_unbroken (hroom : OverwriteRoom c inode data) :
    overwriteEffect c generation inode data uid gid ≠ .broken := by
  intro he
  unfold overwriteEffect at he
  split at he
  · cases he
  next hok =>
    rw [not_or, not_not, Nat.not_lt] at hok
    dsimp only at he
    split at he
    · cases he
    next hpos =>
      split at he
      · cases he
      next hnone =>
        split at he
        · cases he
        next hext => exact hroom hok.1 (Nat.pos_of_ne_zero hpos) hok.2 hext hnone

variable {c₁ : Content}

theorem created_extents {id parent j : ℕ} {leaf : List UInt8} (h : Consistent c)
    (hspare : c.spareInode = some id)
    (hc₁ : c₁ = freshFile c (newInode generation (UInt32.ofNat id) typeRegular mode uid gid))
    (hu : Used c parent) (hd : (c.inode parent).type = typeDirectory) (hleaf : NameOk leaf)
    (hnew : dirFind c (c.inode parent) leaf = none)
    (hadd : added c₁ (c.inode parent) (makeDirent leaf (UInt32.ofNat id) typeRegular) =
      some (j, c')) : Inode.extents (c'.inode id) = [] := by
  obtain ⟨-, -, hbit, htoNat, hid0⟩ := spareInode_some hspare
  have hp : PreparedInode c c₁ id typeRegular := hc₁ ▸ freshFile_prepared h hspare rfl
  have hne : parent ≠ id := by
    rintro rfl
    exact absurd (hbit.symm.trans hu.bit) (by decide)
  have hpar : c₁.inode parent = c.inode parent := hp.keeps.inode parent hne hu
  have hentry := fresh_entry h hp hspare hu hleaf hnew
  rw [← hpar] at hadd hd
  obtain ⟨hadded, -⟩ := added_entry hp.consistent ((hp.keeps.used parent hne).mpr hu) hd hentry hid0
    hadd
  have hrecord : c₁.inode id =
      Inode.sealed (newInode generation (UInt32.ofNat id) typeRegular mode uid gid) := by
    rw [hc₁, freshFile, Content.setInode]
    dsimp only
    rw [show (newInode generation (UInt32.ofNat id) typeRegular mode uid gid).inodeId.toNat = id
      from htoNat, Function.update_self]
  rw [hadded.keeps.inode id hne.symm hp.used, hrecord]
  rfl

theorem added_alloc {dir : Inode} {e : Dirent} {k : ℕ}
    (hdata : ∀ b, c₁.dataOf dir b = c.dataOf dir b) (hc₁ : ∀ n, allocRun c₁ n = allocRun c n)
    (htake : ∀ m n, allocRun (c₁.takeRun m 1) n = allocRun (c.takeRun m 1) n)
    (hadd : added c₁ dir e = some (k, c')) (n : ℕ) :
    allocRun c' n = allocRun (entryTaken c dir) n := by
  unfold entryTaken
  rw [← freeSlot_congr hdata]
  obtain ⟨b, s, m, hslot, -, -, rfl⟩ | ⟨m, hslot, -, hm, -, rfl⟩ := added_cases hadd
  · rw [hslot]
    exact hc₁ n
  · rw [hslot, ← hc₁ 1, hm]
    exact htake m n

theorem created_file {k : ℕ}
    (h : Consistent c) (h0 : (0 : UInt8) ∉ path)
    (he : createEffect c generation path typeRegular mode uid gid = .done k c') :
    ∃ parent leaf id, creatable c path = some (parent, leaf) ∧ c.spareInode ≠ none ∧
      resolve c' path = some (UInt32.ofNat id, c'.inode id) ∧
      (c'.inode id).type = typeRegular ∧ Inode.extents (c'.inode id) = [] ∧
      ∀ n, allocRun c' n = allocRun (entryTaken c parent) n := by
  unfold createEffect at he
  split at he
  · cases he
  next parent leaf hcr =>
    split at he
    · cases he
    next id hspare =>
      dsimp only at he
      split at he
      · cases he
      next j c₁ hprep =>
        split at he
        · cases he
        next hadd =>
          cases he
          have hprep' := hprep
          obtain ⟨parentPath, parentId, hsplit, hres, hdir, habs⟩ := creatable_some hcr
          obtain ⟨hhead, -, hleaf, htok, hp0⟩ := split_parent_some h0 hsplit
          obtain ⟨hu, rfl, -, hloc⟩ := resolve_used h hp0 hres
          have hcreated := created h (prepared_inode h hspare rfl (Or.inl rfl) hprep) hspare hu hdir
            hleaf habs hadd
          have hat : CreatedAt c c' path typeRegular parentId.toNat id _ leaf :=
            ⟨hcreated, hhead, htok, hloc, hdir, hleaf⟩
          rw [prepared, if_neg (show typeRegular ≠ typeDirectory by decide)] at hprep'
          obtain ⟨-, hc₁⟩ := Prod.mk.inj (Option.some.inj hprep')
          refine ⟨_, leaf, id, hcr, by rw [hspare]; exact Option.some_ne_none _,
            hat.resolve h h0, hcreated.type,
            created_extents h hspare hc₁.symm hu hdir hleaf habs hadd, ?_⟩
          refine added_alloc (fun b => prepared_dataOf h hprep hu b) ?_ ?_ hadd
          · intro n
            rw [← hc₁]
            rfl
          · intro m n
            rw [← hc₁]
            rfl

theorem overwrite_new (generation : UInt64) (uid gid : UInt32)
    (htype : inode.type = typeRegular) (hext : Inode.extents inode = [])
    (hroom : 0 < blocksFor data → allocRun c (blocksFor data) ≠ none) :
    ∃ c', overwriteEffect c generation inode data uid gid = .done 1 c' := by
  by_cases hpos : blocksFor data = 0
  · rw [overwriteEffect, if_neg (by rw [hpos, htype]; simp), if_pos hpos]
    exact ⟨_, rfl⟩
  · obtain ⟨start, hstart⟩ := Option.ne_none_iff_exists'.mp (hroom (Nat.pos_of_ne_zero hpos))
    have hlarge : ¬ 2 ^ 32 - 1 < blocksFor data := by
      intro hbig
      rw [allocRun, if_pos (Or.inr (Or.inl hbig))] at hstart
      cases hstart
    rw [overwriteEffect, if_neg (by rw [htype]; simpa using hlarge), if_neg hpos, hext]
    simp only [dropExtents, hstart]
    exact ⟨_, rfl⟩

theorem write_unbroken
    (h : Consistent c) (h0 : (0 : UInt8) ∉ path) (hroom : WriteRoom c path data) :
    writeEffect c generation path data uid gid ≠ .broken := by
  intro he
  unfold writeEffect at he
  unfold WriteRoom at hroom
  split at he
  next id inode hres =>
    rw [hres] at hroom
    exact overwrite_unbroken hroom he
  next hres =>
    rw [hres] at hroom
    obtain ⟨hcreate, hdata⟩ := hroom
    split at he
    next k c₁ hdone =>
      obtain ⟨parent, leaf, id, hcr, hspare, hfound, htype, hext, halloc⟩ := created_file h h0 hdone
      rw [hfound] at he
      dsimp only at he
      split at he
      · cases he
      next hover =>
        obtain ⟨c₂, hc₂⟩ := overwrite_new (c := c₁) (generation + 1) uid gid htype hext
          (fun hpos => by rw [halloc]; exact hdata parent leaf hcr hspare hpos)
        exact hover 1 c₂ hc₂
    next effect hnot => exact create_unbroken h h0 hcreate he

theorem unlink_unbroken {leaf : List UInt8} {parentId inodeId : UInt32} {parent : Inode}
    (h : Consistent c) (h0 : (0 : UInt8) ∉ path) (wipe : Bool)
    (hent : entryAt c path = some (parentId, parent, leaf, inodeId, inode)) :
    unlinkEffect c parent leaf inodeId inode wipe ≠ .broken := by
  obtain ⟨rfl, rfl, names, e, b, s, n, hat⟩ := entryAt_some h h0 hent
  rw [unlinkEffect, hat.found]
  dsimp only
  rw [hat.stored]
  rintro ⟨⟩

theorem effect_unbroken {op : Operation} (h : Consistent c)
    (hop : Provided c op) : op.effect c generation ≠ .broken := by
  cases op with
  | mkdir path mode uid gid => exact create_unbroken h path.noNul hop
  | create path mode uid gid => exact create_unbroken h path.noNul hop
  | writeFile path data uid gid => exact write_unbroken h path.noNul hop
  | truncate path newSize =>
    rw [Operation.effect, truncateEffect]
    split
    · rintro ⟨⟩
    next id inode hres =>
      split
      · rintro ⟨⟩
      next hreg =>
        split
        · rintro ⟨⟩
        next data hdata =>
          refine write_unbroken h path.noNul ?_
          rw [WriteRoom, hres]
          exact hop id inode data hres (not_not.mp hreg) hdata
  | remove path =>
    rw [Operation.effect, removeEffect]
    split
    · rintro ⟨⟩
    next hent =>
      split
      · exact unlink_unbroken h path.noNul true hent
      · rintro ⟨⟩
  | rmdir path =>
    rw [Operation.effect, rmdirEffect]
    split
    · rintro ⟨⟩
    next hent =>
      split
      · exact unlink_unbroken h path.noNul false hent
      · rintro ⟨⟩
  | rename oldPath newPath => exact rename_unbroken h oldPath.noNul newPath.noNul
  | chmod path mode =>
    rw [Operation.effect, changeEffect]
    split <;> rintro ⟨⟩
  | chown path uid gid =>
    rw [Operation.effect, changeEffect]
    split <;> rintro ⟨⟩

/-- No half-done exit is ahead: an open transaction is at its beginning, and an operation is provided
for. -/
def Ready (s : System) (call : PublicCall) : Prop :=
  s.fs.mounted = true → (s.fs.journalActive = true → s.fs.journalRecords.toNat ≤ 4) ∧
    ∀ op, call = .operation op → Provided (content s) op

/-- A sequence of public calls, each of which meets the condition in the state it finds. -/
inductive RunWhere (ok : System → PublicCall → Prop) (dev : Geometry) : System → System → Prop where
  | refl (s : System) : RunWhere ok dev s s
  | step {s t : System} {call : PublicCall} (met : ok s call)
      (proper : call = .mount → s.fs.mounted = false)
      (tail : RunWhere ok dev (s.call (call.proc dev)).2 t) : RunWhere ok dev s t

structure Sound (total : ℕ) (s : System) : Prop where
  holds : XfsSystem.Holds total s (volumeOf s)
  consistent : Consistent (content s)

theorem sound_of_holds (h : XfsSystem.Holds total s V) (hc : Consistent V.content) :
    Sound total s :=
  ⟨holds_volumeOf h, (holds_agree h).consistent hc⟩

theorem shown_consistent {call : PublicCall} {ok : Bool} (hc : Consistent V.content)
    (hop : V.mounted = true → ∀ op, call = .operation op → Provided V.content op)
    (h : call.Shown V ok V') : Consistent V'.content := by
  obtain ⟨op, r, rfl, hm, -, hshown⟩ | ⟨hcontent, -⟩ := h.cases
  · cases he : op.effect V.content V.generation with
    | failed begun c =>
      rw [he] at hshown
      obtain ⟨-, n, rfl⟩ := hshown
      exact (failed_same hc he).1
    | broken => exact absurd he (effect_unbroken hc (hop hm op rfl))
    | done k c =>
      rw [he] at hshown
      obtain ⟨-, n, rfl⟩ := hshown
      exact done_consistent hc he
  · rw [hcontent]
    exact hc

theorem ready_room {a : PublicCall} (hready : Ready s a) (hm : (volumeOf s).mounted = true) :
    Room 12 (volumeOf s) := by
  refine ⟨hm, fun ha => ?_⟩
  exact Nat.add_le_add_right ((hready hm).1 ha) 12

variable {dev : Geometry}

theorem ready_step {a : PublicCall} (h : Sound total s) (hready : Ready s a)
    (hp : a = .mount → s.fs.mounted = false)
    (hsector : WholeSectors dev)
    (ht : total ≤ xfsFsBlocks dev) :
    Sound total (s.call (a.proc dev)).2 ∧ ∃ V', XfsSystem.Holds total (s.call (a.proc dev)).2 V' ∧
      a.Shown (volumeOf s) (s.call (a.proc dev)).1.isSome V' := by
  obtain ⟨V', hV', hshown⟩ := call_shown h.holds h.consistent (ready_room hready) hp hsector ht
  have hcons := shown_consistent (V := volumeOf s) h.consistent (fun hm => (hready hm).2) hshown
  exact ⟨sound_of_holds hV' hcons, V', hV', hshown⟩

theorem ready_run (hrun : RunWhere Ready dev s t)
    (hsector : WholeSectors dev)
    (ht : total ≤ xfsFsBlocks dev) (h : Sound total s) : Sound total t := by
  induction hrun with
  | refl s => exact h
  | step met proper tail ih => exact ih (ready_step h met proper hsector ht).1

theorem fresh_sound (hfresh : FreshMount label s t) (hf : ∀ i, s.machine.dev.faults i = false)
    (hsmall : xfsFsBlocks (System.geometry s) ≤ 32768) :
    Sound (xfsFsBlocks (System.geometry s)) t := by
  obtain ⟨h84, -, hholds⟩ := fresh_holds hfresh hf hsmall
  exact sound_of_holds hholds (formatted_consistent s.machine.dev.block h84 hsmall)

/-- The check finds nothing wrong, also after calls that failed. -/
theorem failures_leave_nothing_wrong (hfresh : FreshMount label s t)
    (hf : ∀ i, s.machine.dev.faults i = false)
    (hsmall : xfsFsBlocks (System.geometry s) ≤ 32768)
    (hrun : RunWhere Ready (System.geometry s) t u) (hm : u.fs.mounted = true) :
    ∃ report, (u.call k64XfsCheck).1 = some report ∧ report.ok = true ∧ report.errors = 0 := by
  obtain ⟨-, hdev, -⟩ := fresh_holds hfresh hf hsmall
  have hu := ready_run hrun (sector_of_ok hdev) (Nat.le_refl _) (fresh_sound hfresh hf hsmall)
  obtain ⟨d, -, hrep, hs, -⟩ := hu.holds
  obtain ⟨d', -, -, -, hchecked⟩ := call_of_wp hrep (check_disk hu.consistent hs hm)
  exact ⟨_, hchecked, rfl, rfl⟩

theorem creatable_root (c : Content) : creatable c [slash] = none := by
  rw [creatable, show xfsSplitParent [slash] = none by decide]
  rfl

def rootPath : CString := ⟨[slash], by decide⟩

theorem mkdir_root_fails (h : Sound total s) (hm : s.fs.mounted = true)
    (ha : s.fs.journalActive = false)
    (hsector : WholeSectors dev)
    (ht : total ≤ xfsFsBlocks dev) :
    Ready s (.operation (.mkdir rootPath 0 0 0)) ∧
      (s.call (lowered (k64XfsMkdir rootPath 0 0 0))).1 = none ∧
      (s.call (lowered (k64XfsMkdir rootPath 0 0 0))).2.fs.mounted = true := by
  have hready : Ready s (.operation (.mkdir rootPath 0 0 0)) := by
    refine fun hm => ⟨fun ha' => ?_, fun op hop => ?_⟩
    · rw [ha] at ha'
      cases ha'
    · obtain rfl := PublicCall.operation.inj hop
      intro parent leaf hcr
      rw [show rootPath.bytes = [slash] from rfl, creatable_root] at hcr
      cases hcr
  obtain ⟨-, V', ⟨d, -, -, hs, -⟩, hshown⟩ := ready_step h hready nofun hsector ht
  rw [PublicCall.Shown, if_pos (show (volumeOf s).mounted = true from hm)] at hshown
  obtain ⟨r, hr, hshown⟩ := hshown
  rw [Operation.effect, createEffect, show rootPath.bytes = [slash] from rfl, creatable_root] at hshown
  obtain ⟨rfl, n, rfl⟩ := hshown
  exact ⟨hready, Option.isNone_iff_eq_none.mp (Option.isSome_eq_false_iff.mp hr), hs.mounted.trans hm⟩

/-- A directory that cannot be made, and its transaction, which stays open. -/
theorem failed_mkdir_nothing_wrong :
    ((freshSystem smallDevice).call (lowered (k64XfsMkdir rootPath 0 0 0))).1 = none ∧
    ∃ report, (((freshSystem smallDevice).call (lowered (k64XfsMkdir rootPath 0 0 0))).2.call
      k64XfsCheck).1 = some report ∧ report.ok = true ∧ report.errors = 0 := by
  have hsmall : xfsFsBlocks (System.geometry (blankSystem smallDevice)) ≤ 32768 := by decide
  obtain ⟨-, hdev, d, -, -, hs, -⟩ := fresh_holds fresh_smallDevice (fun _ => rfl) hsmall
  obtain ⟨hready, hfail, hm⟩ := mkdir_root_fails (fresh_sound fresh_smallDevice (fun _ => rfl) hsmall)
    hs.mounted hs.active (sector_of_ok hdev) (Nat.le_refl _)
  exact ⟨hfail, failures_leave_nothing_wrong fresh_smallDevice (fun _ => rfl) hsmall
    (.step hready nofun (.refl _)) hm⟩

/-- The bitmaps, the free count, the records of used inodes and the marked blocks, which hold the
directory entries and the bytes of the files, are what they were. -/
structure SameFilesystem (c c' : Content) : Prop where
  total : c'.total = c.total
  freeBlocks : c'.freeBlocks = c.freeBlocks
  inodeUsed : ∀ id, 1 ≤ id → id ≤ 512 → c'.inodeUsed id = c.inodeUsed id
  blockUsed : ∀ b < c.total, c'.blockUsed b = c.blockUsed b
  inode : ∀ id, Used c id → c'.inode id = c.inode id
  data : ∀ b, 82 ≤ b → b < c.total → c.blockUsed b = true → c'.data b = c.data b

theorem same_filesystem (h : Same c c₁) (hag : Agree c₁ c') : SameFilesystem c c' where
  total := hag.total.trans h.total
  freeBlocks := hag.freeBlocks.trans h.freeBlocks
  inodeUsed id h1 h2 := (hag.inodeUsed id h1 h2).trans (congrFun h.inodeUsed id)
  blockUsed b hb := (hag.blockUsed b (h.total.symm ▸ hb)).trans (congrFun h.blockUsed b)
  inode id hu := (hag.inode id hu.pos hu.le).trans (h.inode id hu)
  data b h82 hb hmark := (hag.data b h82 (h.total.symm ▸ hb)).trans (h.data b hmark)

/-- Whatever calls have been made of a formatted volume, as long as each was provided for: an
operation that is provided for and fails leaves the filesystem as it was. -/
theorem failing_operations_change_nothing (hfresh : FreshMount label s t)
    (hf : ∀ i, s.machine.dev.faults i = false)
    (hsmall : xfsFsBlocks (System.geometry s) ≤ 32768)
    (hrun : RunWhere Ready (System.geometry s) t u) (op : Operation)
    (hready : Ready u (.operation op)) (hfail : (u.call (lowered op.call)).1 = none) :
    SameFilesystem (content u) (content (u.call (lowered op.call)).2) := by
  obtain ⟨-, hdev, -⟩ := fresh_holds hfresh hf hsmall
  have hsector := sector_of_ok hdev
  have hu := ready_run hrun hsector (Nat.le_refl _) (fresh_sound hfresh hf hsmall)
  obtain ⟨-, V', hV', hshown⟩ := ready_step hu hready nofun hsector (Nat.le_refl _)
  have hag := holds_agree hV'
  change (PublicCall.operation op).Shown (volumeOf u) (u.call (lowered op.call)).1.isSome V' at hshown
  rw [hfail, PublicCall.Shown] at hshown
  split at hshown
  case isFalse =>
    obtain ⟨-, rfl⟩ := hshown
    exact same_filesystem (Same.refl _) hag
  case isTrue hm =>
    obtain ⟨r, hr, hshown⟩ := hshown
    cases he : op.effect (volumeOf u).content (volumeOf u).generation with
    | failed begun c =>
      rw [he] at hshown
      obtain ⟨-, n, rfl⟩ := hshown
      exact same_filesystem (failed_same hu.consistent he).2 hag
    | broken => exact absurd he (effect_unbroken hu.consistent ((hready hm).2 op rfl))
    | done k c =>
      rw [he] at hshown
      rw [hshown.1] at hr
      cases hr

theorem mkdir_root_changes_nothing :
    ((freshSystem smallDevice).call (lowered (k64XfsMkdir rootPath 0 0 0))).1 = none ∧
      SameFilesystem (content (freshSystem smallDevice))
        (content ((freshSystem smallDevice).call (lowered (k64XfsMkdir rootPath 0 0 0))).2) := by
  have hsmall : xfsFsBlocks (System.geometry (blankSystem smallDevice)) ≤ 32768 := by decide
  obtain ⟨-, hdev, hholds⟩ := fresh_holds fresh_smallDevice (fun _ => rfl) hsmall
  obtain ⟨d, -, -, hs, -⟩ := hholds
  obtain ⟨hready, hfail, -⟩ := mkdir_root_fails (fresh_sound fresh_smallDevice (fun _ => rfl) hsmall)
    hs.mounted hs.active (sector_of_ok hdev) (Nat.le_refl _)
  exact ⟨hfail, failing_operations_change_nothing fresh_smallDevice (fun _ => rfl) hsmall (.refl _)
    (.mkdir rootPath 0 0 0) hready hfail⟩

theorem write_leaves_file (path : CString) (data : Buffer) {k : ℕ}
    (hc : Consistent V.content) (hr : Room 12 V) (hres : resolve V.content path.bytes = none)
    (hcreate : createEffect V.content V.generation path.bytes typeRegular 0o644 uid gid = .done k c₁)
    (hpos : 0 < blocksFor data.bytes) (hfull : allocRun c₁ (blocksFor data.bytes) = none) :
    vwp (k64XfsWriteFile path data.bytes uid gid) (fun r V' => r = none ∧ V'.content = c₁) V := by
  obtain ⟨rfl, parent, id, names, leaf, hat⟩ := create_done hc path.noNul (Or.inl rfl) hcreate
  have hfound := hat.resolve hc path.noNul
  obtain ⟨-, -, id', -, -, hfound', -, hext, -⟩ := created_file hc path.noNul hcreate
  obtain ⟨-, hinode⟩ := Prod.mk.inj (Option.some.inj (hfound.symm.trans hfound'))
  rw [← hinode] at hext
  rw [vwp, k64XfsWriteFile, Proc.wp_bind, writeTarget, Proc.wp_bind, Proc.wp_attempt,
    wp_resolve hc.toAllocated hr.mounted, hres, Proc.wpNext_some]
  refine Proc.wp_seq (create_effect hc hr path.noNul typeRegular 0o644 uid gid) ?_ ?_
  · intro _ V' hshown
    rw [hcreate] at hshown
    exact absurd hshown.1 (by rintro ⟨⟩)
  · intro _ _ V' hshown
    rw [hcreate] at hshown
    obtain ⟨-, n, rfl⟩ := hshown
    rw [show (V.journalActive && (1 : ℕ) == 0) = false from Bool.and_false _,
      wp_resolve (V := after V false 1 n c₁) hat.consistent.toAllocated hr.mounted]
    change Proc.wpNext volume volumeGuard _ _ (resolve c₁ path.bytes) _ _
    rw [hfound, Proc.wpNext_some]
    refine Proc.wp_mono (overwrite_effect (V := after V false 1 n c₁) hat.consistent
      (room_after hr.mounted 1 n c₁) hat.used data.bounded) ?_
    intro r _ V' hshown
    have hover : ∃ begun, overwriteEffect c₁ (V.generation + 1) (c₁.inode id) data.bytes uid gid =
        .failed begun c₁ := by
      rw [overwriteEffect]
      split
      · exact ⟨false, rfl⟩
      · rw [if_neg (by omega), hext]
        simp only [dropExtents, hfull]
        exact ⟨true, rfl⟩
    obtain ⟨begun, hover⟩ := hover
    change (overwriteEffect c₁ (V.generation + 1) (c₁.inode id) data.bytes uid gid).Shown
      (after V false 1 n c₁) r V' at hshown
    rw [hover] at hshown
    obtain ⟨hnone, m, rfl⟩ := hshown
    exact ⟨hnone, rfl⟩

theorem write_two_blocks {data : ℕ → XBlock} {bytes : Buffer}
    (h : XfsSystem.Holds 84 s (mountedVolume (formatted 84 data) 1))
    (hblocks : blocksFor bytes.bytes = 2) :
    (s.call (lowered (k64XfsWriteFile ⟨pathA, by decide⟩ bytes.bytes 0 0))).1 = none ∧
      ¬ SameFilesystem (content s)
        (content (s.call (lowered (k64XfsWriteFile ⟨pathA, by decide⟩ bytes.bytes 0 0))).2) := by
  have hag := holds_agree h
  obtain ⟨d, hsize, hrep, hs, hset⟩ := h
  have hfull : allocRun (firstFile 84 data 1 0o644 0 0) (blocksFor bytes.bytes) = none := by
    rw [hblocks, allocRun, if_pos]
    exact Or.inr (Or.inr (show (UInt64.ofNat (84 - 83)).toNat < 2 by decide))
  have hpos : 0 < blocksFor bytes.bytes := by omega
  have hcons := formatted_consistent data (show 84 ≤ 84 by decide) (by decide)
  have hres : resolve (formatted 84 data) pathA = none := resolve_pathA (by decide) (by decide)
  have hwp := write_leaves_file (V := mountedVolume (formatted 84 data) 1) ⟨pathA, by decide⟩ bytes
    hcons ⟨rfl, by rintro ⟨⟩⟩ hres (create_pathA (by decide) (by decide) 1 0o644 0 0) hpos hfull
  obtain ⟨d', -, hrep', V', hs', hnone, hleft⟩ := call_of_wp hrep (lowered_of_wp hs hwp)
  refine ⟨hnone, fun hsame => ?_⟩
  have hbit := hsame.inodeUsed 2 (by decide) (by decide)
  rw [hag.inodeUsed 2 (by decide) (by decide),
    (shows_agree hrep' hs').inodeUsed 2 (by decide) (by decide), hleft] at hbit
  exact absurd hbit (show true ≠ false by decide)

def twoBlocks : Buffer := ⟨List.replicate 4097 0, by rw [List.length_replicate]; decide⟩

/-- The write fails, and leaves inode 2 behind. -/
theorem failed_write_leaves_inode :
    ((freshSystem smallDevice).call
        (lowered (k64XfsWriteFile ⟨pathA, by decide⟩ twoBlocks.bytes 0 0))).1 = none ∧
      ¬ SameFilesystem (content (freshSystem smallDevice)) (content ((freshSystem smallDevice).call
        (lowered (k64XfsWriteFile ⟨pathA, by decide⟩ twoBlocks.bytes 0 0))).2) := by
  have hsmall : xfsFsBlocks (System.geometry (blankSystem smallDevice)) ≤ 32768 := by decide
  obtain ⟨-, -, hholds⟩ := fresh_holds fresh_smallDevice (fun _ => rfl) hsmall
  rw [show xfsFsBlocks (System.geometry (blankSystem smallDevice)) = 84 by decide] at hholds
  refine write_two_blocks hholds ?_
  rw [blocksFor, twoBlocks, List.length_replicate]

end XfsFailures
