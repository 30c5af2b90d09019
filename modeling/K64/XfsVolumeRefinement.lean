import K64.XfsLogicalDisk
import K64.XfsVolume
import Mathlib.Data.List.Find

/-! # The block layer implements the typed volume

The inode, bitmap, journal and data functions, run on the logical disk, answer each call as the
typed volume does. The two are related by where the format keeps each part of the content. -/
namespace XfsVolumeRefinement

open ByteCodec IoProgram XfsFormat XfsJournal XfsInode XfsCalls XfsLogicalDisk XfsVolume

/-- The journal area, which is reached past the cache. -/
def journalArea (n : ℕ) : Bool := 3 ≤ n && n < 35

structure Layout (sb : Superblock) : Prop where
  inodeBitmapStart : sb.inodeBitmapStart = 1
  blockBitmapStart : sb.blockBitmapStart = 2
  journalStart : sb.journalStart = 3
  journalBlocks : sb.journalBlocks = 32
  inodeTableStart : sb.inodeTableStart = 35
  dataStart : sb.dataStart = 82
  rootInode : sb.rootInode = 1
  blockSize : sb.blockSize = 4096
  versionMajor : sb.versionMajor = 1
  magic : k64Strncmp sb.magic.toList xfsMagic 7 = 0

structure StoresContent (size : ℕ) (blk : ℕ → XBlock) (c : Content) : Prop where
  size_eq : size = c.total
  large : 84 ≤ c.total
  small : c.total ≤ 32768
  inodeUsed : ∀ id, 1 ≤ id → id ≤ 512 → xfsBitmapGet (blk 1) (id - 1) = c.inodeUsed id
  blockUsed : ∀ b < c.total, xfsBitmapGet (blk 2) b = c.blockUsed b
  inode : ∀ id, 1 ≤ id → id ≤ 512 →
    (blk (35 + (id - 1) / 11)).record inodeCodec ((id - 1) % 11 * 372) = c.inode id
  data : ∀ b, 82 ≤ b → b < c.total → blk b = c.data b

variable {sb : Superblock}

theorem Layout.toNat_journalStart (h : Layout sb) :
    sb.journalStart.toNat = 3 := by rw [h.journalStart]; rfl

theorem Layout.toNat_journalBlocks (h : Layout sb) :
    sb.journalBlocks.toNat = 32 := by rw [h.journalBlocks]; rfl

theorem Layout.toNat_dataStart (h : Layout sb) :
    sb.dataStart.toNat = 82 := by rw [h.dataStart]; rfl

theorem Layout.update (h : Layout sb) (freeBlocks generation : UInt64)
    (mountState checksum : UInt32) :
    Layout { sb with freeBlocks, generation, mountState, checksum } :=
  ⟨h.1, h.2, h.3, h.4, h.5, h.6, h.7, h.8, h.9, h.10⟩

structure Shows (fs : Xfs) (d : Disk) (V : Volume) : Prop where
  layout : Layout fs.super
  stores : StoresContent d.size d.blk V.content
  total : fs.super.totalBlocks.toNat = V.content.total
  free : fs.super.freeBlocks = V.content.freeBlocks
  mounted : fs.mounted = V.mounted
  generation : fs.super.generation = V.generation
  active : fs.journalActive = V.journalActive
  records : fs.journalRecords.toNat = V.journalRecords
  bounded : V.journalRecords ≤ 16

variable {fs : Xfs} {d : Disk} {V : Volume}

variable {c : Content} {size : ℕ} {blk : ℕ → XBlock}

theorem StoresContent.frame {blk' : ℕ → XBlock}
    (h : StoresContent size blk c) (hb : ∀ n, n ≠ 0 → journalArea n = false → blk' n = blk n) :
    StoresContent size blk' c := by
  refine ⟨h.size_eq, h.large, h.small, ?_, ?_, ?_, ?_⟩
  · rw [hb 1 (by decide) (by decide)]; exact h.inodeUsed
  · rw [hb 2 (by decide) (by decide)]; exact h.blockUsed
  · intro id h1 h2
    rw [hb _ (by omega) (by simp [journalArea])]
    exact h.inode id h1 h2
  · intro b h1 h2
    rw [hb b (by omega) (by simp [journalArea]; omega)]
    exact h.data b h1 h2

theorem StoresContent.setData {n : ℕ}
    (h : StoresContent size blk c) (hn : 82 ≤ n) (b : XBlock) :
    StoresContent size (Function.update blk n b) (c.setData n b) := by
  have hne : ∀ k, k < 82 → Function.update blk n b k = blk k :=
    fun k hk => Function.update_of_ne (by omega) _ _
  refine ⟨h.size_eq, h.large, h.small, ?_, ?_, ?_, ?_⟩
  · rw [hne 1 (by decide)]; exact h.inodeUsed
  · rw [hne 2 (by decide)]; exact h.blockUsed
  · intro id h1 h2
    rw [hne _ (by omega)]
    exact h.inode id h1 h2
  · intro k h1 h2
    by_cases hkn : k = n
    · simp [hkn, Content.setData]
    · simpa [hkn, Content.setData] using h.data k h1 h2

theorem Shows.withTmp (h : Shows fs d V) (b : XBlock) : Shows (fs.withTmp b) d V :=
  ⟨h.layout, h.stores, h.total, h.free, h.mounted, h.generation, h.active, h.records, h.bounded⟩

theorem Shows.withFree (h : Shows fs d V) (free : UInt64) :
    Shows (fs.withFree free) d
      (V.withContent (V.content.withFree free)) := by
  obtain ⟨hl, hs, ht, -, hm, hg, ha, hr, hb⟩ := h
  exact ⟨hl.update _ _ _ _, ⟨hs.1, hs.2, hs.3, hs.4, hs.5, hs.6, hs.7⟩, ht, rfl, hm, hg, ha, hr,
    hb⟩

abbrev dwp {α : Type} (f : XfsM α) (P : Option α → Xfs → Disk → Prop) (fs : Xfs) (d : Disk) :
    Prop := Proc.wp disk (diskGuard journalArea) f P fs d

@[simp] theorem wp_succeeds {σ : Type} {h : Handler Req Resp σ} {C : Req → σ → Prop} {s : σ}
    (f : XfsM Unit) (P : Option Bool → Xfs → σ → Prop) :
    Proc.wp h C (XfsCalls.succeeds f) P fs s ↔
      Proc.wp h C f (fun r fs' s' => P (some r.isSome) fs' s') fs s := by
  simp [XfsCalls.succeeds]

section Requests

variable {raw : ℕ → Bool} {n : ℕ}

theorem cache_read_disk (hn : n < d.size) (hj : raw n = false) :
    Proc.wp disk (diskGuard raw) (cacheRead n)
      (fun r fs' d' => r = some (d.blk n) ∧ fs' = fs ∧ d' = d) fs d := by
  simp [cacheRead, diskGuard, disk, hn, hj]

theorem block_read_tmp (hn : n < d.size) (hj : raw n = false) :
    Proc.wp disk (diskGuard raw) (xfsBlockReadTmp n)
      (fun r fs' d' => r = some (d.blk n) ∧ fs' = fs.withTmp (d.blk n) ∧ d' = d) fs d := by
  simp [xfsBlockReadTmp, xfsBlockRead, cacheRead, setTmp, diskGuard, disk, hn, hj]

theorem cache_write_disk (hn : n < d.size) (hj : raw n = false) (b : XBlock) :
    Proc.wp disk (diskGuard raw) (cacheWrite n b) (fun r fs' d' => r = some () ∧ fs' = fs ∧
      d' = { d with blk := Function.update d.blk n b, flushed := false }) fs d := by
  simp [cacheWrite, diskGuard, disk, hn, hj]

theorem raw_write_disk (hn : n < d.size) (hj : raw n = true) (b : XBlock) :
    Proc.wp disk (diskGuard raw) (rawWrite n b) (fun r fs' d' => r = some () ∧ fs' = fs ∧
      d' = { d with blk := Function.update d.blk n b, raws := (n, b) :: d.raws }) fs d := by
  simp [rawWrite, diskGuard, disk, hn, hj]

end Requests

def Disk.recorded (d : Disk) (i : ℕ) (header payload : XBlock) : Disk :=
  { d with
    blk := Function.update (Function.update d.blk (3 + i * 2) header) (3 + i * 2 + 1) payload
    raws := (3 + i * 2 + 1, payload) :: (3 + i * 2, header) :: d.raws }

theorem Shows.recorded (h : Shows fs d V)
    (hr : V.journalRecords < 16) (header payload : XBlock) :
    Shows { fs with journalRecords := fs.journalRecords + 1 }
      (Disk.recorded d V.journalRecords header payload)
      { V with journalRecords := V.journalRecords + 1 } := by
  refine ⟨h.layout, h.stores.frame ?_, h.total, h.free, h.mounted, h.generation, h.active, ?_, hr⟩
  · intro n _ hn
    have h1 : n ≠ 3 + V.journalRecords * 2 := by
      rintro rfl; simp [journalArea] at hn; omega
    have h2 : n ≠ 3 + V.journalRecords * 2 + 1 := by
      rintro rfl; simp [journalArea] at hn; omega
    simp [Disk.recorded, h1, h2]
  · have := h.records
    simp only [UInt32.toNat_add, UInt32.toNat_one]
    omega

theorem journal_metadata_disk (h : Shows fs d V) (ha : V.journalActive = true) {n : ℕ}
    (hn : n < V.content.total) (b : XBlock) :
    dwp (k64XfsJournalMetadata n b) (fun r fs' d' =>
      if V.mounted ∧ V.journalRecords < 16 then
        r = some () ∧ fs' = { fs with journalRecords := fs.journalRecords + 1 } ∧
          d' = Disk.recorded d V.journalRecords (headerBlock (metadataEntry fs.txId n b)) b
      else r = none ∧ fs' = fs ∧ d' = d) fs d := by
  have hsize := h.stores.size_eq
  have hlarge := h.stores.large
  have hrec := h.records
  have hbound := h.bounded
  simp only [dwp, k64XfsJournalMetadata, Proc.wp_bind, Proc.wp_load, Proc.wpNext_some,
    h.mounted, h.active, ha, h.total, h.layout.toNat_journalStart, h.layout.toNat_journalBlocks,
    hrec]
  by_cases hm : V.mounted = true
  · by_cases hr : V.journalRecords < 16
    · have h1 : journalArea (3 + V.journalRecords * 2) = true := by simp [journalArea]; omega
      have h2 : journalArea (3 + V.journalRecords * 2 + 1) = true := by simp [journalArea]; omega
      have h3 : (3 + V.journalRecords * 2) % 2 ^ 64 = 3 + V.journalRecords * 2 :=
        Nat.mod_eq_of_lt (by omega)
      have h4 : (3 + V.journalRecords * 2 + 1) % 2 ^ 64 = 3 + V.journalRecords * 2 + 1 :=
        Nat.mod_eq_of_lt (by omega)
      simp only [h3, h4]
      simp [hm, hr, hn, rawWrite, diskGuard, disk, h1, h2, Disk.recorded, h.mounted, h.active, ha]
      omega
    · have h16 : V.journalRecords = 16 := by omega
      simp [hm, hn, h16]
  · simp [hm]

theorem isMetadata_eq (h : Layout fs.super) {n : ℕ} (hn : n < 82) (hj : journalArea n = false) :
    isMetadata fs.super n = true := by
  simp only [journalArea, Bool.and_eq_false_iff, decide_eq_false_iff_not] at hj
  simp only [isMetadata, h.toNat_dataStart, h.toNat_journalStart, h.toNat_journalBlocks]
  simp
  omega

def Disk.cached (d : Disk) (n : ℕ) (b : XBlock) : Disk :=
  { d with blk := Function.update d.blk n b, flushed := false }

theorem block_write_journaled (h : Shows fs d V) {n : ℕ} (hn : n < 82)
    (hj : journalArea n = false) (b : XBlock) :
    dwp (xfsBlockWrite n b) (fun r fs' d' =>
      if V.journalActive then
        if V.mounted ∧ V.journalRecords < 16 then
          r = some () ∧ fs' = { fs with journalRecords := fs.journalRecords + 1 } ∧
            d' = Disk.cached (Disk.recorded d V.journalRecords
              (headerBlock (metadataEntry fs.txId n b)) b) n b
        else r = none ∧ fs' = fs ∧ d' = d
      else r = some () ∧ fs' = fs ∧ d' = Disk.cached d n b) fs d := by
  have hlarge := h.stores.large
  have hnd : n < d.size := by have := h.stores.size_eq; omega
  by_cases ha : V.journalActive = true
  · have hcond : (fs.journalActive && isMetadata fs.super n) = true := by
      rw [h.active, ha, isMetadata_eq h.layout hn hj]
      rfl
    simp only [if_pos ha]
    simp only [dwp, xfsBlockWrite, Proc.wp_bind, Proc.wp_load, Proc.wpNext_some, hcond, if_true]
    refine Proc.wp_mono (journal_metadata_disk h ha (by omega) b) ?_
    intro r fs' d' hr
    by_cases hroom : V.mounted ∧ V.journalRecords < 16
    · simp only [if_pos hroom] at hr ⊢
      obtain ⟨rfl, rfl, rfl⟩ := hr
      exact cache_write_disk (d := Disk.recorded _ _ _ _) hnd hj b
    · simp only [if_neg hroom] at hr ⊢
      obtain ⟨rfl, rfl, rfl⟩ := hr
      exact ⟨rfl, rfl, rfl⟩
  · simp only [if_neg ha]
    simp only [Bool.not_eq_true] at ha
    simp only [dwp, xfsBlockWrite, Proc.wp_bind, Proc.wp_load, Proc.wpNext_some,
      h.active.trans ha, Bool.false_and]
    exact cache_write_disk hnd hj b

theorem Shows.cached (h : Shows fs d V) {n : ℕ} {b : XBlock}
    (hc : StoresContent d.size (Function.update d.blk n b) c)
    (hfree : c.freeBlocks = V.content.freeBlocks) (ht : c.total = V.content.total) :
    Shows fs (Disk.cached d n b) (V.withContent c) :=
  ⟨h.layout, hc, h.total.trans ht.symm, h.free.trans hfree.symm, h.mounted, h.generation, h.active,
    h.records, h.bounded⟩

theorem block_write_metadata (h : Shows fs d V) {n : ℕ} (hn : n < 82)
    (hj : journalArea n = false) {b : XBlock}
    (hc : StoresContent d.size (Function.update d.blk n b) c)
    (hfree : c.freeBlocks = V.content.freeBlocks) (ht : c.total = V.content.total) :
    dwp (xfsBlockWrite n b) (fun r fs' d' =>
      r.isSome = (V.metadata c).1 ∧ Shows fs' d' (V.metadata c).2) fs d := by
  refine Proc.wp_mono (block_write_journaled h hn hj b) ?_
  intro r fs' d' hr
  unfold Volume.metadata
  by_cases ha : V.journalActive = true
  · rw [if_pos ha] at hr ⊢
    by_cases hroom : V.mounted ∧ V.journalRecords < 16
    · rw [if_pos hroom] at hr ⊢
      obtain ⟨rfl, rfl, rfl⟩ := hr
      refine ⟨rfl, (h.recorded hroom.2 _ b).cached (hc.frame fun k _ hk => ?_) hfree ht⟩
      by_cases hkn : k = n
      · simp [hkn]
      · have h1 : k ≠ 3 + V.journalRecords * 2 := by
          rintro rfl; simp [journalArea] at hk; omega
        have h2 : k ≠ 3 + V.journalRecords * 2 + 1 := by
          rintro rfl; simp [journalArea] at hk; omega
        simp [hkn, Disk.recorded, h1, h2]
    · rw [if_neg hroom] at hr ⊢
      obtain ⟨rfl, rfl, rfl⟩ := hr
      exact ⟨rfl, h⟩
  · rw [if_neg ha] at hr ⊢
    obtain ⟨rfl, rfl, rfl⟩ := hr
    exact ⟨rfl, h.cached hc hfree ht⟩

theorem block_write_data (h : Shows fs d V) {n : ℕ} (hn : 82 ≤ n) (ht : n < V.content.total)
    (b : XBlock) :
    dwp (xfsBlockWrite n b) (fun r fs' d' =>
      r = some () ∧ Shows fs' d' (V.withContent (V.content.setData n b))) fs d := by
  have hmeta : isMetadata fs.super n = false := by
    simp only [isMetadata, h.layout.toNat_dataStart]
    simp
    omega
  have hj : journalArea n = false := by simp [journalArea]; omega
  have hnd : n < d.size := by rw [h.stores.size_eq]; exact ht
  simp only [dwp, xfsBlockWrite, Proc.wp_bind, Proc.wp_load, Proc.wpNext_some, hmeta,
    Bool.and_false]
  refine Proc.wp_mono (cache_write_disk hnd hj b) ?_
  rintro r fs' d' ⟨rfl, rfl, rfl⟩
  exact ⟨rfl, h.layout, h.stores.setData hn b, h.total, h.free, h.mounted, h.generation,
    h.active, h.records, h.bounded⟩

abbrev Realised (c : Call) : Prop :=
  Proc.Implements disk (diskGuard journalArea) volume volumeGuard Shows c (implementation c)

theorem inode_block_eq (h : Layout fs.super) {inodeId : UInt32} (hid : inodeId.toNat ≤ 512) :
    inodeBlock fs.super inodeId = 35 + (inodeId.toNat - 1) / 11 := by
  rw [inodeBlock, h.inodeTableStart]
  exact Nat.mod_eq_of_lt (by simp; omega)

theorem pos_of_ne_zero {inodeId : UInt32} (h : inodeId ≠ 0) : 1 ≤ inodeId.toNat :=
  Nat.pos_of_ne_zero fun h0 => h (UInt32.toNat_inj.mp h0)

theorem info_realised : Realised .info := by
  intro fs d V h _
  simp [implementation, volume, h.mounted, h.layout.rootInode, h.generation, h]

theorem set_tmp_realised (b : XBlock) : Realised (.setTmp b) := by
  intro fs d V h _
  simp [implementation, volume, XfsJournal.setTmp, h.withTmp b]

theorem read_inode_realised (inodeId : UInt32) : Realised (.readInode inodeId) := by
  intro fs d V h _
  simp only [implementation, volume, Content.record, xfsReadInode, Proc.wp_attempt, Proc.wp_bind,
    Proc.wp_guard]
  by_cases hid : inodeId ≠ 0 ∧ inodeId.toNat ≤ 512
  · obtain ⟨h0, h512⟩ := hid
    have hpos := pos_of_ne_zero h0
    have hsize := h.stores.size_eq
    have hlarge := h.stores.large
    have hg : (inodeId != 0 && decide (inodeId.toNat ≤ 512)) = true := by simp [h0, h512]
    rw [hg, if_pos rfl]
    simp only [Proc.wp_bind, Proc.wpNext_some, Proc.wp_load, inode_block_eq h.layout h512]
    refine Proc.wp_mono (block_read_tmp (by omega) (by simp [journalArea])) ?_
    rintro r fs' d' ⟨rfl, rfl, rfl⟩
    simp only [Proc.wpNext_some, Proc.wp_bind, Proc.wp_guard, inodeOffset, h.stores.inode _ hpos h512]
    by_cases hv : inodeValid (V.content.inode inodeId.toNat) inodeId = true
    · simp [hv, h.withTmp, h0, h512]
    · simp [hv, h.withTmp]
  · have hg : (inodeId != 0 && decide (inodeId.toNat ≤ 512)) = false := by
      simpa using hid
    have hn : ¬ (inodeId ≠ 0 ∧ inodeId.toNat ≤ 512 ∧
        inodeValid (V.content.inode inodeId.toNat) inodeId = true) := fun hx => hid ⟨hx.1, hx.2.1⟩
    rw [hg, if_neg hn]
    simp [h]

theorem StoresContent.setInode
    (h : StoresContent size blk c) {inode : Inode} (h0 : inode.inodeId ≠ 0)
    (h512 : inode.inodeId.toNat ≤ 512) :
    StoresContent size (Function.update blk (35 + (inode.inodeId.toNat - 1) / 11)
      ((blk (35 + (inode.inodeId.toNat - 1) / 11)).setRecord inodeCodec
        (inodeOffset inode.inodeId) (Inode.sealed inode))) (c.setInode inode) := by
  have hpos := pos_of_ne_zero h0
  refine ⟨h.size_eq, h.large, h.small, ?_, ?_, ?_, ?_⟩
  · rw [Function.update_of_ne (by omega)]; exact h.inodeUsed
  · rw [Function.update_of_ne (by omega)]; exact h.blockUsed
  · intro id h1 h2
    by_cases hb : 35 + (id - 1) / 11 = 35 + (inode.inodeId.toNat - 1) / 11
    · rw [hb, Function.update_self]
      by_cases hid : id = inode.inodeId.toNat
      · rw [hid, inodeOffset, Block.record_setRecord _ _ _ _ (by simp; omega)]
        simp [Content.setInode]
      · rw [inodeOffset, Block.record_setRecord_disjoint _ _ _ _ _ _ (by simp; omega), ← hb,
          h.inode id h1 h2]
        simp [Content.setInode, hid]
    · have hid : id ≠ inode.inodeId.toNat := by rintro rfl; exact hb rfl
      rw [Function.update_of_ne hb, h.inode id h1 h2]
      simp [Content.setInode, hid]
  · intro b h1 h2
    rw [Function.update_of_ne (by omega)]
    exact h.data b h1 h2

variable (inode : Inode)

theorem write_inode_realised : Realised (.writeInode inode) := by
  intro fs d V h _
  simp only [implementation, wp_succeeds, volume, xfsWriteInode, Proc.wp_bind,
    Proc.wp_guard]
  by_cases hid : inode.inodeId ≠ 0 ∧ inode.inodeId.toNat ≤ 512
  · obtain ⟨h0, h512⟩ := hid
    have hpos := pos_of_ne_zero h0
    have hsize := h.stores.size_eq
    have hlarge := h.stores.large
    have hj : journalArea (35 + (inode.inodeId.toNat - 1) / 11) = false := by simp [journalArea]
    have hread := @block_read_tmp fs d journalArea (35 + (inode.inodeId.toNat - 1) / 11)
      (by omega) hj
    have hg : (inode.inodeId != 0 && decide (inode.inodeId.toNat ≤ 512)) = true := by
      simp [h0, h512]
    rw [hg, if_pos rfl, if_pos ⟨h0, h512⟩]
    simp only [Proc.wp_bind, Proc.wpNext_some, Proc.wp_load, inode_block_eq h.layout h512]
    refine Proc.wp_mono hread ?_
    rintro r fs' d' ⟨rfl, rfl, rfl⟩
    simp only [Proc.wpNext_some, Proc.wp_bind, XfsJournal.setTmp, Proc.wp_update]
    refine Proc.wp_mono (block_write_metadata (h.withTmp _) (by omega) hj
      (h.stores.setInode h0 h512) rfl rfl) ?_
    rintro r fs' d' ⟨hr, hs⟩
    simp [hr, hs]
  · have hg : (inode.inodeId != 0 && decide (inode.inodeId.toNat ≤ 512)) = false := by
      simpa using hid
    rw [hg, if_neg hid]
    simp [h]

theorem StoresContent.setInodeUsed
    (h : StoresContent size blk c) {id : ℕ} (h1 : 1 ≤ id) (used : Bool) :
    StoresContent size (Function.update blk 1 (xfsBitmapSet (blk 1) (id - 1) used))
      (c.setInodeUsed id used) := by
  refine ⟨h.size_eq, h.large, h.small, ?_, ?_, ?_, ?_⟩
  · intro k hk1 hk2
    rw [Function.update_self, xfsBitmapGet_set _ _ (by omega), h.inodeUsed k hk1 hk2]
    by_cases hk : k = id
    · simp [hk, Content.setInodeUsed]
    · rw [if_neg (by omega)]
      simp [hk, Content.setInodeUsed]
  · rw [Function.update_of_ne (by decide)]; exact h.blockUsed
  · intro k hk1 hk2
    rw [Function.update_of_ne (by omega)]
    exact h.inode k hk1 hk2
  · intro b hb1 hb2
    rw [Function.update_of_ne (by omega)]
    exact h.data b hb1 hb2

theorem find_spare_inode
    (h : StoresContent size blk c) :
    ((List.range' 1 511).find? fun i => !xfsBitmapGet (blk 1) i).map (· + 1) = c.spareInode := by
  rw [Content.spareInode, List.range'_succ_left (s := 1), List.find?_map]
  congr 1
  refine List.find?_congr fun i hi => ?_
  obtain ⟨h1, h2⟩ := List.mem_range'_1.mp hi
  have := h.inodeUsed (i + 1) (by omega) (by omega)
  simp only [Nat.add_sub_cancel] at this
  simp [this]

theorem alloc_inode_realised : Realised .allocInode := by
  intro fs d V h _
  have hsize := h.stores.size_eq
  have hlarge := h.stores.large
  have hbit : fs.super.inodeBitmapStart.toNat = 1 := by rw [h.layout.inodeBitmapStart]; rfl
  have hfind := find_spare_inode h.stores
  simp only [implementation, volume, xfsAllocInode, Proc.wp_attempt, Proc.wp_bind, Proc.wp_load,
    Proc.wpNext_some, hbit]
  refine Proc.wp_mono (block_read_tmp (by omega) (by decide)) ?_
  rintro r fs' d' ⟨rfl, rfl, rfl⟩
  simp only [Proc.wpNext_some, Proc.wp_bind, Proc.wp_orFail, XfsJournal.setTmp]
  cases hf : (List.range' 1 511).find? fun i => !xfsBitmapGet (d'.blk 1) i with
  | none =>
    rw [hf, Option.map_none] at hfind
    simp [← hfind, h.withTmp]
  | some i =>
    rw [hf, Option.map_some] at hfind
    simp only [Proc.wpNext_some, Proc.wp_bind, Proc.wp_update, ← hfind]
    refine Proc.wp_mono (block_write_metadata (h.withTmp _) (by decide) (by decide)
      (h.stores.setInodeUsed (show 1 ≤ i + 1 by omega) true) rfl rfl) ?_
    rintro r fs' d' ⟨hr, hs⟩
    cases hm : (V.metadata (V.content.setInodeUsed (i + 1) true)).1 with
    | false =>
      rw [hm] at hr
      obtain rfl : r = none := by simpa using hr
      simp [hs]
    | true =>
      rw [hm] at hr
      obtain ⟨_, rfl⟩ := Option.isSome_iff_exists.mp hr
      simp [hs]

theorem free_inode_realised (inodeId : UInt32) : Realised (.freeInode inodeId) := by
  intro fs d V h _
  have hsize := h.stores.size_eq
  have hlarge := h.stores.large
  have hbit : fs.super.inodeBitmapStart.toNat = 1 := by rw [h.layout.inodeBitmapStart]; rfl
  simp only [implementation, volume, xfsFreeInode, wp_succeeds, Proc.wp_bind, Proc.wp_guard]
  by_cases hid : inodeId ≠ 0 ∧ inodeId.toNat ≤ 512
  · have hg : (inodeId != 0 && decide (inodeId.toNat ≤ 512)) = true := by simpa using hid
    rw [hg, if_pos rfl, if_pos hid]
    simp only [Proc.wp_bind, Proc.wpNext_some, Proc.wp_load, hbit]
    refine Proc.wp_mono (block_read_tmp (by omega) (by decide)) ?_
    rintro r fs' d' ⟨rfl, rfl, rfl⟩
    simp only [Proc.wpNext_some, Proc.wp_bind, XfsJournal.setTmp, Proc.wp_update]
    refine Proc.wp_mono (block_write_metadata (h.withTmp _) (by decide) (by decide)
      (h.stores.setInodeUsed (pos_of_ne_zero hid.1) false) rfl rfl) ?_
    rintro r fs' d' ⟨hr, hs⟩
    simp [hr, hs]
  · have hg : (inodeId != 0 && decide (inodeId.toNat ≤ 512)) = false := by simpa using hid
    rw [hg, if_neg hid]
    simp [h]

variable {blocks : ℕ}

theorem get_setRun (bitmap : XBlock) (start : ℕ) {j : ℕ} (hj : j < 32768)
    (hs : start + blocks ≤ 32768) :
    xfsBitmapGet (setRun bitmap start blocks) j =
      if start ≤ j ∧ j < start + blocks then true else xfsBitmapGet bitmap j := by
  induction blocks with
  | zero => simp [setRun]
  | succ n ih =>
    have hmod : (start + n) % 2 ^ 32 = start + n := Nat.mod_eq_of_lt (by omega)
    have hrun : setRun bitmap start (n + 1) =
        xfsBitmapSet (setRun bitmap start n) ((start + n) % 2 ^ 32) true := by
      simp [setRun, List.range_succ, List.foldl_append]
    rw [hrun, hmod, xfsBitmapGet_set _ _ hj, ih (by omega)]
    by_cases hjn : start + n = j
    · rw [if_pos hjn, if_pos (by omega)]
    · rw [if_neg hjn]
      exact if_congr (by omega) rfl rfl

theorem clearRun_eq (bitmap : XBlock) (start : ℕ) (hs : start + blocks ≤ 32768) :
    (∀ j < 32768, xfsBitmapGet (clearRun bitmap start blocks).1 j =
      if start ≤ j ∧ j < start + blocks then false else xfsBitmapGet bitmap j) ∧
    (clearRun bitmap start blocks).2 =
      (List.range' start blocks).countP fun b => xfsBitmapGet bitmap b := by
  induction blocks with
  | zero => exact ⟨fun j _ => by simp [clearRun]; omega, rfl⟩
  | succ n ih =>
    obtain ⟨hget, hcount⟩ := ih (by omega)
    have hmod : (start + n) % 2 ^ 32 = start + n := Nat.mod_eq_of_lt (by omega)
    have hrun : clearRun bitmap start (n + 1) =
        if xfsBitmapGet (clearRun bitmap start n).1 (start + n) then
          (xfsBitmapSet (clearRun bitmap start n).1 (start + n) false,
            (clearRun bitmap start n).2 + 1)
        else clearRun bitmap start n := by
      rw [clearRun, List.range_succ, List.foldl_append, List.foldl_cons, List.foldl_nil, hmod]
      rfl
    have hold : xfsBitmapGet (clearRun bitmap start n).1 (start + n) =
        xfsBitmapGet bitmap (start + n) := by
      rw [hget _ (by omega), if_neg (by omega)]
    rw [List.range'_1_concat, List.countP_append, List.countP_singleton, hrun, hold, ← hcount]
    cases hb : xfsBitmapGet bitmap (start + n) with
    | true =>
      refine ⟨fun j hj => ?_, by simp⟩
      rw [if_pos rfl, xfsBitmapGet_set _ _ hj, hget j hj]
      by_cases hjn : start + n = j
      · rw [if_pos hjn, if_pos (by omega)]
      · rw [if_neg hjn]
        exact if_congr (by omega) rfl rfl
    | false =>
      refine ⟨fun j hj => ?_, by simp⟩
      rw [if_neg (by simp), hget j hj]
      by_cases hjn : start + n = j
      · subst hjn
        rw [if_neg (by omega), if_pos (by omega), hb]
      · exact if_congr (by omega) rfl rfl

theorem StoresContent.markRun {start : ℕ}
    {bitmap : XBlock} {used : Bool} (h : StoresContent size blk c)
    (hb : ∀ j < 32768, xfsBitmapGet bitmap j =
      if start ≤ j ∧ j < start + blocks then used else xfsBitmapGet (blk 2) j) :
    StoresContent size (Function.update blk 2 bitmap) (c.markRun start blocks used) := by
  refine ⟨h.size_eq, h.large, h.small, ?_, ?_, ?_, ?_⟩
  · rw [Function.update_of_ne (by decide)]; exact h.inodeUsed
  · intro b hlt
    have hlt' : b < c.total := hlt
    have := h.small
    rw [Function.update_self, hb b (by omega), h.blockUsed b hlt]
    rfl
  · intro id h1 h2
    rw [Function.update_of_ne (by omega)]
    exact h.inode id h1 h2
  · intro b h1 h2
    rw [Function.update_of_ne (by omega)]
    exact h.data b h1 h2

theorem alloc_extent_realised (blocks : ℕ) : Realised (.allocExtent blocks) := by
  intro fs d V h _
  have hsize := h.stores.size_eq
  have hlarge := h.stores.large
  have hsmall := h.stores.small
  have hbit : fs.super.blockBitmapStart.toNat = 2 := by rw [h.layout.blockBitmapStart]; rfl
  simp only [implementation, volume, xfsAllocExtent, Proc.wp_attempt, Proc.wp_bind, Proc.wp_guard]
  by_cases hb : blocks = 0 ∨ 2 ^ 32 - 1 < blocks
  · have hg : (blocks != 0 && decide (blocks ≤ 2 ^ 32 - 1)) = false := by
      simp only [Bool.and_eq_false_iff, bne_eq_false_iff_eq, decide_eq_false_iff_not]
      omega
    rw [hg, if_pos hb]
    simp [h]
  have hg : (blocks != 0 && decide (blocks ≤ 2 ^ 32 - 1)) = true := by
    simp only [Bool.and_eq_true, bne_iff_ne, decide_eq_true_eq]
    omega
  rw [hg, if_pos rfl, if_neg hb]
  simp only [Proc.wp_bind, Proc.wpNext_some, Proc.wp_load, hbit]
  refine Proc.wp_mono (block_read_tmp (by omega) (by decide)) ?_
  rintro r fs' d' ⟨rfl, rfl, rfl⟩
  have hscan : allocScan (fun b => xfsBitmapGet (d'.blk 2) (b % 2 ^ 32)) blocks
      fs.super.dataStart.toNat (fs.super.totalBlocks.toNat - fs.super.dataStart.toNat) 0 0 =
      V.content.spareRun blocks := by
    rw [h.layout.toNat_dataStart, h.total]
    refine alloc_scan_congr _ _ _ _ _ fun x h1 h2 => ?_
    rw [Nat.mod_eq_of_lt (by omega), h.stores.blockUsed x (by omega)]
  simp only [Proc.wpNext_some, Proc.wp_bind, Proc.wp_orFail, XfsJournal.setTmp, hscan]
  cases hs : V.content.spareRun blocks with
  | none => simp [h.withTmp]
  | some start =>
    obtain ⟨h1, h2, -⟩ := spare_run_some (by omega) hs
    simp only [Proc.wpNext_some, Proc.wp_bind, Proc.wp_update, Proc.wp_guard, Xfs.super_withTmp,
      Xfs.withTmp_withTmp, h.free]
    by_cases hf : V.content.freeBlocks.toNat < blocks
    · simp [hf, Nat.not_le.mpr hf, h.withTmp]
    · rw [if_neg hf]
      simp only [Nat.not_lt.mp hf, decide_true, if_true]
      refine Proc.wp_mono (block_write_metadata (n := 2) ((h.withTmp _).withFree _) (by decide)
        (by decide) (c := V.content.takeRun start blocks) ?_ rfl rfl) ?_
      · refine StoresContent.markRun (c := V.content.withFree _)
          (h.withFree (V.content.freeBlocks - UInt64.ofNat blocks)).stores fun j hj => ?_
        exact get_setRun _ _ hj (by omega)
      · rintro r fs' d' ⟨hr, hs⟩
        cases r with
        | none =>
          simp only [Option.isSome_none] at hr
          simp [← hr, hs]
        | some u =>
          simp only [Option.isSome_some] at hr
          simp [← hr, hs]

theorem free_extent_realised (start blocks : ℕ) : Realised (.freeExtent start blocks) := by
  intro fs d V h hguard
  obtain ⟨hg1, hg2⟩ : 82 ≤ start ∧ start + blocks ≤ V.content.total := hguard
  have hsize := h.stores.size_eq
  have hlarge := h.stores.large
  have hsmall := h.stores.small
  have hbit : fs.super.blockBitmapStart.toNat = 2 := by rw [h.layout.blockBitmapStart]; rfl
  simp only [implementation, volume, xfsFreeExtent, wp_succeeds, Proc.wp_bind, Proc.wp_load,
    Proc.wpNext_some, Proc.wp_guard, hbit, h.layout.toNat_dataStart, h.total,
    Nat.mod_eq_of_lt (show start + blocks < 2 ^ 64 by omega)]
  by_cases hb : blocks = 0
  · simp [hb, h]
  have hg : (blocks != 0 && decide (82 ≤ start) &&
      decide (start + blocks ≤ V.content.total)) = true := by
    simp [hb, hg1, hg2]
  rw [hg, if_pos rfl, if_neg hb]
  refine Proc.wp_mono (block_read_tmp (by omega) (by decide)) ?_
  rintro r fs' d' ⟨rfl, rfl, rfl⟩
  obtain ⟨hget, hcount⟩ := clearRun_eq (d'.blk 2) start (show start + blocks ≤ 32768 by omega)
  have hused : (clearRun (d'.blk 2) start blocks).2 = V.content.usedIn start blocks := by
    rw [hcount, Content.usedIn]
    refine List.countP_congr fun b hb => ?_
    obtain ⟨h1, h2⟩ := List.mem_range'_1.mp hb
    rw [h.stores.blockUsed b (by omega)]
  simp only [Proc.wpNext_some, Proc.wp_bind, XfsJournal.setTmp, Proc.wp_update, hused,
    Xfs.super_withTmp, Xfs.withTmp_withTmp, h.free]
  refine Proc.wp_mono (block_write_metadata (n := 2) ((h.withTmp _).withFree _) (by decide)
    (by decide) (c := V.content.dropRun start blocks) ?_ rfl rfl) ?_
  · exact StoresContent.markRun (c := V.content.withFree _)
      (h.withFree (V.content.freeBlocks +
        UInt64.ofNat (V.content.usedIn start blocks))).stores hget
  · rintro r fs' d' ⟨hr, hs⟩
    simp [hr, hs]

theorem read_data_block_realised (logical : ℕ) :
    Realised (.readDataBlock inode logical) := by
  intro fs d V h hfits
  have hsize := h.stores.size_eq
  have hsmall := h.stores.small
  simp only [implementation, volume, xfsInodeReadDataBlock, Proc.wp_attempt, Content.dataOf]
  cases hl : Inode.lookup inode logical with
  | none => simp [XfsJournal.setTmp, h.withTmp]
  | some n =>
    obtain ⟨h1, h2⟩ := lookup_fits hfits hl (by omega)
    refine Proc.wp_mono (block_read_tmp (by omega) (by simp [journalArea]; omega)) ?_
    rintro r fs' d' ⟨rfl, rfl, rfl⟩
    simp [h.stores.data n h1 h2, h.withTmp]

theorem write_data_block_realised (logical : ℕ) (data : XBlock) :
    Realised (.writeDataBlock inode logical data) := by
  intro fs d V h hfits
  have hsmall := h.stores.small
  simp only [implementation, volume, xfsInodeWriteDataBlock, wp_succeeds]
  cases hl : Inode.lookup inode logical with
  | none => simp [h]
  | some n =>
    obtain ⟨h1, h2⟩ := lookup_fits hfits hl (by omega)
    refine Proc.wp_mono (block_write_data h h1 h2 data) ?_
    rintro r fs' d' ⟨rfl, hs⟩
    simp [hs]

theorem block_write_realised (n : ℕ) (data : XBlock) : Realised (.blockWrite n data) := by
  intro fs d V h hn
  simp only [implementation, volume, wp_succeeds]
  refine Proc.wp_mono (block_write_data h hn.1 hn.2 data) ?_
  rintro r fs' d' ⟨rfl, hs⟩
  simp [hs]

theorem write_super_realised : Realised .writeSuper := by
  intro fs d V h _
  simp only [implementation, volume, xfsWriteSuper, wp_succeeds, Proc.wp_bind, Proc.wp_load,
    Proc.wpNext_some, XfsJournal.setTmp, Proc.wp_update]
  refine Proc.wp_mono (block_write_metadata (h.withTmp _) (by decide) (by decide)
    (h.stores.frame fun n hn _ => Function.update_of_ne hn _ _) rfl rfl) ?_
  rintro r fs' d' ⟨hr, hs⟩
  simp [hr, hs]

theorem journal_begin_realised : Realised .journalBegin := by
  intro fs d V h _
  simp only [implementation, volume, k64XfsJournalBegin, wp_succeeds, Proc.wp_bind, Proc.wp_load,
    Proc.wpNext_some, Proc.wp_guard, h.mounted]
  by_cases hm : V.mounted = true
  · simp only [hm, Bool.not_true, if_true, h.active, Proc.wp_ite]
    by_cases ha : V.journalActive = true
    · simp [ha, h]
    · simp only [ha, Bool.false_eq_true, if_false, Proc.wp_update]
      exact ⟨rfl, h.layout.update _ _ _ _, h.stores, h.total, h.free, h.mounted.trans hm,
        h.generation, rfl, rfl, Nat.zero_le _⟩
  · simp [hm, h]

theorem Shows.committed (h : Shows fs d V) (hr : V.journalRecords < 16) (b : XBlock) :
    Shows fs.committed
      { d with
        blk := Function.update d.blk (3 + V.journalRecords * 2) b
        raws := (3 + V.journalRecords * 2, b) :: d.raws }
      { V with generation := V.generation + 1, journalActive := false, journalRecords := 0 } := by
  refine ⟨h.layout.update _ _ _ _, h.stores.frame fun n _ hn => ?_, h.total, h.free, h.mounted, ?_, rfl,
    rfl, Nat.zero_le _⟩
  · refine Function.update_of_ne ?_ _ _
    rintro rfl
    simp [journalArea] at hn
    omega
  · exact congrArg (· + 1) h.generation

theorem journal_commit_realised : Realised .journalCommit := by
  intro fs d V h _
  have hsize := h.stores.size_eq
  have hlarge := h.stores.large
  have hbound := h.bounded
  simp only [implementation, volume, k64XfsJournalCommit, wp_succeeds, Proc.wp_bind, Proc.wp_load,
    Proc.wpNext_some, Proc.wp_guard, h.mounted]
  by_cases hm : V.mounted = true
  · simp only [hm, Bool.not_true, if_true, h.active, Proc.wp_ite]
    by_cases ha : V.journalActive = true
    · have hmod : (3 + V.journalRecords * 2) % 2 ^ 64 = 3 + V.journalRecords * 2 :=
        Nat.mod_eq_of_lt (by omega)
      simp only [ha, if_true, Proc.wp_bind, Proc.wp_guard, h.layout.toNat_journalStart,
        h.layout.toNat_journalBlocks, h.records, hmod]
      by_cases hr : V.journalRecords < 16
      · have hg : decide (3 + V.journalRecords * 2 < (3 + 32) % 2 ^ 64) = true := by
          rw [decide_eq_true_eq, Nat.mod_eq_of_lt (by decide)]; omega
        rw [hg, if_pos rfl]
        simp only [Proc.wpNext_some, Proc.wp_bind]
        refine Proc.wp_mono (raw_write_disk (by omega) (by simp [journalArea]; omega) _) ?_
        rintro r fs' d' ⟨rfl, rfl, rfl⟩
        have hs := h.committed hr (headerBlock (commitEntry fs'.txId))
        rw [hm] at hs
        simp [Nat.not_le.mpr hr, hs]
      · have hg : decide (3 + V.journalRecords * 2 < (3 + 32) % 2 ^ 64) = false := by
          rw [decide_eq_false_iff_not, Nat.mod_eq_of_lt (by decide)]; omega
        rw [hg]
        simp [Nat.not_lt.mp hr, h]
    · simp [ha, h]
  · simp [hm, h]

theorem block_layer_realises_volume : ∀ c, Realised c
  | .info => info_realised
  | .setTmp b => set_tmp_realised b
  | .readInode inodeId => read_inode_realised inodeId
  | .writeInode inode => write_inode_realised inode
  | .allocInode => alloc_inode_realised
  | .freeInode inodeId => free_inode_realised inodeId
  | .allocExtent blocks => alloc_extent_realised blocks
  | .freeExtent start blocks => free_extent_realised start blocks
  | .readDataBlock inode logical => read_data_block_realised inode logical
  | .writeDataBlock inode logical data => write_data_block_realised inode logical data
  | .blockWrite n data => block_write_realised n data
  | .journalBegin => journal_begin_realised
  | .journalCommit => journal_commit_realised
  | .writeSuper => write_super_realised

theorem lowered_of_wp {α : Type} {f : XfsV α} {P : Option α → Volume → Prop} (h : Shows fs d V)
    (hw : Proc.wp volume volumeGuard f (fun r _ V' => P r V') () V) :
    dwp (lowered f) (fun r fs' d' => ∃ V', Shows fs' d' V' ∧ P r V') fs d :=
  Proc.wp_lower block_layer_realises_volume h hw

end XfsVolumeRefinement
