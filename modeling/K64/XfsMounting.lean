import K64.XfsVolumeLifecycle
import K64.XfsVolumeRefinement
import K64.XfsDirectoryUpdate

/-! # Synchronising, unmounting and mounting

What `k64_xfs_sync`, `k64_xfs_unmount` and a mount of a clean volume do on the logical disk. Between
an unmount and the next mount the disk holds the sealed superblock, and every block is written
back. -/
namespace XfsMounting

open ByteCodec IoProgram XfsFormat XfsCache XfsJournal XfsInode XfsLogicalDisk XfsVolume
  XfsVolumeRefinement XfsVolumeLifecycle XfsDirectoryUpdate

variable {fs : Xfs} {d : Disk} {V : Volume} {c : Content}

def superOn (d : Disk) : Superblock := (d.blk 0).record superblockCodec 0

structure Settled (state : UInt32) (fs : Xfs) (d : Disk) : Prop where
  flushed : d.flushed = true
  super : superOn d = Superblock.sealed fs.super
  state : fs.super.mountState = state

theorem Shows.withState (h : Shows fs d V) (state : UInt32) : Shows (fs.withState state) d V :=
  ⟨h.layout.update _ _ _ _, h.stores, h.total, h.free, h.mounted, h.generation, h.active, h.records,
    h.bounded⟩

theorem Shows.flushed (h : Shows fs d V) : Shows fs { d with flushed := true } V :=
  ⟨h.layout, h.stores, h.total, h.free, h.mounted, h.generation, h.active, h.records, h.bounded⟩

theorem block_zero_disk (h : Shows fs d V) (hr : Room 1 V) (b : XBlock) :
    dwp (xfsBlockWrite 0 b) (fun r fs' d' => r = some () ∧ Shows fs' d' (logged 1 V V.content) ∧
      fs'.super = fs.super ∧ fs'.txId = fs.txId ∧ d'.blk 0 = b) fs d := by
  have hmeta := block_write_metadata h (n := 0) (by decide) (by decide) (b := b) (c := V.content)
    (h.stores.frame fun n hn _ => Function.update_of_ne hn _ _) rfl rfl
  have hexact := block_write_journaled h (n := 0) (by decide) (by decide) b
  rw [metadata_room hr] at hmeta
  refine Proc.wp_mono (Proc.wp_and hmeta hexact) ?_
  rintro r fs' d' ⟨⟨hsome, hshows⟩, hpost⟩
  obtain ⟨_, rfl⟩ := Option.isSome_iff_exists.mp hsome
  by_cases ha : V.journalActive = true
  · rw [if_pos ha, if_pos ⟨hr.mounted, by have := hr.records ha; omega⟩] at hpost
    obtain ⟨-, rfl, rfl⟩ := hpost
    exact ⟨rfl, hshows, rfl, rfl, by simp [Disk.cached]⟩
  · rw [if_neg ha] at hpost
    obtain ⟨-, rfl, rfl⟩ := hpost
    exact ⟨rfl, hshows, rfl, rfl, by simp [Disk.cached]⟩

def superBlock (fs : Xfs) : XBlock :=
  fs.tmp.setRecord superblockCodec 0 (Superblock.sealed fs.super)

theorem record_superBlock (fs : Xfs) :
    (superBlock fs).record superblockCodec 0 = Superblock.sealed fs.super :=
  Block.record_setRecord _ _ _ _ (by simp)

theorem wp_writeSuper {C : Req → Disk → Prop} {P : Option Unit → Xfs → Disk → Prop} :
    Proc.wp disk C xfsWriteSuper P fs d ↔
      Proc.wp disk C (xfsBlockWrite 0 (superBlock fs)) P (fs.withTmp (superBlock fs)) d := by
  simp only [xfsWriteSuper, Proc.wp_bind, Proc.wp_load, Proc.wpNext_some, setTmp,
    Proc.wp_update, superBlock]

theorem write_super_disk (h : Shows fs d V) (hr : Room 1 V) :
    dwp xfsWriteSuper (fun r fs' d' => r = some () ∧ Shows fs' d' (logged 1 V V.content) ∧
      fs'.super = fs.super ∧ fs'.txId = fs.txId ∧ superOn d' = Superblock.sealed fs.super) fs d := by
  rw [dwp, wp_writeSuper]
  refine Proc.wp_mono (block_zero_disk (h.withTmp _) hr _) ?_
  rintro r fs' d' ⟨rfl, hshows, hsuper, htx, hblk⟩
  rw [Xfs.super_withTmp] at hsuper
  rw [Xfs.txId_withTmp] at htx
  exact ⟨rfl, hshows, hsuper, htx, by rw [superOn, hblk, record_superBlock]⟩

theorem sync_disk (h : Shows fs d V) (hr : Room 1 V) :
    dwp k64XfsSync (fun r fs' d' => r = some () ∧ Shows fs' d' (logged 1 V V.content) ∧
      Settled mountClean fs' d') fs d := by
  simp only [dwp, k64XfsSync, Proc.wp_bind, Proc.wp_load, Proc.wpNext_some, Proc.wp_guard,
    h.mounted.trans hr.mounted, if_true, Proc.wp_update]
  refine Proc.wp_mono (write_super_disk (Shows.withState h mountClean) hr) ?_
  rintro r fs' d' ⟨rfl, hshows, hsup, -, hon⟩
  simp only [Proc.wpNext_some, cacheFlush, Proc.wp_bind, Proc.wp_request, diskGuard, disk,
    Proc.wp_guard, if_true, true_and]
  exact ⟨Shows.flushed hshows, rfl, by rw [hsup]; exact hon, by rw [hsup]; rfl⟩

theorem sync_unmounted (hm : fs.mounted = false) :
    dwp k64XfsSync (fun r fs' d' => r = none ∧ fs' = fs ∧ d' = d) fs d := by
  simp [dwp, k64XfsSync, hm]

def unmounted (V : Volume) : Volume := { V with mounted := false }

theorem unmount_disk (h : Shows fs d V) (hr : Room 1 V) :
    dwp k64XfsUnmount (fun r fs' d' => r = some () ∧
      Shows fs' d' (unmounted (logged 1 V V.content)) ∧ Settled mountClean fs' d') fs d := by
  rw [dwp, k64XfsUnmount, Proc.wp_bind]
  refine Proc.wp_mono (sync_disk h hr) ?_
  rintro r fs' d' ⟨rfl, hs, hset⟩
  rw [Proc.wpNext_some, Proc.wp_update]
  exact ⟨rfl, ⟨hs.layout, hs.stores, hs.total, hs.free, rfl, hs.generation, hs.active, hs.records,
    hs.bounded⟩, hset.flushed, hset.super, hset.state⟩

theorem unmount_unmounted (hm : fs.mounted = false) :
    dwp k64XfsUnmount (fun r fs' d' => r = none ∧ fs' = fs ∧ d' = d) fs d := by
  simp [dwp, k64XfsUnmount, k64XfsSync, hm]

theorem super_checksum_sealed (sb : Superblock) :
    (Superblock.sealed sb).checksum = k64XfsSuperChecksum (Superblock.sealed sb) := by
  simp only [Superblock.sealed, k64XfsSuperChecksum]

variable {dev : Geometry} {sb : Superblock}

theorem super_accepted (hl : Layout sb)
    (ht : sb.totalBlocks.toNat ≤ xfsFsBlocks dev) (h84 : 84 ≤ sb.totalBlocks.toNat) :
    superAccepted dev (Superblock.sealed sb) = true := by
  have hdata : sb.dataStart < sb.totalBlocks := by
    rw [hl.dataStart, UInt64.lt_iff_toNat_lt]
    exact Nat.lt_of_lt_of_le (by decide) h84
  unfold superAccepted
  rw [← super_checksum_sealed, beq_self_eq_true, Bool.and_true]
  change (k64Strncmp sb.magic.toList xfsMagic 7 == 0 && sb.versionMajor == 1 && sb.blockSize == 4096 &&
    decide (sb.totalBlocks.toNat ≤ xfsFsBlocks dev) && decide (sb.dataStart < sb.totalBlocks)) = true
  simp [hl.magic, hl.versionMajor, hl.blockSize, ht, hdata]

def mountedVolume (c : Content) (generation : UInt64) : Volume := ⟨c, true, generation, false, 0⟩

structure CleanDisk (dev : Geometry) (d : Disk) (sb : Superblock) (c : Content) : Prop where
  sector : (dev.blockSize != 0 && 4096 % dev.blockSize.toNat == 0) = true
  total : c.total ≤ xfsFsBlocks dev
  flushed : d.flushed = true
  super : superOn d = Superblock.sealed sb
  state : sb.mountState = mountClean
  layout : Layout sb
  stores : StoresContent d.size d.blk c
  totalBlocks : sb.totalBlocks.toNat = c.total
  free : sb.freeBlocks = c.freeBlocks

theorem CleanDisk.withRaws (h : CleanDisk dev d sb c)
    (raws : List (ℕ × XBlock)) : CleanDisk dev { d with raws } sb c :=
  ⟨h.sector, h.total, h.flushed, h.super, h.state, h.layout, h.stores, h.totalBlocks, h.free⟩

theorem mount_super_disk (h : CleanDisk dev d sb c) (fs : Xfs) :
    dwp (mountSuper dev) (fun r fs' d' => r = some (Superblock.sealed sb) ∧ d' = d ∧
      Shows fs' d (mountedVolume c sb.generation) ∧ fs'.super = Superblock.sealed sb ∧
      fs'.txId = 0) fs d := by
  have hsize := h.stores.size_eq
  have hlarge := h.stores.large
  have haccept : superAccepted dev (Superblock.sealed sb) = true :=
    super_accepted h.layout (h.totalBlocks.symm ▸ h.total)
    (h.totalBlocks.symm ▸ hlarge)
  have hsuper : (d.blk 0).record superblockCodec 0 = Superblock.sealed sb := h.super
  simp only [dwp, mountSuper, Proc.wp_bind, Proc.wp_guard, h.sector, if_true, Proc.wpNext_some,
    Proc.wp_update, cacheInit, Proc.wp_request]
  refine ⟨h.flushed, Proc.wp_mono (block_read_tmp (d := d) (by omega) (by decide)) ?_⟩
  intro r fs' d' hread
  obtain ⟨hr, hfs, hd⟩ := hread
  subst hr hfs hd
  simp only [Proc.wpNext_some, Proc.wp_bind, Proc.wp_guard, hsuper, haccept, if_true,
    Proc.wp_update, Proc.wp_pure]
  exact ⟨trivial, trivial, ⟨h.layout.update _ _ _ _, h.stores, h.totalBlocks, h.free, rfl, rfl, rfl,
    rfl, Nat.zero_le _⟩, trivial, Xfs.txId_withTmp _ _⟩

theorem mount_disk (h : CleanDisk dev d sb c) (fs : Xfs) :
    dwp (k64XfsMount dev) (fun r fs' d' => r = some () ∧
      Shows fs' d' (mountedVolume c sb.generation) ∧ Settled mountDirty fs' d' ∧ fs'.txId = 0) fs
      d := by
  have hstate : needsRecovery (Superblock.sealed sb) = false := by
    change (sb.mountState == mountDirty || sb.mountState == mountNeedsRecovery) = false
    rw [h.state]
    decide
  rw [dwp, k64XfsMount, Proc.wp_bind]
  refine Proc.wp_mono (mount_super_disk h fs) ?_
  rintro r fs' d' ⟨rfl, rfl, hshows, hsup, htx⟩
  simp only [Proc.wpNext_some, hstate, Bool.false_eq_true, if_false, Proc.wp_bind, Proc.wp_update]
  refine Proc.wp_mono (write_super_disk (Shows.withState hshows mountDirty) ⟨rfl, by rintro ⟨⟩⟩) ?_
  rintro r fs'' d'' ⟨rfl, hs, hsup', htx', hon⟩
  simp only [Proc.wpNext_some, cacheFlush, Proc.wp_bind, Proc.wp_request, diskGuard, disk,
    Proc.wp_guard, if_true, true_and]
  exact ⟨Shows.flushed hs, ⟨rfl, by rw [hsup']; exact hon, by rw [hsup']; rfl⟩, htx'.trans htx⟩

end XfsMounting
