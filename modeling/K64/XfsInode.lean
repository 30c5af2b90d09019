import K64.XfsJournal

/-! # Blocks, inodes and extents

Lines 34 to 257 of `k64_xfs.c`: geometry, journaled block writes, the inode table, the two bitmap
allocators, and the extent map of a file. -/
namespace XfsInode

open ByteCodec IoProgram XfsFormat XfsCache XfsJournal

def xfsFsBlocks (dev : Geometry) : ℕ :=
  if dev.blockSize = 0 then 0
  else dev.blockCount.toNat * dev.blockSize.toNat % 2 ^ 64 / 4096

def xfsDevOk (dev : Geometry) : Bool :=
  dev.online && dev.hasRead && dev.hasWrite && dev.writable &&
    dev.blockSize != 0 && 4096 % dev.blockSize.toNat == 0 && 64 ≤ xfsFsBlocks dev

def xfsInodeTableBlocks : ℕ := (512 * 372 + 4096 - 1) / 4096

def xfsDataStart : ℕ := 3 + 32 + xfsInodeTableBlocks

def xfsBlockRead (block : ℕ) : XfsM XBlock := cacheRead block

/-- A read into `xfs_tmp_block`. -/
def xfsBlockReadTmp (block : ℕ) : XfsM XBlock := do
  let b ← xfsBlockRead block
  setTmp b
  return b

/-- Metadata blocks go to the journal before the cached copy changes. -/
def isMetadata (sb : Superblock) (block : ℕ) : Bool :=
  block < sb.dataStart.toNat && (block < sb.journalStart.toNat ||
    (sb.journalStart.toNat + sb.journalBlocks.toNat) % 2 ^ 64 ≤ block)

def xfsBlockWrite (block : ℕ) (data : XBlock) : XfsM Unit := do
  let fs ← Proc.load
  if fs.journalActive && isMetadata fs.super block then k64XfsJournalMetadata block data
  cacheWrite block data

/-- The block and the byte offset of an inode in the inode table, eleven records to a block. -/
def inodeBlock (sb : Superblock) (inodeId : UInt32) : ℕ :=
  (sb.inodeTableStart.toNat + (inodeId.toNat - 1) / 11) % 2 ^ 64

def inodeOffset (inodeId : UInt32) : ℕ := (inodeId.toNat - 1) % 11 * 372

def Inode.sealed (inode : Inode) : Inode := { inode with checksum := k64XfsInodeChecksum inode }

/-- The acceptance test of `xfs_read_inode`. -/
def inodeValid (inode : Inode) (inodeId : UInt32) : Bool :=
  inode.magic == inodeMagic && inode.inodeId == inodeId &&
    inode.checksum == k64XfsInodeChecksum inode

def xfsReadInode (inodeId : UInt32) : XfsM Inode := do
  Proc.guard (inodeId != 0 && inodeId.toNat ≤ 512)
  let fs ← Proc.load
  let tmp ← xfsBlockReadTmp (inodeBlock fs.super inodeId)
  let out := tmp.record inodeCodec (inodeOffset inodeId)
  Proc.guard (inodeValid out inodeId)
  return out

def xfsWriteInode (inode : Inode) : XfsM Unit := do
  Proc.guard (inode.inodeId != 0 && inode.inodeId.toNat ≤ 512)
  let fs ← Proc.load
  let block := inodeBlock fs.super inode.inodeId
  let tmp ← xfsBlockReadTmp block
  let tmp := tmp.setRecord inodeCodec (inodeOffset inode.inodeId) (Inode.sealed inode)
  setTmp tmp
  xfsBlockWrite block tmp

def Superblock.sealed (sb : Superblock) : Superblock :=
  { sb with checksum := k64XfsSuperChecksum sb }

/-- The record covers 3980 of the 4096 bytes; the rest of the block is what `xfs_tmp_block` had. -/
def xfsWriteSuper : XfsM Unit := do
  let fs ← Proc.load
  let tmp := fs.tmp.setRecord superblockCodec 0 (Superblock.sealed fs.super)
  setTmp tmp
  xfsBlockWrite 0 tmp

def xfsAllocInode : XfsM UInt32 := do
  let fs ← Proc.load
  let tmp ← xfsBlockReadTmp fs.super.inodeBitmapStart.toNat
  let i ← Proc.orFail ((List.range' 1 511).find? fun i => !xfsBitmapGet tmp i)
  let tmp := xfsBitmapSet tmp i true
  setTmp tmp
  xfsBlockWrite fs.super.inodeBitmapStart.toNat tmp
  return UInt32.ofNat (i + 1)

def xfsFreeInode (inodeId : UInt32) : XfsM Unit := do
  Proc.guard (inodeId != 0 && inodeId.toNat ≤ 512)
  let fs ← Proc.load
  let tmp ← xfsBlockReadTmp fs.super.inodeBitmapStart.toNat
  let tmp := xfsBitmapSet tmp (inodeId.toNat - 1) false
  setTmp tmp
  xfsBlockWrite fs.super.inodeBitmapStart.toNat tmp

/-- The scan of `xfs_alloc_extent` for a run of `blocks` unused blocks, with `n` of them from `b`
still to look at and a run of `runLen` unused ones since `runStart` behind it. -/
def allocScan (used : ℕ → Bool) (blocks : ℕ) : (b n runStart runLen : ℕ) → Option ℕ
  | _, 0, _, _ => none
  | b, n + 1, runStart, runLen =>
    if used b then allocScan used blocks (b + 1) n runStart 0
    else
      let runStart := if runLen = 0 then b else runStart
      if runLen + 1 = blocks then some runStart
      else allocScan used blocks (b + 1) n runStart (runLen + 1)

def setRun (bitmap : XBlock) (start blocks : ℕ) : XBlock :=
  (List.range blocks).foldl (fun t x => xfsBitmapSet t ((start + x) % 2 ^ 32) true) bitmap

def xfsAllocExtent (blocks : ℕ) : XfsM ℕ := do
  Proc.guard (blocks != 0 && blocks ≤ 2 ^ 32 - 1)
  let fs ← Proc.load
  let sb := fs.super
  let tmp ← xfsBlockReadTmp sb.blockBitmapStart.toNat
  let start ← Proc.orFail (allocScan (fun b => xfsBitmapGet tmp (b % 2 ^ 32)) blocks
    sb.dataStart.toNat (sb.totalBlocks.toNat - sb.dataStart.toNat) 0 0)
  let tmp := setRun tmp start blocks
  setTmp tmp
  Proc.guard (blocks ≤ sb.freeBlocks.toNat)
  Proc.update fun fs => fs.withFree (fs.super.freeBlocks - UInt64.ofNat blocks)
  xfsBlockWrite sb.blockBitmapStart.toNat tmp
  return start

/-- The loop of `xfs_free_extent`: the bitmap and how many bits it cleared. -/
def clearRun (bitmap : XBlock) (start blocks : ℕ) : XBlock × ℕ :=
  (List.range blocks).foldl (fun t i =>
    if xfsBitmapGet t.1 ((start + i) % 2 ^ 32) then
      (xfsBitmapSet t.1 ((start + i) % 2 ^ 32) false, t.2 + 1)
    else t) (bitmap, 0)

def xfsFreeExtent (start blocks : ℕ) : XfsM Unit := do
  let fs ← Proc.load
  let sb := fs.super
  Proc.guard (blocks != 0 && sb.dataStart.toNat ≤ start &&
    (start + blocks) % 2 ^ 64 ≤ sb.totalBlocks.toNat)
  let tmp ← xfsBlockReadTmp sb.blockBitmapStart.toNat
  let (tmp, freed) := clearRun tmp start blocks
  setTmp tmp
  Proc.update fun fs => fs.withFree (fs.super.freeBlocks + UInt64.ofNat freed)
  xfsBlockWrite sb.blockBitmapStart.toNat tmp

/-- The extents the loops over `direct_extents` visit. -/
def Inode.extents (inode : Inode) : List Extent :=
  inode.directExtents.toList.take inode.extentCount.toNat

def Extent.covers (ex : Extent) (logical : ℕ) : Bool :=
  ex.logicalBlock.toNat ≤ logical &&
    logical < (ex.logicalBlock.toNat + ex.blockCount.toNat) % 2 ^ 64

def Extent.target (ex : Extent) (logical : ℕ) : ℕ :=
  (ex.physicalBlock.toNat + (logical - ex.logicalBlock.toNat)) % 2 ^ 64

/-- The block a logical block of a file is stored in. -/
def Inode.lookup (inode : Inode) (logical : ℕ) : Option ℕ :=
  ((Inode.extents inode).find? fun ex => Extent.covers ex logical).map fun ex =>
    Extent.target ex logical

theorem lookup_inside {inode : Inode} {logical n : ℕ} (hl : Inode.lookup inode logical = some n)
    (h : ∀ ex ∈ Inode.extents inode, ex.physicalBlock.toNat + ex.blockCount.toNat ≤ 2 ^ 64) :
    ∃ ex ∈ Inode.extents inode, ex.physicalBlock.toNat ≤ n ∧
      n < ex.physicalBlock.toNat + ex.blockCount.toNat := by
  obtain ⟨ex, hex, rfl⟩ := Option.map_eq_some_iff.mp hl
  have hc := List.find?_some hex
  have hmem := List.mem_of_find?_eq_some hex
  have hend := h ex hmem
  simp only [Extent.covers, Bool.and_eq_true, decide_eq_true_eq] at hc
  have hlt : logical < ex.logicalBlock.toNat + ex.blockCount.toNat :=
    lt_of_lt_of_le hc.2 (Nat.mod_le _ _)
  refine ⟨ex, hmem, ?_⟩
  rw [Extent.target, Nat.mod_eq_of_lt (by omega)]
  omega

/-- A read into `xfs_tmp_block`, which all callers pass; a hole reads as zeroes. -/
def xfsInodeReadDataBlock (inode : Inode) (logical : ℕ) : XfsM XBlock :=
  match Inode.lookup inode logical with
  | some block => xfsBlockReadTmp block
  | none => do
    setTmp Block.zero
    return Block.zero

def xfsInodeWriteDataBlock (inode : Inode) (logical : ℕ) (data : XBlock) : XfsM Unit :=
  match Inode.lookup inode logical with
  | some block => xfsBlockWrite block data
  | none => Proc.fail

end XfsInode
