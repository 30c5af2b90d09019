import K64.XfsOperations

/-! # Formatting, mounting and checking a volume

`k64_xfs_format`, `k64_xfs_mount`, `k64_xfs_sync`, `k64_xfs_unmount` and `k64_xfs_check`, which work
on whole blocks and on the superblock. -/
namespace XfsVolumeLifecycle

open ByteCodec IoProgram XfsFormat XfsCache XfsJournal XfsInode XfsDirectory XfsOperations

/-- The bytes of "K64XFS", the label used when none is given. -/
def defaultLabel : List UInt8 := [75, 54, 52, 88, 70, 83]

def formatSuper (totalBlocks : ℕ) (label : List UInt8) : Superblock :=
  { Superblock.zero with
    magic := Vector.ofFn fun i => xfsMagic.getD i 0
    versionMajor := 1
    versionMinor := 0
    blockSize := 4096
    totalBlocks := UInt64.ofNat totalBlocks
    inodeBitmapStart := 1
    inodeBitmapBlocks := 1
    blockBitmapStart := 2
    blockBitmapBlocks := 1
    journalStart := 3
    journalBlocks := 32
    inodeTableStart := 35
    inodeTableBlocks := UInt64.ofNat xfsInodeTableBlocks
    dataStart := UInt64.ofNat xfsDataStart
    rootInode := 1
    mountState := mountClean
    generation := 1
    label := xfsCopy 32 (if label = [] then defaultLabel else label)
    uuid := Vector.ofFn fun i => 0x64 + UInt8.ofNat i + UInt8.ofNat totalBlocks
    freeBlocks := UInt64.ofNat (totalBlocks - xfsDataStart - 1) }

def formatRoot : Inode :=
  { Inode.zero with
    magic := inodeMagic
    inodeId := 1
    type := typeDirectory
    mode := 0o40755
    size := 4096
    linkCount := 1
    createdTick := 1
    modifiedTick := 1
    accessedTick := 1
    generation := 1
    extentCount := 1
    directExtents := Inode.zero.directExtents.set 0 (singleExtent xfsDataStart 1) extents_pos }

/-- The mount structure is a local variable here, and the cache is its own. -/
def k64XfsFormat (dev : Geometry) (label : CString) : XfsM Unit := do
  Proc.guard (xfsDevOk dev)
  let totalBlocks := xfsFsBlocks dev
  Proc.guard (xfsDataStart + 1 < totalBlocks && totalBlocks ≤ 2 ^ 32 - 1)
  Proc.update fun fs => { fs.cleared with mounted := true }
  cacheInit
  Proc.loop (fun b => xfsBlockWrite b Block.zero) 0 (xfsDataStart + 1)
  let sb := Superblock.sealed (formatSuper totalBlocks label.bytes)
  Proc.update fun fs => { fs with super := sb }
  let tmp := xfsBitmapSet Block.zero 0 true
  setTmp tmp
  xfsBlockWrite sb.inodeBitmapStart.toNat tmp
  let tmp := setRun Block.zero 0 (xfsDataStart + 1)
  setTmp tmp
  xfsBlockWrite sb.blockBitmapStart.toNat tmp
  xfsWriteInode formatRoot
  setTmp Block.zero
  xfsBlockWrite xfsDataStart Block.zero
  xfsWriteSuper
  cacheFlush

/-- The superblock tests of `k64_xfs_mount`. -/
def superAccepted (dev : Geometry) (sb : Superblock) : Bool :=
  k64Strncmp sb.magic.toList xfsMagic 7 == 0 && sb.versionMajor == 1 && sb.blockSize == 4096 &&
    sb.totalBlocks.toNat ≤ xfsFsBlocks dev && sb.dataStart < sb.totalBlocks &&
    sb.checksum == k64XfsSuperChecksum sb

def needsRecovery (sb : Superblock) : Bool :=
  sb.mountState == mountDirty || sb.mountState == mountNeedsRecovery

/-- Mounting up to the point where the journal is looked at. -/
def mountSuper (dev : Geometry) : XfsM Superblock := do
  Proc.guard (dev.blockSize != 0 && 4096 % dev.blockSize.toNat == 0)
  Proc.update Xfs.cleared
  cacheInit
  let tmp ← xfsBlockReadTmp 0
  let sb := tmp.record superblockCodec 0
  Proc.guard (superAccepted dev sb)
  Proc.update fun fs => { fs with super := sb, mounted := true }
  return sb

def k64XfsMount (dev : Geometry) : XfsM Unit := do
  let sb ← mountSuper dev
  if needsRecovery sb then k64XfsJournalRecover
  Proc.update fun fs => fs.withState mountDirty
  xfsWriteSuper
  cacheFlush

def k64XfsSync : XfsM Unit := do
  let fs ← Proc.load
  Proc.guard fs.mounted
  Proc.update fun fs => fs.withState mountClean
  xfsWriteSuper
  cacheFlush

def k64XfsUnmount : XfsM Unit := do
  k64XfsSync
  Proc.update fun fs => { fs with mounted := false }

/-- `k64_xfs_check_report_t`, with the bitmap of blocks seen so far. -/
structure CheckReport where
  errors : UInt32
  usedInodes : UInt32
  usedBlocks : UInt64
  message : String
  seen : XBlock

/-- Counts an error; the first one gives the message. -/
def CheckReport.error (r : CheckReport) (message : String) : CheckReport :=
  { r with errors := r.errors + 1, message := if r.message = "" then message else r.message }

def checkBlock (sb : Superblock) (bitmap : XBlock) (r : CheckReport) (b : ℕ) : CheckReport :=
  let small := sb.totalBlocks.toNat ≤ 32768
  let r := if !xfsBitmapGet bitmap (b % 2 ^ 32) then r.error "extent block unmarked"
    else if small ∧ xfsBitmapGet r.seen (b % 2 ^ 32) then r.error "extent block duplicate"
    else r
  if small then { r with seen := xfsBitmapSet r.seen (b % 2 ^ 32) true } else r

def checkExtent (sb : Superblock) (bitmap : XBlock) (r : CheckReport) (ex : Extent) :
    CheckReport :=
  let start := ex.physicalBlock.toNat
  let count := ex.blockCount.toNat
  if count = 0 ∨ start < sb.dataStart.toNat ∨ 2 ^ 64 - 1 - count < start ∨
      sb.totalBlocks.toNat < start + count then r.error "bad extent range"
  else
    let r := (List.range' start count).foldl (checkBlock sb bitmap) r
    { r with usedBlocks := r.usedBlocks + ex.blockCount }

def checkFields (r : CheckReport) (inode : Inode) : CheckReport :=
  if inode.type < typeRegular ∨ typePipe < inode.type ∨ 8 < inode.extentCount.toNat then
    r.error "bad inode fields"
  else r

/-- The inode loop, over the `n` inodes from index `i` on. -/
def checkInodes (sb : Superblock) (inodeBitmap bitmap : XBlock) :
    ℕ → ℕ → CheckReport → XfsM CheckReport
  | _, 0, r => pure r
  | i, n + 1, r =>
    if !xfsBitmapGet inodeBitmap i then checkInodes sb inodeBitmap bitmap (i + 1) n r
    else do
      let r := { r with usedInodes := r.usedInodes + 1 }
      match ← (xfsReadInode (UInt32.ofNat (i + 1))).attempt with
      | none => checkInodes sb inodeBitmap bitmap (i + 1) n (r.error "bad used inode")
      | some inode =>
        checkInodes sb inodeBitmap bitmap (i + 1) n
          ((Inode.extents inode).foldl (checkExtent sb bitmap) (checkFields r inode))

/-- The clear bits of the data area. -/
def bitmapFree (sb : Superblock) (bitmap : XBlock) : ℕ :=
  (List.range' sb.dataStart.toNat (sb.totalBlocks.toNat - sb.dataStart.toNat)).countP fun b =>
    !xfsBitmapGet bitmap (b % 2 ^ 32)

structure CheckResult where
  ok : Bool
  errors : UInt32
  usedInodes : UInt32
  usedBlocks : UInt64
  freeBlocks : UInt64
  message : String

def CheckResult.bad (message : String) : CheckResult := ⟨false, 1, 0, 0, 0, message⟩

def checkSuper (fs : Xfs) : Bool :=
  fs.mounted && k64Strncmp fs.super.magic.toList xfsMagic 7 == 0 &&
    fs.super.blockSize == 4096 && fs.super.rootInode == 1 &&
    fs.super.dataStart < fs.super.totalBlocks

def checkFinish (sb : Superblock) (bitmap : XBlock) (r : CheckReport) : CheckResult :=
  let free := UInt64.ofNat (bitmapFree sb bitmap)
  let r := if free ≠ sb.freeBlocks then r.error "free count mismatch" else r
  { ok := r.errors == 0
    errors := r.errors
    usedInodes := r.usedInodes
    usedBlocks := r.usedBlocks
    freeBlocks := free
    message := if r.errors = 0 then "K64XFS check: OK"
      else if r.message = "" then "K64XFS check: errors" else r.message }

def checkRoot (sb : Superblock) : XfsM CheckReport := do
  let clear : CheckReport := ⟨0, 0, 0, "", Block.zero⟩
  match ← (xfsReadInode sb.rootInode).attempt with
  | none => return clear.error "bad root inode"
  | some root =>
    return if root.type ≠ typeDirectory then clear.error "bad root inode" else clear

def readBitmaps (sb : Superblock) : XfsM (XBlock × XBlock) := do
  let inodeBitmap ← xfsBlockRead sb.inodeBitmapStart.toNat
  let bitmap ← xfsBlockRead sb.blockBitmapStart.toNat
  return (inodeBitmap, bitmap)

def k64XfsCheck : XfsM CheckResult := do
  let fs ← Proc.load
  if !checkSuper fs then return CheckResult.bad "bad superblock"
  else
    match ← (readBitmaps fs.super).attempt with
    | none => return CheckResult.bad "bitmap read failed"
    | some (inodeBitmap, bitmap) =>
      let r ← checkRoot fs.super
      let r ← checkInodes fs.super inodeBitmap bitmap 0 512 r
      return checkFinish fs.super bitmap r

end XfsVolumeLifecycle
