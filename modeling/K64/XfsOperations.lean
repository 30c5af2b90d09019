import K64.XfsDirectory

/-! # The public file and directory calls

The calls of `k64_xfs.c` on a mounted volume. A call that returns `false` answers `none`. -/
namespace XfsOperations

open ByteCodec IoProgram XfsFormat XfsInode XfsCalls XfsDirectory

/-- `xfs_copy` into a zeroed array of `n` bytes. -/
def xfsCopy (n : ℕ) (src : List UInt8) : Vector UInt8 n :=
  Vector.ofFn fun i => (src.take (n - 1)).getD i 0

/-- `k64_fs_stat_t`; its `exists` field is set exactly when the call succeeds. -/
structure FsStat where
  isDir : Bool
  size : UInt64
  mode : UInt32
  uid : UInt32
  gid : UInt32
  createdTick : UInt64
  modifiedTick : UInt64
  generation : UInt64
  path : Vector UInt8 256

def orRoot (path : CString) : List UInt8 := if path.bytes = [] then [slash] else path.bytes

def k64XfsStat (path : CString) : XfsV FsStat := do
  let (_, inode) ← xfsResolve (orRoot path)
  return {
    isDir := inode.type == typeDirectory
    size := inode.size
    mode := inode.mode.toUInt32
    uid := inode.uid
    gid := inode.gid
    createdTick := inode.createdTick
    modifiedTick := inode.modifiedTick
    generation := inode.generation
    path := xfsCopy 256 (orRoot path) }

/-- One line of the listing, cut where the buffer of `outSize` bytes is full. -/
def listEntry (outSize : ℤ) (out : List UInt8) (e : Dirent) : List UInt8 :=
  if e.inodeId = 0 then out
  else
    let out := (e.name.toList.take e.nameLen.toNat).foldl
      (fun o c => if (o.length : ℤ) + 2 < outSize then o ++ [c] else o) out
    let out := if e.type = typeDirectory ∧ (out.length : ℤ) + 2 < outSize then out ++ [slash]
      else out
    if (out.length : ℤ) + 1 < outSize then out ++ [10] else out

def listFrom (dir : Inode) (outSize : ℤ) : ℕ → ℕ → List UInt8 → XfsV (List UInt8)
  | _, 0, out => pure out
  | b, n + 1, out => do
    let tmp ← readDataBlock dir b
    listFrom dir outSize (b + 1) n
      ((List.range 25).foldl (fun o s => listEntry outSize o (dirent tmp s)) out)

def k64XfsListDir (path : CString) (outSize : ℤ) : XfsV (List UInt8) := do
  Proc.guard (0 < outSize)
  let (_, dir) ← xfsResolve (orRoot path)
  Proc.guard (dir.type == typeDirectory)
  listFrom dir outSize 0 (sizeBlocks dir.size) []

def k64XfsMkdir (path : CString) (mode uid gid : UInt32) : XfsV Unit := do
  journalBegin
  let _ ← xfsCreateAt path.bytes typeDirectory (if mode = 0 then 0o755 else mode) uid gid
  journalCommit
  writeSuper

def k64XfsCreate (path : CString) (mode uid gid : UInt32) : XfsV Unit := do
  journalBegin
  let _ ← xfsCreateAt path.bytes typeRegular (if mode = 0 then 0o644 else mode) uid gid
  journalCommit
  writeSuper

def freeExtents : List Extent → XfsV Unit
  | [] => pure ()
  | ex :: rest => do
    if ex.blockCount ≠ 0 then freeExtent ex.physicalBlock.toNat ex.blockCount.toNat
    freeExtents rest

def Inode.emptied (inode : Inode) : Inode :=
  { inode with
    directExtents := Vector.replicate 8 Extent.zero
    extentCount := 0
    size := 0 }

def xfsFreeFileExtents (inode : Inode) : XfsV Inode := do
  freeExtents (Inode.extents inode)
  return Inode.emptied inode

/-- Block `b` of the data, padded with zeroes. -/
def dataChunk (data : List UInt8) (b : ℕ) : XBlock :=
  Block.zero.write 0 ((data.drop (b * 4096)).take 4096)

def writeChunk (start : ℕ) (data : List UInt8) (b : ℕ) : XfsV Unit := do
  scratch (dataChunk data b)
  blockWrite ((start + b) % 2 ^ 64) (dataChunk data b)

theorem extents_pos : 0 < 8 := by decide

def Inode.withRun (inode : Inode) (start blocks : ℕ) : Inode :=
  { inode with
    extentCount := 1
    directExtents := inode.directExtents.set 0 (singleExtent start blocks) extents_pos }

/-- The new blocks of a file; an empty one has none. -/
def placeData (inode : Inode) (data : List UInt8) (blocks : ℕ) : XfsV Inode :=
  if 0 < blocks then do
    let start ← allocExtent blocks
    Proc.loop (writeChunk start data) 0 blocks
    return Inode.withRun inode start blocks
  else pure inode

def Inode.stamped (inode : Inode) (size : UInt64) (uid gid : UInt32) (tick : UInt64) : Inode :=
  { inode with
    size := size
    uid := uid
    gid := gid
    modifiedTick := tick }

/-- The part of `k64_xfs_write_file` inside its transaction. -/
def writeBody (inode : Inode) (data : List UInt8) (blocks : ℕ) (uid gid : UInt32) :
    XfsV Unit := do
  let inode ← xfsFreeFileExtents inode
  let inode ← placeData inode data blocks
  let fs ← info
  writeInode (Inode.stamped inode (UInt64.ofNat data.length) uid gid (fs.generation + 1))

/-- The inode a write goes to; a missing file is created first. -/
def writeTarget (path : CString) (uid gid : UInt32) : XfsV (UInt32 × Inode) := do
  match ← (xfsResolve path.bytes).attempt with
  | some target => return target
  | none =>
    k64XfsCreate path 0o644 uid gid
    xfsResolve path.bytes

/-- The part of `k64_xfs_write_file` behind the lookup. -/
def writeExisting (inode : Inode) (data : List UInt8) (uid gid : UInt32) : XfsV Unit := do
  Proc.guard (inode.type == typeRegular)
  let blocks := (data.length + 4095) % 2 ^ 64 / 4096
  Proc.guard (blocks ≤ 2 ^ 32 - 1)
  journalBegin
  writeBody inode data blocks uid gid
  journalCommit
  writeSuper

def k64XfsWriteFile (path : CString) (data : List UInt8) (uid gid : UInt32) : XfsV Unit := do
  let (_, inode) ← writeTarget path uid gid
  writeExisting inode data uid gid

/-- The copy loop of `k64_xfs_read_file`, with `out` the bytes copied so far. -/
def readFrom (inode : Inode) (max : ℕ) (out : List UInt8) : XfsV (List UInt8) :=
  if _h : out.length < inode.size.toNat ∧ out.length < max then do
    let logical := out.length / 4096
    let inBlock := out.length % 4096
    Proc.guard (logical < sizeBlocks inode.size)
    let tmp ← readDataBlock inode logical
    readFrom inode max (out ++ tmp.read inBlock
      (min (4096 - inBlock) (min (inode.size.toNat - out.length) (max - out.length))))
  else pure out
termination_by inode.size.toNat - out.length
decreasing_by
  have := Nat.mod_lt out.length (show 4096 > 0 by decide)
  simp only [List.length_append, Block.length_read]
  omega

def k64XfsReadFile (path : CString) (max : ℕ) : XfsV (List UInt8) := do
  let (_, inode) ← xfsResolve path.bytes
  Proc.guard (inode.type == typeRegular)
  readFrom inode max []

def k64XfsTruncate (path : CString) (newSize : ℕ) : XfsV Unit := do
  let (_, inode) ← xfsResolve path.bytes
  Proc.guard (inode.type == typeRegular)
  if newSize = 0 then k64XfsWriteFile path [] inode.uid inode.gid
  else if newSize ≤ inode.size.toNat then do
    Proc.guard (newSize ≤ 4096)
    let buf ← k64XfsReadFile path newSize
    k64XfsWriteFile path buf inode.uid inode.gid
  else k64XfsWriteFile path [0] inode.uid inode.gid

/-- The part of `k64_xfs_remove` and `k64_xfs_rmdir` that takes the inode out. -/
def unlinkBody (parent inode : Inode) (inodeId : UInt32) (leaf : List UInt8) : XfsV Unit := do
  let _ ← xfsFreeFileExtents inode
  freeInode inodeId
  let _ ← xfsDirRemove parent leaf

def k64XfsRemove (path : CString) : XfsV Unit := do
  let (parentPath, leaf) ← Proc.orFail (xfsSplitParent path.bytes)
  let (_, parent) ← xfsResolve parentPath
  let (inodeId, inode) ← xfsResolve path.bytes
  Proc.guard (inode.type == typeRegular)
  journalBegin
  unlinkBody parent inode inodeId leaf
  let _ ← (writeInode { Inode.zero with inodeId := inodeId }).attempt
  journalCommit
  writeSuper

def k64XfsRmdir (path : CString) : XfsV Unit := do
  let (parentPath, leaf) ← Proc.orFail (xfsSplitParent path.bytes)
  let (_, parent) ← xfsResolve parentPath
  let (inodeId, inode) ← xfsResolve path.bytes
  Proc.guard (inode.type == typeDirectory && inode.size == 4096)
  let tmp ← readDataBlock inode 0
  Proc.guard ((List.range 25).all fun s => (dirent tmp s).inodeId == 0)
  journalBegin
  unlinkBody parent inode inodeId leaf
  journalCommit
  writeSuper

/-- Neither journaled nor followed by a superblock write, and the two parents are separate copies
even when they are the same directory. -/
def k64XfsRename (oldPath newPath : CString) : XfsV Unit := do
  let (oldParentPath, oldLeaf) ← Proc.orFail (xfsSplitParent oldPath.bytes)
  let (newParentPath, newLeaf) ← Proc.orFail (xfsSplitParent newPath.bytes)
  let (_, oldParent) ← xfsResolve oldParentPath
  let (_, newParent) ← xfsResolve newParentPath
  let (inodeId, inode) ← xfsResolve oldPath.bytes
  let found ← (xfsDirFind newParent newLeaf).attempt
  Proc.guard found.isNone
  let _ ← xfsDirAdd newParent newLeaf inodeId inode.type
  let _ ← xfsDirRemove oldParent oldLeaf

/-- The common end of `k64_xfs_chmod` and `k64_xfs_chown`. -/
def changeInode (f : UInt64 → Inode → Inode) (path : CString) : XfsV Unit := do
  let (_, inode) ← xfsResolve path.bytes
  let fs ← info
  journalBegin
  writeInode (f (fs.generation + 1) inode)
  journalCommit
  writeSuper

def k64XfsChmod (path : CString) (mode : UInt32) : XfsV Unit :=
  changeInode (fun tick inode =>
    { inode with mode := modeBits inode.type mode, modifiedTick := tick }) path

def k64XfsChown (path : CString) (uid gid : UInt32) : XfsV Unit :=
  changeInode (fun tick inode => { inode with uid := uid, gid := gid, modifiedTick := tick }) path

end XfsOperations
