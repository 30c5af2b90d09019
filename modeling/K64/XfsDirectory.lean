import K64.XfsCalls
import Mathlib.Data.List.DropRight

/-! # Directories and paths

Lines 259 to 557 of `k64_xfs.c`: directory entries, path resolution and the creation of inodes. -/
namespace XfsDirectory

open ByteCodec IoProgram XfsFormat XfsInode XfsCalls

def slash : UInt8 := 47

/-- Names `.` and `..` are refused. -/
def xfsNameValid (name : List UInt8) : Bool :=
  0 < name.length && name.length < 128 && name != [46] && name != [46, 46]

/-- Entry `s` of a directory block, 25 to a block. -/
def dirent (b : XBlock) (s : ℕ) : Dirent := b.record direntCodec (s * 160)

def setDirent (b : XBlock) (s : ℕ) (e : Dirent) : XBlock := b.setRecord direntCodec (s * 160) e

/-- The number of blocks a directory or file of this size takes. -/
def sizeBlocks (size : UInt64) : ℕ := ((size + 4095) / 4096).toNat

def direntMatches (e : Dirent) (name : List UInt8) : Bool :=
  e.inodeId != 0 && e.nameLen != 0 && e.nameLen.toNat == name.length &&
    k64Strncmp e.name.toList name e.nameLen.toNat == 0

def slotNamed (b : XBlock) (name : List UInt8) : Option ℕ :=
  (List.range 25).find? fun s => direntMatches (dirent b s) name

def slotFree (b : XBlock) : Option ℕ :=
  (List.range 25).find? fun s => (dirent b s).inodeId == 0

/-- The block loop of `xfs_dir_find`, with `n` blocks from `b` on to look at. -/
def dirFindFrom (dir : Inode) (name : List UInt8) : ℕ → ℕ → XfsV (Dirent × ℕ × ℕ)
  | _, 0 => Proc.fail
  | b, n + 1 => do
    let tmp ← readDataBlock dir b
    match slotNamed tmp name with
    | some s => return (dirent tmp s, b, s)
    | none => dirFindFrom dir name (b + 1) n

def xfsDirFind (dir : Inode) (name : List UInt8) : XfsV (Dirent × ℕ × ℕ) := do
  Proc.guard (dir.type == typeDirectory)
  dirFindFrom dir name 0 (sizeBlocks dir.size)

def makeDirent (name : List UInt8) (inodeId : UInt32) (type : UInt16) : Dirent :=
  let e := { Dirent.zero with
    inodeId := inodeId
    type := type
    nameLen := UInt16.ofNat name.length
    name := Vector.ofFn fun i => name.getD i 0 }
  { e with checksum := k64XfsDirentChecksum e }

def Inode.ticked (inode : Inode) : Inode := { inode with modifiedTick := inode.modifiedTick + 1 }

/-- The block loop of `xfs_dir_add`: the directory after the entry went into a free slot, or
nothing when every slot is taken. -/
def dirAddFrom (dir : Inode) (e : Dirent) : ℕ → ℕ → XfsV (Option Inode)
  | _, 0 => pure none
  | b, n + 1 => do
    let tmp ← readDataBlock dir b
    match slotFree tmp with
    | some s =>
      scratch (setDirent tmp s e)
      writeDataBlock dir b (setDirent tmp s e)
      let dir := Inode.ticked dir
      writeInode dir
      return some dir
    | none => dirAddFrom dir e (b + 1) n

/-- The directory with one more block behind it. -/
def Inode.grown (dir : Inode) (newBlock : ℕ) : Inode :=
  { dir with
    directExtents := dir.directExtents.setIfInBounds dir.extentCount.toNat
      { (dir.directExtents[dir.extentCount.toNat]?.getD Extent.zero) with
        logicalBlock := UInt64.ofNat dir.extentCount.toNat
        physicalBlock := UInt64.ofNat newBlock
        blockCount := 1 }
    extentCount := dir.extentCount + 1
    size := dir.size + 4096
    modifiedTick := dir.modifiedTick + 1 }

def xfsDirAdd (dir : Inode) (name : List UInt8) (inodeId : UInt32) (type : UInt16) :
    XfsV Inode := do
  Proc.guard (xfsNameValid name && inodeId != 0)
  let found ← (xfsDirFind dir name).attempt
  Proc.guard found.isNone
  let e := makeDirent name inodeId type
  match ← dirAddFrom dir e 0 (sizeBlocks dir.size) with
  | some dir => return dir
  | none =>
    let newBlock ← allocExtent 1
    let tmp := setDirent Block.zero 0 e
    scratch tmp
    blockWrite newBlock tmp
    if 8 ≤ dir.extentCount.toNat then
      let _ ← (freeExtent newBlock 1).attempt
      Proc.fail
    else
      let dir := Inode.grown dir newBlock
      writeInode dir
      return dir

def xfsDirRemove (dir : Inode) (name : List UInt8) : XfsV Inode := do
  let (_, b, s) ← xfsDirFind dir name
  let tmp ← readDataBlock dir b
  let tmp := setDirent tmp s Dirent.zero
  scratch tmp
  writeDataBlock dir b tmp
  let dir := Inode.ticked dir
  writeInode dir
  return dir

/-- `xfs_split_parent` into buffers of 256 and 128 bytes: the parent path and the last component
after trailing slashes are stripped. -/
def xfsSplitParent (path : List UInt8) : Option (List UInt8 × List UInt8) :=
  if path.head? ≠ some slash then none
  else
    let p := path.rdropWhile (· == slash)
    if p = [] then none
    else
      let leaf := p.rtakeWhile (· != slash)
      let start := p.length - leaf.length
      if 128 ≤ leaf.length then none
      else if 1 < start ∧ 256 ≤ start - 1 then none
      else if xfsNameValid leaf then some (if start ≤ 1 then [slash] else p.take (start - 1), leaf)
      else none

/-- The tokens of a path, with `cur` read since the last slash. -/
def tokensFrom (cur : List UInt8) : List UInt8 → List (List UInt8)
  | [] => if cur = [] then [] else [cur]
  | c :: cs =>
    if c = slash then (if cur = [] then tokensFrom [] cs else cur :: tokensFrom [] cs)
    else tokensFrom (cur ++ [c]) cs

def tokens (path : List UInt8) : List (List UInt8) := tokensFrom [] path

/-- The component loop of `xfs_resolve`; a component has to fit the 128-byte token buffer. -/
def resolveFrom : UInt32 × Inode → List (List UInt8) → XfsV (UInt32 × Inode)
  | current, [] => pure current
  | current, token :: rest => do
    Proc.guard (token.length < 128)
    let (ent, _, _) ← xfsDirFind current.2 token
    let inode ← readInode ent.inodeId
    resolveFrom (ent.inodeId, inode) rest

def xfsResolve (path : List UInt8) : XfsV (UInt32 × Inode) := do
  let fs ← info
  Proc.guard (fs.mounted && path.head? == some slash)
  let root ← readInode fs.rootInode
  resolveFrom (fs.rootInode, root) (tokens path)

def modeBits (type : UInt16) (mode : UInt32) : UInt16 :=
  ((if type = typeDirectory then (0o40000 : UInt32) else 0o100000) ||| (mode &&& 0o7777)).toUInt16

def newInode (generation : UInt64) (inodeId : UInt32) (type : UInt16) (mode uid gid : UInt32) :
    Inode :=
  { Inode.zero with
    magic := inodeMagic
    inodeId := inodeId
    type := type
    mode := modeBits type mode
    uid := uid
    gid := gid
    linkCount := 1
    createdTick := generation + 1
    modifiedTick := generation + 1
    accessedTick := generation + 1
    generation := generation + 1 }

def xfsMakeInode (inodeId : UInt32) (type : UInt16) (mode uid gid : UInt32) : XfsV Inode := do
  let fs ← info
  let inode := newInode fs.generation inodeId type mode uid gid
  writeInode inode
  return inode

def singleExtent (start blocks : ℕ) : Extent :=
  { Extent.zero with physicalBlock := UInt64.ofNat start, blockCount := UInt64.ofNat blocks }

def Inode.withBlock (inode : Inode) (dataBlock : ℕ) : Inode :=
  { inode with
    size := 4096
    extentCount := 1
    directExtents := inode.directExtents.set 0 (singleExtent dataBlock 1) }

/-- A new directory gets one zeroed block. -/
def xfsGiveBlock (inode : Inode) : XfsV Inode := do
  match ← (allocExtent 1).attempt with
  | none =>
    let _ ← (freeInode inode.inodeId).attempt
    Proc.fail
  | some dataBlock =>
    scratch Block.zero
    blockWrite dataBlock Block.zero
    let inode := Inode.withBlock inode dataBlock
    writeInode inode
    return inode

/-- The part of `xfs_create_at` behind its checks. -/
def createBody (parent : Inode) (leaf : List UInt8) (type : UInt16) (mode uid gid : UInt32) :
    XfsV Inode := do
  let inodeId ← allocInode
  let inode ← xfsMakeInode inodeId type mode uid gid
  let inode ← if type = typeDirectory then xfsGiveBlock inode else pure inode
  let _ ← xfsDirAdd parent leaf inodeId type
  return inode

def xfsCreateAt (path : List UInt8) (type : UInt16) (mode uid gid : UInt32) : XfsV Inode := do
  let (parentPath, leaf) ← Proc.orFail (xfsSplitParent path)
  let (_, parent) ← xfsResolve parentPath
  Proc.guard (parent.type == typeDirectory)
  let found ← (xfsDirFind parent leaf).attempt
  Proc.guard found.isNone
  createBody parent leaf type mode uid gid

end XfsDirectory
