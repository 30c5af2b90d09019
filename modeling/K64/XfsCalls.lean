import K64.XfsInode

/-! # The calls between the two layers of K64XFS

The directory and file functions touch the volume only through the inode, extent and journal
functions below them. Written over these calls they run on the block layer, and equally on a typed
volume that answers the same calls. -/
namespace XfsCalls

open IoProgram XfsFormat XfsJournal XfsInode

/-- What the upper functions read of the mount structure. -/
structure FsInfo where
  mounted : Bool
  rootInode : UInt32
  generation : UInt64

inductive Call where
  | info
  | setTmp (b : XBlock)
  | readInode (inodeId : UInt32)
  | writeInode (inode : Inode)
  | allocInode
  | freeInode (inodeId : UInt32)
  | allocExtent (blocks : ℕ)
  | freeExtent (start blocks : ℕ)
  | readDataBlock (inode : Inode) (logical : ℕ)
  | writeDataBlock (inode : Inode) (logical : ℕ) (data : XBlock)
  | blockWrite (block : ℕ) (data : XBlock)
  | journalBegin
  | journalCommit
  | writeSuper

@[reducible] def Ans : Call → Type
  | .info => FsInfo
  | .setTmp _ => Unit
  | .readInode _ => Option Inode
  | .writeInode _ => Bool
  | .allocInode => Option UInt32
  | .freeInode _ => Bool
  | .allocExtent _ => Option ℕ
  | .freeExtent _ _ => Bool
  | .readDataBlock _ _ => Option XBlock
  | .writeDataBlock _ _ _ => Bool
  | .blockWrite _ _ => Bool
  | .journalBegin => Bool
  | .journalCommit => Bool
  | .writeSuper => Bool

/-- The answer of a function that returns `bool`. -/
def succeeds (f : XfsM Unit) : XfsM Bool := do
  let r ← f.attempt
  return r.isSome

def implementation : (c : Call) → XfsM (Ans c)
  | .info => do
    let fs ← Proc.load
    return ⟨fs.mounted, fs.super.rootInode, fs.super.generation⟩
  | .setTmp b => XfsJournal.setTmp b
  | .readInode inodeId => (xfsReadInode inodeId).attempt
  | .writeInode inode => succeeds (xfsWriteInode inode)
  | .allocInode => xfsAllocInode.attempt
  | .freeInode inodeId => succeeds (xfsFreeInode inodeId)
  | .allocExtent blocks => (xfsAllocExtent blocks).attempt
  | .freeExtent start blocks => succeeds (xfsFreeExtent start blocks)
  | .readDataBlock inode logical => (xfsInodeReadDataBlock inode logical).attempt
  | .writeDataBlock inode logical data => succeeds (xfsInodeWriteDataBlock inode logical data)
  | .blockWrite block data => succeeds (xfsBlockWrite block data)
  | .journalBegin => succeeds k64XfsJournalBegin
  | .journalCommit => succeeds k64XfsJournalCommit
  | .writeSuper => succeeds xfsWriteSuper

/-- Procedures over these calls; they keep no memory of their own. -/
abbrev XfsV := Proc Call Ans Unit

/-- The block layer under an upper function. -/
def lowered {α : Type} (f : XfsV α) : XfsM α := Proc.lower implementation f

def info : XfsV FsInfo := Proc.request Call.info
def scratch (b : XBlock) : XfsV Unit := Proc.request (Call.setTmp b)
def readInode (inodeId : UInt32) : XfsV Inode := do
  Proc.orFail (← Proc.request (.readInode inodeId))
def writeInode (inode : Inode) : XfsV Unit := do Proc.guard (← Proc.request (.writeInode inode))
def allocInode : XfsV UInt32 := do Proc.orFail (← Proc.request .allocInode)
def freeInode (inodeId : UInt32) : XfsV Unit := do
  Proc.guard (← Proc.request (.freeInode inodeId))
def allocExtent (blocks : ℕ) : XfsV ℕ := do Proc.orFail (← Proc.request (.allocExtent blocks))
def freeExtent (start blocks : ℕ) : XfsV Unit := do
  Proc.guard (← Proc.request (.freeExtent start blocks))
def readDataBlock (inode : Inode) (logical : ℕ) : XfsV XBlock := do
  Proc.orFail (← Proc.request (.readDataBlock inode logical))
def writeDataBlock (inode : Inode) (logical : ℕ) (data : XBlock) : XfsV Unit := do
  Proc.guard (← Proc.request (.writeDataBlock inode logical data))
def blockWrite (block : ℕ) (data : XBlock) : XfsV Unit := do
  Proc.guard (← Proc.request (.blockWrite block data))
def journalBegin : XfsV Unit := do Proc.guard (← Proc.request .journalBegin)
def journalCommit : XfsV Unit := do Proc.guard (← Proc.request .journalCommit)
def writeSuper : XfsV Unit := do Proc.guard (← Proc.request .writeSuper)

end XfsCalls
