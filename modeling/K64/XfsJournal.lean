import K64.IoProgram
import K64.XfsCache

/-! # The mounted volume and its journal

The in-memory side of `k64_xfs_mount_t` and the functions of `k64_xfs_journal.c`. A K64XFS function
is a procedure over requests to the cache and to the raw device, so that the same text runs on the
machine and on an idealised disk. Pointers are never null. -/
namespace XfsJournal

open ByteCodec IoProgram XfsFormat XfsCache

/-- Calls of the cache layer, and the journal's direct block reads and writes. -/
inductive Req where
  | read (n : ℕ)
  | write (n : ℕ) (b : XBlock)
  | flush
  | init
  | rawRead (n : ℕ)
  | rawWrite (n : ℕ) (b : XBlock)

@[reducible] def Resp : Req → Type
  | .read _ => Option XBlock
  | .write _ _ => Bool
  | .flush => Bool
  | .init => Unit
  | .rawRead _ => Option XBlock
  | .rawWrite _ _ => Bool

def machine : Handler Req Resp Machine
  | .read n, m => k64XfsCacheRead m n
  | .write n b, m => k64XfsCacheWrite m n b
  | .flush, m => k64XfsCacheFlush m
  | .init, m => ((), { m with cache := k64XfsCacheInit })
  | .rawRead n, m => let r := xfsRawRead m.dev n; (r.1, { m with dev := r.2 })
  | .rawWrite n b, m => let r := xfsRawWrite m.dev n b; (r.1, { m with dev := r.2 })

/-- `k64_xfs_mount_t` without its cache and device, and the static `xfs_tmp_block`. -/
structure Xfs where
  mounted : Bool
  super : Superblock
  txId : UInt64
  journalRecords : UInt32
  journalActive : Bool
  tmp : XBlock

/-- `memset` of the mount structure; the scratch block is not part of it. -/
def Xfs.cleared (fs : Xfs) : Xfs := ⟨false, Superblock.zero, 0, 0, false, fs.tmp⟩

def Xfs.withTmp (fs : Xfs) (b : XBlock) : Xfs := { fs with tmp := b }

@[simp] theorem Xfs.super_withTmp (fs : Xfs) (b : XBlock) : (fs.withTmp b).super = fs.super := rfl

@[simp] theorem Xfs.txId_withTmp (fs : Xfs) (b : XBlock) : (fs.withTmp b).txId = fs.txId := rfl

@[simp] theorem Xfs.journalActive_withTmp (fs : Xfs) (b : XBlock) :
    (fs.withTmp b).journalActive = fs.journalActive := rfl

@[simp] theorem Xfs.withTmp_withTmp (fs : Xfs) (a b : XBlock) :
    (fs.withTmp a).withTmp b = fs.withTmp b := by
  -- not a definitional rewrite: the kernel must never compare two scratch blocks
  cases fs
  rfl

def Xfs.withState (fs : Xfs) (mountState : UInt32) : Xfs :=
  { fs with super := { fs.super with mountState } }

def Xfs.withFree (fs : Xfs) (freeBlocks : UInt64) : Xfs :=
  { fs with super := { fs.super with freeBlocks } }

abbrev XfsM := Proc Req Resp Xfs

def cacheRead (n : ℕ) : XfsM XBlock := do Proc.orFail (← Proc.request (.read n))
def cacheWrite (n : ℕ) (b : XBlock) : XfsM Unit := do Proc.guard (← Proc.request (.write n b))
def cacheFlush : XfsM Unit := do Proc.guard (← Proc.request .flush)
def cacheInit : XfsM Unit := Proc.request Req.init
def rawRead (n : ℕ) : XfsM XBlock := do Proc.orFail (← Proc.request (.rawRead n))
def rawWrite (n : ℕ) (b : XBlock) : XfsM Unit := do Proc.guard (← Proc.request (.rawWrite n b))

def setTmp (b : XBlock) : XfsM Unit := Proc.update fun fs => fs.withTmp b

def JournalEntry.sealed (e : JournalEntry) : JournalEntry :=
  { e with headerChecksum := journalHeaderChecksum e }

/-- A header block: zeroes with the entry in front. -/
def headerBlock (e : JournalEntry) : XBlock := Block.zero.setRecord journalEntryCodec 0 e

def journalReadEntry (block : ℕ) : XfsM JournalEntry := do
  let b ← rawRead block
  let out := b.record journalEntryCodec 0
  Proc.guard (out.magic == journalMagic && out.headerChecksum == journalHeaderChecksum out)
  return out

/-- The scan loop of `k64_xfs_journal_recover`: the records collected and whether a commit ended
them. It makes at most 17 turns, since the record array has 16 places. -/
def recoverScan (sb : Superblock) : ℕ → ℕ → UInt64 → List JournalEntry →
    XfsM (Bool × List JournalEntry)
  | 0, _, _, records => pure (false, records)
  | turns + 1, off, txId, records =>
    if sb.journalBlocks.toNat ≤ off then pure (false, records)
    else do
      match ← (journalReadEntry ((sb.journalStart.toNat + off) % 2 ^ 64)).attempt with
      | none => pure (false, records)
      | some entry =>
        let txId := if txId = 0 then entry.txId else txId
        if entry.txId ≠ txId then pure (false, records)
        else if entry.type = journalCommit then pure (true, records)
        else if entry.type ≠ journalMetadataBlock ∨ entry.payloadSize ≠ 4096 ∨
            sb.journalBlocks.toNat ≤ off + 1 ∨ 16 ≤ records.length then pure (false, records)
        else recoverScan sb turns (off + 2) txId (records ++ [entry])

/-- The replay loop over the records still to come, `i` the index of the first. -/
def recoverReplay (sb : Superblock) : ℕ → List JournalEntry → XfsM Unit
  | _, [] => pure ()
  | i, entry :: records => do
    let payload ← rawRead ((sb.journalStart.toNat + i * 2 + 1) % 2 ^ 64)
    Proc.guard (k64XfsCrc32 (payload.read 0 4096) == entry.payloadChecksum)
    rawWrite entry.targetBlock.toNat payload
    recoverReplay sb (i + 1) records

def recoverClear (sb : Superblock) : XfsM Unit :=
  Proc.loop (fun off => rawWrite ((sb.journalStart.toNat + off) % 2 ^ 64) Block.zero)
    0 sb.journalBlocks.toNat

def k64XfsJournalRecover : XfsM Unit := do
  let fs ← Proc.load
  Proc.guard fs.mounted
  let (committed, records) ← recoverScan fs.super 17 0 0 []
  if committed then recoverReplay fs.super 0 records
  recoverClear fs.super
  Proc.update fun fs =>
    { fs with journalActive := false, journalRecords := 0 }.withState mountClean

def k64XfsJournalBegin : XfsM Unit := do
  let fs ← Proc.load
  Proc.guard fs.mounted
  if fs.journalActive then pure ()
  else Proc.update fun fs =>
    { fs with txId := fs.txId + 1, journalRecords := 0, journalActive := true }.withState mountDirty

/-- The record header `k64_xfs_journal_metadata` writes for one block. -/
def metadataEntry (txId : UInt64) (blockNo : ℕ) (block : XBlock) : JournalEntry :=
  JournalEntry.sealed { JournalEntry.zero with
    magic := journalMagic
    txId := txId
    type := journalMetadataBlock
    targetBlock := UInt64.ofNat blockNo
    payloadSize := 4096
    payloadChecksum := k64XfsCrc32 (block.read 0 4096) }

def commitEntry (txId : UInt64) : JournalEntry :=
  JournalEntry.sealed { JournalEntry.zero with
    magic := journalMagic
    txId := txId
    type := journalCommit }

def k64XfsJournalMetadata (blockNo : ℕ) (block : XBlock) : XfsM Unit := do
  let fs ← Proc.load
  Proc.guard (fs.mounted && fs.journalActive && blockNo < fs.super.totalBlocks.toNat)
  let header := (fs.super.journalStart.toNat + fs.journalRecords.toNat * 2) % 2 ^ 64
  let payload := (header + 1) % 2 ^ 64
  Proc.guard (payload < (fs.super.journalStart.toNat + fs.super.journalBlocks.toNat) % 2 ^ 64)
  rawWrite header (headerBlock (metadataEntry fs.txId blockNo block))
  rawWrite payload block
  Proc.update fun fs => { fs with journalRecords := fs.journalRecords + 1 }

def Xfs.committed (fs : Xfs) : Xfs :=
  { fs with
    super := { fs.super with generation := fs.super.generation + 1 }
    journalActive := false
    journalRecords := 0 }

def k64XfsJournalCommit : XfsM Unit := do
  let fs ← Proc.load
  Proc.guard fs.mounted
  if fs.journalActive then
    let commit := (fs.super.journalStart.toNat + fs.journalRecords.toNat * 2) % 2 ^ 64
    Proc.guard (commit < (fs.super.journalStart.toNat + fs.super.journalBlocks.toNat) % 2 ^ 64)
    rawWrite commit (headerBlock (commitEntry fs.txId))
    Proc.update Xfs.committed
  else pure ()

end XfsJournal
