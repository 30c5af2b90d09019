import K64.XfsOperations

/-! # The typed volume

A volume as the directory and file functions see it: two sets of used numbers, a table of inodes,
the data blocks, and how far the journal of the open transaction has been filled. It answers the
same calls as the block layer, without blocks, checksums or a cache. -/
namespace XfsVolume

open ByteCodec IoProgram XfsFormat XfsInode XfsCalls XfsDirectory

/-- The logical filesystem. Inodes are indexed by their id, from 1 to 512. -/
structure Content where
  total : ℕ
  freeBlocks : UInt64
  inodeUsed : ℕ → Bool
  blockUsed : ℕ → Bool
  inode : ℕ → Inode
  data : ℕ → XBlock

namespace Content

def dataOf (c : Content) (inode : Inode) (logical : ℕ) : XBlock :=
  match Inode.lookup inode logical with
  | some n => c.data n
  | none => Block.zero

def setInode (c : Content) (inode : Inode) : Content :=
  { c with inode := Function.update c.inode inode.inodeId.toNat (Inode.sealed inode) }

def setData (c : Content) (n : ℕ) (b : XBlock) : Content :=
  { c with data := Function.update c.data n b }

def setInodeUsed (c : Content) (id : ℕ) (used : Bool) : Content :=
  { c with inodeUsed := Function.update c.inodeUsed id used }

def markRun (c : Content) (start blocks : ℕ) (used : Bool) : Content :=
  { c with blockUsed := fun b =>
    if start ≤ b ∧ b < start + blocks then used else c.blockUsed b }

/-- The number of marked blocks of a run. -/
def usedIn (c : Content) (start blocks : ℕ) : ℕ :=
  (List.range' start blocks).countP fun b => c.blockUsed b

def withFree (c : Content) (free : UInt64) : Content := { c with freeBlocks := free }

/-- The inode `xfs_alloc_inode` takes. -/
def spareInode (c : Content) : Option ℕ := (List.range' 2 511).find? fun id => !c.inodeUsed id

/-- Where `xfs_alloc_extent` finds a run of unused blocks. -/
def spareRun (c : Content) (blocks : ℕ) : Option ℕ :=
  allocScan c.blockUsed blocks 82 (c.total - 82) 0 0

/-- The record of an inode, when `xfs_read_inode` accepts it. -/
def record (c : Content) (inodeId : UInt32) : Option Inode :=
  if inodeId ≠ 0 ∧ inodeId.toNat ≤ 512 ∧ inodeValid (c.inode inodeId.toNat) inodeId then
    some (c.inode inodeId.toNat)
  else none

def takeRun (c : Content) (start blocks : ℕ) : Content :=
  (c.withFree (c.freeBlocks - UInt64.ofNat blocks)).markRun start blocks true

def dropRun (c : Content) (start blocks : ℕ) : Content :=
  (c.withFree (c.freeBlocks + UInt64.ofNat (c.usedIn start blocks))).markRun start blocks false

end Content

structure Volume where
  content : Content
  mounted : Bool
  generation : UInt64
  journalActive : Bool
  journalRecords : ℕ

namespace Volume

def withContent (V : Volume) (c : Content) : Volume := { V with content := c }

/-- A metadata write that makes `c` the content: inside a transaction it takes one of the sixteen
journal records first, and is refused when none is left. -/
def metadata (V : Volume) (c : Content) : Bool × Volume :=
  if V.journalActive then
    if V.mounted ∧ V.journalRecords < 16 then
      (true, { V with content := c, journalRecords := V.journalRecords + 1 })
    else (false, V)
  else (true, V.withContent c)

end Volume

def volume : Handler Call Ans Volume
  | .info, V => (⟨V.mounted, 1, V.generation⟩, V)
  | .setTmp _, V => ((), V)
  | .readInode inodeId, V => (V.content.record inodeId, V)
  | .writeInode inode, V =>
    if inode.inodeId ≠ 0 ∧ inode.inodeId.toNat ≤ 512 then V.metadata (V.content.setInode inode)
    else (false, V)
  | .allocInode, V =>
    match V.content.spareInode with
    | some id =>
      let r := V.metadata (V.content.setInodeUsed id true)
      (if r.1 then some (UInt32.ofNat id) else none, r.2)
    | none => (none, V)
  | .freeInode inodeId, V =>
    if inodeId ≠ 0 ∧ inodeId.toNat ≤ 512 then
      V.metadata (V.content.setInodeUsed inodeId.toNat false)
    else (false, V)
  | .allocExtent blocks, V =>
    if blocks = 0 ∨ 2 ^ 32 - 1 < blocks then (none, V)
    else
      match V.content.spareRun blocks with
      | some start =>
        if V.content.freeBlocks.toNat < blocks then (none, V)
        else
          -- the free count is taken down in memory even when the journal refuses the bitmap
          let free := V.content.freeBlocks - UInt64.ofNat blocks
          let r := (V.withContent (V.content.withFree free)).metadata
            (V.content.takeRun start blocks)
          (if r.1 then some start else none, r.2)
      | none => (none, V)
  | .freeExtent start blocks, V =>
    if blocks = 0 then (false, V)
    else
      let free := V.content.freeBlocks + UInt64.ofNat (V.content.usedIn start blocks)
      (V.withContent (V.content.withFree free)).metadata (V.content.dropRun start blocks)
  | .readDataBlock inode logical, V => (some (V.content.dataOf inode logical), V)
  | .writeDataBlock inode logical data, V =>
    match Inode.lookup inode logical with
    | some n => (true, V.withContent (V.content.setData n data))
    | none => (false, V)
  | .blockWrite n data, V => (true, V.withContent (V.content.setData n data))
  | .journalBegin, V =>
    if !V.mounted then (false, V)
    else if V.journalActive then (true, V)
    else (true, { V with journalActive := true, journalRecords := 0 })
  | .journalCommit, V =>
    if !V.mounted then (false, V)
    else if !V.journalActive then (true, V)
    else if 16 ≤ V.journalRecords then (false, V)
    else (true, { V with
      generation := V.generation + 1
      journalActive := false
      journalRecords := 0 })
  | .writeSuper, V => V.metadata V.content

def Extent.Fits (total : ℕ) (ex : Extent) : Prop :=
  82 ≤ ex.physicalBlock.toNat ∧ ex.physicalBlock.toNat + ex.blockCount.toNat ≤ total

def Inode.Fits (total : ℕ) (inode : Inode) : Prop :=
  ∀ ex ∈ Inode.extents inode, Extent.Fits total ex

/-- What a caller owes: extents and blocks inside the data area. -/
def volumeGuard : Call → Volume → Prop
  | .freeExtent start blocks, V => 82 ≤ start ∧ start + blocks ≤ V.content.total
  | .readDataBlock inode _, V => Inode.Fits V.content.total inode
  | .writeDataBlock inode _ _, V => Inode.Fits V.content.total inode
  | .blockWrite n _, V => 82 ≤ n ∧ n < V.content.total
  | _, _ => True

theorem lookup_fits {total : ℕ} {inode : Inode} (h : Inode.Fits total inode) {logical n : ℕ}
    (hl : Inode.lookup inode logical = some n) (ht : total ≤ 2 ^ 64) : 82 ≤ n ∧ n < total := by
  obtain ⟨ex, hex, hle, hlt⟩ := lookup_inside hl fun ex hex => (h ex hex).2.trans ht
  obtain ⟨h1, h2⟩ := h ex hex
  omega

theorem alloc_scan_congr {used used' : ℕ → Bool} (blocks : ℕ) : ∀ n b runStart runLen,
    (∀ x, b ≤ x → x < b + n → used x = used' x) →
    allocScan used blocks b n runStart runLen = allocScan used' blocks b n runStart runLen := by
  intro n
  induction n with
  | zero => exact fun _ _ _ _ => rfl
  | succ n ih =>
    intro b runStart runLen h
    simp only [allocScan, h b (Nat.le_refl b) (by omega)]
    rw [ih (b + 1) runStart 0 fun x h1 h2 => h x (by omega) (by omega),
      ih (b + 1) _ (runLen + 1) fun x h1 h2 => h x (by omega) (by omega)]

theorem alloc_scan_some {used : ℕ → Bool} {blocks start : ℕ} : ∀ n b runStart runLen,
    (runLen ≠ 0 → runStart + runLen = b) → runLen < blocks →
    (∀ x, runStart ≤ x → x < runStart + runLen → used x = false) →
    allocScan used blocks b n runStart runLen = some start →
    (if runLen = 0 then b else runStart) ≤ start ∧ start + blocks ≤ b + n ∧
      ∀ x, start ≤ x → x < start + blocks → used x = false := by
  intro n
  induction n with
  | zero => intro b runStart runLen _ _ _ h; simp [allocScan] at h
  | succ n ih =>
    intro b runStart runLen hrun hlt hfree h
    rw [allocScan] at h
    by_cases hu : used b = true
    · rw [if_pos hu] at h
      obtain ⟨h1, h2, h3⟩ := ih (b + 1) runStart 0 (by simp) (by omega) (by omega) h
      rw [if_pos rfl] at h1
      exact ⟨by split <;> omega, by omega, h3⟩
    · rw [if_neg hu] at h
      have hext : ∀ x, (if runLen = 0 then b else runStart) ≤ x →
          x < (if runLen = 0 then b else runStart) + (runLen + 1) → used x = false := by
        intro x h1 h2
        by_cases hx : x = b
        · simpa [hx] using hu
        · split at h1 <;> split at h2 <;> first | omega | exact hfree x (by omega) (by omega)
      by_cases hlen : runLen + 1 = blocks
      · simp only [hlen, if_true] at h hext
        obtain rfl := Option.some.inj h
        exact ⟨Nat.le_refl _, by split <;> omega, hext⟩
      · simp only [hlen, if_false] at h
        obtain ⟨h1, h2, h3⟩ := ih (b + 1) _ (runLen + 1) (by split <;> omega) (by omega) hext h
        simp only [Nat.succ_ne_zero, if_false] at h1
        exact ⟨h1, by omega, h3⟩

theorem spare_run_some {c : Content} {blocks start : ℕ} (hb : 0 < blocks)
    (h : c.spareRun blocks = some start) :
    82 ≤ start ∧ start + blocks ≤ 82 + (c.total - 82) ∧
      ∀ x, start ≤ x → x < start + blocks → c.blockUsed x = false := by
  have hs := alloc_scan_some _ 82 0 0 (by simp) hb (by omega) h
  simpa using hs

end XfsVolume
