import K64.XfsWrittenBlocks

/-! # Extents that stay in place

The functions of the block layer meet the contract of the blocks, and the file operations that of the
block layer, so no operation writes an inode with an extent outside of the data area, whether it
succeeds or fails. -/
namespace XfsExtentSafety

open ByteCodec IoProgram IoContract XfsFormat XfsJournal XfsInode XfsCalls XfsDirectory
  XfsOperations XfsVolume XfsVolumeLifecycle XfsVolumeRefinement XfsWrittenBlocks

/-- A mounted volume of `total` blocks. -/
structure Placed (total : ℕ) (fs : Xfs) : Prop where
  mounted : fs.mounted = true
  layout : Layout fs.super
  total : fs.super.totalBlocks.toNat = total

variable {fs : Xfs}

theorem Placed.changed {total : ℕ} {fs' : Xfs} (h : Placed total fs) (mountState : UInt32)
    (freeBlocks generation : UInt64) (hm : fs'.mounted = fs.mounted)
    (hs : fs'.super = { fs.super with mountState, freeBlocks, generation }) : Placed total fs' := by
  obtain ⟨hmounted, ⟨h1, h2, h3, h4, h5, h6, h7, h8, h9, h10⟩, ht⟩ := h
  constructor
  · exact hm.trans hmounted
  · rw [hs]
    exact ⟨h1, h2, h3, h4, h5, h6, h7, h8, h9, h10⟩
  · rw [hs]
    exact ht

abbrev MeetsBlocks {α : Type} (total : ℕ) (P : α → Prop) (f : XfsM α) : Prop :=
  Proc.Meets blockContract (Placed total) P f

variable {total : ℕ} {n : ℕ} {b : XBlock}

theorem not_journal (h : n < 3 ∨ 35 ≤ n) : ¬ journalArea n := by
  simp only [journalArea, Bool.and_eq_true, decide_eq_true_eq]
  omega

theorem meets_blockRead (hn : n < 3 ∨ 35 ≤ n) :
    MeetsBlocks total (BlockGood n) (xfsBlockRead n) := by
  apply (meets_request (c := blockContract) (q := Req.read n) (not_journal hn)).bind
  exact fun r hr => meets_orFail hr

theorem meets_read (hn : n < 3 ∨ 35 ≤ n) :
    MeetsBlocks total (BlockGood n) (xfsBlockReadTmp n) := by
  apply (meets_blockRead hn).bind
  intro a ha
  exact (meets_update fun fs h => h.changed _ _ _ rfl rfl).bind fun _ _ => meets_pure ha

theorem meets_rawWrite (hn : 3 ≤ n ∧ n < 35) : MeetsBlocks total (fun _ => True) (rawWrite n b) := by
  have hj : journalArea n := by simpa [journalArea] using hn
  apply (meets_request (c := blockContract) (q := Req.rawWrite n b) hj).bind
  exact fun r _ => meets_guard.mono fun _ _ => trivial

theorem meets_cacheWrite (hn : n < 3 ∨ 35 ≤ n) (hb : BlockGood n b) :
    MeetsBlocks total (fun _ => True) (cacheWrite n b) := by
  apply (meets_request (c := blockContract) (q := Req.write n b) ⟨not_journal hn, hb⟩).bind
  exact fun r _ => meets_guard.mono fun _ _ => trivial

theorem meets_flush : MeetsBlocks total (fun _ => True) cacheFlush := by
  apply (meets_request (c := blockContract) (q := Req.flush) trivial).bind
  exact fun r _ => meets_guard.mono fun _ _ => trivial

theorem meets_setTmp : MeetsBlocks total (fun _ => True) (XfsJournal.setTmp b) :=
  meets_update fun _ h => h.changed _ _ _ rfl rfl

theorem journal_slot (h : Layout fs.super) :
    (fs.super.journalStart.toNat + fs.journalRecords.toNat * 2) % 2 ^ 64 =
      3 + fs.journalRecords.toNat * 2 ∧
    (fs.super.journalStart.toNat + fs.super.journalBlocks.toNat) % 2 ^ 64 = 35 := by
  have hlt := fs.journalRecords.toNat_lt
  rw [h.journalStart, h.journalBlocks]
  exact ⟨Nat.mod_eq_of_lt (by simp; omega), rfl⟩

theorem meets_journalMetadata (blockNo : ℕ) (block : XBlock) :
    MeetsBlocks total (fun _ => True) (k64XfsJournalMetadata blockNo block) := by
  apply meets_load.bind
  intro fs hfs
  obtain ⟨hslot, hend⟩ := journal_slot hfs.layout
  refine meets_guard.bind fun _ _ => ?_
  rw [hslot, hend]
  refine meets_guard.bind fun _ hpayload => ?_
  have hlt := fs.journalRecords.toNat_lt
  have hp : (3 + fs.journalRecords.toNat * 2 + 1) % 2 ^ 64 = 3 + fs.journalRecords.toNat * 2 + 1 :=
    Nat.mod_eq_of_lt (by omega)
  rw [hp, decide_eq_true_eq] at hpayload
  rw [hp]
  refine (meets_rawWrite ⟨by omega, by omega⟩).bind fun _ _ => ?_
  refine (meets_rawWrite ⟨by omega, by omega⟩).bind fun _ _ => ?_
  exact meets_update fun fs h => h.changed _ _ _ rfl rfl

theorem meets_blockWrite (hn : n < 3 ∨ 35 ≤ n) (hb : BlockGood n b) :
    MeetsBlocks total (fun _ => True) (xfsBlockWrite n b) := by
  apply meets_load.bind
  intro fs _
  split
  · exact (meets_journalMetadata n b).bind fun _ _ => meets_cacheWrite hn hb
  · exact meets_cacheWrite hn hb

theorem meets_lowWrite (hn : n < 3) : MeetsBlocks total (fun _ => True) (xfsBlockWrite n b) :=
  meets_blockWrite (Or.inl hn) (good_outside (Or.inl (Nat.lt_trans hn (by decide))))

theorem inode_block (h : Layout fs.super) {id : UInt32} (hid : id.toNat ≤ 512) :
    inodeBlock fs.super id = 35 + (id.toNat - 1) / 11 ∧ InTable (inodeBlock fs.super id) := by
  have hblock : inodeBlock fs.super id = 35 + (id.toNat - 1) / 11 := by
    rw [inodeBlock, h.inodeTableStart]
    exact Nat.mod_eq_of_lt (by simp; omega)
  exact ⟨hblock, by rw [hblock]; exact ⟨by omega, by omega⟩⟩

theorem meets_readInode (id : UInt32) : MeetsBlocks total Inode.Clear (xfsReadInode id) := by
  refine meets_guard.bind fun _ hid => ?_
  rw [Bool.and_eq_true, decide_eq_true_eq] at hid
  apply meets_load.bind
  intro fs hfs
  obtain ⟨hblock, htable⟩ := inode_block hfs.layout hid.2
  refine (meets_read (Or.inr htable.1)).bind fun tmp htmp => ?_
  refine meets_guard.bind fun _ _ => ?_
  exact meets_pure (htmp htable _ (Nat.mod_lt _ (by decide)) (by rw [hblock]; omega))

variable {inode : Inode}

theorem good_setRecord (hb : BlockGood n b)
    (hi : Inode.Clear inode) (k : ℕ) (hk : k < 11) :
    BlockGood n (b.setRecord inodeCodec (k * 372) (Inode.sealed inode)) := by
  intro htable j hj hlast
  by_cases hjk : j = k
  · rw [hjk, Block.record_setRecord _ _ _ _ (by change k * 372 + 372 ≤ 4096; omega)]
    exact hi
  · have hapart : j * 372 + 372 ≤ k * 372 ∨ k * 372 + 372 ≤ j * 372 := by omega
    rw [Block.record_setRecord_disjoint _ _ _ _ _ _ hapart]
    exact hb htable j hj hlast

theorem meets_writeInode (hi : Inode.Clear inode) :
    MeetsBlocks total (fun _ => True) (xfsWriteInode inode) := by
  refine meets_guard.bind fun _ hid => ?_
  rw [Bool.and_eq_true, decide_eq_true_eq] at hid
  apply meets_load.bind
  intro fs hfs
  obtain ⟨hblock, htable⟩ := inode_block hfs.layout hid.2
  refine (meets_read (Or.inr htable.1)).bind fun tmp htmp => ?_
  refine meets_setTmp.bind fun _ _ => ?_
  exact meets_blockWrite (Or.inr htable.1) (good_setRecord htmp hi _ (Nat.mod_lt _ (by decide)))

theorem meets_writeSuper : MeetsBlocks total (fun _ => True) xfsWriteSuper := by
  apply meets_load.bind
  intro fs _
  exact meets_setTmp.bind fun _ _ => meets_lowWrite (by decide)

theorem meets_allocInode : MeetsBlocks total (fun _ => True) xfsAllocInode := by
  apply meets_load.bind
  intro fs hfs
  rw [hfs.layout.inodeBitmapStart]
  refine (meets_read (Or.inl (by decide))).bind fun tmp _ => ?_
  refine (meets_orFail fun _ _ => trivial).bind fun i _ => ?_
  refine meets_setTmp.bind fun _ _ => ?_
  exact (meets_lowWrite (by decide)).bind fun _ _ => meets_pure trivial

theorem meets_freeInode (id : UInt32) : MeetsBlocks total (fun _ => True) (xfsFreeInode id) := by
  refine meets_guard.bind fun _ _ => ?_
  apply meets_load.bind
  intro fs hfs
  rw [hfs.layout.inodeBitmapStart]
  refine (meets_read (Or.inl (by decide))).bind fun tmp _ => ?_
  refine meets_setTmp.bind fun _ _ => ?_
  exact meets_lowWrite (by decide)

theorem meets_allocExtent (count : ℕ) : MeetsBlocks total
    (fun start => 82 ≤ start ∧ start + count < 2 ^ 64) (xfsAllocExtent count) := by
  refine meets_guard.bind fun _ hcount => ?_
  rw [Bool.and_eq_true, bne_iff_ne] at hcount
  apply meets_load.bind
  intro fs hfs
  dsimp only
  rw [hfs.layout.blockBitmapStart, hfs.layout.dataStart]
  refine (meets_read (Or.inl (by decide))).bind fun tmp _ => ?_
  refine (meets_orFail (P := fun start => 82 ≤ start ∧ start + count < 2 ^ 64)
    fun start hstart => ?_).bind fun start hstart => ?_
  · obtain ⟨hlow, hhigh, -⟩ := alloc_scan_some _ _ _ _ (fun h => absurd rfl h)
      (Nat.pos_of_ne_zero hcount.1) (fun x h1 h2 => by omega) hstart
    have hlt := fs.super.totalBlocks.toNat_lt
    have h82 : (82 : UInt64).toNat = 82 := rfl
    rw [if_pos rfl] at hlow
    omega
  refine meets_setTmp.bind fun _ _ => ?_
  refine meets_guard.bind fun _ _ => ?_
  refine Proc.Meets.bind (P := fun _ => True)
    (meets_update fun fs h => h.changed _ _ _ rfl rfl) fun _ _ => ?_
  refine (meets_lowWrite (by decide)).bind fun _ _ => ?_
  exact meets_pure hstart

theorem meets_freeExtent (start count : ℕ) :
    MeetsBlocks total (fun _ => True) (xfsFreeExtent start count) := by
  apply meets_load.bind
  intro fs hfs
  refine meets_guard.bind fun _ _ => ?_
  dsimp only
  rw [hfs.layout.blockBitmapStart]
  refine (meets_read (Or.inl (by decide))).bind fun tmp _ => ?_
  refine meets_setTmp.bind fun _ _ => ?_
  refine Proc.Meets.bind (P := fun _ => True)
    (meets_update fun fs h => h.changed _ _ _ rfl rfl) fun _ _ => ?_
  exact meets_lowWrite (by decide)

theorem lookup_clear (h : Inode.Clear inode) {logical : ℕ}
    (hl : Inode.lookup inode logical = some n) : 82 ≤ n := by
  obtain ⟨ex, hex, hle, -⟩ := lookup_inside hl fun ex hex => le_of_lt (h ex hex).2
  exact (h ex hex).1.trans hle

theorem meets_readDataBlock (h : Inode.Clear inode) (logical : ℕ) :
    MeetsBlocks total (fun _ => True) (xfsInodeReadDataBlock inode logical) := by
  unfold xfsInodeReadDataBlock
  split
  next n hn =>
    have := lookup_clear h hn
    exact (meets_read (by omega)).mono fun _ _ => trivial
  · exact meets_setTmp.bind fun _ _ => meets_pure trivial

theorem meets_writeDataBlock (h : Inode.Clear inode) (logical : ℕ) (data : XBlock) :
    MeetsBlocks total (fun _ => True) (xfsInodeWriteDataBlock inode logical data) := by
  unfold xfsInodeWriteDataBlock
  split
  next n hn =>
    have := lookup_clear h hn
    exact meets_blockWrite (Or.inr (by omega)) (good_outside (Or.inr this))
  · exact meets_fail

theorem meets_journalBegin : MeetsBlocks total (fun _ => True) k64XfsJournalBegin := by
  apply meets_load.bind
  intro fs _
  refine meets_guard.bind fun _ _ => ?_
  split
  · exact meets_pure trivial
  · exact meets_update fun fs h => h.changed _ _ _ rfl rfl

theorem meets_journalCommit : MeetsBlocks total (fun _ => True) k64XfsJournalCommit := by
  apply meets_load.bind
  intro fs hfs
  obtain ⟨hslot, hend⟩ := journal_slot hfs.layout
  refine meets_guard.bind fun _ _ => ?_
  split
  · rw [hslot, hend]
    refine meets_guard.bind fun _ hcommit => ?_
    rw [decide_eq_true_eq] at hcommit
    refine (meets_rawWrite ⟨by omega, hcommit⟩).bind fun _ _ => ?_
    exact meets_update fun fs h => h.changed _ _ _ rfl rfl
  · exact meets_pure trivial

theorem meets_readBitmaps (h : Placed total fs) :
    MeetsBlocks total (fun _ => True) (readBitmaps fs.super) := by
  unfold readBitmaps
  rw [h.layout.inodeBitmapStart, h.layout.blockBitmapStart]
  refine (meets_blockRead (Or.inl (by decide))).bind fun _ _ => ?_
  exact (meets_blockRead (Or.inl (by decide))).bind fun _ _ => meets_pure trivial

theorem meets_checkRoot (sb : Superblock) : MeetsBlocks total (fun _ => True) (checkRoot sb) := by
  refine (meets_readInode _).attempt.bind fun o _ => ?_
  cases o with
  | none => exact meets_pure trivial
  | some root => exact meets_pure trivial

theorem meets_checkInodes (sb : Superblock) (inodeBitmap bitmap : XBlock) (n : ℕ) : ∀ i r,
    MeetsBlocks total (fun _ => True) (checkInodes sb inodeBitmap bitmap i n r) := by
  induction n with
  | zero => exact fun i r => meets_pure trivial
  | succ n ih =>
    intro i r
    rw [checkInodes]
    split
    · exact ih (i + 1) r
    · refine (meets_readInode _).attempt.bind fun o _ => ?_
      cases o with
      | none => exact ih (i + 1) _
      | some inode => exact ih (i + 1) _

theorem meets_check : MeetsBlocks total (fun _ => True) k64XfsCheck := by
  apply meets_load.bind
  intro fs hfs
  split
  · exact meets_pure trivial
  · refine (meets_readBitmaps hfs).attempt.bind fun o _ => ?_
    cases o with
    | none => exact meets_pure trivial
    | some bitmaps =>
      refine (meets_checkRoot _).bind fun r _ => ?_
      exact (meets_checkInodes _ _ _ _ _ r).bind fun _ _ => meets_pure trivial

theorem meets_sync : MeetsBlocks total (fun _ => True) k64XfsSync := by
  apply meets_load.bind
  intro fs _
  refine meets_guard.bind fun _ _ => ?_
  refine Proc.Meets.bind (P := fun _ => True)
    (meets_update fun fs h => h.changed _ _ _ rfl rfl) fun _ _ => ?_
  exact meets_writeSuper.bind fun _ _ => meets_flush

/-- Inodes that are written are clear, and those that are read; extents that are freed do not wrap,
and those that are allocated lie behind the inode table. -/
def callContract : Contract Call Ans where
  asks
    | .writeInode inode => Inode.Clear inode
    | .freeExtent start count => start + count < 2 ^ 64
    | .readDataBlock inode _ => Inode.Clear inode
    | .writeDataBlock inode _ _ => Inode.Clear inode
    | .blockWrite n _ => 82 ≤ n
    | _ => True
  answers
    | .readInode _, r => ∀ inode, r = some inode → Inode.Clear inode
    | .allocExtent count, r => ∀ start, r = some start → 82 ≤ start ∧ start + count < 2 ^ 64
    | _, _ => True

theorem meets_succeeds {f : XfsM Unit} (h : MeetsBlocks total (fun _ => True) f) :
    MeetsBlocks total (fun _ => True) (succeeds f) :=
  h.attempt.bind fun _ _ => meets_pure trivial

theorem implementation_meets (q : Call) (hq : callContract.asks q) :
    MeetsBlocks total (callContract.answers q) (implementation q) := by
  cases q with
  | info => exact meets_load.bind fun _ _ => meets_pure trivial
  | setTmp b => exact meets_setTmp
  | readInode id => exact (meets_readInode id).attempt
  | writeInode inode => exact meets_succeeds (meets_writeInode hq)
  | allocInode => exact meets_allocInode.attempt.mono fun _ _ => trivial
  | freeInode id => exact meets_succeeds (meets_freeInode id)
  | allocExtent count => exact (meets_allocExtent count).attempt
  | freeExtent start count => exact meets_succeeds (meets_freeExtent start count)
  | readDataBlock inode logical =>
    exact (meets_readDataBlock hq logical).attempt.mono fun _ _ => trivial
  | writeDataBlock inode logical data => exact meets_succeeds (meets_writeDataBlock hq logical data)
  | blockWrite n data =>
    have hlow : 35 ≤ n := Nat.le_trans (by decide) hq
    exact meets_succeeds (meets_blockWrite (Or.inr hlow) (good_outside (Or.inr hq)))
  | journalBegin => exact meets_succeeds meets_journalBegin
  | journalCommit => exact meets_succeeds meets_journalCommit
  | writeSuper => exact meets_succeeds meets_writeSuper

end XfsExtentSafety
