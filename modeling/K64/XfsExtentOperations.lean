import K64.XfsContentChanges
import K64.XfsExtentSafety

/-! # The file operations keep extents in place

Each function of the directory and file layer meets the contract of the calls below it. -/
namespace XfsExtentOperations

open ByteCodec IoProgram IoContract XfsFormat XfsJournal XfsInode XfsCalls XfsDirectory
  XfsOperations XfsOperationEffects XfsContentChanges XfsVolume XfsWrittenBlocks XfsExtentSafety

abbrev MeetsCalls {α : Type} (P : α → Prop) (f : XfsV α) : Prop :=
  Proc.Meets callContract (fun _ => True) P f

variable {inode dir : Inode} {name : List UInt8}

theorem meets_answer {q : Call} (hq : callContract.asks q) {f : Ans q → Bool} :
    MeetsCalls (fun _ => True) (do Proc.guard (f (← Proc.request q)) : XfsV Unit) :=
  (meets_request hq).bind fun _ _ => meets_guard.mono fun _ _ => trivial

theorem readInode_meets (id : UInt32) : MeetsCalls Inode.Clear (readInode id) :=
  (meets_request (c := callContract) (q := Call.readInode id) trivial).bind fun _ hr => meets_orFail hr

theorem allocExtent_meets (count : ℕ) :
    MeetsCalls (fun start => 82 ≤ start ∧ start + count < 2 ^ 64) (allocExtent count) :=
  (meets_request (c := callContract) (q := Call.allocExtent count) trivial).bind
    fun _ hr => meets_orFail hr

theorem writeInode_meets (h : Inode.Clear inode) : MeetsCalls (fun _ => True) (writeInode inode) :=
  meets_answer (q := Call.writeInode inode) h

theorem readDataBlock_meets (h : Inode.Clear inode) (logical : ℕ) :
    MeetsCalls (fun _ => True) (readDataBlock inode logical) :=
  (meets_request (c := callContract) (q := Call.readDataBlock inode logical) h).bind
    fun _ _ => meets_orFail fun _ _ => trivial

theorem scratch_meets (b : XBlock) : MeetsCalls (fun _ => True) (scratch b) :=
  (meets_request (c := callContract) (q := Call.setTmp b) trivial).mono fun _ _ => trivial

theorem allocInode_meets : MeetsCalls (fun _ => True) allocInode :=
  (meets_request (c := callContract) (q := Call.allocInode) trivial).bind
    fun _ _ => meets_orFail fun _ _ => trivial

theorem info_meets : MeetsCalls (fun _ => True) info :=
  (meets_request (c := callContract) (q := Call.info) trivial).mono fun _ _ => trivial

theorem clear_grown {newBlock : ℕ} (h : Inode.Clear dir) (hroom : dir.extentCount.toNat < 8)
    (hb : 82 ≤ newBlock ∧ newBlock + 1 < 2 ^ 64) : Inode.Clear (Inode.grown dir newBlock) := by
  intro ex hex
  rw [extents_grown hroom, List.mem_append, List.mem_singleton] at hex
  rcases hex with hex | rfl
  · exact h ex hex
  · have hp : (grownExtent dir newBlock).physicalBlock.toNat = newBlock := by
      change (UInt64.ofNat newBlock).toNat = newBlock
      rw [UInt64.toNat_ofNat', Nat.mod_eq_of_lt (by omega)]
    have hc : (grownExtent dir newBlock).blockCount.toNat = 1 := rfl
    rw [Extent.Clear, hp, hc]
    exact hb

theorem dirFindFrom_meets (h : Inode.Clear dir) (n : ℕ) : ∀ b,
    MeetsCalls (fun _ => True) (dirFindFrom dir name b n) := by
  induction n with
  | zero => exact fun b => meets_fail
  | succ n ih =>
    intro b
    rw [dirFindFrom]
    apply (readDataBlock_meets h b).bind
    intro tmp _
    split
    · exact meets_pure trivial
    · exact ih (b + 1)

theorem dirFind_meets (h : Inode.Clear dir) : MeetsCalls (fun _ => True) (xfsDirFind dir name) :=
  meets_guard.bind fun _ _ => dirFindFrom_meets h _ _

theorem dirAddFrom_meets (h : Inode.Clear dir) (e : Dirent) (n : ℕ) : ∀ b,
    MeetsCalls (fun o => ∀ d, o = some d → Inode.Clear d) (dirAddFrom dir e b n) := by
  induction n with
  | zero => exact fun b => meets_pure fun d hd => nomatch hd
  | succ n ih =>
    intro b
    rw [dirAddFrom]
    apply (readDataBlock_meets h b).bind
    intro tmp _
    split
    next s _ =>
      refine (scratch_meets _).bind fun _ _ => ?_
      refine (meets_answer (q := Call.writeDataBlock dir b (setDirent tmp s e)) h).bind fun _ _ => ?_
      refine (writeInode_meets h).bind fun _ _ => ?_
      exact meets_pure fun d hd => Option.some.inj hd ▸ h
    next _ => exact ih (b + 1)

theorem dirAdd_meets (h : Inode.Clear dir) (id : UInt32) (type : UInt16) :
    MeetsCalls (fun _ => True) (xfsDirAdd dir name id type) := by
  refine meets_guard.bind fun _ _ => ?_
  refine (dirFind_meets h).attempt.bind fun found _ => ?_
  refine meets_guard.bind fun _ _ => ?_
  refine (dirAddFrom_meets h _ _ _).bind fun o _ => ?_
  split
  · exact meets_pure trivial
  · refine (allocExtent_meets 1).bind fun newBlock hnew => ?_
    refine (scratch_meets _).bind fun _ _ => ?_
    refine (meets_answer (q := Call.blockWrite newBlock _) hnew.1).bind fun _ _ => ?_
    split
    · refine (meets_answer (q := Call.freeExtent newBlock 1) hnew.2).attempt.bind fun _ _ => ?_
      exact meets_fail
    next hroom =>
      refine (writeInode_meets (clear_grown h (by omega) hnew)).bind fun _ _ => ?_
      exact meets_pure trivial

theorem dirRemove_meets (h : Inode.Clear dir) :
    MeetsCalls (fun _ => True) (xfsDirRemove dir name) := by
  refine (dirFind_meets h).bind fun (_, b, s) _ => ?_
  refine (readDataBlock_meets h b).bind fun tmp _ => ?_
  refine (scratch_meets _).bind fun _ _ => ?_
  refine (meets_answer (q := Call.writeDataBlock dir b _) h).bind fun _ _ => ?_
  exact (writeInode_meets h).bind fun _ _ => meets_pure trivial

theorem resolveFrom_meets (l : List (List UInt8)) : ∀ current : UInt32 × Inode,
    Inode.Clear current.2 → MeetsCalls (fun r => Inode.Clear r.2) (resolveFrom current l) := by
  induction l with
  | nil => exact fun current h => meets_pure h
  | cons token rest ih =>
    intro current h
    refine meets_guard.bind fun _ _ => ?_
    refine (dirFind_meets h).bind fun (ent, _, _) _ => ?_
    exact (readInode_meets ent.inodeId).bind fun inode hi => ih _ hi

theorem resolve_meets (path : List UInt8) :
    MeetsCalls (fun r => Inode.Clear r.2) (xfsResolve path) := by
  refine info_meets.bind fun fs _ => ?_
  refine meets_guard.bind fun _ _ => ?_
  exact (readInode_meets fs.rootInode).bind fun root hroot => resolveFrom_meets _ _ hroot

theorem makeInode_meets (id : UInt32) (type : UInt16) (mode uid gid : UInt32) :
    MeetsCalls Inode.Clear (xfsMakeInode id type mode uid gid) := by
  refine info_meets.bind fun fs _ => ?_
  have h : Inode.Clear (newInode fs.generation id type mode uid gid) := clear_of_empty rfl
  exact (writeInode_meets h).bind fun _ _ => meets_pure h

theorem giveBlock_meets (inode : Inode) : MeetsCalls Inode.Clear (xfsGiveBlock inode) := by
  refine (allocExtent_meets 1).attempt.bind fun o ho => ?_
  cases o with
  | none =>
    refine (meets_answer (q := Call.freeInode inode.inodeId) trivial).attempt.bind fun _ _ => ?_
    exact meets_fail
  | some dataBlock =>
    have hnew := ho dataBlock rfl
    refine (scratch_meets _).bind fun _ _ => ?_
    refine (meets_answer (q := Call.blockWrite dataBlock _) hnew.1).bind fun _ _ => ?_
    have hblock : Inode.Clear (Inode.withBlock inode dataBlock) :=
      clear_singleExtent hnew (extents_withBlock inode dataBlock)
    exact (writeInode_meets hblock).bind fun _ _ => meets_pure hblock

theorem createAt_meets (path : List UInt8) (type : UInt16) (mode uid gid : UInt32) :
    MeetsCalls (fun _ => True) (xfsCreateAt path type mode uid gid) := by
  refine (meets_orFail fun _ _ => trivial).bind fun (parentPath, leaf) _ => ?_
  refine (resolve_meets parentPath).bind fun (_, parent) hparent => ?_
  refine meets_guard.bind fun _ _ => ?_
  refine (dirFind_meets hparent).attempt.bind fun found _ => ?_
  refine meets_guard.bind fun _ _ => ?_
  refine allocInode_meets.bind fun id _ => ?_
  refine (makeInode_meets id type mode uid gid).bind fun inode _ => ?_
  split
  · refine (giveBlock_meets inode).bind fun _ _ => ?_
    exact (dirAdd_meets hparent id type).bind fun _ _ => meets_pure trivial
  · exact (dirAdd_meets hparent id type).bind fun _ _ => meets_pure trivial

theorem commit_meets : MeetsCalls (fun _ => True) (do
    journalCommit
    writeSuper : XfsV Unit) :=
  (meets_answer (q := Call.journalCommit) trivial).bind
    fun _ _ => meets_answer (q := Call.writeSuper) trivial

variable (path : CString)

theorem create_meets (mode uid gid : UInt32) :
    MeetsCalls (fun _ => True) (k64XfsCreate path mode uid gid) :=
  (meets_answer (q := Call.journalBegin) trivial).bind
    fun _ _ => (createAt_meets _ _ _ _ _).bind fun _ _ => commit_meets

theorem mkdir_meets (mode uid gid : UInt32) :
    MeetsCalls (fun _ => True) (k64XfsMkdir path mode uid gid) :=
  (meets_answer (q := Call.journalBegin) trivial).bind
    fun _ _ => (createAt_meets _ _ _ _ _).bind fun _ _ => commit_meets

theorem freeExtents_meets (l : List Extent) : (∀ ex ∈ l, Extent.Clear ex) →
    MeetsCalls (fun _ => True) (freeExtents l) := by
  induction l with
  | nil => exact fun _ => meets_pure trivial
  | cons ex rest ih =>
    intro h
    obtain ⟨hex, hrest⟩ := List.forall_mem_cons.mp h
    rw [freeExtents]
    split
    · exact (meets_answer (q := Call.freeExtent _ _) hex.2).bind fun _ _ => ih hrest
    · exact ih hrest

theorem freeFileExtents_meets (h : Inode.Clear inode) :
    MeetsCalls Inode.Clear (xfsFreeFileExtents inode) :=
  (freeExtents_meets _ h).bind fun _ _ => meets_pure (clear_of_empty rfl)

theorem placeData_meets (h : Inode.Clear inode) (data : List UInt8) (count : ℕ) :
    MeetsCalls Inode.Clear (placeData inode data count) := by
  unfold placeData
  split
  · refine (allocExtent_meets count).bind fun start hstart => ?_
    refine Proc.Meets.bind (P := fun _ => True) (meets_loop _ _ fun j _ hj => ?_) fun _ _ => ?_
    · refine (scratch_meets _).bind fun _ _ => ?_
      refine meets_answer (q := Call.blockWrite _ _) ?_
      change 82 ≤ (start + j) % 2 ^ 64
      rw [Nat.mod_eq_of_lt (by omega)]
      omega
    · exact meets_pure (clear_singleExtent hstart (extents_single rfl rfl))
  · exact meets_pure h

theorem writeExisting_meets (h : Inode.Clear inode) (data : List UInt8) (uid gid : UInt32) :
    MeetsCalls (fun _ => True) (writeExisting inode data uid gid) := by
  refine meets_guard.bind fun _ _ => ?_
  refine meets_guard.bind fun _ _ => ?_
  refine (meets_answer (q := Call.journalBegin) trivial).bind fun _ _ => ?_
  refine Proc.Meets.bind (P := fun _ => True) ?_ fun _ _ => commit_meets
  refine (freeFileExtents_meets h).bind fun i hi => ?_
  refine (placeData_meets hi data _).bind fun i hi => ?_
  refine info_meets.bind fun fs _ => ?_
  exact writeInode_meets hi

theorem writeFile_meets (data : List UInt8) (uid gid : UInt32) :
    MeetsCalls (fun _ => True) (k64XfsWriteFile path data uid gid) := by
  refine Proc.Meets.bind (P := fun r => Inode.Clear r.2) ?_ fun (_, inode) hi => ?_
  · refine (resolve_meets _).attempt.bind fun o ho => ?_
    cases o with
    | some target => exact meets_pure (ho target rfl)
    | none => exact (create_meets _ _ _ _).bind fun _ _ => resolve_meets _
  · exact writeExisting_meets hi data uid gid

theorem readFrom_meets (h : Inode.Clear inode) (max : ℕ) : ∀ k (out : List UInt8),
    inode.size.toNat - out.length ≤ k → MeetsCalls (fun _ => True) (readFrom inode max out) := by
  intro k
  induction k with
  | zero =>
    intro out hk
    rw [readFrom, dif_neg (by omega)]
    exact meets_pure trivial
  | succ k ih =>
    intro out hk
    rw [readFrom]
    split
    next hout =>
      refine meets_guard.bind fun _ _ => ?_
      refine (readDataBlock_meets h _).bind fun tmp _ => ?_
      apply ih
      have := Nat.mod_lt out.length (show 4096 > 0 by decide)
      simp only [List.length_append, Block.length_read]
      omega
    · exact meets_pure trivial

theorem readFile_meets (max : ℕ) :
    MeetsCalls (fun _ => True) (k64XfsReadFile path max) := by
  refine (resolve_meets _).bind fun (_, inode) hi => ?_
  exact meets_guard.bind fun _ _ => readFrom_meets hi max _ _ (Nat.le_refl _)

theorem truncate_meets (newSize : ℕ) :
    MeetsCalls (fun _ => True) (k64XfsTruncate path newSize) := by
  refine (resolve_meets _).bind fun (_, inode) _ => ?_
  refine meets_guard.bind fun _ _ => ?_
  split
  · exact writeFile_meets _ _ _ _
  · split
    · refine meets_guard.bind fun _ _ => ?_
      exact (readFile_meets _ _).bind fun buf _ => writeFile_meets _ _ _ _
    · exact writeFile_meets _ _ _ _

theorem unlinkBody_meets {parent : Inode} (hparent : Inode.Clear parent) (hi : Inode.Clear inode)
    (id : UInt32) (leaf : List UInt8) :
    MeetsCalls (fun _ => True) (unlinkBody parent inode id leaf) := by
  refine (freeFileExtents_meets hi).bind fun _ _ => ?_
  refine (meets_answer (q := Call.freeInode id) trivial).bind fun _ _ => ?_
  exact (dirRemove_meets hparent).bind fun _ _ => meets_pure trivial

theorem remove_meets : MeetsCalls (fun _ => True) (k64XfsRemove path) := by
  refine (meets_orFail fun _ _ => trivial).bind fun (parentPath, leaf) _ => ?_
  refine (resolve_meets _).bind fun (_, parent) hparent => ?_
  refine (resolve_meets _).bind fun (id, inode) hi => ?_
  refine meets_guard.bind fun _ _ => ?_
  refine (meets_answer (q := Call.journalBegin) trivial).bind fun _ _ => ?_
  refine (unlinkBody_meets hparent hi id leaf).bind fun _ _ => ?_
  have hzero : Inode.Clear { Inode.zero with inodeId := id } := clear_of_empty rfl
  exact (writeInode_meets hzero).attempt.bind fun _ _ => commit_meets

theorem rmdir_meets : MeetsCalls (fun _ => True) (k64XfsRmdir path) := by
  refine (meets_orFail fun _ _ => trivial).bind fun (parentPath, leaf) _ => ?_
  refine (resolve_meets _).bind fun (_, parent) hparent => ?_
  refine (resolve_meets _).bind fun (id, inode) hi => ?_
  refine meets_guard.bind fun _ _ => ?_
  refine (readDataBlock_meets hi 0).bind fun tmp _ => ?_
  refine meets_guard.bind fun _ _ => ?_
  refine (meets_answer (q := Call.journalBegin) trivial).bind fun _ _ => ?_
  exact (unlinkBody_meets hparent hi id leaf).bind fun _ _ => commit_meets

theorem rename_meets (oldPath newPath : CString) :
    MeetsCalls (fun _ => True) (k64XfsRename oldPath newPath) := by
  refine (meets_orFail fun _ _ => trivial).bind fun (oldParentPath, oldLeaf) _ => ?_
  refine (meets_orFail fun _ _ => trivial).bind fun (newParentPath, newLeaf) _ => ?_
  refine (resolve_meets _).bind fun (_, oldParent) hold => ?_
  refine (resolve_meets _).bind fun (_, newParent) hnew => ?_
  refine (resolve_meets _).bind fun (id, inode) _ => ?_
  refine (dirFind_meets hnew).attempt.bind fun found _ => ?_
  refine meets_guard.bind fun _ _ => ?_
  refine (dirAdd_meets hnew id inode.type).bind fun _ _ => ?_
  exact (dirRemove_meets hold).bind fun _ _ => meets_pure trivial

theorem changeInode_meets {f : UInt64 → Inode → Inode}
    (hf : ∀ tick i, Inode.extents (f tick i) = Inode.extents i) (path : CString) :
    MeetsCalls (fun _ => True) (changeInode f path) := by
  refine (resolve_meets _).bind fun (_, inode) hi => ?_
  refine info_meets.bind fun fs _ => ?_
  refine (meets_answer (q := Call.journalBegin) trivial).bind fun _ _ => ?_
  have hclear : Inode.Clear (f (fs.generation + 1) inode) := by
    intro ex hex
    rw [hf] at hex
    exact hi ex hex
  exact (writeInode_meets hclear).bind fun _ _ => commit_meets

theorem operation_meets (op : Operation) : MeetsCalls (fun _ => True) op.call := by
  cases op with
  | mkdir path mode uid gid => exact mkdir_meets path mode uid gid
  | create path mode uid gid => exact create_meets path mode uid gid
  | writeFile path data uid gid => exact writeFile_meets path data.bytes uid gid
  | truncate path newSize => exact truncate_meets path _
  | remove path => exact remove_meets path
  | rmdir path => exact rmdir_meets path
  | rename oldPath newPath => exact rename_meets oldPath newPath
  | chmod path mode => exact changeInode_meets (f := chmodded mode) (fun _ _ => rfl) path
  | chown path uid gid => exact changeInode_meets (f := chowned uid gid) (fun _ _ => rfl) path

theorem stat_meets : MeetsCalls (fun _ => True) (k64XfsStat path) :=
  (resolve_meets _).bind fun _ _ => meets_pure trivial

theorem listFrom_meets (h : Inode.Clear dir) (outSize : ℤ) (n : ℕ) : ∀ b out,
    MeetsCalls (fun _ => True) (listFrom dir outSize b n out) := by
  induction n with
  | zero => exact fun b out => meets_pure trivial
  | succ n ih =>
    intro b out
    rw [listFrom]
    exact (readDataBlock_meets h b).bind fun tmp _ => ih _ _

theorem listDir_meets (outSize : ℤ) :
    MeetsCalls (fun _ => True) (k64XfsListDir path outSize) := by
  refine meets_guard.bind fun _ _ => ?_
  refine (resolve_meets _).bind fun (_, dir) hdir => ?_
  exact meets_guard.bind fun _ _ => listFrom_meets hdir outSize _ _ _

end XfsExtentOperations
