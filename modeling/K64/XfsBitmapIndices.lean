import K64.XfsMountSafety

/-! # The indices that reach the block bitmap

The lists of bit numbers that `xfs_alloc_extent`, `xfs_free_extent` and `k64_xfs_check` pass to
`xfs_bitmap_get` and `xfs_bitmap_set`, each taken where the function makes the calls. No index reaches
the number of blocks of the volume, in any run of public calls and whatever fails. -/
namespace XfsBitmapIndices

open IoProgram IoContract XfsFormat XfsJournal XfsInode XfsCalls XfsDirectory XfsOperations
  XfsVolume XfsVolumeLifecycle XfsVolumeRefinement XfsSystem XfsWrittenBlocks XfsRuns
  XfsExtentSafety XfsExtentOperations XfsMountSafety

/-- The blocks that the scan of `xfs_alloc_extent` looks at. -/
def scannedBlocks (used : ℕ → Bool) (blocks : ℕ) : (b n runLen : ℕ) → List ℕ
  | _, 0, _ => []
  | b, n + 1, runLen =>
    b :: if used b then scannedBlocks used blocks (b + 1) n 0
      else if runLen + 1 = blocks then []
      else scannedBlocks used blocks (b + 1) n (runLen + 1)

theorem mem_scannedBlocks {used : ℕ → Bool} {blocks x : ℕ} : ∀ n b runLen,
    x ∈ scannedBlocks used blocks b n runLen → x < b + n := by
  intro n
  induction n with
  | zero => exact fun _ _ h => absurd h List.not_mem_nil
  | succ n ih =>
    intro b runLen h
    rw [scannedBlocks, List.mem_cons] at h
    rcases h with rfl | h
    · omega
    · have hnext : ∀ {k}, x ∈ scannedBlocks used blocks (b + 1) n k → x < b + (n + 1) := by
        intro k hk
        have := ih _ _ hk
        omega
      split at h
      · exact hnext h
      · split at h
        · exact absurd h List.not_mem_nil
        · exact hnext h

def runIndices (start blocks : ℕ) : List ℕ :=
  (List.range blocks).map fun x => (start + x) % 2 ^ 32

theorem mem_runIndices {start blocks i : ℕ} (h : i ∈ runIndices start blocks) :
    i < start + blocks := by
  obtain ⟨x, hx, rfl⟩ := List.mem_map.mp h
  have hlt := List.mem_range.mp hx
  have hmod := Nat.mod_le (start + x) (2 ^ 32)
  omega

def allocExtentIndices (blocks : ℕ) : XfsM (List ℕ) := do
  Proc.guard (blocks != 0 && blocks ≤ 2 ^ 32 - 1)
  let fs ← Proc.load
  let sb := fs.super
  let tmp ← xfsBlockReadTmp sb.blockBitmapStart.toNat
  let used := fun b => xfsBitmapGet tmp (b % 2 ^ 32)
  let n := sb.totalBlocks.toNat - sb.dataStart.toNat
  let scanned := (scannedBlocks used blocks sb.dataStart.toNat n 0).map fun b => b % 2 ^ 32
  match allocScan used blocks sb.dataStart.toNat n 0 0 with
  | some start => return scanned ++ runIndices start blocks
  | none => return scanned

/-- Each index is read, and written when its bit is set. -/
def freeExtentIndices (start blocks : ℕ) : XfsM (List ℕ) := do
  let fs ← Proc.load
  let sb := fs.super
  Proc.guard (blocks != 0 && sb.dataStart.toNat ≤ start &&
    (start + blocks) % 2 ^ 64 ≤ sb.totalBlocks.toNat)
  let _ ← xfsBlockReadTmp sb.blockBitmapStart.toNat
  return runIndices start blocks

/-- Those of `checkExtent`, for the bitmap on the disk and for the one of the blocks seen. -/
def extentIndices (sb : Superblock) (ex : Extent) : List ℕ :=
  let start := ex.physicalBlock.toNat
  let count := ex.blockCount.toNat
  if count = 0 ∨ start < sb.dataStart.toNat ∨ 2 ^ 64 - 1 - count < start ∨
      sb.totalBlocks.toNat < start + count then []
  else (List.range' start count).map fun b => b % 2 ^ 32

def inodeIndices (sb : Superblock) (inodeBitmap : XBlock) : ℕ → ℕ → XfsM (List ℕ)
  | _, 0 => pure []
  | i, n + 1 =>
    if !xfsBitmapGet inodeBitmap i then inodeIndices sb inodeBitmap (i + 1) n
    else do
      match ← (xfsReadInode (UInt32.ofNat (i + 1))).attempt with
      | none => inodeIndices sb inodeBitmap (i + 1) n
      | some inode =>
        let rest ← inodeIndices sb inodeBitmap (i + 1) n
        return (Inode.extents inode).flatMap (extentIndices sb) ++ rest

/-- Those of the loop that counts the clear bits. -/
def countIndices (sb : Superblock) : List ℕ :=
  (List.range' sb.dataStart.toNat (sb.totalBlocks.toNat - sb.dataStart.toNat)).map fun b =>
    b % 2 ^ 32

def checkIndices : XfsM (List ℕ) := do
  let fs ← Proc.load
  if !checkSuper fs then return []
  else
    match ← (readBitmaps fs.super).attempt with
    | none => return []
    | some (inodeBitmap, _) =>
      let _ ← checkRoot fs.super
      let visited ← inodeIndices fs.super inodeBitmap 0 512
      return visited ++ countIndices fs.super

def callIndices : Call → XfsM (List ℕ)
  | .allocExtent blocks => allocExtentIndices blocks
  | .freeExtent start blocks => freeExtentIndices start blocks
  | _ => pure []

/-- Follows a program call by call. A call that stops early reaches the bitmap with nothing. -/
def touchedBy {β : Type} : Prog Call Ans β → System → List ℕ
  | .ret _, _ => []
  | .ask q k, s =>
    (s.call (callIndices q)).1.getD [] ++
      match s.call (implementation q) with
      | (some r, t) => touchedBy (k r) t
      | (none, _) => []

def PublicCall.indices (s : System) : PublicCall → List ℕ
  | .operation op => touchedBy (op.call ()) s
  | .stat path => touchedBy (k64XfsStat path ()) s
  | .listDir path outSize => touchedBy (k64XfsListDir path outSize ()) s
  | .readFile path max => touchedBy (k64XfsReadFile path max ()) s
  | .check => (s.call checkIndices).1.getD []
  | .sync => []
  | .unmount => []
  | .mount => []

variable {total : ℕ} {s t u : System}

def Below (total : ℕ) (l : List ℕ) : Prop := ∀ i ∈ l, i < total

theorem Below.append {l l' : List ℕ} (h : Below total l) (h' : Below total l') :
    Below total (l ++ l') := by
  intro i hi
  rcases List.mem_append.mp hi with hi | hi
  · exact h i hi
  · exact h' i hi

theorem below_nil : Below total [] := fun _ h => absurd h List.not_mem_nil

theorem below_mod {l : List ℕ} (h : Below total l) : Below total (l.map fun b => b % 2 ^ 32) := by
  intro i hi
  obtain ⟨b, hb, rfl⟩ := List.mem_map.mp hi
  exact Nat.lt_of_le_of_lt (Nat.mod_le _ _) (h b hb)

theorem data_end {fs : Xfs} (h : Placed total fs) (hlarge : 82 ≤ total) :
    fs.super.dataStart.toNat + (fs.super.totalBlocks.toNat - fs.super.dataStart.toNat) = total := by
  rw [h.total, h.layout.dataStart, show (82 : UInt64).toNat = 82 from rfl]
  omega

theorem meets_allocIndices (hlarge : 82 ≤ total) (blocks : ℕ) :
    MeetsBlocks total (Below total) (allocExtentIndices blocks) := by
  refine meets_guard.bind fun _ hblocks => ?_
  rw [Bool.and_eq_true, bne_iff_ne] at hblocks
  apply meets_load.bind
  intro fs hfs
  dsimp only
  have hend := data_end hfs hlarge
  refine (meets_read (by rw [hfs.layout.blockBitmapStart]; exact Or.inl (by decide))).bind
    fun tmp _ => ?_
  have hscanned : ∀ used : ℕ → Bool, Below total ((scannedBlocks used blocks
      fs.super.dataStart.toNat (fs.super.totalBlocks.toNat - fs.super.dataStart.toNat) 0).map
      fun b => b % 2 ^ 32) := by
    intro used
    apply below_mod
    intro x hx
    have := mem_scannedBlocks _ _ _ hx
    omega
  split
  next start hstart =>
    obtain ⟨-, hhigh, -⟩ := alloc_scan_some _ _ _ _ (fun h => absurd rfl h)
      (Nat.pos_of_ne_zero hblocks.1) (fun x h1 h2 => by omega) hstart
    refine meets_pure ((hscanned _).append fun i hi => ?_)
    have := mem_runIndices hi
    omega
  · exact meets_pure (hscanned _)

theorem meets_freeIndices {start blocks : ℕ} (h : start + blocks < 2 ^ 64) :
    MeetsBlocks total (Below total) (freeExtentIndices start blocks) := by
  apply meets_load.bind
  intro fs hfs
  refine meets_guard.bind fun _ hrange => ?_
  simp only [Bool.and_eq_true, decide_eq_true_eq, Nat.mod_eq_of_lt h, hfs.total] at hrange
  refine (meets_read (by rw [hfs.layout.blockBitmapStart]; exact Or.inl (by decide))).bind
    fun tmp _ => ?_
  refine meets_pure fun i hi => ?_
  have := mem_runIndices hi
  omega

theorem below_extent {fs : Xfs} (h : Placed total fs) (ex : Extent) :
    Below total (extentIndices fs.super ex) := by
  unfold extentIndices
  dsimp only
  split
  · exact below_nil
  next hrange =>
    rw [h.total] at hrange
    apply below_mod
    intro b hb
    have := List.mem_range'_1.mp hb
    omega

theorem meets_inodeIndices {fs : Xfs} (h : Placed total fs) (inodeBitmap : XBlock) (n : ℕ) : ∀ i,
    MeetsBlocks total (Below total) (inodeIndices fs.super inodeBitmap i n) := by
  induction n with
  | zero => exact fun i => meets_pure below_nil
  | succ n ih =>
    intro i
    rw [inodeIndices]
    split
    · exact ih (i + 1)
    · refine (meets_readInode _).attempt.bind fun o _ => ?_
      cases o with
      | none => exact ih (i + 1)
      | some inode =>
        refine (ih (i + 1)).bind fun rest hrest => ?_
        refine meets_pure (Below.append (fun j hj => ?_) hrest)
        obtain ⟨ex, -, hex⟩ := List.mem_flatMap.mp hj
        exact below_extent h ex j hex

theorem meets_checkIndices (hlarge : 82 ≤ total) :
    MeetsBlocks total (Below total) checkIndices := by
  apply meets_load.bind
  intro fs hfs
  split
  · exact meets_pure below_nil
  · refine (meets_readBitmaps hfs).attempt.bind fun o _ => ?_
    cases o with
    | none => exact meets_pure below_nil
    | some bitmaps =>
      refine (meets_checkRoot _).bind fun _ _ => ?_
      refine (meets_inodeIndices hfs _ _ _).bind fun visited hvisited => ?_
      refine meets_pure (hvisited.append (below_mod fun b hb => ?_))
      have hend := data_end hfs hlarge
      have := List.mem_range'_1.mp hb
      omega

theorem meets_callIndices (hlarge : 82 ≤ total) {q : Call} (hq : callContract.asks q) :
    MeetsBlocks total (Below total) (callIndices q) := by
  cases q with
  | allocExtent blocks => exact meets_allocIndices hlarge blocks
  | freeExtent start blocks => exact meets_freeIndices hq
  | _ => exact meets_pure below_nil

theorem below_answer {f : XfsM (List ℕ)} (hf : MeetsBlocks total (Below total) f)
    (hp : Placed total s.fs) (hg : Guarded s.machine) : Below total ((s.call f).1.getD []) := by
  have hanswer := (Proc.Meets.exec machine_honours hf hp hg).1
  cases hr : (s.call f).1 with
  | none => exact below_nil
  | some l => exact hanswer l hr

theorem touched_below {β : Type} {S : β → Prop} {p : Prog Call Ans β} (hlarge : 82 ≤ total)
    (hm : Prog.Meets callContract S p) : ∀ {s : System}, Placed total s.fs → Guarded s.machine →
    Below total (touchedBy p s) := by
  induction p with
  | ret b => exact fun _ _ => below_nil
  | ask q k ih =>
    intro s hp hg
    rw [touchedBy]
    refine Below.append (below_answer (meets_callIndices hlarge hm.1) hp hg) ?_
    obtain ⟨hanswer, hp', hg'⟩ :=
      Proc.Meets.exec machine_honours (implementation_meets q hm.1) hp hg
    rcases hc : s.call (implementation q) with ⟨_ | r, t⟩
    · exact below_nil
    · have hr : ((implementation q).exec machine s.fs s.machine).1 = some r := congrArg Prod.fst hc
      obtain rfl : (s.call (implementation q)).2 = t := congrArg Prod.snd hc
      exact ih r (hm.2 r (hanswer r hr)) hp' hg'

theorem touched_idle {β : Type} {P : β → Unit → Prop} {p : Prog Call Ans β}
    (hm : s.fs.mounted = false) (hw : p.wp (idle s.fs) idleGuard P ()) : touchedBy p s = [] := by
  induction p with
  | ret b => rfl
  | ask q k ih =>
    have hindices : callIndices q = pure [] := by
      cases q <;> first | rfl | exact hw.1.elim
    have hcall : s.call (implementation q) = (some (idle s.fs q ()).1, s) := by
      obtain ⟨hr, hfs, hmachine⟩ := Proc.wp_exec (h := machine) (C := fun _ _ => True)
        (implementation_idle hm q s.fs s.machine () ⟨rfl, rfl⟩ hw.1)
      rw [System.call, hr, hfs, hmachine]
    rw [touchedBy, hcall, hindices]
    exact ih _ hw.2

theorem indices_below (hlarge : 82 ≤ total) (h : Steady total s) (call : PublicCall) :
    Below total (PublicCall.indices s call) := by
  by_cases hm : s.fs.mounted = true
  · have hp := h.placed hm
    cases call with
    | operation op => exact touched_below hlarge (operation_meets op () trivial) hp h.guarded
    | stat path => exact touched_below hlarge (stat_meets path () trivial) hp h.guarded
    | listDir path outSize =>
      exact touched_below hlarge (listDir_meets path outSize () trivial) hp h.guarded
    | readFile path max =>
      exact touched_below hlarge (readFile_meets path max () trivial) hp h.guarded
    | check => exact below_answer (meets_checkIndices hlarge) hp h.guarded
    | sync => exact below_nil
    | unmount => exact below_nil
    | mount => exact below_nil
  · rw [Bool.not_eq_true] at hm
    have hidle : PublicCall.indices s call = [] := by
      cases call with
      | operation op => exact touched_idle hm (idle_operation op)
      | stat path => exact touched_idle hm (idle_stat path)
      | listDir path outSize => exact touched_idle hm (idle_listDir path outSize)
      | readFile path max => exact touched_idle hm (idle_readFile path max)
      | check =>
        have hcheck : mwp checkIndices (fun r _ _ => r = some []) s.fs s.machine := by
          simp [mwp, checkIndices, checkSuper, hm]
        have hr : (s.call checkIndices).1 = some [] := Proc.wp_exec hcheck
        rw [PublicCall.indices, hr]
        rfl
      | sync => rfl
      | unmount => rfl
      | mount => rfl
    rw [hidle]
    exact below_nil

end XfsBitmapIndices
