import K64.UserDescriptors

/-! # What the calls leave alone

Frame lemmas for the process table and the pipes, and the ways in which a call can go. -/
namespace UserMode

variable (s : State)

@[simp] theorem setPipe_pipeTable (k k' : ℕ) (f : Pipe → Pipe) :
    (s.setPipe k f).pipeTable k' = if k' = k then f (s.pipeTable k) else s.pipeTable k' := by
  simp [State.setPipe, Function.update_apply]

@[simp] theorem setCurrentFd_pipeTable (j : ℕ) (fd : Fd) :
    (setCurrentFd s j fd).pipeTable = s.pipeTable := by
  unfold setCurrentFd
  split <;> rfl

@[simp] theorem allocFd_pipeTable (fd : Fd) :
    (allocFd s fd).2.pipeTable = s.pipeTable := by
  unfold allocFd
  split
  · exact setCurrentFd_pipeTable s _ fd
  · rfl

@[simp] theorem processAlloc_pipeTable (parentPid pid : UInt64) :
    (processAlloc s parentPid pid).2.pipeTable = s.pipeTable := by
  unfold processAlloc
  split <;> rfl

@[simp] theorem processFinish_pipeTable (index : ℤ) (state : ProcessState)
    (exitCode : ℤ) : (processFinish s index state exitCode).pipeTable = s.pipeTable := by
  unfold processFinish
  split <;> rfl

@[simp] theorem processReap_pipeTable (index : ℤ) :
    (processReap s index).pipeTable = s.pipeTable := by
  unfold processReap
  split <;> rfl

@[simp] theorem fsReadFileRaw_pipeTable (files : Files) (path : List UInt8) :
    (fsReadFileRaw s files path).2.pipeTable = s.pipeTable := by
  unfold fsReadFileRaw
  split <;> rfl

theorem dropRef_eq (kind : FdKind) (p : Pipe) : ∃ q : Pipe, q.buffer = p.buffer ∧ q.used = p.used ∧
    q.readRefs = (if kind = .pipeRead then p.readRefs - 1 else p.readRefs) ∧
    q.writeRefs = (if kind = .pipeWrite then p.writeRefs - 1 else p.writeRefs) ∧
    p.dropRef kind = if q.readRefs = 0 ∧ q.writeRefs = 0 then
      { q with used := false, buffer := { q.buffer with readPos := 0, writePos := 0, size := 0 } }
    else q := by
  refine ⟨if kind = .pipeRead ∧ p.readRefs > 0 then { p with readRefs := p.readRefs - 1 }
    else if kind = .pipeWrite ∧ p.writeRefs > 0 then { p with writeRefs := p.writeRefs - 1 }
    else p, ?_, ?_, ?_, ?_, rfl⟩
  · split
    · rfl
    · split <;> rfl
  · split
    · rfl
    · split <;> rfl
  · by_cases hread : kind = .pipeRead
    · by_cases hpos : p.readRefs > 0
      · rw [if_pos ⟨hread, hpos⟩, if_pos hread]
      · rw [if_neg fun h => hpos h.2, if_neg (by rw [hread]; exact nofun), if_pos hread]
        omega
    · rw [if_neg fun h => hread h.1, if_neg hread]
      split <;> rfl
  · by_cases hwrite : kind = .pipeWrite
    · rw [if_neg (by rw [hwrite]; exact nofun), if_pos hwrite]
      split
      · rfl
      · have hzero : ¬ p.writeRefs > 0 := fun hpos => ‹¬ (_ ∧ _)› ⟨hwrite, hpos⟩
        omega
    · rw [if_neg hwrite]
      split
      · rfl
      · rw [if_neg fun h => hwrite h.1]

/-- The path whose file `io.open` goes on to load, after its checks. -/
def openPath (s : State) (files : Files) (r : Request) : Option (List UInt8) :=
  match r.input, r.outLen with
  | some l, some outLen =>
    if l.length = 0 ∨ l.length > 256 ∨ outLen < 8 then none
    else if l.head? = some 0 ∨ l.getLast? ≠ some 0 then none
    else
      match files.stat (l.takeWhile (· ≠ 0)) with
      | none => none
      | some st =>
        if userCanAccessUid (currentCreds s).effectiveUid (currentCreds s).effectiveGid st.uid st.gid
            st.mode accessRead then
          some (l.takeWhile (· ≠ 0))
        else none
  | _, _ => none

/-- The ways in which `io.open` can go. -/
inductive Opens (s : State) (files : Files) : Option (List UInt8) → Answer × State → Prop where
  | refused (result : ℤ) (negative : result < 0 ∧ -2 ^ 63 ≤ result) :
      Opens s files none (replyResult result, s)
  | invalid : Opens s files none (invalid s)
  | unread (path : List UInt8) (failed : (fsReadFileRaw s files path).1 = none) :
      Opens s files (some path) (replyResult errNoent, (fsReadFileRaw s files path).2)
  | full (path : List UInt8) (size : ℕ) (read : (fsReadFileRaw s files path).1 = some size)
      (unable : (allocFdFile (fsReadFileRaw s files path).2 .fsRawBuffer size).1 = none) :
      Opens s files (some path)
        (replyResult errFull, (allocFdFile (fsReadFileRaw s files path).2 .fsRawBuffer size).2)
  | opened (path : List UInt8) (size fd : ℕ) (read : (fsReadFileRaw s files path).1 = some size)
      (gave : (allocFdFile (fsReadFileRaw s files path).2 .fsRawBuffer size).1 = some fd) :
      Opens s files (some path)
        (replyResult fd, (allocFdFile (fsReadFileRaw s files path).2 .fsRawBuffer size).2)

theorem ioOpen_cases (files : Files) (r : Request) :
    Opens s files (openPath s files r) (ioOpenServiceCall s files r) := by
  unfold ioOpenServiceCall openPath
  cases r.input with
  | none => exact .invalid
  | some l =>
  cases r.outLen with
  | none => exact .invalid
  | some outLen =>
  dsimp only
  by_cases hlen : l.length = 0 ∨ l.length > 256 ∨ outLen < 8
  · rw [if_pos hlen, if_pos hlen]
    exact .invalid
  rw [if_neg hlen, if_neg hlen]
  by_cases hpath : l.head? = some 0 ∨ l.getLast? ≠ some 0
  · rw [if_pos hpath, if_pos hpath]
    exact .invalid
  rw [if_neg hpath, if_neg hpath]
  generalize l.takeWhile (· ≠ 0) = path
  cases hstat : files.stat path with
  | none => exact .refused _ (by decide)
  | some st =>
    dsimp only
    split
    case isFalse => exact .refused _ (by decide)
    split
    · exact .unread path ‹_›
    · rename_i size hread
      cases halloc : allocFdFile (fsReadFileRaw s files path).2 .fsRawBuffer size with
      | mk fd t =>
        cases fd with
        | none =>
          have hcase : Opens s files (some path) _ := .full path size hread (by rw [halloc])
          rw [halloc] at hcase
          exact hcase
        | some fd =>
          have hcase : Opens s files (some path) _ := .opened path size fd hread (by rw [halloc])
          rw [halloc] at hcase
          exact hcase

@[simp] theorem ioOpen_pipeTable (files : Files) (r : Request) :
    (ioOpenServiceCall s files r).2.pipeTable = s.pipeTable := by
  have hcases := ioOpen_cases s files r
  generalize ioOpenServiceCall s files r = res, openPath s files r = path at hcases
  cases hcases with
  | refused | invalid => rfl
  | unread path _ => exact fsReadFileRaw_pipeTable s files path
  | full path size _ _ => exact (allocFd_pipeTable _ _).trans (fsReadFileRaw_pipeTable s files path)
  | opened path size _ _ _ =>
    exact (allocFd_pipeTable _ _).trans (fsReadFileRaw_pipeTable s files path)

end UserMode
