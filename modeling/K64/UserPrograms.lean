import K64.DescriptorFrames

/-! # Programs that run programs

`k64_usermode.c` and the end of `elf_execute_impl_ex` in `k64_elf.c`. There is one context for
programs: one that waits, yields or calls a service hosted by a program is suspended inside its
system call while another one runs, which may do the same. -/
namespace UserMode

def spawnMax : ℕ := 8
def elfContextMax : ℕ := 4
def waitBlock : UInt64 := 0
def waitNohang : UInt64 := 1
def errNotchild : ℤ := -7

/-- The two static stacks for system calls. -/
inductive KernelStack where
  | syscall
  | nested
  deriving DecidableEq

/-- `active_ctx` as a whole. -/
structure ExecContext where
  kernelRsp : UInt64
  kernelCr3 : UInt64
  result : ℤ
  active : Bool
  schedulerUnlocked : Bool
  processIndex : ℤ
  space : UInt64
  fallbackFds : ℕ → Fd

structure SpawnCtx where
  used : Bool
  pid : UInt64
  parentPid : UInt64
  path : List UInt8
  args : List UInt8

/-- Who started a program: the kernel itself, a call of a service it hosts, `run_reserved_child` for
`sched.yield`, `sched.sleep` or the background poll, or the same for `proc.wait` on that number. -/
inductive Purpose where
  | shell
  | host
  | child
  | wait (target : UInt64)

/-- A program in progress, with the local variables of the calls that started it. -/
structure Run where
  index : ℕ
  path : List UInt8
  parentPid : UInt64
  pid : UInt64
  purpose : Purpose
  savedCtx : ExecContext
  savedRsp0 : KernelStack

/-- The static variables, the other fields of `active_ctx`, and the programs in progress, the one in
ring 3 first. -/
structure Machine where
  user : State
  kernelRsp : UInt64
  kernelCr3 : UInt64
  result : ℤ
  active : Bool
  schedulerUnlocked : Bool
  space : UInt64
  rsp0 : KernelStack
  elfContextDepth : ℕ
  spawnCtx : ℕ → SpawnCtx
  runs : List Run

variable (m : Machine)

def Machine.activeCtx : ExecContext where
  kernelRsp := m.kernelRsp
  kernelCr3 := m.kernelCr3
  result := m.result
  active := m.active
  schedulerUnlocked := m.schedulerUnlocked
  processIndex := m.user.processIndex
  space := m.space
  fallbackFds := m.user.fallbackFds

def Machine.setActiveCtx (c : ExecContext) : Machine :=
  { m with
    user := { m.user with processIndex := c.processIndex, fallbackFds := c.fallbackFds }
    kernelRsp := c.kernelRsp
    kernelCr3 := c.kernelCr3
    result := c.result
    active := c.active
    schedulerUnlocked := c.schedulerUnlocked
    space := c.space }

def currentProcessPid (s : State) : UInt64 :=
  match currentProcess s with
  | some i => (s.processTable i).pid
  | none => 0

def processFindPid (s : State) (pid : UInt64) : Option ℕ :=
  if pid = 0 ∧ s.processIndex ≥ 0 then some s.processIndex.toNat else processFindUsed s pid

/-- Whether the image of a program can be loaded, and what entering it puts into `active_ctx`. -/
structure Image where
  loads : Bool
  space : UInt64
  kernelRsp : UInt64
  kernelCr3 : UInt64

/-- `elf_execute_impl_ex` up to ring 3. It returns at once when the image cannot be loaded or there
are too many programs in progress, and also when the process table is full. -/
def elfExecute (x : Image) (path : List UInt8) (parentPid pid : UInt64) (purpose : Purpose)
    (savedCtx : ExecContext) (savedRsp0 : KernelStack) : Option Bool × Machine :=
  if x.loads = false ∨ m.elfContextDepth ≥ elfContextMax then (some false, m)
  else
    match processAlloc m.user parentPid pid with
    | (none, _) => (some true, m)
    | (some i, user) => (none, { m with
        user := { user with processIndex := i, fallbackFds := fun _ => Fd.clear }
        kernelRsp := x.kernelRsp
        kernelCr3 := x.kernelCr3
        result := errInval
        active := true
        schedulerUnlocked := false
        space := x.space
        elfContextDepth := m.elfContextDepth + 1
        runs := ⟨i, path, parentPid, pid, purpose, savedCtx, savedRsp0⟩ :: m.runs })

/-- "/ex/servicehost.elf" and "/ex/demosvc.elf". -/
def isServiceHost (path : List UInt8) : Bool :=
  path == [47, 101, 120, 47, 115, 101, 114, 118, 105, 99, 101, 104, 111, 115, 116, 46, 101, 108,
    102] ||
  path == [47, 101, 120, 47, 100, 101, 109, 111, 115, 118, 99, 46, 101, 108, 102]

/-- The rest of `k64_usermode_execute_named_ex` and `elf_execute_impl_ex`, after ring 3. -/
def executeEnd (r : Run) (rest : List Run) (result : ℤ) : Machine :=
  let user :=
    if (m.user.processTable r.index).state = .running then
      processFinish m.user r.index .zombie result
    else m.user
  let user :=
    if r.parentPid = 0 ∧ r.pid = 0 ∧ isServiceHost r.path then processReap user r.index else user
  { m with user, result, elfContextDepth := m.elfContextDepth - 1, runs := rest }

/-- What `run_reserved_child` and `k64_usermode_execute_nested_path_args` do around an execution. -/
def beginNested : Machine := { m with rsp0 := .nested }

def endNested (savedCtx : ExecContext) (savedRsp0 : KernelStack) : Machine :=
  { m.setActiveCtx savedCtx with rsp0 := savedRsp0, schedulerUnlocked := false }

def executeNestedPathArgs (x : Image) (path : List UInt8) : Machine :=
  match elfExecute (beginNested m) x path 0 0 .host m.activeCtx m.rsp0 with
  | (none, t) => t
  | (some _, t) => endNested t m.activeCtx m.rsp0

def findSpawnCtx (pid : UInt64) : Option ℕ :=
  (List.range spawnMax).find? fun i => (m.spawnCtx i).used && (m.spawnCtx i).pid == pid

def clearSpawnCtx (pid : UInt64) : Machine :=
  match findSpawnCtx m pid with
  | some i => { m with spawnCtx := Function.update m.spawnCtx i ⟨false, 0, 0, [], []⟩ }
  | none => m

def copyBounded (size : ℕ) (l : List UInt8) : List UInt8 := (l.takeWhile (· ≠ 0)).take (size - 1)

/-- Returns the number of the child or an error. -/
def queueSpawn (path args : List UInt8) : ℤ × Machine :=
  match (List.range spawnMax).find? fun i => !(m.spawnCtx i).used with
  | none => (errFull, m)
  | some i =>
    let pid := m.user.nextUserPid
    let parentPid := currentProcessPid m.user
    let ctx : SpawnCtx := ⟨true, pid, parentPid, copyBounded 256 path, copyBounded 256 args⟩
    match processAlloc { m.user with nextUserPid := pid + 1 } parentPid pid with
    | (none, user) => (errFull, { m with
        user, spawnCtx := Function.update m.spawnCtx i { ctx with used := false } })
    | (some _, user) => (pid.toNat, { m with
        user, spawnCtx := Function.update m.spawnCtx i ctx })

/-- The rest of `run_reserved_child`, after the execution. -/
def reservedChildEnd (ok : Bool) (pid : UInt64) : ℤ × Machine :=
  match processFindPid m.user pid with
  | none => (errNoent, clearSpawnCtx m pid)
  | some index =>
    let user :=
      if ok = false ∧ (m.user.processTable index).state = .running then
        processFinish m.user index .faulted errNoent
      else m.user
    let t : Machine := { m with user }
    if (t.user.processTable index).state = .running then (errAgain, t)
    else (0, clearSpawnCtx t pid)

/-- Without a result when the child is now in ring 3. -/
def runReservedChild (x : Image) (pid parentPid : UInt64) (purpose : Purpose) :
    Option ℤ × Machine :=
  match findSpawnCtx m pid with
  | none => (some errAgain, m)
  | some i =>
    if (m.spawnCtx i).parentPid ≠ parentPid then (some errAgain, m)
    else
      match elfExecute (beginNested m) x (m.spawnCtx i).path parentPid pid purpose m.activeCtx
          m.rsp0 with
      | (none, t) => (none, t)
      | (some ok, t) =>
        let ended := reservedChildEnd (endNested t m.activeCtx m.rsp0) ok pid
        (some ended.1, ended.2)

def runReadyChildForParent (x : Image) (parentPid : UInt64) : Machine :=
  match (List.range spawnMax).find? fun i =>
      (m.spawnCtx i).used && (parentPid == 0 || (m.spawnCtx i).parentPid == parentPid) with
  | none => m
  | some i => (runReservedChild m x (m.spawnCtx i).pid (m.spawnCtx i).parentPid .child).2

/-- The exit code goes into the answer, and the child is gone. -/
def collectChild (index : ℕ) : Answer × Machine :=
  (⟨0, encode64 (m.user.processTable index).exitCode⟩,
    { m with user := processReap m.user index })

/-- The rest of `proc.wait`, after `run_reserved_child`. -/
def waitEnd (status : ℤ) (target : UInt64) : Answer × Machine :=
  if status ≠ 0 then (⟨status, []⟩, m)
  else
    match processFindPid m.user target with
    | none => (⟨errNoent, []⟩, m)
    | some index =>
      if (m.user.processTable index).state = .running then (⟨errAgain, []⟩, m)
      else collectChild m index

/-- Without an answer when the child is now in ring 3. -/
def procWait (x : Image) (target flags : UInt64) : Option Answer × Machine :=
  let callerPid := currentProcessPid m.user
  if flags ≠ waitBlock ∧ flags ≠ waitNohang then (some ⟨errInval, []⟩, m)
  else
    match processFindPid m.user target with
    | none => (some ⟨errNoent, []⟩, m)
    | some index =>
      let p := m.user.processTable index
      if p.parentPid ≠ callerPid then (some ⟨errNotchild, []⟩, m)
      else if p.state = .running then
        if flags = waitNohang then (some ⟨errAgain, []⟩, m)
        else
          match runReservedChild m x p.pid callerPid (.wait target) with
          | (none, t) => (none, t)
          | (some status, t) =>
            let ended := waitEnd t status target
            (some ended.1, ended.2)
      else
        let collected := collectChild m index
        (some collected.1, collected.2)

/-- What the kernel starts, what the running program does, and a poll in the background. A program
ends by exit or fault, with the state that `process_finish` is given. -/
inductive ProgramEvent where
  | start (x : Image) (path : List UInt8)
  | host (x : Image) (path : List UInt8)
  | spawn (path args : List UInt8)
  | yield (x : Image)
  | wait (x : Image) (target flags : UInt64)
  | poll (x : Image)
  | terminate (state : ProcessState) (code : ℤ)

/-- The system call that started a program returns to its caller. -/
def returnToCaller (r : Run) : Option Answer × Machine :=
  match r.purpose with
  | .shell => (none, m)
  | .host => (none, endNested m r.savedCtx r.savedRsp0)
  | .child => (none, (reservedChildEnd (endNested m r.savedCtx r.savedRsp0) true r.pid).2)
  | .wait target =>
    let child := reservedChildEnd (endNested m r.savedCtx r.savedRsp0) true r.pid
    let ended := waitEnd child.2 child.1 target
    (some ended.1, ended.2)

/-- With the answer of a `proc.wait` that returns in this step. -/
def stepProgram : ProgramEvent → Option Answer × Machine
  | .start x path => (none, (elfExecute m x path 0 0 .shell m.activeCtx m.rsp0).2)
  | .host x path => (none, executeNestedPathArgs m x path)
  | .spawn path args => (none, (queueSpawn m path args).2)
  | .yield x => (none, runReadyChildForParent m x (currentProcessPid m.user))
  | .wait x target flags => procWait m x target flags
  | .poll x => (none, if m.active then m else runReadyChildForParent m x 0)
  | .terminate state code =>
    match m.runs with
    | [] => (none, m)
    | r :: rest =>
      let t := { m with
        user := processFinish m.user m.user.processIndex state code
        result := code
        active := false }
      returnToCaller (executeEnd t r rest code) r

/-- The kernel starts programs and polls when none is in progress; all else is done by the one in
ring 3. -/
def PossibleNow : ProgramEvent → Prop
  | .start .. | .poll .. => m.runs = []
  | .terminate state _ => m.runs ≠ [] ∧ state ≠ .running
  | _ => m.runs ≠ []

/-- The states that are reached from one without processes by allowed events. -/
inductive Executes (allowed : Machine → ProgramEvent → Prop) : Machine → Prop where
  | boot (m : Machine) (processes : ∀ i, (m.user.processTable i).used = false)
      (spawns : ∀ i, (m.spawnCtx i).used = false) (idle : m.runs = [])
      (depth : m.elfContextDepth = 0) (locked : m.schedulerUnlocked = false)
      (stack : m.rsp0 = .syscall) (inactive : m.active = false) : Executes allowed m
  | step {m : Machine} (e : ProgramEvent) (h : Executes allowed m) (possible : PossibleNow m e)
      (ok : allowed m e) : Executes allowed (stepProgram m e).2

def bootMachine : Machine where
  user := bootState
  kernelRsp := 0
  kernelCr3 := 0
  result := errInval
  active := false
  schedulerUnlocked := false
  space := 0
  rsp0 := .syscall
  elfContextDepth := 0
  spawnCtx _ := ⟨false, 0, 0, [], []⟩
  runs := []

theorem bootMachine_executes (allowed : Machine → ProgramEvent → Prop) :
    Executes allowed bootMachine :=
  .boot bootMachine (fun _ => rfl) (fun _ => rfl) rfl rfl rfl rfl rfl

end UserMode
