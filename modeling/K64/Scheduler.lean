import K64.RingList
import Mathlib.Logic.Function.Basic
import Mathlib.Data.Int.Notation
import Mathlib.Data.Nat.Notation

/-! # The scheduler

`k64_sched.c`: task structures in a ring, a timer interrupt that picks the next task, and the calls
with which tasks change their states. A loop around the ring is cut off after as many steps as there
are structures; that it never comes to that is part of what is shown. -/
namespace Scheduler

open RingList

abbrev Ptr := ℕ

def null : Ptr := 0

inductive TaskState where
  | unused
  | ready
  | running
  | blocked
  | zombie
  deriving DecidableEq

structure Task where
  id : UInt64
  rsp : UInt64
  cr3 : UInt64
  sleepUntilTick : UInt64
  stackFrame : UInt64
  state : TaskState
  priority : ℤ
  baseTimeslice : UInt32
  remainingTicks : UInt32
  runtimeTicks : UInt64
  waitTicks : UInt64
  next : Ptr

/-- The static variables, the memory of the task structures, the tick counter of the timer and the
page table register. -/
structure Sched where
  heap : Ptr → Task
  tcbs : List Ptr
  currentTask : Ptr
  taskList : Ptr
  nextTaskId : UInt64
  ticks : UInt64
  cr3 : UInt64

def Sched.modify (s : Sched) (p : Ptr) (f : Task → Task) : Sched :=
  { s with heap := Function.update s.heap p (f (s.heap p)) }

@[simp] theorem modify_heap (s : Sched) (p q : Ptr) (f : Task → Task) :
    (s.modify p f).heap q = if q = p then f (s.heap p) else s.heap q := by
  simp [Sched.modify, Function.update_apply]

@[simp] theorem modify_currentTask (s : Sched) (p : Ptr) (f : Task → Task) :
    (s.modify p f).currentTask = s.currentTask := rfl

def maxPriority : ℤ := 5

def clampPriority (priority : ℤ) : ℤ :=
  let priority := if priority < 0 then 0 else priority
  if priority > maxPriority then maxPriority else priority

def timesliceForPriority (priority : ℤ) : UInt32 := 2 + UInt32.ofInt (clampPriority priority)

/-- The words that `build_initial_stack` pushes, the last one first. -/
def initialStack (entry arg returnAsm : UInt64) : List UInt64 :=
  [0, 0, 0, 0, 0, 0, 0, 0, arg, 0, 0, 0, 0, 0, 0, entry, 0x08, 0x202, returnAsm]

def initialRsp (stackBase : UInt64) : UInt64 :=
  stackBase + 4096 * 4 - 8 * UInt64.ofNat (initialStack 0 0 0).length

def k64SchedInit (bootstrap : Ptr) (s : Sched) : Sched :=
  { s with
    heap := Function.update s.heap bootstrap {
      id := 0, rsp := 0, cr3 := s.cr3, sleepUntilTick := 0, stackFrame := 0, state := .running,
      priority := 0, baseTimeslice := 2, remainingTicks := 2, runtimeTicks := 0, waitTicks := 0,
      next := bootstrap }
    tcbs := [bootstrap]
    currentTask := bootstrap
    taskList := bootstrap }

/-- A task before it has a stack. -/
def newTask (s : Sched) (priority : ℤ) (cr3 : UInt64) : Task where
  id := s.nextTaskId
  rsp := 0
  cr3 := if cr3 ≠ 0 then cr3 else s.cr3
  sleepUntilTick := 0
  stackFrame := 0
  state := .ready
  priority := clampPriority priority
  baseTimeslice := timesliceForPriority (clampPriority priority)
  remainingTicks := timesliceForPriority (clampPriority priority)
  runtimeTicks := 0
  waitTicks := 0
  next := null

/-- Puts a task into the ring, behind the current one. -/
def linkTask (s : Sched) (tcb : Ptr) : Sched :=
  { s.modify s.currentTask fun t => { t with next := tcb } with tcbs := tcb :: s.tcbs }

/-- `tcb` and `stack` are what the frame allocator answers; a null pointer means that it has none.
Without a stack the structure is given back. -/
def k64TaskCreateArg (s : Sched) (tcb : Ptr) (stack : UInt64) (priority : ℤ) (cr3 : UInt64) :
    Ptr × Sched :=
  if tcb = null then (null, s)
  else
    let task := newTask s priority cr3
    if stack = 0 then
      (null, { s.modify tcb fun _ => task with nextTaskId := s.nextTaskId + 1 })
    else
      let task := { task with
        rsp := initialRsp stack, stackFrame := stack, next := (s.heap s.currentTask).next }
      (tcb, linkTask { s.modify tcb fun _ => task with nextTaskId := s.nextTaskId + 1 } tcb)

def wakeSleeper (now : UInt64) (p : Ptr) (s : Sched) : Sched :=
  if (s.heap p).state = .blocked ∧ (s.heap p).sleepUntilTick ≠ 0 ∧
      (s.heap p).sleepUntilTick ≤ now then
    s.modify p fun t => { t with state := .ready, sleepUntilTick := 0 }
  else s

/-- The body of the loop of `on_tick_accounting`. -/
def accountTask (now : UInt64) (p : Ptr) (s : Sched) : Sched :=
  let s := wakeSleeper now p s
  if p = s.currentTask ∧ (s.heap p).state = .running then
    s.modify p fun t => { t with runtimeTicks := t.runtimeTicks + 1 }
  else if (s.heap p).state = .ready then
    s.modify p fun t => { t with waitTicks := t.waitTicks + 1 }
  else s

def onTickAccounting (s : Sched) : Option Sched :=
  if s.taskList = null then some s
  else
    doWhile (accountTask s.ticks) (fun s p => (s.heap p).next)
      (fun s p => p == null || p == s.taskList) s.tcbs.length s.taskList s

/-- `selected` and `selected_score` after a look at one candidate. -/
def consider (s : Sched) (candidate : Ptr) (selected : Option (Ptr × UInt64)) :
    Option (Ptr × UInt64) :=
  let t := s.heap candidate
  if t.id ≠ 0 ∧ t.state = .ready then
    let score := (UInt32.ofInt t.priority).toUInt64 * 1024 + t.waitTicks
    match selected with
    | none => some (candidate, score)
    | some (best, bestScore) =>
      if score > bestScore then some (candidate, score) else some (best, bestScore)
  else selected

def runTask (s : Sched) (selected : Ptr) : UInt64 × Sched :=
  let s := s.modify selected fun t =>
    { t with state := .running, remainingTicks := t.baseTimeslice, waitTicks := 0 }
  let s := { s with currentTask := selected }
  let targetCr3 := if (s.heap selected).cr3 ≠ 0 then (s.heap selected).cr3 else s.cr3
  ((s.heap selected).rsp, { s with cr3 := targetCr3 })

def pickNextRsp (s : Sched) : Option (UInt64 × Sched) :=
  if s.currentTask = null then some (0, s)
  else if (s.heap s.currentTask).next = null then some ((s.heap s.currentTask).rsp, s)
  else
    let s :=
      if (s.heap s.currentTask).state = .running then
        s.modify s.currentTask fun t => { t with state := .ready }
      else s
    (doWhile (consider s) (fun _ p => (s.heap p).next) (fun _ p => p == null || p == s.taskList)
      s.tcbs.length s.taskList none).map fun selected =>
        runTask s ((selected.map Prod.fst).getD s.taskList)

def k64PitOnTick (s : Sched) : Sched := { s with ticks := s.ticks + 1 }

def saveRsp (s : Sched) (oldRsp : UInt64) : Sched :=
  if s.currentTask ≠ null then s.modify s.currentTask fun t => { t with rsp := oldRsp } else s

/-- The interrupt itself, with the answer of `k64_usermode_is_active`. -/
def k64SchedHandleTimer (s : Sched) (usermodeActive : Bool) (oldRsp : UInt64) :
    Option (UInt64 × Sched) :=
  if usermodeActive then some (oldRsp, k64PitOnTick s)
  else
    (onTickAccounting (k64PitOnTick (saveRsp s oldRsp))).bind fun s =>
      if s.currentTask = null ∨ (s.heap s.currentTask).state ≠ .running then pickNextRsp s
      else if (s.heap s.currentTask).id = 0 then pickNextRsp s
      else
        let s :=
          if (s.heap s.currentTask).remainingTicks > 0 then
            s.modify s.currentTask fun t => { t with remainingTicks := t.remainingTicks - 1 }
          else s
        if (s.heap s.currentTask).remainingTicks = 0 then pickNextRsp s
        else some ((s.heap s.currentTask).rsp, s)

/-- Calls that change the state of one task. -/
inductive TaskCall where
  | exitCurrent
  | yield
  | sleep (ticks : UInt64)
  | blockCurrent
  | wakeTask (task : Ptr)
  | stop (task : Ptr)

def k64TaskExitCurrent (s : Sched) : Sched :=
  if s.currentTask ≠ null then s.modify s.currentTask fun t => { t with state := .zombie } else s

def k64SchedYield (s : Sched) : Sched :=
  if s.currentTask ≠ null then s.modify s.currentTask fun t => { t with remainingTicks := 0 } else s

def k64SchedSleep (s : Sched) (ticks : UInt64) : Sched :=
  if s.currentTask = null ∨ (s.heap s.currentTask).id = 0 then s
  else s.modify s.currentTask fun t => { t with
    sleepUntilTick := s.ticks + if ticks ≠ 0 then ticks else 1
    state := .blocked
    remainingTicks := 0 }

def k64SchedBlockCurrent (s : Sched) : Sched :=
  if s.currentTask = null ∨ (s.heap s.currentTask).id = 0 then s
  else s.modify s.currentTask fun t => { t with
    sleepUntilTick := 0, state := .blocked, remainingTicks := 0 }

def k64SchedWakeTask (s : Sched) (task : Ptr) : Sched :=
  if task = null ∨ (s.heap task).state ≠ .blocked then s
  else s.modify task fun t => { t with sleepUntilTick := 0, state := .ready }

def k64TaskStop (s : Sched) (task : Ptr) : Sched :=
  if task = null ∨ (s.heap task).id = 0 then s
  else s.modify task fun t => { t with state := .zombie, remainingTicks := 0 }

def TaskCall.run (s : Sched) : TaskCall → Sched
  | .exitCurrent => k64TaskExitCurrent s
  | .yield => k64SchedYield s
  | .sleep ticks => k64SchedSleep s ticks
  | .blockCurrent => k64SchedBlockCurrent s
  | .wakeTask task => k64SchedWakeTask s task
  | .stop task => k64TaskStop s task

end Scheduler
