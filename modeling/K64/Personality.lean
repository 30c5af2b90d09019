import K64.ProcessNumbers

/-! # Personalities of processes

The personality of a process is handed over in one static variable: `klcs` sets it in front of its launch,
and the next process that gets a slot takes it and resets it. -/
namespace Personality

open UserMode

inductive ProcessPersonality where
  | native
  | linuxX8664
  deriving DecidableEq

/-- The programs, the personality in each slot, the one for the next process, and for each slot whether the
launch that took it was one of `klcs`. -/
structure System where
  machine : Machine
  personality : ℕ → ProcessPersonality
  nextProcessPersonality : ProcessPersonality
  requested : ℕ → Bool

/-- The image is loaded and a context is free, so that the loader comes to the process table. The exits of
`elf_execute_impl_ex` in front of it change neither the table nor the variable, and are one flag here. -/
def reachesTable (m : Machine) (x : Image) : Bool :=
  x.loads && decide (m.elfContextDepth < elfContextMax)

/-- The slot that `process_alloc` gives to the program that an event launches or queues, if it comes to
it. -/
def allocatedSlot (m : Machine) (e : ProgramEvent) : Option ℕ :=
  match e with
  | .start x _ | .host x _ => if reachesTable m x then processSlot m.user 0 else none
  | .spawn _ _ =>
    ((List.range spawnMax).find? fun i => !(m.spawnCtx i).used).bind fun _ => processSlot m.user
      m.user.nextUserPid
  | e =>
    (childOf m e).bind fun child => (findSpawnCtx m child.2.1).bind fun k =>
      if (m.spawnCtx k).parentPid = child.2.2 ∧ reachesTable m child.1 then
        processSlot m.user child.2.1 else none

/-- The slot was free. -/
def fresh (m : Machine) (i : ℕ) : Bool := !(m.user.processTable i).used

/-- An event of the programs, with what `process_alloc` does to the personalities: a slot that is taken over
keeps its own, and the one for the next process is used up in any case. -/
def runProgram (s : System) (e : ProgramEvent) (byKlcs : Bool) : System :=
  match allocatedSlot s.machine e with
  | none => { s with machine := (stepProgram s.machine e).2 }
  | some i =>
    { machine := (stepProgram s.machine e).2
      personality := if fresh s.machine i then
        Function.update s.personality i s.nextProcessPersonality else s.personality
      nextProcessPersonality := .native
      requested := if fresh s.machine i then Function.update s.requested i byKlcs else s.requested }

def setNextPersonality (s : System) (personality : ProcessPersonality) : System :=
  { s with nextProcessPersonality := personality }

/-- What `klcs run` finds under a path: the path it resolves to, whether the file is a Linux program and
whether it is a dynamic one, and the images of the program and of the staged dynamic loader. -/
structure KlcsRequest where
  path : List UInt8
  payload : Option (List UInt8)
  valid : Bool
  dynamic : Bool
  program : Image
  loader : Image

/-- "/compat/linux/lib64/ld-linux-x86-64.so.2". -/
def loaderPath : List UInt8 :=
  [47, 99, 111, 109, 112, 97, 116, 47, 108, 105, 110, 117, 120, 47, 108, 105, 98, 54, 52, 47, 108, 100,
    45, 108, 105,
    110, 117, 120, 45, 120, 56, 54, 45, 54, 52, 46, 115, 111, 46, 50]

/-- The launch that `klcs` asks for, if the file is accepted. -/
def klcsLaunch (q : KlcsRequest) : Option ProgramEvent :=
  if q.path = [] then none
  else
    match q.payload with
    | none => none
    | some resolved =>
      if q.valid = false then none
      else if q.dynamic then some (.start q.loader loaderPath)
      else some (.start q.program resolved)

/-- `klcs_print_file_validation`; a quiet one (`runq`) differs in its messages only. -/
def klcsPrintFileValidation (s : System) (q : KlcsRequest) : System :=
  match klcsLaunch q with
  | none => s
  | some e => runProgram (setNextPersonality s .linuxX8664) e true

inductive Event where
  | program (e : ProgramEvent)
  | klcs (q : KlcsRequest)

def step (s : System) : Event → System
  | .program e => runProgram s e false
  | .klcs q => klcsPrintFileValidation s q

/-- No process, and the native personality for the next one. -/
def Started (s : System) : Prop :=
  (∀ i, (s.machine.user.processTable i).used = false) ∧ s.nextProcessPersonality = .native

/-- The processes with the Linux personality are those of the launches of `klcs`. -/
def Given (s : System) : Prop :=
  ∀ i, (s.machine.user.processTable i).used = true →
    (s.personality i = .linuxX8664 ↔ s.requested i = true)

/-- The processes have their personalities in every state of a run. -/
def AlwaysGiven (s : System) : List Event → Prop
  | [] => Given s
  | e :: rest => Given s ∧ AlwaysGiven (step s e) rest

/-- The launch in a step, if there is one, gets a slot. -/
def launched : Event → Option (ProgramEvent × Bool)
  | .program e => some (e, false)
  | .klcs q => (klcsLaunch q).map fun e => (e, true)

/-- Whether a launch of `klcs` has failed before the process table, with no slot given since. -/
def pendingAfter (m : Machine) (pending : Bool) (e : Event) : Bool :=
  match launched e with
  | none => pending
  | some (launch, byKlcs) => (pending || byKlcs) && (allocatedSlot m launch).isNone

/-- Something else than `klcs` takes a free slot. -/
def takesFree (m : Machine) (e : Event) : Prop :=
  ∃ launch, launched e = some (launch, false) ∧ ∃ i, allocatedSlot m launch = some i ∧ fresh m i = true

/-- A launch of `klcs` that failed before the process table is not followed by another process, unless one
of `klcs` or a queued child comes first. -/
def NoneLeft (s : System) (pending : Bool) : List Event → Prop
  | [] => True
  | e :: rest =>
    ¬ (pending = true ∧ takesFree s.machine e) ∧ NoneLeft (step s e)
      (pendingAfter s.machine pending e) rest

end Personality
