import K64.ByteCodec
import K64.RingBuffer
import Mathlib.Data.Int.Notation

/-! # Descriptors of user programs

`k64_usermode.c`: the process table, the descriptors in it, the pipes, and the service calls that
programs use them with. Requests and responses are the bytes of the staging buffers. -/
namespace UserMode

open RingBuffer ByteCodec

def processMax : ℕ := 64
def fdMax : ℕ := 16
def pipeMax : ℕ := 16
def pipeBufferSize : ℕ := 4096

def errInval : ℤ := -1
def errNoent : ℤ := -2
def errAccess : ℤ := -3
def errAgain : ℤ := -6
def errFull : ℤ := -10
def errBadfd : ℤ := -11
def errPipe : ℤ := -12

inductive ProcessState where
  | empty
  | running
  | exited
  | faulted
  | zombie
  | reaped
  deriving DecidableEq

inductive FdKind where
  | empty
  | file
  | pipeRead
  | pipeWrite
  deriving DecidableEq

/-- What the data of a descriptor points to. -/
inductive Source where
  | null
  | fsRawBuffer
  deriving DecidableEq

structure Fd where
  used : Bool
  kind : FdKind
  data : Source
  size : ℕ
  offset : ℕ
  pipeIndex : ℤ
  deriving DecidableEq

def Fd.clear : Fd := ⟨false, .empty, .null, 0, 0, -1⟩

structure Creds where
  realUid : UInt32
  effectiveUid : UInt32
  realGid : UInt32
  effectiveGid : UInt32
  deriving DecidableEq

structure Process where
  used : Bool
  pid : UInt64
  parentPid : UInt64
  state : ProcessState
  exitCode : ℤ
  creds : Creds
  fds : ℕ → Fd

structure Pipe where
  used : Bool
  buffer : Buffer UInt8
  readRefs : ℕ
  writeRefs : ℕ

/-- The static variables, with `process_index` and `fallback_fds` of `active_ctx`, the buffer of the
file system that whole files are loaded into, and what was written to the terminal. -/
structure State where
  processTable : ℕ → Process
  pipeTable : ℕ → Pipe
  processIndex : ℤ
  fallbackFds : ℕ → Fd
  nextUserPid : UInt64
  sessionCreds : Creds
  fsRawBuffer : ℕ → UInt8
  terminal : List UInt8

variable (s : State)

def State.setProcess (i : ℕ) (f : Process → Process) : State :=
  { s with processTable := Function.update s.processTable i (f (s.processTable i)) }

def State.setPipe (k : ℕ) (f : Pipe → Pipe) : State :=
  { s with pipeTable := Function.update s.pipeTable k (f (s.pipeTable k)) }

def processFindUsed (pid : UInt64) : Option ℕ :=
  (List.range processMax).find? fun i =>
    (s.processTable i).used && (s.processTable i).pid == pid

def inheritProcessCreds (parentPid : UInt64) : Creds :=
  if parentPid ≠ 0 then
    match processFindUsed s parentPid with
    | some i => (s.processTable i).creds
    | none => s.sessionCreds
  else s.sessionCreds

/-- The entry of a process that has that number already, or the first free one. -/
def processSlot (pid : UInt64) : Option ℕ :=
  (if pid ≠ 0 then processFindUsed s pid else none) <|>
    (List.range processMax).find? fun i => !(s.processTable i).used

def processAlloc (parentPid pid : UInt64) : Option ℕ × State :=
  match processSlot s pid with
  | none => (none, s)
  | some i =>
    let creds :=
      if (s.processTable i).used then (s.processTable i).creds
      else inheritProcessCreds s parentPid
    let number := if pid ≠ 0 then pid else s.nextUserPid
    let next := if pid ≠ 0 then s.nextUserPid else s.nextUserPid + 1
    let process : Process := {
      used := true, pid := number, parentPid, state := .running, exitCode := errInval, creds
      fds := fun _ => Fd.clear }
    (some i, { s.setProcess i fun _ => process with
      nextUserPid := if number ≥ next then number + 1 else next })

/-- Nobody registers a task that waits for a process, so none is woken here. -/
def processFinish (index : ℤ) (state : ProcessState) (exitCode : ℤ) : State :=
  if index < 0 ∨ index ≥ processMax ∨ (s.processTable index.toNat).used = false then s
  else s.setProcess index.toNat fun p => { p with state, exitCode }

def processReap (index : ℤ) : State :=
  if index < 0 ∨ index ≥ processMax ∨ (s.processTable index.toNat).used = false then s
  else s.setProcess index.toNat fun p => { p with
    fds := fun j => if j < fdMax then { p.fds j with used := false, kind := .empty } else p.fds j
    state := .reaped
    used := false }

def currentProcess : Option ℕ :=
  if 0 ≤ s.processIndex ∧ s.processIndex < processMax ∧
      (s.processTable s.processIndex.toNat).used = true then
    some s.processIndex.toNat
  else none

def currentFds : ℕ → Fd :=
  match currentProcess s with
  | some i => (s.processTable i).fds
  | none => s.fallbackFds

def setCurrentFd (j : ℕ) (fd : Fd) : State :=
  match currentProcess s with
  | some i => s.setProcess i fun p => { p with fds := Function.update p.fds j fd }
  | none => { s with fallbackFds := Function.update s.fallbackFds j fd }

/-- The number of a descriptor is 3 more than its index. -/
def allocFd (fd : Fd) : Option ℕ × State :=
  match (List.range fdMax).find? fun j => !(currentFds s j).used with
  | some j => (some (j + 3), setCurrentFd s j fd)
  | none => (none, s)

def allocFdFile (data : Source) (size : ℕ) : Option ℕ × State :=
  allocFd s ⟨true, .file, data, size, 0, -1⟩

def allocFdPipe (pipeIndex : ℕ) (kind : FdKind) : Option ℕ × State :=
  allocFd s ⟨true, kind, .null, 0, 0, pipeIndex⟩

/-- The index of an open descriptor. -/
def getFd (fd : ℕ) : Option ℕ :=
  if fd < 3 then none
  else if fd - 3 ≥ fdMax then none
  else if (currentFds s (fd - 3)).used then some (fd - 3) else none

def pipeAlloc : Option ℕ × State :=
  match (List.range pipeMax).find? fun k => !(s.pipeTable k).used with
  | some k => (some k, s.setPipe k fun p => { p with
      used := true
      buffer := { p.buffer with readPos := 0, writePos := 0, size := 0 }
      readRefs := 1
      writeRefs := 1 })
  | none => (none, s)

def pipeOf (pipeIndex : ℤ) : Option ℕ :=
  if pipeIndex < 0 ∨ pipeIndex ≥ pipeMax ∨ (s.pipeTable pipeIndex.toNat).used = false then none
  else some pipeIndex.toNat

def Pipe.dropRef (kind : FdKind) (p : Pipe) : Pipe :=
  let p :=
    if kind = .pipeRead ∧ p.readRefs > 0 then { p with readRefs := p.readRefs - 1 }
    else if kind = .pipeWrite ∧ p.writeRefs > 0 then { p with writeRefs := p.writeRefs - 1 }
    else p
  if p.readRefs = 0 ∧ p.writeRefs = 0 then
    { p with used := false, buffer := { p.buffer with readPos := 0, writePos := 0, size := 0 } }
  else p

def pipeDropRef (pipeIndex : ℤ) (kind : FdKind) : State :=
  match pipeOf s pipeIndex with
  | some k => s.setPipe k (Pipe.dropRef kind)
  | none => s

/-- The staged request, null when it is empty, what the staging buffer holds behind it, and the
length of the response, if there is one. -/
structure Request where
  input : Option (List UInt8)
  beyond : ℕ → UInt8
  outLen : Option ℕ

/-- The bytes written to the response are the first ones of it, and `actual_out_len` is their
number. -/
structure Answer where
  status : ℤ
  out : List UInt8
  deriving DecidableEq

def word64 (l : List UInt8) (offset : ℕ) : ℕ := leNat ((l.drop offset).take 8)

def encode64 (n : ℤ) : List UInt8 := leBytes 8 (n % 2 ^ 64).toNat

/-- The memory behind the fixed part of a request. -/
def Request.payload (r : Request) (l : List UInt8) (i : ℕ) : UInt8 := (l[16 + i]?).getD (r.beyond i)

/-- What `write_text` prints: no more than `n` bytes, up to the first zero. -/
def textOf (bytes : ℕ → UInt8) : ℕ → ℕ → List UInt8
  | 0, _ => []
  | n + 1, i => if bytes i = 0 then [] else bytes i :: textOf bytes n (i + 1)

def invalid : Answer × State := (⟨errInval, []⟩, s)

/-- An answer whose result is in the response. -/
def replyResult (result : ℤ) : Answer := ⟨0, encode64 result⟩

/-- What is written into a pipe, and the result. -/
def writePipe (fd : Fd) (len : ℕ) (bytes : ℕ → UInt8) : ℤ × State :=
  match pipeOf s fd.pipeIndex with
  | none => (errPipe, s)
  | some k =>
    let b := (s.pipeTable k).buffer
    if (s.pipeTable k).readRefs = 0 then (errPipe, s)
    else if b.size = pipeBufferSize then (errAgain, s)
    else
      let count := if len < pipeBufferSize - b.size then len else pipeBufferSize - b.size
      (count, s.setPipe k fun p => { p with
        buffer := { store pipeBufferSize ((List.range count).map bytes) b with
          size := b.size + count } })

def ioWriteServiceCall (r : Request) : Answer × State :=
  match r.input, r.outLen with
  | some l, some outLen =>
    if l.length < 16 ∨ outLen < 8 then invalid s
    else
      let fd := word64 l 0
      let len := word64 l 8
      if (16 + len) % 2 ^ 64 > l.length then invalid s
      else if fd = 1 ∨ fd = 2 then
        (replyResult len, { s with terminal := s.terminal ++ textOf (r.payload l) len 0 })
      else
        match getFd s fd with
        | none => (replyResult errBadfd, s)
        | some j =>
          if (currentFds s j).kind = .pipeWrite then
            let written := writePipe s (currentFds s j) len (r.payload l)
            (replyResult written.1, written.2)
          else (replyResult errBadfd, s)
  | _, _ => invalid s

/-- What is read from a pipe; nothing and a status of 0 at its end. -/
def readPipe (fd : Fd) (len : ℕ) : Answer × State :=
  match pipeOf s fd.pipeIndex with
  | none => (⟨errPipe, []⟩, s)
  | some k =>
    let b := (s.pipeTable k).buffer
    if b.size = 0 then
      if (s.pipeTable k).writeRefs = 0 then (⟨0, []⟩, s) else (⟨errAgain, []⟩, s)
    else
      let count := if len < b.size then len else b.size
      let fetched := fetch pipeBufferSize count b
      (⟨count, fetched.1⟩, s.setPipe k fun p => { p with
        buffer := { fetched.2 with size := b.size - count } })

def State.sourceByte (data : Source) (i : ℕ) : UInt8 :=
  match data with
  | .null => 0
  | .fsRawBuffer => s.fsRawBuffer i

def readFile (j : ℕ) (fd : Fd) (len : ℕ) : Answer × State :=
  let remaining := fd.size - fd.offset
  let count := if len < remaining then len else remaining
  (⟨count, (List.range count).map fun i => s.sourceByte fd.data (fd.offset + i)⟩,
    setCurrentFd s j { fd with offset := fd.offset + count })

/-- `typed` is what comes in from the keyboard, of which there is some when a program waits for
it. -/
def ioReadServiceCall (typed : List UInt8) (r : Request) : Answer × State :=
  match r.input, r.outLen with
  | some l, some outLen =>
    if l.length < 16 ∨ outLen = 0 then invalid s
    else
      let fd := word64 l 0
      let len := word64 l 8
      if outLen < len then invalid s
      else if fd = 0 then (⟨(typed.take len).length, typed.take len⟩, s)
      else
        match getFd s fd with
        | none => (⟨errBadfd, []⟩, s)
        | some j =>
          match (currentFds s j).kind with
          | .pipeRead => readPipe s (currentFds s j) len
          | .file => readFile s j (currentFds s j) len
          | _ => (⟨errBadfd, []⟩, s)
  | _, _ => invalid s

structure Stat where
  uid : UInt32
  gid : UInt32
  mode : UInt32

/-- How the loading of a whole file into `fs_raw_buffer` goes: it is refused before anything is
read, it fails after some bytes, or it succeeds. -/
inductive Loading where
  | refused
  | broken (bytes : List UInt8)
  | loaded (bytes : List UInt8)

def Loading.bytes : Loading → List UInt8
  | .refused => []
  | .broken bytes | .loaded bytes => bytes

/-- What the file system answers about paths. -/
structure Files where
  stat : List UInt8 → Option Stat
  load : List UInt8 → Loading

def State.fill (bytes : List UInt8) : State :=
  { s with fsRawBuffer := fun i => (bytes[i]?).getD (s.fsRawBuffer i) }

def fsReadFileRaw (files : Files) (path : List UInt8) : Option ℕ × State :=
  match files.load path with
  | .loaded bytes => (some bytes.length, s.fill bytes)
  | loading => (none, s.fill loading.bytes)

def accessRead : UInt32 := 4

def userCanAccessUid (uid gid ownerUid ownerGid mode mask : UInt32) : Bool :=
  if uid = 0 then true
  else
    let bits :=
      if uid = ownerUid then (mode >>> 6) &&& 7
      else if gid = ownerGid then (mode >>> 3) &&& 7
      else mode &&& 7
    bits &&& mask == mask

def currentCreds : Creds :=
  match currentProcess s with
  | some i => (s.processTable i).creds
  | none => s.sessionCreds

def ioOpenServiceCall (files : Files) (r : Request) : Answer × State :=
  match r.input, r.outLen with
  | some l, some outLen =>
    if l.length = 0 ∨ l.length > 256 ∨ outLen < 8 then invalid s
    else if l.head? = some 0 ∨ l.getLast? ≠ some 0 then invalid s
    else
      let path := l.takeWhile (· ≠ 0)
      match files.stat path with
      | none => (replyResult errNoent, s)
      | some st =>
        if userCanAccessUid (currentCreds s).effectiveUid (currentCreds s).effectiveGid st.uid st.gid
            st.mode accessRead then
          let raw := fsReadFileRaw s files path
          match raw.1 with
          | none => (replyResult errNoent, raw.2)
          | some size =>
            match allocFdFile raw.2 .fsRawBuffer size with
            | (some fd, s) => (replyResult fd, s)
            | (none, s) => (replyResult errFull, s)
        else (replyResult errAccess, s)
  | _, _ => invalid s

def ioCloseServiceCall (r : Request) : Answer × State :=
  match r.input with
  | some l =>
    if l.length < 8 then invalid s
    else
      match getFd s (word64 l 0) with
      | none => (⟨errBadfd, []⟩, s)
      | some j =>
        let fd := currentFds s j
        let dropped :=
          if fd.kind = .pipeRead ∨ fd.kind = .pipeWrite then pipeDropRef s fd.pipeIndex fd.kind
          else s
        (⟨0, []⟩, setCurrentFd dropped j Fd.clear)
  | none => invalid s

def ioPipeServiceCall (r : Request) : Answer × State :=
  match r.outLen with
  | some outLen =>
    if outLen < 8 then invalid s
    else
      match pipeAlloc s with
      | (none, s) => (⟨errFull, []⟩, s)
      | (some k, s) =>
        let read := allocFdPipe s k .pipeRead
        let write := allocFdPipe read.2 k .pipeWrite
        match read.1, write.1 with
        | some readFd, some writeFd => (⟨0, leBytes 4 readFd ++ leBytes 4 writeFd⟩, write.2)
        | _, _ => (⟨errFull, []⟩, write.2.setPipe k fun p => { p with used := false })
  | none => invalid s

inductive IoCall where
  | write (r : Request)
  | read (typed : List UInt8) (r : Request)
  | open (files : Files) (r : Request)
  | close (r : Request)
  | pipe (r : Request)

def IoCall.run (s : State) : IoCall → Answer × State
  | .write r => ioWriteServiceCall s r
  | .read typed r => ioReadServiceCall s typed r
  | .open files r => ioOpenServiceCall s files r
  | .close r => ioCloseServiceCall s r
  | .pipe r => ioPipeServiceCall s r

/-- What can happen: a process is made, or an entry is taken over by one; it ends, by exit or fault;
it is reaped; the process in an entry makes a service call; and a file is loaded into the buffer of
the file system for some other purpose (to run, copy or read it). -/
inductive Event where
  | create (parentPid pid : UInt64)
  | finish (index : ℕ) (state : ProcessState) (exitCode : ℤ)
  | reap (index : ℕ)
  | call (index : ℕ) (c : IoCall)
  | load (bytes : List UInt8)

def step : Event → Answer × State
  | .create parentPid pid => (⟨0, []⟩, (processAlloc s parentPid pid).2)
  | .finish index state exitCode => (⟨0, []⟩, processFinish s index state exitCode)
  | .reap index => (⟨0, []⟩, processReap s index)
  | .call index c => c.run { s with processIndex := index }
  | .load bytes => (⟨0, []⟩, s.fill bytes)

def bootState : State where
  processTable _ := ⟨false, 0, 0, .empty, 0, ⟨0, 0, 0, 0⟩, fun _ => ⟨false, .empty, .null, 0, 0, 0⟩⟩
  pipeTable _ := ⟨false, ⟨fun _ => 0, 0, 0, 0⟩, 0, 0⟩
  processIndex := -1
  fallbackFds _ := Fd.clear
  nextUserPid := 5000
  sessionCreds := ⟨0, 0, 0, 0⟩
  fsRawBuffer _ := 0
  terminal := []

/-- Only a process that is running calls, and what ends is not running afterwards. -/
def Possible : Event → Prop
  | .call index _ => index < processMax ∧ (s.processTable index).used = true ∧
      (s.processTable index).state = .running
  | .finish _ state _ => state ≠ .running
  | _ => True

instance (e : Event) : Decidable (Possible s e) := by
  cases e <;> unfold Possible <;> infer_instance

end UserMode
