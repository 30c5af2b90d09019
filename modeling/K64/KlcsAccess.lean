import K64.KlcsPaths
import K64.UserDescriptors

/-! # Files of Linux programs

The system calls of `k64_usermode.c` by which a Linux program reads and changes files, over the
functions of `k64_fs.c` as parameters, and the rights that the effective ids of the process have. -/
namespace Klcs

open XfsDirectory FsPaths
open UserMode (userCanAccessUid)

def klcsLinuxFdMax : ℕ := 32
def serviceCallPayloadMax : UInt64 := 65536

def enoent : ℤ := 2
def eio : ℤ := 5
def ebadf : ℤ := 9
def eacces : ℤ := 13
def efault : ℤ := 14
def eexist : ℤ := 17
def eisdir : ℤ := 21
def einval : ℤ := 22
def emfile : ℤ := 24

structure FileStat where
  isDir : Bool
  size : UInt64
  uid : UInt32
  gid : UInt32
  mode : UInt32

/-- The functions of `k64_fs.c` on the state of the volume. `writeFileRaw` writes no data: it makes
an empty file or empties one. -/
structure FileSystem (V : Type) where
  cwd : Str
  stat : V → Str → Option FileStat
  writeFileRaw : V → Str → Bool × V
  readFileRange : V → Str → UInt64 → ℕ → Option Str
  writeFileRange : V → Str → UInt64 → Str → Bool × V
  truncate : V → Str → UInt64 → Bool × V
  chmod : V → Str → UInt32 → Bool × V
  remove : V → Str → Bool × V
  mkdir : V → Str → Bool × V
  rmdir : V → Str → Bool × V
  move : V → Str → Str → Bool × V

/-- What `user_read` and `user_write` find at addresses of the program, and the next byte typed. -/
structure Memory where
  read : UInt64 → ℕ → Option Str
  write : UInt64 → Str → Bool
  typed : UInt8

inductive FdKind where
  | stdin
  | stdout
  | stderr
  | file
  | dir
  | devNull
  | devZero
  deriving DecidableEq

structure Fd where
  kind : FdKind
  path : Str
  offset : UInt64
  flags : UInt64

structure State (V : Type) where
  volume : V
  fds : ℕ → Option Fd

/-- The result, the state afterwards and the bytes of files that got to the memory. -/
structure Outcome (V : Type) where
  result : ℤ
  state : State V
  returned : Str

variable {V : Type} (fs : FileSystem V) (m : Memory) (s : State V)

def refuse (errno : ℤ) : Outcome V := ⟨-errno, s, []⟩

def usedFd (fd : UInt64) : Option Fd :=
  if fd.toNat < klcsLinuxFdMax then s.fds fd.toNat else none

def State.setOffset (fd : UInt64) (desc : Fd) (offset : UInt64) : State V :=
  { s with fds := Function.update s.fds fd.toNat (some { desc with offset }) }

def cstrFrom : ℕ → UInt64 → Option Str
  | 0, _ => none
  | n + 1, p =>
    match m.read p 1 with
    | some [c] => if c = 0 then some [] else (cstrFrom n (p + 1)).map (c :: ·)
    | _ => none

def linuxCopyUserCstr (p : UInt64) (outSize : ℕ) : Option Str :=
  if p = 0 then none else cstrFrom m (outSize - 1) p

def translated (p : UInt64) : Option Str :=
  (linuxCopyUserCstr m p klcsPathMax).bind fun path => klcsTranslatePath path klcsPathMax

/-- A call with a path: `EFAULT` and `EINVAL` come before anything else. -/
def withPath (p : UInt64) (call : Str → Outcome V) : Outcome V :=
  match linuxCopyUserCstr m p klcsPathMax with
  | none => refuse s efault
  | some linuxPath =>
    match klcsTranslatePath linuxPath klcsPathMax with
    | none => refuse s einval
    | some path => call path

/-- A function of `k64_fs.c` that succeeds, or an error. -/
def changed (r : Bool × V) (errno : ℤ) : Outcome V :=
  ⟨if r.1 then 0 else -errno, { s with volume := r.2 }, []⟩

def klcsFdAlloc (kind : FdKind) (path : Str) : Option ℕ × State V :=
  match (List.range klcsLinuxFdMax).find? fun i => 3 ≤ i && (s.fds i).isNone with
  | none => (none, s)
  | some i =>
    (some i, { s with fds := Function.update s.fds i (some ⟨kind, klcsCopy klcsPathMax path, 0, 0⟩) })

def allocated (r : Option ℕ × State V) : Outcome V :=
  match r.1 with
  | none => refuse r.2 emfile
  | some i => ⟨i, r.2, []⟩

def devNullPath : Str := [47, 100, 101, 118, 47, 110, 117, 108, 108]

/-- "/dev/zero", "/dev/random" and "/dev/urandom". -/
def devZeroPaths : List Str :=
  [[47, 100, 101, 118, 47, 122, 101, 114, 111],
    [47, 100, 101, 118, 47, 114, 97, 110, 100, 111, 109],
    [47, 100, 101, 118, 47, 117, 114, 97, 110, 100, 111, 109]]

/-- The file that a path names, made if the flags say so. -/
def findOrMake (path : Str) (flags : UInt64) : Option FileStat × V :=
  match fs.stat s.volume path with
  | some st => (some st, s.volume)
  | none =>
    if flags &&& 64 = 0 then (none, s.volume)
    else
      let made := fs.writeFileRaw s.volume path
      (if made.1 then fs.stat made.2 path else none, made.2)

def openFile (path : Str) (flags : UInt64) : Outcome V :=
  let allocation := klcsFdAlloc s .file path
  match allocation.1 with
  | none => refuse allocation.2 emfile
  | some i =>
    let offset :=
      if flags &&& 1024 = 0 then 0 else ((fs.stat s.volume path).map FileStat.size).getD 0
    let desc : Fd := ⟨.file, klcsCopy klcsPathMax path, offset, flags⟩
    ⟨i, { s with fds := Function.update s.fds i (some desc) }, []⟩

attribute [local instance] lawfulStr

def linuxFdOpenPath (path : Str) (flags : UInt64) : Outcome V :=
  if path = devNullPath then allocated (klcsFdAlloc s .devNull path)
  else if path ∈ devZeroPaths then allocated (klcsFdAlloc s .devZero path)
  else
    let found := findOrMake fs s path flags
    let s := { s with volume := found.2 }
    match found.1 with
    | none => refuse s enoent
    | some st =>
      if st.isDir then
        if flags &&& 3 ≠ 0 ∨ flags &&& 512 ≠ 0 then refuse s eisdir
        else allocated (klcsFdAlloc s .dir path)
      else
        let emptied := if flags &&& 512 = 0 then (true, s.volume) else fs.writeFileRaw s.volume path
        let s := { s with volume := emptied.2 }
        if emptied.1 then openFile fs s path flags else refuse s eacces

/-- How a loop over pieces of a buffer ends. -/
inductive Ending where
  | complete
  | fault
  | failed

structure Progress (V : Type) where
  ending : Ending
  done : ℕ
  volume : V
  returned : Str

/-- The loop of `linux_fd_read` and `linux_fd_pread`, with at most `n` turns. -/
def readChunks (path : Str) (p offset : UInt64) (len : ℕ) : ℕ → ℕ → Progress V
  | 0, done => ⟨.complete, done, s.volume, []⟩
  | n + 1, done =>
    if len ≤ done then ⟨.complete, done, s.volume, []⟩
    else
      let count := min (len - done) 256
      match fs.readFileRange s.volume path (offset + done.toUInt64) count with
      | none => ⟨.failed, done, s.volume, []⟩
      | some bytes =>
        if bytes = [] then ⟨.complete, done, s.volume, []⟩
        else if m.write (p + done.toUInt64) bytes = false then ⟨.fault, done, s.volume, []⟩
        else if bytes.length < count then ⟨.complete, done + bytes.length, s.volume, bytes⟩
        else
          let rest := readChunks path p offset len n (done + bytes.length)
          { rest with returned := bytes ++ rest.returned }

/-- The loop that fills a buffer from `/dev/zero` or `/dev/null`. -/
def zeroChunks (p : UInt64) (len : ℕ) : ℕ → ℕ → Ending
  | 0, _ => .complete
  | n + 1, done =>
    if len ≤ done then .complete
    else
      let count := min (len - done) 256
      if m.write (p + done.toUInt64) (List.replicate count 0) then zeroChunks p len n (done + count)
      else .fault

def Progress.readResult (r : Progress V) : ℤ :=
  match r.ending with
  | .complete => r.done
  | .fault => -efault
  | .failed => if r.done = 0 then -eio else r.done

def readZeros (p len : UInt64) : Outcome V :=
  match zeroChunks m p len.toNat len.toNat 0 with
  | .complete => ⟨len.toNat, s, []⟩
  | _ => refuse s efault

def linuxStdinRead (p len : UInt64) : Outcome V :=
  if len = 0 then ⟨0, s, []⟩
  else if m.write p [m.typed] then ⟨1, s, []⟩
  else refuse s efault

def linuxFdRead (fd p len : UInt64) : Outcome V :=
  if p = 0 ∧ len ≠ 0 then refuse s efault
  else
    match usedFd s fd with
    | none => refuse s ebadf
    | some desc =>
      match desc.kind with
      | .stdin => linuxStdinRead m s p len
      | .devZero | .devNull => readZeros m s p len
      | .file =>
        let r := readChunks fs m s desc.path p desc.offset len.toNat len.toNat 0
        ⟨r.readResult, s.setOffset fd desc (desc.offset + r.done.toUInt64), r.returned⟩
      | _ => refuse s ebadf

def linuxFdPread (fd p len offset : UInt64) : Outcome V :=
  if p = 0 ∧ len ≠ 0 then refuse s efault
  else
    match usedFd s fd with
    | none => refuse s ebadf
    | some desc =>
      match desc.kind with
      | .devZero | .devNull => readZeros m s p len
      | .file =>
        let r := readChunks fs m s desc.path p offset len.toNat len.toNat 0
        ⟨r.readResult, s, r.returned⟩
      | _ => refuse s ebadf

/-- The loop of `linux_write_user_buffer` and `linux_fd_pwrite`, with at most `n` turns. -/
def writeChunks (size : ℕ) (path : Str) (p offset : UInt64) (len : ℕ) : ℕ → ℕ → V → Progress V
  | 0, done, volume => ⟨.complete, done, volume, []⟩
  | n + 1, done, volume =>
    if len ≤ done then ⟨.complete, done, volume, []⟩
    else
      let count := min (len - done) size
      match m.read (p + done.toUInt64) count with
      | none => ⟨.fault, done, volume, []⟩
      | some bytes =>
        let r := fs.writeFileRange volume path (offset + done.toUInt64) bytes
        if r.1 then writeChunks size path p offset len n (done + count) r.2
        else ⟨.failed, done, r.2, []⟩

def terminalChunks (p : UInt64) (len : ℕ) : ℕ → ℕ → Ending
  | 0, _ => .complete
  | n + 1, done =>
    if len ≤ done then .complete
    else
      let count := min (len - done) 128
      if (m.read (p + done.toUInt64) count).isSome then terminalChunks p len n (done + count)
      else .fault

def linuxWriteUserBuffer (fd p len : UInt64) : Outcome V :=
  if len ≠ 0 ∧ p = 0 then refuse s efault
  else
    let len := min len serviceCallPayloadMax
    if fd ≥ 3 then
      match usedFd s fd with
      | none => refuse s ebadf
      | some desc =>
        match desc.kind with
        | .devNull => ⟨len.toNat, s, []⟩
        | .file =>
          let r := writeChunks fs m 128 desc.path p desc.offset len.toNat len.toNat 0 s.volume
          let s := s.setOffset fd desc (desc.offset + r.done.toUInt64)
          ⟨r.readResult, { s with volume := r.volume }, []⟩
        | _ => refuse s ebadf
    else if fd ≠ 1 ∧ fd ≠ 2 then refuse s ebadf
    else
      match terminalChunks m p len.toNat len.toNat 0 with
      | .complete => ⟨len.toNat, s, []⟩
      | _ => refuse s efault

def linuxFdPwrite (fd p len offset : UInt64) : Outcome V :=
  if p = 0 ∧ len ≠ 0 then refuse s efault
  else
    match usedFd s fd with
    | none => refuse s ebadf
    | some desc =>
      match desc.kind with
      | .devNull => ⟨len.toInt64.toInt, s, []⟩
      | .file =>
        let len := min len serviceCallPayloadMax
        let r := writeChunks fs m 256 desc.path p offset len.toNat len.toNat 0 s.volume
        ⟨r.readResult, { s with volume := r.volume }, []⟩
      | _ => refuse s ebadf

def readNumber (p : UInt64) : Option UInt64 :=
  (m.read p 8).map fun bytes => bytes.foldr (fun b n => n * 256 + b.toUInt64) 0

/-- The loop of `linux_writev` over the buffers from `i` on, of which there are `n`. -/
def writevFrom (fd iov : UInt64) : ℕ → UInt64 → ℤ → State V → Outcome V
  | 0, _, total, s => ⟨total, s, []⟩
  | n + 1, i, total, s =>
    match readNumber m (iov + i * 16), readNumber m (iov + i * 16 + 8) with
    | some base, some len =>
      let r := linuxWriteUserBuffer fs m s fd base len
      if r.result < 0 then ⟨if total = 0 then r.result else total, r.state, []⟩
      else if r.result ≠ len.toNat then ⟨total + r.result, r.state, []⟩
      else writevFrom fd iov n (i + 1) (total + r.result) r.state
    | _, _ => refuse s efault

def linuxWritev (fd iov count : UInt64) : Outcome V :=
  if iov = 0 ∨ count > 64 then refuse s einval else writevFrom fs m fd iov count.toNat 0 0 s

def onFile (fd : UInt64) (call : Str → Outcome V) : Outcome V :=
  match usedFd s fd with
  | none => refuse s ebadf
  | some desc => if desc.kind = .file then call desc.path else refuse s ebadf

def linuxFtruncate (fd size : UInt64) : Outcome V :=
  onFile s fd fun path => changed s (fs.truncate s.volume path size) eio

def linuxFchmod (fd : UInt64) (mode : UInt32) : Outcome V :=
  onFile s fd fun path => changed s (fs.chmod s.volume path mode) eacces

def linuxChmod (p : UInt64) (mode : UInt32) : Outcome V :=
  withPath m s p fun path => changed s (fs.chmod s.volume path mode) eacces

def linuxUnlink (p : UInt64) : Outcome V :=
  withPath m s p fun path => changed s (fs.remove s.volume path) enoent

def linuxRmdir (p : UInt64) : Outcome V :=
  withPath m s p fun path => changed s (fs.rmdir s.volume path) enoent

def linuxMkdir (p : UInt64) : Outcome V :=
  withPath m s p fun path =>
    if (fs.stat s.volume path).isSome then refuse s eexist
    else changed s (fs.mkdir s.volume path) eacces

def linuxSysOpen (p flags : UInt64) : Outcome V :=
  withPath m s p fun path => linuxFdOpenPath fs s path flags

/-- Both paths are copied before one is translated. -/
def linuxRename (oldPtr newPtr : UInt64) : Outcome V :=
  match linuxCopyUserCstr m oldPtr klcsPathMax, linuxCopyUserCstr m newPtr klcsPathMax with
  | some old, some new =>
    match klcsTranslatePath old klcsPathMax, klcsTranslatePath new klcsPathMax with
    | some old, some new => changed s (fs.move s.volume old new) enoent
    | _, _ => refuse s einval
  | _, _ => refuse s efault

/-- The calls; `openat`, `mkdirat`, `unlinkat` and `renameat2` ignore the directories they are
given. -/
inductive Call where
  | read (fd p len : UInt64)
  | write (fd p len : UInt64)
  | writev (fd iov count : UInt64)
  | open (p flags : UInt64)
  | pread (fd p len offset : UInt64)
  | pwrite (fd p len offset : UInt64)
  | ftruncate (fd size : UInt64)
  | rename (oldPtr newPtr : UInt64)
  | mkdir (p : UInt64)
  | rmdir (p : UInt64)
  | unlink (p : UInt64)
  | unlinkat (p flags : UInt64)
  | chmod (p : UInt64) (mode : UInt32)
  | fchmod (fd : UInt64) (mode : UInt32)

def Call.run : Call → Outcome V
  | .read fd p len => linuxFdRead fs m s fd p len
  | .write fd p len => linuxWriteUserBuffer fs m s fd p len
  | .writev fd iov count => linuxWritev fs m s fd iov count
  | .open p flags => linuxSysOpen fs m s p flags
  | .pread fd p len offset => linuxFdPread fs m s fd p len offset
  | .pwrite fd p len offset => linuxFdPwrite fs m s fd p len offset
  | .ftruncate fd size => linuxFtruncate fs s fd size
  | .rename oldPtr newPtr => linuxRename fs m s oldPtr newPtr
  | .mkdir p => linuxMkdir fs m s p
  | .rmdir p => linuxRmdir fs m s p
  | .unlink p => linuxUnlink fs m s p
  | .unlinkat p flags => if flags &&& 512 ≠ 0 then linuxRmdir fs m s p else linuxUnlink fs m s p
  | .chmod p mode => linuxChmod fs m s p mode
  | .fchmod fd mode => linuxFchmod fs s fd mode

inductive Access where
  | modify (path : Str)
  | create (path : Str)
  | remove (path : Str)
  | rename (old new : Str)
  | chmod (path : Str)
  deriving DecidableEq

def accessRead : UInt32 := 4
def accessWrite : UInt32 := 2
def accessExec : UInt32 := 1

variable (uid gid : UInt32)

def statGrants (st : Option FileStat) (mask : UInt32) : Bool :=
  uid == 0 || st.any fun st => userCanAccessUid uid gid st.uid st.gid st.mode mask

def parentOf (path : Str) : Str :=
  let parent := ((path.reverse.dropWhile fun c => c != slash).drop 1).reverse
  if parent = [] then [slash] else parent

/-- The directory that a path is in once it is normalized. -/
def parentStat (volume : V) (path : Str) : Option FileStat :=
  (fsNormalize fs.cwd path 256).bind fun full => fs.stat volume (parentOf full)

def parentGrants (volume : V) (path : Str) : Bool :=
  statGrants uid gid (parentStat fs volume path) (accessWrite ||| accessExec)

def readGranted (volume : V) (path : Str) : Bool :=
  statGrants uid gid (fs.stat volume path) accessRead

def Access.granted (volume : V) : Access → Bool
  | .modify path => statGrants uid gid (fs.stat volume path) accessWrite
  | .create path | .remove path => parentGrants fs uid gid volume path
  | .rename old new => parentGrants fs uid gid volume old && parentGrants fs uid gid volume new
  | .chmod path => uid == 0 || (fs.stat volume path).any fun st => st.uid == uid

def fileOf (fd : UInt64) : Option Str :=
  (usedFd s fd).bind fun desc => if desc.kind = .file then some desc.path else none

/-- The file that a call is made to read, whatever the length and the buffer are. -/
def Call.reads : Call → Option Str
  | .read fd _ _ | .pread fd _ _ _ => fileOf s fd
  | _ => none

def openChanges (path : Str) (flags : UInt64) : Option Access :=
  if path = devNullPath ∨ path ∈ devZeroPaths then none
  else
    match fs.stat s.volume path with
    | none => if flags &&& 64 = 0 then none else some (.create path)
    | some st => if st.isDir ∨ flags &&& 512 = 0 then none else some (.modify path)

def Call.changes : Call → Option Access
  | .read .. | .pread .. => none
  | .write fd _ _ | .writev fd _ _ | .pwrite fd _ _ _ | .ftruncate fd _ =>
    (fileOf s fd).map .modify
  | .open p flags => (translated m p).bind fun path => openChanges fs s path flags
  | .rename oldPtr newPtr =>
    (translated m oldPtr).bind fun old => (translated m newPtr).map (.rename old)
  | .mkdir p => (translated m p).bind fun path =>
    if (fs.stat s.volume path).isSome then none else some (.create path)
  | .rmdir p | .unlink p | .unlinkat p _ => (translated m p).map .remove
  | .chmod p _ => (translated m p).map .chmod
  | .fchmod fd _ => (fileOf s fd).map .chmod

structure Permitted (call : Call) : Prop where
  change : ∀ a, call.changes fs m s = some a → a.granted fs uid gid s.volume = true
  read : ∀ path, call.reads s = some path → readGranted fs uid gid s.volume path = true

/-- The volume is changed and bytes of files are returned only with the rights for it. -/
structure Honoured (call : Call) : Prop where
  changed : (call.run fs m s).state.volume ≠ s.volume →
    ∃ a, call.changes fs m s = some a ∧ a.granted fs uid gid s.volume = true
  returned : (call.run fs m s).returned ≠ [] →
    ∃ path, call.reads s = some path ∧ readGranted fs uid gid s.volume path = true

/-- A property of each call of a sequence, in the state in which it is made. -/
inductive Along (property : Memory → State V → Call → Prop) :
    State V → List (Memory × Call) → Prop
  | nil (s : State V) : Along property s []
  | cons {m : Memory} {s : State V} {call : Call} {rest : List (Memory × Call)} :
      property m s call → Along property (call.run fs m s).state rest →
      Along property s ((m, call) :: rest)

variable {fs m s uid gid}

variable {fd : UInt64}

theorem fileOf_some {desc : Fd} (hd : usedFd s fd = some desc) (hk : desc.kind = .file) :
    fileOf s fd = some desc.path := by
  rw [fileOf, hd, Option.bind_some, if_pos hk]

variable {call : Str → Outcome V}

theorem onFile_unchanged (h : fileOf s fd = none) :
    (onFile s fd call).state = s := by
  unfold onFile
  split
  · rfl
  next desc hd =>
    split
    next hk =>
      rw [fileOf_some hd hk] at h
      cases h
    · rfl

variable {p : UInt64}

theorem withPath_unchanged
    (h : ∀ path, translated m p = some path → (call path).state.volume = s.volume) :
    (withPath m s p call).state.volume = s.volume := by
  unfold withPath
  split
  · rfl
  next linuxPath hcopy =>
    split
    · rfl
    next path hpath => exact h path (by rw [translated, hcopy, Option.bind_some, hpath])

theorem withPath_returned
    (h : ∀ path, (call path).returned = []) : (withPath m s p call).returned = [] := by
  unfold withPath
  repeat' split
  · rfl
  · rfl
  · exact h _

variable {len : UInt64}

theorem write_unchanged (h : fileOf s fd = none) :
    (linuxWriteUserBuffer fs m s fd p len).state = s := by
  unfold linuxWriteUserBuffer
  split
  · rfl
  · simp only
    split
    · split
      · rfl
      next desc hd =>
        split
        · rfl
        next hk =>
          rw [fileOf_some hd hk] at h
          cases h
        · rfl
    · split
      · rfl
      · split <;> rfl

theorem writev_unchanged {iov : UInt64} (n : ℕ) (i : UInt64) (total : ℤ)
    (h : fileOf s fd = none) : (writevFrom fs m fd iov n i total s).state = s := by
  induction n generalizing i total with
  | zero => rfl
  | succ n ih =>
    unfold writevFrom
    split
    next base len _ _ =>
      have hw : (linuxWriteUserBuffer fs m s fd base len).state = s := write_unchanged h
      simp only [hw]
      split
      · rfl
      · split
        · rfl
        · exact ih _ _
    · rfl

variable {offset : UInt64}

theorem pwrite_unchanged (h : fileOf s fd = none) :
    (linuxFdPwrite fs m s fd p len offset).state = s := by
  unfold linuxFdPwrite
  split
  · rfl
  · split
    · rfl
    next desc hd =>
      split
      · rfl
      next hk =>
        rw [fileOf_some hd hk] at h
        cases h
      · rfl

theorem readZeros_state :
    (readZeros m s p len).state = s ∧ (readZeros m s p len).returned = [] := by
  unfold readZeros
  split <;> exact ⟨rfl, rfl⟩

theorem linuxStdinRead_state :
    (linuxStdinRead m s p len).state = s ∧ (linuxStdinRead m s p len).returned = [] := by
  unfold linuxStdinRead
  repeat' split
  all_goals exact ⟨rfl, rfl⟩

theorem read_unchanged :
    (linuxFdRead fs m s fd p len).state.volume = s.volume := by
  unfold linuxFdRead
  split
  · rfl
  · split
    · rfl
    · split
      · exact congrArg State.volume linuxStdinRead_state.1
      · exact congrArg State.volume readZeros_state.1
      · exact congrArg State.volume readZeros_state.1
      · rfl
      · rfl

theorem read_returned (h : fileOf s fd = none) :
    (linuxFdRead fs m s fd p len).returned = [] := by
  unfold linuxFdRead
  split
  · rfl
  · split
    · rfl
    next desc hd =>
      split
      · exact linuxStdinRead_state.2
      · exact readZeros_state.2
      · exact readZeros_state.2
      next hk =>
        rw [fileOf_some hd hk] at h
        cases h
      · rfl

theorem pread_unchanged :
    (linuxFdPread fs m s fd p len offset).state.volume = s.volume := by
  unfold linuxFdPread
  split
  · rfl
  · split
    · rfl
    · split
      · exact congrArg State.volume readZeros_state.1
      · exact congrArg State.volume readZeros_state.1
      · rfl
      · rfl

theorem pread_returned (h : fileOf s fd = none) :
    (linuxFdPread fs m s fd p len offset).returned = [] := by
  unfold linuxFdPread
  split
  · rfl
  · split
    · rfl
    next desc hd =>
      split
      · exact readZeros_state.2
      · exact readZeros_state.2
      next hk =>
        rw [fileOf_some hd hk] at h
        cases h
      · rfl

theorem allocated_volume (kind : FdKind) (path : Str) :
    (allocated (klcsFdAlloc s kind path)).state.volume = s.volume := by
  unfold klcsFdAlloc
  split <;> rfl

theorem openFile_volume (path : Str) (flags : UInt64) :
    (openFile fs s path flags).state.volume = s.volume := by
  unfold openFile klcsFdAlloc
  cases (List.range klcsLinuxFdMax).find? fun i => 3 ≤ i && (s.fds i).isNone <;> rfl

theorem open_returned (path : Str) (flags : UInt64) :
    (linuxFdOpenPath fs s path flags).returned = [] := by
  have halloc : ∀ (s : State V) kind, (allocated (klcsFdAlloc s kind path)).returned = [] := by
    intro s kind
    unfold allocated
    split <;> rfl
  have hopen : ∀ s : State V, (openFile fs s path flags).returned = [] := by
    intro s
    simp only [openFile]
    split <;> rfl
  unfold linuxFdOpenPath
  split
  · exact halloc s .devNull
  · split
    · exact halloc s .devZero
    · simp only
      split
      · rfl
      · split
        · split
          · rfl
          · exact halloc _ .dir
        · split
          · exact hopen _
          · split
            · exact hopen _
            · rfl

theorem open_unchanged {path : Str} {flags : UInt64} (h : openChanges fs s path flags = none) :
    (linuxFdOpenPath fs s path flags).state.volume = s.volume := by
  unfold linuxFdOpenPath
  by_cases hnull : path = devNullPath
  · rw [if_pos hnull]
    exact allocated_volume .devNull path
  by_cases hzero : path ∈ devZeroPaths
  · rw [if_neg hnull, if_pos hzero]
    exact allocated_volume .devZero path
  rw [openChanges, if_neg (not_or.mpr ⟨hnull, hzero⟩)] at h
  rw [if_neg hnull, if_neg hzero, findOrMake]
  cases hst : fs.stat s.volume path with
  | none =>
    rw [hst] at h
    by_cases hmake : flags &&& 64 = 0
    · simp only [if_pos hmake]
      rfl
    · simp only [if_neg hmake] at h
      cases h
  | some st =>
    rw [hst] at h
    simp only
    by_cases hdir : st.isDir = true
    · rw [if_pos hdir]
      split
      · rfl
      · exact allocated_volume .dir path
    by_cases hempty : flags &&& 512 = 0
    · rw [if_neg hdir, if_pos hempty]
      exact openFile_volume path flags
    · simp only [if_neg (not_or.mpr ⟨hdir, hempty⟩)] at h
      cases h

theorem unchanged {call : Call} (h : call.changes fs m s = none) :
    (call.run fs m s).state.volume = s.volume := by
  have hpath : ∀ {p : UInt64} {f : Str → Access} {path : Str}, (translated m p).map f = none →
      translated m p ≠ some path := by
    intro p f path hnone hsome
    rw [hsome] at hnone
    cases hnone
  cases call with
  | read fd p len => exact read_unchanged
  | pread fd p len offset => exact pread_unchanged
  | write fd p len => exact congrArg State.volume (write_unchanged (Option.map_eq_none_iff.mp h))
  | writev fd iov count =>
    change (linuxWritev fs m s fd iov count).state.volume = s.volume
    unfold linuxWritev
    split
    · rfl
    · exact congrArg State.volume (writev_unchanged _ _ _ (Option.map_eq_none_iff.mp h))
  | pwrite fd p len offset =>
    exact congrArg State.volume (pwrite_unchanged (Option.map_eq_none_iff.mp h))
  | ftruncate fd size =>
    exact congrArg State.volume (onFile_unchanged (Option.map_eq_none_iff.mp h))
  | fchmod fd mode =>
    exact congrArg State.volume (onFile_unchanged (Option.map_eq_none_iff.mp h))
  | «open» p flags =>
    refine withPath_unchanged fun path hp => open_unchanged ?_
    simpa only [Call.changes, hp, Option.bind_some] using h
  | rename oldPtr newPtr =>
    change (linuxRename fs m s oldPtr newPtr).state.volume = s.volume
    unfold linuxRename
    split
    next old new hold hnew =>
      split
      next old' new' hold' hnew' =>
        have h₁ : translated m oldPtr = some old' := by rw [translated, hold, Option.bind_some, hold']
        have h₂ : translated m newPtr = some new' := by rw [translated, hnew, Option.bind_some, hnew']
        simp only [Call.changes, h₁, h₂, Option.bind_some, Option.map_some] at h
        cases h
      · rfl
    · rfl
  | mkdir p =>
    refine withPath_unchanged fun path hp => ?_
    simp only [Call.changes, hp, Option.bind_some] at h
    split
    · rfl
    next hnew =>
      rw [if_neg hnew] at h
      cases h
  | rmdir p => exact withPath_unchanged fun path hp => absurd hp (hpath h)
  | unlink p => exact withPath_unchanged fun path hp => absurd hp (hpath h)
  | unlinkat p flags =>
    simp only [Call.run]
    split
    · exact withPath_unchanged fun path hp => absurd hp (hpath h)
    · exact withPath_unchanged fun path hp => absurd hp (hpath h)
  | chmod p mode => exact withPath_unchanged fun path hp => absurd hp (hpath h)

theorem writev_returned {iov : UInt64} (n : ℕ) (i : UInt64) (total : ℤ) :
    (writevFrom fs m fd iov n i total s).returned = [] := by
  induction n generalizing i total s with
  | zero => rfl
  | succ n ih =>
    unfold writevFrom
    split
    · simp only
      split
      · rfl
      · split
        · rfl
        · exact ih _ _
    · rfl

theorem onFile_returned
    (h : ∀ path, (call path).returned = []) : (onFile s fd call).returned = [] := by
  unfold onFile
  repeat' split
  · rfl
  · exact h _
  · rfl

theorem write_returned :
    (linuxWriteUserBuffer fs m s fd p len).returned = [] := by
  unfold linuxWriteUserBuffer
  simp only
  repeat' split
  all_goals rfl

theorem pwrite_returned :
    (linuxFdPwrite fs m s fd p len offset).returned = [] := by
  unfold linuxFdPwrite
  repeat' split
  all_goals rfl

theorem unreturned {call : Call} (h : call.reads s = none) : (call.run fs m s).returned = [] := by
  cases call with
  | read fd p len => exact read_returned h
  | pread fd p len offset => exact pread_returned h
  | write fd p len => exact write_returned
  | writev fd iov count =>
    change (linuxWritev fs m s fd iov count).returned = []
    unfold linuxWritev
    split
    · rfl
    · exact writev_returned _ _ _
  | pwrite fd p len offset => exact pwrite_returned
  | ftruncate fd size => exact onFile_returned fun _ => rfl
  | fchmod fd mode => exact onFile_returned fun _ => rfl
  | «open» p flags => exact withPath_returned fun path => open_returned path flags
  | rename oldPtr newPtr =>
    change (linuxRename fs m s oldPtr newPtr).returned = []
    unfold linuxRename
    repeat' split
    all_goals rfl
  | mkdir p =>
    refine withPath_returned fun path => ?_
    split <;> rfl
  | rmdir p | unlink p | chmod p mode => exact withPath_returned fun _ => rfl
  | unlinkat p flags =>
    simp only [Call.run]
    split
    · exact withPath_returned fun _ => rfl
    · exact withPath_returned fun _ => rfl

theorem permitted_honoured {call : Call} (h : Permitted fs m s uid gid call) :
    Honoured fs m s uid gid call := by
  constructor
  · intro hchanged
    cases ha : call.changes fs m s with
    | none => exact absurd (unchanged ha) hchanged
    | some a => exact ⟨a, rfl, h.change a ha⟩
  · intro hreturned
    cases hp : call.reads s with
    | none => exact absurd (unreturned hp) hreturned
    | some path => exact ⟨path, rfl, h.read path hp⟩

theorem permissions_honoured {steps : List (Memory × Call)}
    (h : Along fs (fun m s call => Permitted fs m s uid gid call) s steps) :
    Along fs (fun m s call => Honoured fs m s uid gid call) s steps := by
  induction h with
  | nil s => exact .nil s
  | cons hcall _ ih => exact .cons (permitted_honoured hcall) ih

/-- "/home/f". -/
def filePath : Str := homeTop ++ [47, 102]

/-- A volume with one file, which belongs to root. The state is what is in it. -/
def oneFile (mode : UInt32) : FileSystem Str where
  cwd := [slash]
  stat v path := if path = filePath then some ⟨false, v.length.toUInt64, 0, 0, mode⟩ else none
  writeFileRaw v path := if path = filePath then (true, []) else (false, v)
  readFileRange v path offset n :=
    if path = filePath then some ((v.drop offset.toNat).take n) else none
  writeFileRange v path offset bytes :=
    if path = filePath then
      (true, v.take offset.toNat ++ bytes ++ v.drop (offset.toNat + bytes.length))
    else (false, v)
  truncate v path size := if path = filePath then (true, v.take size.toNat) else (false, v)
  chmod v _ _ := (false, v)
  remove v _ := (false, v)
  mkdir v _ := (false, v)
  rmdir v _ := (false, v)
  move v _ _ := (false, v)

def pathMemory : Memory where
  read p n := some (((filePath ++ [0]).drop (p.toNat - 1)).take n)
  write _ _ := true
  typed := 0

def startState (v : Str) : State Str where
  volume := v
  fds i := [⟨.stdin, [], 0, 0⟩, ⟨.stdout, [], 0, 0⟩, ⟨.stderr, [], 0, 0⟩][i]?

/-- `open` without flags and a `read` of one byte. -/
def openAndRead : List (Memory × Call) := [(pathMemory, .open 1 0), (pathMemory, .read 3 8 1)]

theorem readable_file_read :
    Along (oneFile 0o644) (fun m s call => Honoured (oneFile 0o644) m s 1001 1001 call)
      (startState [120]) openAndRead := by
  have hopen : (Call.open 1 0).changes (oneFile 0o644) pathMemory (startState [120]) = none := by
    decide +kernel
  refine permissions_honoured (.cons ⟨?_, ?_⟩ (.cons ⟨?_, ?_⟩ (.nil _)))
  · intro a ha
    rw [hopen] at ha
    cases ha
  · intro path hp
    cases hp
  · intro a ha
    cases ha
  · intro path hp
    have hfile : (Call.read 3 8 1).reads ((Call.open 1 0).run (oneFile 0o644) pathMemory
        (startState [120])).state = some filePath := by decide +kernel
    rw [hfile] at hp
    cases hp
    decide +kernel

/-- A user reads a file that only root may read. -/
theorem private_file_read : ¬ ∀ (V : Type) (fs : FileSystem V) (s : State V) (uid gid : UInt32)
    (steps : List (Memory × Call)),
    Along fs (fun m s call => Honoured fs m s uid gid call) s steps := by
  intro h
  cases h Str (oneFile 0o600) (startState [120]) 1001 1001 openAndRead with
  | cons _ hrest =>
    cases hrest with
    | cons hread _ =>
      obtain ⟨path, hp, hgranted⟩ := hread.returned (by decide +kernel)
      have hfile : (Call.read 3 8 1).reads ((Call.open 1 0).run (oneFile 0o600) pathMemory
          (startState [120])).state = some filePath := by decide +kernel
      rw [hfile] at hp
      cases hp
      revert hgranted
      decide +kernel

end Klcs
