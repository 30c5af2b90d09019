import K64.FsPaths
import K64.ServiceMessages
import K64.XfsOperations

/-! # Staged requests and responses

The handlers of service calls in `k64_usermode.c` and `k64_system.c`, as programs that read a
staged request and write a staged response. They say where the response is written, not what. -/
namespace StagedCalls

open UserMode Services IoProgram ByteCodec FsPaths XfsFormat XfsDirectory XfsOperations

def serviceCallPayloadMax : ℕ := 65536
def fbblitCellsMax : ℕ := 4096
def accessWrite : UInt32 := 2
def accessExec : UInt32 := 1

/-- The memory from the first byte of the request on. A buffer is null when its length is 0. -/
structure Staged where
  memory : List UInt8
  inLen : ℕ
  outLen : ℕ
  callerPid : UInt64
  staged : inLen ≤ memory.length
  inLen_le : inLen ≤ serviceCallPayloadMax
  outLen_le : outLen ≤ serviceCallPayloadMax

/-- A `string` is read up to its zero, a `bounded` one no further than `limit` bytes. -/
inductive Access where
  | read (offset length : ℕ)
  | string (offset : ℕ)
  | bounded (offset limit : ℕ)
  | write (offset length : ℕ)

abbrev Access.Answer : Access → Type
  | .write _ _ => Unit
  | _ => List UInt8

variable (r : Staged)

def Staged.text (offset : ℕ) : List UInt8 := (r.memory.drop offset).takeWhile (· ≠ 0)

def Staged.Reads (i : ℕ) : Access → Prop
  | .read offset length => offset ≤ i ∧ i < offset + length
  | .string offset => offset ≤ i ∧ i ≤ offset + (r.text offset).length
  | .bounded offset limit =>
    offset ≤ i ∧ i ≤ offset + (r.text offset).length ∧ i < offset + limit
  | .write _ _ => False

/-- Writes the byte at that offset from the response on. -/
def Writes (i : ℕ) : Access → Prop
  | .write offset length => offset ≤ i ∧ i < offset + length
  | _ => False

def Staged.Inside (a : Access) : Prop :=
  (∀ i, r.Reads i a → i < r.inLen) ∧ ∀ i, Writes i a → i < r.outLen

def staging : Handler Access Access.Answer Unit
  | .read offset length, s => ((r.memory.drop offset).take length, s)
  | .string offset, s => (r.text offset, s)
  | .bounded offset limit, s => ((r.text offset).take limit, s)
  | .write _ _, s => ((), s)

structure Outcome where
  status : ℤ
  actualOutLen : ℕ

abbrev Handling := Proc Access Access.Answer Outcome

def read (offset length : ℕ) : Handling (List UInt8) := Proc.request (Access.read offset length)

def string (offset : ℕ) : Handling (List UInt8) := Proc.request (Access.string offset)

def bounded (offset limit : ℕ) : Handling (List UInt8) := Proc.request (Access.bounded offset limit)

def write (offset length : ℕ) : Handling Unit := Proc.request (Access.write offset length)

/-- `return status` ahead of the end. -/
def refuse (status : ℤ) : Handling Unit := do
  Proc.update fun o => { o with status }
  Proc.fail

def require (c : Prop) [Decidable c] (status : ℤ) : Handling Unit :=
  if c then pure () else refuse status

/-- Sets `actual_out_len` and returns. -/
def answer (status : ℤ) (actualOutLen : ℕ) : Handling Unit :=
  Proc.update fun _ => ⟨status, actualOutLen⟩

def readByte (offset : ℕ) : Handling UInt8 := do
  let l ← read offset 1
  pure (l.headD 0)

def readWord32 (offset : ℕ) : Handling ℕ := do
  let l ← read offset 4
  pure (leNat l)

def readWord64 (offset : ℕ) : Handling ℕ := do
  let l ← read offset 8
  pure (leNat l)

/-- A directory of the volume, or one of `/proc` and `/dev`. -/
inductive Listing where
  | entries (l : List Dirent)
  | pseudo (text : List UInt8)

def Listing.text (outSize : ℕ) : Listing → List UInt8
  | entries l => l.foldl (listEntry outSize) []
  | pseudo text => fsCopy outSize text

/-- The rest of the kernel: the programs, what `run_reserved_child` returns and the programs after
it, the messages, and what the file system does with full paths. -/
structure Kernel where
  machine : UserMode.Machine
  child : ℤ × UserMode.State
  typed : List UInt8
  screenEnabled : Bool
  services : Services.State
  registry : Registry
  host : Host
  cwd : List UInt8
  stat : List UInt8 → Option Stat
  listing : List UInt8 → Option Listing
  writeFile : List UInt8 → List UInt8 → Bool
  rename : List UInt8 → List UInt8 → Bool

variable (k : Kernel)

/-- What `fs_normalize` puts before a relative path. -/
def relativeBase : List UInt8 :=
  if fsCopy 256 k.cwd = [slash] then [slash] else fsAppend 256 (fsCopy 256 k.cwd) [slash]

/-- `fs_normalize` of a path in the request. -/
def normalize (offset : ℕ) : Handling (Option (List UInt8)) := do
  let first ← readByte offset
  if first = 0 then pure (fsNormalize k.cwd [] 256)
  else if first = slash then do
    let path ← bounded offset 256
    pure (fsNormalize k.cwd path 256)
  else do
    let path ← bounded offset (256 - (relativeBase k).length)
    pure (fsNormalize k.cwd path 256)

def fsStat (offset : ℕ) : Handling (Option Stat) := do
  let full ← normalize k offset
  pure (full.bind k.stat)

def fsMove (src dst : ℕ) : Handling Bool := do
  let full ← normalize k src
  match full with
  | none => pure false
  | some full => do
    let target ← normalize k dst
    pure (target.any (k.rename full))

/-- The data is not read when the path is refused. -/
def fsWriteFileRaw (path data length : ℕ) : Handling Bool := do
  let full ← normalize k path
  match full with
  | none => pure false
  | some full => do
    let bytes ← read data length
    pure (k.writeFile full bytes)

/-- `k64_fs_ls` into the response, and the text there. An empty one becomes ".\n". -/
def fsLs (offset : ℕ) : Handling (Option (List UInt8)) := do
  let full ← normalize k offset
  match full.bind k.listing with
  | none => pure none
  | some l => do
    let text := l.text r.outLen
    write 0 (text.length + 1)
    if text.headD 0 = 0 then do
      write 0 ((fsCopy r.outLen [dot, 10]).length + 1)
      pure (some (fsCopy r.outLen [dot, 10]))
    else pure (some text)

def canAccess (st : Stat) (mask : UInt32) : Bool :=
  userCanAccessUid (currentCreds k.machine.user).effectiveUid
    (currentCreds k.machine.user).effectiveGid st.uid st.gid st.mode mask

def fsCallCanAccessPath (offset : ℕ) (mask : UInt32) : Handling Bool := do
  let first ← readByte offset
  if first = 0 then pure false
  else do
    let st ← fsStat k offset
    pure (st.any fun st => canAccess k st mask)

/-- Slashes at the end go, down to one character, then the last component, then its slash. -/
def parentPath (path : List UInt8) : List UInt8 :=
  let stripped := path.rdropWhile (· == slash)
  let stripped := if stripped = [] then path.take 1 else stripped
  let parent := stripped.rdropWhile (· != slash)
  if parent.length = 0 then [dot] else if parent.length = 1 then parent else parent.dropLast

def fsCallCanCreatePath (offset : ℕ) : Handling Bool := do
  let first ← readByte offset
  if first = 0 then pure false
  else do
    let path ← bounded offset 256
    let st := (fsNormalize k.cwd (parentPath (fsCopy 256 path)) 256).bind k.stat
    pure (st.any fun st => canAccess k st (accessWrite ||| accessExec))

/-- A file that is there is written, another one created. -/
def mayWritePath (offset : ℕ) : Handling Bool := do
  let st ← fsStat k offset
  if st.isSome then fsCallCanAccessPath k offset accessWrite
  else fsCallCanCreatePath k offset

/-- `queue_spawn` of the two strings of a request. -/
def queueStaged : Handling ℤ :=
  if ∀ i < spawnMax, (k.machine.spawnCtx i).used = true then pure errFull
  else do
    let path ← bounded 0 256
    let args ← bounded 256 256
    let pid := (queueSpawn k.machine path args).1
    if pid < 0 then pure pid
    else do
      let _ ← bounded 0 userProcessPathMax
      pure pid

def procSpawnServiceCall : Handling Unit := do
  require (512 ≤ r.inLen ∧ 8 ≤ r.outLen) errInval
  let first ← readByte 0
  require (first ≠ 0) errInval
  let st ← fsStat k 0
  match st with
  | none => refuse errNoent
  | some st => do
    require (canAccess k st (accessExec ||| accessRead) = true) errAccess
    let pid ← queueStaged k
    require (0 ≤ pid) pid
    write 0 8
    answer 0 8

def procWaitServiceCall : Handling Unit := do
  require (16 ≤ r.inLen ∧ 8 ≤ r.outLen) errInval
  let flags ← readWord64 8
  require (flags = waitBlock.toNat ∨ flags = waitNohang.toNat) errInval
  let pid ← readWord64 0
  match processFindPid k.machine.user (UInt64.ofNat pid) with
  | none => refuse errNoent
  | some i => do
    let p := k.machine.user.processTable i
    require (p.parentPid = r.callerPid) errNotchild
    if p.state = .running then do
      require (flags ≠ waitNohang.toNat) errAgain
      require (k.child.1 = 0) k.child.1
      let pid ← readWord64 0
      match processFindPid k.child.2 (UInt64.ofNat pid) with
      | none => refuse errNoent
      | some j => do
        require ((k.child.2.processTable j).state ≠ .running) errAgain
        write 0 8
        answer 0 8
    else do
      write 0 8
      answer 0 8

def procInfoSize : ℕ := 176

def procInfoServiceCall : Handling Unit := do
  require (8 ≤ r.inLen ∧ procInfoSize ≤ r.outLen) errInval
  let pid ← readWord64 0
  match processFindPid k.machine.user (UInt64.ofNat pid) with
  | none => refuse errNoent
  | some i => do
    let p := k.machine.user.processTable i
    require (r.callerPid = 0 ∨ p.pid = r.callerPid ∨ p.parentPid = r.callerPid) errAccess
    write 0 procInfoSize
    answer 0 procInfoSize

/-- How many bytes are taken from the request into a pipe. -/
def pipeCount (s : UserMode.State) (fd : Fd) (len : ℕ) : ℕ :=
  match pipeOf s fd.pipeIndex with
  | none => 0
  | some i =>
    if (s.pipeTable i).readRefs = 0 then 0
    else min len (pipeBufferSize - (s.pipeTable i).buffer.size)

/-- `write_text` stops at a zero. -/
def ioWriteServiceCall : Handling Unit := do
  require (16 ≤ r.inLen ∧ 8 ≤ r.outLen) errInval
  let len ← readWord64 8
  require ((16 + len) % 2 ^ 64 ≤ r.inLen) errInval
  let fd ← readWord64 0
  if fd = 1 ∨ fd = 2 then do
    let _ ← bounded 16 len
    write 0 8
    answer 0 8
  else
    match getFd k.machine.user fd with
    | none => do
      write 0 8
      answer 0 8
    | some j => do
      let desc := currentFds k.machine.user j
      let _ ← read 16 (if desc.kind = .pipeWrite then pipeCount k.machine.user desc len else 0)
      write 0 8
      answer 0 8

def answerRead (a : Answer) : Handling Unit := do
  require (0 ≤ a.status) a.status
  write 0 a.out.length
  answer a.status a.out.length

def ioReadServiceCall : Handling Unit := do
  require (16 ≤ r.inLen ∧ r.outLen ≠ 0) errInval
  let len ← readWord64 8
  require (len ≤ r.outLen) errInval
  let fd ← readWord64 0
  if fd = 0 then answerRead ⟨(k.typed.take len).length, k.typed.take len⟩
  else
    match getFd k.machine.user fd with
    | none => refuse errBadfd
    | some j =>
      let desc := currentFds k.machine.user j
      match desc.kind with
      | .pipeRead => answerRead (readPipe k.machine.user desc len).1
      | .file => answerRead (readFile k.machine.user j desc len).1
      | _ => refuse errBadfd

/-- The file is loaded by the path that was looked up. -/
def ioOpenServiceCall : Handling Unit := do
  require (r.inLen ≠ 0 ∧ r.inLen ≤ 256 ∧ 8 ≤ r.outLen) errInval
  let first ← readByte 0
  require (first ≠ 0) errInval
  let last ← readByte (r.inLen - 1)
  require (last = 0) errInval
  let st ← fsStat k 0
  match st with
  | none => do
    write 0 8
    answer 0 8
  | some st =>
    if canAccess k st accessRead then do
      let _ ← normalize k 0
      write 0 8
      answer 0 8
    else do
      write 0 8
      answer 0 8

def ioPipeServiceCall : Handling Unit := do
  require (8 ≤ r.outLen) errInval
  let a := (UserMode.ioPipeServiceCall k.machine.user ⟨none, fun _ => 0, some r.outLen⟩).1
  require (0 ≤ a.status) a.status
  write 0 8
  answer 0 8

def fbBlitSize : ℕ := 32

def termFbBlitServiceCall : Handling Unit := do
  require (fbBlitSize ≤ r.inLen) errInval
  let width ← readWord32 8
  let height ← readWord32 12
  require (width ≠ 0 ∧ height ≠ 0) errInval
  let count ← readWord64 24
  let cells := width * height
  require (width ≤ 512 ∧ height ≤ 512 ∧ cells ≤ fbblitCellsMax ∧ cells ≤ count ∧
    fbBlitSize + cells * 2 ≤ r.inLen) errInval
  let _ ← read 0 8
  let _ ← read fbBlitSize (if k.screenEnabled then cells * 2 else 0)
  answer cells 0

def statSize : ℕ := 72

def fsStatCall : Handling Unit := do
  require (r.inLen ≠ 0 ∧ r.inLen ≤ 256 ∧ statSize ≤ r.outLen) errInval
  let first ← readByte 0
  require (first ≠ 0) errInval
  let last ← readByte (r.inLen - 1)
  require (last = 0) errInval
  let st ← fsStat k 0
  match st with
  | none => refuse errNoent
  | some st => do
    require (canAccess k st accessRead = true) errAccess
    write 0 (min statSize r.outLen)
    answer 0 statSize

def fsListDirCall : Handling Unit := do
  require (r.inLen ≠ 0 ∧ r.inLen ≤ 256 ∧ r.outLen ≠ 0) errInval
  let first ← readByte 0
  require (first ≠ 0) errInval
  let last ← readByte (r.inLen - 1)
  require (last = 0) errInval
  let reach ← fsCallCanAccessPath k 0 (accessRead ||| accessExec)
  require (reach = true) errAccess
  write 0 r.outLen
  let shown ← fsLs r k 0
  match shown with
  | none => refuse errNoent
  | some text => answer 0 ((text.takeWhile (· ≠ 0)).length + 1)

/-- Without the branch for callers in the kernel. -/
def fsWriteFileCall : Handling Unit := do
  require (16 ≤ r.inLen) errInval
  let pathLen ← readWord64 0
  let dataLen ← readWord64 8
  require (pathLen ≠ 0 ∧ pathLen ≤ 256 ∧ dataLen ≤ serviceCallPayloadMax ∧
    16 + pathLen + dataLen ≤ r.inLen) errInval
  let last ← readByte (16 + pathLen - 1)
  require (last = 0) errInval
  let reach ← mayWritePath k 16
  require (reach = true) errAccess
  let written ← fsWriteFileRaw k 16 (16 + pathLen) dataLen
  require (written = true) errAccess
  let _ ← normalize k 16
  answer 0 0

def fsMoveCall : Handling Unit := do
  require (4 ≤ r.inLen ∧ r.inLen ≤ 512) errInval
  let src ← string 0
  let srcLen := src.length + 1
  require (1 < srcLen ∧ srcLen < r.inLen) errInval
  let first ← readByte srcLen
  require (first ≠ 0) errInval
  let last ← readByte (r.inLen - 1)
  require (last = 0) errInval
  let reach ← fsCallCanAccessPath k 0 accessWrite
  require (reach = true) errAccess
  let create ← fsCallCanCreatePath k srcLen
  require (create = true) errAccess
  let moved ← fsMove k 0 srcLen
  require (moved = true) errNoent
  answer 0 0

/-- Names are compared up to their zero, however often. -/
def svcRecvCall : Handling Unit := do
  require (r.inLen ≠ 0 ∧ r.inLen ≤ serviceCallOwnerMax ∧ serviceMsgHeaderSize ≤ r.outLen) errInval
  let first ← readByte 0
  require (first ≠ 0) errInval
  let last ← readByte (r.inLen - 1)
  require (last = 0) errInval
  let name ← string 0
  require (nameValid name serviceCallOwnerMax = true) errInval
  match k.registry name with
  | none => refuse errNoent
  | some service => do
    require (service.running = true) errNoent
    require (currentProcessIsServiceHost k.host service = true) errAccess
    match pendingSlot k.services name with
    | none => refuse errAgain
    | some i => do
      let msg := k.services.msgs i
      write 0 48
      write 48 ((copyBounded serviceCallOwnerMax msg.service).length + 1)
      write 80 ((copyBounded serviceCallNameMax msg.method).length + 1)
      write serviceMsgHeaderSize msg.request.length
      answer 0 (serviceMsgHeaderSize + msg.request.length)

def svcReplyCall : Handling Unit := do
  require (24 ≤ r.inLen) errInval
  let responseLen ← readWord64 16
  require (responseLen ≤ serviceMsgDataMax ∧ 24 + responseLen ≤ r.inLen) errOverflow
  let requestId ← readWord64 0
  match serviceMsgFind k.services (UInt64.ofNat requestId) with
  | none => refuse errNoent
  | some i => do
    let msg := k.services.msgs i
    require (msg.state = .active) errNoent
    require (msg.servicePid = r.callerPid) errAccess
    if responseLen > msg.responseCapacity then answer 0 0
    else do
      let _ ← readWord64 8
      let _ ← read 24 responseLen
      answer 0 0

inductive Method where
  | procSpawn
  | procWait
  | procInfo
  | ioWrite
  | ioRead
  | ioOpen
  | ioPipe
  | termFbBlit
  | fsStat
  | fsListDir
  | fsWriteFile
  | fsMove
  | svcRecv
  | svcReply

def Method.handler : Method → Handling Unit
  | procSpawn => procSpawnServiceCall r k
  | procWait => procWaitServiceCall r k
  | procInfo => procInfoServiceCall r k
  | ioWrite => ioWriteServiceCall r k
  | ioRead => ioReadServiceCall r k
  | ioOpen => ioOpenServiceCall r k
  | ioPipe => ioPipeServiceCall r k
  | termFbBlit => termFbBlitServiceCall r k
  | fsStat => fsStatCall r k
  | fsListDir => fsListDirCall r k
  | fsWriteFile => fsWriteFileCall r k
  | fsMove => fsMoveCall r k
  | svcRecv => svcRecvCall r k
  | svcReply => svcReplyCall r k

/-- Every access is inside the request or the response, and so is the reported length at the end. -/
def Stays (f : Handling Unit) : Prop :=
  f.wp (staging r) (fun a _ => r.Inside a)
    (fun _ o _ => 0 ≤ o.status → o.actualOutLen ≤ r.outLen) ⟨0, 0⟩ ()

end StagedCalls
