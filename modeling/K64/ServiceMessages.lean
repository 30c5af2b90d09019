import K64.UserPrograms

/-! # Messages to services in ring 3

The slots of `k64_system.c` through which a call of a service is handed to a program that hosts it,
and `svc.recv` and `svc.reply`, with which that program takes it and answers. -/
namespace Services

open UserMode

def errOverflow : ℤ := -9
def errBusy : ℤ := -13
def maxServiceMessages : ℕ := 8
def serviceCallOwnerMax : ℕ := 32
def serviceCallNameMax : ℕ := 32
def serviceMsgDataMax : ℕ := 65400
def serviceCallerKernel : UInt64 := 1
def userProcessPathMax : ℕ := 96

/-- A string in an array of that many characters. -/
structure Text (size : ℕ) where
  chars : List UInt8
  fits : chars.length < size
  ends : ∀ c ∈ chars, c ≠ 0

structure Service where
  entryPath : List UInt8
  running : Bool

structure ServiceCall where
  owner : Text serviceCallOwnerMax
  name : Text serviceCallNameMax

inductive MsgState where
  | empty
  | pending
  | active
  | done
  deriving DecidableEq

/-- The lengths of the request and of the response are those of the lists. -/
structure Msg where
  state : MsgState
  requestId : UInt64
  callerPid : UInt64
  callerUid : UInt64
  callerFlags : UInt64
  servicePid : UInt64
  service : List UInt8
  method : List UInt8
  request : List UInt8
  response : List UInt8
  responseCapacity : ℕ
  status : ℤ

def Msg.clear : Msg := ⟨.empty, 0, 0, 0, 0, 0, [], [], [], [], 0, errBusy⟩

/-- A `dispatch_ring3_message_call` in progress: its slot and its response buffer. -/
structure Call where
  slot : ℕ
  out : List UInt8

structure State where
  msgs : ℕ → Msg
  nextRequestId : UInt64
  calls : List Call

variable (s : State)

def State.setMsg (i : ℕ) (msg : Msg) : State := { s with msgs := Function.update s.msgs i msg }

def serviceMsgAlloc : Option (ℕ × State) :=
  match (List.range maxServiceMessages).find? fun i => (s.msgs i).state == .empty with
  | none => none
  | some i => some (i, { s.setMsg i { Msg.clear with
      state := .pending, requestId := s.nextRequestId } with
      nextRequestId := if s.nextRequestId + 1 = 0 then 1 else s.nextRequestId + 1 })

def serviceMsgFind (requestId : UInt64) : Option ℕ :=
  if requestId = 0 then none
  else (List.range maxServiceMessages).find? fun i =>
    (s.msgs i).state != .empty && (s.msgs i).requestId == requestId

/-- The arguments of `dispatch_ring3_message_call`, with the effective user of the caller. -/
structure Dispatch where
  owner : Service
  call : ServiceCall
  input : List UInt8
  out : List UInt8
  callerPid : UInt64
  callerFlags : UInt64
  effectiveUid : UInt32

/-- The status, the response buffer and `actual_out_len`. -/
structure Result where
  status : ℤ
  out : List UInt8
  actualOutLen : ℕ
  deriving DecidableEq

def Dispatch.fill (d : Dispatch) (msg : Msg) : Msg :=
  { msg with
    callerPid := d.callerPid
    callerUid := if d.callerFlags &&& serviceCallerKernel ≠ 0 then 0 else d.effectiveUid.toUInt64
    callerFlags := d.callerFlags
    responseCapacity := if d.out.length < serviceMsgDataMax then d.out.length else serviceMsgDataMax
    service := copyBounded serviceCallOwnerMax d.call.owner.chars
    method := copyBounded serviceCallNameMax d.call.name.chars
    request := d.input }

/-- Up to the execution of the entry program, or with the result of a call that does not get there. -/
def dispatchBegin (d : Dispatch) : Option Result × State :=
  if d.input.length > serviceMsgDataMax then (some ⟨errInval, d.out, 0⟩, s)
  else if d.owner.entryPath = [] then (some ⟨errNoent, d.out, 0⟩, s)
  else
    match serviceMsgAlloc s with
    | none => (some ⟨errBusy, d.out, 0⟩, s)
    | some (i, t) => (none, { t.setMsg i (d.fill (t.msgs i)) with
        calls := ⟨i, d.out⟩ :: s.calls })

/-- After the execution, which tells whether the program could be run. -/
def dispatchEnd (c : Call) (rest : List Call) (ran : Bool) : Result × State :=
  let msg := s.msgs c.slot
  let t := { s.setMsg c.slot Msg.clear with calls := rest }
  if ran = false ∨ msg.state ≠ .done then (⟨errBusy, c.out, 0⟩, t)
  else if msg.status ≥ 0 ∧ msg.response.length > c.out.length then
    (⟨errOverflow, c.out, msg.response.length⟩, t)
  else if msg.status ≥ 0 then
    (⟨msg.status, msg.response ++ c.out.drop msg.response.length, msg.response.length⟩, t)
  else (⟨msg.status, c.out, msg.response.length⟩, t)

/-- The running process: its number, and the path of the program it was started from. -/
structure Host where
  pid : UInt64
  program : Option (List UInt8)

/-- "<user-elf>". -/
def unnamed : List UInt8 := [60, 117, 115, 101, 114, 45, 101, 108, 102, 62]

def processCopyPath (path : List UInt8) : List UInt8 :=
  copyBounded userProcessPathMax (if path.head?.getD 0 = 0 then unnamed else path)

def currentPath (h : Host) : Option (List UInt8) :=
  h.program.map fun path => copyBounded userProcessPathMax (processCopyPath path)

def currentProcessIsServiceHost (h : Host) (service : Service) : Bool :=
  service.entryPath != [] && currentPath h == some service.entryPath

def nameChar (c : UInt8) : Bool :=
  (97 ≤ c && c ≤ 122) || (65 ≤ c && c ≤ 90) || (48 ≤ c && c ≤ 57) || c == 95 || c == 45 || c == 46

def nameValid (name : List UInt8) (maxLen : ℕ) : Bool :=
  name != [] && name.length < maxLen && name.all nameChar

abbrev Registry := List UInt8 → Option Service

/-- The request of `svc.recv` and the length of the response, if there is one. -/
structure RecvRequest where
  registry : Registry
  host : Host
  input : List UInt8
  outLen : Option ℕ

/-- The header of a message, with the request behind it. -/
structure Received where
  requestId : UInt64
  callerPid : UInt64
  callerUid : UInt64
  responseCapacity : ℕ
  flags : UInt64
  service : List UInt8
  method : List UInt8
  request : List UInt8

def serviceMsgHeaderSize : ℕ := 112

/-- The name that is asked for, after the checks of `svc.recv`. -/
def recvName (r : RecvRequest) : Except ℤ (List UInt8) :=
  if r.input = [] ∨ r.input.length > serviceCallOwnerMax ∨ r.outLen.getD 0 < serviceMsgHeaderSize then
    .error errInval
  else if r.input.head? = some 0 ∨ r.input.getLast? ≠ some 0 ∨
      nameValid (r.input.takeWhile (· ≠ 0)) serviceCallOwnerMax = false then .error errInval
  else
    match r.registry (r.input.takeWhile (· ≠ 0)) with
    | none => .error errNoent
    | some service =>
      if service.running = false then .error errNoent
      else if currentProcessIsServiceHost r.host service = false then .error errAccess
      else .ok (r.input.takeWhile (· ≠ 0))

def pendingSlot (name : List UInt8) : Option ℕ :=
  (List.range maxServiceMessages).find? fun i =>
    (s.msgs i).state == .pending && (s.msgs i).service == name

def svcRecvCall (r : RecvRequest) : ℤ × Option Received × State :=
  match recvName r with
  | .error e => (e, none, s)
  | .ok name =>
    match pendingSlot s name with
    | none => (errAgain, none, s)
    | some i =>
      let msg := s.msgs i
      (0, some ⟨msg.requestId, msg.callerPid, msg.callerUid, msg.responseCapacity, msg.callerFlags,
        copyBounded serviceCallOwnerMax msg.service, copyBounded serviceCallNameMax msg.method,
        msg.request⟩, s.setMsg i { msg with state := .active, servicePid := r.host.pid })

structure Reply where
  requestId : UInt64
  status : ℤ
  data : List UInt8
  deriving DecidableEq

/-- The fixed part of the request of `svc.reply` has three words. -/
def readReply (input : List UInt8) : Except ℤ Reply :=
  if input.length < 24 then .error errInval
  else if word64 input 16 > serviceMsgDataMax ∨ 24 + word64 input 16 > input.length then
    .error errOverflow
  else .ok ⟨UInt64.ofNat (word64 input 0), Int.bmod (word64 input 8) (2 ^ 64),
    (input.drop 24).take (word64 input 16)⟩

def Msg.answer (msg : Msg) (r : Reply) : Msg :=
  if r.data.length > msg.responseCapacity then
    { msg with status := errOverflow, response := [], state := .done }
  else { msg with status := r.status, response := r.data, state := .done }

def svcReplyCall (pid : UInt64) (input : List UInt8) : ℤ × State :=
  match readReply input with
  | .error e => (e, s)
  | .ok r =>
    match serviceMsgFind s r.requestId with
    | none => (errNoent, s)
    | some i =>
      if (s.msgs i).state ≠ .active then (errNoent, s)
      else if (s.msgs i).servicePid ≠ pid then (errAccess, s)
      else (0, s.setMsg i ((s.msgs i).answer r))

/-- A call in progress ends when the program it runs has ended, or could not be run. -/
inductive Event where
  | call (d : Dispatch)
  | recv (r : RecvRequest)
  | reply (pid : UInt64) (input : List UInt8)
  | finish (ran : Bool)

def step : Event → State
  | .call d => (dispatchBegin s d).2
  | .recv r => (svcRecvCall s r).2.2
  | .reply pid input => (svcReplyCall s pid input).2
  | .finish ran =>
    match s.calls with
    | [] => s
    | c :: rest => (dispatchEnd s c rest ran).2

/-- A message that a `svc.recv` gave to a process. -/
structure Delivery where
  request : RecvRequest
  received : Received

structure Accepted where
  pid : UInt64
  reply : Reply
  deriving DecidableEq

/-- What of the message in a slot is handed out by an event. -/
def deliveries (i : ℕ) : Event → List Delivery
  | .recv r =>
    match recvName r, (svcRecvCall s r).2.1 with
    | .ok name, some received => if pendingSlot s name = some i then [⟨r, received⟩] else []
    | _, _ => []
  | _ => []

/-- The replies to the message in a slot that an event brings. -/
def replies (i : ℕ) : Event → List Accepted
  | .reply pid input =>
    match readReply input with
    | .ok r =>
      if serviceMsgFind s r.requestId = some i ∧ (svcReplyCall s pid input).1 = 0 then [⟨pid, r⟩]
      else []
    | .error _ => []
  | _ => []

end Services
