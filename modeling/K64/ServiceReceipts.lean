import K64.MessagePairing

/-! # Receipt of a message

The gate `syscall_service_call` around `svc.recv`: what the caller passes, what is copied back, and
whether the message that was taken reaches it. -/
namespace Services

open UserMode ByteCodec

def serviceCallPayloadMax : ℕ := 65536
def callFlagPublic : UInt64 := 1
def callFlagKernelOnly : UInt64 := 2
def callFlagRootOnly : UInt64 := 4
def callFlagUserAllowed : UInt64 := 8
def serviceCallerRoot : UInt64 := 2
def errFault : ℤ := -5

def svcWord : List UInt8 := [115, 118, 99]

def recvWord : List UInt8 := [114, 101, 99, 118]

/-- The memory of the caller. What a write leaves there is not read again. -/
structure UserMemory where
  read : UInt64 → ℕ → Option (List UInt8)
  writable : UInt64 → ℕ → Bool

/-- The four pointers and two lengths that the caller passes. -/
structure UserCall where
  service : UInt64
  method : UInt64
  request : UInt64
  requestLen : UInt64
  response : UInt64
  responseLen : UInt64

variable (m : UserMemory)

def userRead (addr : UInt64) (size : ℕ) : Option (List UInt8) :=
  if size = 0 then some [] else m.read addr size

def userWrite (addr : UInt64) (data : List UInt8) : Bool :=
  data.length = 0 || m.writable addr data.length

/-- The characters up to the terminator, within `n` of them. -/
def copyUserName (addr : UInt64) : ℕ → List UInt8 → Except ℤ (List UInt8)
  | 0, _ => .error errInval
  | n + 1, name =>
    match userRead m addr 1 with
    | none => .error errFault
    | some l =>
      if l.head?.getD 0 = 0 then
        if nameValid name serviceCallOwnerMax then .ok name else .error errInval
      else copyUserName (addr + 1) n (name ++ [l.head?.getD 0])

def copyUserServiceName (ptr : UInt64) (size : ℕ) : Except ℤ (List UInt8) :=
  if ptr = 0 then .error errFault else copyUserName m ptr (size - 1) []

structure CallOwner where
  running : Bool
  kernelClass : Bool
  ring3Required : Bool
  ring3Verified : Bool

/-- An entry of the table of calls, with its owner if that is registered. -/
structure CallEntry where
  owner : Option CallOwner
  flags : UInt64

/-- What `k64_system_dispatch_call` checks before it calls a handler; 0 if it does. -/
def dispatchGate (entry : Option CallEntry) (callerFlags : UInt64) : ℤ :=
  match entry with
  | none => errNoent
  | some e =>
    match e.owner with
    | none => errNoent
    | some owner =>
      if owner.running = false then errNoent
      else if owner.kernelClass = false ∧
          (owner.ring3Required = false ∨ owner.ring3Verified = false) then errAccess
      else if e.flags &&& callFlagKernelOnly ≠ 0 ∧ callerFlags &&& serviceCallerKernel = 0 then
        errAccess
      else if e.flags &&& callFlagRootOnly ≠ 0 ∧
          callerFlags &&& (serviceCallerRoot ||| serviceCallerKernel) = 0 then errAccess
      else if callerFlags &&& serviceCallerKernel = 0 ∧
          e.flags &&& (callFlagPublic ||| callFlagUserAllowed) = 0 then errAccess
      else 0

/-- The caller and the tables of the kernel; `other` is what the other calls do. -/
structure Gate where
  memory : UserMemory
  host : Host
  registry : Registry
  scratchFree : Bool
  recvEntry : Option CallEntry
  other : List UInt8 → List UInt8 → List UInt8 → Option ℕ → State → ℤ × List UInt8 × State

/-- A message as `svc.recv` hands it over. -/
def Msg.received (msg : Msg) : Received :=
  ⟨msg.requestId, msg.callerPid, msg.callerUid, msg.responseCapacity, msg.callerFlags,
    copyBounded serviceCallOwnerMax msg.service, copyBounded serviceCallNameMax msg.method,
    msg.request⟩

def padded (size : ℕ) (text : List UInt8) : List UInt8 :=
  text ++ List.replicate (size - text.length) 0

/-- The header of 112 bytes and the request. -/
def Received.bytes (r : Received) : List UInt8 :=
  leBytes 8 r.requestId.toNat ++ leBytes 8 r.callerPid.toNat ++ leBytes 8 r.callerUid.toNat ++
    leBytes 8 r.request.length ++ leBytes 8 r.responseCapacity ++ leBytes 8 r.flags.toNat ++
    padded serviceCallOwnerMax r.service ++ padded serviceCallNameMax r.method ++ r.request

variable (k : Gate) (c : UserCall) (s : State)

/-- The status, the bytes produced and the messages afterwards. -/
def dispatchCall (service method input : List UInt8) (outLen : Option ℕ) : ℤ × List UInt8 × State :=
  if service = svcWord ∧ method = recvWord then
    if dispatchGate k.recvEntry 0 ≠ 0 then (dispatchGate k.recvEntry 0, [], s)
    else
      let answer := svcRecvCall s ⟨k.registry, k.host, input, outLen⟩
      (answer.1, (answer.2.1.map Received.bytes).getD [], answer.2.2)
  else k.other service method input outLen s

structure StagedCall where
  service : List UInt8
  method : List UInt8
  input : List UInt8

def stage : Except ℤ StagedCall := do
  let service ← copyUserServiceName k.memory c.service serviceCallOwnerMax
  let method ← copyUserServiceName k.memory c.method serviceCallNameMax
  if c.requestLen.toNat > serviceCallPayloadMax ∨ c.responseLen.toNat > serviceCallPayloadMax then
    throw errOverflow
  if c.requestLen ≠ 0 ∧ c.request = 0 ∨ c.responseLen ≠ 0 ∧ c.response = 0 then throw errFault
  if k.scratchFree = false then throw errBusy
  match userRead k.memory c.request c.requestLen.toNat with
  | none => throw errFault
  | some input => return ⟨service, method, input⟩

def UserCall.outLen (c : UserCall) : Option ℕ :=
  if c.responseLen = 0 then none else some c.responseLen.toNat

structure Outcome where
  status : ℤ
  written : Option (UInt64 × List UInt8)
  state : State

/-- The end of the gate, which copies the response to the caller. -/
def deliver (status : ℤ) (out : List UInt8) (t : State) : Outcome :=
  if status < 0 then ⟨status, none, t⟩
  else if out.length > c.responseLen.toNat then ⟨errOverflow, none, t⟩
  else if userWrite k.memory c.response out = false then ⟨errFault, none, t⟩
  else ⟨status, some (c.response, out), t⟩

/-- The call block is `none` when it cannot be read. -/
def syscallServiceCall (call : Option UserCall) : Outcome :=
  match call with
  | none => ⟨errFault, none, s⟩
  | some c =>
    match stage k c with
    | .error status => ⟨status, none, s⟩
    | .ok staged =>
      let answer := dispatchCall k s staged.service staged.method staged.input c.outLen
      deliver k c answer.1 answer.2.1 answer.2.2

/-- The two names of the call are `svc` and `recv`. -/
structure RecvCall : Prop where
  service : copyUserServiceName k.memory c.service serviceCallOwnerMax = .ok svcWord
  method : copyUserServiceName k.memory c.method serviceCallNameMax = .ok recvWord

/-- A message that was pending is as before, or the caller has got all of it; and after a failure
the next `svc.recv` finds what this one would have found. -/
structure ConsumedOnlyIfDelivered (o : Outcome) : Prop where
  pending : ∀ i, (s.msgs i).state = .pending → o.state.msgs i = s.msgs i ∨
    o.status = 0 ∧ o.written = some (c.response, (s.msgs i).received.bytes)
  available : o.status ≠ 0 → ∀ name i, pendingSlot s name = some i →
    pendingSlot o.state name = some i

/-- The slot of the message that the call gets to: the first one pending for the named service. -/
def takenSlot : Option ℕ :=
  match stage k c with
  | .error _ => none
  | .ok staged =>
    if dispatchGate k.recvEntry 0 ≠ 0 then none
    else
      match recvName ⟨k.registry, k.host, staged.input, c.outLen⟩ with
      | .error _ => none
      | .ok name => pendingSlot s name

theorem length_padded {size : ℕ} {text : List UInt8} (h : text.length ≤ size) :
    (padded size text).length = size := by
  rw [padded, List.length_append, List.length_replicate]
  omega

theorem length_copyBounded (size : ℕ) (l : List UInt8) : (copyBounded size l).length ≤ size :=
  (List.length_take_le _ _).trans (Nat.sub_le _ _)

theorem length_received (msg : Msg) :
    msg.received.bytes.length = serviceMsgHeaderSize + msg.request.length := by
  have hservice : (padded serviceCallOwnerMax msg.received.service).length = 32 :=
    length_padded (length_copyBounded _ _)
  have hmethod : (padded serviceCallNameMax msg.received.method).length = 32 :=
    length_padded (length_copyBounded _ _)
  simp only [Received.bytes, List.length_append, length_leBytes, hservice, hmethod]
  rfl

variable {k c s}

theorem stage_names (hc : RecvCall k c) {staged : StagedCall} (h : stage k c = .ok staged) :
    staged.service = svcWord ∧ staged.method = recvWord := by
  unfold stage at h
  rw [hc.service, hc.method] at h
  dsimp only [bind, Except.bind] at h
  split at h
  · cases h
  · split at h
    · cases h
    · split at h
      · cases h
      · split at h
        · cases h
        · cases h
          exact ⟨rfl, rfl⟩

theorem deliver_state (status : ℤ) (out : List UInt8) (t : State) :
    (deliver k c status out t).state = t := by
  unfold deliver
  split
  · rfl
  · split
    · rfl
    · split <;> rfl

theorem recv_call_cases (hc : RecvCall k c) :
    (takenSlot k c s = none ∧ (syscallServiceCall k s (some c)).state = s) ∨
    ∃ i, takenSlot k c s = some i ∧ (s.msgs i).state = .pending ∧
      syscallServiceCall k s (some c) = deliver k c 0 (s.msgs i).received.bytes
        (s.setMsg i { s.msgs i with state := .active, servicePid := k.host.pid }) := by
  simp only [syscallServiceCall, takenSlot]
  cases hstage : stage k c with
  | error status => exact .inl ⟨rfl, rfl⟩
  | ok staged =>
    obtain ⟨hservice, hmethod⟩ := stage_names hc hstage
    simp only [dispatchCall, hservice, hmethod, and_self, if_true, svcRecvCall]
    by_cases hgate : dispatchGate k.recvEntry 0 ≠ 0
    · rw [if_pos hgate, if_pos hgate]
      exact .inl ⟨rfl, deliver_state _ _ _⟩
    rw [if_neg hgate, if_neg hgate]
    cases recvName ⟨k.registry, k.host, staged.input, c.outLen⟩ with
    | error status => exact .inl ⟨rfl, deliver_state _ _ _⟩
    | ok name =>
      cases hslot : pendingSlot s name with
      | none => exact .inl ⟨hslot, by simp only [hslot, deliver_state]⟩
      | some i =>
        refine .inr ⟨i, hslot, (pendingSlot_some hslot).1, ?_⟩
        simp only [hslot]
        rfl

theorem deliver_zero {out : List UInt8} (t : State) (hout : out ≠ []) :
    (deliver k c 0 out t).status = 0 ∧ (deliver k c 0 out t).written = some (c.response, out) ↔
      out.length ≤ c.responseLen.toNat ∧ k.memory.writable c.response out.length = true := by
  have hwrite : userWrite k.memory c.response out = k.memory.writable c.response out.length := by
    simp [userWrite, hout]
  unfold deliver
  rw [if_neg (by decide), hwrite]
  by_cases hfits : out.length ≤ c.responseLen.toNat
  · rw [if_neg (by omega)]
    cases k.memory.writable c.response out.length with
    | true => simp [hfits]
    | false =>
      rw [if_pos rfl]
      simp
  · rw [if_pos (by omega)]
    simp [hfits]

/-- The message is active before its length and the caller's buffer are looked at. -/
theorem consumed_only_if_delivered_iff (hc : RecvCall k c) :
    ConsumedOnlyIfDelivered c s (syscallServiceCall k s (some c)) ↔
      ∀ i, takenSlot k c s = some i →
        serviceMsgHeaderSize + (s.msgs i).request.length ≤ c.responseLen.toNat ∧
          k.memory.writable c.response (serviceMsgHeaderSize + (s.msgs i).request.length) = true := by
  rcases recv_call_cases (s := s) hc with ⟨hnone, hstate⟩ | ⟨i, hslot, hpending, hcall⟩
  · refine iff_of_true ⟨fun i _ => .inl (by rw [hstate]), fun _ name i hi => ?_⟩ ?_
    · rwa [hstate]
    · intro i hi
      rw [hnone] at hi
      cases hi
  · have hne : (s.msgs i).received.bytes ≠ [] := by
      intro hnil
      have := length_received (s.msgs i)
      rw [hnil, List.length_nil, serviceMsgHeaderSize] at this
      omega
    have hcond := deliver_zero (k := k) (c := c)
      (s.setMsg i { s.msgs i with state := .active, servicePid := k.host.pid }) hne
    rw [length_received] at hcond
    rw [hcall]
    constructor
    · intro h j hj
      obtain rfl : i = j := Option.some.inj (hslot.symm.trans hj)
      rcases h.pending i hpending with hsame | hdelivered
      · rw [deliver_state, setMsg_self] at hsame
        have hstate := congrArg Msg.state hsame
        rw [hpending] at hstate
        cases hstate
      · exact hcond.mp hdelivered
    · intro h
      have hdelivered := hcond.mpr (h i hslot)
      refine ⟨fun j hj => ?_, fun hfailed => absurd hdelivered.1 hfailed⟩
      by_cases hij : j = i
      · rw [hij]
        exact .inr hdelivered
      · rw [deliver_state, setMsg_other s _ hij]
        exact .inl rfl

/-- The caller's memory holds the two names and the name of the service from 1 on. -/
def recvMemory (writable : Bool) : UserMemory where
  read := fun addr size =>
    let text := svcWord ++ 0 :: recvWord ++ 0 :: 97 :: [0]
    some ((text.drop (addr.toNat - 1)).take size)
  writable := fun _ _ => writable

def recvGate (writable : Bool) : Gate where
  memory := recvMemory writable
  host := host
  registry := fun name => if name = [97] then some echo else none
  scratchFree := true
  recvEntry := some ⟨some ⟨true, true, false, false⟩, callFlagPublic ||| callFlagUserAllowed⟩
  other := fun _ _ _ _ s => (errNoent, [], s)

def recvCall (responseLen : UInt64) : UserCall := ⟨1, 5, 10, 2, 20, responseLen⟩

theorem recv_delivers : ConsumedOnlyIfDelivered (recvCall 113) asked
    (syscallServiceCall (recvGate true) asked (some (recvCall 113))) :=
  (consumed_only_if_delivered_iff ⟨by decide, by decide⟩).mpr (by
    intro i hi
    obtain rfl : i = 0 := by
      have hslot : takenSlot (recvGate true) (recvCall 113) asked = some 0 := by decide
      exact Option.some.inj (hi.symm.trans hslot)
    decide)

/-- The request of one byte does not fit behind the header: the call fails, and the message is
active. -/
theorem short_response_loses_message : ¬ ∀ (k : Gate) (c : UserCall) (s : State), RecvCall k c →
    ConsumedOnlyIfDelivered c s (syscallServiceCall k s (some c)) := by
  intro h
  have hlost := (h (recvGate true) (recvCall 112) asked ⟨by decide, by decide⟩).pending 0 (by decide)
  rcases hlost with hsame | ⟨hstatus, -⟩
  · have := congrArg Msg.state hsame
    revert this
    decide
  · revert hstatus
    decide

end Services
