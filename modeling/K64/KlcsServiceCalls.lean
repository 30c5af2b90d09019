import K64.KlcsDescriptors
import K64.ServiceReceipts

/-! # Service calls of KLCS

The methods of the service `klcs` that user programs may call. `klcs.syscall` takes the frame of a
Linux system call, whose arguments the dispatcher uses as they are. -/
namespace Klcs

open Services (Gate UserCall CallEntry stage dispatchGate userWrite copyUserServiceName
  serviceCallOwnerMax serviceCallNameMax errFault errOverflow)
open UserMode (word64 encode64 errInval)

def klcsTraceLines : ℕ := 16
def enosys : ℤ := 38

/-- Number, name and whether it is implemented: the calls from "read" to "rseq". -/
def syscallTable : List (UInt64 × Str × Bool) :=
  [(0, [114, 101, 97, 100], true), (1, [119, 114, 105, 116, 101], true),
    (2, [111, 112, 101, 110], true), (3, [99, 108, 111, 115, 101], true),
    (5, [102, 115, 116, 97, 116], true), (7, [112, 111, 108, 108], true),
    (8, [108, 115, 101, 101, 107], true), (9, [109, 109, 97, 112], true),
    (10, [109, 112, 114, 111, 116, 101, 99, 116], true), (11, [109, 117, 110, 109, 97, 112], true),
    (12, [98, 114, 107], true),
    (13, [114, 116, 95, 115, 105, 103, 97, 99, 116, 105, 111, 110], true),
    (14, [114, 116, 95, 115, 105, 103, 112, 114, 111, 99, 109, 97, 115, 107], true),
    (16, [105, 111, 99, 116, 108], true), (17, [112, 114, 101, 97, 100, 54, 52], true),
    (18, [112, 119, 114, 105, 116, 101, 54, 52], true), (20, [119, 114, 105, 116, 101, 118], true),
    (21, [97, 99, 99, 101, 115, 115], true), (23, [115, 101, 108, 101, 99, 116], true),
    (25, [109, 114, 101, 109, 97, 112], true),
    (35, [110, 97, 110, 111, 115, 108, 101, 101, 112], true),
    (39, [103, 101, 116, 112, 105, 100], true), (60, [101, 120, 105, 116], true),
    (63, [117, 110, 97, 109, 101], true), (72, [102, 99, 110, 116, 108], true),
    (79, [103, 101, 116, 99, 119, 100], true), (82, [114, 101, 110, 97, 109, 101], true),
    (83, [109, 107, 100, 105, 114], true), (84, [114, 109, 100, 105, 114], true),
    (77, [102, 116, 114, 117, 110, 99, 97, 116, 101], true),
    (87, [117, 110, 108, 105, 110, 107], true),
    (89, [114, 101, 97, 100, 108, 105, 110, 107], true), (90, [99, 104, 109, 111, 100], true),
    (91, [102, 99, 104, 109, 111, 100], true), (95, [117, 109, 97, 115, 107], true),
    (102, [103, 101, 116, 117, 105, 100], true), (104, [103, 101, 116, 103, 105, 100], true),
    (107, [103, 101, 116, 101, 117, 105, 100], true),
    (108, [103, 101, 116, 101, 103, 105, 100], true),
    (109, [115, 101, 116, 112, 103, 105, 100], true),
    (110, [103, 101, 116, 112, 112, 105, 100], true),
    (111, [103, 101, 116, 112, 103, 114, 112], true), (112, [115, 101, 116, 115, 105, 100], true),
    (121, [103, 101, 116, 112, 103, 105, 100], true),
    (131, [115, 105, 103, 97, 108, 116, 115, 116, 97, 99, 107], true),
    (158, [97, 114, 99, 104, 95, 112, 114, 99, 116, 108], true),
    (186, [103, 101, 116, 116, 105, 100], true), (202, [102, 117, 116, 101, 120], true),
    (217, [103, 101, 116, 100, 101, 110, 116, 115, 54, 52], true),
    (218, [115, 101, 116, 95, 116, 105, 100, 95, 97, 100, 100, 114, 101, 115, 115], true),
    (228, [99, 108, 111, 99, 107, 95, 103, 101, 116, 116, 105, 109, 101], true),
    (230, [99, 108, 111, 99, 107, 95, 110, 97, 110, 111, 115, 108, 101, 101, 112], true),
    (231, [101, 120, 105, 116, 95, 103, 114, 111, 117, 112], true),
    (257, [111, 112, 101, 110, 97, 116], true), (258, [109, 107, 100, 105, 114, 97, 116], true),
    (262, [110, 101, 119, 102, 115, 116, 97, 116, 97, 116], true),
    (264, [117, 110, 108, 105, 110, 107, 97, 116], true),
    (267, [114, 101, 97, 100, 108, 105, 110, 107, 97, 116], true),
    (269, [102, 97, 99, 99, 101, 115, 115, 97, 116], true), (271, [112, 112, 111, 108, 108], true),
    (273, [115, 101, 116, 95, 114, 111, 98, 117, 115, 116, 95, 108, 105, 115, 116], true),
    (280, [117, 116, 105, 109, 101, 110, 115, 97, 116], true),
    (302, [112, 114, 108, 105, 109, 105, 116, 54, 52], true),
    (316, [114, 101, 110, 97, 109, 101, 97, 116, 50], true),
    (318, [103, 101, 116, 114, 97, 110, 100, 111, 109], true),
    (332, [115, 116, 97, 116, 120], true), (334, [114, 115, 101, 113], true)]

structure KlcsState where
  totalSyscalls : UInt64
  unsupportedSyscalls : UInt64
  traceEnabled : Bool
  lastTrace : ℕ → Str
  nextTrace : UInt32
  fds : ℕ → Option Fd

/-- The kernel reads an address through the page tables of the moment; where nothing is mapped it
faults. -/
abbrev KernelMemory := UInt64 → Option UInt8

def decimal (n : UInt64) : Str := (Nat.toDigits 10 n.toNat).map fun c => UInt8.ofNat c.toNat

def appendAll (size : ℕ) (pieces : List Str) : Str := pieces.foldl (klcsAppend size) []

def unknownName : Str := [117, 110, 107, 110, 111, 119, 110]

def klcsSyscallName (nr : UInt64) : Str :=
  ((syscallTable.find? fun e => e.1 == nr).map fun e => e.2.1).getD unknownName

def newline : UInt8 := 10

variable (k : KlcsState)

/-- "KLCS: running", "personality: linux-x86_64", "ELF64 loader: validation enabled",
"syscall routing: service table enabled", "filesystem bridge: foundation",
"memory bridge: mmap/brk foundation", "process bridge: partial", "trace: " with "on" or "off",
"total syscalls: " and "unsupported syscalls: ". -/
def statusPieces : List Str :=
  [[75, 76, 67, 83, 58, 32, 114, 117, 110, 110, 105, 110, 103, 10], [112, 101, 114, 115, 111, 110,
    97, 108, 105, 116, 121, 58, 32, 108, 105, 110, 117, 120, 45, 120, 56, 54, 95, 54, 52, 10], [69,
    76, 70, 54, 52, 32, 108, 111, 97, 100, 101, 114, 58, 32, 118, 97, 108, 105, 100, 97, 116, 105,
    111, 110, 32, 101, 110, 97, 98, 108, 101, 100, 10], [115, 121, 115, 99, 97, 108, 108, 32, 114,
    111, 117, 116, 105, 110, 103, 58, 32, 115, 101, 114, 118, 105, 99, 101, 32, 116, 97, 98, 108,
    101, 32, 101, 110, 97, 98, 108, 101, 100, 10], [102, 105, 108, 101, 115, 121, 115, 116, 101,
    109, 32, 98, 114, 105, 100, 103, 101, 58, 32, 102, 111, 117, 110, 100, 97, 116, 105, 111, 110,
    10], [109, 101, 109, 111, 114, 121, 32, 98, 114, 105, 100, 103, 101, 58, 32, 109, 109, 97, 112,
    47, 98, 114, 107, 32, 102, 111, 117, 110, 100, 97, 116, 105, 111, 110, 10], [112, 114, 111, 99,
    101, 115, 115, 32, 98, 114, 105, 100, 103, 101, 58, 32, 112, 97, 114, 116, 105, 97, 108, 10],
    [116, 114, 97, 99, 101, 58, 32], if k.traceEnabled then [111, 110, 10] else [111, 102, 102, 10],
    [116, 111, 116, 97, 108, 32, 115, 121, 115, 99, 97, 108, 108, 115, 58, 32],
    decimal k.totalSyscalls, [10, 117, 110, 115, 117, 112, 112, 111, 114, 116, 101, 100, 32, 115,
    121, 115, 99, 97, 108, 108, 115, 58, 32], decimal k.unsupportedSyscalls, [newline]]

def klcsStatus (size : ℕ) : Str := appendAll size (statusPieces k)

/-- " implemented" and " planned". -/
def entryPieces (e : UInt64 × Str × Bool) : List Str :=
  [decimal e.1, [32], e.2.1, if e.2.2 then
    [32, 105, 109, 112, 108, 101, 109, 101, 110, 116, 101, 100, 10]
    else [32, 112, 108, 97, 110, 110, 101, 100, 10]]

def klcsSyscalls (size : ℕ) : Str := appendAll size (syscallTable.flatMap entryPieces)

/-- "KLCS trace: empty". -/
def traceEmpty : Str :=
  [75, 76, 67, 83, 32, 116, 114, 97, 99, 101, 58, 32, 101, 109, 112, 116, 121, 10]

def klcsTraceDump (size : ℕ) : Str :=
  let lines := (List.range klcsTraceLines).map fun i =>
    k.lastTrace ((k.nextTrace.toNat + i) % 2 ^ 32 % klcsTraceLines)
  let out := appendAll size ((lines.filter fun l => l != []).flatMap fun l => [l, [newline]])
  if out = [] then klcsAppend size out traceEmpty else out

/-- "[klcs] pid=" with the numbers and the name. -/
def traceLine (pid nr : UInt64) (name : Str) (result : ℤ) : Str :=
  appendAll 96 ([[91, 107, 108, 99, 115, 93, 32, 112, 105, 100, 61], decimal pid, [32], name, [40],
    decimal nr, [41, 32, 45, 62, 32]] ++
    if result < 0 then [[45], decimal (UInt64.ofNat (-result).toNat)]
    else [decimal (UInt64.ofNat result.toNat)])

def klcsTraceRecord (pid nr : UInt64) (name : Str) (result : ℤ) : KlcsState :=
  if k.traceEnabled then
    { k with
      lastTrace := Function.update k.lastTrace (k.nextTrace.toNat % klcsTraceLines)
        (traceLine pid nr name result)
      nextTrace := k.nextTrace + 1 }
  else k

/-- The frame has eleven fields of 64 bits: the number, six arguments, `rip`, `rsp`, `pid` and
`tid`. -/
def frameSize : ℕ := 88

def frameField (frame : List UInt8) (i : ℕ) : UInt64 := UInt64.ofNat (word64 frame (8 * i))

def toInt64 (n : UInt64) : ℤ := if n.toNat < 2 ^ 63 then n.toNat else n.toNat - 2 ^ 64

/-- The characters up to the first zero, `n` at most. -/
def printLoop (mem : KernelMemory) : UInt64 → ℕ → Option Str
  | _, 0 => some []
  | p, n + 1 =>
    match mem p with
    | none => none
    | some c => if c = 0 then some [] else (printLoop mem (p + 1) n).map (c :: ·)

/-- What the dispatcher makes of a number: the result, what it prints, and the descriptors. -/
structure Dispatched where
  result : ℤ
  printed : Str
  state : KlcsState

/-- A write that the dispatcher carries out: the address and the length. -/
def writeOf (frame : List UInt8) : Option (UInt64 × ℕ) :=
  let fd := frameField frame 1
  let p := frameField frame 2
  let len := frameField frame 3
  if frameField frame 0 = 1 ∧ (fd = 1 ∨ fd = 2) ∧ p ≠ 0 ∧ len < 4096 then some (p, len.toNat)
  else none

/-- All numbers but a write that is carried out. -/
def dispatchRest (frame : List UInt8) : ℤ × KlcsState :=
  let nr := frameField frame 0
  if nr = 1 then (-ebadf, k)
  else if nr = 3 then
    let closed := klcsFdClose (⟨(), k.fds⟩ : State Unit) (toInt (frameField frame 1))
    (if closed.1 then 0 else -ebadf, { k with fds := closed.2.fds })
  else if nr = 39 then (toInt64 (frameField frame 9), k)
  else if nr ∈ [60, 231, 102, 104, 107, 108] then (0, k)
  else (-enosys, { k with unsupportedSyscalls := k.unsupportedSyscalls + 1 })

/-- Without a result when the kernel faults. -/
def klcsDispatchSyscall (mem : KernelMemory) (frame : List UInt8) : Option Dispatched :=
  let nr := frameField frame 0
  let k := { k with totalSyscalls := k.totalSyscalls + 1 }
  let record (result : ℤ) (printed : Str) (k : KlcsState) : Dispatched :=
    ⟨result, printed, klcsTraceRecord k (frameField frame 9) nr (klcsSyscallName nr) result⟩
  match writeOf frame with
  | some (p, len) => (printLoop mem p len).map fun text => record len text k
  | none =>
    let rest := dispatchRest k frame
    some (record rest.1 [] rest.2)

inductive Method where
  | status
  | syscalls
  | traceDump
  | syscall
  deriving DecidableEq

def klcsWord : Str := [107, 108, 99, 115]

/-- "status", "syscalls", "trace.dump" and "syscall". -/
def Method.name : Method → Str
  | .status => [115, 116, 97, 116, 117, 115]
  | .syscalls => [115, 121, 115, 99, 97, 108, 108, 115]
  | .traceDump => [116, 114, 97, 99, 101, 46, 100, 117, 109, 112]
  | .syscall => [115, 121, 115, 99, 97, 108, 108]

/-- The status of a handler, the bytes that it produced, what it printed and the state. -/
structure Handled where
  status : ℤ
  out : List UInt8
  printed : Str
  state : KlcsState

def klcsCopyTextResponse (outLen : Option ℕ) (fill : ℕ → Str) : Handled :=
  match outLen with
  | none => ⟨errInval, [], [], k⟩
  | some n => ⟨0, fill n ++ [0], [], k⟩

def klcsSyscallCall (mem : KernelMemory) (input : List UInt8) (outLen : Option ℕ) :
    Option Handled :=
  if input.length < frameSize ∨ outLen.getD 0 < 8 then some ⟨errInval, [], [], k⟩
  else (klcsDispatchSyscall k mem input).map fun d => ⟨0, encode64 d.result, d.printed, d.state⟩

def Method.handler (mem : KernelMemory) (input : List UInt8) (outLen : Option ℕ) :
    Method → Option Handled
  | .status => some (klcsCopyTextResponse k outLen (klcsStatus k))
  | .syscalls => some (klcsCopyTextResponse k outLen klcsSyscalls)
  | .traceDump => some (klcsCopyTextResponse k outLen (klcsTraceDump k))
  | .syscall => klcsSyscallCall k mem input outLen

/-- What the caller and the user at the terminal see, and the state. -/
structure CallOutcome where
  status : ℤ
  written : Option (UInt64 × List UInt8)
  terminal : Str
  state : KlcsState

/-- The gate, the entries of the methods in the table of calls, the state of KLCS, and what the calls
of other services do. -/
structure Kernel where
  gate : Gate
  entry : Method → Option CallEntry
  klcs : KlcsState
  other : Services.StagedCall → Option ℕ → Option CallOutcome

def methodOf (service method : Str) : Option Method :=
  if service = klcsWord then
    [Method.status, .syscalls, .traceDump, .syscall].find? fun m => m.name == method
  else none

/-- The end of `syscall_service_call`. -/
def delivered (gate : Gate) (c : UserCall) (h : Handled) : CallOutcome :=
  if h.status < 0 then ⟨h.status, none, h.printed, h.state⟩
  else if h.out.length > c.responseLen.toNat then ⟨errOverflow, none, h.printed, h.state⟩
  else if userWrite gate.memory c.response h.out = false then
    ⟨errFault, none, h.printed, h.state⟩
  else ⟨h.status, some (c.response, h.out), h.printed, h.state⟩

def serviceCall (mem : KernelMemory) (k : Kernel) (c : UserCall) : Option CallOutcome :=
  match stage k.gate c with
  | .error status => some ⟨status, none, [], k.klcs⟩
  | .ok staged =>
    match methodOf staged.service staged.method with
    | none => k.other staged c.outLen
    | some m =>
      if dispatchGate (k.entry m) 0 ≠ 0 then some ⟨dispatchGate (k.entry m) 0, none, [], k.klcs⟩
      else (m.handler k.klcs mem staged.input c.outLen).map (delivered k.gate c)

/-- Response, terminal output and return code. -/
def CallOutcome.seen (o : CallOutcome) : ℤ × Option (UInt64 × List UInt8) × Str :=
  (o.status, o.written, o.terminal)

variable (kernel : Kernel) (own : Set UInt64) (mem : KernelMemory) (c : UserCall)

/-- The two names of the call are `klcs` and the method. -/
structure KlcsCall (m : Method) : Prop where
  service : copyUserServiceName kernel.gate.memory c.service serviceCallOwnerMax = .ok klcsWord
  method : copyUserServiceName kernel.gate.memory c.method serviceCallNameMax = .ok m.name

/-- Memory that is not the caller's, not the state of KLCS and not a staging buffer makes no
difference. -/
def Isolated : Prop :=
  ∀ mem' : KernelMemory, (∀ a ∈ own, mem' a = mem a) →
    (serviceCall mem' kernel c).map CallOutcome.seen = (serviceCall mem kernel c).map CallOutcome.seen

/-- The write that the call gets to in the dispatcher. -/
def writeReached (m : Method) : Option (UInt64 × ℕ) :=
  match stage kernel.gate c with
  | .error _ => none
  | .ok staged =>
    if m = .syscall ∧ dispatchGate (kernel.entry m) 0 = 0 ∧ frameSize ≤ staged.input.length ∧
        8 ≤ c.outLen.getD 0 then writeOf staged.input
    else none

/-- The characters up to the first zero are in that memory. -/
def ReadsOwn (p : UInt64) (n : ℕ) : Prop :=
  ∀ i < n, (∀ j < i, ∃ b, mem (p + UInt64.ofNat j) = some b ∧ b ≠ 0) →
    p + UInt64.ofNat i ∈ own

variable {kernel own mem c} {mem' : KernelMemory}

theorem address_succ (p : UInt64) (i : ℕ) :
    p + UInt64.ofNat (i + 1) = (p + 1) + UInt64.ofNat i := by
  rw [UInt64.ofNat_add, UInt64.add_comm (UInt64.ofNat i), ← UInt64.add_assoc]
  rfl

theorem address_ne (p : UInt64) {i : ℕ} (h : i + 1 < 2 ^ 64) : p + UInt64.ofNat (i + 1) ≠ p := by
  intro heq
  have hnat := congrArg UInt64.toNat heq
  rw [UInt64.toNat_add, UInt64.toNat_ofNat'] at hnat
  have hlt := p.toNat_lt
  omega

theorem address_zero (p : UInt64) : p + UInt64.ofNat 0 = p := UInt64.add_zero p

theorem printLoop_congr (n : ℕ) : ∀ p : UInt64,
    (∀ i < n, (∀ j < i, ∃ b, mem (p + UInt64.ofNat j) = some b ∧ b ≠ 0) →
      mem' (p + UInt64.ofNat i) = mem (p + UInt64.ofNat i)) →
    printLoop mem' p n = printLoop mem p n := by
  induction n with
  | zero => exact fun _ _ => rfl
  | succ n ih =>
    intro p h
    have hfirst := h 0 (Nat.succ_pos n) nofun
    rw [address_zero] at hfirst
    rw [printLoop, printLoop, hfirst]
    rcases hp : mem p with _ | b
    · rfl
    · dsimp only
      split
      · rfl
      · rename_i hb
        rw [ih (p + 1) fun i hi hbefore => ?_]
        rw [← address_succ]
        refine h (i + 1) (Nat.succ_lt_succ hi) fun j hj => ?_
        cases j with
        | zero => exact ⟨b, by rw [address_zero, hp], hb⟩
        | succ j =>
          rw [address_succ]
          exact hbefore j (Nat.lt_of_succ_lt_succ hj)

def altered (mem : KernelMemory) (a : UInt64) : KernelMemory :=
  Function.update mem a (if mem a = some 0 then none else some 0)

theorem printLoop_altered (i : ℕ) : ∀ (n : ℕ) (p : UInt64), i < n → i < 2 ^ 64 →
    (∀ j < i, ∃ b, mem (p + UInt64.ofNat j) = some b ∧ b ≠ 0) →
    printLoop (altered mem (p + UInt64.ofNat i)) p n ≠ printLoop mem p n := by
  induction i with
  | zero =>
    intro n p hn _ _
    obtain ⟨n, rfl⟩ := Nat.exists_eq_succ_of_ne_zero (Nat.ne_of_gt hn)
    rw [address_zero, printLoop, printLoop, altered, Function.update_self]
    rcases hp : mem p with _ | b
    · simp
    · by_cases hb : b = 0
      · subst hb
        simp
      · simp [hb]
  | succ i ih =>
    intro n p hn hlt hbefore
    obtain ⟨n, rfl⟩ := Nat.exists_eq_succ_of_ne_zero (Nat.ne_of_gt (Nat.zero_lt_of_lt hn))
    obtain ⟨b, hb, hne⟩ := hbefore 0 (Nat.succ_pos i)
    rw [address_zero] at hb
    have hsame : altered mem (p + UInt64.ofNat (i + 1)) p = some b := by
      rw [altered, Function.update_of_ne (address_ne p hlt).symm, hb]
    have hrest := ih n (p + 1) (Nat.lt_of_succ_lt_succ hn) (Nat.lt_of_succ_lt hlt) fun j hj => by
      rw [← address_succ]
      exact hbefore (j + 1) (Nat.succ_lt_succ hj)
    rw [printLoop, printLoop, hsame, hb]
    dsimp only
    rw [if_neg hne, if_neg hne, address_succ]
    exact fun heq => hrest (Option.map_injective (List.cons_injective) heq)

variable {frame : List UInt8}

theorem dispatch_none (mem mem') (k : KlcsState) (h : writeOf frame = none) :
    klcsDispatchSyscall k mem' frame = klcsDispatchSyscall k mem frame := by
  rw [klcsDispatchSyscall, klcsDispatchSyscall, h]

theorem dispatch_some (k : KlcsState) {p : UInt64} {n : ℕ}
    (h : writeOf frame = some (p, n)) : ∃ record : Str → Dispatched,
      (∀ text, (record text).printed = text) ∧
      ∀ mem, klcsDispatchSyscall k mem frame = (printLoop mem p n).map record := by
  simp only [klcsDispatchSyscall, h]
  exact ⟨_, fun _ => rfl, fun _ => rfl⟩

theorem writeOf_lt {p : UInt64} {n : ℕ} (h : writeOf frame = some (p, n)) :
    n < 4096 := by
  rw [writeOf] at h
  split at h
  · rename_i hwrite
    cases h
    exact UInt64.lt_iff_toNat_lt.1 hwrite.2.2.2
  · cases h

theorem methodOf_name (m : Method) : methodOf klcsWord m.name = some m := by
  cases m <;> decide

theorem stage_names {m : Method} (h : KlcsCall kernel c m) {staged : Services.StagedCall}
    (hstage : stage kernel.gate c = .ok staged) :
    staged.service = klcsWord ∧ staged.method = m.name := by
  rw [stage, h.service, h.method] at hstage
  simp only [bind, Except.bind, pure, Except.pure, throw, throwThe, MonadExceptOf.throw] at hstage
  repeat' split at hstage
  all_goals first
    | (cases hstage; exact ⟨rfl, rfl⟩)
    | cases hstage

theorem delivered_terminal (gate : Gate) (c : UserCall) (h : Handled) :
    (delivered gate c h).terminal = h.printed := by
  rw [delivered]
  repeat' split
  all_goals rfl

theorem syscallCall_cases (k : KlcsState) (input : List UInt8) (outLen : Option ℕ) :
    (¬ (frameSize ≤ input.length ∧ 8 ≤ outLen.getD 0) ∨ writeOf input = none) ∧
      (∀ mem mem', klcsSyscallCall k mem' input outLen = klcsSyscallCall k mem input outLen) ∨
    (frameSize ≤ input.length ∧ 8 ≤ outLen.getD 0) ∧
      ∃ p n, writeOf input = some (p, n) ∧ ∃ handled : Str → Handled,
        (∀ text, (handled text).printed = text) ∧
        ∀ mem, klcsSyscallCall k mem input outLen = (printLoop mem p n).map handled := by
  by_cases hshort : input.length < frameSize ∨ outLen.getD 0 < 8
  · refine Or.inl ⟨Or.inl fun h => ?_, fun mem mem' => ?_⟩
    · omega
    · rw [klcsSyscallCall, klcsSyscallCall, if_pos hshort, if_pos hshort]
  · have hlong : frameSize ≤ input.length ∧ 8 ≤ outLen.getD 0 := by omega
    rcases hwrite : writeOf input with _ | ⟨p, n⟩
    · refine Or.inl ⟨Or.inr rfl, fun mem mem' => ?_⟩
      rw [klcsSyscallCall, klcsSyscallCall, if_neg hshort, if_neg hshort,
        dispatch_none mem _ k hwrite]
    · obtain ⟨record, hprinted, hrecord⟩ := dispatch_some k hwrite
      refine Or.inr ⟨hlong, p, n, rfl, fun text => ⟨0, encode64 (record text).result,
        (record text).printed, (record text).state⟩, hprinted, fun mem => ?_⟩
      rw [klcsSyscallCall, if_neg hshort, hrecord, Option.map_map]
      rfl

theorem serviceCall_cases {m : Method} (h : KlcsCall kernel c m) :
    writeReached kernel c m = none ∧ (∀ mem mem', serviceCall mem' kernel c =
      serviceCall mem kernel c) ∨
    ∃ p n, writeReached kernel c m = some (p, n) ∧ n < 4096 ∧ ∃ outcome : Str → CallOutcome,
      (∀ mem, serviceCall mem kernel c = (printLoop mem p n).map outcome) ∧
      ∀ text, (outcome text).terminal = text := by
  simp only [writeReached, serviceCall]
  rcases hstage : stage kernel.gate c with status | staged
  · exact Or.inl ⟨rfl, fun _ _ => rfl⟩
  obtain ⟨hservice, hmethod⟩ := stage_names h hstage
  dsimp only
  rw [hservice, hmethod, methodOf_name]
  dsimp only
  by_cases hgate : dispatchGate (kernel.entry m) 0 = 0
  swap
  · rw [if_neg fun hwrite => hgate hwrite.2.1]
    refine Or.inl ⟨rfl, fun _ _ => ?_⟩
    rw [if_pos hgate, if_pos hgate]
  simp only [hgate, ne_eq, not_true_eq_false, if_false]
  cases m with
  | syscall =>
    rcases syscallCall_cases kernel.klcs staged.input c.outLen with
      ⟨hnone, hsame⟩ | ⟨hlong, p, n, hwrite, handled, hprinted, hcall⟩
    · refine Or.inl ⟨?_, fun mem mem' => ?_⟩
      · split
        · rename_i hreached
          exact hnone.resolve_left fun hnot => hnot hreached.2.2
        · rfl
      · simp only [Method.handler]
        rw [hsame mem mem']
    · refine Or.inr ⟨p, n, ?_, writeOf_lt hwrite, fun text => delivered kernel.gate c
        (handled text), fun mem => ?_, fun text => ?_⟩
      · rw [if_pos ⟨rfl, trivial, hlong⟩, hwrite]
      · simp only [Method.handler]
        rw [hcall, Option.map_map]
        rfl
      · rw [delivered_terminal, hprinted]
  | _ => exact Or.inl ⟨if_neg fun hwrite => (nomatch hwrite.1), fun _ _ => rfl⟩

/-- Whatever is not the caller's makes no difference to a call exactly if the call writes nothing
through the dispatcher, or only what is the caller's. -/
theorem call_isolated_iff {m : Method} (h : KlcsCall kernel c m) :
    Isolated kernel own mem c ↔
      ∀ p n, writeReached kernel c m = some (p, n) → ReadsOwn own mem p n := by
  rcases serviceCall_cases h with ⟨hnone, hsame⟩ | ⟨p, n, hsome, hn, outcome, hcall, hterminal⟩
  · rw [hnone]
    exact ⟨fun _ => nofun, fun _ mem' _ => by rw [hsame mem mem']⟩
  · have hseen : Function.Injective fun text => (outcome text).seen := by
      intro text text' heq
      have hthird := congrArg (fun o => o.2.2) heq
      exact (hterminal text).symm.trans (hthird.trans (hterminal text'))
    have hmap : ∀ mem, (serviceCall mem kernel c).map CallOutcome.seen =
        (printLoop mem p n).map fun text => (outcome text).seen := by
      intro mem
      rw [hcall, Option.map_map]
      rfl
    rw [hsome]
    constructor
    · rintro hiso _ _ ⟨⟩ i hi hbefore
      by_contra hforeign
      have hagree : ∀ a ∈ own, altered mem (p + UInt64.ofNat i) a = mem a := by
        intro a ha
        rw [altered, Function.update_of_ne]
        rintro rfl
        exact hforeign ha
      have heq := hiso _ hagree
      rw [hmap, hmap] at heq
      exact printLoop_altered i n p hi (by omega) hbefore (Option.map_injective hseen heq)
    · intro hreads mem' hagree
      rw [hmap, hmap, printLoop_congr n p fun i hi hbefore => ?_]
      exact hagree _ (hreads p n rfl i hi hbefore)

/-- A write of one byte at 4096 to descriptor 1. -/
def writeFrame : List UInt8 :=
  ByteCodec.leBytes 8 1 ++ ByteCodec.leBytes 8 1 ++ ByteCodec.leBytes 8 4096 ++
    ByteCodec.leBytes 8 1 ++ List.replicate 56 0

/-- The caller's memory holds the two names and the frame from 1 on. -/
def frameMemory : Services.UserMemory where
  read addr size :=
    some (((klcsWord ++ 0 :: Method.syscall.name ++ 0 :: writeFrame).drop (addr.toNat - 1)).take size)
  writable _ _ := true

/-- The service runs, with all its methods in the table of calls. -/
def klcsKernel : Kernel where
  gate := { Services.recvGate true with memory := frameMemory }
  entry _ := some ⟨some ⟨true, true, false, false⟩, Services.callFlagUserAllowed⟩
  klcs := ⟨0, 0, false, fun _ => [], 0, standardFds⟩
  other _ _ := none

def frameCall : UserCall := ⟨1, 6, 14, 88, 200, 8⟩

/-- The answer of a write whose byte is the caller's own. -/
theorem own_byte_isolated : Isolated klcsKernel {a | a = 4096} (fun _ => some 65) frameCall := by
  refine (call_isolated_iff (m := .syscall) ⟨by decide +kernel, by decide +kernel⟩).2 ?_
  intro p n hreached i hi hbefore
  have hwrite : writeReached klcsKernel frameCall .syscall = some (4096, 1) := by decide +kernel
  rw [hwrite] at hreached
  cases hreached
  obtain rfl : i = 0 := Nat.lt_one_iff.1 hi
  rfl

theorem kernel_byte_printed : ¬ ∀ (kernel : Kernel) (own : Set UInt64) (mem : KernelMemory)
    (c : UserCall) (m : Method), KlcsCall kernel c m → Isolated kernel own mem c := by
  intro h
  have hsame := h klcsKernel ∅ (fun _ => some 65) frameCall .syscall
    ⟨by decide +kernel, by decide +kernel⟩ (fun _ => some 66) nofun
  revert hsame
  decide +kernel

end Klcs
