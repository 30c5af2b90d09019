import K64.KlcsAccess
import K64.RunPrefixes

/-! # Descriptors of Linux programs

There is one table for all Linux programs. `klcs_init` sets it up when the service starts, and
neither the start nor the end of a program looks at it. -/
namespace Klcs

def toInt (n : UInt64) : ℤ :=
  if n.toNat % 2 ^ 32 < 2 ^ 31 then n.toNat % 2 ^ 32 else n.toNat % 2 ^ 32 - 2 ^ 32

variable {V : Type} (fs : FileSystem V)

/-- "stdin", "stdout" and "stderr". -/
def standardFds : ℕ → Option Fd
  | 0 => some ⟨.stdin, [115, 116, 100, 105, 110], 0, 0⟩
  | 1 => some ⟨.stdout, [115, 116, 100, 111, 117, 116], 0, 0⟩
  | 2 => some ⟨.stderr, [115, 116, 100, 101, 114, 114], 0, 0⟩
  | _ => none

def klcsInit (s : State V) : State V := { s with fds := standardFds }

def klcsFdClose (s : State V) (fd : ℤ) : Bool × State V :=
  if fd < 0 ∨ fd ≥ klcsLinuxFdMax ∨ fd < 3 ∨ (s.fds fd.toNat).isNone then (false, s)
  else (true, { s with fds := Function.update s.fds fd.toNat none })

/-- Number 3 of `klcs_dispatch_syscall`. -/
def linuxClose (s : State V) (fd : UInt64) : Outcome V :=
  let closed := klcsFdClose s (toInt fd)
  ⟨if closed.1 then 0 else -ebadf, closed.2, []⟩

/-- `linux_lseek`, `linux_getdents64` and `linux_fcntl` change nothing else of a used descriptor. -/
def adjustFd (s : State V) (fd offset flags : UInt64) : State V :=
  match usedFd s fd with
  | none => s
  | some desc =>
    { s with fds := Function.update s.fds fd.toNat (some { desc with offset, flags }) }

/-- The Linux programs in progress, the one in ring 3 first, the number of the next one, and by which
program a descriptor was opened that nobody has closed since. -/
structure Programs (V : Type) where
  state : State V
  running : List ℕ
  nextPid : ℕ
  opener : ℕ → Option ℕ

/-- A Linux program that is entered from the shell or inside a call of the running one, the calls of
the one in ring 3, a call of `klcs.syscall` with number 3, the end of the one in ring 3 by `exit`,
`exit_group` or a fault, and a start of the service. A failed load changes nothing. -/
inductive Event where
  | start
  | call (m : Memory) (c : Call)
  | close (fd : UInt64)
  | adjust (fd offset flags : UInt64)
  | serviceClose (fd : UInt64)
  | exit
  | serviceStart

/-- A successful `open` or `openat` by the program. -/
def noteOpen (opener : ℕ → Option ℕ) (pid : ℕ) (c : Call) (result : ℤ) : ℕ → Option ℕ :=
  match c with
  | .open _ _ => if 0 ≤ result then Function.update opener result.toNat (some pid) else opener
  | _ => opener

def noteClose (opener : ℕ → Option ℕ) (fd : UInt64) (result : ℤ) : ℕ → Option ℕ :=
  if result = 0 then Function.update opener (toInt fd).toNat none else opener

def Programs.close (p : Programs V) (fd : UInt64) : Programs V :=
  let r := linuxClose p.state fd
  { p with state := r.state, opener := noteClose p.opener fd r.result }

def step (p : Programs V) : Event → Programs V
  | .start => { p with running := p.nextPid :: p.running, nextPid := p.nextPid + 1 }
  | .call m c =>
    match p.running with
    | [] => p
    | pid :: _ =>
      let r := c.run fs m p.state
      { p with state := r.state, opener := noteOpen p.opener pid c r.result }
  | .close fd =>
    match p.running with
    | [] => p
    | _ :: _ => p.close fd
  | .adjust fd offset flags =>
    match p.running with
    | [] => p
    | _ :: _ => { p with state := adjustFd p.state fd offset flags }
  | .serviceClose fd => p.close fd
  | .exit => { p with running := p.running.tail }
  | .serviceStart => { p with state := klcsInit p.state, opener := fun _ => none }

/-- The service has started and no program has run. -/
def afterStart (volume : V) : Programs V where
  state := ⟨volume, standardFds⟩
  running := []
  nextPid := 0
  opener _ := none

def run (volume : V) (events : List Event) : Programs V :=
  events.foldl (step fs) (afterStart volume)

/-- The descriptors are those of the program in ring 3; without a program there are only the standard
ones, and an `open` finds no place only where one program has opened all there are. -/
structure Separate (p : Programs V) : Prop where
  own : ∀ pid ∈ p.running.head?, ∀ fd, 3 ≤ fd → fd < klcsLinuxFdMax → p.state.fds fd ≠ none →
    p.opener fd = some pid
  empty : p.running = [] → ∀ fd, 3 ≤ fd → fd < klcsLinuxFdMax → p.state.fds fd = none
  full : ∀ pid ∈ p.running.head?, ∀ kind path, (klcsFdAlloc p.state kind path).1 = none →
    ∀ fd, 3 ≤ fd → fd < klcsLinuxFdMax → p.opener fd = some pid

def AllClosed (p : Programs V) : Prop :=
  ∀ fd, 3 ≤ fd → fd < klcsLinuxFdMax → p.state.fds fd = none

/-- A program has closed what it opened before another one starts inside its calls, and before it
ends. -/
def Tidy (p : Programs V) : Event → Prop
  | .start | .exit => AllClosed p
  | _ => True

variable {fs} {s t : State V} {m : Memory}

def SameNumbers (s t : State V) : Prop := ∀ fd, t.fds fd = none ↔ s.fds fd = none

theorem SameNumbers.refl (s : State V) : SameNumbers s s := fun _ => Iff.rfl

theorem SameNumbers.trans {u : State V} (h : SameNumbers s t) (h' : SameNumbers t u) :
    SameNumbers s u := fun fd => (h' fd).trans (h fd)

theorem sameNumbers_volume (s : State V) (volume : V) : SameNumbers s { s with volume } :=
  fun _ => Iff.rfl

theorem usedFd_some {fd : UInt64} {desc : Fd} (h : usedFd s fd = some desc) :
    s.fds fd.toNat = some desc := by
  rw [usedFd] at h
  split at h
  · exact h
  · cases h

theorem sameNumbers_update {fd : ℕ} {desc new : Fd} (h : s.fds fd = some desc) :
    SameNumbers s { s with fds := Function.update s.fds fd (some new) } := by
  intro i
  rcases eq_or_ne i fd with rfl | hne
  · simp [h]
  · simp only [Function.update_of_ne hne]

theorem adjustFd_numbers (fd offset flags : UInt64) : SameNumbers s (adjustFd s fd offset flags) := by
  rw [adjustFd]
  split
  · exact SameNumbers.refl s
  · rename_i hused
    exact sameNumbers_update (usedFd_some hused)

theorem setOffset_numbers {fd : UInt64} {desc : Fd} (h : usedFd s fd = some desc) (offset : UInt64) :
    SameNumbers s (s.setOffset fd desc offset) := sameNumbers_update (usedFd_some h)

theorem read_numbers (fd p len : UInt64) : SameNumbers s (linuxFdRead fs m s fd p len).state := by
  rw [linuxFdRead]
  split
  · exact SameNumbers.refl s
  · split
    · exact SameNumbers.refl s
    · rename_i hused
      split
      · rw [linuxStdinRead_state.1]
        exact SameNumbers.refl s
      · rw [readZeros_state.1]
        exact SameNumbers.refl s
      · rw [readZeros_state.1]
        exact SameNumbers.refl s
      · exact setOffset_numbers hused _
      · exact SameNumbers.refl s

theorem pread_numbers (fd p len offset : UInt64) :
    SameNumbers s (linuxFdPread fs m s fd p len offset).state := by
  rw [linuxFdPread]
  repeat' split
  all_goals first
    | exact SameNumbers.refl s
    | (rw [readZeros_state.1]; exact SameNumbers.refl s)

theorem write_numbers (fd p len : UInt64) :
    SameNumbers s (linuxWriteUserBuffer fs m s fd p len).state := by
  rw [linuxWriteUserBuffer]
  split
  · exact SameNumbers.refl s
  · dsimp only
    split
    · split
      · exact SameNumbers.refl s
      · rename_i hused
        split
        · exact SameNumbers.refl s
        · exact (setOffset_numbers hused _).trans (sameNumbers_volume _ _)
        · exact SameNumbers.refl s
    · split
      · exact SameNumbers.refl s
      · split <;> exact SameNumbers.refl s

theorem writev_numbers (fd iov : UInt64) (n : ℕ) : ∀ (i : UInt64) (total : ℤ) (s : State V),
    SameNumbers s (writevFrom fs m fd iov n i total s).state := by
  induction n with
  | zero => exact fun _ _ s => SameNumbers.refl s
  | succ n ih =>
    intro i total s
    rw [writevFrom]
    split
    · rename_i base len _ _
      have hwrite : SameNumbers s (linuxWriteUserBuffer fs m s fd base len).state :=
        write_numbers fd base len
      dsimp only
      split
      · exact hwrite
      · split
        · exact hwrite
        · exact hwrite.trans (ih _ _ _)
    · exact SameNumbers.refl s

theorem pwrite_numbers (fd p len offset : UInt64) :
    SameNumbers s (linuxFdPwrite fs m s fd p len offset).state := by
  rw [linuxFdPwrite]
  repeat' split
  all_goals exact SameNumbers.refl s

theorem withPath_numbers {p : UInt64} {call : Str → Outcome V}
    (h : ∀ path, SameNumbers s (call path).state) : SameNumbers s (withPath m s p call).state := by
  rw [withPath]
  split
  · exact SameNumbers.refl s
  · split
    · exact SameNumbers.refl s
    · exact h _

theorem onFile_numbers {fd : UInt64} {call : Str → Outcome V}
    (h : ∀ path, SameNumbers s (call path).state) : SameNumbers s (onFile s fd call).state := by
  rw [onFile]
  split
  · exact SameNumbers.refl s
  · split
    · exact h _
    · exact SameNumbers.refl s

theorem rename_numbers (oldPtr newPtr : UInt64) :
    SameNumbers s (linuxRename fs m s oldPtr newPtr).state := by
  rw [linuxRename]
  split
  · split
    · exact sameNumbers_volume s _
    · exact SameNumbers.refl s
  · exact SameNumbers.refl s

theorem call_numbers (fs m) (c : Call) (hopen : ∀ p flags, c ≠ .open p flags) :
    SameNumbers s (c.run fs m s).state := by
  have hchanged : ∀ r errno, SameNumbers s (changed s r errno).state :=
    fun r _ => sameNumbers_volume s r.2
  cases c with
  | read fd p len => exact read_numbers fd p len
  | write fd p len => exact write_numbers fd p len
  | writev fd iov count =>
    rw [Call.run, linuxWritev]
    split
    · exact SameNumbers.refl s
    · exact writev_numbers fd iov _ _ _ s
  | «open» p flags => exact absurd rfl (hopen p flags)
  | pread fd p len offset => exact pread_numbers fd p len offset
  | pwrite fd p len offset => exact pwrite_numbers fd p len offset
  | ftruncate fd size => exact onFile_numbers fun path => hchanged _ _
  | rename oldPtr newPtr => exact rename_numbers oldPtr newPtr
  | mkdir p =>
    refine withPath_numbers fun path => ?_
    split
    · exact SameNumbers.refl s
    · exact hchanged _ _
  | rmdir p => exact withPath_numbers fun path => hchanged _ _
  | unlink p => exact withPath_numbers fun path => hchanged _ _
  | unlinkat p flags =>
    rw [Call.run]
    split <;> exact withPath_numbers fun path => hchanged _ _
  | chmod p mode => exact withPath_numbers fun path => hchanged _ _
  | fchmod fd mode => exact onFile_numbers fun path => hchanged _ _

/-- An `open` takes one free number into use, the one it returns, or none. -/
structure OpensAt (s : State V) (r : Outcome V) : Prop where
  numbers : ∀ fd, r.state.fds fd ≠ none → s.fds fd ≠ none ∨ 0 ≤ r.result ∧ r.result.toNat = fd

theorem opensAt_same {r : Outcome V} (h : SameNumbers s r.state) : OpensAt s r :=
  ⟨fun fd hfd => Or.inl fun hs => hfd ((h fd).2 hs)⟩

theorem OpensAt.volume {volume : V} {r : Outcome V} (h : OpensAt { s with volume } r) :
    OpensAt s r := ⟨h.numbers⟩

theorem opensAt_update (s : State V) (i : ℕ) (desc : Fd) :
    OpensAt s ⟨i, { s with fds := Function.update s.fds i (some desc) }, []⟩ := by
  refine ⟨fun fd hfd => ?_⟩
  rcases eq_or_ne fd i with rfl | hne
  · exact Or.inr ⟨Int.natCast_nonneg _, Int.toNat_natCast _⟩
  · exact Or.inl (by simpa only [Function.update_of_ne hne] using hfd)

theorem allocated_opensAt (s : State V) (kind : FdKind) (path : Str) :
    OpensAt s (allocated (klcsFdAlloc s kind path)) := by
  rw [klcsFdAlloc]
  split
  · exact opensAt_same (SameNumbers.refl s)
  · exact opensAt_update s _ _

theorem openFile_opensAt (s : State V) (path : Str) (flags : UInt64) :
    OpensAt s (openFile fs s path flags) := by
  rw [openFile, klcsFdAlloc]
  split
  · rename_i hnone
    split at hnone
    · exact opensAt_same (SameNumbers.refl s)
    · cases hnone
  · exact opensAt_update s _ _

theorem open_opensAt (s : State V) (path : Str) (flags : UInt64) :
    OpensAt s (linuxFdOpenPath fs s path flags) := by
  rw [linuxFdOpenPath]
  split
  · exact allocated_opensAt s _ _
  split
  · exact allocated_opensAt s _ _
  dsimp only
  split
  · exact opensAt_same (sameNumbers_volume s _)
  · split
    · split
      · exact opensAt_same (sameNumbers_volume s _)
      · exact (allocated_opensAt _ _ _).volume
    · generalize (if flags &&& 512 = 0 then (true, (findOrMake fs s path flags).2)
        else fs.writeFileRaw (findOrMake fs s path flags).2 path) = emptied
      split
      · exact (openFile_opensAt _ _ _).volume
      · exact opensAt_same (sameNumbers_volume s _)

theorem call_opensAt (fs m) (p flags : UInt64) : OpensAt s ((Call.open p flags).run fs m s) := by
  rw [Call.run, linuxSysOpen, withPath]
  split
  · exact opensAt_same (SameNumbers.refl s)
  · split
    · exact opensAt_same (SameNumbers.refl s)
    · exact open_opensAt s _ flags

variable {p : Programs V} {e : Event} {opener : ℕ → Option ℕ} {pid : ℕ}

def OwnedBy (fds : ℕ → Option Fd) (opener : ℕ → Option ℕ) (pid : ℕ) : Prop :=
  ∀ fd, 3 ≤ fd → fd < klcsLinuxFdMax → fds fd ≠ none → opener fd = some pid

theorem owned_call (h : OwnedBy s.fds opener pid) (c : Call) :
    OwnedBy (c.run fs m s).state.fds (noteOpen opener pid c (c.run fs m s).result) pid := by
  intro fd hlo hhi hused
  by_cases hopen : ∃ p flags, c = .open p flags
  · obtain ⟨p, flags, rfl⟩ := hopen
    rw [noteOpen]
    rcases (call_opensAt fs m p flags).numbers fd hused with hs | ⟨hok, heq⟩
    · split
      · rcases eq_or_ne fd ((Call.open p flags).run fs m s).result.toNat with heq | hne
        · rw [← heq, Function.update_self]
        · rw [Function.update_of_ne hne]
          exact h fd hlo hhi hs
      · exact h fd hlo hhi hs
    · rw [if_pos hok, heq, Function.update_self]
  · have hnot : ∀ p flags, c ≠ .open p flags := fun p flags heq => hopen ⟨p, flags, heq⟩
    have hsame := call_numbers fs m (s := s) c hnot fd
    have hs : s.fds fd ≠ none := fun hnone => hused (hsame.2 hnone)
    cases c with
    | «open» p flags => exact absurd rfl (hnot p flags)
    | _ => exact h fd hlo hhi hs

theorem close_cases (p : Programs V) (fd : UInt64) : p.close fd = p ∨
    ∃ i, (p.close fd).state.fds = Function.update p.state.fds i none ∧
      (p.close fd).opener = Function.update p.opener i none ∧
      (p.close fd).running = p.running ∧ (p.close fd).nextPid = p.nextPid := by
  rw [Programs.close, linuxClose, klcsFdClose]
  split
  · exact Or.inl rfl
  · exact Or.inr ⟨(toInt fd).toNat, rfl, rfl, rfl, rfl⟩

theorem owned_close (h : OwnedBy p.state.fds p.opener pid) (fd : UInt64) :
    OwnedBy (p.close fd).state.fds (p.close fd).opener pid := by
  obtain heq | ⟨i, hfds, hopener, -⟩ := close_cases p fd
  · rwa [heq]
  · intro j hlo hhi hused
    rw [hfds] at hused
    rw [hopener]
    rcases eq_or_ne j i with rfl | hne
    · exact absurd (Function.update_self _ _ _) hused
    · rw [Function.update_of_ne hne] at hused ⊢
      exact h j hlo hhi hused

theorem standardFds_closed {fd : ℕ} (h : 3 ≤ fd) : standardFds fd = none := by
  match fd, h with
  | _ + 3, _ => rfl

theorem closed_close (h : AllClosed p) (fd : UInt64) : AllClosed (p.close fd) := by
  obtain heq | ⟨i, hfds, -⟩ := close_cases p fd
  · rwa [heq]
  · intro j hlo hhi
    rw [hfds]
    rcases eq_or_ne j i with rfl | hne
    · exact Function.update_self _ _ _
    · rw [Function.update_of_ne hne]
      exact h j hlo hhi

theorem separate_of_owned (hown : ∀ pid ∈ p.running.head?, OwnedBy p.state.fds p.opener pid)
    (hempty : p.running = [] → AllClosed p) : Separate p := by
  refine ⟨hown, hempty, fun pid hpid kind path hfull fd hlo hhi => hown pid hpid fd hlo hhi ?_⟩
  rw [klcsFdAlloc] at hfull
  split at hfull
  · rename_i hnone
    intro hfree
    have hused := List.find?_eq_none.1 hnone fd (List.mem_range.2 hhi)
    simp [hlo, hfree] at hused
  · cases hfull

theorem step_separate (h : Separate p) (ht : Tidy p e) : Separate (step fs p e) := by
  have hvacuous : ∀ pid, AllClosed p → OwnedBy p.state.fds p.opener pid :=
    fun _ hc fd hlo hhi hused => absurd (hc fd hlo hhi) hused
  cases e with
  | start => exact separate_of_owned (fun _ _ => hvacuous _ ht) nofun
  | call m c =>
    rw [step]
    split
    · exact h
    · rename_i pid rest hrunning
      refine separate_of_owned (fun pid' hpid => ?_) fun hnone => ?_
      · have hhead := h.own pid' hpid
        rw [hrunning] at hpid
        cases hpid
        exact owned_call hhead c
      · rw [hrunning] at hnone
        cases hnone
  | close fd =>
    rw [step]
    split
    · exact h
    · rename_i pid rest hrunning
      have hsame : (p.close fd).running = p.running := rfl
      refine separate_of_owned (fun pid' hpid => owned_close (h.own pid' hpid) fd) fun hnone => ?_
      rw [hsame, hrunning] at hnone
      cases hnone
  | adjust fd offset flags =>
    rw [step]
    split
    · exact h
    · rename_i pid rest hrunning
      refine separate_of_owned (fun pid' hpid i hlo hhi hused => ?_) fun hnone => ?_
      · refine h.own pid' hpid i hlo hhi fun hfree => hused ?_
        exact (adjustFd_numbers fd offset flags i).2 hfree
      · rw [hrunning] at hnone
        cases hnone
  | serviceClose fd =>
    exact separate_of_owned (fun pid hpid => owned_close (h.own pid hpid) fd)
      fun hnone => closed_close (h.empty hnone) fd
  | exit => exact separate_of_owned (fun _ _ => hvacuous _ ht) fun _ => ht
  | serviceStart =>
    exact separate_of_owned (fun _ _ fd hlo _ hused => absurd (standardFds_closed hlo) hused)
      fun _ fd hlo _ => standardFds_closed hlo

def Numbered (p : Programs V) : Prop := (p.nextPid :: p.running).Pairwise (· > ·)

theorem step_numbered (h : Numbered p) : Numbered (step fs p e) := by
  have hrunning := List.pairwise_cons.1 h
  cases e with
  | start =>
    refine List.pairwise_cons.2 ⟨fun q hq => ?_, h⟩
    rcases List.mem_cons.1 hq with rfl | hq
    · exact Nat.lt_succ_self _
    · exact (hrunning.1 q hq).trans (Nat.lt_succ_self _)
  | exit =>
    exact List.pairwise_cons.2 ⟨fun q hq => hrunning.1 q (List.mem_of_mem_tail hq),
      hrunning.2.sublist (List.tail_sublist _)⟩
  | call m c =>
    rw [step]
    split <;> exact h
  | close fd =>
    rw [step]
    split <;> exact h
  | adjust fd offset flags =>
    rw [step]
    split <;> exact h
  | _ => exact h

theorem tidy_of_separate (h : Separate p) (hn : Numbered p) (ht : Separate (step fs p e)) :
    Tidy p e := by
  cases e with
  | start =>
    intro fd hlo hhi
    by_contra hused
    have hnew := ht.own p.nextPid rfl fd hlo hhi hused
    cases hrunning : p.running with
    | nil => exact hused (h.empty hrunning fd hlo hhi)
    | cons pid rest =>
      have hold := h.own pid (by rw [hrunning]; rfl) fd hlo hhi hused
      rw [Numbered, hrunning] at hn
      have hlt := (List.pairwise_cons.1 hn).1 pid List.mem_cons_self
      have heq : pid = p.nextPid := Option.some.inj (hold.symm.trans hnew)
      exact absurd heq (Nat.ne_of_lt hlt)
  | exit =>
    intro fd hlo hhi
    by_contra hused
    match hrunning : p.running with
    | [] => exact hused (h.empty hrunning fd hlo hhi)
    | [pid] =>
      exact hused (ht.empty (by rw [step, hrunning]; rfl) fd hlo hhi)
    | pid :: caller :: rest =>
      have hold := h.own pid (by rw [hrunning]; rfl) fd hlo hhi hused
      have hcaller := ht.own caller (by rw [step, hrunning]; rfl) fd hlo hhi hused
      rw [Numbered, hrunning] at hn
      have hlt := (List.pairwise_cons.1 (List.pairwise_cons.1 hn).2).1 caller List.mem_cons_self
      have heq : pid = caller := Option.some.inj (hold.symm.trans hcaller)
      exact absurd heq (Nat.ne_of_gt hlt)
  | _ => trivial

theorem afterStart_separate (volume : V) : Separate (afterStart volume) :=
  separate_of_owned nofun fun _ _ hlo _ => standardFds_closed hlo

/-- Descriptors belong to one program in a whole run exactly if every program closes its own before
it starts another one and before it ends. -/
theorem descriptors_separate_iff_tidy (fs : FileSystem V) (volume : V) (events : List Event) :
    (∀ n, Separate (run fs volume (events.take n))) ↔
      ∀ n e, events[n]? = some e → Tidy (run fs volume (events.take n)) e := by
  refine (RunPrefixes.forall_prefix_iff (afterStart_separate volume)).trans
    (RunPrefixes.law_iff_guarded (step fs) (fun p e => Separate (step fs p e)) (G := Tidy)
      (I := fun p => Separate p ∧ Numbered p)
      ⟨afterStart_separate volume, List.pairwise_singleton _ _⟩
      (fun p e h ht => ⟨step_separate h.1 ht, step_numbered h.2⟩) fun p e h => ?_)
  constructor
  · exact tidy_of_separate h.1 h.2
  · exact step_separate h.1

/-- A program opens a file and exits; the descriptor stays. -/
theorem descriptor_outlives_program : ¬ ∀ (V : Type) (fs : FileSystem V) (volume : V)
    (events : List Event), Separate (run fs volume events) := by
  intro h
  have hleft := (h Str (oneFile 0o644) [] [.start, .call pathMemory (.open 1 0), .exit]).empty rfl 3
    (by decide) (by decide)
  revert hleft
  decide +kernel

end Klcs
