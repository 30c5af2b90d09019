import K64.AccountAccess
import K64.ExitCodes

/-! # Credentials of spawned programs

The process slot of a queued child holds the ids of its parent. `elf_execute_impl_ex` does not look
at them: when the child is run, its file is checked against the session that is logged in then. -/
namespace SpawnCredentials
open UserMode

/-- `K64_ACCESS_READ | K64_ACCESS_EXEC`. -/
def accessReadExec : UInt32 := 5

/-- The check at the start of `elf_execute_impl_ex`. -/
def mayExecute (users : Accounts.UserState) (path : List UInt8) (st : Option Stat) : Bool :=
  match st with
  | none => false
  | some st => path != [] && Accounts.userCanAccess users st.uid st.gid st.mode accessReadExec

def currentSessionCreds (users : Accounts.UserState) : Creds where
  realUid := Accounts.userRealUid users
  effectiveUid := Accounts.userEffectiveUid users
  realGid := Accounts.userEffectiveGid users
  effectiveGid := Accounts.userEffectiveGid users

/-- The programs, the accounts with the session, what `k64_fs_stat` answers, and the credentials in
the process slot of a child when it was spawned. -/
structure System where
  machine : Machine
  users : Accounts.UserState
  stat : List UInt8 → Option Stat
  spawned : UInt64 → Option Creds

/-- Whether the image of a program event loads is now only about the image; the permission is checked
in the step. -/
inductive Event where
  | program (e : ProgramEvent)
  | command (c : Accounts.Command) (args : Accounts.Str)
  | beginSudoScope
  | endSudoScope
  | changeFiles (stat : List UInt8 → Option Stat)

def withImage (f : Image → Image) : ProgramEvent → ProgramEvent
  | .start x path => .start (f x) path
  | .host x path => .host (f x) path
  | .yield x => .yield (f x)
  | .wait x target flags => .wait (f x) target flags
  | .poll x => .poll (f x)
  | e => e

/-- The path that `elf_execute_impl_ex` is given. -/
def executedPath (m : Machine) (e : ProgramEvent) : List UInt8 :=
  match e with
  | .start _ path | .host _ path => path
  | e => (((childOf m e).bind fun c => findSpawnCtx m c.2.1).map fun k =>
      (m.spawnCtx k).path).getD []

variable (s : System)

/-- The programs see the ids of the session of the moment. -/
def System.kernel : Machine :=
  { s.machine with
    user := { s.machine.user with sessionCreds := currentSessionCreds s.users } }

def checkImage (path : List UInt8) (x : Image) : Image :=
  { x with loads := mayExecute s.users path (s.stat path) && x.loads }

def checked (e : ProgramEvent) : ProgramEvent :=
  withImage (checkImage s (executedPath s.kernel e)) e

/-- The number of a child that is queued in a step, with the credentials in its slot. -/
def spawnedBy (m : Machine) : ProgramEvent → Option (UInt64 × Creds)
  | .spawn path args =>
    let queued := queueSpawn m path args
    if queued.1 = errFull then none
    else (processFindUsed queued.2.user m.user.nextUserPid).map fun i =>
      (m.user.nextUserPid, (queued.2.user.processTable i).creds)
  | _ => none

def recordSpawn (spawned : UInt64 → Option Creds) :
    Option (UInt64 × Creds) → UInt64 → Option Creds
  | some (pid, creds) => Function.update spawned pid (some creds)
  | none => spawned

def step : Event → System
  | .program e => { s with
      machine := (stepProgram s.kernel (checked s e)).2
      spawned := recordSpawn s.spawned (spawnedBy s.kernel e) }
  | .command c args => { s with users := c.run s.users args }
  | .beginSudoScope => { s with users := Accounts.userBeginSudoScope s.users }
  | .endSudoScope => { s with users := Accounts.userEndSudoScope s.users }
  | .changeFiles stat => { s with stat }

def Possible : Event → Prop
  | .program e => PossibleNow s.machine e ∧ NumberLeft s.machine e
  | _ => True

/-- The states that are reached from one without processes, as long as there is a number left. -/
inductive Reaches : System → Prop where
  | boot (s : System) (processes : ∀ i, (s.machine.user.processTable i).used = false)
      (spawns : ∀ i, (s.machine.spawnCtx i).used = false) (idle : s.machine.runs = [])
      (locked : s.machine.schedulerUnlocked = false)
      (first : s.machine.user.nextUserPid = firstUserPid) : Reaches s
  | step {s : System} (e : Event) (h : Reaches s) (possible : Possible s e) : Reaches (step s e)

/-- The event runs the child that is queued at `k`, with that image. -/
def Attempts (e : ProgramEvent) (k : ℕ) (x : Image) : Prop :=
  ∃ pid parentPid, childOf s.kernel e = some (x, pid, parentPid) ∧
    findSpawnCtx s.kernel pid = some k ∧ (s.machine.spawnCtx k).parentPid = parentPid

def Loadable (x : Image) : Prop := x.loads = true ∧ s.machine.elfContextDepth < elfContextMax

/-- What `k64_user_can_access_uid` says about the file with these credentials. -/
def grants (creds : Creds) (path : List UInt8) (st : Option Stat) : Bool :=
  match st with
  | none => false
  | some st => path != [] && userCanAccessUid creds.effectiveUid creds.effectiveGid st.uid st.gid
      st.mode accessReadExec

/-- The child is in ring 3 after the step. -/
def Executed (e : ProgramEvent) (pid : UInt64) : Prop :=
  ∃ r, (step s (.program e)).machine.runs = r :: s.machine.runs ∧ r.pid = pid

/-- A child is executed exactly if the credentials that were recorded for it at its spawn allow it,
load errors apart. -/
def CheckedAsSpawned (e : ProgramEvent) : Prop :=
  ∀ k x, Attempts s e k x →
    ∃ creds, s.spawned (s.machine.spawnCtx k).pid = some creds ∧
      (Executed s e (s.machine.spawnCtx k).pid ↔ Loadable s x ∧
        grants creds (s.machine.spawnCtx k).path (s.stat (s.machine.spawnCtx k).path) = true)

/-- The session of the moment may execute what the slot of the child says it may. -/
def SessionAgrees (e : ProgramEvent) : Prop :=
  ∀ k x, Attempts s e k x → Loadable s x →
    ∀ i, processFindUsed s.machine.user (s.machine.spawnCtx k).pid = some i →
      mayExecute s.users (s.machine.spawnCtx k).path (s.stat (s.machine.spawnCtx k).path) =
        grants (s.machine.user.processTable i).creds (s.machine.spawnCtx k).path
          (s.stat (s.machine.spawnCtx k).path)

structure Shrinks (m t : Machine) : Prop where
  slots : ∀ i, (t.user.processTable i).creds = (m.user.processTable i).creds ∧
    (t.user.processTable i).pid = (m.user.processTable i).pid ∧
    ((t.user.processTable i).used = true → (m.user.processTable i).used = true)
  ctxs : ∀ k, (t.spawnCtx k).used = true → t.spawnCtx k = m.spawnCtx k

structure Extends (u v : State) : Prop where
  slots : ∀ i, (u.processTable i).used = true → (v.processTable i).used = true ∧
    (v.processTable i).creds = (u.processTable i).creds ∧
    (v.processTable i).pid = (u.processTable i).pid

variable {m t : Machine} {e : ProgramEvent} {r : Run}

theorem Shrinks.refl (m : Machine) : Shrinks m m := ⟨fun _ => ⟨rfl, rfl, id⟩, fun _ _ => rfl⟩

theorem Shrinks.trans {u : Machine} (h : Shrinks m t) (h' : Shrinks t u) : Shrinks m u := by
  constructor
  · intro i
    obtain ⟨hcreds, hpid, hused⟩ := h.slots i
    obtain ⟨hcreds', hpid', hused'⟩ := h'.slots i
    exact ⟨hcreds'.trans hcreds, hpid'.trans hpid, fun hu => hused (hused' hu)⟩
  · intro k hk
    have heq := h'.ctxs k hk
    rw [heq] at hk
    exact heq.trans (h.ctxs k hk)

theorem shrinks_setProcess (m : Machine) (i : ℕ) (f : Process → Process)
    (hf : ∀ p, (f p).creds = p.creds ∧ (f p).pid = p.pid ∧ ((f p).used = true → p.used = true)) :
    Shrinks m { m with user := m.user.setProcess i f } := by
  refine ⟨fun j => ?_, fun _ _ => rfl⟩
  rcases eq_or_ne j i with rfl | hji
  · simp only [State.setProcess, Function.update_self]
    exact hf _
  · simp only [State.setProcess, Function.update_of_ne hji]
    exact ⟨trivial, trivial, id⟩

theorem processFinish_shrinks (m : Machine) (index : ℤ) (state : ProcessState) (code : ℤ) :
    Shrinks m { m with user := processFinish m.user index state code } := by
  rw [processFinish]
  split
  · exact Shrinks.refl m
  · exact shrinks_setProcess m _ _ fun p => ⟨rfl, rfl, id⟩

theorem processReap_shrinks (m : Machine) (index : ℤ) :
    Shrinks m { m with user := processReap m.user index } := by
  rw [processReap]
  split
  · exact Shrinks.refl m
  · exact shrinks_setProcess m _ _ fun p => ⟨rfl, rfl, nofun⟩

theorem clearSpawnCtx_shrinks (m : Machine) (pid : UInt64) : Shrinks m (clearSpawnCtx m pid) := by
  rw [clearSpawnCtx]
  split
  · rename_i l _
    refine ⟨fun _ => ⟨rfl, rfl, id⟩, fun k hk => ?_⟩
    rcases eq_or_ne k l with rfl | hkl
    · simp at hk
    · exact Function.update_of_ne hkl _ _
  · exact Shrinks.refl m

theorem reservedChildEnd_shrinks (m : Machine) (ok : Bool) (pid : UInt64) :
    Shrinks m (reservedChildEnd m ok pid).2 := by
  rw [reservedChildEnd]
  split
  · exact clearSpawnCtx_shrinks m pid
  · rename_i index _
    dsimp only
    generalize hu : (if ok = false ∧ (m.user.processTable index).state = .running then
      processFinish m.user index .faulted errNoent else m.user) = user
    have hfinish : Shrinks m { m with user } := by
      rw [← hu]
      split
      · exact processFinish_shrinks m _ _ _
      · exact Shrinks.refl m
    split
    · exact hfinish
    · exact hfinish.trans (clearSpawnCtx_shrinks _ pid)

theorem waitEnd_shrinks (m : Machine) (status : ℤ) (target : UInt64) :
    Shrinks m (waitEnd m status target).2 := by
  rw [waitEnd]
  split
  · exact Shrinks.refl m
  · split
    · exact Shrinks.refl m
    · split
      · exact Shrinks.refl m
      · exact processReap_shrinks m _

theorem shrinks_of_eq (htable : t.user.processTable = m.user.processTable)
    (hctx : t.spawnCtx = m.spawnCtx) : Shrinks m t := by
  refine ⟨fun i => ?_, fun k _ => by rw [hctx]⟩
  rw [htable]
  exact ⟨rfl, rfl, id⟩

theorem finish_shrinks (m : Machine) (state : ProcessState) (code : ℤ) : Shrinks m { m with
    user := processFinish m.user m.user.processIndex state code
    result := code
    active := false } :=
  (processFinish_shrinks m m.user.processIndex state code).trans (shrinks_of_eq rfl rfl)

theorem executeEnd_shrinks (m : Machine) (r : Run) (rest : List Run) (result : ℤ) :
    Shrinks m (executeEnd m r rest result) := by
  have hfinish : Shrinks m { m with
      user := if (m.user.processTable r.index).state = .running then
        processFinish m.user r.index .zombie result else m.user } := by
    split
    · exact processFinish_shrinks m _ _ _
    · exact Shrinks.refl m
  rw [executeEnd]
  split
  · exact (hfinish.trans (processReap_shrinks _ r.index)).trans (shrinks_of_eq rfl rfl)
  · exact hfinish.trans (shrinks_of_eq rfl rfl)

theorem returnToCaller_shrinks (m : Machine) (r : Run) : Shrinks m (returnToCaller m r).2 := by
  have hend : Shrinks m (endNested m r.savedCtx r.savedRsp0) := shrinks_of_eq rfl rfl
  rw [returnToCaller]
  split
  · exact Shrinks.refl m
  · exact hend
  · exact hend.trans (reservedChildEnd_shrinks _ true r.pid)
  · exact (hend.trans (reservedChildEnd_shrinks _ true r.pid)).trans (waitEnd_shrinks _ _ _)

theorem processAlloc_extends (u : State) (parentPid pid : UInt64) :
    Extends u (processAlloc u parentPid pid).2 := by
  rw [processAlloc]
  split
  · exact ⟨fun _ hused => ⟨hused, rfl, rfl⟩⟩
  · rename_i i hslot
    refine ⟨fun j hused => ?_⟩
    rcases eq_or_ne j i with rfl | hji
    · -- only the entry of the number itself is used again, and it keeps its credentials
      obtain ⟨hne, hpid⟩ := (processSlot_some hslot).2 hused
      simp [State.setProcess, hused, hne, hpid]
    · simp only [State.setProcess, Function.update_of_ne hji]
      exact ⟨hused, trivial, trivial⟩

theorem elfExecute_frame (m : Machine) (x : Image) (path : List UInt8) (parentPid pid : UInt64)
    (purpose : Purpose) (savedCtx : ExecContext) (savedRsp0 : KernelStack) :
    (∃ ok, elfExecute m x path parentPid pid purpose savedCtx savedRsp0 = (some ok, m)) ∨
    ∃ t, elfExecute m x path parentPid pid purpose savedCtx savedRsp0 = (none, t) ∧
      Extends m.user t.user ∧ t.spawnCtx = m.spawnCtx := by
  obtain ⟨ok, heq, -⟩ | ⟨t, i, heq, hent, -⟩ :=
    elfExecute_cases m x path parentPid pid purpose savedCtx savedRsp0
  · exact Or.inl ⟨ok, heq⟩
  · refine Or.inr ⟨t, heq, ⟨fun j hused => ?_⟩, hent.ctxs⟩
    rw [hent.table]
    exact (processAlloc_extends m.user parentPid pid).slots j hused

theorem runReservedChild_frame (m : Machine) (x : Image) (pid parentPid : UInt64)
    (purpose : Purpose) :
    (∃ status, (runReservedChild m x pid parentPid purpose).1 = some status ∧
      Shrinks m (runReservedChild m x pid parentPid purpose).2) ∨
    (runReservedChild m x pid parentPid purpose).1 = none ∧
      Extends m.user (runReservedChild m x pid parentPid purpose).2.user ∧
      (runReservedChild m x pid parentPid purpose).2.spawnCtx = m.spawnCtx := by
  rw [runReservedChild]
  split
  · exact Or.inl ⟨_, rfl, Shrinks.refl m⟩
  · rename_i k _
    split
    · exact Or.inl ⟨_, rfl, Shrinks.refl m⟩
    · obtain ⟨ok, heq⟩ | ⟨t, heq, hext, hctx⟩ := elfExecute_frame (beginNested m) x
        (m.spawnCtx k).path parentPid pid purpose m.activeCtx m.rsp0
      · rw [heq]
        have hend : Shrinks m (endNested (beginNested m) m.activeCtx m.rsp0) := shrinks_of_eq rfl rfl
        exact Or.inl ⟨_, rfl, hend.trans (reservedChildEnd_shrinks _ ok pid)⟩
      · rw [heq]
        exact Or.inr ⟨rfl, hext, hctx⟩

def Framed (m t : Machine) : Prop :=
  Shrinks m t ∨ Extends m.user t.user ∧ t.spawnCtx = m.spawnCtx

theorem runReadyChild_framed (m : Machine) (x : Image) (parentPid : UInt64) :
    Framed m (runReadyChildForParent m x parentPid) := by
  rw [runReadyChildForParent]
  split
  · exact Or.inl (Shrinks.refl m)
  · obtain ⟨-, -, hshrinks⟩ | ⟨-, hext⟩ := runReservedChild_frame m x _ _ _
    · exact Or.inl hshrinks
    · exact Or.inr hext

theorem procWait_framed (m : Machine) (x : Image) (target flags : UInt64) :
    Framed m (procWait m x target flags).2 := by
  rw [procWait]
  dsimp only
  split
  · exact Or.inl (Shrinks.refl m)
  split
  · exact Or.inl (Shrinks.refl m)
  rename_i index _
  split
  · exact Or.inl (Shrinks.refl m)
  split
  · split
    · exact Or.inl (Shrinks.refl m)
    · have hframe := runReservedChild_frame m x (m.user.processTable index).pid
        (currentProcessPid m.user) (.wait target)
      generalize runReservedChild m x (m.user.processTable index).pid (currentProcessPid m.user)
        (.wait target) = res at hframe
      obtain ⟨o, t⟩ := res
      obtain ⟨status, hstatus, hshrinks⟩ | ⟨hnone, hext⟩ := hframe
      · dsimp only at hstatus
        subst hstatus
        exact Or.inl (hshrinks.trans (waitEnd_shrinks t status target))
      · dsimp only at hnone
        subst hnone
        exact Or.inr hext
  · exact Or.inl (processReap_shrinks m index)

theorem step_framed (m : Machine) (e : ProgramEvent) (hspawn : ∀ path args, e ≠ .spawn path args) :
    Framed m (stepProgram m e).2 := by
  cases e with
  | start x path =>
    obtain ⟨ok, heq⟩ | ⟨t, heq, hext⟩ := elfExecute_frame m x path 0 0 .shell m.activeCtx m.rsp0
    · exact Or.inl (by rw [stepProgram, heq]; exact Shrinks.refl m)
    · exact Or.inr (by rw [stepProgram, heq]; exact hext)
  | host x path =>
    obtain ⟨ok, heq⟩ | ⟨t, heq, hext⟩ :=
      elfExecute_frame (beginNested m) x path 0 0 .host m.activeCtx m.rsp0
    · exact Or.inl (by rw [stepProgram, executeNestedPathArgs, heq]; exact shrinks_of_eq rfl rfl)
    · exact Or.inr (by rw [stepProgram, executeNestedPathArgs, heq]; exact hext)
  | spawn path args => exact absurd rfl (hspawn path args)
  | yield x => exact runReadyChild_framed m x _
  | wait x target flags => exact procWait_framed m x target flags
  | poll x =>
    rw [stepProgram]
    split
    · exact Or.inl (Shrinks.refl m)
    · exact runReadyChild_framed m x 0
  | terminate state code =>
    rw [stepProgram]
    split
    · exact Or.inl (Shrinks.refl m)
    · rename_i r rest _
      exact Or.inl (((finish_shrinks m state code).trans (executeEnd_shrinks _ r rest code)).trans
        (returnToCaller_shrinks _ r))

def Recorded (m : Machine) (spawned : UInt64 → Option Creds) : Prop :=
  ∀ k < spawnMax, (m.spawnCtx k).used = true → ∀ i, CtxOf m.user.processTable (m.spawnCtx k) i →
    spawned (m.spawnCtx k).pid = some (m.user.processTable i).creds

variable {g g' : Record} {spawned : UInt64 → Option Creds}

theorem recorded_framed (hs : Sound m g) (ht : Sound t g') (h : Recorded m spawned)
    (hframe : Framed m t) : Recorded t spawned := by
  intro k hk hused i hi
  have hctx : t.spawnCtx k = m.spawnCtx k := by
    rcases hframe with hshrinks | ⟨-, hctx⟩
    · exact hshrinks.ctxs k hused
    · rw [hctx]
  rw [hctx] at hused hi ⊢
  obtain ⟨j, hj⟩ := hs.programs.ctxs k hk hused
  have hslot : i = j ∧ (t.user.processTable i).creds = (m.user.processTable i).creds := by
    rcases hframe with hshrinks | ⟨hext, -⟩
    · obtain ⟨hcreds, hpid, hsame⟩ := hshrinks.slots i
      refine ⟨hs.table.distinct i hi.lt j hj.lt (hsame hi.used) hj.used ?_, hcreds⟩
      rw [← hpid, hi.pid, hj.pid]
    · obtain ⟨hjused, hcreds, hpid⟩ := hext.slots j hj.used
      have hij : i = j := by
        refine ht.table.distinct i hi.lt j hj.lt hi.used hjused ?_
        rw [hi.pid, hpid, hj.pid]
      subst hij
      exact ⟨rfl, hcreds⟩
  obtain ⟨rfl, hcreds⟩ := hslot
  rw [hcreds]
  exact h k hk hused i hj

theorem queueSpawn_frame (m : Machine) (path args : List UInt8) :
    Extends m.user (queueSpawn m path args).2.user ∧
    ((queueSpawn m path args).1 = errFull ∧
        (∀ k, ((queueSpawn m path args).2.spawnCtx k).used = true →
          (queueSpawn m path args).2.spawnCtx k = m.spawnCtx k) ∨
      (queueSpawn m path args).1 ≠ errFull ∧
        ∀ k, ((queueSpawn m path args).2.spawnCtx k).used = true →
          (queueSpawn m path args).2.spawnCtx k = m.spawnCtx k ∨
          ((queueSpawn m path args).2.spawnCtx k).pid = m.user.nextUserPid) := by
  rw [queueSpawn]
  split
  · exact ⟨⟨fun _ hused => ⟨hused, rfl, rfl⟩⟩, Or.inl ⟨rfl, fun _ _ => rfl⟩⟩
  · rename_i l _
    dsimp only
    have hext := processAlloc_extends { m.user with nextUserPid := m.user.nextUserPid + 1 }
      (currentProcessPid m.user) m.user.nextUserPid
    split <;> rename_i heq <;> rw [heq] at hext
    · refine ⟨⟨hext.slots⟩, Or.inl ⟨rfl, fun k hk => ?_⟩⟩
      rcases eq_or_ne k l with rfl | hkl
      · simp at hk
      · exact Function.update_of_ne hkl _ _
    · refine ⟨⟨hext.slots⟩, Or.inr ⟨?_, fun k hk => ?_⟩⟩
      · dsimp only [errFull]
        omega
      · rcases eq_or_ne k l with rfl | hkl
        · exact Or.inr (by simp)
        · exact Or.inl (Function.update_of_ne hkl _ _)

theorem recorded_spawn (hs : Sound m g) (path args : List UInt8)
    (ht : Sound (queueSpawn m path args).2 g') (h : Recorded m spawned) :
    Recorded (queueSpawn m path args).2
      (recordSpawn spawned (spawnedBy m (.spawn path args))) := by
  obtain ⟨hext, hctx⟩ := queueSpawn_frame m path args
  -- a child that was queued before keeps its slot
  have hold : ∀ k < spawnMax, (m.spawnCtx k).used = true → ∀ i,
      CtxOf (queueSpawn m path args).2.user.processTable (m.spawnCtx k) i →
      (m.spawnCtx k).pid ≠ m.user.nextUserPid ∧ spawned (m.spawnCtx k).pid =
        some ((queueSpawn m path args).2.user.processTable i).creds := by
    intro k hk hused i hi
    obtain ⟨j, hj⟩ := hs.programs.ctxs k hk hused
    obtain ⟨hjused, hcreds, hpid⟩ := hext.slots j hj.used
    have hij : i = j := by
      refine ht.table.distinct i hi.lt j hj.lt hi.used hjused ?_
      rw [hi.pid, hpid, hj.pid]
    subst hij
    refine ⟨fun heq => ?_, by rw [hcreds]; exact h k hk hused i hj⟩
    have hlt := (hs.table.pids i hj.lt hj.used).2
    rw [hj.pid, heq] at hlt
    exact Nat.lt_irrefl _ hlt
  intro k hk hused i hi
  rcases hctx with ⟨hfull, hctx⟩ | ⟨hqueued, hctx⟩
  · rw [spawnedBy, if_pos hfull]
    have hk' := hctx k hused
    rw [hk'] at hused hi ⊢
    exact (hold k hk hused i hi).2
  · rw [spawnedBy, if_neg hqueued]
    rcases hctx k hused with hk' | hnew
    · rw [hk'] at hused hi ⊢
      obtain ⟨hne, hcreds⟩ := hold k hk hused i hi
      cases processFindUsed (queueSpawn m path args).2.user m.user.nextUserPid with
      | none => exact hcreds
      | some j => exact (Function.update_of_ne hne _ _).trans hcreds
    · rw [processFindUsed_of ht.table hi.lt hi.used (hi.pid.trans hnew)]
      rw [hnew]
      exact Function.update_self _ _ _

variable {s : System}

structure Invariant (s : System) (g : Record) : Prop where
  sound : Sound s.machine g
  follows : Follows s.machine
  recorded : Recorded s.machine s.spawned

theorem possibleNow_checked {e : ProgramEvent} (h : PossibleNow s.machine e) :
    PossibleNow s.kernel (checked s e) := by
  cases e <;> exact h

theorem numberLeft_checked {e : ProgramEvent} (h : NumberLeft s.machine e) :
    NumberLeft s.kernel (checked s e) := by
  cases e <;> exact h

theorem Invariant.kernel (h : Invariant s g) :
    Sound s.kernel g ∧ Follows s.kernel ∧ Recorded s.kernel s.spawned :=
  ⟨⟨h.sound.table, h.sound.programs⟩, ⟨h.follows.locked, h.follows.current, h.follows.linked⟩,
    h.recorded⟩

theorem step_invariant (h : Invariant s g) {e : Event} (hp : Possible s e) :
    ∃ g', Invariant (step s e) g' := by
  cases e with
  | program e =>
    obtain ⟨hs, hf, hr⟩ := h.kernel
    have hpossible := possibleNow_checked hp.1
    have hsound := (sound_step hs hf hpossible (numberLeft_checked hp.2)).1
    refine ⟨_, hsound, follows_step hf hpossible, ?_⟩
    cases e with
    | spawn path args => exact recorded_spawn hs path args hsound hr
    | _ => exact recorded_framed hs hsound hr (step_framed _ _ fun _ _ => nofun)
  | _ => exact ⟨g, h.sound, h.follows, h.recorded⟩

theorem Reaches.invariant (h : Reaches s) : ∃ g, Invariant s g := by
  induction h with
  | boot s processes spawns idle locked first =>
    obtain ⟨hsound, hfollows⟩ := (History.boot s.machine processes spawns idle locked first).sound
    refine ⟨_, hsound, hfollows, fun k _ hused => ?_⟩
    rw [spawns k] at hused
    cases hused
  | step e _ possible ih =>
    obtain ⟨g, hg⟩ := ih
    exact step_invariant hg possible

theorem childOf_withImage (m : Machine) (f : Image → Image) (e : ProgramEvent) :
    childOf m (withImage f e) = (childOf m e).map fun c => (f c.1, c.2) := by
  cases e with
  | yield x =>
    simp only [childOf, withImage, Option.map_map]
    rfl
  | poll x =>
    simp only [childOf, withImage]
    split
    · rfl
    · rw [Option.map_map]
      rfl
  | wait x target flags =>
    simp only [childOf, withImage]
    split
    · split
      · split <;> rfl
      · rfl
    · rfl
  | _ => rfl

variable {x : Image} {pid parentPid : UInt64} {k : ℕ}

theorem executedPath_child (m : Machine) {e : ProgramEvent}
    (hc : childOf m e = some (x, pid, parentPid)) (hk : findSpawnCtx m pid = some k) :
    executedPath m e = (m.spawnCtx k).path := by
  cases e with
  | start x path => cases hc
  | host x path => cases hc
  | _ => simp only [executedPath, hc, Option.bind_some, hk, Option.map_some, Option.getD_some]

theorem child_runs
    (hc : childOf m e = some (x, pid, parentPid)) : ∃ purpose, purpose ≠ .shell ∧
      (stepProgram m e).2.runs = (runReservedChild m x pid parentPid purpose).2.runs := by
  have hready : ∀ {y : Image} {q : UInt64},
      ((readyCtx m q).map fun k => (y, (m.spawnCtx k).pid, (m.spawnCtx k).parentPid)) =
        some (x, pid, parentPid) →
      (runReadyChildForParent m y q).runs = (runReservedChild m x pid parentPid .child).2.runs := by
    intro y q hmap
    obtain ⟨k, hk, heq⟩ := Option.map_eq_some_iff.1 hmap
    cases heq
    rw [readyCtx] at hk
    rw [runReadyChildForParent, hk]
  cases e with
  | yield x => exact ⟨.child, nofun, hready hc⟩
  | poll x =>
    rw [childOf] at hc
    rw [stepProgram]
    split at hc
    · cases hc
    · rename_i hidle
      rw [if_neg hidle]
      exact ⟨.child, nofun, hready hc⟩
  | wait y target flags =>
    refine ⟨.wait target, nofun, ?_⟩
    rw [childOf] at hc
    split at hc
    swap
    · cases hc
    rename_i hblock
    split at hc
    swap
    · cases hc
    rename_i i hfind
    split at hc
    swap
    · cases hc
    rename_i hchild
    cases hc
    rw [stepProgram, procWait]
    dsimp only
    rw [if_neg (fun h => h.1 hblock), hfind]
    dsimp only
    rw [if_neg (not_not.2 hchild.1), if_pos hchild.2, if_neg (by rw [hblock]; decide)]
    generalize runReservedChild m x (m.user.processTable i).pid (currentProcessPid m.user)
      (.wait target) = res
    obtain ⟨_ | status, t⟩ := res
    · rfl
    · exact (waitEnd_same t status target).runs
  | _ => cases hc

theorem elfExecute_enters (m : Machine) (path : List UInt8)
    (purpose : Purpose) (savedCtx : ExecContext) (savedRsp0 : KernelStack) {i : ℕ}
    (hslot : (processAlloc m.user parentPid pid).1 = some i) (hload : x.loads = true)
    (hdepth : m.elfContextDepth < elfContextMax) :
    ∃ t, elfExecute m x path parentPid pid purpose savedCtx savedRsp0 = (none, t) ∧
      t.runs = ⟨i, path, parentPid, pid, purpose, savedCtx, savedRsp0⟩ :: m.runs := by
  have hopen : ¬ (x.loads = false ∨ m.elfContextDepth ≥ elfContextMax) := by
    rw [hload]
    exact not_or.2 ⟨nofun, Nat.not_le_of_lt hdepth⟩
  rw [elfExecute, if_neg hopen]
  generalize processAlloc m.user parentPid pid = alloc at hslot
  obtain ⟨_ | j, user⟩ := alloc
  · cases hslot
  · cases hslot
    exact ⟨_, rfl, rfl⟩

theorem runReservedChild_enters {i : ℕ} (purpose : Purpose)
    (hk : findSpawnCtx m pid = some k) (hslot : (processAlloc m.user (m.spawnCtx k).parentPid
      pid).1 = some i) (hload : x.loads = true) (hdepth : m.elfContextDepth < elfContextMax) :
    (runReservedChild m x pid (m.spawnCtx k).parentPid purpose).2.runs =
      ⟨i, (m.spawnCtx k).path, (m.spawnCtx k).parentPid, pid, purpose, m.activeCtx, m.rsp0⟩ ::
        m.runs := by
  obtain ⟨t, heq, hruns⟩ := elfExecute_enters (beginNested m) (m.spawnCtx k).path purpose
    m.activeCtx m.rsp0 hslot hload hdepth
  rw [runReservedChild, hk]
  dsimp only
  rw [if_neg (not_not.2 rfl), heq]
  exact hruns

theorem runReservedChild_runs (hs : Sound m g) (hf : Follows m) {purpose : Purpose}
    (hp : purpose ≠ .shell) (hk : findSpawnCtx m pid = some k)
    (hparent : (m.spawnCtx k).parentPid = parentPid) :
    (∃ r, (runReservedChild m x pid parentPid purpose).2.runs = r :: m.runs ∧ r.pid = pid) ↔
      x.loads = true ∧ m.elfContextDepth < elfContextMax := by
  subst hparent
  constructor
  · rintro ⟨r, hruns, -⟩
    obtain ⟨-, -, hsame⟩ | ⟨-, -, -, l, -, -, hload, hdepth, -⟩ :=
      runReservedChild_cases hf.locked x pid (m.spawnCtx k).parentPid hp
    · have hself := hsame.runs
      rw [hruns] at hself
      exact absurd hself (List.cons_ne_self _ _)
    · exact ⟨hload, hdepth⟩
  · rintro ⟨hload, hdepth⟩
    obtain ⟨hlt, hused, rfl⟩ := findSpawnCtx_some hk
    obtain ⟨i, hi⟩ := hs.programs.ctxs k hlt hused
    have hfind := processFindUsed_of hs.table hi.lt hi.used hi.pid
    have hne : (m.spawnCtx k).pid ≠ 0 := by
      have hpids := (hs.table.pids i hi.lt hi.used).1
      rw [hi.pid] at hpids
      rintro hzero
      rw [hzero] at hpids
      exact Nat.not_lt_zero _ hpids
    have hslot : (processAlloc m.user (m.spawnCtx k).parentPid (m.spawnCtx k).pid).1 = some i := by
      rw [processAlloc_slot, processSlot, if_pos hne, hfind]
      rfl
    exact ⟨_, runReservedChild_enters purpose hk hslot hload hdepth, rfl⟩

theorem executed_iff_session (h : Invariant s g) (ha : Attempts s e k x) :
    Executed s e (s.machine.spawnCtx k).pid ↔ Loadable s x ∧
      mayExecute s.users (s.machine.spawnCtx k).path (s.stat (s.machine.spawnCtx k).path) = true := by
  obtain ⟨hs, hf, -⟩ := h.kernel
  obtain ⟨pid, parentPid, hc, hk, hparent⟩ := ha
  have hpid := (findSpawnCtx_some hk).2.2
  have hchecked : childOf s.kernel (checked s e) =
      some (checkImage s (s.machine.spawnCtx k).path x, pid, parentPid) := by
    rw [checked, childOf_withImage, hc, executedPath_child s.kernel hc hk]
    rfl
  obtain ⟨purpose, hp, hruns⟩ := child_runs hchecked
  have hiff := runReservedChild_runs (x := checkImage s (s.machine.spawnCtx k).path x) hs hf hp hk
    hparent
  rw [← hruns] at hiff
  have hpid' : (s.machine.spawnCtx k).pid = pid := hpid
  rw [hpid', Executed]
  refine hiff.trans ?_
  simp only [checkImage, Loadable, Bool.and_eq_true]
  exact ⟨fun ⟨⟨hmay, hload⟩, hdepth⟩ => ⟨⟨hload, hdepth⟩, hmay⟩,
    fun ⟨⟨hload, hdepth⟩, hmay⟩ => ⟨⟨hmay, hload⟩, hdepth⟩⟩

theorem recorded_slot (h : Invariant s g) (ha : Attempts s e k x) :
    ∃ i, processFindUsed s.machine.user (s.machine.spawnCtx k).pid = some i ∧
      s.spawned (s.machine.spawnCtx k).pid = some (s.machine.user.processTable i).creds := by
  obtain ⟨pid, parentPid, -, hk, -⟩ := ha
  obtain ⟨hlt, hused, -⟩ := findSpawnCtx_some hk
  obtain ⟨i, hi⟩ := h.sound.programs.ctxs k hlt hused
  exact ⟨i, processFindUsed_of h.sound.table hi.lt hi.used hi.pid, h.recorded k hlt hused i hi⟩

/-- In every run: a queued child is executed according to the credentials recorded at its spawn
exactly if the session of the moment is granted what they are. -/
theorem spawned_checked_iff_session_agrees (h : Reaches s) (e : ProgramEvent) :
    CheckedAsSpawned s e ↔ SessionAgrees s e := by
  obtain ⟨g, hinv⟩ := h.invariant
  constructor
  · intro hlaw k x ha hload i hfind
    obtain ⟨creds, hspawned, hiff⟩ := hlaw k x ha
    obtain ⟨j, hslot, hcreds⟩ := recorded_slot hinv ha
    rw [hfind] at hslot
    cases hslot
    rw [hspawned] at hcreds
    cases hcreds
    rw [executed_iff_session hinv ha] at hiff
    simp only [hload, true_and] at hiff
    exact Bool.eq_iff_iff.2 hiff
  · intro hagrees k x ha
    obtain ⟨i, hslot, hcreds⟩ := recorded_slot hinv ha
    refine ⟨_, hcreds, (executed_iff_session hinv ha).trans ?_⟩
    constructor
    · rintro ⟨hload, hmay⟩
      exact ⟨hload, (hagrees k x ha hload i hslot).symm.trans hmay⟩
    · rintro ⟨hload, hgrants⟩
      exact ⟨hload, (hagrees k x ha hload i hslot).trans hgrants⟩

/-- Every file is a program that only root may read or execute. -/
def rootOnly : List UInt8 → Option Stat := fun _ => some ⟨0, 0, 448⟩

def rootSession : System where
  machine := bootMachine
  users := (Accounts.userServiceStart Accounts.bootState none).session 0 false
  stat := rootOnly
  spawned _ := none

/-- Root starts "/a", which spawns "/b" and exits. -/
def parentStarted : System := step rootSession (.program startPlain)

def childQueued : System := step parentStarted (.program spawnChild)

def parentEnded : System := step childQueued (.program endChild)

def loggedOut : System := step parentEnded (.command .logout [])

theorem parentEnded_reaches : Reaches parentEnded :=
  (((Reaches.boot rootSession (fun _ => rfl) (fun _ => rfl) rfl rfl rfl).step (.program startPlain)
    ⟨rfl, show rootSession.machine.user.nextUserPid.toNat + 1 < 2 ^ 64 by decide⟩).step
    (.program spawnChild) ⟨List.cons_ne_nil _ _,
      show parentStarted.machine.user.nextUserPid.toNat + 1 < 2 ^ 64 by decide⟩).step
    (.program endChild) ⟨⟨List.cons_ne_nil _ _, nofun⟩, trivial⟩

theorem spawned_checked_while_logged_in :
    CheckedAsSpawned parentEnded (.poll image) ↔ SessionAgrees parentEnded (.poll image) :=
  spawned_checked_iff_session_agrees parentEnded_reaches (.poll image)

/-- The child was spawned with the ids of root, and nobody is logged in when the kernel polls. -/
theorem child_of_root_refused : ¬ ∀ s e, Reaches s → CheckedAsSpawned s e := by
  intro h
  obtain ⟨creds, hcreds, hiff⟩ := h loggedOut (.poll image)
    (parentEnded_reaches.step (.command .logout []) trivial) 0 image
    ⟨5001, 5000, rfl, rfl, rfl⟩
  have hroot : creds = ⟨0, 0, 0, 0⟩ := (Option.some.inj hcreds).symm
  subst hroot
  obtain ⟨r, hruns, -⟩ := hiff.2 ⟨⟨rfl, by decide⟩, by decide⟩
  exact List.cons_ne_nil r [] hruns.symm

end SpawnCredentials
