import K64.UserPrograms

/-! # The stacks of nested programs

While a program runs in ring 3, those that it was started by are inside their system calls, on the
stacks that were installed when they ran. -/
namespace UserMode

variable {m t : Machine} {e : ProgramEvent} {r : Run} {rest : List Run}

structure SameProgram (m t : Machine) : Prop where
  runs : t.runs = m.runs
  rsp0 : t.rsp0 = m.rsp0
  ctx : t.activeCtx = m.activeCtx

theorem SameProgram.refl (m : Machine) : SameProgram m m := ⟨rfl, rfl, rfl⟩

theorem SameProgram.trans {u : Machine} (h : SameProgram m t) (h' : SameProgram t u) :
    SameProgram m u :=
  ⟨h'.runs.trans h.runs, h'.rsp0.trans h.rsp0, h'.ctx.trans h.ctx⟩

theorem same_user {user : State} (hi : user.processIndex = m.user.processIndex)
    (hf : user.fallbackFds = m.user.fallbackFds) : SameProgram m { m with user } := by
  refine ⟨rfl, rfl, ?_⟩
  unfold Machine.activeCtx
  dsimp only
  rw [hi, hf]

theorem processFinish_context (s : State) (index : ℤ) (state : ProcessState) (code : ℤ) :
    (processFinish s index state code).processIndex = s.processIndex ∧
    (processFinish s index state code).fallbackFds = s.fallbackFds := by
  unfold processFinish
  split <;> exact ⟨rfl, rfl⟩

theorem processReap_context (s : State) (index : ℤ) :
    (processReap s index).processIndex = s.processIndex ∧
    (processReap s index).fallbackFds = s.fallbackFds := by
  unfold processReap
  split <;> exact ⟨rfl, rfl⟩

theorem processAlloc_context (s : State) (parentPid pid : UInt64) :
    (processAlloc s parentPid pid).2.processIndex = s.processIndex ∧
    (processAlloc s parentPid pid).2.fallbackFds = s.fallbackFds := by
  unfold processAlloc
  split <;> exact ⟨rfl, rfl⟩

theorem clearSpawnCtx_same (m : Machine) (pid : UInt64) : SameProgram m (clearSpawnCtx m pid) := by
  unfold clearSpawnCtx
  split <;> exact ⟨rfl, rfl, rfl⟩

theorem reservedChildEnd_same (m : Machine) (ok : Bool) (pid : UInt64) :
    SameProgram m (reservedChildEnd m ok pid).2 := by
  unfold reservedChildEnd
  split
  · exact clearSpawnCtx_same m pid
  · rename_i index _
    dsimp only
    generalize hu : (if ok = false ∧ (m.user.processTable index).state = .running then
      processFinish m.user index .faulted errNoent else m.user) = user
    have hsame : SameProgram m { m with user } := by
      obtain ⟨hi, hf⟩ := processFinish_context m.user index .faulted errNoent
      rw [← hu]
      split
      · exact same_user hi hf
      · exact SameProgram.refl m
    split
    · exact hsame
    · exact hsame.trans (clearSpawnCtx_same _ pid)

theorem waitEnd_same (m : Machine) (status : ℤ) (target : UInt64) :
    SameProgram m (waitEnd m status target).2 := by
  unfold waitEnd
  split
  · exact SameProgram.refl m
  · split
    · exact SameProgram.refl m
    · split
      · exact SameProgram.refl m
      · obtain ⟨hi, hf⟩ := processReap_context m.user _
        exact same_user hi hf

theorem queueSpawn_same (m : Machine) (path args : List UInt8) :
    SameProgram m (queueSpawn m path args).2 := by
  unfold queueSpawn
  split
  · exact SameProgram.refl m
  · dsimp only
    split <;>
    · rename_i heq
      have hctx := processAlloc_context { m.user with nextUserPid := m.user.nextUserPid + 1 }
        (currentProcessPid m.user) m.user.nextUserPid
      rw [heq] at hctx
      obtain ⟨hi, hf⟩ := hctx
      obtain ⟨-, -, hc⟩ := same_user (m := m) hi hf
      exact ⟨rfl, rfl, hc⟩

/-- The image loads, there is a context left for it and an entry of the process table. -/
def CanEnter (m : Machine) (x : Image) (parentPid pid : UInt64) : Prop :=
  x.loads = true ∧ m.elfContextDepth < elfContextMax ∧ (processAlloc m.user parentPid pid).1 ≠ none

structure Entered (m t : Machine) (r : Run) : Prop where
  runs : t.runs = r :: m.runs
  rsp0 : t.rsp0 = m.rsp0
  locked : t.schedulerUnlocked = false
  index : t.user.processIndex = r.index
  slot : (processAlloc m.user r.parentPid r.pid).1 = some r.index
  table : t.user.processTable = (processAlloc m.user r.parentPid r.pid).2.processTable
  next : t.user.nextUserPid = (processAlloc m.user r.parentPid r.pid).2.nextUserPid
  ctxs : t.spawnCtx = m.spawnCtx

theorem elfExecute_cases (m : Machine) (x : Image) (path : List UInt8) (parentPid pid : UInt64)
    (purpose : Purpose) (savedCtx : ExecContext) (savedRsp0 : KernelStack) :
    (∃ ok, elfExecute m x path parentPid pid purpose savedCtx savedRsp0 = (some ok, m) ∧
      (ok = false ↔ x.loads = false ∨ m.elfContextDepth ≥ elfContextMax)) ∨
    ∃ t i, elfExecute m x path parentPid pid purpose savedCtx savedRsp0 = (none, t) ∧
      Entered m t ⟨i, path, parentPid, pid, purpose, savedCtx, savedRsp0⟩ ∧
      CanEnter m x parentPid pid := by
  unfold elfExecute
  split
  · rename_i hfails
    exact Or.inl ⟨false, rfl, fun _ => hfails, fun _ => rfl⟩
  · rename_i hloads
    obtain ⟨hloads, hdepth⟩ := not_or.1 hloads
    split
    · exact Or.inl ⟨true, rfl, nofun, fun h => absurd h (not_or.2 ⟨hloads, hdepth⟩)⟩
    · rename_i i user hsome
      have hslot : (processAlloc m.user parentPid pid).1 = some i := by rw [hsome]
      have huser : (processAlloc m.user parentPid pid).2 = user := by rw [hsome]
      subst huser
      refine Or.inr ⟨_, i, rfl, ⟨rfl, rfl, rfl, rfl, hslot, rfl, rfl, rfl⟩,
        Bool.eq_true_of_not_eq_false hloads, Nat.lt_of_not_le hdepth, ?_⟩
      rw [hslot]
      exact nofun

structure Nested (m t : Machine) (r : Run) : Prop where
  runs : t.runs = r :: m.runs
  rsp0 : t.rsp0 = .nested
  locked : t.schedulerUnlocked = false
  index : t.user.processIndex = r.index
  savedCtx : r.savedCtx = m.activeCtx
  savedRsp0 : r.savedRsp0 = m.rsp0
  purpose : r.purpose ≠ .shell

theorem endNested_begin (hlock : m.schedulerUnlocked = false) :
    SameProgram m (endNested (beginNested m) m.activeCtx m.rsp0) := by
  refine ⟨rfl, rfl, ?_⟩
  unfold endNested Machine.setActiveCtx Machine.activeCtx beginNested
  dsimp only
  rw [hlock]

/-- A queued child of the process that can be entered. -/
def CanRun (m : Machine) (x : Image) (pid parentPid : UInt64) : Prop :=
  ∃ i, findSpawnCtx m pid = some i ∧ (m.spawnCtx i).parentPid = parentPid ∧
    CanEnter m x parentPid pid

theorem runReservedChild_cases (hlock : m.schedulerUnlocked = false) (x : Image)
    (pid parentPid : UInt64) {purpose : Purpose} (hp : purpose ≠ .shell) :
    (∃ status, (runReservedChild m x pid parentPid purpose).1 = some status ∧
      SameProgram m (runReservedChild m x pid parentPid purpose).2) ∨
    ∃ r, (runReservedChild m x pid parentPid purpose).1 = none ∧
      Nested m (runReservedChild m x pid parentPid purpose).2 r ∧ CanRun m x pid parentPid := by
  unfold runReservedChild
  split
  · exact Or.inl ⟨_, rfl, SameProgram.refl m⟩
  · rename_i i hfind
    split
    · exact Or.inl ⟨_, rfl, SameProgram.refl m⟩
    · rename_i hparent
      obtain ⟨ok, heq, -⟩ | ⟨t, j, heq, hent, hcan⟩ := elfExecute_cases (beginNested m) x
        (m.spawnCtx i).path parentPid pid purpose m.activeCtx m.rsp0
      · rw [heq]
        exact Or.inl ⟨_, rfl, (endNested_begin hlock).trans (reservedChildEnd_same _ ok pid)⟩
      · rw [heq]
        exact Or.inr ⟨_, rfl, ⟨hent.runs, hent.rsp0, hent.locked, hent.index, rfl, rfl, hp⟩, i, hfind,
          not_not.1 hparent, hcan⟩

def ReadyChild (m : Machine) (x : Image) (parentPid : UInt64) : Prop :=
  ∃ i, ((List.range spawnMax).find? fun i =>
      (m.spawnCtx i).used && (parentPid == 0 || (m.spawnCtx i).parentPid == parentPid)) = some i ∧
    CanRun m x (m.spawnCtx i).pid (m.spawnCtx i).parentPid

theorem runReadyChild_cases (hlock : m.schedulerUnlocked = false) (x : Image) (parentPid : UInt64) :
    SameProgram m (runReadyChildForParent m x parentPid) ∨
    ∃ r, Nested m (runReadyChildForParent m x parentPid) r ∧ ReadyChild m x parentPid := by
  unfold runReadyChildForParent
  split
  · exact Or.inl (SameProgram.refl m)
  · rename_i i hfind
    obtain ⟨-, -, hsame⟩ | ⟨r, -, hnested, hcan⟩ := runReservedChild_cases hlock x
      (m.spawnCtx i).pid (m.spawnCtx i).parentPid (show Purpose.child ≠ .shell by exact nofun)
    · exact Or.inl hsame
    · exact Or.inr ⟨r, hnested, i, hfind, hcan⟩

/-- A blocking `proc.wait` for a child that can be run. -/
def WaitsForChild (m : Machine) (x : Image) (target flags : UInt64) : Prop :=
  flags = waitBlock ∧ ∃ index, processFindPid m.user target = some index ∧
    (m.user.processTable index).state = .running ∧
    CanRun m x (m.user.processTable index).pid (currentProcessPid m.user)

theorem procWait_cases (hlock : m.schedulerUnlocked = false) (x : Image) (target flags : UInt64) :
    SameProgram m (procWait m x target flags).2 ∨
    ∃ r, Nested m (procWait m x target flags).2 r ∧ WaitsForChild m x target flags := by
  unfold procWait
  dsimp only
  split
  · exact Or.inl (SameProgram.refl m)
  rename_i hflags
  split
  · exact Or.inl (SameProgram.refl m)
  rename_i index hfind
  split
  · exact Or.inl (SameProgram.refl m)
  split
  · rename_i hrunning
    split
    · exact Or.inl (SameProgram.refl m)
    · rename_i hblock
      have hcases := runReservedChild_cases hlock x (m.user.processTable index).pid
        (currentProcessPid m.user) (show Purpose.wait target ≠ .shell by exact nofun)
      generalize runReservedChild m x (m.user.processTable index).pid (currentProcessPid m.user)
        (.wait target) = res at hcases
      obtain ⟨o, t⟩ := res
      obtain ⟨status, hstatus, hsame⟩ | ⟨r, hnone, hnested, hcan⟩ := hcases
      · dsimp only at hstatus
        subst hstatus
        exact Or.inl (hsame.trans (waitEnd_same t status target))
      · dsimp only at hnone
        subst hnone
        exact Or.inr ⟨r, hnested, by tauto, index, hfind, hrunning, hcan⟩
  · obtain ⟨hi, hf⟩ := processReap_context m.user index
    exact Or.inl (same_user hi hf)

def Starts (m : Machine) : ProgramEvent → Prop
  | .host x _ => CanEnter m x 0 0
  | .yield x => ReadyChild m x (currentProcessPid m.user)
  | .wait x target flags => WaitsForChild m x target flags
  | .poll x => ReadyChild m x 0
  | _ => False

inductive Effect (m : Machine) : ProgramEvent → Machine → Prop where
  | same {e : ProgramEvent} {t : Machine} (h : SameProgram m t) : Effect m e t
  | entered {x : Image} {path : List UInt8} {t : Machine} {r : Run} (h : Entered m t r)
      (purpose : r.purpose = .shell) : Effect m (.start x path) t
  | nested {e : ProgramEvent} {t : Machine} {r : Run} (h : Nested m t r)
      (call : Starts m e) : Effect m e t
  | returned {state : ProcessState} {code : ℤ} {t : Machine} {r : Run} {rest : List Run}
      (before : m.runs = r :: rest) (runs : t.runs = rest)
      (shell : r.purpose = .shell → t.rsp0 = m.rsp0 ∧ t.schedulerUnlocked = m.schedulerUnlocked)
      (caller : r.purpose ≠ .shell → t.rsp0 = r.savedRsp0 ∧
        t.activeCtx = { r.savedCtx with schedulerUnlocked := false }) :
      Effect m (.terminate state code) t

theorem returnToCaller_effect {t : Machine}
    {state : ProcessState} {code : ℤ} (hm : m.runs = r :: rest) (ht : t.runs = rest)
    (hr : t.rsp0 = m.rsp0) (hl : t.schedulerUnlocked = m.schedulerUnlocked) :
    Effect m (.terminate state code) (returnToCaller t r).2 := by
  have hend : (endNested t r.savedCtx r.savedRsp0).runs = rest := ht
  unfold returnToCaller
  cases hp : r.purpose with
  | shell => exact .returned hm ht (fun _ => ⟨hr, hl⟩) fun hne => absurd hp hne
  | host =>
    exact .returned hm hend (fun heq => by rw [hp] at heq; cases heq) fun _ => ⟨rfl, rfl⟩
  | child =>
    have hsame := reservedChildEnd_same (endNested t r.savedCtx r.savedRsp0) true r.pid
    exact .returned hm (hsame.runs.trans hend) (fun heq => by rw [hp] at heq; cases heq)
      fun _ => ⟨hsame.rsp0, hsame.ctx⟩
  | wait target =>
    have hsame := (reservedChildEnd_same (endNested t r.savedCtx r.savedRsp0) true r.pid).trans
      (waitEnd_same _ (reservedChildEnd (endNested t r.savedCtx r.savedRsp0) true r.pid).1 target)
    exact .returned hm (hsame.runs.trans hend) (fun heq => by rw [hp] at heq; cases heq)
      fun _ => ⟨hsame.rsp0, hsame.ctx⟩

theorem step_effect (hlock : m.schedulerUnlocked = false) (e : ProgramEvent) :
    Effect m e (stepProgram m e).2 := by
  have hor : ∀ {e : ProgramEvent} {t : Machine},
      (SameProgram m t ∨ ∃ r, Nested m t r ∧ Starts m e) → Effect m e t := by
    rintro e t (hsame | ⟨r, hnested, hstarts⟩)
    · exact .same hsame
    · exact .nested hnested hstarts
  cases e with
  | start x path =>
    change Effect m _ (elfExecute m x path 0 0 .shell m.activeCtx m.rsp0).2
    obtain ⟨ok, heq, -⟩ | ⟨t, i, heq, hent, -⟩ :=
      elfExecute_cases m x path 0 0 .shell m.activeCtx m.rsp0
    · rw [heq]
      exact .same (SameProgram.refl m)
    · rw [heq]
      exact .entered hent rfl
  | host x path =>
    change Effect m _ (executeNestedPathArgs m x path)
    unfold executeNestedPathArgs
    obtain ⟨ok, heq, -⟩ | ⟨t, i, heq, hent, hcan⟩ :=
      elfExecute_cases (beginNested m) x path 0 0 .host m.activeCtx m.rsp0
    · rw [heq]
      exact .same (endNested_begin hlock)
    · rw [heq]
      exact .nested ⟨hent.runs, hent.rsp0, hent.locked, hent.index, rfl, rfl, nofun⟩ hcan
  | spawn path args => exact .same (queueSpawn_same m path args)
  | yield x => exact hor (runReadyChild_cases hlock x _)
  | wait x target flags => exact hor (procWait_cases hlock x target flags)
  | poll x =>
    change Effect m _ (if m.active then m else runReadyChildForParent m x 0)
    split
    · exact .same (SameProgram.refl m)
    · exact hor (runReadyChild_cases hlock x 0)
  | terminate state code =>
    unfold stepProgram
    cases hm : m.runs with
    | nil => exact .same (SameProgram.refl m)
    | cons r rest => exact returnToCaller_effect hm rfl rfl rfl

/-- The stacks of the system calls in progress: each program but the first was started by one that is
suspended. -/
def suspendedStacks (m : Machine) : List KernelStack := m.runs.dropLast.map Run.savedRsp0

/-- A program is started only inside a system call of one whose own calls use `syscall_stack`. -/
def Direct (m : Machine) (e : ProgramEvent) : Prop :=
  Starts m e → m.runs ≠ [] → m.rsp0 = .syscall

structure Shallow (m : Machine) : Prop where
  locked : m.schedulerUnlocked = false
  length : m.runs.length ≤ 2
  nested : m.runs.length = 2 →
    m.rsp0 = .nested ∧ ∀ r, m.runs.head? = some r → r.savedRsp0 = .syscall

theorem locked_of_ctx {c : ExecContext} (h : t.activeCtx = { c with schedulerUnlocked := false }) :
    t.schedulerUnlocked = false := congrArg ExecContext.schedulerUnlocked h

theorem SameProgram.locked (h : SameProgram m t) (hl : m.schedulerUnlocked = false) :
    t.schedulerUnlocked = false := (congrArg ExecContext.schedulerUnlocked h.ctx).trans hl

theorem shallow_step (h : Shallow m) (hp : PossibleNow m e) (hd : Direct m e) :
    Shallow (stepProgram m e).2 := by
  have heffect := step_effect h.locked e
  generalize (stepProgram m e).2 = t at heffect
  cases heffect with
  | same hsame =>
    refine ⟨hsame.locked h.locked, hsame.runs ▸ h.length, ?_⟩
    rw [hsame.runs, hsame.rsp0]
    exact h.nested
  | @entered x path t r hent _ =>
    have hruns : t.runs = [r] := by
      rw [hent.runs, show m.runs = [] from hp]
    refine ⟨hent.locked, ?_, fun htwo => ?_⟩
    · rw [hruns]
      exact Nat.le_succ 1
    · rw [hruns] at htwo
      cases htwo
  | @nested _ _ r hnested call =>
    have hone : m.runs.length ≤ 1 ∧ (m.runs.length = 1 → m.rsp0 = .syscall) := by
      by_cases hidle : m.runs = []
      · rw [hidle]
        exact ⟨Nat.zero_le _, nofun⟩
      · have hs : m.rsp0 = .syscall := hd call hidle
        refine ⟨?_, fun _ => hs⟩
        by_contra hlong
        have hnested := h.nested (by have := h.length; omega)
        rw [hs] at hnested
        cases hnested.1
    refine ⟨hnested.locked, ?_, fun htwo => ⟨hnested.rsp0, fun r' hr' => ?_⟩⟩
    · rw [hnested.runs, List.length_cons]
      omega
    · rw [hnested.runs] at htwo hr'
      obtain rfl := Option.some.inj hr'
      rw [hnested.savedRsp0]
      exact hone.2 (Nat.succ.inj htwo)
  | @returned _ _ _ r rest hm hruns hshell hcaller =>
    have hlen := h.length
    rw [hm, List.length_cons] at hlen
    refine ⟨?_, by rw [hruns]; omega, fun htwo => ?_⟩
    · by_cases hs : r.purpose = .shell
      · exact (hshell hs).2.trans h.locked
      · exact locked_of_ctx (hcaller hs).2
    · rw [hruns] at htwo
      omega

theorem shallow_executes (h : Executes Direct m) : Shallow m := by
  induction h with
  | boot m _ _ idle _ locked _ _ =>
    refine ⟨locked, ?_, fun htwo => ?_⟩
    · rw [idle]
      exact Nat.zero_le 2
    · rw [idle] at htwo
      cases htwo
  | step e _ possible ok ih => exact shallow_step ih possible ok

/-- The states while a program runs that was started inside a system call made in `m`. -/
inductive During (m : Machine) : Machine → Prop where
  | started (e : ProgramEvent) (possible : PossibleNow m e) (call : Starts m e)
      (deeper : m.runs.length < (stepProgram m e).2.runs.length) : During m (stepProgram m e).2
  | step {t : Machine} (e : ProgramEvent) (h : During m t) (possible : PossibleNow t e)
      (deeper : m.runs.length < (stepProgram t e).2.runs.length) : During m (stepProgram t e).2

/-- The run that was started in `m` is still there, with what it was started from. -/
structure Carries (m t : Machine) : Prop where
  locked : t.schedulerUnlocked = false
  runs : ∃ pre r, t.runs = pre ++ r :: m.runs ∧ r.savedCtx = m.activeCtx ∧
    r.savedRsp0 = m.rsp0 ∧ r.purpose ≠ .shell

theorem During.carries (h : During m t) (hlock : m.schedulerUnlocked = false) : Carries m t := by
  induction h with
  | started e possible call deeper =>
    have heffect := step_effect hlock e
    generalize (stepProgram m e).2 = t at heffect deeper
    cases heffect with
    | same hsame =>
      rw [hsame.runs] at deeper
      exact absurd deeper (Nat.lt_irrefl _)
    | entered => exact call.elim
    | @nested _ _ r hn _ =>
      exact ⟨hn.locked, [], r, hn.runs, hn.savedCtx, hn.savedRsp0, hn.purpose⟩
    | returned => exact call.elim
  | @step t e _ possible deeper ih =>
    obtain ⟨hlocked, pre, r, hruns, hctx, hrsp0, hpurpose⟩ := ih
    have heffect := step_effect hlocked e
    generalize (stepProgram t e).2 = u at heffect deeper
    cases heffect with
    | same hsame =>
      exact ⟨hsame.locked hlocked, pre, r, hsame.runs.trans hruns, hctx, hrsp0, hpurpose⟩
    | @entered x path _ r' hent _ =>
      have hidle : t.runs = [] := possible
      rw [hidle] at hruns
      exact absurd hruns.symm (by simp)
    | @nested _ _ r' hn _ =>
      exact ⟨hn.locked, r' :: pre, r, by rw [hn.runs, hruns]; rfl, hctx, hrsp0, hpurpose⟩
    | @returned _ _ _ r' rest hbefore hafter hshell hcaller =>
      cases pre with
      | nil =>
        rw [hbefore] at hruns
        rw [hafter, (List.cons.inj hruns).2] at deeper
        exact absurd deeper (Nat.lt_irrefl _)
      | cons a pre =>
        rw [hbefore] at hruns
        refine ⟨?_, pre, r, hafter.trans (List.cons.inj hruns).2, hctx, hrsp0, hpurpose⟩
        by_cases hs : r'.purpose = .shell
        · exact (hshell hs).2.trans hlocked
        · exact locked_of_ctx (hcaller hs).2

theorem restored (h : During m t) (hlock : m.schedulerUnlocked = false) (hp : PossibleNow t e)
    (hend : (stepProgram t e).2.runs.length = m.runs.length) :
    (stepProgram t e).2.rsp0 = m.rsp0 ∧ (stepProgram t e).2.activeCtx = m.activeCtx := by
  obtain ⟨hlocked, pre, r, hruns, hctx, hrsp0, hpurpose⟩ := h.carries hlock
  have hlen := congrArg List.length hruns
  rw [List.length_append, List.length_cons] at hlen
  have heffect := step_effect hlocked e
  generalize (stepProgram t e).2 = u at heffect hend
  cases heffect with
  | same hsame =>
    rw [hsame.runs] at hend
    omega
  | entered hent _ =>
    rw [hent.runs, List.length_cons] at hend
    omega
  | nested hn _ =>
    rw [hn.runs, List.length_cons] at hend
    omega
  | @returned _ _ _ r' rest hbefore hafter hshell hcaller =>
    rw [hbefore, List.length_cons] at hlen
    rw [hafter] at hend
    obtain rfl : pre = [] := List.eq_nil_of_length_eq_zero (by omega)
    rw [hbefore] at hruns
    obtain ⟨rfl, -⟩ := List.cons.inj hruns
    obtain ⟨hr, hc⟩ := hcaller hpurpose
    refine ⟨hr.trans hrsp0, hc.trans ?_⟩
    rw [hctx]
    unfold Machine.activeCtx
    rw [hlock]

/-- As long as programs are started only by programs that the kernel started itself, no running
program uses the stack of a system call in progress; and a nested program gives back the stack and
the context that its caller had. -/
theorem nested_stacks_differ (h : Executes Direct m) : m.rsp0 ∉ suspendedStacks m ∧
    ∀ t e, During m t → PossibleNow t e → (stepProgram t e).2.runs.length = m.runs.length →
      (stepProgram t e).2.rsp0 = m.rsp0 ∧ (stepProgram t e).2.activeCtx = m.activeCtx := by
  obtain ⟨hlocked, hlen, hstacks⟩ := shallow_executes h
  refine ⟨?_, fun t e hd hp hend => restored hd hlocked hp hend⟩
  unfold suspendedStacks
  match hm : m.runs with
  | [] => exact List.not_mem_nil
  | [r] => exact List.not_mem_nil
  | [r, r'] =>
    obtain ⟨hnested, hhead⟩ := hstacks (by rw [hm]; rfl)
    rw [hnested, show [r, r'].dropLast.map Run.savedRsp0 = [r.savedRsp0] from rfl,
      hhead r (by rw [hm]; rfl)]
    decide
  | r :: r' :: r'' :: rest =>
    rw [hm] at hlen
    exact absurd hlen (by simp)

def image : Image := ⟨true, 0, 0, 0⟩

/-- "/ex/servicehost.elf". -/
def hostPath : List UInt8 :=
  [47, 101, 120, 47, 115, 101, 114, 118, 105, 99, 101, 104, 111, 115, 116, 46, 101, 108, 102]

def startHost : ProgramEvent := .start image hostPath

def callHost : ProgramEvent := .host image hostPath

def nestedHost : Machine := (stepProgram (stepProgram bootMachine startHost).2 callHost).2

theorem nested_host_stack : nestedHost.rsp0 ∉ suspendedStacks nestedHost :=
  (nested_stacks_differ (((bootMachine_executes Direct).step startHost rfl nofun).step callHost
    (List.cons_ne_nil _ _) fun _ _ => rfl)).1

/-- A program hosts a service that calls a service, and so does that one: the second host is
suspended on the stack that is installed for the third. -/
theorem third_program_shares_stack : ∃ m, Executes (fun _ _ => True) m ∧ m.runs.length = 3 ∧
    m.rsp0 ∈ suspendedStacks m := by
  have hnested := ((bootMachine_executes fun _ _ => True).step startHost rfl trivial).step callHost
    (List.cons_ne_nil _ _) trivial
  exact ⟨_, hnested.step callHost (List.cons_ne_nil _ _) trivial, by decide, by decide⟩

end UserMode
