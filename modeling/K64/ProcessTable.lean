import K64.NestedPrograms
import K64.PipeReferences

/-! # Entries of the process table

An entry is free, or of a running process, or kept for the parent that can still collect it. -/
namespace UserMode

variable {m t : Machine} {e : ProgramEvent} {r : Run} {s u : State} {i j : ℕ}

variable {pid : UInt64}

theorem processFindUsed_some (h : processFindUsed s pid = some i) :
    i < processMax ∧ (s.processTable i).used = true ∧ (s.processTable i).pid = pid := by
  have hmem := List.mem_of_find?_eq_some h
  have hfound := List.find?_some h
  rw [Bool.and_eq_true, beq_iff_eq] at hfound
  exact ⟨List.mem_range.1 hmem, hfound⟩

theorem processSlot_some (h : processSlot s pid = some i) :
    i < processMax ∧ ((s.processTable i).used = true → pid ≠ 0 ∧ (s.processTable i).pid = pid) := by
  have hfirst : (List.range processMax).find? (fun i => !(s.processTable i).used) = some i →
      i < processMax ∧ ((s.processTable i).used = true → pid ≠ 0 ∧ (s.processTable i).pid = pid) := by
    intro hfind
    have hfree := List.find?_some hfind
    refine ⟨List.mem_range.1 (List.mem_of_find?_eq_some hfind), fun hu => ?_⟩
    rw [hu] at hfree
    cases hfree
  unfold processSlot at h
  by_cases hpid : pid ≠ 0
  · rw [if_pos hpid] at h
    cases hused : processFindUsed s pid with
    | some k =>
      rw [hused] at h
      obtain rfl := Option.some.inj h
      obtain ⟨hlt, -, hfound⟩ := processFindUsed_some hused
      exact ⟨hlt, fun _ => ⟨hpid, hfound⟩⟩
    | none =>
      rw [hused] at h
      exact hfirst h
  · rw [if_neg hpid] at h
    exact hfirst h

/-- The entry that `process_alloc` fills in. -/
structure Fills (s u : State) (parentPid pid : UInt64) (i : ℕ) : Prop where
  lt : i < processMax
  slot : (s.processTable i).used = true → pid ≠ 0 ∧ (s.processTable i).pid = pid
  next : u.nextUserPid =
    if (if pid ≠ 0 then pid else s.nextUserPid) ≥ (if pid ≠ 0 then s.nextUserPid else
      s.nextUserPid + 1) then (if pid ≠ 0 then pid else s.nextUserPid) + 1
    else if pid ≠ 0 then s.nextUserPid else s.nextUserPid + 1
  live : Live u i
  pid : (u.processTable i).pid = if pid ≠ 0 then pid else s.nextUserPid
  parent : (u.processTable i).parentPid = parentPid
  others : ∀ j, j ≠ i → u.processTable j = s.processTable j

theorem processAlloc_cases (s : State) (parentPid pid : UInt64) :
    processAlloc s parentPid pid = (none, s) ∨
    ∃ i u, processAlloc s parentPid pid = (some i, u) ∧ Fills s u parentPid pid i := by
  unfold processAlloc
  cases hslot : processSlot s pid with
  | none => exact Or.inl rfl
  | some i =>
    obtain ⟨hlt, hused⟩ := processSlot_some hslot
    refine Or.inr ⟨i, _, rfl, hlt, hused, rfl, ?_, ?_, ?_,
      fun j hj => Function.update_of_ne hj _ _⟩
    · unfold Live
      dsimp only [State.setProcess]
      rw [Function.update_self]
      exact ⟨rfl, rfl⟩
    · dsimp only [State.setProcess]
      rw [Function.update_self]
    · dsimp only [State.setProcess]
      rw [Function.update_self]

theorem processFinish_cases (s : State) (i : ℕ) (state : ProcessState) (code : ℤ) :
    processFinish s i state code = s ∨ i < processMax ∧ (s.processTable i).used = true ∧
      processFinish s i state code =
        s.setProcess i fun p => { p with state := state, exitCode := code } := by
  unfold processFinish
  rw [Int.toNat_natCast]
  split
  · exact Or.inl rfl
  · rename_i hin
    refine Or.inr ⟨by omega, ?_, rfl⟩
    exact Bool.eq_true_of_not_eq_false fun hu => hin (Or.inr (Or.inr hu))

variable {state : ProcessState}

theorem processFinish_used {code : ℤ} (hlt : i < processMax)
    (hused : (s.processTable i).used = true) : processFinish s i state code =
      s.setProcess i fun p => { p with state := state, exitCode := code } := by
  unfold processFinish
  rw [if_neg, Int.toNat_natCast]
  rw [Int.toNat_natCast, hused]
  rintro (hneg | hbig | hunused)
  · omega
  · omega
  · cases hunused

theorem processReap_cases (s : State) (i : ℕ) :
    processReap s i = s ∧ (i < processMax → (s.processTable i).used = false) ∨
    i < processMax ∧ ((processReap s i).processTable i).used = false ∧
      ∀ j, j ≠ i → (processReap s i).processTable j = s.processTable j := by
  unfold processReap
  rw [Int.toNat_natCast]
  split
  · rename_i hout
    refine Or.inl ⟨rfl, fun hlt => ?_⟩
    obtain hneg | hbig | hunused := hout
    · omega
    · exact absurd hbig (by omega)
    · exact hunused
  · refine Or.inr ⟨by omega, ?_, fun j hj => Function.update_of_ne hj _ _⟩
    dsimp only [State.setProcess]
    rw [Function.update_self]

@[simp] theorem clearSpawnCtx_user (m : Machine) (pid : UInt64) :
    (clearSpawnCtx m pid).user = m.user := by
  unfold clearSpawnCtx
  split <;> rfl

def Linked : List Run → Prop
  | r :: r' :: rest => r.purpose ≠ .shell ∧ r.savedCtx.processIndex = r'.index ∧
      Linked (r' :: rest)
  | _ => True

structure Follows (m : Machine) : Prop where
  locked : m.schedulerUnlocked = false
  current : ∀ r ∈ m.runs.head?, m.user.processIndex = r.index
  linked : Linked m.runs

theorem SameProgram.processIndex (h : SameProgram m t) :
    t.user.processIndex = m.user.processIndex := congrArg ExecContext.processIndex h.ctx

theorem follows_step (h : Follows m) (hp : PossibleNow m e) : Follows (stepProgram m e).2 := by
  have heffect := step_effect h.locked e
  generalize (stepProgram m e).2 = t at heffect
  cases heffect with
  | same hsame =>
    refine ⟨hsame.locked h.locked, ?_, hsame.runs ▸ h.linked⟩
    rw [hsame.runs, hsame.processIndex]
    exact h.current
  | @entered _ _ _ r hent _ =>
    have hruns : t.runs = [r] := by rw [hent.runs, show m.runs = [] from hp]
    refine ⟨hent.locked, fun r' hr' => ?_, by rw [hruns]; trivial⟩
    rw [hruns] at hr'
    obtain rfl := Option.some.inj hr'
    exact hent.index
  | @nested _ _ r hn _ =>
    refine ⟨hn.locked, fun r' hr' => ?_, ?_⟩
    · rw [hn.runs] at hr'
      obtain rfl := Option.some.inj hr'
      exact hn.index
    · rw [hn.runs]
      cases hm : m.runs with
      | nil => trivial
      | cons r' rest =>
        refine ⟨hn.purpose, ?_, hm ▸ h.linked⟩
        rw [hn.savedCtx]
        exact h.current r' (by rw [hm]; rfl)
  | @returned _ _ _ r rest hm hruns hshell hcaller =>
    have hlinked := h.linked
    rw [hm] at hlinked
    have hlocked : t.schedulerUnlocked = false := by
      by_cases hs : r.purpose = .shell
      · exact (hshell hs).2.trans h.locked
      · exact locked_of_ctx (hcaller hs).2
    cases rest with
    | nil => exact ⟨hlocked, by rw [hruns]; exact nofun, by rw [hruns]; trivial⟩
    | cons r' rest =>
      obtain ⟨hpurpose, hsaved, hrest⟩ := hlinked
      refine ⟨hlocked, fun r'' hr'' => ?_, hruns ▸ hrest⟩
      rw [hruns] at hr''
      obtain rfl := Option.some.inj hr''
      exact (congrArg ExecContext.processIndex (hcaller hpurpose).2).trans hsaved

/-- A process that can wait for that one is running. -/
def Awaited (s : State) (i : ℕ) : Prop :=
  ∃ j < processMax, j ≠ i ∧ Live s j ∧ (s.processTable j).pid = (s.processTable i).parentPid

/-- None of its children has ended and waits to be collected. -/
def Childless (s : State) (i : ℕ) : Prop :=
  ∀ j < processMax, (s.processTable j).used = true → (s.processTable j).state ≠ .running →
    (s.processTable j).parentPid ≠ (s.processTable i).pid

instance (s : State) (i : ℕ) : Decidable (Childless s i) :=
  inferInstanceAs (Decidable (∀ j < processMax, _ → _ → _))

/-- If its process has ended, the parent can still collect it. -/
def Settled (s : State) (i : ℕ) : Prop :=
  (s.processTable i).used = true → (s.processTable i).state ≠ .running → Awaited s i

def Tidy (s : State) : Prop := ∀ i < processMax, Settled s i

theorem Awaited.mono (h : Awaited s i)
    (hparent : (u.processTable i).parentPid = (s.processTable i).parentPid)
    (hkeep : ∀ k, Live s k → (s.processTable k).pid = (s.processTable i).parentPid →
      Live u k ∧ (u.processTable k).pid = (s.processTable k).pid) : Awaited u i := by
  obtain ⟨k, hlt, hne, hlive, hpid⟩ := h
  obtain ⟨hlive', hpid'⟩ := hkeep k hlive hpid
  exact ⟨k, hlt, hne, hlive', by rw [hpid', hpid, hparent]⟩

theorem tidy_alloc (h : Tidy s) (parentPid pid : UInt64) :
    Tidy (processAlloc s parentPid pid).2 := by
  obtain heq | ⟨i, u, heq, hfills⟩ := processAlloc_cases s parentPid pid
  · rw [heq]
    exact h
  · rw [heq]
    intro j hlt hused hended
    by_cases hj : j = i
    · rw [hj] at hended
      exact absurd hfills.live.2 hended
    · rw [hfills.others j hj] at hused hended
      refine (h j hlt hused hended).mono (by rw [hfills.others j hj]) fun k hlive _ => ?_
      by_cases hk : k = i
      · subst hk
        obtain ⟨hpid, hsame⟩ := hfills.slot hlive.1
        refine ⟨hfills.live, ?_⟩
        rw [hfills.pid, if_pos hpid, hsame]
      · unfold Live
        rw [hfills.others k hk]
        exact ⟨hlive, rfl⟩

theorem settled_finish (h : Tidy s) (code : ℤ) (hc : Childless s i)
    (hlt : j < processMax) (hj : j ≠ i ∨ Awaited s i) :
    Settled (processFinish s i state code) j := by
  obtain heq | ⟨-, -, heq⟩ := processFinish_cases s i state code
  · rw [heq]
    exact h j hlt
  · rw [heq]
    have hother : ∀ {k}, k ≠ i → (s.setProcess i fun p => { p with
        state := state, exitCode := code }).processTable k = s.processTable k :=
      fun hk => Function.update_of_ne hk _ _
    intro hused hended
    by_cases hji : j = i
    · subst hji
      obtain ⟨k, hk, hne, hlive, hpid⟩ := hj.resolve_left (not_not_intro rfl)
      refine ⟨k, hk, hne, ?_, ?_⟩
      · unfold Live
        rw [hother hne]
        exact hlive
      · rw [hother hne, hpid]
        dsimp only [State.setProcess]
        rw [Function.update_self]
    · rw [hother hji] at hused hended
      refine (h j hlt hused hended).mono (by rw [hother hji]) fun k hlive hpid => ?_
      have hk : k ≠ i := by
        rintro rfl
        exact hc j hlt hused hended hpid.symm
      unfold Live
      rw [hother hk]
      exact ⟨hlive, rfl⟩

theorem settled_reap (h : ∀ j < processMax, j ≠ i → Settled s j)
    (hi : i < processMax → ¬ Live s i) : Tidy (processReap s i) := by
  intro j hlt
  obtain ⟨heq, hunused⟩ | ⟨hin, hfreed, hother⟩ := processReap_cases s i
  · rw [heq]
    by_cases hji : j = i
    · intro hused
      subst hji
      rw [hunused hlt] at hused
      cases hused
    · exact h j hlt hji
  · intro hused hended
    have hji : j ≠ i := by
      rintro rfl
      rw [hfreed] at hused
      cases hused
    rw [hother j hji] at hused hended
    refine (h j hlt hji hused hended).mono (by rw [hother j hji]) fun k hlive _ => ?_
    have hk : k ≠ i := by
      rintro rfl
      exact hi hin hlive
    unfold Live
    rw [hother k hk]
    exact ⟨hlive, rfl⟩

theorem not_live_finish (s : State) (i : ℕ) (hs : state ≠ .running)
    (code : ℤ) (hlt : i < processMax) : ¬ Live (processFinish s i state code) i := by
  rintro ⟨hused, hlive⟩
  unfold processFinish at hused hlive
  rw [Int.toNat_natCast] at hused hlive
  split at hused
  · rename_i hout
    obtain hneg | hbig | hunused := hout
    · omega
    · omega
    · rw [hunused] at hused
      cases hused
  · rename_i hin
    rw [if_neg hin] at hlive
    dsimp only [State.setProcess] at hlive
    rw [Function.update_self] at hlive
    exact hs hlive

/-- The child has to be run, but cannot be entered, and is ended at once. -/
def Fails (m : Machine) (x : Image) (pid parentPid : UInt64) (i : ℕ) : Prop :=
  (∃ k, findSpawnCtx m pid = some k ∧ (m.spawnCtx k).parentPid = parentPid) ∧
  (x.loads = false ∨ m.elfContextDepth ≥ elfContextMax) ∧
  processFindPid m.user pid = some i ∧ (m.user.processTable i).state = .running

/-- Ending leaves no entry that nobody can collect. -/
def EndsClean (s : State) (i : ℕ) : Prop := Childless s i ∧ Awaited s i

def readyCtx (m : Machine) (parentPid : UInt64) : Option ℕ :=
  (List.range spawnMax).find? fun i =>
    (m.spawnCtx i).used && (parentPid == 0 || (m.spawnCtx i).parentPid == parentPid)

def Run.Freed (r : Run) : Prop := r.parentPid = 0 ∧ r.pid = 0 ∧ isServiceHost r.path

/-- Whatever ends, by exit or fault or because its image does not load, has a running parent or is
freed at once, and none of its own children is left to be collected. -/
def CleanEnds (m : Machine) : ProgramEvent → Prop
  | .terminate .. => ∀ r ∈ m.runs.head?, Childless m.user r.index ∧
      (r.Freed ∨ Awaited m.user r.index)
  | .yield x => ∀ k, readyCtx m (currentProcessPid m.user) = some k →
      ∀ i, Fails m x (m.spawnCtx k).pid (m.spawnCtx k).parentPid i → EndsClean m.user i
  | .poll x => ∀ k, readyCtx m 0 = some k →
      ∀ i, Fails m x (m.spawnCtx k).pid (m.spawnCtx k).parentPid i → EndsClean m.user i
  | .wait x target _ => ∀ k, processFindPid m.user target = some k →
      ∀ i, Fails m x (m.user.processTable k).pid (currentProcessPid m.user) i → EndsClean m.user i
  | _ => True

theorem tidy_reservedChildEnd {ok : Bool} (h : Tidy m.user)
    (hclean : ok = false → ∀ i, processFindPid m.user pid = some i →
      (m.user.processTable i).state = .running → EndsClean m.user i) :
    Tidy (reservedChildEnd m ok pid).2.user := by
  unfold reservedChildEnd
  split
  · rw [clearSpawnCtx_user]
    exact h
  · rename_i i hfind
    have hfinish : Tidy (if ok = false ∧ (m.user.processTable i).state = .running then
        processFinish m.user i .faulted errNoent else m.user) := by
      split
      · rename_i hfails
        obtain ⟨hchildless, hawaited⟩ := hclean hfails.1 i hfind hfails.2
        exact fun j hlt => settled_finish h errNoent hchildless hlt (Or.inr hawaited)
      · exact h
    dsimp only
    generalize (if ok = false ∧ (m.user.processTable i).state = .running then
      processFinish m.user i .faulted errNoent else m.user) = user at hfinish
    split
    · exact hfinish
    · rw [clearSpawnCtx_user]
      exact hfinish

theorem tidy_collectChild {index : ℕ} (h : Tidy m.user)
    (hended : (m.user.processTable index).state ≠ .running) :
    Tidy (collectChild m index).2.user :=
  settled_reap (fun j hlt _ => h j hlt) fun _ hlive => hended hlive.2

theorem tidy_waitEnd (h : Tidy m.user) (status : ℤ) (target : UInt64) :
    Tidy (waitEnd m status target).2.user := by
  unfold waitEnd
  split
  · exact h
  · split
    · exact h
    · split
      · exact h
      · rename_i hended
        exact tidy_collectChild h hended

theorem tidy_runReservedChild {x : Image} {parentPid : UInt64} (h : Tidy m.user)
    (hclean : ∀ i, Fails m x pid parentPid i → EndsClean m.user i) (purpose : Purpose) :
    Tidy (runReservedChild m x pid parentPid purpose).2.user := by
  unfold runReservedChild
  split
  · exact h
  · rename_i k hctx
    split
    · exact h
    · rename_i hparent
      obtain ⟨ok, heq, hok⟩ | ⟨t, i, heq, hent, -⟩ := elfExecute_cases (beginNested m) x
        (m.spawnCtx k).path parentPid pid purpose m.activeCtx m.rsp0
      · rw [heq]
        exact tidy_reservedChildEnd h fun hfalse i hfind hrunning =>
          hclean i ⟨⟨k, hctx, not_not.1 hparent⟩, hok.1 hfalse, hfind, hrunning⟩
      · rw [heq]
        intro j hlt
        have htidy := tidy_alloc h parentPid pid j hlt
        unfold Settled Awaited Live at htidy ⊢
        rw [hent.table]
        exact htidy

theorem tidy_procWait {x : Image} {target : UInt64} (h : Tidy m.user)
    (hclean : ∀ k, processFindPid m.user target = some k → ∀ i,
      Fails m x (m.user.processTable k).pid (currentProcessPid m.user) i → EndsClean m.user i)
    (flags : UInt64) : Tidy (procWait m x target flags).2.user := by
  unfold procWait
  dsimp only
  split
  · exact h
  split
  · exact h
  rename_i index hfind
  split
  · exact h
  split
  · split
    · exact h
    · have hrun := tidy_runReservedChild h (hclean index hfind) (.wait target)
      generalize runReservedChild m x (m.user.processTable index).pid (currentProcessPid m.user)
        (.wait target) = res at hrun
      obtain ⟨_ | status, t⟩ := res
      · exact hrun
      · exact tidy_waitEnd hrun status target
  · rename_i hended
    exact tidy_collectChild h hended

theorem tidy_queueSpawn (h : Tidy m.user) (path args : List UInt8) :
    Tidy (queueSpawn m path args).2.user := by
  unfold queueSpawn
  split
  · exact h
  · dsimp only
    have halloc := tidy_alloc (s := { m.user with nextUserPid := m.user.nextUserPid + 1 }) h
      (currentProcessPid m.user) m.user.nextUserPid
    split <;>
    · rename_i heq
      rw [heq] at halloc
      exact halloc

theorem tidy_elfExecute {x : Image} {path : List UInt8} {parentPid : UInt64} {purpose : Purpose}
    {savedCtx : ExecContext} {savedRsp0 : KernelStack} (h : Tidy m.user) :
    Tidy (elfExecute m x path parentPid pid purpose savedCtx savedRsp0).2.user := by
  obtain ⟨ok, heq, -⟩ | ⟨t, i, heq, hent, -⟩ :=
    elfExecute_cases m x path parentPid pid purpose savedCtx savedRsp0
  · rw [heq]
    exact h
  · rw [heq]
    intro j hlt
    have htidy := tidy_alloc h parentPid pid j hlt
    unfold Settled Awaited Live at htidy ⊢
    rw [hent.table]
    exact htidy

theorem tidy_executeEnd (h : Tidy m.user)
    (hr : m.user.processIndex = r.index) (hs : state ≠ .running)
    (hchildless : Childless m.user r.index) (hfreed : r.Freed ∨ Awaited m.user r.index)
    (code : ℤ) (rest : List Run) : Tidy (executeEnd { m with
      user := processFinish m.user m.user.processIndex state code
      result := code
      active := false } r rest code).user := by
  have hsettled : ∀ j < processMax, j ≠ r.index ∨ Awaited m.user r.index →
      Settled (processFinish m.user r.index state code) j :=
    fun j hlt hj => settled_finish h code hchildless hlt hj
  have hended := not_live_finish m.user r.index hs code
  unfold executeEnd
  dsimp only
  rw [hr]
  generalize processFinish m.user r.index state code = u at hsettled hended
  have hsame : (if (u.processTable r.index).state = .running then
      processFinish u r.index .zombie code else u) = u := by
    split
    · rename_i hrunning
      obtain heq | ⟨hlt, hused, -⟩ := processFinish_cases u r.index .zombie code
      · exact heq
      · exact absurd ⟨hused, hrunning⟩ (hended hlt)
    · rfl
  rw [hsame]
  split
  · exact settled_reap (fun j hlt hj => hsettled j hlt (Or.inl hj)) hended
  · rename_i hkept
    exact fun j hlt => hsettled j hlt (Or.inr (hfreed.resolve_left hkept))

theorem tidy_returnToCaller (h : Tidy m.user) (r : Run) : Tidy (returnToCaller m r).2.user := by
  have hchild : Tidy (reservedChildEnd (endNested m r.savedCtx r.savedRsp0) true r.pid).2.user :=
    tidy_reservedChildEnd h nofun
  unfold returnToCaller
  cases r.purpose with
  | shell => exact h
  | host => exact h
  | child => exact hchild
  | wait target => exact tidy_waitEnd hchild _ target

theorem tidy_step (h : Tidy m.user) (hf : Follows m) (hp : PossibleNow m e) (hc : CleanEnds m e) :
    Tidy (stepProgram m e).2.user := by
  have hready : ∀ x parentPid, (∀ k, readyCtx m parentPid = some k →
      ∀ i, Fails m x (m.spawnCtx k).pid (m.spawnCtx k).parentPid i → EndsClean m.user i) →
      Tidy (runReadyChildForParent m x parentPid).user := by
    intro x parentPid hclean
    unfold runReadyChildForParent
    split
    · exact h
    · rename_i k hfind
      exact tidy_runReservedChild h (hclean k hfind) .child
  cases e with
  | start x path => exact tidy_elfExecute h
  | host x path =>
    change Tidy (executeNestedPathArgs m x path).user
    unfold executeNestedPathArgs
    have hexecute : Tidy (elfExecute (beginNested m) x path 0 0 .host m.activeCtx m.rsp0).2.user :=
      tidy_elfExecute h
    generalize elfExecute (beginNested m) x path 0 0 .host m.activeCtx m.rsp0 = res at hexecute
    obtain ⟨_ | ok, t⟩ := res
    · exact hexecute
    · exact hexecute
  | spawn path args => exact tidy_queueSpawn h path args
  | yield x => exact hready x _ hc
  | wait x target flags => exact tidy_procWait h hc flags
  | poll x =>
    change Tidy (if m.active then m else runReadyChildForParent m x 0).user
    split
    · exact h
    · exact hready x 0 hc
  | terminate state code =>
    unfold stepProgram
    cases hm : m.runs with
    | nil => exact h
    | cons r rest =>
      have hhead : r ∈ m.runs.head? := by rw [hm]; rfl
      obtain ⟨hchildless, hfreed⟩ := hc r hhead
      exact tidy_returnToCaller
        (tidy_executeEnd h (hf.current r hhead) hp.2 hchildless hfreed code rest) r

theorem tidy_executes (h : Executes CleanEnds m) : Tidy m.user ∧ Follows m := by
  induction h with
  | boot m processes _ idle _ locked _ _ =>
    refine ⟨fun i _ hused => ?_, locked, ?_, ?_⟩
    · rw [processes i] at hused
      cases hused
    · rw [idle]
      exact nofun
    · rw [idle]
      trivial
  | step e _ possible ok ih =>
    exact ⟨tidy_step ih.1 ih.2 possible ok, follows_step ih.2 possible⟩

theorem processAlloc_of_free (hlt : i < processMax) (hfree : (s.processTable i).used = false)
    (parentPid pid : UInt64) : (processAlloc s parentPid pid).1 ≠ none := by
  intro hnone
  unfold processAlloc at hnone
  cases hslot : processSlot s pid with
  | some k =>
    rw [hslot] at hnone
    cases hnone
  | none =>
    unfold processSlot at hslot
    have hfind : (List.range processMax).find? (fun i => !(s.processTable i).used) = none := by
      generalize (if pid ≠ 0 then processFindUsed s pid else none) = first at hslot
      cases first with
      | some k => cases hslot
      | none => exact hslot
    have hall := List.find?_eq_none.1 hfind i (List.mem_range.2 hlt)
    rw [hfree] at hall
    exact hall rfl

/-- As long as what ends can be collected or is freed, an ended process that is still in the table
can be collected by a running one, and with none running there is room in it. -/
theorem table_has_room (h : Executes CleanEnds m) : Tidy m.user ∧
    ((∀ i < processMax, ¬ Live m.user i) →
      ∀ parentPid pid, (processAlloc m.user parentPid pid).1 ≠ none) := by
  have htidy := (tidy_executes h).1
  refine ⟨htidy, fun hnone parentPid pid => ?_⟩
  refine processAlloc_of_free (show 0 < processMax by decide) ?_ parentPid pid
  by_contra hused
  have hused := Bool.eq_true_of_not_eq_false hused
  have hended : (m.user.processTable 0).state ≠ .running := fun hr =>
    hnone 0 (by decide) ⟨hused, hr⟩
  obtain ⟨k, hlt, -, hlive, -⟩ := htidy 0 (by decide) hused hended
  exact hnone k hlt hlive

def endProgram : ProgramEvent := .terminate .exited 0

def hostEnded : Machine := (stepProgram (stepProgram bootMachine startHost).2 endProgram).2

theorem host_leaves_room : (processAlloc hostEnded.user 0 0).1 ≠ none :=
  (table_has_room (((bootMachine_executes CleanEnds).step startHost rfl trivial).step endProgram
    ⟨List.cons_ne_nil _ _, nofun⟩ (by
      intro r hr
      obtain rfl := Option.some.inj hr
      exact ⟨by decide, Or.inl ⟨rfl, rfl, by decide⟩⟩))).2 (by decide) 0 0

/-- A program that is no service host, "/a". -/
def startPlain : ProgramEvent := .start image [47, 97]

def usedEntries (s : State) : Finset ℕ :=
  (Finset.range processMax).filter fun i => (s.processTable i).used

structure Idle (m : Machine) : Prop where
  runs : m.runs = []
  depth : m.elfContextDepth = 0
  ended : ∀ i < processMax, ¬ Live m.user i

theorem executeEnd_kept {result : ℤ} {rest : List Run}
    (hended : (m.user.processTable r.index).state ≠ .running) (hkept : ¬ r.Freed) :
    (executeEnd m r rest result).user = m.user := by
  unfold executeEnd
  dsimp only
  rw [if_neg hended]
  exact if_neg hkept

theorem plain_table (h : Idle m) (halloc : processAlloc m.user 0 0 = (some i, u))
    (hfills : Fills m.user u 0 0 i) : ∃ t, (stepProgram (stepProgram m startPlain).2 endProgram).2 = t ∧
      t.runs = [] ∧ t.elfContextDepth = 0 ∧ t.user.processTable =
        (u.setProcess i fun p => { p with state := .exited, exitCode := 0 }).processTable := by
  have hstart : (stepProgram m startPlain).2 =
      (elfExecute m image [47, 97] 0 0 .shell m.activeCtx m.rsp0).2 := rfl
  unfold elfExecute at hstart
  rw [h.depth, if_neg (by decide), halloc] at hstart
  dsimp only at hstart
  rw [hstart, h.runs]
  refine ⟨_, rfl, rfl, rfl, ?_⟩
  let v : State := { u with processIndex := i, fallbackFds := fun _ => Fd.clear }
  have hfinish : processFinish v (i : ℤ) .exited 0 =
      v.setProcess i fun p => { p with state := .exited, exitCode := 0 } :=
    processFinish_used hfills.lt hfills.live.1
  have hended : ¬ ((v.setProcess i fun p => { p with
      state := .exited, exitCode := 0 }).processTable i).state = .running := by
    dsimp only [State.setProcess]
    rw [Function.update_self]
    exact nofun
  refine (congrArg State.processTable (executeEnd_kept ?_ fun hfreed =>
    absurd hfreed.2.2 (show ¬ isServiceHost [47, 97] by decide))).trans ?_
  · change ((processFinish v i .exited 0).processTable i).state ≠ .running
    rw [hfinish]
    exact hended
  · change (processFinish v i .exited 0).processTable = _
    rw [hfinish]
    rfl

theorem plain_ends (h : Idle m) (halloc : processAlloc m.user 0 0 = (some i, u))
    (hfills : Fills m.user u 0 0 i) :
    Idle (stepProgram (stepProgram m startPlain).2 endProgram).2 ∧
    usedEntries (stepProgram (stepProgram m startPlain).2 endProgram).2.user =
      insert i (usedEntries m.user) := by
  obtain ⟨t, heq, hruns, hdepth, htable⟩ := plain_table h halloc hfills
  rw [heq]
  have hi : (t.user.processTable i).used = true ∧ (t.user.processTable i).state = .exited := by
    rw [htable]
    dsimp only [State.setProcess]
    rw [Function.update_self]
    exact ⟨hfills.live.1, rfl⟩
  have hother : ∀ j, j ≠ i → t.user.processTable j = m.user.processTable j := by
    intro j hj
    rw [htable, ← hfills.others j hj]
    exact Function.update_of_ne hj _ _
  refine ⟨⟨hruns, hdepth, fun j hlt hlive => ?_⟩, ?_⟩
  · by_cases hj : j = i
    · have hrunning := hlive.2
      rw [hj, hi.2] at hrunning
      cases hrunning
    · unfold Live at hlive
      rw [hother j hj] at hlive
      exact h.ended j hlt hlive
  · ext j
    unfold usedEntries
    rw [Finset.mem_insert, Finset.mem_filter, Finset.mem_filter, Finset.mem_range]
    by_cases hj : j = i
    · rw [hj]
      exact ⟨fun _ => Or.inl rfl, fun _ => ⟨hfills.lt, hi.1⟩⟩
    · rw [hother j hj]
      exact ⟨Or.inr, fun hor => hor.resolve_left hj⟩

theorem fills_up (n : ℕ) : ∃ m, Executes (fun _ _ => True) m ∧ Idle m ∧
    ((processAlloc m.user 0 0).1 = none ∨ n ≤ (usedEntries m.user).card) := by
  induction n with
  | zero =>
    refine ⟨bootMachine, bootMachine_executes _, ⟨rfl, rfl, fun i _ hlive => ?_⟩,
      Or.inr (Nat.zero_le _)⟩
    cases hlive.1
  | succ n ih =>
    obtain ⟨m, hm, hidle, hor⟩ := ih
    obtain heq | ⟨i, u, heq, hfills⟩ := processAlloc_cases m.user 0 0
    · exact ⟨m, hm, hidle, Or.inl (by rw [heq])⟩
    · have hn : n ≤ (usedEntries m.user).card := by
        refine hor.resolve_left ?_
        rw [heq]
        exact nofun
      have hfree : i ∉ usedEntries m.user := fun hmem =>
        (hfills.slot (Finset.mem_filter.1 hmem).2).1 rfl
      obtain ⟨hidle', hused⟩ := plain_ends hidle heq hfills
      have hstarted : (stepProgram m startPlain).2.runs ≠ [] := by
        have hstart : (stepProgram m startPlain).2 =
            (elfExecute m image [47, 97] 0 0 .shell m.activeCtx m.rsp0).2 := rfl
        unfold elfExecute at hstart
        rw [hidle.depth, if_neg (by decide), heq] at hstart
        rw [hstart]
        exact List.cons_ne_nil _ _
      refine ⟨_, (hm.step startPlain hidle.runs trivial).step endProgram ⟨hstarted, nofun⟩ trivial,
        hidle', Or.inr ?_⟩
      rw [hused, Finset.card_insert_of_notMem hfree]
      exact Nat.succ_le_succ hn

/-- Programs that the shell runs stay in the table when they have ended, and there is nobody to
collect them. -/
theorem ended_programs_fill_table : ∃ m, Executes (fun _ _ => True) m ∧
    (∀ i < processMax, ¬ Live m.user i) ∧ (processAlloc m.user 0 0).1 = none := by
  obtain ⟨m, hm, hidle, hnone | hcard⟩ := fills_up (processMax + 1)
  · exact ⟨m, hm, hidle.ended, hnone⟩
  · have hle : (usedEntries m.user).card ≤ processMax :=
      (Finset.card_filter_le _ _).trans (Finset.card_range processMax).le
    exact absurd (hcard.trans hle) (Nat.not_succ_le_self processMax)

end UserMode
