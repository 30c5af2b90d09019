import K64.ManagementChecks

/-! # Lines of the shell and their authority

The dispatcher line by line: what is on none of the unchecked paths is authorised, and what is on one
of them is not, unless the session is effective root. -/
namespace Management
open Accounts

variable {env : Environment} {s : UserState} {m : Machine}

theorem dispatch_answered (command args : Str) :
    (systemDispatchCommand env s command args m).1 = answered env m command args := by
  unfold systemDispatchCommand answered
  split
  next hserved =>
    rw [hserved]
    unfold runHandler
    split
    all_goals
      next hhandler => simp [hhandler]
  next hserved => simp [Bool.of_not_eq_true hserved]

variable {command args : Str}

theorem dispatch_of_not_answered
    (h : answered env m command args = false) :
    (systemDispatchCommand env s command args m).2 = m := by
  unfold answered at h
  unfold systemDispatchCommand runHandler
  split
  next hserved =>
    rw [hserved, Bool.true_and, Bool.or_eq_false_iff] at h
    have hother : handlerOf command = .other := by simpa using h.1
    simp [hother]
  next => rfl

theorem dispatch_other (h : handlerOf command = .other) (args : Str) :
    (systemDispatchCommand env s command args m).2 = m := by
  unfold systemDispatchCommand runHandler
  split
  · simp [h]
  · rfl

theorem dispatch_checked
    (h : userIsRoot s = true ∨ ¬ (served env m command = true ∧ handlerOf command = .storagectl ∧
      WritesDisk env command args)) :
    Checked m (systemDispatchCommand env s command args m).2 := by
  unfold systemDispatchCommand
  split
  next hserved =>
    unfold runHandler
    split
    next hhandler =>
      exact storagectl_checked command args (h.imp_right fun h hw => h ⟨hserved, hhandler, hw⟩)
    · exact xfsctlCommand_checked args
    · exact servicectlCommand_checked args
    · exact driverctlCommand_checked args
    · exact reloadCommand_checked args
    · exact .refl
  · exact .refl

theorem dispatch_violated (hroot : userIsRoot s = false)
    (hserved : served env m command = true) (hhandler : handlerOf command = .storagectl)
    (hwrites : WritesDisk env command args) :
    Violated m (systemDispatchCommand env s command args m).2 := by
  unfold systemDispatchCommand
  rw [if_pos hserved]
  unfold runHandler
  rw [hhandler]
  exact storagectl_violated command args hroot hwrites

theorem publicCommand_checked {name : Str} (hpublic : isPublicService name = true)
    (hhandler : handlerOf name = .other) : Checked m (shellRunPublicCommand env s name m) := by
  unfold shellRunPublicCommand
  simp only
  split
  · exact .of_log (by rw [dispatch_other hhandler])
  · rw [dispatch_other hhandler]
    exact startByName_checked name fun _ _ => .inl hpublic

theorem linuxPath_log (path args : Str) :
    (shellRunLinuxPath env s path args m).2 = (systemStartServiceByName env s klcsWord m).2 := by
  unfold shellRunLinuxPath
  simp only
  split
  · rfl
  · split
    · rfl
    · exact dispatch_other (by decide) _

theorem tryCandidates_of_not_startable (args : Str) (paths : List Str)
    (h : startable env m klcsWord = false) :
    (tryCandidates env s args paths m).2.log = m.log := by
  induction paths generalizing m with
  | nil => rfl
  | cons path rest ih =>
    have hcandidate : (shellTryExecutePathCandidate env s path args m).2.log = m.log ∧
        startable env (shellTryExecutePathCandidate env s path args m).2 klcsWord = false := by
      unfold shellTryExecutePathCandidate
      split
      · obtain ⟨-, hlog, hrun, -⟩ := startByName_of_not_startable s h
        rw [linuxPath_log]
        refine ⟨hlog, ?_⟩
        unfold startable at h ⊢
        rw [hrun]
        exact h
      · split
        · exact ⟨rfl, h⟩
        · exact ⟨rfl, h⟩
    rw [tryCandidates]
    split
    · exact hcandidate.1
    · rw [ih hcandidate.2, hcandidate.1]

theorem tryCandidates_log (args : Str) (paths : List Str) (h : startable env m klcsWord = true) :
    (tryCandidates env s args paths m).2.log =
      if leadsToLinux env args paths then (systemStartServiceByName env s klcsWord m).2.log
      else m.log := by
  induction paths with
  | nil => rfl
  | cons path rest ih =>
    rw [tryCandidates, leadsToLinux]
    unfold shellTryExecutePathCandidate
    rcases hlinux : runsLinux env path with _ | _
    · rcases hcompat : pathIsLinuxCompat path with _ | _
      · rcases hspawns : spawnsCandidate env path args with _ | _
        · simpa using ih
        · simp
      · simpa using ih
    · obtain ⟨_, _, -, -, -, -, -, hafter⟩ := startByName_of_startable s h
      simp only [if_true, Bool.true_or]
      split
      · rw [linuxPath_log]
      · rw [tryCandidates_of_not_startable args rest (by rwa [linuxPath_log]), linuxPath_log]

variable {line : Str}

theorem unknown_of_fallsThrough
    (h : fallsThrough env s m (userNextToken 96 line).1 (userNextToken 96 line).2) :
    ∃ m₁ : Machine, m₁.log = m.log ∧ m₁.running = m.running ∧ m₁.driverRunning = m.driverRunning ∧
      shellHandleUnknown env s line m =
        let driver := modulesStartDriverByName env s (userNextToken 96 line).1 m₁
        if driver.1 = .ok ∨ driver.1 = .alreadyRunning then driver.2
        else (shellTryExecuteInpath env s (userNextToken 96 line).1 (userNextToken 96 line).2
          driver.2).2 := by
  obtain ⟨hanswer, hstart, hservice⟩ := h
  obtain ⟨hne, hlog, hrun, hdrv, halready⟩ := startByName_of_not_startable s hstart
  refine ⟨(systemStartServiceByName env s (userNextToken 96 line).1 m).2, hlog, hrun, hdrv, ?_⟩
  have hrefused : (findServiceByName env (userNextToken 96 line).1).any (fun v =>
      !isPublicService (userNextToken 96 line).1 && !canManageService s v) = false := by
    rcases hv : findServiceByName env (userNextToken 96 line).1 with _ | v
    · rfl
    · rcases (hservice v hv).2 with hpublic | hmanage
      · simp [hpublic]
      · simp [hmanage]
  have hresult : ¬ ((systemStartServiceByName env s (userNextToken 96 line).1 m).1 = .ok ∨
      (systemStartServiceByName env s (userNextToken 96 line).1 m).1 = .alreadyRunning) := by
    rintro (hok | hrunning)
    · exact hne hok
    · obtain ⟨v, hv, hon⟩ := halready hrunning
      simp [(hservice v hv).1] at hon
  simp only [shellHandleUnknown, dispatch_answered, hanswer, dispatch_of_not_answered hanswer,
    hrefused, hresult, Bool.false_eq_true, if_false]

theorem unknown_checked_of_taken
    (hstorage : userIsRoot s = true ∨ ¬ (served env m (userNextToken 96 line).1 = true ∧
      handlerOf (userNextToken 96 line).1 = .storagectl ∧
      WritesDisk env (userNextToken 96 line).1 (userNextToken 96 line).2))
    (h : ¬ fallsThrough env s m (userNextToken 96 line).1 (userNextToken 96 line).2) :
    Checked m (shellHandleUnknown env s line m) := by
  have hdispatch := dispatch_checked (m := m) hstorage
  unfold shellHandleUnknown
  simp only [dispatch_answered]
  split
  · exact hdispatch
  next hanswer =>
    have hanswer := Bool.of_not_eq_true hanswer
    rw [dispatch_of_not_answered hanswer]
    split
    · exact .refl
    next hrefused =>
      have hright : ∀ v, findServiceByName env (userNextToken 96 line).1 = some v →
          isPublicService (userNextToken 96 line).1 = true ∨ canManageService s v = true := by
        intro v hv
        by_contra hnone
        rw [not_or, Bool.not_eq_true, Bool.not_eq_true] at hnone
        exact hrefused (by simp [hv, hnone.1, hnone.2])
      have hservice := startByName_checked (m := m) (userNextToken 96 line).1 hright
      split
      · exact hservice
      next hresult =>
        rw [not_or] at hresult
        have hstart : startable env m (userNextToken 96 line).1 = false := by
          by_contra hstart
          obtain ⟨_, _, -, -, -, hok, -⟩ :=
            startByName_of_startable s (Bool.of_not_eq_false hstart)
          exact hresult.1 hok
        refine absurd ⟨hanswer, hstart, fun v hv => ⟨?_, hright v hv⟩⟩ h
        by_contra hon
        exact hresult.2 (startByName_of_running s hv (Bool.of_not_eq_false hon))

theorem unknown_checked (hparse : shellParseCommand line = .unknown)
    (h : userIsRoot s = true ∨ ¬ Unchecked env s m line) :
    Checked m (shellHandleUnknown env s line m) := by
  by_cases hfalls : fallsThrough env s m (userNextToken 96 line).1 (userNextToken 96 line).2
  · obtain ⟨m₁, hlog, hrun, hdrv, hline⟩ := unknown_of_fallsThrough hfalls
    have hdriver : driverStartable env m₁ (userNextToken 96 line).1 =
        driverStartable env m (userNextToken 96 line).1 := by simp only [driverStartable, hdrv]
    have hrunning : driverRunning env m₁ (userNextToken 96 line).1 =
        driverRunning env m (userNextToken 96 line).1 := by simp only [driverRunning, hdrv]
    have hstartable : startable env m₁ klcsWord = startable env m klcsWord := by
      simp only [startable, hrun]
    refine (Checked.of_log hlog).trans ?_
    rw [hline]
    rcases hdrv : driverStartable env m (userNextToken 96 line).1 with _ | _
    · obtain ⟨hsame, hne, halready⟩ := startDriverByName_of_not_startable s (hdriver.trans hdrv)
      rw [hrunning] at halready
      simp only [hsame]
      split
      · exact .refl
      next hresult =>
        rcases hstart : startable env m₁ klcsWord with _ | _
        · exact .of_log (tryCandidates_of_not_startable _ _ hstart)
        · have hsearch := tryCandidates_log (s := s) (userNextToken 96 line).2
            (candidates env (userNextToken 96 line).1) hstart
          split at hsearch
          next hpath =>
            have hklcs : userIsRoot s = true ∨
                ¬ (startable env m₁ klcsWord = true ∧ restricted env klcsWord = true) :=
              h.imp_right fun h hneeds => h (.linux hparse hfalls
                ⟨Bool.of_not_eq_true fun hon => hresult (.inr (halready.mpr hon)), hdrv⟩ hpath
                (hstartable ▸ hneeds.1) hneeds.2)
            obtain ⟨es, hes, hok⟩ := startByName_checked_of hklcs
            exact ⟨es, hsearch.trans hes, hok⟩
          next => exact .of_log hsearch
    · obtain ⟨d, hok, hstarted⟩ := startDriverByName_of_startable s (hdriver.trans hdrv)
      simp only [hok, true_or, if_true]
      have hroot := h.resolve_right (not_not.mpr (.driver hparse hfalls hdrv))
      exact .of_one hstarted hroot
  · exact unknown_checked_of_taken
      (h.imp_right fun h hs => h (.storage hparse hs.1 hs.2.1 hs.2.2)) hfalls

theorem unknown_violated (hroot : userIsRoot s = false)
    (hparse : shellParseCommand line = .unknown) (h : Unchecked env s m line) :
    Violated m (shellHandleUnknown env s line m) := by
  cases h with
  | servicectl parsed | driverctl parsed => exact absurd (hparse.symm.trans parsed) (by simp)
  | storage _ served handler writes =>
    have hbad := dispatch_violated (m := m) hroot served handler writes
    unfold shellHandleUnknown
    have hanswer : answered env m (userNextToken 96 line).1 (userNextToken 96 line).2 = true := by
      simp [answered, served, handler]
    simp only [dispatch_answered, hanswer, if_true]
    exact hbad
  | driver _ falls starts =>
    obtain ⟨m₁, hlog, -, hdrv, hline⟩ := unknown_of_fallsThrough falls
    have hdriver : driverStartable env m₁ (userNextToken 96 line).1 = true := by
      simpa only [driverStartable, hdrv] using starts
    obtain ⟨d, hok, hstarted⟩ := startDriverByName_of_startable s hdriver
    rw [hline]
    simp only [hok, true_or, if_true]
    exact .of_one (by rw [hstarted, hlog]) (by simp [Authorised, canManageDrivers, hroot])
  | linux _ falls noDriver path starts needs =>
    obtain ⟨m₁, hlog, hrun, hdrv, hline⟩ := unknown_of_fallsThrough falls
    have hdriver : driverStartable env m₁ (userNextToken 96 line).1 = false := by
      simpa only [driverStartable, hdrv] using noDriver.2
    have hrunning : driverRunning env m₁ (userNextToken 96 line).1 = false := by
      simpa only [driverRunning, hdrv] using noDriver.1
    obtain ⟨hsame, hne, halready⟩ := startDriverByName_of_not_startable s hdriver
    have hstart : startable env m₁ klcsWord = true := by simpa only [startable, hrun] using starts
    have hresult : ¬ ((modulesStartDriverByName env s (userNextToken 96 line).1 m₁).1 = .ok ∨
        (modulesStartDriverByName env s (userNextToken 96 line).1 m₁).1 = .alreadyRunning) := by
      rintro (hok | hon)
      · exact hne hok
      · simp [halready.mp hon] at hrunning
    obtain ⟨es, hes, hbad⟩ := startByName_violated (m := m₁) hroot (by decide) hstart needs
    refine ⟨es, ?_, hbad⟩
    rw [hline]
    simp only [hresult, if_false, hsame]
    have hsearch := tryCandidates_log (s := s) (userNextToken 96 line).2
      (candidates env (userNextToken 96 line).1) hstart
    rw [if_pos path] at hsearch
    exact hsearch.trans (by rw [hes, hlog])

theorem other_checked (hparse : shellParseCommand line = .other)
    (h : userIsRoot s = true ∨ ¬ Unchecked env s m line) : Checked m (handleOther env s line m) := by
  unfold handleOther
  simp only
  split
  next args hword =>
    unfold shellHandleDriverctl
    split
    next hoff =>
      split
      next hargs =>
        subst hargs
        exact startByName_checked_of
          (h.imp_right fun h hneeds => h (.driverctl hparse hword hoff hneeds.1 hneeds.2))
      · exact .refl
    · exact driverctlCommand_checked args
  · exact reloadCommand_checked _
  · split
    · exact publicCommand_checked (by decide) (by decide)
    · split
      · exact publicCommand_checked (by decide) (by decide)
      · exact .refl

theorem other_violated (hroot : userIsRoot s = false)
    (hparse : shellParseCommand line = .other) (h : Unchecked env s m line) :
    Violated m (handleOther env s line m) := by
  cases h with
  | driverctl _ word offline starts needs =>
    have hline : handleOther env s line m = (systemStartServiceByName env s driverctlWord m).2 := by
      simp [handleOther, word, shellHandleDriverctl, offline]
    rw [hline]
    exact startByName_violated hroot (by decide) starts needs
  | servicectl parsed | storage parsed | driver parsed | linux parsed =>
    exact absurd (hparse.symm.trans parsed) (by simp)

theorem servicectl_checked (hparse : shellParseCommand line = .servicectl args)
    (h : userIsRoot s = true ∨ ¬ Unchecked env s m line) :
    Checked m (shellHandleServicectl env s args m) := by
  unfold shellHandleServicectl
  split
  next hoff =>
    split
    next hargs =>
      subst hargs
      exact startByName_checked_of
        (h.imp_right fun h hneeds => h (.servicectl hparse hoff hneeds.1 hneeds.2))
    · exact .refl
  · exact servicectlCommand_checked args

theorem servicectl_violated (hroot : userIsRoot s = false)
    (hparse : shellParseCommand line = .servicectl args) (h : Unchecked env s m line) :
    Violated m (shellHandleServicectl env s args m) := by
  cases h with
  | servicectl parsed offline starts needs =>
    obtain rfl : args = [] := by
      rw [hparse] at parsed
      injection parsed
    have hline : shellHandleServicectl env s [] m =
        (systemStartServiceByName env s servicectlWord m).2 := by
      simp [shellHandleServicectl, offline]
    rw [hline]
    exact startByName_violated hroot (by decide) starts needs
  | driverctl parsed | storage parsed | driver parsed | linux parsed =>
    exact absurd (hparse.symm.trans parsed) (by simp)

theorem empty_checked (hparse : shellParseCommand line = .empty) :
    ¬ Unchecked env s m line := by
  intro h
  cases h with
  | servicectl parsed | driverctl parsed | storage parsed | driver parsed | linux parsed =>
    exact absurd (hparse.symm.trans parsed) (by simp)

/-- By induction on the `sudo`s in front of the line. -/
theorem shellRun_checked (n : ℕ)
    (h : ∀ s' line', behindSudo n s line = some (s', line') →
      userIsRoot s' = true ∨ ¬ Unchecked env s' m line') :
    Checked m (shellRun env n s line m) := by
  induction n generalizing s line with
  | zero => exact .refl
  | succ n ih =>
    unfold behindSudo at h
    unfold shellRun
    split at h
    next hrefused => exact (if_pos hrefused).symm ▸ .refl
    next hallowed =>
      rw [if_neg hallowed]
      rcases hparse : shellParseCommand line with _ | _ | args | rest | _
      · exact .refl
      · exact other_checked hparse (h s line (by rw [hparse]))
      · exact servicectl_checked hparse (h s line (by rw [hparse]))
      · simp only [hparse] at h ⊢
        split
        · exact .refl
        next hsudo => exact ih fun s' line' hreach => h s' line' (by rw [if_neg hsudo, hreach])
      · exact unknown_checked hparse (h s line (by rw [hparse]))

theorem shellRun_violated (n : ℕ) {line' : Str} {s' : UserState}
    (hreach : behindSudo n s line = some (s', line')) (hroot : userIsRoot s' = false)
    (h : Unchecked env s' m line') : Violated m (shellRun env n s line m) := by
  induction n generalizing s line with
  | zero => simp [behindSudo] at hreach
  | succ n ih =>
    unfold behindSudo at hreach
    unfold shellRun
    split at hreach
    · simp at hreach
    next hallowed =>
      rw [if_neg hallowed]
      rcases hparse : shellParseCommand line with _ | _ | args | rest | _ <;>
        simp only [hparse] at hreach ⊢
      case sudoMode =>
        split at hreach
        · simp at hreach
        next hsudo =>
          rw [if_neg hsudo]
          exact ih hreach
      all_goals
        obtain ⟨rfl, rfl⟩ := Prod.mk.inj (Option.some.inj hreach)
      case empty => exact absurd h (empty_checked hparse)
      case other => exact other_violated hroot hparse h
      case servicectl => exact servicectl_violated hroot hparse h
      case unknown => exact unknown_violated hroot hparse h

theorem performed_of_log {es : List (UserState × Action)}
    (h : (shellHandleCommand env s line m).log = m.log ++ es) : performed env s line m = es := by
  rw [performed, h, List.drop_left]

/-- A line starts, stops and writes nothing without authority if and only if the line behind its
`sudo`s is on none of the unchecked paths, or effective root gives it. -/
theorem line_authorised_iff_checked (env : Environment) (s : UserState) (line : Str) (m : Machine) :
    (∀ e ∈ performed env s line m, Authorised e) ↔
      ∀ s' line', behindSudo (line.length + 1) s line = some (s', line') →
        userIsRoot s' = true ∨ ¬ Unchecked env s' m line' := by
  constructor
  · intro hall s' line' hreach
    by_contra hnone
    rw [not_or, Bool.not_eq_true, not_not] at hnone
    obtain ⟨es, hlog, e, he, hbad⟩ := shellRun_violated (m := m) _ hreach hnone.1 hnone.2
    exact hbad (hall e (performed_of_log hlog ▸ he))
  · intro h
    obtain ⟨es, hlog, hes⟩ := shellRun_checked (m := m) _ h
    rwa [performed_of_log hlog]

/-- A machine that runs `storagectl` and nothing else, with the disk "ata0" and nobody logged in. -/
def installService : Service :=
  ⟨40, storagectlWord, .system, false, true, true, [storagectlWord, syncWord, installWord]⟩

def liveEnvironment : Environment where
  services := [installService]
  numbered := by
    intro v hv w hw _
    rw [List.mem_singleton.mp hv, List.mem_singleton.mp hw]
    exact ⟨rfl, rfl⟩
  drivers := []
  device := fun name => if name = [97, 116, 97, 48] then some ⟨false, true, 512⟩ else none
  writesMbr := fun _ => true
  installs := fun _ => true
  formats := fun _ => true
  wizard := []
  answers := fun _ _ => true
  fileExists := fun _ => false
  spawns := fun _ _ => false
  inpath := none

def liveMachine : Machine where
  running := fun pid => pid == 40
  verified := fun pid => pid == 40
  driverRunning := fun _ => false
  commands := [⟨installWord, storagectlWord⟩]
  log := []

def nobody : UserState := ⟨true, none, false, [], []⟩

/-- "install ata0 yes". -/
def installLine : Str :=
  [105, 110, 115, 116, 97, 108, 108, 32, 97, 116, 97, 48, 32, 121, 101, 115]

/-- Nobody is logged in, and the disk is installed to. -/
theorem disk_installed_before_login :
    ∃ e ∈ performed liveEnvironment nobody installLine liveMachine, ¬ Authorised e := by
  refine ⟨(nobody, .installed [97, 116, 97, 48]), ?_,
    by simp [Authorised, nobody, userIsRoot, sessionAccount]⟩
  have hlog : performed liveEnvironment nobody installLine liveMachine =
      [(nobody, .installed [97, 116, 97, 48])] := rfl
  rw [hlog]
  exact List.mem_singleton_self _

end Management
