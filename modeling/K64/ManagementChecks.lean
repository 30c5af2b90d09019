import K64.ManagementCommands

/-! # Authority for what a line manages

Which effects need which authority, the paths of the dispatcher on which nobody asks for it, and what
the commands that do ask log. -/
namespace Management
open Accounts

variable (env : Environment) (s : UserState)

def Authorised (e : UserState × Action) : Prop :=
  match e.2 with
  | .serviceStarted v | .serviceStopped v =>
    isPublicService v.name = true ∨ canManageService e.1 v = true
  | .driverStarted _ | .driverStopped _ => canManageDrivers e.1 = true
  | .partitioned _ | .formatted _ | .installed _ => userIsRoot e.1 = true

/-- What a line does, with the sessions that it does it in. -/
def performed (line : Str) (m : Machine) : List (UserState × Action) :=
  (shellHandleCommand env s line m).log.drop m.log.length

/-- The session and the line behind every `sudo`, unless the shell refuses the line. -/
def behindSudo : ℕ → UserState → Str → Option (UserState × Str)
  | 0, _, _ => none
  | n + 1, s, line =>
    if userIsLoggedIn s = false ∧ allowedWithoutLogin line = false then none
    else
      match shellParseCommand line with
      | .sudoMode rest =>
        if rest = [] ∨ userCanSudo s = false then none else behindSudo n (userBeginSudoScope s) rest
      | _ => some (s, line)

variable (m : Machine)

/-- The name is of a stopped service that can be started. -/
def startable (name : Str) : Bool :=
  ((findServiceByName env name).bind fun v => findService env v.pid).any fun w =>
    !m.running w.pid && w.controllable && w.startOk

def driverStartable (name : Str) : Bool :=
  ((findDriverByName env name).bind fun d => findDriver env d.id).any fun d =>
    !m.driverRunning d.id && d.controllable && d.startOk

def driverRunning (name : Str) : Bool :=
  ((findDriverByName env name).bind fun d => findDriver env d.id).any fun d => m.driverRunning d.id

/-- Only effective root manages the service. -/
def restricted (name : Str) : Bool := (findServiceByName env name).any fun v => v.classId != .user

/-- A registered command takes the line. -/
def answered (command args : Str) : Bool :=
  served env m command && (handlerOf command != .other || env.answers command args)

/-- No command and no service takes the line, so that it goes to the drivers. -/
def fallsThrough (command args : Str) : Prop :=
  answered env m command args = false ∧ startable env m command = false ∧
    ∀ v, findServiceByName env command = some v →
      m.running v.pid = false ∧ (isPublicService command = true ∨ canManageService s v = true)

/-- A candidate in the Linux directories is tried before a program is found. -/
def leadsToLinux (args : Str) : List Str → Bool
  | [] => false
  | path :: rest =>
    runsLinux env path ||
      !(!pathIsLinuxCompat path && spawnsCandidate env path args) && leadsToLinux args rest

/-- `partition <disk> k64 yes` for a whole disk. -/
structure PartitionAccepted (args : Str) : Prop where
  disk : ∃ dev, env.device (userNextToken 32 args).1 = some dev ∧ dev.isPartition = false ∧
    dev.online = true ∧ dev.blockSize = 512
  named : (userNextToken 32 args).1 ≠ []
  scheme : (userNextToken 16 (userNextToken 32 args).2).1 = schemeWord
  confirmed : (userNextToken 16 (userNextToken 16 (userNextToken 32 args).2).2).1 = yesWord
  writes : env.writesMbr (userNextToken 32 args).1 = true

/-- `install <device> yes`, or the wizard with a disk confirmed. -/
inductive InstallAccepted (args : Str) : Prop
  | wizard (device : Str) (asked : (userNextToken 32 args).1 = wizardWord)
      (confirmed : device ∈ env.wizard) (writes : env.installs device = true)
  | device (named : (userNextToken 32 args).1 ≠ []) (notWizard : (userNextToken 32 args).1 ≠ wizardWord)
      (notUser : (userNextToken 32 args).1 ≠ userWord)
      (confirmed : (userNextToken 16 (userNextToken 32 args).2).1 = yesWord)
      (writes : env.installs (userNextToken 32 args).1 = true)

inductive WritesDisk (command args : Str) : Prop
  | partition (sub : (storagectlSub command args).1 = partitionWord)
      (accepted : PartitionAccepted env (storagectlSub command args).2)
  | install (sub : (storagectlSub command args).1 = installWord)
      (accepted : InstallAccepted env (storagectlSub command args).2)

/-- The paths of the dispatcher on which nobody asks for the authority that their effect needs. -/
inductive Unchecked (line : Str) : Prop
  | servicectl (parsed : shellParseCommand line = .servicectl [])
      (offline : isServiceRunning env m servicectlWord = false)
      (starts : startable env m servicectlWord = true) (needs : restricted env servicectlWord = true)
  | driverctl (parsed : shellParseCommand line = .other)
      (word : afterWord (line.dropWhile isSpace) driverctlWord = some [])
      (offline : isServiceRunning env m driverctlWord = false)
      (starts : startable env m driverctlWord = true) (needs : restricted env driverctlWord = true)
  | storage (parsed : shellParseCommand line = .unknown)
      (served : served env m (userNextToken 96 line).1 = true)
      (handler : handlerOf (userNextToken 96 line).1 = .storagectl)
      (writes : WritesDisk env (userNextToken 96 line).1 (userNextToken 96 line).2)
  | driver (parsed : shellParseCommand line = .unknown)
      (falls : fallsThrough env s m (userNextToken 96 line).1 (userNextToken 96 line).2)
      (starts : driverStartable env m (userNextToken 96 line).1 = true)
  | linux (parsed : shellParseCommand line = .unknown)
      (falls : fallsThrough env s m (userNextToken 96 line).1 (userNextToken 96 line).2)
      (noDriver : driverRunning env m (userNextToken 96 line).1 = false ∧
        driverStartable env m (userNextToken 96 line).1 = false)
      (path : leadsToLinux env (userNextToken 96 line).2
        (candidates env (userNextToken 96 line).1) = true)
      (starts : startable env m klcsWord = true) (needs : restricted env klcsWord = true)

variable {env s m} {m' m'' : Machine}

def Checked (m m' : Machine) : Prop := ∃ es, m'.log = m.log ++ es ∧ ∀ e ∈ es, Authorised e

def Violated (m m' : Machine) : Prop := ∃ es, m'.log = m.log ++ es ∧ ∃ e ∈ es, ¬ Authorised e

theorem Checked.of_log (h : m'.log = m.log) : Checked m m' :=
  ⟨[], by rw [h, List.append_nil], by simp⟩

theorem Checked.refl : Checked m m := .of_log rfl

theorem Checked.trans (h : Checked m m') (k : Checked m' m'') : Checked m m'' := by
  obtain ⟨es, hlog, hes⟩ := h
  obtain ⟨fs, hlog', hfs⟩ := k
  refine ⟨es ++ fs, by rw [hlog', hlog, List.append_assoc], fun e he => ?_⟩
  rcases List.mem_append.mp he with he | he
  · exact hes e he
  · exact hfs e he

theorem Checked.of_one {e : UserState × Action} (h : m'.log = m.log ++ [e]) (he : Authorised e) :
    Checked m m' :=
  ⟨[e], h, by simpa using he⟩

theorem Violated.of_one {e : UserState × Action} (h : m'.log = m.log ++ [e]) (he : ¬ Authorised e) :
    Violated m m' :=
  ⟨[e], h, e, List.mem_singleton_self e, he⟩

variable {v : Service}

theorem findService_pid {pid : ℕ} (h : findService env pid = some v) : v.pid = pid := by
  simpa using List.find?_some h

variable {name : Str}

theorem findServiceByName_name (h : findServiceByName env name = some v) :
    v.name = name := by
  simpa using List.find?_some h

theorem numbered_class {w : Service} (hv : findServiceByName env name = some v)
    (hw : findService env v.pid = some w) : w.name = name ∧ w.classId = v.classId := by
  have hsame := env.numbered w (List.mem_of_find?_eq_some hw) v (List.mem_of_find?_eq_some hv)
    (findService_pid hw)
  exact ⟨hsame.1.trans (findServiceByName_name hv), hsame.2⟩

theorem systemStartService_cases (env : Environment) (s : UserState) (pid : ℕ) (m : Machine) :
    (∃ v, findService env pid = some v ∧ m.running v.pid = false ∧ v.controllable = true ∧
      v.startOk = true ∧ (systemStartService env s pid m).1 = .ok ∧
      (systemStartService env s pid m).2.log = m.log ++ [(s, .serviceStarted v)] ∧
      (systemStartService env s pid m).2.running = Function.update m.running v.pid true) ∨
    ((findService env pid).any (fun v => !m.running v.pid && v.controllable && v.startOk) = false ∧
      (systemStartService env s pid m).1 ≠ .ok ∧ (systemStartService env s pid m).2.log = m.log ∧
      (systemStartService env s pid m).2.running = m.running ∧
      (systemStartService env s pid m).2.driverRunning = m.driverRunning ∧
      ((systemStartService env s pid m).1 = .alreadyRunning ↔
        (findService env pid).any (fun v => m.running v.pid) = true)) := by
  unfold systemStartService
  rcases hfind : findService env pid with _ | v
  · exact .inr ⟨rfl, by simp, rfl, rfl, rfl, by simp⟩
  · rcases hrun : m.running v.pid with _ | _
    · rcases hcontrol : v.controllable with _ | _
      · exact .inr (by simp [hrun, hcontrol])
      · rcases hok : v.startOk with _ | _
        · exact .inr (by simp [hrun, hcontrol, hok, performStart])
        · exact .inl ⟨v, by simp [hrun, hcontrol, hok, performStart]⟩
    · exact .inr (by simp [hrun])

section Allowed

variable (pid : ℕ)
  (h : ∀ v, findService env pid = some v → isPublicService v.name = true ∨ canManageService s v = true)

include h

theorem startService_checked : Checked m (systemStartService env s pid m).2 := by
  rcases systemStartService_cases env s pid m with ⟨v, hv, -, -, -, -, hlog, -⟩ | ⟨-, -, hlog, -⟩
  · exact .of_one hlog (h v hv)
  · exact .of_log hlog

theorem stopService_checked : Checked m (systemStopService env s pid m).2 := by
  unfold systemStopService
  split
  · exact .refl
  next v hv =>
    split
    · exact .refl
    · split
      · exact .refl
      · split
        · exact .refl
        · exact .of_one rfl (h v hv)

theorem restartService_checked : Checked m (systemRestartService env s pid m).2 := by
  unfold systemRestartService
  have hstop := stopService_checked (m := m) pid h
  simp only
  split
  · exact hstop
  · exact hstop.trans (startService_checked pid h)

end Allowed

theorem authority_by_number {w : Service} (hv : findServiceByName env name = some v)
    (hw : findService env v.pid = some w)
    (h : isPublicService name = true ∨ canManageService s v = true) :
    isPublicService w.name = true ∨ canManageService s w = true := by
  obtain ⟨hname, hclass⟩ := numbered_class hv hw
  rw [hname]
  refine h.imp_right fun h => ?_
  rw [canManageService, hclass]
  exact h

theorem startByName_checked (name : Str)
    (h : ∀ v, findServiceByName env name = some v →
      isPublicService name = true ∨ canManageService s v = true) :
    Checked m (systemStartServiceByName env s name m).2 := by
  unfold systemStartServiceByName
  split
  · exact .refl
  next v hv => exact startService_checked v.pid fun w hw => authority_by_number hv hw (h v hv)

theorem startByName_of_startable (s : UserState) (h : startable env m name = true) :
    ∃ v w, findServiceByName env name = some v ∧ w.name = name ∧ w.classId = v.classId ∧
      (systemStartServiceByName env s name m).1 = .ok ∧
      (systemStartServiceByName env s name m).2.log = m.log ++ [(s, .serviceStarted w)] ∧
      startable env (systemStartServiceByName env s name m).2 name = false := by
  unfold startable at h ⊢
  unfold systemStartServiceByName
  rcases hv : findServiceByName env name with _ | v
  · simp [hv] at h
  · simp only [hv, Option.bind_some] at h ⊢
    rcases systemStartService_cases env s v.pid m with
      ⟨w, hw, -, -, -, hok, hlog, hrun⟩ | ⟨hnot, -⟩
    · obtain ⟨hname, hclass⟩ := numbered_class hv hw
      exact ⟨v, w, rfl, hname, hclass, hok, hlog, by simp [hw, hrun]⟩
    · exact absurd h (by simp [hnot])

theorem startByName_of_not_startable (s : UserState)
    (h : startable env m name = false) :
    (systemStartServiceByName env s name m).1 ≠ .ok ∧
      (systemStartServiceByName env s name m).2.log = m.log ∧
      (systemStartServiceByName env s name m).2.running = m.running ∧
      (systemStartServiceByName env s name m).2.driverRunning = m.driverRunning ∧
      ((systemStartServiceByName env s name m).1 = .alreadyRunning →
        ∃ v, findServiceByName env name = some v ∧ m.running v.pid = true) := by
  unfold startable at h
  unfold systemStartServiceByName
  rcases hv : findServiceByName env name with _ | v
  · simp
  · simp only [hv, Option.bind_some] at h ⊢
    rcases systemStartService_cases env s v.pid m with
      ⟨w, hw, hrun, hcontrol, hok, -⟩ | ⟨-, hne, hlog, hrun, hdrv, halready⟩
    · simp [hw, hrun, hcontrol, hok] at h
    · refine ⟨hne, hlog, hrun, hdrv, fun hresult => ⟨v, rfl, ?_⟩⟩
      have hany := halready.mp hresult
      rcases hw : findService env v.pid with _ | w
      · simp [hw] at hany
      · rw [← findService_pid hw]
        simpa [hw] using hany

theorem startByName_of_running (s : UserState)
    (hv : findServiceByName env name = some v) (hrun : m.running v.pid = true) :
    (systemStartServiceByName env s name m).1 = .alreadyRunning := by
  obtain ⟨w, hw⟩ : ∃ w, findService env v.pid = some w :=
    Option.isSome_iff_exists.mp (List.find?_isSome.mpr
      ⟨v, List.mem_of_find?_eq_some hv, beq_self_eq_true v.pid⟩)
  have hrunning : m.running w.pid = true := by rwa [findService_pid hw]
  simp [systemStartServiceByName, systemStartService, hv, hw, hrunning]

theorem startByName_violated (hroot : userIsRoot s = false)
    (hpublic : isPublicService name = false) (hstart : startable env m name = true)
    (hneeds : restricted env name = true) :
    Violated m (systemStartServiceByName env s name m).2 := by
  obtain ⟨v, w, hv, hname, hclass, -, hlog, -⟩ := startByName_of_startable s hstart
  refine .of_one hlog ?_
  have huser : v.classId ≠ .user := by simpa [restricted, hv] using hneeds
  simp [Authorised, canManageService, hname, hpublic, hroot, hclass, huser]

theorem startByName_checked_of (h : userIsRoot s = true ∨
      ¬ (startable env m name = true ∧ restricted env name = true)) :
    Checked m (systemStartServiceByName env s name m).2 := by
  rcases hstart : startable env m name with _ | _
  · exact .of_log (startByName_of_not_startable s hstart).2.1
  · refine startByName_checked name fun v hv => .inr ?_
    rcases h with hroot | hneeds
    · simp [canManageService, hroot]
    · have huser : v.classId = .user := by
        by_contra hne
        exact hneeds ⟨hstart, by simpa [restricted, hv] using hne⟩
      simp [canManageService, huser]

theorem driver_checked (env m) (h : userIsRoot s = true) (id : ℕ) :
    Checked m (modulesStartDriver env s id m).2 ∧ Checked m (modulesStopDriver env s id m).2 := by
  constructor
  · unfold modulesStartDriver
    repeat' split
    all_goals first | exact .refl | exact .of_one rfl h
  · unfold modulesStopDriver
    repeat' split
    all_goals first | exact .refl | exact .of_one rfl h

theorem restartDriver_checked (h : userIsRoot s = true) (id : ℕ) :
    Checked m (modulesRestartDriver env s id m).2 := by
  unfold modulesRestartDriver
  have hstop := (driver_checked env m h id).2
  simp only
  split
  · exact hstop
  · exact hstop.trans (driver_checked _ _ h id).1

theorem startDriverByName_of_startable (s : UserState)
    (h : driverStartable env m name = true) :
    ∃ d, (modulesStartDriverByName env s name m).1 = .ok ∧
      (modulesStartDriverByName env s name m).2.log = m.log ++ [(s, .driverStarted d)] := by
  unfold driverStartable at h
  unfold modulesStartDriverByName
  rcases hd : findDriverByName env name with _ | d
  · simp [hd] at h
  · simp only [hd, Option.bind_some] at h ⊢
    unfold modulesStartDriver
    rcases hw : findDriver env d.id with _ | w
    · simp [hw] at h
    · obtain ⟨⟨hrun, hcontrol⟩, hok⟩ : (m.driverRunning w.id = false ∧ w.controllable = true) ∧
          w.startOk = true := by simpa [hw] using h
      exact ⟨w, by simp [hrun, hcontrol, hok], by simp [hrun, hcontrol, hok, Machine.record]⟩

theorem startDriverByName_of_not_startable (s : UserState)
    (h : driverStartable env m name = false) :
    (modulesStartDriverByName env s name m).2 = m ∧
      (modulesStartDriverByName env s name m).1 ≠ .ok ∧
      ((modulesStartDriverByName env s name m).1 = .alreadyRunning ↔
        driverRunning env m name = true) := by
  unfold driverStartable at h
  unfold modulesStartDriverByName driverRunning
  rcases hd : findDriverByName env name with _ | d
  · simp
  · simp only [hd, Option.bind_some] at h ⊢
    unfold modulesStartDriver
    rcases hw : findDriver env d.id with _ | w
    · simp
    · rcases hrun : m.driverRunning w.id with _ | _
      · rcases hcontrol : w.controllable with _ | _
        · simp [hrun, hcontrol]
        · have hok : w.startOk = false := by simpa [hw, hrun, hcontrol] using h
          simp [hrun, hcontrol, hok]
      · simp [hrun]

theorem servicectlAction_checked (action : Str) (pid : ℕ) :
    Checked m (servicectlAction env s action pid m) := by
  unfold servicectlAction
  rcases hfind : findService env pid with _ | v
  · exact .refl
  · simp only
    split
    · exact .refl
    next hmanage =>
      have hright : ∀ w, findService env pid = some w →
          isPublicService w.name = true ∨ canManageService s w = true := by
        rintro w hw
        obtain rfl : v = w := Option.some.inj (hfind.symm.trans hw)
        exact .inr (Bool.of_not_eq_false hmanage)
      split
      · exact startService_checked pid hright
      · split
        · exact stopService_checked pid hright
        · split
          · exact restartService_checked pid hright
          · exact .refl

variable (args : Str)

theorem servicectlCommand_checked : Checked m (servicectlCommand env s args m) := by
  unfold servicectlCommand
  simp only
  split
  · exact .refl
  · split
    · exact .refl
    · exact servicectlAction_checked _ _

theorem driverctlAction_checked (action : Str) (id : ℕ) :
    Checked m (driverctlAction env s action id m) := by
  unfold driverctlAction canManageDrivers
  split
  · exact .refl
  next hroot =>
    have hroot := Bool.of_not_eq_false hroot
    split
    · exact (driver_checked _ _ hroot id).1
    · split
      · exact (driver_checked _ _ hroot id).2
      · split
        · exact restartDriver_checked hroot id
        · exact .refl

theorem driverctlCommand_checked : Checked m (driverctlCommand env s args m) := by
  unfold driverctlCommand
  simp only
  split
  · exact .refl
  · split
    · exact .refl
    · exact driverctlAction_checked _ _

theorem reloadCommand_checked : Checked m (reloadCommand env s args m) := by
  unfold reloadCommand
  simp only
  split
  · exact .refl
  next hroot =>
    split
    · exact startByName_checked_of (.inl (Bool.of_not_eq_false hroot))
    · exact .refl

theorem xfsctlCommand_checked : Checked m (xfsctlCommand env s args m) := by
  unfold xfsctlCommand
  simp only
  split
  · exact .refl
  next hasked =>
    split
    · exact .of_one rfl (Bool.of_not_eq_false fun hroot => hasked (.inr hroot))
    · exact .refl

theorem partition_log (env s m) (args : Str) :
    PartitionAccepted env args ∧ (storagectlPartition env s args m).log =
        m.log ++ [(s, .partitioned (userNextToken 32 args).1)] ∨
      ¬ PartitionAccepted env args ∧ storagectlPartition env s args m = m := by
  unfold storagectlPartition
  simp only
  rcases hdev : env.device (userNextToken 32 args).1 with _ | dev
  · refine .inr ⟨fun h => ?_, rfl⟩
    obtain ⟨dev, hsome, -⟩ := h.disk
    simp [hdev] at hsome
  · simp only
    split
    next hbad =>
      refine .inr ⟨fun h => ?_, rfl⟩
      obtain ⟨dev', hsome, hpart, honline, hsize⟩ := h.disk
      obtain rfl : dev = dev' := Option.some.inj (hdev.symm.trans hsome)
      simp [h.named, hpart, honline, hsize] at hbad
    next hgood =>
      simp only [not_or, Bool.not_eq_true, Bool.not_eq_false, not_not] at hgood
      split
      next hasked => exact .inr ⟨fun h => by simp [h.scheme, h.confirmed] at hasked, rfl⟩
      next hasked =>
        simp only [not_or, not_not] at hasked
        split
        next hwrites =>
          exact .inl ⟨⟨⟨dev, hdev, hgood.2.1, hgood.2.2.1, hgood.2.2.2⟩, hgood.1, hasked.1, hasked.2,
            hwrites⟩, rfl⟩
        next hwrites => exact .inr ⟨fun h => hwrites h.writes, rfl⟩

theorem wizard_log (devices : List Str) (m : Machine) :
    (devices.foldl (fun m device => installerRunInstall env s device m) m).log =
      m.log ++ (devices.filter env.installs).map fun device => (s, .installed device) := by
  induction devices generalizing m with
  | nil => simp
  | cons device rest ih =>
    rw [List.foldl_cons, ih]
    rcases hwrites : env.installs device with _ | _
    · simp [installerRunInstall, hwrites]
    · simp [installerRunInstall, hwrites, Machine.record]

theorem install_log (env s m) (args : Str) :
    (InstallAccepted env args ∧ ∃ devices, devices ≠ [] ∧ (storagectlInstall env s args m).log =
        m.log ++ devices.map fun device => (s, .installed device)) ∨
      ¬ InstallAccepted env args ∧ (storagectlInstall env s args m).log = m.log := by
  unfold storagectlInstall
  simp only
  split
  next hnone =>
    refine .inr ⟨fun h => ?_, rfl⟩
    cases h with
    | wizard _ asked => exact absurd (hnone.symm.trans asked) (by decide)
    | device named => exact named hnone
  next hnamed =>
    split
    next hwizard =>
      rw [wizard_log]
      rcases hlist : env.wizard.filter env.installs with _ | ⟨device, rest⟩
      · refine .inr ⟨fun h => ?_, by simp⟩
        cases h with
        | wizard device _ confirmed writes =>
          have hmem := List.mem_filter.mpr ⟨confirmed, writes⟩
          simp [hlist] at hmem
        | device _ notWizard => exact notWizard hwizard
      · have hmem := List.mem_filter.mp
          (hlist ▸ List.mem_cons_self : device ∈ env.wizard.filter env.installs)
        exact .inl ⟨.wizard device hwizard hmem.1 hmem.2, device :: rest, by simp, rfl⟩
    next hwizard =>
      split
      next huser =>
        refine .inr ⟨fun h => ?_, rfl⟩
        cases h with
        | wizard _ asked => exact hwizard asked
        | device _ _ notUser => exact notUser huser
      next huser =>
        split
        next hconfirm =>
          refine .inr ⟨fun h => ?_, rfl⟩
          cases h with
          | wizard _ asked => exact hwizard asked
          | device _ _ _ confirmed => exact hconfirm confirmed
        next hconfirm =>
          unfold installerRunInstall
          split
          next hwrites =>
            exact .inl ⟨.device hnamed hwizard huser (not_not.mp hconfirm) hwrites,
              [(userNextToken 32 args).1], by simp, rfl⟩
          next hwrites =>
            refine .inr ⟨fun h => ?_, rfl⟩
            cases h with
            | wizard _ asked => exact hwizard asked
            | device _ _ _ _ writes => exact hwrites writes

theorem storagectl_log (env s m) (command args : Str) :
    (WritesDisk env command args ∧ ∃ acts : List Action, acts ≠ [] ∧
        (∀ a ∈ acts, Authorised (s, a) ↔ userIsRoot s = true) ∧
        (storagectlCommand env s command args m).log = m.log ++ acts.map fun a => (s, a)) ∨
      ¬ WritesDisk env command args ∧ (storagectlCommand env s command args m).log = m.log := by
  unfold storagectlCommand
  simp only
  split
  next hsub =>
    rcases partition_log env s m (storagectlSub command args).2 with
      ⟨hok, hlog⟩ | ⟨hno, hlog⟩
    · exact .inl ⟨.partition hsub hok, [_], by simp, by simp [Authorised], hlog⟩
    · refine .inr ⟨fun h => ?_, by rw [hlog]⟩
      cases h with
      | partition _ accepted => exact hno accepted
      | install sub => exact absurd (hsub.symm.trans sub) (by decide)
  next hsub =>
    split
    next hinstall =>
      rcases install_log env s m (storagectlSub command args).2 with
        ⟨hok, devices, hne, hlog⟩ | ⟨hno, hlog⟩
      · refine .inl ⟨.install hinstall hok, devices.map .installed, by simpa using hne, ?_, ?_⟩
        · simp [Authorised]
        · rw [hlog, List.map_map]
          rfl
      · refine .inr ⟨fun h => ?_, hlog⟩
        cases h with
        | partition sub => exact hsub sub
        | install _ accepted => exact hno accepted
    next hinstall =>
      refine .inr ⟨fun h => ?_, rfl⟩
      cases h with
      | partition sub => exact hsub sub
      | install sub => exact hinstall sub

theorem storagectl_checked (command args : Str)
    (h : userIsRoot s = true ∨ ¬ WritesDisk env command args) :
    Checked m (storagectlCommand env s command args m) := by
  rcases storagectl_log env s m command args with
    ⟨hwrites, acts, -, hacts, hlog⟩ | ⟨-, hlog⟩
  · refine ⟨_, hlog, fun e he => ?_⟩
    obtain ⟨a, ha, rfl⟩ := List.mem_map.mp he
    exact (hacts a ha).mpr (h.resolve_right (not_not.mpr hwrites))
  · exact .of_log hlog

theorem storagectl_violated (command args : Str) (hroot : userIsRoot s = false)
    (h : WritesDisk env command args) : Violated m (storagectlCommand env s command args m) := by
  rcases storagectl_log env s m command args with
    ⟨-, acts, hne, hacts, hlog⟩ | ⟨hno, -⟩
  · obtain ⟨a, ha⟩ := List.exists_mem_of_ne_nil acts hne
    refine ⟨_, hlog, (s, a), List.mem_map.mpr ⟨a, ha, rfl⟩, fun hauth => ?_⟩
    exact absurd ((hacts a ha).mp hauth) (by simp [hroot])
  · exact absurd h hno

end Management
