import K64.ShellAccounts

/-! # Command lines that manage the system

`shell_handle_command` as far as it starts and stops services and drivers and writes whole disks:
the control commands, the registered commands, the fallback for unknown commands and the search for
programs. Every effect is logged with the session that it happens in. -/
namespace Management
open Accounts

inductive ServiceClass where
  | kernel
  | system
  | root
  | user
  deriving DecidableEq

/-- What the start callback and the check of the ring 3 host answer is `startOk`; the callback
registers the commands `registers`. -/
structure Service where
  pid : ℕ
  name : Str
  classId : ServiceClass
  essential : Bool
  controllable : Bool
  startOk : Bool
  registers : List Str

structure Driver where
  id : ℕ
  name : Str
  controllable : Bool
  startOk : Bool

structure BlockDevice where
  isPartition : Bool
  online : Bool
  blockSize : ℕ

/-- What a line meets. Only the services of class kernel share a number, and all of these have the
name "kernel". Of the operations on whole disks it says which of them get to write; `wizard` are the
disks that the user of the installer wizard confirms, `answers` is what the commands return that
manage nothing, and `inpath` is the text of "/etc/path/inpath.cfg". -/
structure Environment where
  services : List Service
  numbered : ∀ v ∈ services, ∀ w ∈ services, v.pid = w.pid → v.name = w.name ∧ v.classId = w.classId
  drivers : List Driver
  device : Str → Option BlockDevice
  writesMbr : Str → Bool
  installs : Str → Bool
  formats : Str → Bool
  wizard : List Str
  answers : Str → Str → Bool
  fileExists : Str → Bool
  spawns : Str → Str → Bool
  inpath : Option Str

inductive Action where
  | serviceStarted (v : Service)
  | serviceStopped (v : Service)
  | driverStarted (d : Driver)
  | driverStopped (d : Driver)
  | partitioned (device : Str)
  | formatted (device : Str)
  | installed (device : Str)

structure ServiceCommand where
  name : Str
  owner : Str

/-- The services and drivers by their numbers, the active commands, and the log. -/
structure Machine where
  running : ℕ → Bool
  verified : ℕ → Bool
  driverRunning : ℕ → Bool
  commands : List ServiceCommand
  log : List (UserState × Action)

inductive ServiceResult where
  | ok
  | notFound
  | alreadyRunning
  | alreadyStopped
  | essential
  | unmanaged
  | startFailed
  deriving DecidableEq

def driverctlWord : Str := [100, 114, 105, 118, 101, 114, 99, 116, 108]

def reloadWord : Str := [114, 101, 108, 111, 97, 100]

def sysfetchWord : Str := [115, 121, 115, 102, 101, 116, 99, 104]

def unameWord : Str := [117, 110, 97, 109, 101]

def listWord : Str := [108, 105, 115, 116]

def stoppedWord : Str := [115, 116, 111, 112, 112, 101, 100]

def startWord : Str := [115, 116, 97, 114, 116]

def stopWord : Str := [115, 116, 111, 112]

def restartWord : Str := [114, 101, 115, 116, 97, 114, 116]

def driversWord : Str := [100, 114, 105, 118, 101, 114, 115]

def kernelWord : Str := [107, 101, 114, 110, 101, 108]

def yesWord : Str := [121, 101, 115]

/-- "k64". -/
def schemeWord : Str := [107, 54, 52]

def partitionWord : Str := [112, 97, 114, 116, 105, 116, 105, 111, 110]

def formatWord : Str := [102, 111, 114, 109, 97, 116]

def syncWord : Str := [115, 121, 110, 99]

def xfsctlWord : Str := [120, 102, 115, 99, 116, 108]

def klcsWord : Str := [107, 108, 99, 115]

def runqWord : Str := [114, 117, 110, 113, 32]

def elfSuffix : Str := [46, 101, 108, 102]

/-- "/compat/linux/". -/
def compatPath : Str := [47, 99, 111, 109, 112, 97, 116, 47, 108, 105, 110, 117, 120, 47]

def binPath : Str := [47, 98, 105, 110, 47]

def usrBinPath : Str := [47, 117, 115, 114, 47, 98, 105, 110, 47]

/-- "/ex\n/compat/linux/bin\n". -/
def defaultInpath : Str :=
  [47, 101, 120, 10, 47, 99, 111, 109, 112, 97, 116,
    47, 108, 105, 110, 117, 120, 47, 98, 105, 110, 10]

variable (env : Environment) (s : UserState)

def findService (pid : ℕ) : Option Service := env.services.find? fun v => v.pid == pid

def findServiceByName (name : Str) : Option Service := env.services.find? fun v => v.name == name

def findDriver (id : ℕ) : Option Driver := env.drivers.find? fun d => d.id == id

def findDriverByName (name : Str) : Option Driver := env.drivers.find? fun d => d.name == name

def isServiceRunning (m : Machine) (name : Str) : Bool :=
  (findServiceByName env name).any fun v => m.running v.pid

def canManageService (v : Service) : Bool := userIsRoot s || v.classId == .user

def canManageDrivers : Bool := userIsRoot s

def isPublicService (name : Str) : Bool := name == sysfetchWord || name == unameWord

def Machine.record (m : Machine) (a : Action) : Machine := { m with log := m.log ++ [(s, a)] }

def performStart (v : Service) (m : Machine) : Bool × Machine :=
  if v.startOk then
    (true, { m with
      running := Function.update m.running v.pid true
      verified := Function.update m.verified v.pid true
      commands := m.commands ++ v.registers.map fun name => ⟨name, v.name⟩
      log := m.log ++ [(s, .serviceStarted v)] })
  else (false, { m with verified := Function.update m.verified v.pid false })

def performStop (v : Service) (m : Machine) : Machine :=
  { m with
    running := Function.update m.running v.pid false
    verified := Function.update m.verified v.pid false
    commands := m.commands.filter fun c => c.owner != v.name
    log := m.log ++ [(s, .serviceStopped v)] }

def systemStartService (pid : ℕ) (m : Machine) : ServiceResult × Machine :=
  match findService env pid with
  | none => (.notFound, m)
  | some v =>
    if m.running v.pid then (.alreadyRunning, m)
    else if v.controllable = false then (.unmanaged, m)
    else if (performStart s v m).1 then (.ok, (performStart s v m).2)
    else (.startFailed, (performStart s v m).2)

def systemStartServiceByName (name : Str) (m : Machine) : ServiceResult × Machine :=
  match findServiceByName env name with
  | none => (.notFound, m)
  | some v => systemStartService env s v.pid m

def systemStopService (pid : ℕ) (m : Machine) : ServiceResult × Machine :=
  match findService env pid with
  | none => (.notFound, m)
  | some v =>
    if m.running v.pid = false then (.alreadyStopped, m)
    else if v.essential then (.essential, m)
    else if v.controllable = false then (.unmanaged, m)
    else (.ok, performStop s v m)

def systemRestartService (pid : ℕ) (m : Machine) : ServiceResult × Machine :=
  let stopped := systemStopService env s pid m
  if stopped.1 ≠ .ok then stopped else systemStartService env s pid stopped.2

def modulesStartDriver (id : ℕ) (m : Machine) : ServiceResult × Machine :=
  match findDriver env id with
  | none => (.notFound, m)
  | some d =>
    if m.driverRunning d.id then (.alreadyRunning, m)
    else if d.controllable = false then (.unmanaged, m)
    else if d.startOk then
      (.ok, Machine.record s
        { m with driverRunning := Function.update m.driverRunning d.id true } (.driverStarted d))
    else (.startFailed, m)

def modulesStartDriverByName (name : Str) (m : Machine) : ServiceResult × Machine :=
  match findDriverByName env name with
  | none => (.notFound, m)
  | some d => modulesStartDriver env s d.id m

def modulesStopDriver (id : ℕ) (m : Machine) : ServiceResult × Machine :=
  match findDriver env id with
  | none => (.notFound, m)
  | some d =>
    if m.driverRunning d.id = false then (.alreadyStopped, m)
    else if d.controllable = false then (.unmanaged, m)
    else (.ok, Machine.record s
      { m with driverRunning := Function.update m.driverRunning d.id false } (.driverStopped d))

def modulesRestartDriver (id : ℕ) (m : Machine) : ServiceResult × Machine :=
  let stopped := modulesStopDriver env s id m
  if stopped.1 ≠ .ok ∧ stopped.1 ≠ .alreadyStopped then stopped
  else modulesStartDriver env s id stopped.2

/-- `shell_servicectl_action`, and the end of `servicectl_command`. -/
def servicectlAction (action : Str) (pid : ℕ) (m : Machine) : Machine :=
  match findService env pid with
  | none => m
  | some v =>
    if canManageService s v = false then m
    else if action = startWord then (systemStartService env s pid m).2
    else if action = stopWord then (systemStopService env s pid m).2
    else if action = restartWord then (systemRestartService env s pid m).2
    else m

def servicectlCommand (args : Str) (m : Machine) : Machine :=
  let cmd := userNextToken 16 args
  let pid := userNextToken 24 cmd.2
  if cmd.1 = [] ∨ cmd.1 = listWord ∨ cmd.1 = stoppedWord then m
  else
    match parseU64 pid.1 with
    | none => m
    | some pid => servicectlAction env s cmd.1 pid m

def driverctlAction (action : Str) (id : ℕ) (m : Machine) : Machine :=
  if canManageDrivers s = false then m
  else if action = startWord then (modulesStartDriver env s id m).2
  else if action = stopWord then (modulesStopDriver env s id m).2
  else if action = restartWord then (modulesRestartDriver env s id m).2
  else m

/-- Whether the session is asked before or after the number is read makes no difference to what is
started. -/
def driverctlCommand (args : Str) (m : Machine) : Machine :=
  let cmd := userNextToken 16 args
  let id := userNextToken 24 cmd.2
  if cmd.1 = [] ∨ cmd.1 = listWord ∨ cmd.1 = stoppedWord then m
  else
    match parseU64 id.1 with
    | none => m
    | some id => driverctlAction env s cmd.1 id m

/-- The request itself is for the next poll of the service. -/
def reloadCommand (args : Str) (m : Machine) : Machine :=
  let target := (userNextToken 16 args).1
  if userIsRoot s = false then m
  else if target = driversWord ∨ target = kernelWord then
    (systemStartServiceByName env s reloadWord m).2
  else m

def storagectlPartition (args : Str) (m : Machine) : Machine :=
  let device := userNextToken 32 args
  let scheme := userNextToken 16 device.2
  let confirm := userNextToken 16 scheme.2
  match env.device device.1 with
  | none => m
  | some dev =>
    if device.1 = [] ∨ dev.isPartition ∨ dev.online = false ∨ dev.blockSize ≠ 512 then m
    else if scheme.1 ≠ schemeWord ∨ confirm.1 ≠ yesWord then m
    else if env.writesMbr device.1 then m.record s (.partitioned device.1)
    else m

def installerRunInstall (device : Str) (m : Machine) : Machine :=
  if env.installs device then m.record s (.installed device) else m

def storagectlInstall (args : Str) (m : Machine) : Machine :=
  let device := userNextToken 32 args
  let confirm := userNextToken 16 device.2
  if device.1 = [] then m
  else if device.1 = wizardWord then
    env.wizard.foldl (fun m device => installerRunInstall env s device m) m
  else if device.1 = userWord then m
  else if confirm.1 ≠ yesWord then m
  else installerRunInstall env s device.1 m

/-- The commands "sync" and "install" are words of `storagectl` themselves. -/
def storagectlSub (command args : Str) : Str × Str :=
  if command = syncWord then (syncWord, args)
  else if command = installWord then (installWord, args)
  else userNextToken 32 args

def storagectlCommand (command args : Str) (m : Machine) : Machine :=
  let sub := storagectlSub command args
  if sub.1 = partitionWord then storagectlPartition env s sub.2 m
  else if sub.1 = installWord then storagectlInstall env s sub.2 m
  else m

def xfsctlCommand (args : Str) (m : Machine) : Machine :=
  let sub := userNextToken 32 args
  let device := userNextToken 128 sub.2
  let label := userNextToken 32 device.2
  let yes := userNextToken 8 label.2
  if sub.1 ≠ formatWord ∨ userIsRoot s = false then m
  else if (env.device device.1).isSome ∧ yes.1 = yesWord ∧ env.formats device.1 then
    m.record s (.formatted device.1)
  else m

inductive Handler where
  | storagectl
  | xfsctl
  | servicectl
  | driverctl
  | reload
  | other
  deriving DecidableEq

def handlerOf (command : Str) : Handler :=
  if command = storagectlWord ∨ command = syncWord ∨ command = installWord then .storagectl
  else if command = xfsctlWord then .xfsctl
  else if command = servicectlWord then .servicectl
  else if command = driverctlWord then .driverctl
  else if command = reloadWord then .reload
  else .other

def runHandler (command args : Str) (m : Machine) : Bool × Machine :=
  match handlerOf command with
  | .storagectl => (true, storagectlCommand env s command args m)
  | .xfsctl => (true, xfsctlCommand env s args m)
  | .servicectl => (true, servicectlCommand env s args m)
  | .driverctl => (true, driverctlCommand env s args m)
  | .reload => (true, reloadCommand env s args m)
  | .other => (env.answers command args, m)

/-- The command is registered, and its service runs in ring 0 or as a verified ring 3 host. -/
def served (m : Machine) (command : Str) : Bool :=
  match m.commands.find? fun c => c.name == command with
  | none => false
  | some c =>
    match findServiceByName env c.owner with
    | none => false
    | some owner => m.running owner.pid && (owner.classId == .kernel || m.verified owner.pid)

def systemDispatchCommand (command args : Str) (m : Machine) : Bool × Machine :=
  if served env m command then runHandler env s command args m else (false, m)

def shellRunPublicCommand (name : Str) (m : Machine) : Machine :=
  let dispatched := systemDispatchCommand env s name [] m
  if dispatched.1 then dispatched.2 else (systemStartServiceByName env s name dispatched.2).2

def pathIsLinuxCompat (path : Str) : Bool :=
  compatPath.isPrefixOf path || binPath.isPrefixOf path || usrBinPath.isPrefixOf path

/-- The paths that `shell_run_linux_path` is called for. -/
def runsLinux (path : Str) : Bool :=
  pathIsLinuxCompat path &&
    (env.fileExists path || binPath.isPrefixOf path || usrBinPath.isPrefixOf path)

def runArgs (path args : Str) : Str := runqWord ++ path ++ if args = [] then [] else 32 :: args

def shellRunLinuxPath (path args : Str) (m : Machine) : Bool × Machine :=
  let started := systemStartServiceByName env s klcsWord m
  if started.1 ≠ .ok ∧ started.1 ≠ .alreadyRunning then (false, started.2)
  else if 512 ≤ (runArgs path args).length then (false, started.2)
  else systemDispatchCommand env s klcsWord (runArgs path args) started.2

/-- A path outside the Linux directories, itself or with ".elf" behind it. -/
def spawnsCandidate (path args : Str) : Bool :=
  if env.fileExists path then env.spawns path args
  else
    path.drop (path.length - 4) != elfSuffix && decide (path.length + 4 < 128) &&
      env.fileExists (path ++ elfSuffix) && env.spawns (path ++ elfSuffix) args

def shellTryExecutePathCandidate (path args : Str) (m : Machine) : Bool × Machine :=
  if runsLinux env path then shellRunLinuxPath env s path args m
  else if pathIsLinuxCompat path then (false, m)
  else (spawnsCandidate env path args, m)

def isPathSeparator (c : UInt8) : Bool := c == 58 || c == 10 || c == 13 || c == 32 || c == 9

def joinPath (dir name : Str) : Str :=
  if dir.getLast? = some 47 then dir ++ name else dir ++ 47 :: name

/-- The candidates of `shell_try_execute_inpath`, in order. -/
def candidates (name : Str) : List Str :=
  if name = [] then []
  else if name.head? = some 47 ∨ name.head? = some 46 then [name]
  else
    ((((env.inpath.getD defaultInpath).splitOnP isPathSeparator).filter fun dir => dir != []).map
      fun dir => joinPath (dir.take 95) name).filter fun path => decide (path.length < 160)

def tryCandidates (args : Str) : List Str → Machine → Bool × Machine
  | [], m => (false, m)
  | path :: rest, m =>
    let tried := shellTryExecutePathCandidate env s path args m
    if tried.1 then tried else tryCandidates args rest tried.2

def shellTryExecuteInpath (name args : Str) (m : Machine) : Bool × Machine :=
  tryCandidates env s args (candidates env name) m

def shellHandleServicectl (args : Str) (m : Machine) : Machine :=
  if isServiceRunning env m servicectlWord = false then
    if args = [] then (systemStartServiceByName env s servicectlWord m).2 else m
  else servicectlCommand env s args m

def shellHandleDriverctl (args : Str) (m : Machine) : Machine :=
  if isServiceRunning env m driverctlWord = false then
    if args = [] then (systemStartServiceByName env s driverctlWord m).2 else m
  else driverctlCommand env s args m

def shellHandleUnknown (line : Str) (m : Machine) : Machine :=
  let cmd := userNextToken 96 line
  let dispatched := systemDispatchCommand env s cmd.1 cmd.2 m
  if dispatched.1 then dispatched.2
  else if (findServiceByName env cmd.1).any fun v =>
      !isPublicService cmd.1 && !canManageService s v then dispatched.2
  else
    let service := systemStartServiceByName env s cmd.1 dispatched.2
    if service.1 = .ok ∨ service.1 = .alreadyRunning then service.2
    else
      let driver := modulesStartDriverByName env s cmd.1 service.2
      if driver.1 = .ok ∨ driver.1 = .alreadyRunning then driver.2
      else (shellTryExecuteInpath env s cmd.1 cmd.2 driver.2).2

/-- The commands of `shellParseCommand` that say nothing there but manage the system here. -/
def handleOther (line : Str) (m : Machine) : Machine :=
  let line := line.dropWhile isSpace
  match afterWord line driverctlWord, afterWord line reloadWord with
  | some args, _ => shellHandleDriverctl env s args m
  | none, some args => reloadCommand env s args m
  | none, none =>
    if (afterWord line sysfetchWord).isSome then shellRunPublicCommand env s sysfetchWord m
    else if (afterWord line unameWord).isSome then shellRunPublicCommand env s unameWord m
    else m

/-- Every `sudo` makes the line shorter. -/
def shellRun : ℕ → UserState → Str → Machine → Machine
  | 0, _, _, m => m
  | n + 1, s, line, m =>
    if userIsLoggedIn s = false ∧ allowedWithoutLogin line = false then m
    else
      match shellParseCommand line with
      | .empty => m
      | .other => handleOther env s line m
      | .servicectl args => shellHandleServicectl env s args m
      | .sudoMode rest =>
        if rest = [] ∨ userCanSudo s = false then m
        else shellRun n (userBeginSudoScope s) rest m
      | .unknown => shellHandleUnknown env s line m

def shellHandleCommand (line : Str) (m : Machine) : Machine := shellRun env (line.length + 1) s line m

end Management
