import K64.AccountSteps

/-! # Command lines and the accounts they change

`shell_handle_command` as far as it gets to the account database: the commands of `userctl`, the
accounts that the installer creates, services that are started and stopped, and `sudo`. -/
namespace Accounts

def isSpace (c : UInt8) : Bool := c == 32 || c == 9 || c == 10 || c == 13

/-- What is behind a word that the line begins with. -/
def afterWord (line word : Str) : Option Str :=
  if word.isPrefixOf line then
    let rest := line.drop word.length
    if (rest.head?.map isSpace).getD true then some (rest.dropWhile isSpace) else none
  else none

def servicectlWord : Str := [115, 101, 114, 118, 105, 99, 101, 99, 116, 108]

/-- The words of the commands that get to no account: "help", "clear", "sysfetch", "uname", "ticks",
"task", "ps", "serial", "sched", "panic", "elfrun", "yield", "layout", "driverctl", "reload", "sync",
"reboot", "shutdown" and "echo". -/
def otherWords : List Str :=
  [[104, 101, 108, 112], [99, 108, 101, 97, 114], [115, 121, 115, 102, 101, 116, 99, 104],
    [117, 110, 97, 109, 101], [116, 105, 99, 107, 115], [116, 97, 115, 107], [112, 115],
    [115, 101, 114, 105, 97, 108], [115, 99, 104, 101, 100], [112, 97, 110, 105, 99],
    [101, 108, 102, 114, 117, 110], [121, 105, 101, 108, 100], [108, 97, 121, 111, 117, 116],
    [100, 114, 105, 118, 101, 114, 99, 116, 108], [114, 101, 108, 111, 97, 100],
    [115, 121, 110, 99], [114, 101, 98, 111, 111, 116],
    [115, 104, 117, 116, 100, 111, 119, 110], [101, 99, 104, 111]]

inductive ShellCmd where
  | empty
  | other
  | servicectl (args : Str)
  | sudoMode (line : Str)
  | unknown
  deriving DecidableEq

def shellParseCommand (line : Str) : ShellCmd :=
  let line := line.dropWhile isSpace
  if line = [] then .empty
  else if otherWords.any fun word => (afterWord line word).isSome then .other
  else
    match afterWord line servicectlWord, afterWord line sudoName with
    | some args, _ => .servicectl args
    | none, some args => .sudoMode args
    | none, none => .unknown

def installWord : Str := [105, 110, 115, 116, 97, 108, 108]

def storagectlWord : Str := [115, 116, 111, 114, 97, 103, 101, 99, 116, 108]

def userctlWord : Str := [117, 115, 101, 114, 99, 116, 108]

/-- "help", "sysfetch", "uname", "login", "su", "install" and "storagectl". -/
def allowedWords : List Str :=
  [[104, 101, 108, 112], [115, 121, 115, 102, 101, 116, 99, 104], [117, 110, 97, 109, 101],
    [108, 111, 103, 105, 110], [115, 117], installWord, storagectlWord]

def allowedWithoutLogin (line : Str) : Bool :=
  let token := (userNextToken 32 line).1
  token == [] || allowedWords.contains token

/-- What a line meets: the state of the services, the files, and what is typed into the wizard. -/
structure System where
  controlPlaneOnline : Bool
  userctlPid : ℕ
  userctlRunning : Bool
  userctlVerified : Bool
  storageServes : Bool
  files : Option (Str × Str)
  wizard : List (Str × Str × Bool)

variable (w : System) (s : UserState)

/-- `shell_parse_u64`, which takes digits only. -/
def parseU64 (text : Str) : Option ℕ :=
  if text = [] ∨ text.any (fun c => c < 48 || 57 < c) then none
  else some (text.foldl (fun n c => (n * 10 + (c.toNat - 48)) % 2 ^ 64) 0)

def userServiceStop : UserState := { s with ready := false }

/-- "start", "stop" and "restart". -/
def serviceAction (action : Str) : UserState :=
  if action = [115, 116, 97, 114, 116] then
    if w.userctlRunning then s else userServiceStart s w.files
  else if action = [115, 116, 111, 112] then if w.userctlRunning then userServiceStop s else s
  else if action = [114, 101, 115, 116, 97, 114, 116] then
    userServiceStart (userServiceStop s) w.files
  else s

/-- `userctl` is a service of the system class, which only effective root manages. -/
def shellHandleServicectl (args : Str) : UserState :=
  let action := userNextToken 16 args
  let pid := userNextToken 24 action.2
  if w.controlPlaneOnline = false then s
  else if parseU64 pid.1 = some w.userctlPid ∧ userIsRoot s = true then serviceAction w s action.1
  else s

def userWord : Str := [117, 115, 101, 114]

def wizardWord : Str := [119, 105, 122, 97, 114, 100]

/-- The accounts that an `install` with these arguments asks for. -/
def installerAccounts (args : Str) : List (Str × Str × Bool) :=
  let device := userNextToken 32 args
  let name := userNextToken 16 device.2
  let password := userNextToken 48 name.2
  let role := userNextToken 16 password.2
  if device.1 = wizardWord then w.wizard
  else if device.1 = userWord ∧ name.1 ≠ [] ∧ password.1 ≠ [] then
    [(name.1, password.1, role.1 == [] || role.1 == sudoName)]
  else []

def createAll (accounts : List (Str × Str × Bool)) : UserState :=
  accounts.foldl (fun s a => (userCreateAccount s a.1 a.2.1 a.2.2).2) s

def lineAccounts (line : Str) : List (Str × Str × Bool) :=
  let cmd := userNextToken 96 line
  let sub := userNextToken 32 cmd.2
  if w.storageServes = false then []
  else if cmd.1 = installWord then installerAccounts w cmd.2
  else if cmd.1 = storagectlWord ∧ sub.1 = installWord then installerAccounts w sub.2
  else []

/-- A line that is none of the shell's own commands: a registered command, or the name of a service
to start. -/
def shellUnknown (line : Str) : UserState :=
  let cmd := userNextToken 96 line
  if cmd.1 = installWord ∨ cmd.1 = storagectlWord then createAll s (lineAccounts w line)
  else if cmd.1 = userctlWord then
    if w.userctlRunning && w.userctlVerified then userCommandUserctl s cmd.2
    else if userIsRoot s && !w.userctlRunning then userServiceStart s w.files
    else s
  else
    match commandOf cmd.1 with
    | none => s
    | some c => if w.userctlRunning && w.userctlVerified then c.run s cmd.2 else s

/-- Every `sudo` makes the line shorter, so that the length of the line is enough. -/
def shellRun : ℕ → UserState → Str → UserState
  | 0, s, _ => s
  | n + 1, s, line =>
    if userIsLoggedIn s = false ∧ allowedWithoutLogin line = false then s
    else
      match shellParseCommand line with
      | .empty | .other => s
      | .servicectl args => shellHandleServicectl w s args
      | .sudoMode rest =>
        if rest = [] ∨ userCanSudo s = false then s
        else userEndSudoScope (shellRun n (userBeginSudoScope s) rest)
      | .unknown => shellUnknown w s line

def shellHandleCommand (line : Str) : UserState := shellRun w (line.length + 1) s line

/-- The groups of an account. -/
def memberships (i : ℕ) : List Str := (s.groups.filter fun g => g.members i).map UserGroup.name

/-- No account is added or removed, and none has another password, role, primary group or
membership. -/
structure AccountsKept (s s' : UserState) : Prop where
  accounts : s'.accounts = s.accounts
  memberships : ∀ i, i < s.accounts.length → memberships s' i = memberships s i

/-- The session is effective root, or becomes it for the line behind a `sudo`. -/
def Authority (line : Str) : Prop :=
  userIsRoot s = true ∨
    (∃ rest, shellParseCommand line = .sudoMode rest ∧ rest ≠ []) ∧ userCanSudo s = true

/-- The command of `userctl` that a line runs, under its own name or behind `userctl`. -/
def lineCommand (line : Str) : Option Command :=
  let cmd := userNextToken 96 line
  if cmd.1 = userctlWord then commandOf (userNextToken 16 cmd.2).1 else commandOf cmd.1

/-- The line is a `passwd` of the account that is logged in, and nothing but its password differs. -/
def OwnPassword (line : Str) (s' : UserState) : Prop :=
  lineCommand line = some .passwd ∧ userIsLoggedIn s = true ∧
    ∃ (i : ℕ) (password : UserAccount → Str), s.currentIndex = some i ∧
      s' = s.setAccount i fun a => { a with password := password a }

def ChangesWithAuthority (line : Str) : Prop :=
  AccountsKept s (shellHandleCommand w s line) ∨ Authority s line ∨
    OwnPassword s line (shellHandleCommand w s line)

/-- `k64_user_create_account` succeeds. -/
structure Accepted (name password : Str) : Prop where
  ready : s.ready = true
  name_given : name ≠ []
  password_given : password ≠ []
  group_fits : (groupAddInternal s (userCopy groupNameMax name)).1 = true
  account_fits : (userFind s name).isSome = true ∨ s.accounts.length < userMaxAccounts

/-- The installer is asked for no account that it can create. -/
def NoneAccepted : UserState → List (Str × Str × Bool) → Prop
  | _, [] => True
  | s, a :: rest => ¬ Accepted s a.1 a.2.1 ∧ NoneAccepted (userCreateAccount s a.1 a.2.1 a.2.2).2 rest

/-- A `passwd` of the own name is about the own account: no other account in front has the name. -/
def OwnNameFirst : Prop :=
  ∀ i a, s.currentIndex = some i → s.accounts[i]? = some a → userFind s a.name = some i

/-- A line that is not one of the shell's own commands asks for nothing that is not checked. -/
structure Harmless (line : Str) : Prop where
  installer : shellParseCommand line = .unknown →
    (userIsLoggedIn s = true ∨ allowedWithoutLogin line = true) → NoneAccepted s (lineAccounts w line)
  passwd : lineCommand line = some .passwd → OwnNameFirst s

variable {w s} {s' : UserState}

theorem kept_refl : AccountsKept s s := ⟨rfl, fun _ _ => rfl⟩

theorem AccountsKept.trans {s₁ s₂ s₃ : UserState} (h : AccountsKept s₁ s₂) (k : AccountsKept s₂ s₃) :
    AccountsKept s₁ s₃ :=
  ⟨k.accounts.trans h.accounts, fun i hi =>
    (k.memberships i (by rwa [h.accounts])).trans (h.memberships i hi)⟩

theorem kept_groupAddInternal (name : Str) : AccountsKept s (groupAddInternal s name).2 := by
  unfold groupAddInternal
  split
  · exact kept_refl
  · split
    · exact kept_refl
    · split
      · exact kept_refl
      · refine ⟨rfl, fun i _ => ?_⟩
        simp only [memberships, List.filter_append]
        exact List.append_nil _ ▸ rfl

theorem refused_create {name password : Str} (h : ¬ Accepted s name password) (sudoer : Bool) :
    AccountsKept s (userCreateAccount s name password sudoer).2 := by
  rcases userCreateAccount_cases s name password sudoer with hsame | ⟨hready, hname, hpw, hadd⟩
  · rw [hsame]
    exact kept_refl
  rw [hadd]
  have hgroup : primaryAdded s (userCopy groupNameMax name) =
      groupAddInternal s (userCopy groupNameMax name) := if_neg (userCopy_ne_nil hname)
  have hcases := userAddAccount_cases s name password false sudoer (userCopy groupNameMax name) false
  have hrefreshed : addRefreshed s (installed name password sudoer) =
      let added := userAddAccount s name password false sudoer (userCopy groupNameMax name) false
      if added.1 then userSyncRoleGroups (userEnsurePrimaryGroups added.2) else added.2 := rfl
  rw [hrefreshed]
  generalize userAddAccount s name password false sudoer (userCopy groupNameMax name) false = added
    at hcases ⊢
  rw [hgroup] at hcases
  rcases hcases with ⟨hfail, hsame⟩ | ⟨i, -, -, -, hok, hfind, -⟩ | ⟨-, -, -, hok, -, hroom, -⟩
  · simp only [hfail, Bool.false_eq_true, if_false]
    rcases hsame with hsame | hsame
    · rw [hsame]
      exact kept_refl
    · rw [hsame]
      exact kept_groupAddInternal _
  · exact absurd ⟨hready, hname, hpw, hok, .inl (by rw [hfind]; rfl)⟩ h
  · exact absurd ⟨hready, hname, hpw, hok, .inr hroom⟩ h

theorem createAll_kept {accounts : List (Str × Str × Bool)} (h : NoneAccepted s accounts) :
    AccountsKept s (createAll s accounts) := by
  induction accounts generalizing s with
  | nil => exact kept_refl
  | cons a rest ih => exact (refused_create h.1 a.2.2).trans (ih h.2)

theorem passwd_without_root {line : Str} (args : Str) (hline : lineCommand line = some .passwd)
    (hroot : userIsRoot s = false) (hown : OwnNameFirst s) (hlogin : userIsLoggedIn s = true) :
    AccountsKept s (userCommandPasswd s args) ∨ OwnPassword s line (userCommandPasswd s args) := by
  unfold userCommandPasswd
  simp only
  split
  · exact .inl kept_refl
  · split
    · exact .inl kept_refl
    next i hfind =>
      split
      · exact .inl kept_refl
      next hname =>
        have hsession : (sessionAccount s).map UserAccount.name =
            some (userNextToken userNameMax args).1 := by
          by_contra hne
          exact hname ⟨hroot, hne⟩
        obtain ⟨a, ha, hname⟩ := Option.map_eq_some_iff.mp hsession
        obtain ⟨j, hj, haj⟩ := Option.bind_eq_some_iff.mp ha
        have hfirst := hown j a hj haj
        rw [hname, hfind] at hfirst
        cases hfirst
        exact .inr ⟨hline, hlogin, i, fun a => userStorePassword userPassMax a.name _ false, hj, rfl⟩

theorem run_without_root {line : Str} {c : Command} (hline : lineCommand line = some c) (args : Str)
    (hroot : userIsRoot s = false)
    (hown : c = .passwd → OwnNameFirst s) (hlogin : c = .passwd → userIsLoggedIn s = true) :
    AccountsKept s (c.run s args) ∨ OwnPassword s line (c.run s args) := by
  cases c with
  | print => exact .inl kept_refl
  | login | su =>
    refine .inl ?_
    change AccountsKept s (userCommandLoginLike s args)
    unfold userCommandLoginLike
    split
    · exact kept_refl
    · exact ⟨rfl, fun _ _ => rfl⟩
  | logout => exact .inl ⟨rfl, fun _ _ => rfl⟩
  | sudoMode =>
    refine .inl ?_
    change AccountsKept s (userCommandSudo s args)
    unfold userCommandSudo
    split
    · exact kept_refl
    · simp only
      repeat' split
      all_goals exact ⟨rfl, fun _ _ => rfl⟩
  | passwd => exact passwd_without_root args hline hroot (hown rfl) (hlogin rfl)
  | useradd => exact .inl (by rw [Command.run, userCommandUseradd, if_pos hroot]; exact kept_refl)
  | userdel =>
    have hnone : deletedIndex s args = none := if_pos (.inl hroot)
    refine .inl ?_
    rw [Command.run, userCommandUserdel, hnone]
    exact kept_refl
  | usermod => exact .inl (by rw [Command.run, userCommandUsermod, if_pos hroot]; exact kept_refl)
  | groupadd => exact .inl (by rw [Command.run, userCommandGroupadd, if_pos hroot]; exact kept_refl)
  | groupdel =>
    have hnone : deletedGroup s args = none := if_pos (.inl hroot)
    refine .inl ?_
    rw [Command.run, userCommandGroupdel, hnone]
    exact kept_refl
  | gpasswd => exact .inl (by rw [Command.run, userCommandGpasswd, if_pos hroot]; exact kept_refl)

theorem short_token (line : Str) : (userNextToken 32 line).1 = (userNextToken 96 line).1.take 31 := by
  simp only [userNextToken, List.take_take]
  rfl

theorem commandOf_mem {name : Str} {c : Command} (h : commandOf name = some c) :
    (name, c) ∈ commandTable := by
  obtain ⟨p, hp, rfl⟩ := Option.map_eq_some_iff.mp h
  have hname : (p.1 == name) = true := List.find?_some (p := fun p : Str × Command => p.1 == name) hp
  rw [← eq_of_beq hname]
  exact List.mem_of_find?_eq_some hp

theorem not_allowed {line : Str} (h : commandOf (userNextToken 96 line).1 = some .passwd ∨
    (userNextToken 96 line).1 = userctlWord) : allowedWithoutLogin line = false := by
  rw [allowedWithoutLogin, short_token]
  rcases h with h | h
  · have hpasswd : ∀ p ∈ commandTable, p.2 = .passwd → p.1 = [112, 97, 115, 115, 119, 100] := by
      decide
    rw [hpasswd _ (commandOf_mem h) rfl]
    decide
  · rw [h]
    decide

/-- Behind the check for a login, the shell checks all that changes accounts but the installer. -/
theorem accounts_change_with_authority (line : Str) (h : ¬ Authority s line → Harmless w s line) :
    ChangesWithAuthority w s line := by
  by_cases hauth : Authority s line
  · exact .inr (.inl hauth)
  have hsafe := h hauth
  have hroot : userIsRoot s = false := by
    by_contra hr
    exact hauth (.inl (by simpa using hr))
  have hkept : ∀ {t}, t = s → AccountsKept s t ∨ Authority s line ∨ OwnPassword s line t :=
    fun ht => .inl (ht ▸ kept_refl)
  unfold ChangesWithAuthority shellHandleCommand shellRun
  split
  · exact hkept rfl
  next hlogin =>
    have hallowed : allowedWithoutLogin line = false → userIsLoggedIn s = true := by
      intro ha
      by_contra hl
      exact hlogin ⟨by simpa using hl, ha⟩
    split
    next => exact hkept rfl
    next => exact hkept rfl
    next args hcmd =>
      refine hkept ?_
      simp only [shellHandleServicectl, hroot, Bool.false_eq_true, and_false, if_false, ite_self]
    next rest hcmd =>
      refine hkept (if_pos ?_)
      by_contra hne
      rw [not_or] at hne
      exact hauth (.inr ⟨⟨rest, hcmd, hne.1⟩, by simpa using hne.2⟩)
    next hcmd =>
      have hrun : ∀ (c : Command) args, lineCommand line = some c →
          (c = .passwd → userIsLoggedIn s = true) →
          AccountsKept s (c.run s args) ∨ Authority s line ∨ OwnPassword s line (c.run s args) :=
        fun c args hc hl =>
          (run_without_root hc args hroot (fun hp => hsafe.passwd (hp ▸ hc)) hl).imp_right .inr
      unfold shellUnknown
      simp only
      split
      · refine .inl (createAll_kept (hsafe.installer hcmd ?_))
        cases ha : allowedWithoutLogin line with
        | true => exact .inr rfl
        | false => exact .inl (hallowed ha)
      · split
        next huserctl =>
          split
          · have hline : lineCommand line =
                commandOf (userNextToken 16 (userNextToken 96 line).2).1 := if_pos huserctl
            unfold userCommandUserctl
            simp only
            split
            · exact hkept rfl
            next c hc =>
              exact hrun c _ (hline.trans hc) fun _ => hallowed (not_allowed (.inr huserctl))
          · rw [hroot]
            exact hkept rfl
        next huserctl =>
          split
          · exact hkept rfl
          next c hc =>
            have hline : lineCommand line = commandOf (userNextToken 96 line).1 := if_neg huserctl
            split
            · exact hrun _ _ (hline.trans hc) fun hp => hallowed (not_allowed (.inl (hp ▸ hc)))
            · exact hkept rfl

/-- A first start, with nobody logged in. -/
def firstStart : UserState := userServiceStart bootState none

def running : System := ⟨true, 9, true, true, true, none, []⟩

/-- "passwd guest x". -/
def passwdLine : Str := [112, 97, 115, 115, 119, 100, 32] ++ guestName ++ [32, 120]

theorem passwd_of_guest :
    ChangesWithAuthority running { firstStart with currentIndex := some 1 } passwdLine :=
  accounts_change_with_authority passwdLine fun _ => by
    constructor
    · intro _ _
      have hnone : lineAccounts running passwdLine = [] := by decide +kernel
      rw [hnone]
      trivial
    · intro _ i a hi ha
      cases hi
      have hguest : ({ firstStart with currentIndex := some 1 } : UserState).accounts[1]?.map
          UserAccount.name = some guestName := by decide +kernel
      rw [ha] at hguest
      rw [Option.some.inj hguest]
      decide +kernel

/-- "install user root x". -/
def installLine : Str := installWord ++ 32 :: userWord ++ 32 :: rootName ++ [32, 120]

/-- Before any login the installer gives the account `root` a new password and takes its role. -/
theorem installer_takes_root : ¬ ∀ w s line, ChangesWithAuthority w s line := by
  intro h
  rcases h running firstStart installLine with hkept | hauth | hown
  · have hroles := congrArg (List.map UserAccount.isRoot) hkept.accounts
    revert hroles
    decide +kernel
  · rcases hauth with hroot | ⟨-, hsudo⟩
    · revert hroot
      decide
    · revert hsudo
      decide
  · have hlogin := hown.2.1
    revert hlogin
    decide

end Accounts
