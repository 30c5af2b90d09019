import K64.ShellAccounts
import K64.AccountSessions

/-! # What a `sudo` leaves of the session

`k64_user_begin_sudo_scope` and `k64_user_end_sudo_scope` set and clear one flag and remember
nothing, with any command line run between them. -/
namespace Accounts

variable (w : System) (s : UserState)

/-- What is behind all the `sudo` that a line begins with. -/
def sudoBody : ℕ → Str → Str
  | 0, line => line
  | n + 1, line =>
    match shellParseCommand line with
    | .sudoMode rest => if rest = [] then line else sudoBody n rest
    | _ => line

def bodyOf (line : Str) : Str := sudoBody (line.length + 1) line

/-- A line of somebody who is logged in, without the `sudo` that runs a line of its own. -/
def runBody (line : Str) : UserState :=
  match shellParseCommand line with
  | .servicectl args => shellHandleServicectl w s args
  | .unknown => shellUnknown w s line
  | _ => s

/-- The commands that log in, log out, switch the user or the `sudo` mode. -/
def SwitchesSession (line : Str) : Prop :=
  shellParseCommand line = .unknown ∧
    ∃ c ∈ [Command.login, .logout, .su, .sudoMode], lineCommand line = some c

structure LeavesSession (line : Str) : Prop where
  current : (shellHandleCommand w s line).currentIndex = s.currentIndex
  sudo_active : (shellHandleCommand w s line).sudoActive = s.sudoActive

/-- The service restarts or the index moves, the service stops, or the session stays and its account
has this role of root. -/
inductive Effect where
  | ends
  | stops
  | keeps (root : Bool)
  deriving DecidableEq

/-- The role of root of the account that is logged in. -/
def sessionRoot : Bool := ((sessionAccount s).map UserAccount.isRoot).getD false

/-- A new account overwrites that of the session. -/
def replacesOwn (n : NewAccount) : Bool :=
  n.name != [] && n.password != [] && (primaryAdded s n.group).1 &&
    userFind s n.name == s.currentIndex

/-- A `usermod` that sets the role of the session's account. -/
def setsOwnRole (words : UsermodWords) : Bool :=
  words.name != [] && words.value != [] && modificationOf words.action == some .role &&
    userFind s words.name == s.currentIndex

def commandEffect (c : Command) (args : Str) : Effect :=
  match c with
  | .useradd =>
    .keeps (if replacesOwn s (newAccountOf args) then (newAccountOf args).isRoot else sessionRoot s)
  | .usermod =>
    .keeps (if setsOwnRole s (usermodWords args) then (usermodWords args).value == rootName
      else sessionRoot s)
  | .userdel =>
    match deletedIndex s args, s.currentIndex with
    | some d, some i => if d ≤ i then .ends else .keeps (sessionRoot s)
    | _, _ => .keeps (sessionRoot s)
  | _ => .keeps (sessionRoot s)

/-- "start", "stop" and "restart". -/
def serviceEffect (action : Str) : Effect :=
  if action = [115, 116, 97, 114, 116] then
    if w.userctlRunning then .keeps (sessionRoot s) else .ends
  else if action = [115, 116, 111, 112] then
    if w.userctlRunning then .stops else .keeps (sessionRoot s)
  else if action = [114, 101, 115, 116, 97, 114, 116] then .ends
  else .keeps (sessionRoot s)

/-- One of the accounts that the installer creates overwrites that of the session. -/
def installerReplaces : UserState → List (Str × Str × Bool) → Bool
  | _, [] => false
  | s, a :: rest =>
    replacesOwn s (installed a.1 a.2.1 a.2.2) ||
      installerReplaces (userCreateAccount s a.1 a.2.1 a.2.2).2 rest

def unknownEffect (line : Str) : Effect :=
  let cmd := userNextToken 96 line
  let sub := userNextToken 16 cmd.2
  if cmd.1 = installWord ∨ cmd.1 = storagectlWord then
    .keeps (sessionRoot s && !installerReplaces s (lineAccounts w line))
  else if cmd.1 = userctlWord then
    if w.userctlRunning && w.userctlVerified then
      match commandOf sub.1 with
      | none => .keeps (sessionRoot s)
      | some c => commandEffect s c sub.2
    else if w.userctlRunning then .keeps (sessionRoot s) else .ends
  else
    match commandOf cmd.1 with
    | none => .keeps (sessionRoot s)
    | some c =>
      if w.userctlRunning && w.userctlVerified then commandEffect s c cmd.2
      else .keeps (sessionRoot s)

def lineEffect (line : Str) : Effect :=
  match shellParseCommand line with
  | .servicectl args =>
    let action := userNextToken 16 args
    let pid := userNextToken 24 action.2
    if w.controlPlaneOnline = true ∧ parseU64 pid.1 = some w.userctlPid then serviceEffect w s action.1
    else .keeps (sessionRoot s)
  | .unknown => unknownEffect w s line
  | _ => .keeps (sessionRoot s)

/-- When the scope is left as it was entered. The flag is cleared for an account that is not root,
and only for such. -/
def SessionRestored (line : Str) : Prop :=
  userCanSudo s = true →
    match lineEffect w (userBeginSudoScope s) (bodyOf line) with
    | .ends => False
    | .stops => sessionRoot s = true ∨ s.sudoActive = true
    | .keeps root => if root then sessionRoot s = true ∨ s.sudoActive = true else s.sudoActive = false

def Effect.Describes (s s' : UserState) : Effect → Prop
  | .ends => s'.currentIndex ≠ s.currentIndex
  | .stops => s'.ready = false ∧ s'.currentIndex = s.currentIndex ∧ s'.sudoActive = s.sudoActive
  | .keeps root => s'.ready = s.ready ∧ s'.currentIndex = s.currentIndex ∧
      s'.sudoActive = s.sudoActive ∧ (sessionAccount s').map UserAccount.isRoot = some root

variable {w s} {s' : UserState}

theorem session_some (h : userIsLoggedIn s = true) : ∃ i a, s.currentIndex = some i ∧
    s.accounts[i]? = some a ∧ sessionAccount s = some a := by
  obtain ⟨a, ha⟩ := Option.isSome_iff_exists.mp (Bool.and_eq_true_iff.mp h).2
  obtain ⟨i, hi, hai⟩ := Option.bind_eq_some_iff.mp ha
  exact ⟨i, a, hi, hai, ha⟩

theorem sessionRoot_eq {a : UserAccount} (h : sessionAccount s = some a) : sessionRoot s = a.isRoot := by
  rw [sessionRoot, h]
  rfl

theorem describes_keeps_roles (hl : userIsLoggedIn s = true) (h : KeepsRoles s s') :
    (Effect.keeps (sessionRoot s)).Describes s s' := by
  obtain ⟨i, a, hi, hai, ha⟩ := session_some hl
  refine ⟨h.ready, h.current, h.sudo_active, ?_⟩
  have hroles := roles_at h i
  rw [hai] at hroles
  obtain ⟨b, hb, hab⟩ := Option.map_eq_some_iff.mp hroles
  have hsession : sessionAccount s' = some b := by
    rw [sessionAccount, h.current, hi]
    exact hb
  rw [hsession, sessionRoot_eq ha, Option.map_some]
  exact congrArg (fun p : Bool × Bool => some p.1) hab

theorem describes_same (hl : userIsLoggedIn s = true) :
    (Effect.keeps (sessionRoot s)).Describes s s :=
  describes_keeps_roles hl (OnlyGroups.refl s).keeps_roles

theorem Effect.Describes.then_keeps {s₁ s₂ s₃ : UserState} {root : Bool}
    (h : (Effect.keeps root).Describes s₁ s₂) (hl : userIsLoggedIn s₁ = true)
    (k : KeepsRoles s₂ s₃) : (Effect.keeps root).Describes s₁ s₃ := by
  obtain ⟨hready, hcurrent, hactive, hroot⟩ := h
  obtain ⟨b, hb, hbroot⟩ := Option.map_eq_some_iff.mp hroot
  have hlogin : userIsLoggedIn s₂ = true := by
    rw [userIsLoggedIn, hb, hready]
    exact Bool.and_eq_true_iff.mpr ⟨(Bool.and_eq_true_iff.mp hl).1, rfl⟩
  have hk := describes_keeps_roles hlogin k
  rw [sessionRoot_eq hb, hbroot] at hk
  exact ⟨hk.1.trans hready, hk.2.1.trans hcurrent, hk.2.2.1.trans hactive, hk.2.2.2⟩

theorem describes_setAccount (hl : userIsLoggedIn s = true) (i : ℕ) (root : Bool)
    (f : UserAccount → UserAccount) (hf : ∀ a, (f a).isRoot = root) :
    (Effect.keeps (if some i = s.currentIndex then root else sessionRoot s)).Describes s
      (s.setAccount i f) := by
  obtain ⟨c, a, hc, hac, ha⟩ := session_some hl
  refine ⟨rfl, rfl, rfl, ?_⟩
  have hset : sessionAccount (s.setAccount i f) = some (if i = c then f a else a) := by
    change s.currentIndex.bind (fun c => (s.accounts.modify i f)[c]?) = _
    rw [hc, Option.bind_some, List.getElem?_modify, hac]
    split <;> rfl
  rw [hset, hc, Option.map_some, sessionRoot_eq ha]
  by_cases hic : i = c
  · rw [if_pos hic, if_pos (congrArg some hic), hf]
  · rw [if_neg hic, if_neg fun he => hic (Option.some.inj he)]

theorem login_only_groups (h : OnlyGroups s s') (hl : userIsLoggedIn s = true) :
    userIsLoggedIn s' = true ∧ sessionRoot s' = sessionRoot s := by
  have hsession : sessionAccount s' = sessionAccount s := by
    rw [sessionAccount, sessionAccount, h.current, h.accounts]
  refine ⟨?_, by rw [sessionRoot, sessionRoot, hsession]⟩
  rw [userIsLoggedIn, hsession, h.ready]
  exact hl

theorem describes_append (hl : userIsLoggedIn s = true) (a : UserAccount) :
    (Effect.keeps (sessionRoot s)).Describes s { s with accounts := s.accounts ++ [a] } := by
  obtain ⟨i, b, hi, hbi, hb⟩ := session_some hl
  refine ⟨rfl, rfl, rfl, ?_⟩
  have hsession : sessionAccount { s with accounts := s.accounts ++ [a] } = some b := by
    change s.currentIndex.bind (fun i => (s.accounts ++ [a])[i]?) = _
    rw [hi, Option.bind_some, List.getElem?_append_left (List.getElem?_eq_some_iff.mp hbi).1, hbi]
  rw [hsession, sessionRoot_eq hb]
  rfl

theorem replacesOwn_iff (n : NewAccount) : replacesOwn s n = true ↔ n.name ≠ [] ∧ n.password ≠ [] ∧
    (primaryAdded s n.group).1 = true ∧ userFind s n.name = s.currentIndex := by
  simp only [replacesOwn, Bool.and_eq_true, bne_iff_ne, beq_iff_eq, and_assoc, ne_eq]

theorem describes_only_groups (h : OnlyGroups s s') {t : UserState} {root : Bool}
    (ht : (Effect.keeps root).Describes s' t) : (Effect.keeps root).Describes s t :=
  ⟨ht.1.trans h.ready, ht.2.1.trans h.current, ht.2.2.1.trans h.sudo_active, ht.2.2.2⟩

theorem add_replaces (hl : userIsLoggedIn s = true) {n : NewAccount} (h : replacesOwn s n = true) :
    (userAddAccount s n.name n.password n.isRoot n.sudoer n.group false).1 = true := by
  obtain ⟨c, -, hc, -, -⟩ := session_some hl
  obtain ⟨hname, hpassword, hgroup, hfind⟩ := (replacesOwn_iff n).mp h
  have hfind : userFind (primaryAdded s n.group).2 n.name = some c := by
    rw [userFind_only_groups (primaryAdded_frame s n.group), hfind, hc]
  unfold userAddAccount
  rw [if_neg (not_or.mpr ⟨hname, hpassword⟩)]
  rw [primaryAdded] at hgroup hfind
  simp only [hgroup, hfind, Bool.true_eq_false, if_false]

theorem describes_addRefreshed (hl : userIsLoggedIn s = true) (n : NewAccount) :
    (Effect.keeps (if replacesOwn s n then n.isRoot else sessionRoot s)).Describes s
      (addRefreshed s n) := by
  have hframe := primaryAdded_frame s n.group
  obtain ⟨hlogin, hrole⟩ := login_only_groups hframe hl
  obtain ⟨c, -, hc, -, -⟩ := session_some hl
  have hadd : (Effect.keeps (if replacesOwn s n then n.isRoot else sessionRoot s)).Describes s
      (userAddAccount s n.name n.password n.isRoot n.sudoer n.group false).2 := by
    rcases userAddAccount_cases s n.name n.password n.isRoot n.sudoer n.group false with
      ⟨hfail, hsame⟩ | ⟨i, -, hname, hpassword, hgroup, hfind, hset⟩ | ⟨-, -, -, -, hfind, -, happend⟩
    · have hnot : replacesOwn s n = false := by
        by_contra h
        rw [add_replaces hl (Bool.not_eq_false _ ▸ h)] at hfail
        cases hfail
      rw [hnot]
      exact describes_keeps_roles hl (refused_frame hsame).keeps_roles
    · rw [hset]
      have hreplaces : replacesOwn s n = decide (some i = s.currentIndex) := by
        rw [Bool.eq_iff_iff, replacesOwn_iff, decide_eq_true_iff, hfind]
        exact ⟨fun h => h.2.2.2, fun h => ⟨hname, hpassword, hgroup, h⟩⟩
      have hdesc := describes_only_groups hframe (describes_setAccount hlogin i n.isRoot
        (fun a => { a with
          password := userStorePassword userPassMax n.name n.password false
          isRoot := n.isRoot
          sudoer := n.sudoer || n.isRoot
          primaryGroup := userCopy groupNameMax (if n.group = [] then n.name else n.group) })
        fun _ => rfl)
      rw [hframe.current, hrole] at hdesc
      simpa only [hreplaces, decide_eq_true_eq] using hdesc
    · have hnot : replacesOwn s n = false := by
        rw [Bool.eq_false_iff, Ne, replacesOwn_iff, hfind, hc]
        exact fun h => nomatch h.2.2.2
      rw [happend, hnot, ← hframe.accounts, ← hrole]
      exact describes_only_groups hframe (describes_append hlogin _)
  unfold addRefreshed
  simp only
  split
  · exact hadd.then_keeps hl (refreshed_keeps_roles _)
  · exact hadd

theorem addRefreshed_refused {n : NewAccount} (h : n.name = [] ∨ n.password = []) :
    addRefreshed s n = s := by
  rw [addRefreshed, userAddAccount, if_pos h]
  exact if_neg Bool.noConfusion

theorem useradd_of_root (hroot : userIsRoot s = true) (args : Str) :
    userCommandUseradd s args = addRefreshed s (newAccountOf args) := by
  by_cases hempty : (newAccountOf args).name = [] ∨ (newAccountOf args).password = []
  · rw [addRefreshed_refused hempty]
    rcases userCommandUseradd_cases s args with hsame | ⟨-, hname, hpassword, -⟩
    · exact hsame
    · exact absurd hempty (not_or.mpr ⟨hname, hpassword⟩)
  · have hnot : ¬ userIsRoot s = false := by simp [hroot]
    simp only [newAccountOf] at hempty
    simp only [userCommandUseradd, if_neg hnot, newAccountOf]
    generalize userNextToken userNameMax args = name at hempty
    generalize userNextToken userPassMax name.2 = password at hempty
    generalize userNextToken 8 password.2 = role
    generalize userNextToken groupNameMax role.2 = primary
    exact if_neg hempty

theorem createAccount_of_ready (hready : s.ready = true) (name password : Str) (sudoer : Bool) :
    (userCreateAccount s name password sudoer).2 = addRefreshed s (installed name password sudoer) := by
  by_cases hempty : name = [] ∨ password = []
  · rw [userCreateAccount, if_pos (.inr hempty), addRefreshed_refused hempty]
  · exact createAccount_made s (by simpa [hready] using hempty) sudoer

theorem setsOwnRole_iff (words : UsermodWords) : setsOwnRole s words = true ↔
    words.name ≠ [] ∧ words.value ≠ [] ∧ modificationOf words.action = some .role ∧
      userFind s words.name = s.currentIndex := by
  simp only [setsOwnRole, Bool.and_eq_true, bne_iff_ne, beq_iff_eq, and_assoc, ne_eq]

theorem describes_modify (hl : userIsLoggedIn s = true) (m : Modification) (i : ℕ) (name value : Str) :
    (Effect.keeps (if m = .role ∧ some i = s.currentIndex then value == rootName
      else sessionRoot s)).Describes s (modify s m i name value) := by
  cases m with
  | role =>
    have hset := (describes_setAccount hl i (value == rootName) (fun a => { a with
      isRoot := value == rootName, sudoer := value == rootName || value == sudoName })
      fun _ => rfl).then_keeps hl (userSyncRoleGroups_frame _).keeps_roles
    simp only [true_and]
    exact hset
  | primary =>
    have hadd := (groupAddInternal_frame s value).keeps_roles
    rw [if_neg (by simp)]
    refine describes_keeps_roles hl ?_
    simp only [modify]
    split
    · exact hadd
    · have hset := setAccount_keeps_roles (groupAddInternal s value).2 i
        (fun a => { a with primaryGroup := userCopy groupNameMax value }) (fun _ => rfl) fun _ => rfl
      exact (hadd.trans hset).trans (groupSetMembership_frame _ _ _ _).keeps_roles
  | groupadd =>
    rw [if_neg (by simp)]
    exact describes_keeps_roles hl (userAddToGroup_frame s name value).keeps_roles
  | groupdel =>
    rw [if_neg (by simp)]
    exact describes_keeps_roles hl (userRemoveFromGroup_frame s name value).keeps_roles

theorem usermod_of_root (hroot : userIsRoot s = true) (args : Str) :
    userCommandUsermod s args =
      if (usermodWords args).name = [] ∨ (usermodWords args).value = [] then s
      else
        match userFind s (usermodWords args).name, modificationOf (usermodWords args).action with
        | some i, some m => modify s m i (usermodWords args).name (usermodWords args).value
        | _, _ => s := by
  have hnot : ¬ userIsRoot s = false := by simp [hroot]
  simp only [userCommandUsermod, if_neg hnot, usermodWords]
  by_cases haction : (userNextToken 16 args).1 = []
  · have hnone : modificationOf [] = none := by decide
    simp only [haction, true_or, if_true, hnone]
    split
    · rfl
    · split
      next hm => cases hm
      · rfl
  · simp only [haction, false_or]
    rfl

section LoggedIn

variable (hl : userIsLoggedIn s = true)

include hl

theorem describes_usermod (hroot : userIsRoot s = true) (args : Str) :
    (commandEffect s .usermod args).Describes s (userCommandUsermod s args) := by
  rw [usermod_of_root hroot]
  unfold commandEffect
  generalize usermodWords args = words
  simp only
  split
  next hempty =>
    have hnot : setsOwnRole s words = false := by
      rw [Bool.eq_false_iff, Ne, setsOwnRole_iff]
      exact fun h => hempty.elim h.1 h.2.1
    rw [hnot]
    exact describes_same hl
  next hempty =>
    obtain ⟨hname, hvalue⟩ := not_or.mp hempty
    split
    next i m hfind hm =>
      have hown : setsOwnRole s words = decide (m = .role ∧ some i = s.currentIndex) := by
        rw [Bool.eq_iff_iff, setsOwnRole_iff, decide_eq_true_iff, hfind, hm, Option.some.injEq]
        exact ⟨fun h => h.2.2, fun h => ⟨hname, hvalue, h⟩⟩
      simpa only [hown, decide_eq_true_eq] using describes_modify hl m i words.name words.value
    next hnone =>
      have hnot : setsOwnRole s words = false := by
        obtain ⟨c, -, hc, -, -⟩ := session_some hl
        rw [Bool.eq_false_iff, Ne, setsOwnRole_iff, hc]
        exact fun h => hnone c .role h.2.2.2 h.2.2.1
      rw [hnot]
      exact describes_same hl

theorem describes_userdel (args : Str) :
    (commandEffect s .userdel args).Describes s (userCommandUserdel s args) := by
  obtain ⟨i, a, hi, hai, ha⟩ := session_some hl
  unfold commandEffect userCommandUserdel
  simp only
  cases deletedIndex s args with
  | none => exact describes_same hl
  | some d =>
    rw [hi]
    simp only
    split
    next hdi =>
      change (s.currentIndex.bind _) ≠ s.currentIndex
      rw [hi, Option.bind_some]
      split
      · exact fun h => nomatch h
      · split
        · exact fun h => absurd (Option.some.inj h) (by omega)
        · omega
    next hdi =>
      have hcurrent : (deleteAccount s d).currentIndex = some i := by
        change (s.currentIndex.bind _) = some i
        rw [hi, Option.bind_some, if_neg (by omega), if_neg (by omega)]
      have hactive : (deleteAccount s d).sudoActive = s.sudoActive :=
        if_neg (by rw [hi]; exact fun h => absurd (Option.some.inj h) (by omega))
      refine ⟨rfl, hcurrent.trans hi.symm, hactive, ?_⟩
      rw [sessionAccount, hcurrent, sessionRoot_eq ha]
      change ((s.accounts.eraseIdx d)[i]?).map _ = _
      rw [List.getElem?_eraseIdx_of_lt (by omega), hai]
      rfl

theorem describes_run (hroot : userIsRoot s = true) (c : Command)
    (hc : c ∉ [Command.login, .logout, .su, .sudoMode]) (args : Str) :
    (commandEffect s c args).Describes s (c.run s args) := by
  cases c with
  | login | logout | su | sudoMode => exact absurd (by decide) hc
  | print => exact describes_same hl
  | passwd => exact describes_keeps_roles hl (userCommandPasswd_keeps_roles s args)
  | useradd =>
    have hadd := describes_addRefreshed hl (newAccountOf args)
    rw [← useradd_of_root hroot] at hadd
    exact hadd
  | userdel => exact describes_userdel hl args
  | usermod => exact describes_usermod hl hroot args
  | groupadd => exact describes_keeps_roles hl (userCommandGroupadd_frame s args).keeps_roles
  | groupdel => exact describes_keeps_roles hl (userCommandGroupdel_frame s args).keeps_roles
  | gpasswd => exact describes_keeps_roles hl (userCommandGpasswd_frame s args).keeps_roles

theorem describes_createAll (accounts : List (Str × Str × Bool)) :
    (Effect.keeps (sessionRoot s && !installerReplaces s accounts)).Describes s
      (createAll s accounts) := by
  induction accounts generalizing s with
  | nil =>
    rw [installerReplaces, Bool.not_false, Bool.and_true]
    exact describes_same hl
  | cons a rest ih =>
    have hready := (Bool.and_eq_true_iff.mp hl).1
    have hfirst := describes_addRefreshed hl (installed a.1 a.2.1 a.2.2)
    rw [← createAccount_of_ready hready] at hfirst
    unfold installerReplaces
    change (Effect.keeps _).Describes s (createAll (userCreateAccount s a.1 a.2.1 a.2.2).2 rest)
    generalize (userCreateAccount s a.1 a.2.1 a.2.2).2 = t at hfirst ih
    obtain ⟨htready, htcurrent, htactive, htroot⟩ := hfirst
    obtain ⟨b, hb, hbroot⟩ := Option.map_eq_some_iff.mp htroot
    have hlogin : userIsLoggedIn t = true := by
      rw [userIsLoggedIn, hb, htready, hready]
      rfl
    obtain ⟨hr, hc, ha, hroot⟩ := ih hlogin
    refine ⟨hr.trans htready, hc.trans htcurrent, ha.trans htactive, hroot.trans ?_⟩
    rw [sessionRoot_eq hb, hbroot]
    cases replacesOwn s (installed a.1 a.2.1 a.2.2)
    · rfl
    · rw [if_pos rfl, Bool.true_or, Bool.not_true, Bool.and_false]
      rfl

theorem describes_start (t : UserState) : Effect.ends.Describes s (userServiceStart t w.files) := by
  obtain ⟨i, -, hi, -, -⟩ := session_some hl
  change none ≠ s.currentIndex
  rw [hi]
  exact fun h => nomatch h

theorem describes_action (action : Str) :
    (serviceEffect w s action).Describes s (serviceAction w s action) := by
  unfold serviceEffect serviceAction
  split
  · split
    · exact describes_same hl
    · exact describes_start hl s
  · split
    · split
      · exact ⟨rfl, rfl, rfl⟩
      · exact describes_same hl
    · split
      · exact describes_start hl _
      · exact describes_same hl

theorem describes_unknown (hroot : userIsRoot s = true) (line : Str)
    (hc : ∀ c ∈ [Command.login, .logout, .su, .sudoMode], lineCommand line ≠ some c) :
    (unknownEffect w s line).Describes s (shellUnknown w s line) := by
  have hrun : ∀ (c : Command) args, lineCommand line = some c →
      (commandEffect s c args).Describes s (c.run s args) :=
    fun c args hline => describes_run hl hroot c (fun hmem => hc c hmem hline) args
  unfold unknownEffect shellUnknown
  simp only
  split
  · exact describes_createAll hl _
  · split
    next huserctl =>
      have hline : lineCommand line = commandOf (userNextToken 16 (userNextToken 96 line).2).1 :=
        if_pos huserctl
      split
      · unfold userCommandUserctl
        simp only
        cases hsub : commandOf (userNextToken 16 (userNextToken 96 line).2).1 with
        | none => exact describes_same hl
        | some c => exact hrun c _ (hline.trans hsub)
      · cases w.userctlRunning with
        | true => simpa using describes_same hl
        | false => simpa [hroot] using describes_start hl s
    next huserctl =>
      have hline : lineCommand line = commandOf (userNextToken 96 line).1 := if_neg huserctl
      cases hname : commandOf (userNextToken 96 line).1 with
      | none => exact describes_same hl
      | some c =>
        simp only
        split
        · exact hrun c _ (hline.trans hname)
        · exact describes_same hl

theorem describes_line (hroot : userIsRoot s = true) (line : Str)
    (hc : ¬ SwitchesSession line) : (lineEffect w s line).Describes s (runBody w s line) := by
  unfold lineEffect runBody
  cases hline : shellParseCommand line with
  | empty | other => exact describes_same hl
  | sudoMode rest => exact describes_same hl
  | servicectl args =>
    simp only [shellHandleServicectl, hroot, and_true]
    cases w.controlPlaneOnline with
    | false => exact describes_same hl
    | true =>
      simp only [true_and, Bool.true_eq_false, if_false]
      split
      · exact describes_action hl _
      · exact describes_same hl
  | unknown =>
    exact describes_unknown hl hroot line fun c hmem hcmd => hc ⟨hline, c, hmem, hcmd⟩

end LoggedIn

theorem begin_cases (h : userCanSudo s = true) :
    userIsLoggedIn s = true ∧
      userBeginSudoScope s = { s with sudoActive := !sessionRoot s || s.sudoActive } := by
  unfold userCanSudo at h
  unfold userBeginSudoScope
  split at h
  · cases h
  next a ha =>
    obtain ⟨hready, hroles⟩ := Bool.and_eq_true_iff.mp h
    refine ⟨by rw [userIsLoggedIn, ha, hready]; rfl, ?_⟩
    rw [sessionRoot_eq ha]
    cases hroot : a.isRoot with
    | true =>
      rw [if_neg (by simp)]
      rfl
    | false =>
      rw [hroot, Bool.false_or] at hroles
      rw [if_pos (by simp [hready, hroles])]
      rfl

theorem begin_spec (h : userCanSudo s = true) :
    userIsLoggedIn (userBeginSudoScope s) = true ∧ userIsRoot (userBeginSudoScope s) = true ∧
      userCanSudo (userBeginSudoScope s) = true := by
  obtain ⟨hl, hb⟩ := begin_cases h
  obtain ⟨-, a, -, -, ha⟩ := session_some hl
  have hsession : sessionAccount { s with sudoActive := !sessionRoot s || s.sudoActive } = some a := ha
  refine ⟨by rw [hb]; exact hl, ?_, by rw [hb]; exact h⟩
  rw [hb, userIsRoot, hsession, sessionRoot_eq ha]
  cases hr : a.isRoot <;> simp [hr, (Bool.and_eq_true_iff.mp hl).1]

theorem begin_begin (h : userCanSudo s = true) :
    userBeginSudoScope (userBeginSudoScope s) = userBeginSudoScope s := by
  rw [(begin_cases (begin_spec h).2.2).2, (begin_cases h).2]
  change { s with sudoActive := !sessionRoot s || (!sessionRoot s || s.sudoActive) } = _
  rw [← Bool.or_assoc, Bool.or_self]

theorem end_end : userEndSudoScope (userEndSudoScope s) = userEndSudoScope s := by
  cases ha : sessionAccount s with
  | none => simp only [userEndSudoScope, ha]
  | some a =>
    by_cases hs : (s.ready && !a.isRoot) = true
    · have hdown : userEndSudoScope s = { s with sudoActive := false } := by
        simp only [userEndSudoScope, ha, if_pos hs]
      have hsession : sessionAccount { s with sudoActive := false } = some a := ha
      rw [hdown]
      simp only [userEndSudoScope, hsession, if_pos hs]
    · have hsame : userEndSudoScope s = s := by simp only [userEndSudoScope, ha, if_neg hs]
      rw [hsame, hsame]

theorem afterWord_shorter {line word rest : Str} (hw : word ≠ []) (h : afterWord line word = some rest) :
    rest.length < line.length := by
  unfold afterWord at h
  split at h
  next hpre =>
    simp only at h
    split at h
    · cases h
      have hle := (List.dropWhile_suffix isSpace (l := line.drop word.length)).length_le
      have hword := (List.isPrefixOf_iff_prefix.mp hpre).length_le
      have := List.length_pos_of_ne_nil hw
      rw [List.length_drop] at hle
      omega
    · cases h
  · cases h

theorem sudo_shorter {line rest : Str} (h : shellParseCommand line = .sudoMode rest) :
    rest.length < line.length := by
  have hle := (List.dropWhile_suffix isSpace (l := line)).length_le
  unfold shellParseCommand at h
  simp only at h
  split at h
  · cases h
  · split at h
    · cases h
    · split at h
      · cases h
      next hafter =>
        cases h
        exact lt_of_lt_of_le (afterWord_shorter (by decide) hafter) hle
      · cases h

theorem shellRun_scope (n : ℕ) {line rest : Str} (hn : line.length < n)
    (hline : shellParseCommand line = .sudoMode rest) (hrest : rest ≠ [])
    (hcan : userCanSudo s = true) :
    shellRun w n s line = userEndSudoScope (runBody w (userBeginSudoScope s) (sudoBody n line)) := by
  induction n generalizing s line rest with
  | zero => omega
  | succ n ih =>
    have hshort := sudo_shorter hline
    obtain ⟨hlogin, -, hcan'⟩ := begin_spec hcan
    have houter : ¬ (userIsLoggedIn s = false ∧ allowedWithoutLogin line = false) :=
      fun h => by rw [(begin_cases hcan).1] at h; cases h.1
    have hgiven : ¬ (rest = [] ∨ userCanSudo s = false) := by simp [hrest, hcan]
    have hrun : shellRun w (n + 1) s line =
        userEndSudoScope (shellRun w n (userBeginSudoScope s) rest) := by
      rw [shellRun, if_neg houter, hline]
      exact if_neg hgiven
    have hbody : sudoBody (n + 1) line = sudoBody n rest := by
      rw [sudoBody, hline]
      exact if_neg hrest
    rw [hrun, hbody]
    by_cases hnested : ∃ rest', shellParseCommand rest = .sudoMode rest' ∧ rest' ≠ []
    · obtain ⟨rest', hline', hrest'⟩ := hnested
      rw [ih (by omega) hline' hrest' hcan', begin_begin hcan, end_end]
    · obtain ⟨m, rfl⟩ := Nat.exists_eq_succ_of_ne_zero (n := n) (by omega)
      have hlast : sudoBody (m + 1) rest = rest := by
        rw [sudoBody]
        split
        next rest' hline' =>
          by_contra hne
          exact hnested ⟨rest', hline', fun he => hne (if_pos he)⟩
        · rfl
      have hinner : ¬ (userIsLoggedIn (userBeginSudoScope s) = false ∧
          allowedWithoutLogin rest = false) := fun h => by rw [hlogin] at h; cases h.1
      rw [hlast, shellRun, if_neg hinner, runBody]
      cases hline' : shellParseCommand rest with
      | empty | other | servicectl | unknown => rfl
      | sudoMode rest' =>
        have hempty : rest' = [] := by
          by_contra hne
          exact hnested ⟨rest', hline', hne⟩
        exact congrArg _ (if_pos (.inl hempty))

theorem end_keeps {root : Bool} {b : UserState} (hl : userIsLoggedIn b = true)
    (h : (Effect.keeps root).Describes b s) :
    (userEndSudoScope s).currentIndex = b.currentIndex ∧
      (userEndSudoScope s).sudoActive = (root && b.sudoActive) := by
  obtain ⟨hready, hcurrent, hactive, hroot⟩ := h
  obtain ⟨a, ha, rfl⟩ := Option.map_eq_some_iff.mp hroot
  have hr : s.ready = true := hready.trans (Bool.and_eq_true_iff.mp hl).1
  simp only [userEndSudoScope, ha, hr, Bool.true_and]
  cases a.isRoot with
  | true => exact ⟨hcurrent, hactive⟩
  | false => exact ⟨hcurrent, rfl⟩

theorem end_current (s : UserState) : (userEndSudoScope s).currentIndex = s.currentIndex := by
  unfold userEndSudoScope
  split
  · rfl
  · split <;> rfl

theorem end_stopped (h : s.ready = false) : userEndSudoScope s = s := by
  unfold userEndSudoScope
  split
  · rfl
  · rw [h]
    rfl

/-- The flag is restored exactly if it was down, or the account is root throughout. -/
theorem sudo_leaves_session_iff (w : System) (s : UserState) (line rest : Str)
    (hline : shellParseCommand line = .sudoMode rest) (hrest : rest ≠ [])
    (hbody : ¬ SwitchesSession (bodyOf line)) : LeavesSession w s line ↔ SessionRestored w s line := by
  cases hcan : userCanSudo s with
  | false =>
    have hsame : shellHandleCommand w s line = s := by
      rw [shellHandleCommand, shellRun, hline]
      split
      · rfl
      · exact if_pos (.inr hcan)
    refine ⟨fun _ h => absurd (hcan.symm.trans h) Bool.noConfusion, fun _ => ?_⟩
    constructor <;> rw [hsame]
  | true =>
    obtain ⟨hl, hroot, -⟩ := begin_spec hcan
    have hdesc := describes_line (w := w) hl hroot (bodyOf line) hbody
    have hrun : shellHandleCommand w s line = userEndSudoScope
        (runBody w (userBeginSudoScope s) (bodyOf line)) :=
      shellRun_scope _ (Nat.lt_succ_self _) hline hrest hcan
    have hflag : (userBeginSudoScope s).sudoActive = (!sessionRoot s || s.sudoActive) := by
      rw [(begin_cases hcan).2]
    have hindex : (userBeginSudoScope s).currentIndex = s.currentIndex := by
      rw [(begin_cases hcan).2]
    have hleaves : LeavesSession w s line ↔
        (userEndSudoScope (runBody w (userBeginSudoScope s) (bodyOf line))).currentIndex =
            s.currentIndex ∧
          (userEndSudoScope (runBody w (userBeginSudoScope s) (bodyOf line))).sudoActive =
            s.sudoActive := by
      rw [← hrun]
      exact ⟨fun h => ⟨h.1, h.2⟩, fun h => ⟨h.1, h.2⟩⟩
    rw [hleaves, SessionRestored, hcan]
    simp only [forall_const]
    generalize runBody w (userBeginSudoScope s) (bodyOf line) = t at hdesc
    cases heffect : lineEffect w (userBeginSudoScope s) (bodyOf line) with
    | ends =>
      rw [heffect] at hdesc
      rw [end_current]
      exact ⟨fun h => hdesc (h.1.trans hindex.symm), False.elim⟩
    | stops =>
      rw [heffect] at hdesc
      rw [end_stopped hdesc.1, hdesc.2.1, hindex, hdesc.2.2, hflag]
      cases sessionRoot s <;> cases s.sudoActive <;> simp
    | keeps root =>
      rw [heffect] at hdesc
      rw [(end_keeps hl hdesc).1, (end_keeps hl hdesc).2, hindex, hflag]
      cases root <;> cases sessionRoot s <;> cases s.sudoActive <;> simp

/-- "login guest guest". -/
def loginLine : Str := [108, 111, 103, 105, 110, 32] ++ guestLogin

/-- "userctl sudo on". -/
def modeLine : Str := userctlWord ++ 32 :: sudoName ++ 32 :: onWord

def guestLoggedIn : UserState := shellHandleCommand running firstStart loginLine

def sudoId : Str := sudoName ++ [32, 105, 100]

theorem id_switches_nothing : ¬ SwitchesSession (bodyOf sudoId) := by
  rintro ⟨-, c, hc, hline⟩
  have hprint : lineCommand (bodyOf sudoId) = some .print := by decide +kernel
  rw [hprint] at hline
  cases hline
  revert hc
  decide

theorem id_leaves_session : LeavesSession running guestLoggedIn sudoId := by
  refine (sudo_leaves_session_iff running guestLoggedIn sudoId [105, 100] (by decide) (by decide)
    id_switches_nothing).mpr fun _ => ?_
  have heffect : lineEffect running (userBeginSudoScope guestLoggedIn) (bodyOf sudoId) = .keeps false := by
    decide +kernel
  rw [heffect]
  decide +kernel

/-- A `sudo` switches the `sudo` mode off that was on before it. -/
theorem sudo_ends_sudo_mode : ¬ ∀ w s line rest, shellParseCommand line = .sudoMode rest → rest ≠ [] →
    ¬ SwitchesSession (bodyOf line) → LeavesSession w s line := by
  intro h
  have hactive := (h running (shellHandleCommand running guestLoggedIn modeLine) sudoId [105, 100]
    (by decide) (by decide) id_switches_nothing).sudo_active
  revert hactive
  decide +kernel

end Accounts
