import K64.Accounts
import Mathlib.Data.List.Nodup

/-! # What a step changes of the database

The steps that a session and an installer can take, and for each operation what it leaves alone. -/
namespace Accounts

inductive Event where
  | command (c : Command) (args : Str)
  | createAccount (name password : Str) (sudoer : Bool)
  | beginSudoScope
  | endSudoScope

def Event.apply (s : UserState) : Event → UserState
  | .command c args => c.run s args
  | .createAccount name password sudoer => (userCreateAccount s name password sudoer).2
  | .beginSudoScope => userBeginSudoScope s
  | .endSudoScope => userEndSudoScope s

variable (s : UserState)

structure OnlyGroups (s s' : UserState) : Prop where
  ready : s'.ready = s.ready
  current : s'.currentIndex = s.currentIndex
  sudo_active : s'.sudoActive = s.sudoActive
  accounts : s'.accounts = s.accounts

theorem OnlyGroups.refl : OnlyGroups s s := ⟨rfl, rfl, rfl, rfl⟩

theorem OnlyGroups.trans {s₁ s₂ s₃ : UserState} (h : OnlyGroups s₁ s₂) (k : OnlyGroups s₂ s₃) :
    OnlyGroups s₁ s₃ :=
  ⟨k.1.trans h.1, k.2.trans h.2, k.3.trans h.3, k.4.trans h.4⟩

theorem only_groups_with (groups : List UserGroup) : OnlyGroups s { s with groups := groups } :=
  ⟨rfl, rfl, rfl, rfl⟩

theorem groupAddInternal_frame (name : Str) : OnlyGroups s (groupAddInternal s name).2 := by
  unfold groupAddInternal
  split
  · exact .refl s
  · split
    · exact .refl s
    · split
      · exact .refl s
      · exact only_groups_with s _

theorem groupSetMembership_frame (group : Option ℕ) (user : ℕ) (member : Bool) :
    OnlyGroups s (groupSetMembership s group user member) := by
  unfold groupSetMembership
  split
  · exact .refl s
  · split
    · exact only_groups_with s _
    · exact .refl s

theorem userAddToGroup_frame (name group : Str) : OnlyGroups s (userAddToGroup s name group).2 := by
  have hadd := groupAddInternal_frame s group
  unfold userAddToGroup
  split
  · exact .refl s
  · simp only
    split
    next user _ _ _ g _ _ => exact hadd.trans (groupSetMembership_frame _ (some g) user true)
    · exact hadd

theorem userRemoveFromGroup_frame (name group : Str) :
    OnlyGroups s (userRemoveFromGroup s name group).2 := by
  unfold userRemoveFromGroup
  split
  next user g _ _ =>
    split
    · exact .refl s
    · exact groupSetMembership_frame s (some g) user false
  · exact .refl s

theorem setRoleMembers_frame (group : Str) (rule : UserAccount → Bool) :
    OnlyGroups s (setRoleMembers s group rule) := by
  unfold setRoleMembers
  split
  · exact .refl s
  · exact only_groups_with s _

theorem userSyncRoleGroups_frame : OnlyGroups s (userSyncRoleGroups s) :=
  (((groupAddInternal_frame s _).trans (groupAddInternal_frame _ _)).trans
    (setRoleMembers_frame _ _ _)).trans (setRoleMembers_frame _ _ _)

def UserAccount.roles (a : UserAccount) : Bool × Bool := (a.isRoot, a.sudoer)

structure KeepsRoles (s s' : UserState) : Prop where
  ready : s'.ready = s.ready
  current : s'.currentIndex = s.currentIndex
  sudo_active : s'.sudoActive = s.sudoActive
  names : s'.accounts.map UserAccount.name = s.accounts.map UserAccount.name
  roles : s'.accounts.map UserAccount.roles = s.accounts.map UserAccount.roles

variable {s' : UserState}

theorem OnlyGroups.keeps_roles {s : UserState} (h : OnlyGroups s s') : KeepsRoles s s' :=
  ⟨h.ready, h.current, h.sudo_active, by rw [h.accounts], by rw [h.accounts]⟩

theorem KeepsRoles.trans {s₁ s₂ s₃ : UserState} (h : KeepsRoles s₁ s₂) (k : KeepsRoles s₂ s₃) :
    KeepsRoles s₁ s₃ :=
  ⟨k.1.trans h.1, k.2.trans h.2, k.3.trans h.3, k.4.trans h.4, k.5.trans h.5⟩

theorem KeepsRoles.length {s : UserState} (h : KeepsRoles s s') :
    s'.accounts.length = s.accounts.length := by
  have := congrArg List.length h.names
  rwa [List.length_map, List.length_map] at this

theorem map_modify_same {α β : Type} (f : α → β) (g : α → α) (h : ∀ a, f (g a) = f a)
    (l : List α) (i : ℕ) : (l.modify i g).map f = l.map f := by
  induction l generalizing i with
  | nil => cases i <;> rfl
  | cons a l ih =>
    cases i with
    | zero => simp [List.modify, h]
    | succ i => rw [List.modify_succ_cons, List.map_cons, List.map_cons, ih i]

theorem setAccount_keeps_roles (i : ℕ) (f : UserAccount → UserAccount)
    (hname : ∀ a, (f a).name = a.name) (hroles : ∀ a, (f a).roles = a.roles) :
    KeepsRoles s (s.setAccount i f) :=
  ⟨rfl, rfl, rfl, map_modify_same _ _ hname _ _, map_modify_same _ _ hroles _ _⟩

theorem userEnsurePrimaryGroup_keeps_roles (i : ℕ) : KeepsRoles s (userEnsurePrimaryGroup s i) := by
  unfold userEnsurePrimaryGroup
  split
  · exact (OnlyGroups.refl s).keeps_roles
  next a _ =>
    simp only
    generalize (if a.primaryGroup = [] then userCopy groupNameMax a.name else a.primaryGroup) = group
    have hset := setAccount_keeps_roles s i (fun a => { a with primaryGroup := group })
      (fun _ => rfl) fun _ => rfl
    exact (hset.trans (groupAddInternal_frame _ _).keeps_roles).trans
      (groupSetMembership_frame _ _ _ _).keeps_roles

theorem userEnsurePrimaryGroups_keeps_roles : KeepsRoles s (userEnsurePrimaryGroups s) := by
  unfold userEnsurePrimaryGroups
  generalize List.range s.accounts.length = l
  induction l generalizing s with
  | nil => exact (OnlyGroups.refl s).keeps_roles
  | cons i l ih => exact (userEnsurePrimaryGroup_keeps_roles s i).trans (ih _)

theorem refreshed_keeps_roles : KeepsRoles s (userSyncRoleGroups (userEnsurePrimaryGroups s)) :=
  (userEnsurePrimaryGroups_keeps_roles s).trans (userSyncRoleGroups_frame _).keeps_roles

/-- The group that `user_add_account` adds for its account. -/
def primaryAdded (primaryGroup : Str) : Bool × UserState :=
  if primaryGroup = [] then (true, s) else groupAddInternal s primaryGroup

theorem primaryAdded_frame (primaryGroup : Str) : OnlyGroups s (primaryAdded s primaryGroup).2 := by
  unfold primaryAdded
  split
  · exact .refl s
  · exact groupAddInternal_frame s _

theorem refused_frame {s : UserState} {primaryGroup : Str}
    (h : s' = s ∨ s' = (primaryAdded s primaryGroup).2) : OnlyGroups s s' := by
  rcases h with rfl | rfl
  · exact .refl _
  · exact primaryAdded_frame s primaryGroup

theorem findIdx_nodup {α : Type} [BEq α] [LawfulBEq α] {l : List α} (h : l.Nodup) {i : ℕ} {n : α}
    (hi : l[i]? = some n) : l.findIdx? (· == n) = some i := by
  obtain ⟨hlt, hn⟩ := List.getElem?_eq_some_iff.mp hi
  refine List.findIdx?_eq_some_iff_getElem.mpr ⟨hlt, beq_iff_eq.mpr hn, fun j hj he => ?_⟩
  have := h.getElem_inj_iff.mp ((eq_of_beq he).trans hn.symm)
  omega

theorem userFind_only_groups {s : UserState} (h : OnlyGroups s s') (name : Str) :
    userFind s' name = userFind s name := by
  rw [userFind, userFind, h.accounts]

theorem userAddAccount_cases (name password : Str) (isRoot sudoer : Bool) (primaryGroup : Str)
    (hashed : Bool) :
    let r := userAddAccount s name password isRoot sudoer primaryGroup hashed
    let stored := userStorePassword userPassMax name password hashed
    let primary := userCopy groupNameMax (if primaryGroup = [] then name else primaryGroup)
    let added := (primaryAdded s primaryGroup).2
    (r.1 = false ∧ (r.2 = s ∨ r.2 = added)) ∨
    (∃ i, r.1 = true ∧ name ≠ [] ∧ password ≠ [] ∧ (primaryAdded s primaryGroup).1 = true ∧
      userFind s name = some i ∧
      r.2 = added.setAccount i fun a => { a with
        password := stored, isRoot, sudoer := sudoer || isRoot, primaryGroup := primary }) ∨
    (r.1 = true ∧ name ≠ [] ∧ password ≠ [] ∧ (primaryAdded s primaryGroup).1 = true ∧
      userFind s name = none ∧ s.accounts.length < userMaxAccounts ∧
      r.2 = { added with accounts := s.accounts ++
        [⟨userCopy userNameMax name, stored, primary, isRoot, sudoer || isRoot⟩] }) := by
  intro r stored primary added
  have hframe : OnlyGroups s added := primaryAdded_frame s primaryGroup
  have hr : r = userAddAccount s name password isRoot sudoer primaryGroup hashed := rfl
  unfold userAddAccount at hr
  split at hr
  · rw [hr]
    exact .inl ⟨rfl, .inl rfl⟩
  next hempty =>
    obtain ⟨hname, hpassword⟩ := not_or.mp hempty
    change r = if (primaryAdded s primaryGroup).1 = false then (false, added) else _ at hr
    split at hr
    · rw [hr]
      exact .inl ⟨rfl, .inr rfl⟩
    next hadded =>
      have hadded := Bool.not_eq_false _ ▸ hadded
      simp only at hr
      split at hr
      next i hfind =>
        rw [hr]
        have hfind := (userFind_only_groups hframe name).symm.trans hfind
        exact .inr (.inl ⟨i, rfl, hname, hpassword, hadded, hfind, rfl⟩)
      next hfind =>
        have hfind := (userFind_only_groups hframe name).symm.trans hfind
        change r = if added.accounts.length ≥ userMaxAccounts then (false, added) else _ at hr
        rw [hframe.accounts] at hr
        split at hr
        · rw [hr]
          exact .inl ⟨rfl, .inr rfl⟩
        next hfull =>
          rw [hr]
          refine .inr (.inr ⟨rfl, hname, hpassword, hadded, hfind, by omega, ?_⟩)
          change { added with accounts := added.accounts ++ _ } = _
          rw [hframe.accounts]

variable (args : Str)

theorem userCommandPasswd_keeps_roles : KeepsRoles s (userCommandPasswd s args) := by
  have hsame := (OnlyGroups.refl s).keeps_roles
  unfold userCommandPasswd
  simp only
  split
  · exact hsame
  · split
    · exact hsame
    · split
      · exact hsame
      · exact setAccount_keeps_roles s _ _ (fun _ => rfl) fun _ => rfl

theorem userCommandGroupadd_frame : OnlyGroups s (userCommandGroupadd s args) := by
  unfold userCommandGroupadd
  split
  · exact .refl s
  · exact groupAddInternal_frame s _

theorem userCommandGroupdel_frame : OnlyGroups s (userCommandGroupdel s args) := by
  unfold userCommandGroupdel
  split
  · exact .refl s
  · exact only_groups_with s _

theorem userCommandGpasswd_frame : OnlyGroups s (userCommandGpasswd s args) := by
  unfold userCommandGpasswd
  split
  · exact .refl s
  · simp only
    split
    · exact .refl s
    · split
      · exact userAddToGroup_frame s _ _
      · split
        · exact userRemoveFromGroup_frame s _ _
        · exact .refl s

/-- What `useradd` and the installer add. -/
structure NewAccount where
  name : Str
  password : Str
  isRoot : Bool
  sudoer : Bool
  group : Str

/-- The words behind `useradd`. -/
def newAccountOf (args : Str) : NewAccount :=
  let name := userNextToken userNameMax args
  let password := userNextToken userPassMax name.2
  let role := userNextToken 8 password.2
  let primary := userNextToken groupNameMax role.2
  { name := name.1
    password := password.1
    isRoot := role.1 == rootName
    sudoer := role.1 == rootName || role.1 == sudoName
    group := if primary.1 = [] then userCopy groupNameMax name.1 else primary.1 }

def installed (name password : Str) (sudoer : Bool) : NewAccount :=
  { name, password, isRoot := false, sudoer, group := userCopy groupNameMax name }

def addRefreshed (n : NewAccount) : UserState :=
  let added := userAddAccount s n.name n.password n.isRoot n.sudoer n.group false
  if added.1 then userSyncRoleGroups (userEnsurePrimaryGroups added.2) else added.2

theorem userCommandUseradd_cases :
    userCommandUseradd s args = s ∨
      userIsRoot s = true ∧ (newAccountOf args).name ≠ [] ∧ (newAccountOf args).password ≠ [] ∧
        userCommandUseradd s args = addRefreshed s (newAccountOf args) := by
  by_cases hroot : userIsRoot s = false
  · exact .inl (if_pos hroot)
  simp only [userCommandUseradd, if_neg hroot, newAccountOf]
  generalize userNextToken userNameMax args = name
  generalize userNextToken userPassMax name.2 = password
  generalize userNextToken 8 password.2 = role
  generalize userNextToken groupNameMax role.2 = primary
  by_cases hempty : name.1 = [] ∨ password.1 = []
  · exact .inl (if_pos hempty)
  · rw [if_neg hempty]
    exact .inr ⟨by simpa using hroot, (not_or.mp hempty).1, (not_or.mp hempty).2, rfl⟩

theorem createAccount_made {name password : Str}
    (h : ¬ (s.ready = false ∨ name = [] ∨ password = [])) (sudoer : Bool) :
    (userCreateAccount s name password sudoer).2 = addRefreshed s (installed name password sudoer) := by
  rw [userCreateAccount, if_neg h]
  have hadd : addRefreshed s (installed name password sudoer) =
      let added := userAddAccount s name password false sudoer (userCopy groupNameMax name) false
      if added.1 then userSyncRoleGroups (userEnsurePrimaryGroups added.2) else added.2 := rfl
  rw [hadd]
  generalize userAddAccount s name password false sudoer (userCopy groupNameMax name) false = added
  exact apply_ite Prod.snd _ _ _

theorem userCreateAccount_cases (name password : Str) (sudoer : Bool) :
    (userCreateAccount s name password sudoer).2 = s ∨
      s.ready = true ∧ name ≠ [] ∧ password ≠ [] ∧
        (userCreateAccount s name password sudoer).2 =
          addRefreshed s (installed name password sudoer) := by
  by_cases hempty : s.ready = false ∨ name = [] ∨ password = []
  · refine .inl ?_
    rw [userCreateAccount, if_pos hempty]
  · have hmade := createAccount_made s hempty sudoer
    simp only [not_or, Bool.not_eq_false] at hempty
    exact .inr ⟨hempty.1, hempty.2.1, hempty.2.2, hmade⟩

theorem userCopy_ne_nil {name : Str} (h : name ≠ []) : userCopy groupNameMax name ≠ [] := by
  cases name with
  | nil => exact absurd rfl h
  | cons c name => simp [userCopy, groupNameMax]

theorem new_group_ne_nil {args : Str} (h : (newAccountOf args).name ≠ []) :
    (newAccountOf args).group ≠ [] := by
  simp only [newAccountOf] at h ⊢
  split
  · exact userCopy_ne_nil h
  · assumption

structure UsermodWords where
  action : Str
  name : Str
  value : Str

def usermodWords (args : Str) : UsermodWords :=
  let action := userNextToken 16 args
  let name := userNextToken userNameMax action.2
  let value := userNextToken groupNameMax name.2
  ⟨action.1, name.1, value.1⟩

theorem userCommandUsermod_cases :
    userCommandUsermod s args = s ∨
      ∃ i m, userIsRoot s = true ∧ (usermodWords args).name ≠ [] ∧ (usermodWords args).value ≠ [] ∧
        userFind s (usermodWords args).name = some i ∧
        modificationOf (usermodWords args).action = some m ∧
        userCommandUsermod s args = modify s m i (usermodWords args).name (usermodWords args).value := by
  by_cases hroot : userIsRoot s = false
  · exact .inl (if_pos hroot)
  simp only [userCommandUsermod, if_neg hroot, usermodWords]
  split
  · exact .inl rfl
  next hempty =>
    rw [not_or, not_or] at hempty
    split
    next i m hfind hm =>
      exact .inr ⟨i, m, by simpa using hroot, hempty.2.1, hempty.2.2, hfind, hm, rfl⟩
    · exact .inl rfl

end Accounts
