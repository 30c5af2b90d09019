import K64.AccountInvariant

/-! # Commands that keep the invariant

What each command must respect so that roles, primary groups and members go on to agree. -/
namespace Accounts

variable {s s' : UserState}

/-- Another account than the one at `i` has `is_root`. -/
def OtherRoot (s : UserState) (i : ℕ) : Prop :=
  ∃ j a, j ≠ i ∧ s.accounts[j]? = some a ∧ a.isRoot = true

/-- A new account, or new settings of an old one, suit its primary group, and a root is left. -/
structure SuitsNew (s : UserState) (n : NewAccount) : Prop where
  primary : RoleOf n.isRoot n.sudoer n.group true
  root_left : ∀ i, userFind s n.name = some i → n.isRoot = false → OtherRoot s i

/-- A membership of the account at `i` that its roles have, or have not. -/
def SuitsMember (s : UserState) (i : ℕ) (group : Str) (value : Bool) : Prop :=
  ∀ a, s.accounts[i]? = some a → RoleOf a.isRoot a.sudoer group value

/-- A membership that `user_add_to_group` or `user_remove_from_group` changes. -/
def SuitsChange (s : UserState) (name group : Str) (value : Bool) : Prop :=
  ∀ i, userFind s name = some i →
    (value = false → ∀ a, s.accounts[i]? = some a → a.primaryGroup ≠ group) →
    SuitsMember s i group value

/-- New roles of an account suit its primary group, and a root is left. -/
structure SuitsRole (s : UserState) (i : ℕ) (isRoot sudoer : Bool) : Prop where
  primary : ∀ a, s.accounts[i]? = some a → RoleOf isRoot sudoer a.primaryGroup true
  root_left : isRoot = false → OtherRoot s i

def SuitsModification (s : UserState) (m : Modification) (i : ℕ) (name value : Str) : Prop :=
  match m with
  | .role => SuitsRole s i (value == rootName) (value == rootName || value == sudoName)
  | .primary => SuitsMember s i value true
  | .groupadd => SuitsChange s name value true
  | .groupdel => SuitsChange s name value false

/-- The account is refused only for want of room. -/
def HasRoom (s : UserState) (n : NewAccount) : Prop :=
  (groupAddInternal s n.group).1 = true ∧
    ((userFind s n.name).isSome = true ∨ s.accounts.length < userMaxAccounts)

structure GpasswdWords where
  action : Str
  group : Str
  name : Str

def gpasswdWords (args : Str) : GpasswdWords :=
  let action := userNextToken 8 args
  let group := userNextToken groupNameMax action.2
  let name := userNextToken userNameMax group.2
  ⟨action.1, group.1, name.1⟩

/-- What a command that is not refused must respect. -/
def Suits (s : UserState) (c : Command) (args : Str) : Prop :=
  userIsRoot s = true →
  match c with
  | .useradd => (newAccountOf args).name ≠ [] → (newAccountOf args).password ≠ [] →
      HasRoom s (newAccountOf args) → SuitsNew s (newAccountOf args)
  | .usermod => ∀ i m, (usermodWords args).value ≠ [] →
      userFind s (usermodWords args).name = some i →
      modificationOf (usermodWords args).action = some m →
      SuitsModification s m i (usermodWords args).name (usermodWords args).value
  | .gpasswd =>
    ((gpasswdWords args).action = addWord →
      SuitsChange s (gpasswdWords args).name (gpasswdWords args).group true) ∧
    ((gpasswdWords args).action = delWord →
      SuitsChange s (gpasswdWords args).name (gpasswdWords args).group false)
  | _ => True

variable {name : Str}

theorem userFind_some {i : ℕ} (h : userFind s name = some i) :
    ∃ a, s.accounts[i]? = some a ∧ a.name = name := by
  obtain ⟨hlt, hmatch, -⟩ := List.findIdx?_eq_some_iff_getElem.mp h
  exact ⟨_, List.getElem?_eq_getElem hlt, eq_of_beq hmatch⟩

theorem userFind_none (h : userFind s name = none) :
    name ∉ s.accounts.map UserAccount.name := by
  intro hmem
  obtain ⟨a, ha, hname⟩ := List.mem_map.mp hmem
  have := List.findIdx?_eq_none_iff.mp h a ha
  rw [beq_eq_false_iff_ne] at this
  exact this hname

theorem mem_setAccount {i : ℕ} {f : UserAccount → UserAccount} {b : UserAccount}
    (h : b ∈ (s.setAccount i f).accounts) :
    b ∈ s.accounts ∨ ∃ a, s.accounts[i]? = some a ∧ b = f a := by
  obtain ⟨j, hj⟩ := List.mem_iff_getElem?.mp h
  change (s.accounts.modify i f)[j]? = some b at hj
  rw [List.getElem?_modify] at hj
  obtain ⟨a, ha, hb⟩ := Option.map_eq_some_iff.mp hj
  by_cases hij : i = j
  · subst hij
    rw [if_pos rfl] at hb
    exact .inr ⟨a, ha, hb.symm⟩
  · rw [if_neg hij] at hb
    cases hb
    exact .inl (List.mem_of_getElem? ha)

theorem getElem_setAccount (i j : ℕ) (f : UserAccount → UserAccount) :
    (s.setAccount i f).accounts[j]? = (s.accounts[j]?).map (if i = j then f else id) := by
  refine (List.getElem?_modify ..).trans ?_
  split <;> rfl

theorem setAccount_keeps_names (s : UserState) (i : ℕ) (f : UserAccount → UserAccount)
    (h : ∀ a, (f a).name = a.name) :
    (s.setAccount i f).accounts.map UserAccount.name = s.accounts.map UserAccount.name :=
  map_modify_same _ _ h _ _

theorem root_left_setAccount {i : ℕ} {f : UserAccount → UserAccount} (hi : i < s.accounts.length)
     (h : (∀ a, (f a).isRoot = true) ∨ OtherRoot s i) :
    ∃ a ∈ (s.setAccount i f).accounts, a.isRoot = true := by
  rcases h with h | ⟨j, a, hj, ha, hr⟩
  · refine ⟨f s.accounts[i], List.mem_iff_getElem?.mpr ⟨i, ?_⟩, h _⟩
    rw [getElem_setAccount, List.getElem?_eq_getElem hi, if_pos rfl]
    rfl
  · refine ⟨a, List.mem_iff_getElem?.mpr ⟨j, ?_⟩, hr⟩
    rw [getElem_setAccount, ha, if_neg (Ne.symm hj)]
    rfl

/-- Settings of an account that the invariant does not speak of, such as its password. -/
theorem consistent_setAccount (hs : Consistent s) (i : ℕ) (f : UserAccount → UserAccount)
    (hname : ∀ a, (f a).name = a.name) (hroles : ∀ a, (f a).roles = a.roles)
    (hprimary : ∀ a, s.accounts[i]? = some a →
      (f a).primaryGroup ∈ groupNames s ∧ member s (f a).primaryGroup i = true) :
    Consistent (s.setAccount i f) := by
  have hback : ∀ j b, (s.setAccount i f).accounts[j]? = some b →
      ∃ a, s.accounts[j]? = some a ∧ b = (if i = j then f else id) a := by
    intro j b hb
    rw [getElem_setAccount] at hb
    obtain ⟨a, ha, hb⟩ := Option.map_eq_some_iff.mp hb
    exact ⟨a, ha, hb.symm⟩
  have hrole : ∀ a, (f a).isRoot = a.isRoot ∧ (f a).sudoer = a.sudoer := fun a =>
    ⟨congrArg Prod.fst (hroles a), congrArg Prod.snd (hroles a)⟩
  constructor
  · rw [setAccount_keeps_names s i f hname]
    exact hs.account_names
  · exact hs.group_names
  · exact hs.root_group
  · exact hs.sudo_group
  · intro b hb
    rcases mem_setAccount hb with hb | ⟨a, ha, rfl⟩
    · exact hs.primary_exists b hb
    · exact (hprimary a ha).1
  · intro j b hb
    obtain ⟨a, ha, rfl⟩ := hback j b hb
    split
    next hij =>
      subst hij
      exact (hprimary a ha).2
    · exact hs.primary_member j a ha
  · intro j b hb
    obtain ⟨a, ha, rfl⟩ := hback j b hb
    have := hs.root_members j a ha
    split
    · rw [(hrole a).1]
      exact this
    · exact this
  · intro j b hb
    obtain ⟨a, ha, rfl⟩ := hback j b hb
    have := hs.sudo_members j a ha
    split
    · rw [(hrole a).1, (hrole a).2]
      exact this
    · exact this
  · intro n j hj
    change j < (s.accounts.modify i f).length
    rw [List.length_modify]
    exact hs.members_inside n j hj
  · obtain ⟨a, ha, hr⟩ := hs.some_root
    obtain ⟨j, hj⟩ := List.mem_iff_getElem?.mp ha
    refine ⟨(if i = j then f else id) a, List.mem_iff_getElem?.mpr ⟨j, ?_⟩, ?_⟩
    · rw [getElem_setAccount, hj]
      rfl
    · split
      · rw [(hrole a).1, hr]
      · exact hr

/-- The accounts and groups before `user_add_account` brings them up to date. -/
structure Added (s : UserState) (n : NewAccount) (t : UserState) : Prop where
  names : (t.accounts.map UserAccount.name).Nodup
  groups : groupNames t = groupNames (groupAddInternal s n.group).2
  members : ∀ m i, member t m i = member s m i
  longer : s.accounts.length ≤ t.accounts.length
  accounts : ∀ a ∈ t.accounts, a ∈ s.accounts ∨
    a.primaryGroup = n.group ∧ a.isRoot = n.isRoot ∧ a.sudoer = (n.sudoer || n.isRoot)
  root_left : ∃ a ∈ t.accounts, a.isRoot = true

variable {n : NewAccount}

theorem added_account (hs : Consistent s) (hname : ShortName n.name)
    (hgroup : ShortName n.group) (hsuits : SuitsNew s n)
    (hok : (userAddAccount s n.name n.password n.isRoot n.sudoer n.group false).1 = true) :
    Added s n (userAddAccount s n.name n.password n.isRoot n.sudoer n.group false).2 := by
  have hcopy : userCopy groupNameMax (if n.group = [] then n.name else n.group) = n.group := by
    rw [if_neg hgroup.nonempty, hgroup.copy]
  have hframe := groupAddInternal_frame s n.group
  have hadded : primaryAdded s n.group = groupAddInternal s n.group := if_neg hgroup.nonempty
  have hcases := userAddAccount_cases s n.name n.password n.isRoot n.sudoer n.group false
  simp only [hcopy, hadded] at hcases
  rcases hcases with ⟨hfail, -⟩ | ⟨i, -, -, -, -, hfind, hset⟩ | ⟨-, -, -, -, hfind, -, happend⟩
  · rw [hfail] at hok
    cases hok
  · obtain ⟨b, hb, -⟩ := userFind_some hfind
    rw [hset]
    constructor
    · rw [setAccount_keeps_names _ i _ (by exact fun _ => rfl), hframe.accounts]
      exact hs.account_names
    · rfl
    · exact fun m j => member_add s n.group m j
    · change _ ≤ (List.modify _ i _).length
      rw [List.length_modify, hframe.accounts]
    · intro a ha
      rcases mem_setAccount ha with ha | ⟨a, -, rfl⟩
      · exact .inl (hframe.accounts ▸ ha)
      · exact .inr ⟨rfl, rfl, rfl⟩
    · refine root_left_setAccount ?_ ?_
      · rw [hframe.accounts]
        exact (List.getElem?_eq_some_iff.mp hb).1
      · cases hr : n.isRoot with
        | true => exact .inl fun _ => rfl
        | false =>
          obtain ⟨j, c, hj, hc, hroot⟩ := hsuits.root_left i hfind hr
          exact .inr ⟨j, c, hj, hframe.accounts ▸ hc, hroot⟩
  · have hcopyName : userCopy userNameMax n.name = n.name := List.take_of_length_le hname.short
    rw [happend, hcopyName]
    constructor
    · rw [List.map_append]
      refine List.nodup_append.mpr ⟨hs.account_names, List.nodup_singleton _, fun a ha b hb => ?_⟩
      rw [List.mem_singleton.mp hb]
      rintro rfl
      exact userFind_none hfind ha
    · rfl
    · exact fun m j => member_add s n.group m j
    · simp
    · intro a ha
      rcases List.mem_append.mp ha with ha | ha
      · exact .inl ha
      · rw [List.mem_singleton.mp ha]
        exact .inr ⟨rfl, rfl, rfl⟩
    · obtain ⟨a, ha, hr⟩ := hs.some_root
      exact ⟨a, List.mem_append_left _ ha, hr⟩

variable {group : Str}

theorem names_after_add (h : ShortName group)
    (hok : (groupAddInternal s group).1 = true) :
    group ∈ groupNames (groupAddInternal s group).2 ∧
      ∀ n ∈ groupNames s, n ∈ groupNames (groupAddInternal s group).2 := by
  rw [groupNames_add s h hok]
  split
  next hmem => exact ⟨hmem, fun _ hn => hn⟩
  · exact ⟨List.mem_append_right _ (List.mem_singleton_self _),
      fun _ hn => List.mem_append_left _ hn⟩

theorem consistent_addRefreshed (hs : Consistent s) (hf : Formed s)
    (hname : ShortName n.name) (hgroup : ShortName n.group)
    (hsuits : HasRoom s n → SuitsNew s n) : Consistent (addRefreshed s n) := by
  have hadded : primaryAdded s n.group = groupAddInternal s n.group := if_neg hgroup.nonempty
  have hcases := userAddAccount_cases s n.name n.password n.isRoot n.sudoer n.group false
  simp only [hadded] at hcases
  unfold addRefreshed
  simp only
  cases hok : (userAddAccount s n.name n.password n.isRoot n.sudoer n.group false).1 with
  | false =>
    rw [if_neg Bool.false_ne_true]
    rcases hcases with ⟨-, hsame⟩ | ⟨i, hok', -⟩ | ⟨hok', -⟩
    · rcases hsame with hsame | hsame
      · rwa [hsame]
      · rw [hsame]
        exact consistent_add hgroup hs
    · rw [hok] at hok'
      cases hok'
    · rw [hok] at hok'
      cases hok'
  | true =>
    have hroom : (groupAddInternal s n.group).1 = true ∧
        ((userFind s n.name).isSome = true ∨ s.accounts.length < userMaxAccounts) := by
      rcases hcases with ⟨hfail, -⟩ | ⟨i, -, -, -, hg, hfind, -⟩ | ⟨-, -, -, hg, -, hlt, -⟩
      · rw [hok] at hfail
        cases hfail
      · exact ⟨hg, .inl (by rw [hfind]; rfl)⟩
      · exact ⟨hg, .inr hlt⟩
    have hsuit := hsuits hroom
    have ht := added_account hs hname hgroup hsuit hok
    rw [if_pos rfl]
    generalize (userAddAccount s n.name n.password n.isRoot n.sudoer n.group false).2 = t at ht ⊢
    obtain ⟨hnew, hold⟩ := names_after_add hgroup hroom.1
    have hexist : ∀ a ∈ t.accounts, a.primaryGroup ∈ groupNames t := by
      intro a ha
      rw [ht.groups]
      rcases ht.accounts a ha with ha | ⟨hg, -⟩
      · exact hold _ (hs.primary_exists a ha)
      · rwa [hg]
    have hroot : rootName ∈ groupNames t := ht.groups ▸ hold _ hs.root_group
    have hsudo : sudoName ∈ groupNames t := ht.groups ▸ hold _ hs.sudo_group
    have hgiven : ∀ a ∈ t.accounts, a.primaryGroup ≠ [] := by
      intro a ha
      rcases ht.accounts a ha with ha | ⟨hg, -⟩
      · exact (hf.accounts a ha).primary.nonempty
      · rw [hg]
        exact hgroup.nonempty
    refine consistent_refreshed (refreshed ⟨hgiven, hexist⟩ hroot hsudo) ht.names ?_ hroot hsudo
      hexist ?_ ?_ ht.root_left
    · rw [ht.groups]
      exact (consistent_add hgroup hs).group_names
    · intro a ha
      rcases ht.accounts a ha with ha | ⟨hg, hr, hsu⟩
      · exact primary_role hs a ha
      · rw [hg, hr, hsu]
        refine ⟨hsuit.primary.1, fun h => ?_⟩
        have := hsuit.primary.2 h
        revert this
        cases n.isRoot <;> cases n.sudoer <;> simp
    · intro m i hm
      rw [ht.members] at hm
      exact Nat.lt_of_lt_of_le (hs.members_inside m i hm) ht.longer

theorem consistent_addToGroup (hs : Consistent s) (hgroup : ShortName group)
    (hsuits : SuitsChange s name group true) : Consistent (userAddToGroup s name group).2 := by
  have hframe := groupAddInternal_frame s group
  have hadd := consistent_add hgroup hs
  unfold userAddToGroup
  cases hfind : userFind s name with
  | none => exact hs
  | some i =>
    obtain ⟨a, ha, -⟩ := userFind_some hfind
    simp only
    split
    next g _ hg =>
      have := consistent_setMembership true hadd (hframe.accounts ▸ ha)
        (hsuits i hfind nofun a ha) nofun
      rwa [hg] at this
    · exact hadd

theorem consistent_removeFromGroup (hs : Consistent s)
    (hsuits : SuitsChange s name group false) : Consistent (userRemoveFromGroup s name group).2 := by
  unfold userRemoveFromGroup
  split
  next i g hfind hg =>
    obtain ⟨a, ha, -⟩ := userFind_some hfind
    split
    · exact hs
    next hprimary =>
      have hne : a.primaryGroup ≠ group := by
        rintro rfl
        exact hprimary (by rw [ha]; rfl)
      have := consistent_setMembership false hs ha (hsuits i hfind (by
        intro _ b hb
        cases ha.symm.trans hb
        exact hne) a ha) fun _ => hne
      rwa [hg] at this
  · exact hs

theorem setMembership_setAccount (group : Option ℕ) (i j : ℕ) (b : Bool)
    (f : UserAccount → UserAccount) :
    groupSetMembership (s.setAccount j f) group i b =
      (groupSetMembership s group i b).setAccount j f := by
  cases group with
  | none => rfl
  | some g =>
    have hlen : (s.setAccount j f).accounts.length = s.accounts.length := List.length_modify ..
    simp only [groupSetMembership, hlen]
    split <;> rfl

theorem consistent_modify {m : Modification} {i : ℕ} {value : Str} (hs : Consistent s)
    (hvalue : ShortName value) (hi : i < s.accounts.length)
    (hsuits : SuitsModification s m i name value) : Consistent (modify s m i name value) := by
  have ha := List.getElem?_eq_getElem hi
  cases m with
  | groupadd => exact consistent_addToGroup hs hvalue hsuits
  | groupdel => exact consistent_removeFromGroup hs hsuits
  | primary =>
    have hframe := groupAddInternal_frame s value
    have hadd := consistent_add hvalue hs
    simp only [modify]
    cases hok : (groupAddInternal s value).1 with
    | false =>
      rw [if_pos rfl]
      exact hadd
    | true =>
      rw [if_neg (by decide), setMembership_setAccount, hvalue.copy]
      have hset := consistent_setMembership true hadd (by rw [hframe.accounts]; exact ha)
        (hsuits _ ha) nofun
      refine consistent_setAccount hset i _ (fun _ => rfl) (fun _ => rfl) fun _ _ => ⟨?_, ?_⟩
      · rw [groupNames_setMembership]
        exact (names_after_add hvalue hok).1
      · have hi' : i < (groupAddInternal s value).2.accounts.length := by
          rwa [hframe.accounts]
        rw [member_setMembership _ _ _ _ _ _ hi', if_pos ⟨rfl, (names_after_add hvalue hok).1, rfl⟩]
  | role =>
    have hback : ∀ b ∈ (s.setAccount i fun a => { a with
        isRoot := value == rootName, sudoer := value == rootName || value == sudoName }).accounts,
        b.primaryGroup ∈ groupNames s ∧ RoleOf b.isRoot b.sudoer b.primaryGroup true := by
      intro b hb
      rcases mem_setAccount hb with hb | ⟨a, ha, rfl⟩
      · exact ⟨hs.primary_exists b hb, primary_role hs b hb⟩
      · exact ⟨hs.primary_exists a (List.mem_of_getElem? ha), hsuits.primary a ha⟩
    refine consistent_refreshed (synced hs.root_group hs.sudo_group ?_) ?_ hs.group_names hs.root_group
      hs.sudo_group (fun b hb => (hback b hb).1) (fun b hb => (hback b hb).2) ?_ ?_
    · intro j b hb
      rw [getElem_setAccount] at hb
      obtain ⟨a, ha, rfl⟩ := Option.map_eq_some_iff.mp hb
      have := hs.primary_member j a ha
      split <;> exact this
    · rw [setAccount_keeps_names _ i _ (by exact fun _ => rfl)]
      exact hs.account_names
    · intro n j hj
      rw [UserState.setAccount, List.length_modify]
      exact hs.members_inside n j hj
    · refine root_left_setAccount hi ?_
      cases hr : value == rootName with
      | true => exact .inl fun _ => rfl
      | false => exact .inr (hsuits.root_left hr)

theorem new_group_short {args : Str} (h : (newAccountOf args).name ≠ []) :
    ShortName (newAccountOf args).group := by
  simp only [newAccountOf] at h ⊢
  split
  · exact copy_short h
  next hne => exact token_short _ (by decide) hne

theorem usermod_value_short {args : Str} (h : (usermodWords args).value ≠ []) :
    ShortName (usermodWords args).value := by
  simp only [usermodWords] at h ⊢
  exact token_short _ (by decide) h

theorem gpasswd_group_short {args : Str} (h : (gpasswdWords args).group ≠ []) :
    ShortName (gpasswdWords args).group := by
  simp only [gpasswdWords] at h ⊢
  exact token_short _ (by decide) h

theorem userCommandGpasswd_cases (s : UserState) (args : Str) :
    userCommandGpasswd s args = s ∨ userIsRoot s = true ∧ (gpasswdWords args).group ≠ [] ∧
      ((gpasswdWords args).action = addWord ∧ userCommandGpasswd s args =
          (userAddToGroup s (gpasswdWords args).name (gpasswdWords args).group).2 ∨
        (gpasswdWords args).action = delWord ∧ userCommandGpasswd s args =
          (userRemoveFromGroup s (gpasswdWords args).name (gpasswdWords args).group).2) := by
  have hwords : userCommandGpasswd s args =
      if userIsRoot s = false then s
      else if (gpasswdWords args).action = [] ∨ (gpasswdWords args).group = [] ∨
        (gpasswdWords args).name = [] then s
      else if (gpasswdWords args).action = addWord then
        (userAddToGroup s (gpasswdWords args).name (gpasswdWords args).group).2
      else if (gpasswdWords args).action = delWord then
        (userRemoveFromGroup s (gpasswdWords args).name (gpasswdWords args).group).2
      else s := rfl
  rw [hwords]
  generalize gpasswdWords args = words
  split
  · exact .inl rfl
  next hroot =>
    split
    · exact .inl rfl
    next hempty =>
      rw [not_or, not_or] at hempty
      have hroot : userIsRoot s = true := by simpa using hroot
      split
      next hadd => exact .inr ⟨hroot, hempty.2.1, .inl ⟨hadd, rfl⟩⟩
      · split
        next hdel => exact .inr ⟨hroot, hempty.2.1, .inr ⟨hdel, rfl⟩⟩
        · exact .inl rfl

theorem userCommandPasswd_cases (s : UserState) (args : Str) :
    userCommandPasswd s args = s ∨ ∃ i password, userCommandPasswd s args = s.setAccount i fun a =>
      { a with password := userStorePassword userPassMax a.name password false } := by
  unfold userCommandPasswd
  simp only
  split
  · exact .inl rfl
  · split
    · exact .inl rfl
    next i _ =>
      split
      · exact .inl rfl
      · exact .inr ⟨i, _, rfl⟩

/-- Every command that respects the roles keeps the invariant. -/
theorem consistent_command (hs : Consistent s) (hf : Formed s) (c : Command) (args : Str)
    (hsuits : Suits s c args) : Consistent (c.run s args) := by
  have hsame : ∀ {t}, SameDatabase s t → Consistent t := fun h => h.consistent hs
  cases c with
  | print => exact hs
  | login | su =>
    change Consistent (userCommandLoginLike s args)
    unfold userCommandLoginLike
    split
    · exact hs
    · exact hsame ⟨rfl, rfl⟩
  | logout => exact hsame ⟨rfl, rfl⟩
  | sudoMode =>
    change Consistent (userCommandSudo s args)
    unfold userCommandSudo
    split
    · exact hs
    · simp only
      repeat' split
      all_goals exact hsame ⟨rfl, rfl⟩
  | passwd =>
    change Consistent (userCommandPasswd s args)
    rcases userCommandPasswd_cases s args with hsame | ⟨i, password, hset⟩
    · rwa [hsame]
    · rw [hset]
      exact consistent_setAccount hs _ _ (fun _ => rfl) (fun _ => rfl) fun a ha =>
        ⟨hs.primary_exists a (List.mem_of_getElem? ha), hs.primary_member _ a ha⟩
  | useradd =>
    change Consistent (userCommandUseradd s args)
    rcases userCommandUseradd_cases s args with hsame | ⟨hroot, hname, hpassword, hadd⟩
    · rwa [hsame]
    · rw [hadd]
      exact consistent_addRefreshed hs hf (token_short _ (by decide) hname) (new_group_short hname)
        (hsuits hroot hname hpassword)
  | userdel =>
    change Consistent (userCommandUserdel s args)
    unfold userCommandUserdel
    split
    · exact hs
    next d hd =>
      refine consistent_deleteAccount hs (deleted_account hd) fun a ha => ?_
      simp only [deletedIndex] at hd
      split at hd
      · cases hd
      · have hroot := (Option.filter_eq_some_iff.mp hd).2
        rw [ha] at hroot
        simpa using hroot
  | usermod =>
    change Consistent (userCommandUsermod s args)
    rcases userCommandUsermod_cases s args with hsame | ⟨i, m, hroot, -, hvalue, hfind, hm, hmod⟩
    · rwa [hsame]
    · rw [hmod]
      obtain ⟨a, ha, -⟩ := userFind_some hfind
      exact consistent_modify hs (usermod_value_short hvalue)
        (List.getElem?_eq_some_iff.mp ha).1 (hsuits hroot i m hvalue hfind hm)
  | groupadd =>
    change Consistent (userCommandGroupadd s args)
    unfold userCommandGroupadd
    split
    · exact hs
    · by_cases hname : (userNextToken groupNameMax args).1 = []
      · rw [hname]
        exact hs
      · exact consistent_add (token_short _ (by decide) hname) hs
  | groupdel =>
    change Consistent (userCommandGroupdel s args)
    unfold userCommandGroupdel
    split
    · exact hs
    next d hd =>
      refine consistent_deleteGroup hs (deleted_group hd) fun g hg hsudo => ?_
      simp only [deletedGroup] at hd
      split at hd
      · cases hd
      next hname =>
        split at hd
        · cases hd
        · obtain ⟨hlt, hmatch, -⟩ := List.findIdx?_eq_some_iff_getElem.mp hd
          rw [List.getElem?_eq_getElem hlt, Option.some.injEq] at hg
          rw [hg] at hmatch
          exact hname (.inr (.inr (.inr ((eq_of_beq hmatch).symm.trans hsudo))))
  | gpasswd =>
    change Consistent (userCommandGpasswd s args)
    rcases userCommandGpasswd_cases s args with hsame | ⟨hroot, hgroup, hcase⟩
    · rwa [hsame]
    · have hsuits := hsuits hroot
      rcases hcase with ⟨hadd, hrun⟩ | ⟨hdel, hrun⟩
      · rw [hrun]
        exact consistent_addToGroup hs (gpasswd_group_short hgroup) (hsuits.1 hadd)
      · rw [hrun]
        exact consistent_removeFromGroup hs (hsuits.2 hdel)

theorem formed_groups (hf : Formed s) (h : OnlyGroups s s') (hnames : groupNames s' = groupNames s) :
    Formed s' := by
  have hlen : s'.groups.length = s.groups.length := by
    have := congrArg List.length hnames
    rwa [groupNames, groupNames, List.length_map, List.length_map] at this
  exact ⟨⟨h.accounts.symm ▸ hf.fits.accounts, hlen.symm ▸ hf.fits.groups⟩,
    h.accounts.symm ▸ hf.accounts, hnames.symm ▸ hf.groups⟩

theorem formed_add (hf : Formed s) (h : ShortName name) :
    Formed (groupAddInternal s name).2 := by
  have hframe := groupAddInternal_frame s name
  have hfits : (groupAddInternal s name).2.groups.length ≤ groupMax := by
    unfold groupAddInternal
    split
    · exact hf.fits.groups
    · split
      · exact hf.fits.groups
      · split
        · exact hf.fits.groups
        next hroom =>
          rw [List.length_append]
          exact Nat.lt_of_not_ge hroom
  refine ⟨⟨hframe.accounts.symm ▸ hf.fits.accounts, hfits⟩, hframe.accounts.symm ▸ hf.accounts, ?_⟩
  cases hok : (groupAddInternal s name).1 with
  | false =>
    rw [groupNames_add_refused s hok]
    exact hf.groups
  | true =>
    rw [groupNames_add s h hok]
    split
    · exact hf.groups
    · intro n hn
      rcases List.mem_append.mp hn with hn | hn
      · exact hf.groups n hn
      · rwa [List.mem_singleton.mp hn]

theorem formed_setMembership (hf : Formed s) (group : Option ℕ) (i : ℕ) (b : Bool) :
    Formed (groupSetMembership s group i b) :=
  formed_groups hf (groupSetMembership_frame s group i b) (groupNames_setMembership s group i b)

theorem formed_setAccount (hf : Formed s) (i : ℕ) (f : UserAccount → UserAccount)
    (h : ∀ a, a.Formed → (f a).Formed) : Formed (s.setAccount i f) := by
  refine ⟨⟨?_, hf.fits.groups⟩, fun b hb => ?_, hf.groups⟩
  · rw [UserState.setAccount, List.length_modify]
    exact hf.fits.accounts
  · rcases mem_setAccount hb with hb | ⟨a, ha, rfl⟩
    · exact hf.accounts b hb
    · exact h a (hf.accounts a (List.mem_of_getElem? ha))

theorem rootName_short : ShortName rootName := ⟨by decide, by decide⟩

theorem sudoName_short : ShortName sudoName := ⟨by decide, by decide⟩

theorem formed_sync (hf : Formed s) : Formed (userSyncRoleGroups s) := by
  have hset : ∀ {t}, Formed t → ∀ group rule, Formed (setRoleMembers t group rule) :=
    fun ht group rule =>
      formed_groups ht (setRoleMembers_frame _ group rule) (groupNames_setRoleMembers _ group rule)
  exact hset (hset (formed_add (formed_add hf rootName_short) sudoName_short) _ _) _ _

theorem formed_ensure (hf : Formed s) (i : ℕ) : Formed (userEnsurePrimaryGroup s i) := by
  unfold userEnsurePrimaryGroup
  split
  · exact hf
  next a ha =>
    have hprimary := (hf.accounts a (List.mem_of_getElem? ha)).primary
    simp only [if_neg hprimary.nonempty]
    refine formed_setMembership (formed_add (formed_setAccount hf i _ fun b hb => ?_) hprimary) _ _ _
    exact ⟨hb.name, hb.no_blank, hprimary, hb.password, hb.root_sudoer⟩

theorem formed_refresh (hf : Formed s) :
    Formed (userSyncRoleGroups (userEnsurePrimaryGroups s)) := by
  refine formed_sync ?_
  unfold userEnsurePrimaryGroups
  generalize List.range s.accounts.length = l
  induction l generalizing s with
  | nil => exact hf
  | cons i l ih => exact ih (formed_ensure hf i)

theorem store_encoded (name password : Str) :
    Encoded (userStorePassword userPassMax name password false) := hash_encoded name password

theorem formed_addRefreshed (hf : Formed s) (hname : n.name ≠ [])
    (hblank : 32 ∉ userCopy userNameMax n.name) (hgroup : ShortName n.group) :
    Formed (addRefreshed s n) := by
  have hadded : primaryAdded s n.group = groupAddInternal s n.group := if_neg hgroup.nonempty
  have hadd := formed_add hf hgroup
  have hprimary : ShortName (userCopy groupNameMax (if n.group = [] then n.name else n.group)) := by
    rwa [if_neg hgroup.nonempty, hgroup.copy]
  have hsudoer : n.isRoot = true → (n.sudoer || n.isRoot) = true := fun hr => by rw [hr, Bool.or_true]
  have ht : Formed (userAddAccount s n.name n.password n.isRoot n.sudoer n.group false).2 := by
    have hcases := userAddAccount_cases s n.name n.password n.isRoot n.sudoer n.group false
    simp only [hadded] at hcases
    rcases hcases with ⟨-, hsame⟩ | ⟨i, -, -, -, -, -, hset⟩ | ⟨-, -, -, -, -, hroom, happend⟩
    · rcases hsame with hsame | hsame
      · rwa [hsame]
      · rwa [hsame]
    · rw [hset]
      exact formed_setAccount hadd i _ fun a ha =>
        ⟨ha.name, ha.no_blank, hprimary, store_encoded _ _, hsudoer⟩
    · rw [happend]
      refine ⟨⟨?_, hadd.fits.groups⟩, fun a ha => ?_, hadd.groups⟩
      · change (s.accounts ++ _).length ≤ _
        rw [List.length_append]
        exact hroom
      · rcases List.mem_append.mp ha with ha | ha
        · exact hf.accounts a ha
        · rw [List.mem_singleton.mp ha]
          exact ⟨copy_short hname, hblank, hprimary, store_encoded _ _, hsudoer⟩
  unfold addRefreshed
  simp only
  split
  · exact formed_refresh ht
  · exact ht

theorem formed_addToGroup (hf : Formed s) (h : ShortName group) (name : Str) :
    Formed (userAddToGroup s name group).2 := by
  have hadd := formed_add hf h
  unfold userAddToGroup
  split
  · exact hf
  next i _ =>
    simp only
    split
    next g _ _ => exact formed_setMembership hadd (some g) i true
    · exact hadd

theorem formed_removeFromGroup (hf : Formed s) (name group : Str) :
    Formed (userRemoveFromGroup s name group).2 := by
  unfold userRemoveFromGroup
  split
  next i g _ _ =>
    split
    · exact hf
    · exact formed_setMembership hf (some g) i false
  · exact hf

theorem formed_modify (hf : Formed s) (m : Modification) (i : ℕ) (name : Str) {value : Str}
    (h : ShortName value) : Formed (modify s m i name value) := by
  cases m with
  | role =>
    refine formed_sync (formed_setAccount hf i _ fun a ha => ?_)
    exact ⟨ha.name, ha.no_blank, ha.primary, ha.password, fun hr => by simp only at hr; simp [hr]⟩
  | primary =>
    have hadd := formed_add hf h
    simp only [modify]
    split
    · exact hadd
    · refine formed_setMembership (formed_setAccount hadd i _ fun a ha => ?_) _ _ _
      exact ⟨ha.name, ha.no_blank, h.copy.symm ▸ h, ha.password, ha.root_sudoer⟩
  | groupadd => exact formed_addToGroup hf h name
  | groupdel => exact formed_removeFromGroup hf name value

theorem formed_deleteAccount (hf : Formed s) (d : ℕ) : Formed (deleteAccount s d) := by
  refine ⟨⟨(List.length_eraseIdx_le ..).trans hf.fits.accounts, ?_⟩, fun a ha => ?_, ?_⟩
  · rw [deleteAccount, List.length_map]
    exact hf.fits.groups
  · exact hf.accounts a (List.mem_of_mem_eraseIdx ha)
  · rw [groupNames_deleteAccount]
    exact hf.groups

theorem formed_command (hf : Formed s) (c : Command) (args : Str) : Formed (c.run s args) := by
  have hsame : ∀ {t}, SameDatabase s t → Formed t := fun h => h.formed hf
  cases c with
  | print => exact hf
  | login | su =>
    change Formed (userCommandLoginLike s args)
    unfold userCommandLoginLike
    split
    · exact hf
    · exact hsame ⟨rfl, rfl⟩
  | logout => exact hsame ⟨rfl, rfl⟩
  | sudoMode =>
    change Formed (userCommandSudo s args)
    unfold userCommandSudo
    split
    · exact hf
    · simp only
      repeat' split
      all_goals exact hsame ⟨rfl, rfl⟩
  | passwd =>
    change Formed (userCommandPasswd s args)
    rcases userCommandPasswd_cases s args with hsame | ⟨i, password, hset⟩
    · rwa [hsame]
    · rw [hset]
      exact formed_setAccount hf _ _ fun a ha =>
        ⟨ha.name, ha.no_blank, ha.primary, store_encoded _ _, ha.root_sudoer⟩
  | useradd =>
    change Formed (userCommandUseradd s args)
    rcases userCommandUseradd_cases s args with hsame | ⟨-, hname, -, hadd⟩
    · rwa [hsame]
    · rw [hadd]
      exact formed_addRefreshed hf hname
        (fun hm => token_no_blank args userNameMax (List.mem_of_mem_take hm)) (new_group_short hname)
  | userdel =>
    change Formed (userCommandUserdel s args)
    unfold userCommandUserdel
    split
    · exact hf
    · exact formed_deleteAccount hf _
  | usermod =>
    change Formed (userCommandUsermod s args)
    rcases userCommandUsermod_cases s args with hsame | ⟨i, m, -, -, hvalue, -, -, hmod⟩
    · rwa [hsame]
    · rw [hmod]
      exact formed_modify hf m i _ (usermod_value_short hvalue)
  | groupadd =>
    change Formed (userCommandGroupadd s args)
    unfold userCommandGroupadd
    split
    · exact hf
    · by_cases hname : (userNextToken groupNameMax args).1 = []
      · rw [hname]
        exact hf
      · exact formed_add hf (token_short _ (by decide) hname)
  | groupdel =>
    change Formed (userCommandGroupdel s args)
    unfold userCommandGroupdel
    split
    · exact hf
    next d _ =>
      refine ⟨⟨hf.fits.accounts, (List.length_eraseIdx_le ..).trans hf.fits.groups⟩, hf.accounts,
        fun n hn => hf.groups n ?_⟩
      obtain ⟨g, hg, hname⟩ := List.mem_map.mp hn
      exact List.mem_map.mpr ⟨g, List.mem_of_mem_eraseIdx hg, hname⟩
  | gpasswd =>
    change Formed (userCommandGpasswd s args)
    rcases userCommandGpasswd_cases s args with hsame | ⟨-, hgroup, ⟨-, hrun⟩ | ⟨-, hrun⟩⟩
    · rwa [hsame]
    · rw [hrun]
      exact formed_addToGroup hf (gpasswd_group_short hgroup) _
    · rw [hrun]
      exact formed_removeFromGroup hf _ _

end Accounts
