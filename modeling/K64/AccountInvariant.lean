import K64.AccountDeletion
import K64.AccountGroups
import Mathlib.Data.List.InsertIdx
import Mathlib.Data.List.Nodup
import Mathlib.Data.List.TakeWhile

/-! # The invariant of the account database

Roles, primary groups and members agree, and what a change must respect for that to stay so. -/
namespace Accounts

/-- A password as `user_hash_password` makes it. -/
structure Encoded (password : Str) : Prop where
  encoded : userHashIsEncoded password = true
  length : password.length = 20
  no_colon : 58 ∉ password
  no_newline : 10 ∉ password

structure UserAccount.Formed (a : UserAccount) : Prop where
  name : ShortName a.name
  no_blank : 32 ∉ a.name
  primary : ShortName a.primaryGroup
  password : Encoded a.password
  root_sudoer : a.isRoot = true → a.sudoer = true

structure Formed (s : UserState) : Prop where
  fits : Fits s
  accounts : ∀ a ∈ s.accounts, a.Formed
  groups : ∀ name ∈ groupNames s, ShortName name

variable {s s' : UserState}

theorem hexDigit_range (x : UInt64) : hexDigit (x &&& 15) ≠ 58 ∧ hexDigit (x &&& 15) ≠ 10 := by
  have hlt : (x &&& 15).toNat < 16 := by
    rw [UInt64.toNat_and]
    exact Nat.lt_of_le_of_lt Nat.and_le_right (by decide)
  have hall : ∀ k : Fin 16, hexDigit (UInt64.ofNat k.val) ≠ 58 ∧ hexDigit (UInt64.ofNat k.val) ≠ 10 := by
    decide
  have hx : x &&& 15 = UInt64.ofNat (x &&& 15).toNat := (UInt64.ofNat_toNat).symm
  rw [hx]
  exact hall ⟨_, hlt⟩

theorem hash_digits (name password : Str) : ∃ digits, digits.length = 16 ∧
    (∀ c ∈ digits, ∃ x : UInt64, hexDigit (x &&& 15) = c) ∧
    userHashPassword name password userPassMax = hashMark ++ digits := by
  refine ⟨_, ?_, ?_, List.take_of_length_le (by simp [hashMark, userPassMax])⟩
  · simp
  · intro c hc
    obtain ⟨i, -, hi⟩ := List.mem_map.mp hc
    exact ⟨_, hi⟩

theorem hash_encoded (name password : Str) :
    Encoded (userHashPassword name password userPassMax) := by
  obtain ⟨digits, hlen, hdigit, heq⟩ := hash_digits name password
  rw [heq]
  have hchar : ∀ c, (∀ x : UInt64, hexDigit (x &&& 15) ≠ c) → c ∉ hashMark →
      c ∉ hashMark ++ digits := by
    intro c hc hmark hmem
    rcases List.mem_append.mp hmem with h | h
    · exact hmark h
    · obtain ⟨x, hx⟩ := hdigit c h
      exact hc x hx
  exact
    { encoded := List.isPrefixOf_iff_prefix.mpr (List.prefix_append _ _)
      length := by rw [List.length_append, hlen]; rfl
      no_colon := hchar 58 (fun x => (hexDigit_range x).1) (by decide)
      no_newline := hchar 10 (fun x => (hexDigit_range x).2) (by decide) }

theorem token_short (args : Str) {size : ℕ} (h : size ≤ 16)
    (hne : (userNextToken size args).1 ≠ []) : ShortName (userNextToken size args).1 := by
  refine ⟨hne, ?_⟩
  have := List.length_take_le (size - 1) ((userSkipWs args).takeWhile fun c => !isBlank c)
  change (List.take _ _).length ≤ 15
  omega

theorem token_no_blank (args : Str) (size : ℕ) : 32 ∉ (userNextToken size args).1 := by
  intro h
  have hmem := List.mem_of_mem_take h
  have := List.mem_takeWhile_imp hmem
  revert this
  decide

theorem copy_short {name : Str} (h : name ≠ []) : ShortName (userCopy groupNameMax name) :=
  ⟨userCopy_ne_nil h, List.length_take_le _ _⟩

/-- A group that an account of these roles may be a member of, or must be. -/
def RoleOf (isRoot sudoer : Bool) (group : Str) (value : Bool) : Prop :=
  (group = rootName → isRoot = value) ∧ (group = sudoName → (isRoot || sudoer) = value)

structure Consistent (s : UserState) : Prop where
  account_names : (s.accounts.map UserAccount.name).Nodup
  group_names : (groupNames s).Nodup
  root_group : rootName ∈ groupNames s
  sudo_group : sudoName ∈ groupNames s
  primary_exists : ∀ a ∈ s.accounts, a.primaryGroup ∈ groupNames s
  primary_member : ∀ i a, s.accounts[i]? = some a → member s a.primaryGroup i = true
  root_members : ∀ i a, s.accounts[i]? = some a → member s rootName i = a.isRoot
  sudo_members : ∀ i a, s.accounts[i]? = some a → member s sudoName i = (a.isRoot || a.sudoer)
  members_inside : ∀ name i, member s name i = true → i < s.accounts.length
  some_root : ∃ a ∈ s.accounts, a.isRoot = true

structure SameDatabase (s s' : UserState) : Prop where
  accounts : s'.accounts = s.accounts
  groups : s'.groups = s.groups

theorem SameDatabase.consistent (h : SameDatabase s s') (hs : Consistent s) : Consistent s' := by
  obtain ⟨ready, current, active, accounts, groups⟩ := s'
  obtain ⟨ready', current', active', accounts', groups'⟩ := s
  obtain ⟨rfl, rfl⟩ := h
  exact { hs with }

theorem SameDatabase.formed (h : SameDatabase s s') (hs : Formed s) : Formed s' := by
  obtain ⟨ready, current, active, accounts, groups⟩ := s'
  obtain ⟨ready', current', active', accounts', groups'⟩ := s
  obtain ⟨rfl, rfl⟩ := h
  exact ⟨⟨hs.fits.accounts, hs.fits.groups⟩, hs.accounts, hs.groups⟩

theorem consistent_add {name : Str} (h : ShortName name) (hs : Consistent s) :
    Consistent (groupAddInternal s name).2 := by
  cases hok : (groupAddInternal s name).1 with
  | false => rwa [groupNames_add_refused s hok]
  | true =>
    have hnames := groupNames_add s h hok
    have hacc := (groupAddInternal_frame s name).accounts
    have hmem : ∀ n ∈ groupNames s, n ∈ groupNames (groupAddInternal s name).2 := by
      intro n hn
      rw [hnames]
      split
      · exact hn
      · exact List.mem_append_left _ hn
    constructor
    · rw [hacc]
      exact hs.account_names
    · rw [hnames]
      split
      · exact hs.group_names
      next hnew =>
        refine List.nodup_append.mpr ⟨hs.group_names, List.nodup_singleton _, fun n hn m hm => ?_⟩
        rw [List.mem_singleton.mp hm]
        rintro rfl
        exact hnew hn
    · exact hmem _ hs.root_group
    · exact hmem _ hs.sudo_group
    · rw [hacc]
      exact fun a ha => hmem _ (hs.primary_exists a ha)
    · intro i a ha
      rw [hacc] at ha
      rw [member_add]
      exact hs.primary_member i a ha
    · intro i a ha
      rw [hacc] at ha
      rw [member_add]
      exact hs.root_members i a ha
    · intro i a ha
      rw [hacc] at ha
      rw [member_add]
      exact hs.sudo_members i a ha
    · intro n i hi
      rw [member_add] at hi
      rw [hacc]
      exact hs.members_inside n i hi
    · rw [hacc]
      exact hs.some_root

theorem consistent_setMembership {i : ℕ} {a : UserAccount} {group : Str} (value : Bool)
    (hs : Consistent s) (ha : s.accounts[i]? = some a)
    (hrole : RoleOf a.isRoot a.sudoer group value)
    (hprimary : value = false → a.primaryGroup ≠ group) :
    Consistent (groupSetMembership s (groupFind s group) i value) := by
  have hi := (List.getElem?_eq_some_iff.mp ha).1
  have hframe := groupSetMembership_frame s (groupFind s group) i value
  have hnames := groupNames_setMembership s (groupFind s group) i value
  have hmember := fun n j => member_setMembership s group n i j value hi
  have hacc := hframe.accounts
  constructor
  · rw [hacc]
    exact hs.account_names
  · rw [hnames]
    exact hs.group_names
  · rw [hnames]
    exact hs.root_group
  · rw [hnames]
    exact hs.sudo_group
  · rw [hacc, hnames]
    exact hs.primary_exists
  · intro j b hb
    rw [hacc] at hb
    rw [hmember]
    split
    next h =>
      obtain ⟨hgroup, -, rfl⟩ := h
      cases ha.symm.trans hb
      by_contra hv
      exact hprimary (by simpa using hv) hgroup
    · exact hs.primary_member j b hb
  · intro j b hb
    rw [hacc] at hb
    rw [hmember]
    split
    next h =>
      obtain ⟨hgroup, -, rfl⟩ := h
      cases ha.symm.trans hb
      exact (hrole.1 hgroup.symm).symm
    · exact hs.root_members j b hb
  · intro j b hb
    rw [hacc] at hb
    rw [hmember]
    split
    next h =>
      obtain ⟨hgroup, -, rfl⟩ := h
      cases ha.symm.trans hb
      exact (hrole.2 hgroup.symm).symm
    · exact hs.sudo_members j b hb
  · intro n j hj
    rw [hmember] at hj
    rw [hacc]
    split at hj
    next h => exact h.2.2 ▸ hi
    · exact hs.members_inside n j hj
  · rw [hacc]
    exact hs.some_root

theorem modify_same {α : Type} (l : List α) (i : ℕ) (f : α → α)
    (h : ∀ x, l[i]? = some x → f x = x) : l.modify i f = l := by
  refine List.ext_getElem? fun j => ?_
  rw [List.getElem?_modify]
  by_cases hij : i = j
  · subst hij
    cases hx : l[i]? with
    | none => rfl
    | some x => simp [h x hx]
  · simp [hij]

theorem setAccount_same (i : ℕ) (f : UserAccount → UserAccount)
    (h : ∀ a, s.accounts[i]? = some a → f a = a) : s.setAccount i f = s := by
  rw [UserState.setAccount, modify_same _ _ _ h]

theorem add_existing {name : Str} (h : name ≠ []) (hmem : name ∈ groupNames s) :
    groupAddInternal s name = (true, s) := by
  rw [groupAddInternal, if_neg h, if_pos ((groupFind_isSome s name).mpr hmem)]

structure HasPrimaries (s : UserState) : Prop where
  given : ∀ a ∈ s.accounts, a.primaryGroup ≠ []
  exist : ∀ a ∈ s.accounts, a.primaryGroup ∈ groupNames s

theorem ensure_primary {i : ℕ} {a : UserAccount} (h : HasPrimaries s) (ha : s.accounts[i]? = some a) :
    userEnsurePrimaryGroup s i = groupSetMembership s (groupFind s a.primaryGroup) i true := by
  have hmem := List.mem_of_getElem? ha
  unfold userEnsurePrimaryGroup
  rw [ha]
  simp only [if_neg (h.given a hmem)]
  have hset : s.setAccount i (fun b => { b with primaryGroup := a.primaryGroup }) = s := by
    refine setAccount_same i _ fun b hb => ?_
    cases ha.symm.trans hb
    rfl
  rw [hset, add_existing (h.given a hmem) (h.exist a hmem)]

theorem ensure_primaries (l : List ℕ) (hl : ∀ i ∈ l, i < s.accounts.length) (h : HasPrimaries s) :
    OnlyGroups s (l.foldl userEnsurePrimaryGroup s) ∧
    groupNames (l.foldl userEnsurePrimaryGroup s) = groupNames s ∧
    ∀ n j, member (l.foldl userEnsurePrimaryGroup s) n j = true ↔ member s n j = true ∨
      j ∈ l ∧ (s.accounts[j]?).map UserAccount.primaryGroup = some n := by
  induction l generalizing s with
  | nil =>
    refine ⟨.refl s, rfl, fun n j => ?_⟩
    rw [List.foldl_nil]
    simp
  | cons i l ih =>
    have hi := hl i (List.mem_cons_self ..)
    have ha := List.getElem?_eq_getElem hi
    have hstep := ensure_primary h ha
    have hframe : OnlyGroups s (userEnsurePrimaryGroup s i) := by
      rw [hstep]
      exact groupSetMembership_frame s _ _ _
    have hnames : groupNames (userEnsurePrimaryGroup s i) = groupNames s := by
      rw [hstep]
      exact groupNames_setMembership s _ _ _
    have hnext : HasPrimaries (userEnsurePrimaryGroup s i) :=
      ⟨by rw [hframe.accounts]; exact h.given, by rw [hframe.accounts, hnames]; exact h.exist⟩
    obtain ⟨hframe', hnames', hmember'⟩ :=
      ih (fun j hj => by rw [hframe.accounts]; exact hl j (List.mem_cons_of_mem _ hj)) hnext
    refine ⟨hframe.trans hframe', hnames'.trans hnames, fun n j => ?_⟩
    rw [List.foldl_cons, hmember', hframe.accounts, hstep, member_setMembership s _ _ _ _ _ hi]
    have hexists := h.exist _ (List.getElem_mem hi)
    constructor
    · rintro (hm | ⟨hj, hn⟩)
      · split at hm
        next hc =>
          obtain ⟨rfl, -, rfl⟩ := hc
          exact .inr ⟨List.mem_cons_self .., by rw [ha]; rfl⟩
        · exact .inl hm
      · exact .inr ⟨List.mem_cons_of_mem _ hj, hn⟩
    · rintro (hm | ⟨hj, hn⟩)
      · refine .inl ?_
        split
        · rfl
        · exact hm
      · rcases List.mem_cons.mp hj with rfl | hj
        · refine .inl ?_
          rw [ha] at hn
          rw [if_pos ⟨(Option.some.inj hn).symm, hexists, rfl⟩]
        · exact .inr ⟨hj, hn⟩

/-- The groups after `user_ensure_primary_groups` and `user_sync_role_groups`. -/
structure Refreshed (s s' : UserState) : Prop where
  frame : OnlyGroups s s'
  names : groupNames s' = groupNames s
  sudo_members : ∀ i a, s.accounts[i]? = some a → member s' sudoName i = (a.sudoer || a.isRoot)
  root_members : ∀ i a, s.accounts[i]? = some a → member s' rootName i = a.isRoot
  others : ∀ n i, n ≠ rootName → n ≠ sudoName → (member s' n i = true ↔ member s n i = true ∨
    (s.accounts[i]?).map UserAccount.primaryGroup = some n)
  outside : ∀ n i, s.accounts[i]? = none → member s' n i = member s n i

theorem sync_roles (hroot : rootName ∈ groupNames s) (hsudo : sudoName ∈ groupNames s) :
    userSyncRoleGroups s = setRoleMembers (setRoleMembers s rootName UserAccount.isRoot) sudoName
      fun a => a.sudoer || a.isRoot := by
  unfold userSyncRoleGroups
  simp only [add_existing (by decide : rootName ≠ []) hroot,
    add_existing (by decide : sudoName ≠ []) hsudo]

theorem synced (hroot : rootName ∈ groupNames s) (hsudo : sudoName ∈ groupNames s)
    (hprimary : ∀ i a, s.accounts[i]? = some a → member s a.primaryGroup i = true) :
    Refreshed s (userSyncRoleGroups s) := by
  have hsudo' : sudoName ∈ groupNames (setRoleMembers s rootName UserAccount.isRoot) := by
    rwa [groupNames_setRoleMembers]
  have hacc := (setRoleMembers_frame s rootName UserAccount.isRoot).accounts
  rw [sync_roles hroot hsudo]
  constructor
  · exact (setRoleMembers_frame _ _ _).trans (setRoleMembers_frame _ _ _)
  · rw [groupNames_setRoleMembers, groupNames_setRoleMembers]
  · intro i a ha
    rw [member_setRoleMembers _ _ _ _ _ hsudo', if_pos rfl, hacc, ha]
    rfl
  · intro i a ha
    rw [member_setRoleMembers _ _ _ _ _ hsudo', if_neg (by decide),
      member_setRoleMembers _ _ _ _ _ hroot, if_pos rfl, ha]
    rfl
  · intro n i hnr hns
    rw [member_setRoleMembers _ _ _ _ _ hsudo', if_neg hns, member_setRoleMembers _ _ _ _ _ hroot,
      if_neg hnr]
    refine ⟨.inl, fun h => h.elim id fun h => ?_⟩
    obtain ⟨a, ha, rfl⟩ := Option.map_eq_some_iff.mp h
    exact hprimary i a ha
  · intro n i hi
    rw [member_setRoleMembers _ _ _ _ _ hsudo', hacc, hi, member_setRoleMembers _ _ _ _ _ hroot, hi]
    simp

theorem refreshed (h : HasPrimaries s) (hroot : rootName ∈ groupNames s)
    (hsudo : sudoName ∈ groupNames s) :
    Refreshed s (userSyncRoleGroups (userEnsurePrimaryGroups s)) := by
  obtain ⟨hframe, hnames, hmember⟩ := ensure_primaries (s := s) (List.range s.accounts.length)
    (fun i hi => List.mem_range.mp hi) h
  change OnlyGroups s (userEnsurePrimaryGroups s) at hframe
  change groupNames (userEnsurePrimaryGroups s) = groupNames s at hnames
  change ∀ n j, member (userEnsurePrimaryGroups s) n j = true ↔ _ at hmember
  have hin : ∀ n i, (s.accounts[i]?).map UserAccount.primaryGroup = some n →
      i ∈ List.range s.accounts.length := by
    intro n i hn
    obtain ⟨a, ha, -⟩ := Option.map_eq_some_iff.mp hn
    exact List.mem_range.mpr (List.getElem?_eq_some_iff.mp ha).1
  have hsync := synced (s := userEnsurePrimaryGroups s) (hnames ▸ hroot) (hnames ▸ hsudo) (by
    intro i a ha
    rw [hframe.accounts] at ha
    have hn : (s.accounts[i]?).map UserAccount.primaryGroup = some a.primaryGroup := by
      rw [ha]
      rfl
    exact (hmember _ i).mpr (.inr ⟨hin _ i hn, hn⟩))
  constructor
  · exact hframe.trans hsync.frame
  · exact hsync.names.trans hnames
  · exact fun i a ha => hsync.sudo_members i a (hframe.accounts ▸ ha)
  · exact fun i a ha => hsync.root_members i a (hframe.accounts ▸ ha)
  · intro n i hnr hns
    rw [hsync.others n i hnr hns, hmember, hframe.accounts]
    constructor
    · rintro ((hm | hp) | hp)
      · exact .inl hm
      · exact .inr hp.2
      · exact .inr hp
    · rintro (hm | hp)
      · exact .inl (.inl hm)
      · exact .inr hp
  · intro n i hi
    rw [hsync.outside n i (by rwa [hframe.accounts]), Bool.eq_iff_iff, hmember, hi]
    simp

theorem consistent_refreshed (h : Refreshed s s') (hnames : (s.accounts.map UserAccount.name).Nodup)
    (hgroups : (groupNames s).Nodup) (hroot : rootName ∈ groupNames s)
    (hsudo : sudoName ∈ groupNames s) (hexist : ∀ a ∈ s.accounts, a.primaryGroup ∈ groupNames s)
    (hrole : ∀ a ∈ s.accounts, RoleOf a.isRoot a.sudoer a.primaryGroup true)
    (hinside : ∀ n i, member s n i = true → i < s.accounts.length)
    (hone : ∃ a ∈ s.accounts, a.isRoot = true) : Consistent s' := by
  have hacc := h.frame.accounts
  constructor
  · rwa [hacc]
  · rwa [h.names]
  · rwa [h.names]
  · rwa [h.names]
  · rwa [hacc, h.names]
  · intro i a ha
    rw [hacc] at ha
    have hr := hrole a (List.mem_of_getElem? ha)
    by_cases hpr : a.primaryGroup = rootName
    · rw [hpr, h.root_members i a ha]
      exact hr.1 hpr
    by_cases hps : a.primaryGroup = sudoName
    · rw [hps, h.sudo_members i a ha, Bool.or_comm]
      exact hr.2 hps
    · exact (h.others _ i hpr hps).mpr (.inr (by rw [ha]; rfl))
  · intro i a ha
    exact h.root_members i a (hacc ▸ ha)
  · intro i a ha
    rw [Bool.or_comm]
    exact h.sudo_members i a (hacc ▸ ha)
  · intro n i hi
    rw [hacc]
    by_contra hge
    have hnone : s.accounts[i]? = none := List.getElem?_eq_none (by omega)
    rw [h.outside n i hnone] at hi
    exact hge (hinside n i hi)
  · rwa [hacc]

theorem primary_role (hs : Consistent s) : ∀ a ∈ s.accounts,
    RoleOf a.isRoot a.sudoer a.primaryGroup true := by
  intro a ha
  obtain ⟨i, hi⟩ := List.mem_iff_getElem?.mp ha
  have hmember := hs.primary_member i a hi
  constructor
  · intro hr
    rw [hr, hs.root_members i a hi] at hmember
    exact hmember
  · intro hsu
    rw [hsu, hs.sudo_members i a hi] at hmember
    exact hmember

theorem groupNames_deleteAccount (d : ℕ) : groupNames (deleteAccount s d) = groupNames s := by
  change (s.groups.map _).map _ = _
  rw [List.map_map]
  rfl

theorem member_deleteAccount (d : ℕ) (n : Str) (j : ℕ) :
    member (deleteAccount s d) n j =
      if j < d then member s n j
      else if j < s.accounts.length - 1 then member s n (j + 1)
      else if j = s.accounts.length - 1 then false else member s n j := by
  have hfind : (deleteAccount s d).groups.find? (fun g => g.name == n) =
      (s.groups.find? fun g => g.name == n).map
        (UserGroup.dropMember d (s.accounts.length - 1)) := by
    change (s.groups.map _).find? _ = _
    rw [List.find?_map]
    rfl
  rw [member, hfind]
  unfold member
  cases s.groups.find? fun g => g.name == n with
  | some g => rfl
  | none => simp

theorem consistent_deleteAccount {d : ℕ} (hs : Consistent s) (hd : d < s.accounts.length)
    (hroot : ∀ a, s.accounts[d]? = some a → a.isRoot = false) : Consistent (deleteAccount s d) := by
  have hlen : (deleteAccount s d).accounts.length = s.accounts.length - 1 :=
    List.length_eraseIdx_of_lt hd
  have hmoved : ∀ j a, (deleteAccount s d).accounts[j]? = some a →
      ∃ i, s.accounts[i]? = some a ∧ ∀ n, member (deleteAccount s d) n j = member s n i := by
    intro j a ha
    have hj : j < s.accounts.length - 1 := hlen ▸ (List.getElem?_eq_some_iff.mp ha).1
    change (s.accounts.eraseIdx d)[j]? = some a at ha
    by_cases hjd : j < d
    · rw [List.getElem?_eraseIdx_of_lt hjd] at ha
      exact ⟨j, ha, fun n => by rw [member_deleteAccount, if_pos hjd]⟩
    · rw [List.getElem?_eraseIdx_of_ge (by omega)] at ha
      exact ⟨j + 1, ha, fun n => by rw [member_deleteAccount, if_neg hjd, if_pos hj]⟩
  have hkept : ∀ a ∈ (deleteAccount s d).accounts, a ∈ s.accounts := fun a ha =>
    List.mem_of_mem_eraseIdx ha
  constructor
  · change ((s.accounts.eraseIdx d).map UserAccount.name).Nodup
    rw [← List.eraseIdx_map]
    exact hs.account_names.eraseIdx d
  · rw [groupNames_deleteAccount]
    exact hs.group_names
  · rw [groupNames_deleteAccount]
    exact hs.root_group
  · rw [groupNames_deleteAccount]
    exact hs.sudo_group
  · intro a ha
    rw [groupNames_deleteAccount]
    exact hs.primary_exists a (hkept a ha)
  · intro j a ha
    obtain ⟨i, hi, hm⟩ := hmoved j a ha
    rw [hm]
    exact hs.primary_member i a hi
  · intro j a ha
    obtain ⟨i, hi, hm⟩ := hmoved j a ha
    rw [hm]
    exact hs.root_members i a hi
  · intro j a ha
    obtain ⟨i, hi, hm⟩ := hmoved j a ha
    rw [hm]
    exact hs.sudo_members i a hi
  · intro n j hj
    rw [hlen]
    rw [member_deleteAccount] at hj
    split at hj
    · omega
    · split at hj
      · assumption
      · split at hj
        · cases hj
        · have := hs.members_inside n j hj
          omega
  · obtain ⟨a, ha, hr⟩ := hs.some_root
    obtain ⟨i, hi⟩ := List.mem_iff_getElem?.mp ha
    refine ⟨a, List.mem_eraseIdx_iff_getElem?.mpr ⟨i, ?_, hi⟩, hr⟩
    rintro rfl
    rw [hroot a hi] at hr
    cases hr

theorem find_eraseIdx {α : Type} (p : α → Bool) (l : List α) (d : ℕ)
    (h : ∀ x, l[d]? = some x → p x = false) : (l.eraseIdx d).find? p = l.find? p := by
  induction l generalizing d with
  | nil => rfl
  | cons x l ih =>
    cases d with
    | zero => rw [List.eraseIdx_cons_zero, List.find?_cons, h x rfl]
    | succ d => rw [List.eraseIdx_cons_succ, List.find?_cons, List.find?_cons, ih d h]

theorem consistent_deleteGroup {d : ℕ} (hs : Consistent s) (hd : Deletable s d)
    (hsudo : ∀ g, s.groups[d]? = some g → g.name ≠ sudoName) : Consistent (deleteGroup s d) := by
  have hnames : groupNames (deleteGroup s d) = (groupNames s).eraseIdx d := by
    rw [groupNames, deleteGroup, ← List.eraseIdx_map]
    rfl
  have hkept : ∀ n ∈ groupNames s, (∀ g, s.groups[d]? = some g → g.name ≠ n) →
      n ∈ groupNames (deleteGroup s d) := by
    intro n hn hne
    obtain ⟨i, hi⟩ := List.mem_iff_getElem?.mp hn
    rw [hnames]
    refine List.mem_eraseIdx_iff_getElem?.mpr ⟨i, ?_, hi⟩
    rintro rfl
    rw [groupNames, List.getElem?_map] at hi
    obtain ⟨g, hg, hname⟩ := Option.map_eq_some_iff.mp hi
    exact hne g hg hname
  have hmember : ∀ n i, (∀ g, s.groups[d]? = some g → g.name ≠ n) →
      member (deleteGroup s d) n i = member s n i := by
    intro n i hne
    rw [member, member, deleteGroup, find_eraseIdx]
    exact fun g hg => beq_eq_false_iff_ne.mpr (hne g hg)
  constructor
  · exact hs.account_names
  · rw [hnames]
    exact hs.group_names.eraseIdx d
  · exact hkept _ hs.root_group hd.not_root
  · exact hkept _ hs.sudo_group hsudo
  · exact fun a ha => hkept _ (hs.primary_exists a ha) (hd.not_primary a ha)
  · intro i a ha
    rw [hmember _ _ (hd.not_primary a (List.mem_of_getElem? ha))]
    exact hs.primary_member i a ha
  · intro i a ha
    rw [hmember _ _ hd.not_root]
    exact hs.root_members i a ha
  · intro i a ha
    rw [hmember _ _ hsudo]
    exact hs.sudo_members i a ha
  · intro n i hi
    by_cases hn : ∀ g, s.groups[d]? = some g → g.name ≠ n
    · exact hs.members_inside n i (hmember n i hn ▸ hi)
    · -- the deleted name is gone, because the names are distinct
      simp only [not_forall, not_not] at hn
      obtain ⟨g, hg, rfl⟩ := hn
      have hnot : g.name ∉ groupNames (deleteGroup s d) := by
        rw [hnames]
        intro hmem
        obtain ⟨j, hjd, hj⟩ := List.mem_eraseIdx_iff_getElem?.mp hmem
        have hdn : (groupNames s)[d]? = some g.name := by
          rw [groupNames, List.getElem?_map, hg]
          rfl
        obtain ⟨hlt, -⟩ := List.getElem?_eq_some_iff.mp hj
        exact hjd ((List.getElem?_inj hlt hs.group_names).mp (hj.trans hdn.symm))
      rw [member_of_not_mem _ hnot] at hi
      cases hi
  · exact hs.some_root

end Accounts
