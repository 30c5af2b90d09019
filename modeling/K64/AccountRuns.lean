import K64.AccountAccess
import K64.AccountCommands
import K64.AccountFiles

/-! # Runs with restarts

The states that commands and restarts lead to from the seeded accounts, the invariant of the database
over such runs, and what a restart keeps. -/
namespace Accounts

inductive Change where
  | command (c : Command) (args : Str)
  | beginSudoScope
  | endSudoScope
  | restart
  deriving DecidableEq

def Change.apply (s : UserState) : Change → UserState
  | .command c args => c.run s args
  | .beginSudoScope => userBeginSudoScope s
  | .endSudoScope => userEndSudoScope s
  | .restart => Accounts.restart s

def seeded : UserState := userServiceStart bootState none

inductive Grown (allowed : UserState → Change → Prop) : UserState → Prop
  | seeded : Grown allowed seeded
  | step {s} (c : Change) : Grown allowed s → allowed s c → Grown allowed (c.apply s)

/-- What a change must respect for the invariant to stay. -/
def Change.Suits (s : UserState) : Change → Prop
  | .command c args => Accounts.Suits s c args
  | .restart => Restorable s
  | _ => True

/-- Any commands, and restarts of states that the files can hold. -/
def FilesHold (s : UserState) (c : Change) : Prop :=
  c = .restart → Agreeing s ∧ Restorable s

structure DatabaseInvariant (s : UserState) : Prop where
  account_names : (s.accounts.map UserAccount.name).Nodup
  group_names : (groupNames s).Nodup
  primary_member : ∀ i a, s.accounts[i]? = some a →
    groupIsMember s (groupFind s a.primaryGroup) i = true
  root_members : ∀ i a, s.accounts[i]? = some a →
    groupIsMember s (groupFind s rootName) i = a.isRoot
  sudo_members : ∀ i a, s.accounts[i]? = some a →
    groupIsMember s (groupFind s sudoName) i = (a.isRoot || a.sudoer)
  members_inside : ∀ g ∈ s.groups, ∀ i, g.members i = true → i < s.accounts.length
  some_root : ∃ a ∈ s.accounts, a.isRoot = true

/-- A start that finds the accounts, the memberships and the numeric ids that there were. -/
structure Kept (s s' : UserState) : Prop where
  accounts : s'.accounts = s.accounts
  groups : ∀ n, n ∈ groupNames s' ↔ n ∈ groupNames s
  members : ∀ n i, groupIsMember s' (groupFind s' n) i = groupIsMember s (groupFind s n) i
  uids : ∀ n, userNameToUid s' n = userNameToUid s n
  gids : ∀ n, userGroupToGid s' n = userGroupToGid s n

variable {s : UserState}

def seededAccounts : UserState :=
  let s := userResetState bootState
  let s := (groupAddInternal s rootName).2
  let s := (groupAddInternal s sudoName).2
  let s := (userAddAccount s rootName rootName true true rootName false).2
  (userAddAccount s guestName guestName false true guestName false).2

theorem seeded_groups : groupNames seededAccounts = [rootName, sudoName, guestName] := by
  decide +kernel

theorem seeded_accounts : seededAccounts.accounts =
    [⟨rootName, userStorePassword userPassMax rootName rootName false, rootName, true, true⟩,
      ⟨guestName, userStorePassword userPassMax guestName guestName false, guestName, false, true⟩] := by
  decide +kernel

theorem seeded_members : seededAccounts.groups =
    [⟨rootName, fun _ => false⟩, ⟨sudoName, fun _ => false⟩, ⟨guestName, fun _ => false⟩] := rfl

theorem seeded_refreshed :
    SameDatabase (userSyncRoleGroups (userEnsurePrimaryGroups seededAccounts)) seeded := ⟨rfl, rfl⟩

theorem seeded_formed : Formed seeded := by
  refine seeded_refreshed.formed (formed_refresh ⟨⟨?_, ?_⟩, ?_, ?_⟩)
  · rw [seeded_accounts]
    decide
  · rw [seeded_members]
    decide
  · rw [seeded_accounts]
    intro a ha
    simp only [List.mem_cons, List.not_mem_nil, or_false] at ha
    rcases ha with rfl | rfl
    · exact ⟨rootName_short, by decide, rootName_short, store_encoded _ _, fun _ => rfl⟩
    · exact ⟨⟨by decide, by decide⟩, by decide, ⟨by decide, by decide⟩, store_encoded _ _, fun _ => rfl⟩
  · rw [seeded_groups]
    intro n hn
    simp only [List.mem_cons, List.not_mem_nil, or_false] at hn
    rcases hn with rfl | rfl | rfl
    · exact rootName_short
    · exact sudoName_short
    · exact ⟨by decide, by decide⟩

theorem seeded_consistent : Consistent seeded := by
  have hroot : rootName ∈ groupNames seededAccounts := by
    rw [seeded_groups]
    exact List.mem_cons_self ..
  have hsudo : sudoName ∈ groupNames seededAccounts := by
    rw [seeded_groups]
    decide
  have hexist : ∀ a ∈ seededAccounts.accounts, a.primaryGroup ∈ groupNames seededAccounts := by
    rw [seeded_accounts, seeded_groups]
    simp
  have hnone : ∀ n i, member seededAccounts n i = false := by
    intro n i
    simp only [member, seeded_members, List.find?_cons, List.find?_nil]
    repeat' split
    all_goals rfl
  refine seeded_refreshed.consistent (consistent_refreshed
    (refreshed ⟨?_, hexist⟩ hroot hsudo) ?_ ?_ hroot hsudo hexist ?_ ?_ ?_)
  · rw [seeded_accounts]
    simp [rootName, guestName]
  · rw [seeded_accounts]
    decide
  · rw [seeded_groups]
    decide
  · rw [seeded_accounts]
    simp [RoleOf, rootName, sudoName, guestName]
  · intro n i hm
    rw [hnone] at hm
    cases hm
  · rw [seeded_accounts]
    exact ⟨_, List.mem_cons_self .., rfl⟩

theorem scope_same (c : Change) (h : c = .beginSudoScope ∨ c = .endSudoScope) :
    SameDatabase s (c.apply s) := by
  rcases h with rfl | rfl
  · simp only [Change.apply, userBeginSudoScope]
    split
    · exact ⟨rfl, rfl⟩
    · split <;> exact ⟨rfl, rfl⟩
  · simp only [Change.apply, userEndSudoScope]
    split
    · exact ⟨rfl, rfl⟩
    · split <;> exact ⟨rfl, rfl⟩

theorem formed_change (hf : Formed s) (c : Change) (h : FilesHold s c) : Formed (c.apply s) := by
  cases c with
  | command c args => exact formed_command hf c args
  | beginSudoScope => exact (scope_same .beginSudoScope (.inl rfl)).formed hf
  | endSudoScope => exact (scope_same .endSudoScope (.inr rfl)).formed hf
  | restart =>
    obtain ⟨ha, hr⟩ := h rfl
    exact (restored hf hr ha).formed ha hf

theorem consistent_change (hs : Consistent s) (hf : Formed s) (c : Change) (h : c.Suits s) :
    Consistent (c.apply s) := by
  cases c with
  | command c args => exact consistent_command hs hf c args h
  | beginSudoScope => exact (scope_same .beginSudoScope (.inl rfl)).consistent hs
  | endSudoScope => exact (scope_same .endSudoScope (.inr rfl)).consistent hs
  | restart => exact (restored hf h hs.agreeing).consistent hs

theorem formed_run (h : Grown FilesHold s) : Formed s := by
  induction h with
  | seeded => exact seeded_formed
  | step c _ hallowed ih => exact formed_change ih c hallowed

theorem consistent_run (h : Grown (fun s c => c.Suits s) s) : Consistent s ∧ Formed s := by
  induction h with
  | seeded => exact ⟨seeded_consistent, seeded_formed⟩
  | @step s c _ hallowed ih =>
    refine ⟨consistent_change ih.1 ih.2 c hallowed, formed_change ih.2 c ?_⟩
    rintro rfl
    exact ⟨ih.1.agreeing, hallowed⟩

theorem Consistent.invariant (h : Consistent s) : DatabaseInvariant s := by
  have hmember : ∀ n i a, s.accounts[i]? = some a →
      groupIsMember s (groupFind s n) i = member s n i := by
    intro n i a ha
    rw [groupIsMember_member, decide_eq_true (List.getElem?_eq_some_iff.mp ha).1, Bool.true_and]
  constructor
  · exact h.account_names
  · exact h.group_names
  · exact fun i a ha => (hmember _ i a ha).trans (h.primary_member i a ha)
  · exact fun i a ha => (hmember _ i a ha).trans (h.root_members i a ha)
  · exact fun i a ha => (hmember _ i a ha).trans (h.sudo_members i a ha)
  · intro g hg i hi
    exact h.members_inside g.name i ((member_iff h.group_names _ i).mpr ⟨g, hg, rfl, hi⟩)
  · exact h.some_root

/-- The invariant holds in every state of a run whose changes respect it. -/
theorem database_invariant_of_run (h : Grown (fun s c => c.Suits s) s) : DatabaseInvariant s :=
  (consistent_run h).1.invariant

/-- "root root". -/
def rootLogin : Str := rootName ++ 32 :: rootName

theorem database_invariant_after_restart :
    DatabaseInvariant (Change.apply (Change.apply seeded (.command .login rootLogin)) .restart) := by
  refine database_invariant_of_run
    (.step .restart (.step (.command .login rootLogin) .seeded fun _ => trivial) ?_)
  constructor <;> decide +kernel

/-- "add root guest". -/
def guestToRoot : Str := addWord ++ 32 :: rootName ++ 32 :: guestName

/-- `gpasswd` makes `guest` a member of `root` and leaves its role as it is. -/
theorem member_of_root_without_role :
    ¬ ∀ s, Grown (fun _ _ => True) s → DatabaseInvariant s := by
  intro h
  have hinv := h _ (.step (.command .gpasswd guestToRoot)
    (.step (.command .login rootLogin) .seeded trivial) trivial)
  generalize hs : Change.apply (Change.apply seeded (.command .login rootLogin))
    (.command .gpasswd guestToRoot) = s at hinv
  have hrole : (s.accounts[1]?).map UserAccount.isRoot = some false := by
    rw [← hs]
    decide +kernel
  have hmember : groupIsMember s (groupFind s rootName) 1 = true := by
    rw [← hs]
    decide +kernel
  obtain ⟨a, ha, hr⟩ := Option.map_eq_some_iff.mp hrole
  rw [hinv.root_members 1 a ha, hr] at hmember
  cases hmember

theorem groupFind_names (s : UserState) (n : Str) :
    groupFind s n = (groupNames s).findIdx? (· == n) := by
  rw [groupNames, List.findIdx?_map]
  rfl

theorem userGroupToGid_names (s : UserState) (n : Str) : userGroupToGid s n =
    ((groupNames s).findIdx? (· == n)).map fun g => if n = rootName then 0 else 1000 + g.toUInt32 := by
  rw [userGroupToGid, ← groupFind_names]
  cases hg : groupFind s n with
  | none => rfl
  | some g =>
    obtain ⟨hlt, hname, -⟩ := List.findIdx?_eq_some_iff_getElem.mp hg
    rw [Option.bind_some, List.getElem?_eq_getElem hlt, Option.map_some, Option.map_some, groupGid,
      eq_of_beq hname]

theorem same_order {l m : List Str} (r : Str) (hlen : l.length = m.length)
    (h : ∀ (n : Str) (k : ℕ), n ≠ r → (l[k]? = some n ↔ m[k]? = some n)) : l = m := by
  refine List.ext_getElem? fun k => ?_
  cases hl : l[k]? with
  | none =>
    rw [List.getElem?_eq_none_iff] at hl
    exact (List.getElem?_eq_none_iff.mpr (by omega)).symm
  | some n =>
    by_cases hn : n = r
    · have hk := (List.getElem?_eq_some_iff.mp hl).1
      have hm := List.getElem?_eq_getElem (l := m) (i := k) (by omega)
      rw [hm]
      by_cases hr : m[k] = r
      · rw [hr, hn]
      · have := (h _ k hr).mpr hm
        rw [hl, hn] at this
        exact absurd (Option.some.inj this).symm hr
    · exact ((h n k hn).mp hl).symm

theorem same_place {s s' : UserState} (hnodup : (groupNames s).Nodup)
    (hfew : (groupNames s).length ≤ 16) (hfew' : (groupNames s').length ≤ 16)
    (hgids : ∀ n, userGroupToGid s' n = userGroupToGid s n) {n : Str} {k : ℕ} (hn : n ≠ rootName)
    (hk : (groupNames s)[k]? = some n) : (groupNames s')[k]? = some n := by
  have hlt := (List.getElem?_eq_some_iff.mp hk).1
  have hgid := hgids n
  rw [userGroupToGid_names, userGroupToGid_names, findIdx_nodup hnodup hk] at hgid
  obtain ⟨j, hj, hsame⟩ := Option.map_eq_some_iff.mp hgid
  obtain ⟨hjlt, hname, -⟩ := List.findIdx?_eq_some_iff_getElem.mp hj
  simp only [if_neg hn] at hsame
  rw [← position_id_inj (by omega) (by omega) hsame, List.getElem?_eq_getElem hjlt, eq_of_beq hname]

/-- A restart finds every account, membership and number again exactly if the groups of the first
accounts were made first. -/
theorem restart_keeps_iff (h : Grown FilesHold s) (ha : Agreeing s) (hr : Restorable s) :
    Kept s (restart s) ↔ loadOrder s = groupNames s := by
  have hf := formed_run h
  have hres := restored hf hr ha
  have hf' := hres.formed ha hf
  have hfew : ∀ {t}, Formed t → (groupNames t).length ≤ 16 := fun ht => by
    rw [groupNames, List.length_map]
    exact ht.fits.groups
  constructor
  · intro hk
    have hnodup : (groupNames (restart s)).Nodup := hres.names ▸ loadOrder_nodup s
    have hlen : (groupNames (restart s)).length = (groupNames s).length :=
      Nat.le_antisymm
        (List.subperm_of_subset hnodup fun n hn => (hk.groups n).mp hn).length_le
        (List.subperm_of_subset ha.group_names fun n hn => (hk.groups n).mpr hn).length_le
    rw [← hres.names]
    refine same_order rootName hlen fun n k hn => ⟨?_, ?_⟩
    · exact same_place hnodup (hfew hf') (hfew hf) (fun n => (hk.gids n).symm) hn
    · exact same_place ha.group_names (hfew hf) (hfew hf') hk.gids hn
  · intro horder
    have hnames := hres.names.trans horder
    constructor
    · exact hres.accounts
    · exact fun n => by rw [hnames]
    · intro n i
      rw [groupIsMember_member, groupIsMember_member, hres.accounts, hres.members]
    · intro n
      simp only [userNameToUid, userFind, hres.accounts]
    · intro n
      rw [userGroupToGid_names, userGroupToGid_names, hnames]

theorem seeded_restart_iff :
    Kept seeded (restart seeded) ↔ loadOrder seeded = groupNames seeded :=
  restart_keeps_iff .seeded seeded_consistent.agreeing (by constructor <;> decide +kernel)

/-- The seeded group `sudo` has another gid after the first restart. -/
theorem seeded_groups_renumbered :
    ¬ ∀ s, Grown (fun _ c => c ≠ .restart) s → Kept s (restart s) := by
  intro h
  have hgid := (h seeded .seeded).gids sudoName
  revert hgid
  decide +kernel

end Accounts
