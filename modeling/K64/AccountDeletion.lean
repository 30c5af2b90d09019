import K64.AccountAccess

/-! # Deletions

`userdel` and `groupdel` close the gap in the arrays, and the ids are positions in them. -/
namespace Accounts
open UserMode (userCanAccessUid)

variable (s : UserState)

/-- The two checks on a file, of the session of an account and of the programs it starts. -/
structure SameDecisions (s : UserState) (i : ℕ) (s' : UserState) (j : ℕ) : Prop where
  session : ∀ scope uid gid mode mask,
    userCanAccess (s'.session j scope) uid gid mode mask =
      userCanAccess (s.session i scope) uid gid mode mask
  program : ∀ scope uid gid mode mask,
    userCanAccessUid (userEffectiveUid (s'.session j scope)) (userEffectiveGid (s'.session j scope))
        uid gid mode mask =
      userCanAccessUid (userEffectiveUid (s.session i scope)) (userEffectiveGid (s.session i scope))
        uid gid mode mask

/-- Where the elements stay that a deletion leaves: the two maps give the positions afterwards of
the accounts and groups that are not deleted. -/
structure OthersKept (s s' : UserState) (account group : ℕ → Option ℕ) : Prop where
  uids : ∀ i j a b, account i = some j → s.accounts[i]? = some a → s'.accounts[j]? = some b →
    accountUid j b = accountUid i a
  gids : ∀ g k a b, group g = some k → s.groups[g]? = some a → s'.groups[k]? = some b →
    groupGid k b = groupGid g a
  decisions : ∀ i j, account i = some j → i < s.accounts.length → SameDecisions s i s' j

/-- The position that an element has once the one at `d` is gone. -/
def positionAfter (d i : ℕ) : Option ℕ :=
  if i = d then none else if i > d then some (i - 1) else some i

def AccountsBehindAreRoot (d : ℕ) : Prop :=
  ∀ i a, d < i → s.accounts[i]? = some a → a.isRoot = true

/-- No account without `is_root` has a membership or a primary group that the deletion moves. -/
structure GroupsBehindAreUnused (d : ℕ) : Prop where
  names : ∀ g group, d < g → s.groups[g]? = some group → group.name = rootName
  members : ∀ (i : ℕ) (a : UserAccount), s.accounts[i]? = some a → a.isRoot = false →
    ∀ (g : ℕ) (group : UserGroup), d ≤ g → s.groups[g]? = some group → group.members i = false
  primaries : ∀ (i : ℕ) (a : UserAccount), s.accounts[i]? = some a → a.isRoot = false →
    ∀ g, groupFind s a.primaryGroup = some g → g ≤ d

theorem position_after {d i j : ℕ} (h : positionAfter d i = some j) :
    i < d ∧ j = i ∨ d < i ∧ i = j + 1 := by
  unfold positionAfter at h
  split at h
  · cases h
  · split at h <;> simp only [Option.some.injEq] at h <;> omega

theorem position_after_succ (d k : ℕ) :
    positionAfter (d + 1) (k + 1) = (positionAfter d k).map (· + 1) := by
  unfold positionAfter
  by_cases he : k = d
  · simp [he]
  · by_cases hlt : d < k
    · have hk : k = k - 1 + 1 := by omega
      rw [if_neg he, if_neg (by omega), if_pos hlt, if_pos (by omega)]
      exact congrArg some hk
    · rw [if_neg he, if_neg (by omega), if_neg hlt, if_neg (by omega)]
      rfl

theorem getElem_after {α : Type} (l : List α) {d i j : ℕ} (h : positionAfter d i = some j) :
    (l.eraseIdx d)[j]? = l[i]? := by
  rcases position_after h with ⟨hlt, rfl⟩ | ⟨hlt, rfl⟩
  · exact List.getElem?_eraseIdx_of_lt hlt
  · exact List.getElem?_eraseIdx_of_ge (by omega)

theorem findIdx_after {α : Type} (p : α → Bool) (l : List α) (d : ℕ)
    (h : ∀ x, l[d]? = some x → p x = false) :
    (l.eraseIdx d).findIdx? p = (l.findIdx? p).bind (positionAfter d) := by
  induction l generalizing d with
  | nil => simp
  | cons x l ih =>
    cases d with
    | zero =>
      have hx : p x = false := h x rfl
      rw [List.eraseIdx_cons_zero, List.findIdx?_cons, hx]
      cases l.findIdx? p <;> simp [positionAfter]
    | succ d =>
      rw [List.eraseIdx_cons_succ, List.findIdx?_cons, List.findIdx?_cons, ih d h]
      cases p x with
      | true => simp [positionAfter]
      | false =>
        cases l.findIdx? p with
        | none => rfl
        | some k => exact (position_after_succ d k).symm

theorem same_decisions {s s' : UserState} {i j : ℕ} {a : UserAccount}
    (hi : s.accounts[i]? = some a) (hj : s'.accounts[j]? = some a)
    (h : a.isRoot = false → j = i ∧ primaryGid s' a.primaryGroup = primaryGid s a.primaryGroup ∧
      ∀ gid, groupIsMember s' (groupOfGid s' gid) j = groupIsMember s (groupOfGid s gid) i) :
    SameDecisions s i s' j := by
  have huid : ∀ scope,
      userEffectiveUid (s'.session j scope) = userEffectiveUid (s.session i scope) := by
    intro scope
    rw [userEffectiveUid_session hi, userEffectiveUid_session hj]
    cases hr : a.isRoot with
    | true => rfl
    | false => rw [(h hr).1]
  constructor
  · intro scope uid gid mode mask
    rw [userCanAccess, userCanAccess, huid, userIsRoot_session hi, userIsRoot_session hj,
      userIsMemberGid_session hi, userIsMemberGid_session hj]
    cases hr : a.isRoot with
    | true => rfl
    | false => rw [(h hr).2.2 gid]
  · intro scope uid gid mode mask
    rw [huid, userEffectiveGid_session hi, userEffectiveGid_session hj]
    cases hr : a.isRoot with
    | true => rfl
    | false => rw [(h hr).2.1]

theorem decision_tells_member {s : UserState} {i : ℕ} {a : UserAccount}
    (hi : s.accounts[i]? = some a) (hlt : i < 16) (hr : a.isRoot = false) (gid : UInt32) :
    userCanAccess (s.session i false) 0 gid 0o040 4 = groupIsMember s (groupOfGid s gid) i := by
  rw [userCanAccess, userIsRoot_session hi, userEffectiveUid_session hi, userIsMemberGid_session hi,
    hr]
  simp only [Bool.or_false, Bool.false_eq_true, if_false, Bool.false_or,
    if_neg (position_id_ne_zero i hlt)]
  cases groupIsMember s (groupOfGid s gid) i <;> rfl

theorem decision_tells_primary {s : UserState} {i : ℕ} {a : UserAccount}
    (hi : s.accounts[i]? = some a) (hlt : i < 16) (hr : a.isRoot = false) (gid : UInt32) :
    userCanAccessUid (userEffectiveUid (s.session i false)) (userEffectiveGid (s.session i false))
      0 gid 0o040 4 = (primaryGid s a.primaryGroup == gid) := by
  rw [userCanAccessUid, userEffectiveUid_session hi, userEffectiveGid_session hi, hr]
  simp only [Bool.or_false, Bool.false_eq_true, if_false, if_neg (position_id_ne_zero i hlt)]
  by_cases hg : primaryGid s a.primaryGroup = gid
  · rw [if_pos hg, beq_iff_eq.mpr hg]
    rfl
  · rw [if_neg hg, beq_eq_false_iff_ne.mpr hg]
    rfl

theorem deleted_account {s : UserState} {args : Str} {d : ℕ} (h : deletedIndex s args = some d) :
    d < s.accounts.length := by
  simp only [deletedIndex] at h
  split at h
  · cases h
  · obtain ⟨hfind, -⟩ := Option.filter_eq_some_iff.mp h
    exact (List.findIdx?_eq_some_iff_getElem.mp hfind).choose

theorem groupFind_deleteAccount (d : ℕ) (name : Str) :
    groupFind (deleteAccount s d) name = groupFind s name := by
  change (s.groups.map _).findIdx? _ = s.groups.findIdx? _
  rw [List.findIdx?_map]
  rfl

theorem groupIsMember_deleteAccount {d i : ℕ} (hd : d < s.accounts.length) (hi : i < d)
    (group : Option ℕ) :
    groupIsMember (deleteAccount s d) group i = groupIsMember s group i := by
  cases group with
  | none => rfl
  | some g =>
    have hlen : i < (s.accounts.eraseIdx d).length := by
      rw [List.length_eraseIdx_of_lt hd]
      omega
    have hmap : (deleteAccount s d).groups[g]? =
        (s.groups[g]?).map (UserGroup.dropMember d (s.accounts.length - 1)) := List.getElem?_map
    simp only [groupIsMember, Option.bind_some, hmap]
    cases s.groups[g]? with
    | none => rfl
    | some group =>
      have hmem : (group.dropMember d (s.accounts.length - 1)).members i = group.members i := by
        simp [UserGroup.dropMember, hi]
      simp only [Option.map_some, hmem]
      congr 1
      exact decide_eq_decide.mpr (iff_of_true hlen (by omega))

theorem userdel_keeps_others_iff (hf : Fits s) {d : ℕ} (hd : d < s.accounts.length) :
    OthersKept s (deleteAccount s d) (positionAfter d) some ↔ AccountsBehindAreRoot s d := by
  have hmax : s.accounts.length ≤ 8 := hf.accounts
  constructor
  · intro h i a hi ha
    have hlt := (List.getElem?_eq_some_iff.mp ha).1
    have hpos : positionAfter d i = some (i - 1) := by
      rw [positionAfter, if_neg (by omega), if_pos hi]
    have huid := h.uids i (i - 1) a a hpos ha ((getElem_after s.accounts hpos).trans ha)
    by_contra hr
    rw [accountUid, accountUid, if_neg hr, if_neg hr] at huid
    have := position_id_inj (by omega) (by omega) huid
    omega
  · intro h
    constructor
    · intro i j a b hpos ha hb
      have hab : a = b := by
        have := (getElem_after s.accounts hpos).symm.trans hb
        exact Option.some.inj (ha.symm.trans this)
      subst hab
      rcases position_after hpos with ⟨-, rfl⟩ | ⟨hlt, -⟩
      · rfl
      · rw [accountUid, accountUid, if_pos (h i a hlt ha), if_pos (h i a hlt ha)]
    · rintro g k a b ⟨⟩ ha hb
      have hmap : (s.groups[g]?).map (UserGroup.dropMember d (s.accounts.length - 1)) = some b :=
        List.getElem?_map.symm.trans hb
      rw [ha] at hmap
      cases hmap
      rfl
    · intro i j hpos hi
      have ha := List.getElem?_eq_getElem hi
      refine same_decisions ha ((getElem_after s.accounts hpos).trans ha) fun hr => ?_
      rcases position_after hpos with ⟨hlt, rfl⟩ | ⟨hlt, -⟩
      · refine ⟨rfl, ?_, fun gid => ?_⟩
        · rw [primaryGid, primaryGid, groupFind_deleteAccount]
        · rw [groupIsMember_deleteAccount s hd hlt, groupOfGid, groupOfGid, groupFind_deleteAccount]
      · exact absurd (h i _ hlt ha) (by simp [hr])

def deleteGroup (d : ℕ) : UserState := { s with groups := s.groups.eraseIdx d }

/-- What `groupdel` has checked of the group. -/
structure Deletable (d : ℕ) : Prop where
  not_root : ∀ group, s.groups[d]? = some group → group.name ≠ rootName
  not_primary : ∀ a ∈ s.accounts, ∀ group, s.groups[d]? = some group → group.name ≠ a.primaryGroup

theorem deleted_group {s : UserState} {args : Str} {d : ℕ} (h : deletedGroup s args = some d) :
    Deletable s d := by
  simp only [deletedGroup] at h
  split at h
  · cases h
  next hname =>
    split at h
    · cases h
    next hprimary =>
      obtain ⟨hlt, hmatch, -⟩ := List.findIdx?_eq_some_iff_getElem.mp h
      have hgroup : ∀ group, s.groups[d]? = some group →
          group.name = (userNextToken groupNameMax args).1 := by
        intro group hg
        rw [List.getElem?_eq_getElem hlt, Option.some.injEq] at hg
        rw [← hg]
        exact eq_of_beq hmatch
      refine ⟨fun group hg hr => hname ?_, fun a ha group hg he => hprimary ?_⟩
      · exact .inr (.inr (.inl ((hgroup group hg).symm.trans hr)))
      · exact List.any_eq_true.mpr ⟨a, ha, beq_iff_eq.mpr (he.symm.trans (hgroup group hg))⟩

theorem groupFind_deleteGroup {d : ℕ} {name : Str}
    (h : ∀ group, s.groups[d]? = some group → group.name ≠ name) :
    groupFind (deleteGroup s d) name = (groupFind s name).bind (positionAfter d) :=
  findIdx_after _ _ d fun group hg => beq_eq_false_iff_ne.mpr (h group hg)

theorem groupIsMember_position (k i : ℕ) (hi : i < s.accounts.length) :
    groupIsMember s (some k) i = ((s.groups[k]?).map fun g => g.members i).getD false := by
  simp only [groupIsMember, Option.bind_some]
  cases s.groups[k]? <;> simp [hi]

theorem groupOfGid_position {k : ℕ} (hk : k < 16) : groupOfGid s (1000 + k.toUInt32) = some k := by
  have hnat := position_id k hk
  have hle : (1000 : UInt32) ≤ 1000 + k.toUInt32 := by
    rw [UInt32.le_iff_toNat_le, hnat]
    change 1000 ≤ 1000 + k
    omega
  rw [groupOfGid, if_neg (position_id_ne_zero k hk), if_pos hle, UInt32.toNat_sub_of_le _ _ hle, hnat]
  change some (1000 + k - 1000) = some k
  rw [Nat.add_sub_cancel_left]

theorem no_member_behind (hf : Fits s) {d i : ℕ} (hi : i < s.accounts.length)
    (h : ∀ k, k < 16 → groupIsMember (deleteGroup s d) (some k) i = groupIsMember s (some k) i) :
    ∀ k, d ≤ k → groupIsMember s (some k) i = false := by
  have hmax : s.groups.length ≤ 16 := hf.groups
  have hnext : ∀ k, d ≤ k → k < s.groups.length →
      groupIsMember s (some (k + 1)) i = groupIsMember s (some k) i := by
    intro k hdk hk
    rw [← h k (by omega), groupIsMember_position s _ _ hi,
      groupIsMember_position (deleteGroup s d) _ _ hi, deleteGroup,
      List.getElem?_eraseIdx_of_ge hdk]
  intro k hdk
  induction hn : s.groups.length - k generalizing k with
  | zero =>
    rw [groupIsMember_position _ _ _ hi, List.getElem?_eq_none (by omega)]
    rfl
  | succ n ih => rw [← hnext k hdk (by omega), ih (k + 1) (by omega) (by omega)]

theorem primaryGid_deleteGroup {d i : ℕ} {a : UserAccount} (hd : Deletable s d)
    (h : GroupsBehindAreUnused s d) (ha : s.accounts[i]? = some a) (hr : a.isRoot = false) :
    primaryGid (deleteGroup s d) a.primaryGroup = primaryGid s a.primaryGroup := by
  have hne := hd.not_primary a (List.mem_of_getElem? ha)
  rw [primaryGid, primaryGid, groupFind_deleteGroup s hne]
  cases hg : groupFind s a.primaryGroup with
  | none => rfl
  | some g =>
    have hle := h.primaries i a ha hr g hg
    obtain ⟨hlt, hmatch, -⟩ := List.findIdx?_eq_some_iff_getElem.mp hg
    have hgd : g ≠ d := by
      rintro rfl
      exact hne _ (List.getElem?_eq_getElem hlt) (eq_of_beq hmatch)
    have hpos : positionAfter d g = some g := by
      rw [positionAfter, if_neg hgd, if_neg (by omega)]
    rw [Option.bind_some, hpos]

theorem groupIsMember_deleteGroup {d i : ℕ} {a : UserAccount} (hd : Deletable s d)
    (h : GroupsBehindAreUnused s d) (ha : s.accounts[i]? = some a) (hr : a.isRoot = false)
    (gid : UInt32) :
    groupIsMember (deleteGroup s d) (groupOfGid (deleteGroup s d) gid) i =
      groupIsMember s (groupOfGid s gid) i := by
  have hi := (List.getElem?_eq_some_iff.mp ha).1
  have hbehind : ∀ k, d ≤ k → groupIsMember s (some k) i = false := by
    intro k hk
    rw [groupIsMember_position _ _ _ hi]
    cases hg : s.groups[k]? with
    | none => rfl
    | some group => exact h.members i a ha hr k group hk hg
  have hmoved : ∀ k j, positionAfter d k = some j →
      groupIsMember (deleteGroup s d) (some j) i = groupIsMember s (some k) i := by
    intro k j hpos
    rw [groupIsMember_position s _ _ hi, groupIsMember_position (deleteGroup s d) _ _ hi,
      deleteGroup, getElem_after s.groups hpos]
  unfold groupOfGid
  split
  · -- the group of gid 0 is looked up by its name
    rw [groupFind_deleteGroup s hd.not_root]
    cases hg : groupFind s rootName with
    | none => rfl
    | some g =>
      obtain ⟨hlt, hmatch, -⟩ := List.findIdx?_eq_some_iff_getElem.mp hg
      have hgd : g ≠ d := by
        rintro rfl
        exact hd.not_root _ (List.getElem?_eq_getElem hlt) (eq_of_beq hmatch)
      rw [Option.bind_some]
      cases hpos : positionAfter d g with
      | none =>
        rw [positionAfter, if_neg hgd] at hpos
        split at hpos <;> cases hpos
      | some j => exact hmoved g j hpos
  · split
    · next hge =>
      by_cases hk : (gid - 1000).toNat < d
      · refine hmoved _ _ ?_
        rw [positionAfter, if_neg (by omega), if_neg (by omega)]
      · have hnext := hmoved ((gid - 1000).toNat + 1) (gid - 1000).toNat (by
          rw [positionAfter, if_neg (by omega), if_pos (by omega), Nat.add_sub_cancel])
        rw [hnext, hbehind _ (by omega), hbehind _ (by omega)]
    · rfl

theorem groupdel_keeps_others_iff (hf : Fits s) {d : ℕ} (hd : Deletable s d) :
    OthersKept s (deleteGroup s d) some (positionAfter d) ↔ GroupsBehindAreUnused s d := by
  have hmaxa : s.accounts.length ≤ 8 := hf.accounts
  have hmaxg : s.groups.length ≤ 16 := hf.groups
  constructor
  · intro h
    have hnames : ∀ g group, d < g → s.groups[g]? = some group → group.name = rootName := by
      intro g group hg hgroup
      have hlt := (List.getElem?_eq_some_iff.mp hgroup).1
      have hpos : positionAfter d g = some (g - 1) := by
        rw [positionAfter, if_neg (by omega), if_pos hg]
      have hgid := h.gids g (g - 1) group group hpos hgroup
        ((getElem_after s.groups hpos).trans hgroup)
      by_contra hr
      rw [groupGid, groupGid, if_neg hr, if_neg hr] at hgid
      have := position_id_inj (by omega) (by omega) hgid
      omega
    refine ⟨hnames, ?_, ?_⟩
    · intro i a ha hr g group hdg hgroup
      have hi := (List.getElem?_eq_some_iff.mp ha).1
      have hsame := (h.decisions i i rfl hi).session false 0
      have hmember : ∀ k, k < 16 →
          groupIsMember (deleteGroup s d) (some k) i = groupIsMember s (some k) i := by
        intro k hk
        have := hsame (1000 + k.toUInt32) 0o040 4
        rwa [decision_tells_member (s := deleteGroup s d) ha (by omega) hr,
          decision_tells_member ha (by omega) hr, groupOfGid_position _ hk,
          groupOfGid_position _ hk] at this
      have hno := no_member_behind s hf hi hmember g hdg
      rwa [groupIsMember_position _ _ _ hi, hgroup] at hno
    · intro i a ha hr g hfind
      by_contra hgt
      have hi := (List.getElem?_eq_some_iff.mp ha).1
      have hlt := (List.findIdx?_eq_some_iff_getElem.mp hfind).choose
      have hafter : groupFind (deleteGroup s d) a.primaryGroup = some (g - 1) := by
        rw [groupFind_deleteGroup s (hd.not_primary a (List.mem_of_getElem? ha)), hfind]
        change positionAfter d g = some (g - 1)
        rw [positionAfter, if_neg (by omega), if_pos (by omega)]
      have hsame := (h.decisions i i rfl hi).program false 0 (1000 + g.toUInt32) 0o040 4
      rw [decision_tells_primary (s := deleteGroup s d) ha (by omega) hr,
        decision_tells_primary ha (by omega) hr, primaryGid, primaryGid, hafter, hfind] at hsame
      have heq : 1000 + (g - 1).toUInt32 = 1000 + g.toUInt32 := by
        simpa using hsame
      have := position_id_inj (by omega) (by omega) heq
      omega
  · intro h
    constructor
    · rintro i j a b ⟨⟩ ha hb
      cases ha.symm.trans hb
      rfl
    · intro g k a b hpos ha hb
      have hafter := (getElem_after s.groups hpos).symm.trans hb
      have hab : a = b := Option.some.inj (ha.symm.trans hafter)
      subst hab
      rcases position_after hpos with ⟨-, rfl⟩ | ⟨hlt, -⟩
      · rfl
      · rw [groupGid, groupGid, if_pos (h.names g a hlt ha), if_pos (h.names g a hlt ha)]
    · rintro i j ⟨⟩ hi
      have ha := List.getElem?_eq_getElem hi
      refine @same_decisions s (deleteGroup s d) i i _ ha ha fun hr => ⟨rfl, ?_, ?_⟩
      · exact primaryGid_deleteGroup s hd h ha hr
      · exact groupIsMember_deleteGroup s hd h ha hr

/-- What the two commands owe to the accounts and groups that they do not delete. -/
def DeletionKeepsOthers (args : Str) : Prop :=
  (∀ d, deletedIndex s args = some d →
    OthersKept s (userCommandUserdel s args) (positionAfter d) some) ∧
  ∀ d, deletedGroup s args = some d →
    OthersKept s (userCommandGroupdel s args) some (positionAfter d)

theorem deletion_keeps_others_iff (hf : Fits s) (args : Str) :
    DeletionKeepsOthers s args ↔
      (∀ d, deletedIndex s args = some d → AccountsBehindAreRoot s d) ∧
      ∀ d, deletedGroup s args = some d → GroupsBehindAreUnused s d := by
  refine and_congr (forall₂_congr fun d hd => ?_) (forall₂_congr fun d hd => ?_)
  · rw [userCommandUserdel, hd]
    exact userdel_keeps_others_iff s hf (deleted_account hd)
  · rw [userCommandGroupdel, hd]
    exact groupdel_keeps_others_iff s hf (deleted_group hd)

/-- "a". -/
def shortName : Str := [97]

/-- A first start with `root` logged in, after `useradd a a`. -/
def threeAccounts : UserState :=
  userCommandUseradd ((userServiceStart bootState none).session 0 false) [97, 32, 97]

def thirdAccount : UserAccount :=
  ⟨shortName, userHashPassword shortName shortName userPassMax, shortName, false, false⟩

theorem last_account_deletable :
    DeletionKeepsOthers threeAccounts shortName :=
  (deletion_keeps_others_iff threeAccounts ⟨by decide, by decide⟩ shortName).mpr
    ⟨by
      intro d hd i a hi ha
      cases (show deletedIndex threeAccounts shortName = some 2 by decide +kernel).symm.trans hd
      have := (List.getElem?_eq_some_iff.mp ha).1
      have hlen : threeAccounts.accounts.length = 3 := by decide +kernel
      omega,
    by
      intro d hd
      cases (show deletedGroup threeAccounts shortName = none by decide +kernel).symm.trans hd⟩

/-- The account behind `guest` has uid 1002, and 1001 when `guest` is deleted. -/
theorem ids_move_up :
    ¬ ∀ s, Fits s → ∀ args, DeletionKeepsOthers s args := by
  intro h
  have hkept := (h threeAccounts ⟨by decide, by decide⟩ guestName).1 1 (by decide +kernel)
  have huid := hkept.uids 2 1 thirdAccount thirdAccount rfl (by decide +kernel) (by decide +kernel)
  revert huid
  decide

end Accounts
