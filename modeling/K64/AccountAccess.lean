import K64.Accounts
import K64.UserDescriptors

/-! # Access decisions

The numeric ids of accounts and groups, which are their positions in the arrays, and the two checks
of `k64_user.c` against the owner and the mode of a file. -/
namespace Accounts
open UserMode (userCanAccessUid)

/-- The lists are the used parts of the two arrays. -/
structure Fits (s : UserState) : Prop where
  accounts : s.accounts.length ≤ userMaxAccounts
  groups : s.groups.length ≤ groupMax

variable (s : UserState)

def accountUid (i : ℕ) (a : UserAccount) : UInt32 := if a.isRoot then 0 else 1000 + i.toUInt32

def groupGid (g : ℕ) (group : UserGroup) : UInt32 :=
  if group.name = rootName then 0 else 1000 + g.toUInt32

def userNameToUid (name : Str) : Option UInt32 :=
  (userFind s name).bind fun i => (s.accounts[i]?).map (accountUid i)

def userGroupToGid (name : Str) : Option UInt32 :=
  (groupFind s name).bind fun g => (s.groups[g]?).map (groupGid g)

def userRealUid : UInt32 :=
  match s.currentIndex, sessionAccount s with
  | some i, some a => if s.ready then accountUid i a else 1000
  | _, _ => 1000

def userEffectiveUid : UInt32 := if userIsRoot s then 0 else userRealUid s

def primaryGid (group : Str) : UInt32 :=
  match groupFind s group with
  | some g => 1000 + g.toUInt32
  | none => 1000

def userEffectiveGid : UInt32 :=
  if userIsRoot s then 0
  else
    match sessionAccount s with
    | some a => if s.ready then primaryGid s a.primaryGroup else 1000
    | none => 1000

/-- A gid from `1000 + 2^31` on is a negative index in the source, and past the array here. -/
def groupOfGid (gid : UInt32) : Option ℕ :=
  if gid = 0 then groupFind s rootName
  else if gid ≥ 1000 then some (gid - 1000).toNat
  else none

def userIsMemberGid (gid : UInt32) : Bool :=
  match s.currentIndex with
  | none => false
  | some i =>
    userIsLoggedIn s && (userIsRoot s || groupIsMember s (groupOfGid s gid) i)

def bitsGrant (bits mask : UInt32) : Bool := bits &&& mask == mask

def ownerBits (mode : UInt32) : UInt32 := (mode >>> 6) &&& 7

def groupBits (mode : UInt32) : UInt32 := (mode >>> 3) &&& 7

def otherBits (mode : UInt32) : UInt32 := mode &&& 7

def userCanAccess (ownerUid ownerGid mode mask : UInt32) : Bool :=
  if userIsRoot s then true
  else if userEffectiveUid s = ownerUid then bitsGrant (ownerBits mode) mask
  else if userIsMemberGid s ownerGid then bitsGrant (groupBits mode) mask
  else bitsGrant (otherBits mode) mask

/-- The session of an account, as a `login` leaves it or in a `sudo` scope. -/
def UserState.session (i : ℕ) (scope : Bool) : UserState :=
  { s with ready := true, currentIndex := some i, sudoActive := scope }

@[simp] theorem sessionAccount_session (i : ℕ) (scope : Bool) :
    sessionAccount (s.session i scope) = s.accounts[i]? := rfl

theorem logged_in_session {s : UserState} (h : userIsLoggedIn s = true) :
    ∃ i a, s = s.session i s.sudoActive ∧ s.accounts[i]? = some a := by
  obtain ⟨ready, current, scope, accounts, groups⟩ := s
  simp only [userIsLoggedIn, sessionAccount, Bool.and_eq_true, Option.isSome_iff_exists] at h
  obtain ⟨rfl, a, ha⟩ := h
  obtain ⟨i, rfl, hi⟩ := Option.bind_eq_some_iff.mp ha
  exact ⟨i, a, rfl, hi⟩

theorem position_id (i : ℕ) (h : i < 16) : (1000 + i.toUInt32).toNat = 1000 + i := by
  rw [UInt32.toNat_add, show i.toUInt32.toNat = i from Nat.mod_eq_of_lt (by omega)]
  exact Nat.mod_eq_of_lt (by change 1000 + i < 2 ^ 32; omega)

theorem position_id_ne_zero (i : ℕ) (h : i < 16) : (1000 + i.toUInt32) ≠ 0 := by
  intro he
  have := position_id i h
  rw [he] at this
  change 0 = 1000 + i at this
  omega

theorem position_id_inj {i j : ℕ} (hi : i < 16) (hj : j < 16)
    (h : 1000 + i.toUInt32 = 1000 + j.toUInt32) : i = j := by
  have := position_id i hi
  rw [h, position_id j hj] at this
  omega

section Session
variable {s} {i : ℕ} {a : UserAccount} (hi : s.accounts[i]? = some a) (scope : Bool)
include hi

theorem userIsRoot_session : userIsRoot (s.session i scope) = (a.isRoot || scope) := by
  rw [userIsRoot, sessionAccount_session, hi]
  rfl

theorem userIsLoggedIn_session : userIsLoggedIn (s.session i scope) = true := by
  rw [userIsLoggedIn, sessionAccount_session, hi]
  rfl

theorem userRealUid_session : userRealUid (s.session i scope) = accountUid i a := by
  simp [userRealUid, hi, UserState.session, sessionAccount]

theorem userEffectiveUid_session :
    userEffectiveUid (s.session i scope) = if a.isRoot || scope then 0 else 1000 + i.toUInt32 := by
  rw [userEffectiveUid, userIsRoot_session hi, userRealUid_session hi, accountUid]
  cases a.isRoot <;> cases scope <;> rfl

theorem userEffectiveGid_session :
    userEffectiveGid (s.session i scope) =
      if a.isRoot || scope then 0 else primaryGid s a.primaryGroup := by
  rw [userEffectiveGid, userIsRoot_session hi, sessionAccount_session, hi]
  rfl

theorem userIsMemberGid_session (gid : UInt32) :
    userIsMemberGid (s.session i scope) gid =
      (a.isRoot || scope || groupIsMember s (groupOfGid s gid) i) := by
  have h := userIsLoggedIn_session hi scope
  rw [userIsMemberGid]
  change (userIsLoggedIn _ && (userIsRoot _ || _)) = _
  rw [h, userIsRoot_session hi]
  rfl

end Session

theorem effective_uid_zero {s : UserState} (hf : Fits s) (h : userIsLoggedIn s = true) :
    userEffectiveUid s = 0 ↔ userIsRoot s = true := by
  obtain ⟨i, a, hs, hi⟩ := logged_in_session h
  have hlt := (List.getElem?_eq_some_iff.mp hi).1
  have hacc := hf.accounts
  have hne := position_id_ne_zero i (by simp only [userMaxAccounts] at hacc; omega)
  rw [hs, userEffectiveUid_session hi, userIsRoot_session hi]
  constructor
  · intro he
    by_contra hr
    rw [if_neg hr] at he
    exact hne he
  · intro hr
    rw [if_pos hr]

/-- The check of a program asks for the one gid it has, and the check of its session for all groups
of the account. -/
theorem access_checks_agree_iff (hf : Fits s) (h : userIsLoggedIn s = true)
    (ownerUid ownerGid mode mask : UInt32) :
    userCanAccess s ownerUid ownerGid mode mask =
        userCanAccessUid (userEffectiveUid s) (userEffectiveGid s) ownerUid ownerGid mode mask ↔
      userIsRoot s = true ∨ userEffectiveUid s = ownerUid ∨
        (userIsMemberGid s ownerGid = true ↔ userEffectiveGid s = ownerGid) ∨
        bitsGrant (groupBits mode) mask = bitsGrant (otherBits mode) mask := by
  have hzero := effective_uid_zero hf h
  by_cases hroot : userIsRoot s = true
  · rw [userCanAccess, userCanAccessUid, if_pos hroot, if_pos (hzero.mpr hroot)]
    exact iff_of_true rfl (.inl hroot)
  rw [userCanAccess, userCanAccessUid, if_neg hroot, if_neg (mt hzero.mp hroot)]
  by_cases howner : userEffectiveUid s = ownerUid
  · simp [howner, bitsGrant, ownerBits]
  have hother : ∀ b, (b &&& mask == mask) = bitsGrant b mask := fun _ => rfl
  by_cases hmember : userIsMemberGid s ownerGid = true <;>
    by_cases hgid : userEffectiveGid s = ownerGid <;>
    simp [hroot, howner, hmember, hgid, hother, groupBits, otherBits, eq_comm]

/-- The database of a first start, with `guest` logged in. -/
def guestSession : UserState := (userServiceStart bootState none).session 1 false

theorem access_checks_agree_owner :
    userCanAccess guestSession 1001 1002 0o600 4 =
      userCanAccessUid (userEffectiveUid guestSession) (userEffectiveGid guestSession)
        1001 1002 0o600 4 :=
  (access_checks_agree_iff guestSession ⟨by decide, by decide⟩ (by decide) 1001 1002 0o600 4).mpr
    (.inr (.inl (by decide)))

/-- `guest` is a member of `sudo`, which has gid 1001, and its primary gid is 1002. -/
theorem supplementary_group_lost :
    ¬ ∀ s, Fits s → userIsLoggedIn s = true → ∀ ownerUid ownerGid mode mask,
      userCanAccess s ownerUid ownerGid mode mask =
        userCanAccessUid (userEffectiveUid s) (userEffectiveGid s) ownerUid ownerGid mode mask := by
  intro h
  have hbad := h guestSession ⟨by decide, by decide⟩ (by decide) 1000 1001 0o640 4
  revert hbad
  decide

end Accounts
