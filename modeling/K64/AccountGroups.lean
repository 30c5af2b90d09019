import K64.AccountSteps

/-! # Groups by their names

The array of groups as a list of names and the members of each, and what the operations on groups do
to both. -/
namespace Accounts

variable (s : UserState)

def groupNames : List Str := s.groups.map UserGroup.name

/-- The members of the first group of that name. -/
def member (name : Str) (i : ℕ) : Bool :=
  ((s.groups.find? fun g => g.name == name).map fun g => g.members i).getD false

theorem find_getElem (groups : List UserGroup) (name : Str) :
    ((groups.findIdx? fun g => g.name == name).bind fun g => groups[g]?) =
      groups.find? fun g => g.name == name := by
  induction groups with
  | nil => rfl
  | cons g groups ih =>
    rw [List.findIdx?_cons, List.find?_cons]
    cases g.name == name with
    | true => rfl
    | false =>
      simp only [Bool.false_eq_true, if_false, ← ih]
      cases groups.findIdx? fun g => g.name == name <;> rfl

theorem groupIsMember_member (name : Str) (i : ℕ) :
    groupIsMember s (groupFind s name) i = (decide (i < s.accounts.length) && member s name i) := by
  unfold groupIsMember member groupFind
  rw [find_getElem]
  cases s.groups.find? fun g => g.name == name with
  | none => rw [Option.map_none, Option.getD_none, Bool.and_false]
  | some g => rfl

theorem groupFind_isSome (name : Str) : (groupFind s name).isSome = true ↔ name ∈ groupNames s := by
  simp [groupFind, groupNames, List.findIdx?_isSome]

variable {name : Str}

theorem groupFind_none (h : name ∉ groupNames s) : groupFind s name = none := by
  rw [← Option.not_isSome_iff_eq_none, groupFind_isSome]
  exact h

theorem groupFind_some (h : name ∈ groupNames s) :
    ∃ g, groupFind s name = some g := Option.isSome_iff_exists.mp ((groupFind_isSome s name).mpr h)

theorem find_of_mem (h : name ∈ groupNames s) :
    ∃ g, s.groups.find? (fun g => g.name == name) = some g := by
  obtain ⟨g, hg, hname⟩ := List.mem_map.mp h
  exact Option.isSome_iff_exists.mp (List.find?_isSome.mpr ⟨g, hg, beq_iff_eq.mpr hname⟩)

theorem member_of_not_mem (h : name ∉ groupNames s) (i : ℕ) : member s name i = false := by
  have hnone : s.groups.find? (fun g => g.name == name) = none := by
    rw [← find_getElem]
    exact congrArg (Option.bind · _) (groupFind_none s h)
  rw [member, hnone]
  rfl

theorem find_modify (groups : List UserGroup) (name other : Str) (f : UserGroup → UserGroup)
    (hf : ∀ g, (f g).name = g.name) (g : ℕ)
    (hg : (groups.findIdx? fun g => g.name == name) = some g) :
    (groups.modify g f).find? (fun g => g.name == other) =
      if other = name then (groups.find? fun g => g.name == other).map f
      else groups.find? fun g => g.name == other := by
  induction groups generalizing g with
  | nil => cases hg
  | cons x groups ih =>
    rw [List.findIdx?_cons] at hg
    by_cases hx : x.name = name
    · rw [if_pos (beq_iff_eq.mpr hx)] at hg
      cases hg
      rw [List.modify_zero_cons, List.find?_cons, List.find?_cons, hf]
      by_cases ho : other = name
      · rw [if_pos ho, beq_iff_eq.mpr (hx.trans ho.symm)]
        rfl
      · rw [if_neg ho, beq_eq_false_iff_ne.mpr fun he => ho (he.symm.trans hx)]
    · rw [if_neg (by simpa using hx)] at hg
      obtain ⟨k, hk, rfl⟩ := Option.map_eq_some_iff.mp hg
      rw [List.modify_succ_cons, List.find?_cons, List.find?_cons, ih k hk]
      by_cases ho : x.name = other
      · have hne : other ≠ name := fun he => hx (ho.trans he)
        simp only [if_neg hne, beq_iff_eq.mpr ho]
      · rw [beq_eq_false_iff_ne.mpr ho]

structure ShortName (name : Str) : Prop where
  nonempty : name ≠ []
  short : name.length ≤ 15

theorem ShortName.copy (h : ShortName name) : userCopy groupNameMax name = name :=
  List.take_of_length_le h.short

theorem groupNames_add (h : ShortName name) (hok : (groupAddInternal s name).1 = true) :
    groupNames (groupAddInternal s name).2 =
      if name ∈ groupNames s then groupNames s else groupNames s ++ [name] := by
  unfold groupAddInternal at hok ⊢
  rw [if_neg h.nonempty] at hok ⊢
  by_cases hmem : name ∈ groupNames s
  · rw [if_pos ((groupFind_isSome s name).mpr hmem), if_pos hmem]
  · rw [if_neg (mt (groupFind_isSome s name).mp hmem)] at hok ⊢
    rw [if_neg hmem]
    split at hok
    · cases hok
    next hroom => rw [if_neg hroom, groupNames, List.map_append, h.copy]; rfl

theorem groupNames_add_refused (hok : (groupAddInternal s name).1 = false) :
    (groupAddInternal s name).2 = s := by
  unfold groupAddInternal at hok ⊢
  split at hok
  next h => rw [if_pos h]
  next h =>
    rw [if_neg h]
    split at hok
    · cases hok
    next h =>
      rw [if_neg h]
      split at hok
      next h => rw [if_pos h]
      · cases hok

theorem member_add (name other : Str) (i : ℕ) :
    member (groupAddInternal s name).2 other i = member s other i := by
  unfold groupAddInternal
  split
  · rfl
  · split
    · rfl
    · split
      · rfl
      · unfold member
        rw [List.find?_append]
        cases s.groups.find? fun g => g.name == other with
        | some g => rfl
        | none =>
          rw [Option.none_or, List.find?_singleton]
          split <;> rfl

theorem groupNames_modify (g : ℕ) (f : UserGroup → UserGroup) (hf : ∀ g, (f g).name = g.name) :
    (s.groups.modify g f).map UserGroup.name = groupNames s := map_modify_same _ _ hf _ _

theorem groupNames_setMembership (group : Option ℕ) (i : ℕ) (b : Bool) :
    groupNames (groupSetMembership s group i b) = groupNames s := by
  unfold groupSetMembership
  split
  · rfl
  · split
    · exact groupNames_modify s _ _ fun _ => rfl
    · rfl

theorem member_setMembership (name other : Str) (i j : ℕ) (b : Bool) (hi : i < s.accounts.length) :
    member (groupSetMembership s (groupFind s name) i b) other j =
      if other = name ∧ name ∈ groupNames s ∧ j = i then b else member s other j := by
  cases hg : groupFind s name with
  | none =>
    have hmem : name ∉ groupNames s := by
      rw [← groupFind_isSome, hg]
      exact Bool.false_ne_true
    rw [if_neg fun h => hmem h.2.1]
    rfl
  | some g =>
    have hmem : name ∈ groupNames s := (groupFind_isSome s name).mp (by rw [hg]; rfl)
    simp only [groupSetMembership, if_pos hi, member]
    rw [find_modify s.groups name other
      (fun x => { x with members := Function.update x.members i b }) (fun _ => rfl) g hg]
    by_cases ho : other = name
    · rw [if_pos ho]
      obtain ⟨x, hx⟩ := find_of_mem s (ho.symm ▸ hmem : other ∈ groupNames s)
      rw [hx]
      simp only [Option.map_some, Option.getD_some, Function.update_apply]
      by_cases hj : j = i
      · rw [if_pos hj, if_pos ⟨ho, hmem, hj⟩]
      · rw [if_neg hj, if_neg fun h => hj h.2.2]
    · rw [if_neg ho, if_neg fun h => ho h.1]

theorem groupNames_setRoleMembers (group : Str) (rule : UserAccount → Bool) :
    groupNames (setRoleMembers s group rule) = groupNames s := by
  unfold setRoleMembers
  split
  · rfl
  · exact groupNames_modify s _ _ fun _ => rfl

theorem member_setRoleMembers (group other : Str) (rule : UserAccount → Bool) (i : ℕ)
    (hmem : group ∈ groupNames s) :
    member (setRoleMembers s group rule) other i =
      if other = group then ((s.accounts[i]?).map rule).getD (member s other i)
      else member s other i := by
  obtain ⟨g, hg⟩ := groupFind_some s hmem
  simp only [setRoleMembers, hg, member]
  rw [find_modify s.groups group other
    (fun x => { x with members := fun i => ((s.accounts[i]?).map rule).getD (x.members i) })
    (fun _ => rfl) g hg]
  by_cases ho : other = group
  · rw [if_pos ho, if_pos ho]
    obtain ⟨x, hx⟩ := find_of_mem s (ho.symm ▸ hmem : other ∈ groupNames s)
    rw [hx]
    rfl
  · rw [if_neg ho, if_neg ho]

end Accounts
