import K64.AccountSteps
import K64.AccountDeletion
import Mathlib.Data.List.Nodup

/-! # The session and the rights it caches

`current_index` against the account that logged in last, and the `sudo` flag against its roles. -/
namespace Accounts

/-- What has happened: a serial number for each account in the order of the array, and that of the
account that logged in last. A number is not used twice. -/
structure Record where
  serials : List ℕ
  next : ℕ
  last : Option ℕ

def Record.start (s : UserState) : Record :=
  ⟨List.range s.accounts.length, s.accounts.length, none⟩

/-- The record after a step. An account that has become the last of the array is new. -/
def Record.step (r : Record) (s : UserState) (e : Event) : Record :=
  let grown := if (e.apply s).accounts.length > s.accounts.length then
      { r with serials := r.serials ++ [r.next], next := r.next + 1 }
    else r
  match e with
  | .command .login args | .command .su args =>
    match loginIndex s args with
    | some i => { r with last := r.serials[i]? }
    | none => r
  | .command .logout _ => { r with last := none }
  | .command .userdel args =>
    match deletedIndex s args with
    | some d => { r with serials := r.serials.eraseIdx d }
    | none => r
  | _ => grown

/-- A start of the service in any state, and steps that are allowed. -/
inductive Reached (allowed : UserState → Event → Prop) (boot : UserState)
    (files : Option (Str × Str)) : UserState → Record → Prop
  | start : Reached allowed boot files (userServiceStart boot files)
      (Record.start (userServiceStart boot files))
  | step {s r} (e : Event) : Reached allowed boot files s r → allowed s e →
      Reached allowed boot files (e.apply s) (r.step s e)

structure BackedByAccount (s : UserState) (r : Record) : Prop where
  rights : userIsRoot s = true →
    ∃ a, sessionAccount s = some a ∧ (a.isRoot = true ∨ a.sudoer = true)
  current : s.currentIndex = r.last.bind fun n => r.serials.findIdx? (· == n)

/-- An account of that name is overwritten without a role, if it exists. -/
structure Overwrites (s : UserState) (name : Str) (n : NewAccount) : Prop where
  target : n.name = name
  name_given : name ≠ []
  password_given : n.password ≠ []
  no_root : n.isRoot = false
  no_sudo : n.sudoer = false
  group_fits : (groupAddInternal s n.group).1 = true

/-- A step that sets both roles of an account to false: a `usermod` or `useradd` of effective root
or an installer's new account with a name that exists. -/
def Demotes (s : UserState) (name : Str) : Event → Prop
  | .command .usermod args =>
    userIsRoot s = true ∧ (usermodWords args).name = name ∧ name ≠ [] ∧
      (usermodWords args).value ≠ [] ∧ modificationOf (usermodWords args).action = some .role ∧
      (usermodWords args).value ≠ rootName ∧ (usermodWords args).value ≠ sudoName
  | .command .useradd args => userIsRoot s = true ∧ Overwrites s name (newAccountOf args)
  | .createAccount target password sudoer =>
    s.ready = true ∧ Overwrites s name (installed target password sudoer)
  | _ => False

/-- The session is effective root by its flag, and the step takes the roles of its account. -/
def DemotesSession (s : UserState) (e : Event) : Prop :=
  s.sudoActive = true ∧ ∃ name, Demotes s name e ∧ userFind s name = s.currentIndex

variable {s s' : UserState} {r : Record}

def FlagBacked (s : UserState) : Prop :=
  s.sudoActive = true → ∃ a, sessionAccount s = some a ∧ (a.isRoot = true ∨ a.sudoer = true)

theorem rights_backed (h : FlagBacked s) (hroot : userIsRoot s = true) :
    ∃ a, sessionAccount s = some a ∧ (a.isRoot = true ∨ a.sudoer = true) := by
  unfold userIsRoot at hroot
  split at hroot
  · cases hroot
  next a ha =>
    rw [Bool.and_eq_true, Bool.or_eq_true] at hroot
    rcases hroot.2 with hr | hactive
    · exact ⟨a, ha, .inl hr⟩
    · exact h hactive

theorem roles_at (h : KeepsRoles s s') (i : ℕ) :
    (s'.accounts[i]?).map UserAccount.roles = (s.accounts[i]?).map UserAccount.roles := by
  rw [← List.getElem?_map, ← List.getElem?_map, h.roles]

theorem flag_kept (h : KeepsRoles s s') (hb : FlagBacked s) : FlagBacked s' := by
  intro hactive
  obtain ⟨a, ha, hr⟩ := hb (h.sudo_active ▸ hactive)
  obtain ⟨i, hi, hai⟩ := Option.bind_eq_some_iff.mp ha
  have hroles := roles_at h i
  rw [hai] at hroles
  obtain ⟨b, hbi, hab⟩ := Option.map_eq_some_iff.mp hroles
  have hisRoot : b.isRoot = a.isRoot := congrArg Prod.fst hab
  have hsudoer : b.sudoer = a.sudoer := congrArg Prod.snd hab
  refine ⟨b, ?_, by rwa [hisRoot, hsudoer]⟩
  rw [sessionAccount, h.current, hi]
  exact hbi

theorem flag_down (h : s.sudoActive = false) : FlagBacked s := by
  intro hactive
  rw [h] at hactive
  cases hactive

section Flag

variable (hb : FlagBacked s)

include hb

theorem flag_setAccount (i : ℕ) (f : UserAccount → UserAccount)
    (h : s.sudoActive = true → s.currentIndex = some i →
      ∀ a, (f a).isRoot = true ∨ (f a).sudoer = true) :
    FlagBacked (s.setAccount i f) := by
  intro hactive
  obtain ⟨a, ha, hr⟩ := hb hactive
  obtain ⟨c, hc, hac⟩ := Option.bind_eq_some_iff.mp ha
  have hset : (s.setAccount i f).accounts[c]? = some (if i = c then f a else a) := by
    change (s.accounts.modify i f)[c]? = _
    rw [List.getElem?_modify, hac]
    split <;> rfl
  refine ⟨if i = c then f a else a, ?_, ?_⟩
  · change s.currentIndex.bind _ = _
    rw [hc]
    exact hset
  · split
    next hic =>
      subst hic
      exact h hactive hc a
    · exact hr

theorem flag_append (a : UserAccount) : FlagBacked { s with accounts := s.accounts ++ [a] } := by
  intro hactive
  obtain ⟨b, hb, hr⟩ := hb hactive
  obtain ⟨c, hc, hbc⟩ := Option.bind_eq_some_iff.mp hb
  refine ⟨b, ?_, hr⟩
  change s.currentIndex.bind _ = _
  rw [hc]
  change (s.accounts ++ [a])[c]? = _
  rw [List.getElem?_append_left (List.getElem?_eq_some_iff.mp hbc).1]
  exact hbc

theorem flag_addRefreshed (n : NewAccount) (hgroup : n.group ≠ [])
    (h : s.sudoActive = true → Overwrites s n.name n → userFind s n.name ≠ s.currentIndex) :
    FlagBacked (addRefreshed s n) := by
  have hframe := primaryAdded_frame s n.group
  have hadded := flag_kept hframe.keeps_roles hb
  have hadd : FlagBacked (userAddAccount s n.name n.password n.isRoot n.sudoer n.group false).2 := by
    rcases userAddAccount_cases s n.name n.password n.isRoot n.sudoer n.group false with
      ⟨-, hsame⟩ | ⟨i, -, hname, hpassword, hok, hfind, hset⟩ | ⟨-, -, -, -, -, -, happend⟩
    · exact flag_kept (refused_frame hsame).keeps_roles hb
    · rw [hset]
      refine flag_setAccount hadded i _ fun hactive hcurrent a => ?_
      rw [hframe.current] at hcurrent
      by_contra hroles
      simp only [Bool.or_eq_true, not_or, Bool.not_eq_true] at hroles
      obtain ⟨hroot, hsudo, -⟩ := hroles
      rw [primaryAdded, if_neg hgroup] at hok
      exact h (hframe.sudo_active ▸ hactive) ⟨rfl, hname, hpassword, hroot, hsudo, hok⟩
        (hfind.trans hcurrent.symm)
    · rw [happend, ← hframe.accounts]
      exact flag_append hadded _
  unfold addRefreshed
  simp only
  split
  · exact flag_kept (refreshed_keeps_roles _) hadd
  · exact hadd

theorem flag_deleteAccount (d : ℕ) : FlagBacked (deleteAccount s d) := by
  intro hactive
  by_cases hd : s.currentIndex = some d
  · simp [deleteAccount, hd] at hactive
  · have hactive : s.sudoActive = true := by simpa [deleteAccount, hd] using hactive
    obtain ⟨a, ha, hr⟩ := hb hactive
    obtain ⟨c, hc, hac⟩ := Option.bind_eq_some_iff.mp ha
    refine ⟨a, ?_, hr⟩
    change (s.currentIndex.bind (positionAfter d)).bind _ = _
    rw [hc] at hd ⊢
    cases hpos : positionAfter d c with
    | none =>
      rw [positionAfter, if_neg fun he => hd (congrArg some he)] at hpos
      split at hpos <;> cases hpos
    | some j =>
      rw [Option.bind_some, hpos]
      exact (getElem_after s.accounts hpos).trans hac

theorem flag_createAccount (name password : Str) (sudoer : Bool)
    (h : ¬ DemotesSession s (.createAccount name password sudoer)) :
    FlagBacked (userCreateAccount s name password sudoer).2 := by
  rcases userCreateAccount_cases s name password sudoer with hsame | ⟨hready, hname, -, hadd⟩
  · rwa [hsame]
  · rw [hadd]
    exact flag_addRefreshed hb _ (userCopy_ne_nil hname) fun hactive hover hfind =>
      h ⟨hactive, name, ⟨hready, hover⟩, hfind⟩

theorem flag_modify (m : Modification) (i : ℕ) (name value : Str)
    (h : m = .role → s.sudoActive = true → s.currentIndex = some i →
      value = rootName ∨ value = sudoName) :
    FlagBacked (modify s m i name value) := by
  cases m with
  | role =>
    refine flag_kept (userSyncRoleGroups_frame _).keeps_roles
      (flag_setAccount hb i _ fun hactive hcurrent a => ?_)
    rcases h rfl hactive hcurrent with he | he <;> simp [he]
  | primary =>
    have hadd := (groupAddInternal_frame s value).keeps_roles
    simp only [modify]
    split
    · exact flag_kept hadd hb
    · have hset := setAccount_keeps_roles (groupAddInternal s value).2 i
        (fun a => { a with primaryGroup := userCopy groupNameMax value }) (fun _ => rfl) fun _ => rfl
      exact flag_kept ((hadd.trans hset).trans (groupSetMembership_frame _ _ _ _).keeps_roles) hb
  | groupadd => exact flag_kept (userAddToGroup_frame s name value).keeps_roles hb
  | groupdel => exact flag_kept (userRemoveFromGroup_frame s name value).keeps_roles hb

theorem flag_useradd (args : Str) (h : ¬ DemotesSession s (.command .useradd args)) :
    FlagBacked (userCommandUseradd s args) := by
  rcases userCommandUseradd_cases s args with hsame | ⟨hroot, hname, -, hadd⟩
  · rwa [hsame]
  · rw [hadd]
    exact flag_addRefreshed hb _ (new_group_ne_nil hname) fun hactive hover hfind =>
      h ⟨hactive, _, ⟨hroot, hover⟩, hfind⟩

theorem flag_usermod (args : Str) (h : ¬ DemotesSession s (.command .usermod args)) :
    FlagBacked (userCommandUsermod s args) := by
  rcases userCommandUsermod_cases s args with hsame | ⟨i, m, hroot, hname, hvalue, hfind, hm, hmod⟩
  · rwa [hsame]
  · rw [hmod]
    refine flag_modify hb m i _ _ fun hrole hactive hcurrent => ?_
    by_contra hroles
    rw [not_or] at hroles
    exact h ⟨hactive, _, ⟨hroot, rfl, hname, hvalue, hrole ▸ hm, hroles.1, hroles.2⟩,
      hfind.trans hcurrent.symm⟩

theorem flag_step (e : Event) (h : ¬ DemotesSession s e) : FlagBacked (e.apply s) := by
  cases e with
  | command c args =>
    cases c with
    | print => exact hb
    | login | su =>
      change FlagBacked (userCommandLoginLike s args)
      unfold userCommandLoginLike
      split
      · exact hb
      · exact flag_down rfl
    | logout => exact flag_down rfl
    | sudoMode =>
      change FlagBacked (userCommandSudo s args)
      unfold userCommandSudo
      split
      · exact hb
      next a ha =>
        have hup : a.sudoer = true → FlagBacked { s with sudoActive := true } :=
          fun hs _ => ⟨a, ha, .inr hs⟩
        simp only
        split
        · split
          · exact hb
          · split
            next hs => exact hup hs
            · exact hb
        · split
          · exact flag_down rfl
          · split
            next hs => exact hup (Bool.and_eq_true_iff.mp hs).1
            · exact hb
    | passwd =>
      change FlagBacked (userCommandPasswd s args)
      exact flag_kept (userCommandPasswd_keeps_roles s args) hb
    | useradd => exact flag_useradd hb args h
    | userdel =>
      change FlagBacked (userCommandUserdel s args)
      unfold userCommandUserdel
      split
      · exact hb
      · exact flag_deleteAccount hb _
    | usermod => exact flag_usermod hb args h
    | groupadd => exact flag_kept (userCommandGroupadd_frame s args).keeps_roles hb
    | groupdel => exact flag_kept (userCommandGroupdel_frame s args).keeps_roles hb
    | gpasswd => exact flag_kept (userCommandGpasswd_frame s args).keeps_roles hb
  | createAccount name password sudoer => exact flag_createAccount hb name password sudoer h
  | beginSudoScope =>
    change FlagBacked (userBeginSudoScope s)
    unfold userBeginSudoScope
    split
    · exact hb
    next a ha =>
      split
      next hs => exact fun _ => ⟨a, ha, .inr (Bool.and_eq_true_iff.mp hs).2⟩
      · exact hb
  | endSudoScope =>
    change FlagBacked (userEndSudoScope s)
    unfold userEndSudoScope
    split
    · exact hb
    · split
      · exact flag_down rfl
      · exact hb

end Flag

structure RecordFits (s : UserState) (r : Record) : Prop where
  length : r.serials.length = s.accounts.length
  nodup : r.serials.Nodup
  fresh : ∀ n ∈ r.serials, n < r.next
  last : ∀ n, r.last = some n → n < r.next
  current : s.currentIndex = r.last.bind fun n => r.serials.findIdx? (· == n)

/-- The session stays, and at most one account is new. -/
structure Steady (s s' : UserState) : Prop where
  current : s'.currentIndex = s.currentIndex
  length : s'.accounts.length = s.accounts.length ∨ s'.accounts.length = s.accounts.length + 1

theorem KeepsRoles.steady (h : KeepsRoles s s') : Steady s s' := ⟨h.current, .inl h.length⟩

theorem Steady.keeps_roles {s₁ s₂ s₃ : UserState} (h : Steady s₁ s₂) (k : KeepsRoles s₂ s₃) :
    Steady s₁ s₃ := by
  refine ⟨k.current.trans h.current, ?_⟩
  rw [k.length]
  exact h.length

theorem record_start (boot : UserState) (files : Option (Str × Str)) :
    RecordFits (userServiceStart boot files) (.start (userServiceStart boot files)) where
  length := List.length_range
  nodup := List.nodup_range
  fresh := fun _ hn => List.mem_range.mp hn
  last := fun _ h => nomatch h
  current := rfl

def Record.grow (r : Record) : Record :=
  { r with serials := r.serials ++ [r.next], next := r.next + 1 }

theorem record_steady (h : RecordFits s r) (hs : Steady s s') :
    RecordFits s' (if s'.accounts.length > s.accounts.length then r.grow else r) := by
  rcases hs.length with hsame | hone
  · rw [if_neg (by omega)]
    exact ⟨h.length.trans hsame.symm, h.nodup, h.fresh, h.last, hs.current.trans h.current⟩
  · rw [if_pos (by omega)]
    have hnew : r.next ∉ r.serials := fun hn => Nat.lt_irrefl _ (h.fresh _ hn)
    constructor
    · rw [Record.grow, List.length_append, h.length, hone]
      rfl
    · refine List.nodup_append.mpr ⟨h.nodup, List.nodup_singleton _, fun n hn m hm => ?_⟩
      rw [List.mem_singleton.mp hm]
      rintro rfl
      exact hnew hn
    · intro n hn
      rcases List.mem_append.mp hn with hn | hn
      · exact Nat.lt_succ_of_lt (h.fresh n hn)
      · cases List.mem_singleton.mp hn
        exact Nat.lt_succ_self _
    · exact fun n hn => Nat.lt_succ_of_lt (h.last n hn)
    · rw [hs.current, h.current]
      change r.last.bind _ = r.last.bind fun n => (r.serials ++ [r.next]).findIdx? (· == n)
      cases hl : r.last with
      | none => rfl
      | some n =>
        have hne : r.next ≠ n := Nat.ne_of_gt (h.last n hl)
        have hsingle : [r.next].findIdx? (· == n) = none := by simp [hne]
        rw [Option.bind_some, Option.bind_some, List.findIdx?_append, hsingle, Option.map_none,
          Option.or_none]

theorem findIdx_deleted {l : List ℕ} (h : l.Nodup) (d n : ℕ) :
    (l.eraseIdx d).findIdx? (· == n) = (l.findIdx? (· == n)).bind (positionAfter d) := by
  by_cases hd : l[d]? = some n
  · rw [findIdx_nodup h hd, Option.bind_some, positionAfter, if_pos rfl]
    refine List.findIdx?_eq_none_iff.mpr fun m hm => ?_
    rw [beq_eq_false_iff_ne]
    rintro rfl
    obtain ⟨i, hid, hi⟩ := List.mem_eraseIdx_iff_getElem?.mp hm
    have := (findIdx_nodup h hi).symm.trans (findIdx_nodup h hd)
    exact hid (Option.some.inj this)
  · refine findIdx_after _ l d fun m hm => ?_
    rw [beq_eq_false_iff_ne]
    rintro rfl
    exact hd hm

theorem record_deleted (h : RecordFits s r) (d : ℕ) :
    RecordFits (deleteAccount s d) { r with serials := r.serials.eraseIdx d } := by
  constructor
  · change (r.serials.eraseIdx d).length = (s.accounts.eraseIdx d).length
    rw [List.length_eraseIdx, List.length_eraseIdx, h.length]
  · exact h.nodup.eraseIdx d
  · exact fun n hn => h.fresh n (List.mem_of_mem_eraseIdx hn)
  · exact h.last
  · change s.currentIndex.bind (positionAfter d) = _
    rw [h.current]
    cases r.last with
    | none => rfl
    | some n => exact (findIdx_deleted h.nodup d n).symm

theorem login_inside {args : Str} {i : ℕ} (h : loginIndex s args = some i) :
    i < s.accounts.length := by
  simp only [loginIndex] at h
  split at h
  · cases h
  · obtain ⟨hfind, -⟩ := Option.filter_eq_some_iff.mp h
    exact (List.findIdx?_eq_some_iff_getElem.mp hfind).choose

theorem record_login (h : RecordFits s r) (args : Str) :
    RecordFits (userCommandLoginLike s args)
      (match loginIndex s args with
      | some i => { r with last := r.serials[i]? }
      | none => r) := by
  unfold userCommandLoginLike
  cases hl : loginIndex s args with
  | none => exact h
  | some i =>
    have hlt : i < r.serials.length := h.length.symm ▸ login_inside hl
    have hget := List.getElem?_eq_getElem hlt
    refine ⟨h.length, h.nodup, h.fresh, fun n hn => ?_, ?_⟩
    · exact h.fresh n (List.mem_of_getElem? hn)
    · change some i = (r.serials[i]?).bind _
      rw [hget]
      exact (findIdx_nodup h.nodup hget).symm

theorem steady_userAddAccount (name password : Str) (isRoot sudoer : Bool) (primaryGroup : Str)
    (hashed : Bool) :
    Steady s (userAddAccount s name password isRoot sudoer primaryGroup hashed).2 := by
  have hframe := primaryAdded_frame s primaryGroup
  rcases userAddAccount_cases s name password isRoot sudoer primaryGroup hashed with
    ⟨-, hsame⟩ | ⟨i, -, -, -, -, -, hset⟩ | ⟨-, -, -, -, -, -, happend⟩
  · exact (refused_frame hsame).keeps_roles.steady
  · rw [hset]
    refine ⟨hframe.current, .inl ?_⟩
    change (List.modify _ i _).length = _
    rw [List.length_modify, hframe.accounts]
  · rw [happend]
    exact ⟨hframe.current, .inr (List.length_append ..)⟩

theorem steady_addRefreshed (n : NewAccount) : Steady s (addRefreshed s n) := by
  have hadd := steady_userAddAccount (s := s) n.name n.password n.isRoot n.sudoer n.group false
  unfold addRefreshed
  simp only
  split
  · exact hadd.keeps_roles (refreshed_keeps_roles _)
  · exact hadd

theorem steady_createAccount (name password : Str) (sudoer : Bool) :
    Steady s (userCreateAccount s name password sudoer).2 := by
  rcases userCreateAccount_cases s name password sudoer with hsame | ⟨-, -, -, hadd⟩
  · rw [hsame]
    exact (OnlyGroups.refl s).keeps_roles.steady
  · rw [hadd]
    exact steady_addRefreshed _

theorem steady_useradd (args : Str) : Steady s (userCommandUseradd s args) := by
  rcases userCommandUseradd_cases s args with hsame | ⟨-, -, -, hadd⟩
  · rw [hsame]
    exact (OnlyGroups.refl s).keeps_roles.steady
  · rw [hadd]
    exact steady_addRefreshed _

theorem steady_setAccount (i : ℕ) (f : UserAccount → UserAccount) : Steady s (s.setAccount i f) :=
  ⟨rfl, .inl (List.length_modify ..)⟩

theorem steady_modify (m : Modification) (i : ℕ) (name value : Str) :
    Steady s (modify s m i name value) := by
  cases m with
  | role => exact (steady_setAccount i _).keeps_roles (userSyncRoleGroups_frame _).keeps_roles
  | primary =>
    have hadd := groupAddInternal_frame s value
    simp only [modify]
    split
    · exact hadd.keeps_roles.steady
    · have hset : Steady s ((groupAddInternal s value).2.setAccount i fun a =>
          { a with primaryGroup := userCopy groupNameMax value }) :=
        ⟨hadd.current, .inl ((List.length_modify ..).trans (congrArg List.length hadd.accounts))⟩
      exact hset.keeps_roles (groupSetMembership_frame _ _ _ _).keeps_roles
  | groupadd => exact (userAddToGroup_frame s name value).keeps_roles.steady
  | groupdel => exact (userRemoveFromGroup_frame s name value).keeps_roles.steady

theorem steady_usermod (args : Str) : Steady s (userCommandUsermod s args) := by
  rcases userCommandUsermod_cases s args with hsame | ⟨i, m, -, -, -, -, -, hmod⟩
  · rw [hsame]
    exact (OnlyGroups.refl s).keeps_roles.steady
  · rw [hmod]
    exact steady_modify m i _ _

theorem steady_sudo (args : Str) : Steady s (userCommandSudo s args) := by
  have hsame : Steady s s := (OnlyGroups.refl s).keeps_roles.steady
  have hset : ∀ b, Steady s { s with sudoActive := b } := fun _ => ⟨rfl, .inl rfl⟩
  unfold userCommandSudo
  split
  · exact hsame
  · simp only
    repeat' split
    all_goals first | exact hsame | exact hset _

theorem record_step (h : RecordFits s r) (e : Event) : RecordFits (e.apply s) (r.step s e) := by
  cases e with
  | command c args =>
    cases c with
    | login | su => exact record_login h args
    | logout =>
      exact { h with
        last := fun _ hn => nomatch hn
        current := rfl }
    | userdel =>
      change RecordFits (userCommandUserdel s args) (match deletedIndex s args with
        | some d => { r with serials := r.serials.eraseIdx d } | none => r)
      unfold userCommandUserdel
      cases deletedIndex s args with
      | none => exact h
      | some d => exact record_deleted h d
    | print => exact record_steady h ⟨rfl, .inl rfl⟩
    | sudoMode => exact record_steady h (steady_sudo args)
    | passwd => exact record_steady h (userCommandPasswd_keeps_roles s args).steady
    | useradd => exact record_steady h (steady_useradd args)
    | usermod => exact record_steady h (steady_usermod args)
    | groupadd => exact record_steady h (userCommandGroupadd_frame s args).keeps_roles.steady
    | groupdel => exact record_steady h (userCommandGroupdel_frame s args).keeps_roles.steady
    | gpasswd => exact record_steady h (userCommandGpasswd_frame s args).keeps_roles.steady
  | createAccount name password sudoer =>
    exact record_steady h (steady_createAccount name password sudoer)
  | beginSudoScope =>
    refine record_steady h ?_
    change Steady s (userBeginSudoScope s)
    unfold userBeginSudoScope
    split
    · exact ⟨rfl, .inl rfl⟩
    · split <;> exact ⟨rfl, .inl rfl⟩
  | endSudoScope =>
    refine record_steady h ?_
    change Steady s (userEndSudoScope s)
    unfold userEndSudoScope
    split
    · exact ⟨rfl, .inl rfl⟩
    · split <;> exact ⟨rfl, .inl rfl⟩

theorem record_run {allowed : UserState → Event → Prop} {boot : UserState}
    {files : Option (Str × Str)} (h : Reached allowed boot files s r) : RecordFits s r := by
  induction h with
  | start => exact record_start boot files
  | step e _ _ ih => exact record_step ih e

theorem flag_run {boot : UserState} {files : Option (Str × Str)}
    (h : Reached (fun s e => ¬ DemotesSession s e) boot files s r) : FlagBacked s := by
  induction h with
  | start => exact flag_down rfl
  | step e _ hok ih => exact flag_step ih e hok

/-- Effective root has a role behind it unless a step takes the roles of a session with the flag
set, and the index always is that of the account that logged in last. -/
theorem session_backed_by_account (boot : UserState) (files : Option (Str × Str))
    (h : Reached (fun s e => ¬ DemotesSession s e) boot files s r) : BackedByAccount s r :=
  ⟨rights_backed (flag_run h), (record_run h).current⟩

/-- "guest guest". -/
def guestLogin : Str := guestName ++ 32 :: guestName

theorem session_backed_after_login :
    BackedByAccount (Event.apply (userServiceStart bootState none) (.command .login guestLogin))
      ((Record.start (userServiceStart bootState none)).step (userServiceStart bootState none)
        (.command .login guestLogin)) :=
  session_backed_by_account bootState none
    (.step (.command .login guestLogin) .start fun ⟨hactive, _⟩ => Bool.noConfusion hactive)

/-- "role guest user". -/
def guestRole : Str := [114, 111, 108, 101, 32] ++ guestName ++ [32, 117, 115, 101, 114]

theorem reached_start (boot : UserState) (files : Option (Str × Str)) :
    Reached (fun _ _ => True) boot files (userServiceStart boot files)
      (.start (userServiceStart boot files)) := .start

/-- `guest` sets its flag with `sudo` and then takes its own role away: the flag stays set. -/
theorem demoted_session_is_root :
    ¬ ∀ boot files s r, Reached (fun _ _ => True) boot files s r → BackedByAccount s r := by
  intro h
  have hreached := ((reached_start bootState none).step (.command .login guestLogin) trivial |>.step
      (.command .sudoMode []) trivial).step (.command .usermod guestRole) trivial
  obtain ⟨a, ha, hr⟩ := (h _ _ _ _ hreached).rights (by decide +kernel)
  have hroles := congrArg (Option.map UserAccount.roles) ha
  have hnone : (sessionAccount (Event.apply (Event.apply (Event.apply
      (userServiceStart bootState none) (.command .login guestLogin)) (.command .sudoMode []))
      (.command .usermod guestRole))).map UserAccount.roles = some (false, false) := by
    decide +kernel
  rw [hnone] at hroles
  simp only [Option.map_some, Option.some.injEq, UserAccount.roles, Prod.mk.injEq] at hroles
  rcases hr with hr | hr
  · rw [hr] at hroles
    exact Bool.noConfusion hroles.1
  · rw [hr] at hroles
    exact Bool.noConfusion hroles.2

end Accounts
