import K64.AccountRuns
import K64.ShellAccounts
import Mathlib.Data.List.DropRight

/-! # Passwords that were accepted

The ways to set a password, and the `login` with the same texts: at once, and behind a restart. -/
namespace Accounts

/-- The first word, without the blanks in front of it. -/
def firstWord (args : Str) : Str := (userSkipWs args).takeWhile fun c => !isBlank c

def secondWord (args : Str) : Str := firstWord ((userSkipWs args).drop (firstWord args).length)

/-- What `install user` gives to `k64_user_create_account`. -/
def installUser (args : Str) : Str × Str × Bool :=
  let name := userNextToken 16 args
  let password := userNextToken 48 name.2
  let role := userNextToken 16 password.2
  (name.1, password.1, role.1 == [] || role.1 == sudoName)

/-- The ways to set a password, with the arguments as they are typed: those of `install user` are
what stands behind `user`, those of the wizard are its two fields. -/
inductive Entry where
  | useradd (args : Str)
  | passwd (args : Str)
  | installUser (args : Str)
  | wizard (name password : Str) (sudoer : Bool)

def Entry.name : Entry → Str
  | .useradd args | .passwd args | .installUser args => firstWord args
  | .wizard name _ _ => name

def Entry.password : Entry → Str
  | .useradd args | .passwd args | .installUser args => secondWord args
  | .wizard _ password _ => password

def Entry.loginArgs (e : Entry) : Str := e.name ++ 32 :: e.password

def Entry.loginName (e : Entry) : Str := (userNextToken userNameMax e.loginArgs).1

def Entry.loginPassword (e : Entry) : Str :=
  (userNextToken userPassMax (userNextToken userNameMax e.loginArgs).2).1

/-- The name and the password that are stored. -/
def Entry.given : Entry → Str × Str
  | .useradd args | .passwd args =>
    let name := userNextToken userNameMax args
    (name.1, (userNextToken userPassMax name.2).1)
  | .installUser args => ((Accounts.installUser args).1, (Accounts.installUser args).2.1)
  | .wizard name password _ => (name, password)

variable (s : UserState)

def passwdReports (args : Str) : Bool :=
  let name := userNextToken userNameMax args
  let password := userNextToken userPassMax name.2
  name.1 != [] && password.1 != [] && (userFind s name.1).isSome &&
    (userIsRoot s || (sessionAccount s).map UserAccount.name == some name.1)

def useraddReports (args : Str) : Bool :=
  let n := newAccountOf args
  userIsRoot s && n.name != [] && n.password != [] &&
    (userAddAccount s n.name n.password n.isRoot n.sudoer n.group false).1

/-- Whether success is reported, and the state behind it. -/
def Entry.apply : Entry → Bool × UserState
  | .useradd args => (useraddReports s args, userCommandUseradd s args)
  | .passwd args => (passwdReports s args, userCommandPasswd s args)
  | .installUser args =>
    let account := Accounts.installUser args
    userCreateAccount s account.1 account.2.1 account.2.2
  | .wizard name password sudoer => userCreateAccount s name password sudoer

/-- The account that is created or changed. -/
def Entry.target (e : Entry) : ℕ := (userFind s e.given.1).getD s.accounts.length

def Entry.LogsIn (e : Entry) (s' : UserState) : Prop :=
  loginIndex s' e.loginArgs = some (e.target s)

instance (e : Entry) (s' : UserState) : Decidable (e.LogsIn s s') :=
  inferInstanceAs (Decidable (loginIndex s' e.loginArgs = some (e.target s)))

/-- What `login` makes of the texts stands for what was stored. -/
structure Entry.Agrees (e : Entry) : Prop where
  name : e.loginName = e.given.1 ∨
    e.loginName = userCopy userNameMax e.given.1 ∧ userFind s e.given.1 = none ∧
      userFind s e.loginName = none
  password : e.loginPassword ≠ []
  hash : userHashPassword e.loginName e.loginPassword userPassMax =
    userHashPassword e.given.1 e.given.2 userPassMax

/-- A line that was typed has no newline. -/
def Entry.Typed : Entry → Prop
  | .useradd args | .passwd args | .installUser args => 10 ∉ args
  | .wizard name _ _ => 10 ∉ name

instance (e : Entry) : Decidable e.Typed :=
  match e with
  | .useradd args | .passwd args | .installUser args => inferInstanceAs (Decidable (10 ∉ args))
  | .wizard name _ _ => inferInstanceAs (Decidable (10 ∉ name))

def Change.Typed : Change → Prop
  | .command _ args => 10 ∉ args
  | _ => True

/-- A new account whose stored name is its own and can be read back from the file. -/
structure Plain (name : Str) : Prop where
  no_colon : 58 ∉ userCopy userNameMax name
  no_blank : 32 ∉ userCopy userNameMax name
  unused : userFind s name = none → userFind s (userCopy userNameMax name) = none

def Change.Plain : Change → Prop
  | .command .useradd args => 58 ∉ (newAccountOf args).name
  | _ => True

/-- The states that the commands, restarts and the installer lead to from the seeded accounts. -/
inductive Entered : UserState → Prop
  | seeded : Entered seeded
  | change {s : UserState} (c : Change) : Entered s → c.Typed → c.Plain → Entered (c.apply s)
  | create {s : UserState} (name password : Str) (sudoer : Bool) : Entered s → 10 ∉ name →
      Plain s name → Entered (userCreateAccount s name password sudoer).2

variable {s}
variable {s' t : UserState}

variable (l : Str)

theorem firstWord_skip : firstWord (userSkipWs l) = firstWord l := by
  rw [firstWord, firstWord, userSkipWs, userSkipWs, List.dropWhile_idempotent]

theorem firstWord_of_word {w : Str} (h : ∀ c ∈ w, isBlank c = false) {r : Str}
    (hr : r = [] ∨ ∃ c l, r = c :: l ∧ isBlank c = true) (hne : w ≠ []) :
    userSkipWs (w ++ r) = w ++ r ∧ firstWord (w ++ r) = w := by
  have hskip : userSkipWs (w ++ r) = w ++ r := by
    obtain ⟨c, l, rfl⟩ := List.exists_cons_of_ne_nil hne
    rw [userSkipWs, List.cons_append, List.dropWhile_cons_of_neg]
    rw [h c (List.mem_cons_self ..)]
    exact Bool.false_ne_true
  refine ⟨hskip, ?_⟩
  rw [firstWord, hskip, List.takeWhile_append_of_pos fun c hc => by rw [h c hc]; rfl]
  rcases hr with rfl | ⟨c, l, rfl, hc⟩
  · rw [List.takeWhile_nil, List.append_nil]
  · rw [List.takeWhile_cons_of_neg (by rw [hc]; exact Bool.false_ne_true), List.append_nil]

theorem firstWord_blankless : ∀ c ∈ firstWord l, isBlank c = false := by
  intro c hc
  simpa using List.mem_takeWhile_imp hc

theorem behind_firstWord : ∃ r, userSkipWs l = firstWord l ++ r ∧
    (r = [] ∨ ∃ c l, r = c :: l ∧ isBlank c = true) := by
  refine ⟨(userSkipWs l).dropWhile fun c => !isBlank c, (List.takeWhile_append_dropWhile ..).symm, ?_⟩
  cases hd : (userSkipWs l).dropWhile fun c => !isBlank c with
  | nil => exact .inl rfl
  | cons c r =>
    refine .inr ⟨c, r, rfl, ?_⟩
    have := List.head_dropWhile_not (fun c => !isBlank c) (l := userSkipWs l) (by rw [hd]; simp)
    simpa [hd] using this

theorem second_token (args : Str) : firstWord (userNextToken userNameMax args).2 =
    if (firstWord args).length ≤ 15 then secondWord args else (firstWord args).drop 15 := by
  obtain ⟨r, hr, hblank⟩ := behind_firstWord args
  have htoken : (userNextToken userNameMax args).1 = (firstWord args).take 15 := rfl
  change firstWord (userSkipWs ((userSkipWs args).drop ((firstWord args).take 15).length)) = _
  rw [firstWord_skip]
  split
  next hshort => rw [List.take_of_length_le hshort, secondWord]
  next hlong =>
    rw [List.length_take, Nat.min_eq_left (by omega), hr, List.drop_append_of_le_length (by omega)]
    refine (firstWord_of_word (fun c hc => ?_) hblank ?_).2
    · exact firstWord_blankless args c (List.mem_of_mem_drop hc)
    · rw [Ne, List.drop_eq_nil_iff]
      exact hlong

variable {args : Str}

theorem words_of_line (hne : firstWord args ≠ []) :
    firstWord (firstWord args ++ 32 :: secondWord args) = firstWord args ∧
      secondWord (firstWord args ++ 32 :: secondWord args) = secondWord args := by
  obtain ⟨hskip, hfirst⟩ := firstWord_of_word (firstWord_blankless args)
    (.inr ⟨32, secondWord args, rfl, by decide⟩) hne
  refine ⟨hfirst, ?_⟩
  rw [secondWord, hfirst, hskip, List.drop_left]
  have hblank : firstWord (32 :: secondWord args) = firstWord (secondWord args) := by
    rw [firstWord, firstWord, userSkipWs, userSkipWs, List.dropWhile_cons_of_pos (by decide)]
  rw [hblank]
  by_cases hs : secondWord args = []
  · rw [hs]
    rfl
  · have := (firstWord_of_word (firstWord_blankless _) (.inl rfl) hs).2
    rwa [List.append_nil] at this

theorem login_tokens (hne : firstWord args ≠ []) :
    (userNextToken userNameMax (firstWord args ++ 32 :: secondWord args)).1 =
        (userNextToken userNameMax args).1 ∧
      firstWord (userNextToken userNameMax (firstWord args ++ 32 :: secondWord args)).2 =
        firstWord (userNextToken userNameMax args).2 := by
  obtain ⟨hfirst, hsecond⟩ := words_of_line hne
  refine ⟨congrArg (List.take 15) hfirst, ?_⟩
  rw [second_token, second_token, hfirst, hsecond]

inductive Stored (s : UserState) (name hash : Str) : List UserAccount → Prop
  | changed {i : ℕ} (f : UserAccount → UserAccount) : userFind s name = some i →
      (∀ a, (f a).name = a.name) → (∀ a, a.name = name → (f a).password = hash) →
      Stored s name hash (s.accounts.modify i f)
  | added (a : UserAccount) : userFind s name = none → a.name = userCopy userNameMax name →
      a.password = hash → Stored s name hash (s.accounts ++ [a])

theorem userFind_names (s : UserState) (n : Str) :
    userFind s n = (s.accounts.map UserAccount.name).findIdx? (· == n) := by
  rw [List.findIdx?_map]
  rfl

theorem matches_hash {a : UserAccount} {n p q : Str}
    (h : a.password = userHashPassword n p userPassMax) : userPasswordMatches a q = true ↔
      userHashPassword a.name q userPassMax = userHashPassword n p userPassMax := by
  rw [userPasswordMatches, h, if_pos (hash_encoded n p).encoded, beq_iff_eq]
  exact eq_comm

theorem login_iff (s : UserState) (args : Str) (i : ℕ) :
    let name := userNextToken userNameMax args
    let password := (userNextToken userPassMax name.2).1
    loginIndex s args = some i ↔ name.1 ≠ [] ∧ password ≠ [] ∧ userFind s name.1 = some i ∧
      ∃ a, s.accounts[i]? = some a ∧ userPasswordMatches a password = true := by
  intro name password
  change (if name.1 = [] ∨ password = [] then none else _) = some i ↔ _
  by_cases hempty : name.1 = [] ∨ password = []
  · rw [if_pos hempty]
    constructor
    · intro h
      cases h
    · rintro ⟨hn, hp, -⟩
      exact absurd hempty (not_or.mpr ⟨hn, hp⟩)
  · rw [if_neg hempty, Option.filter_eq_some_iff]
    obtain ⟨hn, hp⟩ := not_or.mp hempty
    constructor
    · rintro ⟨hfind, hmatch⟩
      obtain ⟨a, ha, -⟩ := userFind_some hfind
      rw [ha] at hmatch
      exact ⟨hn, hp, hfind, a, ha, hmatch⟩
    · rintro ⟨-, -, hfind, a, ha, hmatch⟩
      exact ⟨hfind, by rw [ha]; exact hmatch⟩

theorem token_length (args : Str) : (userNextToken userNameMax args).1.length ≤ 15 :=
  List.length_take_le _ _

theorem login_changed {n p args : Str} {i : ℕ} {f : UserAccount → UserAccount} (hn : n ≠ [])
    (hfind : userFind s n = some i) (hname : ∀ a, (f a).name = a.name)
    (hpass : ∀ a, a.name = n → (f a).password = userHashPassword n p userPassMax)
    (hs' : s'.accounts = s.accounts.modify i f) :
    let m := (userNextToken userNameMax args).1
    let q := (userNextToken userPassMax (userNextToken userNameMax args).2).1
    loginIndex s' args = some i ↔
      m = n ∧ q ≠ [] ∧ userHashPassword m q userPassMax = userHashPassword n p userPassMax := by
  intro m q
  obtain ⟨a, ha, rfl⟩ := userFind_some hfind
  have hget : s'.accounts[i]? = some (f a) := by
    rw [hs', List.getElem?_modify, ha]
    exact congrArg some (if_pos rfl)
  have hsame : ∀ l, userFind s' l = userFind s l := fun l => by
    rw [userFind_names, userFind_names, hs', map_modify_same _ _ hname]
  refine (login_iff s' args i).trans ?_
  change m ≠ [] ∧ q ≠ [] ∧ userFind s' m = some i ∧ _ ↔ _
  rw [hsame]
  constructor
  · rintro ⟨-, hq, hm, b, hb, hmatch⟩
    obtain ⟨c, hc, hcm⟩ := userFind_some hm
    obtain rfl := Option.some.inj (ha.symm.trans hc)
    obtain rfl := Option.some.inj (hget.symm.trans hb)
    rw [matches_hash (hpass a rfl), hname] at hmatch
    exact ⟨hcm.symm, hq, hcm ▸ hmatch⟩
  · rintro ⟨hm, hq, hhash⟩
    refine ⟨hm ▸ hn, hq, hm ▸ hfind, f a, hget, ?_⟩
    rw [matches_hash (hpass a rfl), hname, ← hhash, hm]

theorem userFind_append (a : UserAccount) (hs' : s'.accounts = s.accounts ++ [a]) (m : Str) :
    userFind s' m = some s.accounts.length ↔ userFind s m = none ∧ a.name = m := by
  rw [userFind, hs', List.findIdx?_append]
  change (userFind s m).or _ = _ ↔ _
  cases hm : userFind s m with
  | some j =>
    have hlt := (List.findIdx?_eq_some_iff_getElem.mp hm).choose
    simp only [Option.some_or, Option.some.injEq, reduceCtorEq, false_and, iff_false]
    omega
  | none =>
    by_cases ha : a.name = m <;> simp [List.findIdx?_cons, ha]

theorem login_added {n p args : Str} {a : UserAccount} (hn : n ≠ [])
    (hfind : userFind s n = none) (hname : a.name = userCopy userNameMax n)
    (hpass : a.password = userHashPassword n p userPassMax) (hs' : s'.accounts = s.accounts ++ [a]) :
    let m := (userNextToken userNameMax args).1
    let q := (userNextToken userPassMax (userNextToken userNameMax args).2).1
    loginIndex s' args = some s.accounts.length ↔
      (m = n ∨ m = userCopy userNameMax n ∧ userFind s m = none) ∧ q ≠ [] ∧
        userHashPassword m q userPassMax = userHashPassword n p userPassMax := by
  intro m q
  have hget : s'.accounts[s.accounts.length]? = some a := by
    rw [hs', List.getElem?_concat_length]
  refine (login_iff s' args _).trans ?_
  change m ≠ [] ∧ q ≠ [] ∧ userFind s' m = _ ∧ _ ↔ _
  rw [userFind_append a hs']
  constructor
  · rintro ⟨-, hq, ⟨hnone, ham⟩, b, hb, hmatch⟩
    obtain rfl := Option.some.inj (hget.symm.trans hb)
    rw [matches_hash hpass, ham] at hmatch
    exact ⟨.inr ⟨ham.symm.trans hname, hnone⟩, hq, hmatch⟩
  · rintro ⟨hm, hq, hhash⟩
    have hboth : m = userCopy userNameMax n ∧ userFind s m = none := by
      rcases hm with hm | hm
      · refine ⟨?_, hm ▸ hfind⟩
        have hshort : n.length ≤ 15 := hm ▸ token_length args
        rw [hm]
        exact (List.take_of_length_le hshort).symm
      · exact hm
    have ham : a.name = m := hname.trans hboth.1.symm
    refine ⟨hboth.1 ▸ userCopy_ne_nil hn, hq, ⟨hboth.2, ham⟩, a, hget, ?_⟩
    rw [matches_hash hpass, ham]
    exact hhash

theorem login_stored_iff {n p args : Str} (hn : n ≠ [])
    (h : Stored s n (userHashPassword n p userPassMax) s'.accounts) :
    let m := (userNextToken userNameMax args).1
    let q := (userNextToken userPassMax (userNextToken userNameMax args).2).1
    loginIndex s' args = some ((userFind s n).getD s.accounts.length) ↔
      (m = n ∨ m = userCopy userNameMax n ∧ userFind s n = none ∧ userFind s m = none) ∧ q ≠ [] ∧
        userHashPassword m q userPassMax = userHashPassword n p userPassMax := by
  intro m q
  generalize hacc : s'.accounts = accounts at h
  cases h with
  | changed f hfind hname hpass =>
    rw [hfind]
    refine (login_changed hn hfind hname hpass hacc).trans ?_
    change m = n ∧ _ ↔ _
    refine and_congr_left' ⟨.inl, ?_⟩
    rintro (hm | ⟨-, hnone, -⟩)
    · exact hm
    · cases hnone
  | added a hfind hname hpass =>
    rw [hfind]
    refine (login_added hn hfind hname hpass hacc).trans ?_
    exact and_congr_left' (or_congr_right (and_congr_right' (iff_and_self.mpr fun _ => rfl)))

theorem ensure_accounts (h : ∀ a ∈ s.accounts, a.primaryGroup ≠ []) (i : ℕ) :
    (userEnsurePrimaryGroup s i).accounts = s.accounts := by
  unfold userEnsurePrimaryGroup
  split
  · rfl
  next a ha =>
    simp only [if_neg (h a (List.mem_of_getElem? ha))]
    rw [(groupSetMembership_frame ..).accounts, (groupAddInternal_frame ..).accounts]
    exact modify_same _ _ _ fun x hx => by rw [← Option.some.inj (ha.symm.trans hx)]

theorem refreshed_accounts (h : ∀ a ∈ s.accounts, a.primaryGroup ≠ []) :
    (userSyncRoleGroups (userEnsurePrimaryGroups s)).accounts = s.accounts := by
  rw [(userSyncRoleGroups_frame _).accounts, userEnsurePrimaryGroups]
  generalize List.range s.accounts.length = l
  induction l generalizing s with
  | nil => rfl
  | cons i l ih =>
    have hi := ensure_accounts h i
    exact (ih (by rwa [hi])).trans hi

theorem stored_false (n p : Str) :
    userStorePassword userPassMax n p false = userHashPassword n p userPassMax := rfl

theorem addRefreshed_stored (hf : Formed s) {n : NewAccount} (hgroup : n.group ≠ [])
    (hok : (userAddAccount s n.name n.password n.isRoot n.sudoer n.group false).1 = true) :
    n.name ≠ [] ∧ Stored s n.name (userHashPassword n.name n.password userPassMax)
      (addRefreshed s n).accounts := by
  have hprimary : ∀ a ∈ s.accounts, a.primaryGroup ≠ [] := fun a ha =>
    (hf.accounts a ha).primary.nonempty
  have hcopy : userCopy groupNameMax (if n.group = [] then n.name else n.group) ≠ [] := by
    rw [if_neg hgroup]
    exact userCopy_ne_nil hgroup
  have hframe := (primaryAdded_frame s n.group).accounts
  rw [addRefreshed]
  simp only [if_pos hok]
  rcases userAddAccount_cases s n.name n.password n.isRoot n.sudoer n.group false with
    ⟨hno, -⟩ | ⟨i, -, hname, -, -, hfind, hset⟩ | ⟨-, hname, -, -, hfind, -, happend⟩
  · rw [hno] at hok
    cases hok
  · refine ⟨hname, ?_⟩
    rw [hset, refreshed_accounts fun a ha => ?_]
    · rw [UserState.setAccount, hframe]
      exact .changed _ hfind (fun _ => rfl) fun _ _ => rfl
    · rcases mem_setAccount ha with ha | ⟨b, -, rfl⟩
      · exact hprimary a (hframe ▸ ha)
      · exact hcopy
  · refine ⟨hname, ?_⟩
    rw [happend, refreshed_accounts fun a ha => ?_]
    · exact .added _ hfind rfl rfl
    · rcases List.mem_append.mp ha with ha | ha
      · exact hprimary a ha
      · rw [List.mem_singleton.mp ha]
        exact hcopy

theorem useradd_runs (h : useraddReports s args = true) :
    userCommandUseradd s args = addRefreshed s (newAccountOf args) ∧
      (newAccountOf args).name ≠ [] ∧ (newAccountOf args).password ≠ [] := by
  simp only [useraddReports, Bool.and_eq_true, bne_iff_ne] at h
  obtain ⟨⟨⟨hroot, hname⟩, hpassword⟩, -⟩ := h
  refine ⟨?_, hname, hpassword⟩
  have hright : ¬ userIsRoot s = false := by simp [hroot]
  simp only [newAccountOf] at hname hpassword
  simp only [userCommandUseradd, if_neg hright, newAccountOf]
  generalize userNextToken userNameMax args = name at hname hpassword ⊢
  generalize userNextToken userPassMax name.2 = password at hpassword ⊢
  rw [if_neg (not_or.mpr ⟨hname, hpassword⟩)]
  rfl

variable {name : Str}

theorem create_runs {password : Str} {sudoer : Bool}
    (h : (userCreateAccount s name password sudoer).1 = true) :
    (userCreateAccount s name password sudoer).2 = addRefreshed s (installed name password sudoer) ∧
      name ≠ [] ∧ password ≠ [] ∧
      (userAddAccount s name password false sudoer (userCopy groupNameMax name) false).1 = true := by
  unfold userCreateAccount at h
  split at h
  · cases h
  next hempty =>
    simp only at h
    simp only [not_or] at hempty
    split at h
    next hok =>
      exact ⟨createAccount_made s (by simpa only [not_or] using hempty) sudoer, hempty.2.1,
        hempty.2.2, hok⟩
    · cases h

theorem accepted_stored (hf : Formed s) (e : Entry) (h : (e.apply s).1 = true) :
    e.given.1 ≠ [] ∧ Stored s e.given.1 (userHashPassword e.given.1 e.given.2 userPassMax)
      (e.apply s).2.accounts := by
  have hcreate : ∀ {name password : Str} {sudoer : Bool},
      (userCreateAccount s name password sudoer).1 = true → name ≠ [] ∧
        Stored s name (userHashPassword name password userPassMax)
          (userCreateAccount s name password sudoer).2.accounts := by
    intro name password sudoer hok
    obtain ⟨hrun, hname, -, hadd⟩ := create_runs hok
    rw [hrun]
    exact addRefreshed_stored (n := installed name password sudoer) hf (userCopy_ne_nil hname) hadd
  cases e with
  | useradd args =>
    obtain ⟨hrun, hname, -⟩ := useradd_runs h
    simp only [Entry.apply] at h ⊢
    rw [hrun]
    refine addRefreshed_stored (n := newAccountOf args) hf (new_group_ne_nil hname) ?_
    simp only [useraddReports, Bool.and_eq_true] at h
    exact h.2
  | passwd args =>
    simp only [Entry.apply, passwdReports, Bool.and_eq_true, Bool.or_eq_true, bne_iff_ne,
      beq_iff_eq] at h
    obtain ⟨⟨⟨hname, hpassword⟩, hfound⟩, hright⟩ := h
    obtain ⟨i, hi⟩ := Option.isSome_iff_exists.mp hfound
    refine ⟨hname, ?_⟩
    have hrefused : ¬ (userIsRoot s = false ∧ (sessionAccount s).map UserAccount.name ≠
        some (userNextToken userNameMax args).1) := by
      rintro ⟨hroot, hother⟩
      rcases hright with h | h
      · rw [hroot] at h
        cases h
      · exact hother h
    have hrun : userCommandPasswd s args = s.setAccount i fun a => { a with
        password := userStorePassword userPassMax a.name
          (userNextToken userPassMax (userNextToken userNameMax args).2).1 false } := by
      rw [userCommandPasswd]
      simp only [if_neg (not_or.mpr ⟨hname, hpassword⟩), hi, if_neg hrefused]
    simp only [Entry.apply]
    rw [hrun]
    exact .changed _ hi (fun _ => rfl) fun a ha => by rw [stored_false, ha]; rfl
  | installUser args => exact hcreate h
  | wizard name password sudoer => exact hcreate h

theorem logs_in_now_iff (hf : Formed s) (e : Entry) (h : (e.apply s).1 = true) :
    e.LogsIn s (e.apply s).2 ↔ e.Agrees s := by
  obtain ⟨hname, hstored⟩ := accepted_stored hf e h
  refine (login_stored_iff hname hstored).trans ⟨?_, ?_⟩
  · rintro ⟨hn, hq, hhash⟩
    exact ⟨hn, hq, hhash⟩
  · rintro ⟨hn, hq, hhash⟩
    exact ⟨hn, hq, hhash⟩

structure UserAccount.Readable (a : UserAccount) : Prop where
  no_colon : 58 ∉ a.name
  name_line : 10 ∉ a.name
  group_line : 10 ∉ a.primaryGroup

structure Loadable (s : UserState) : Prop where
  formed : Formed s
  names : (s.accounts.map UserAccount.name).Nodup
  readable : ∀ a ∈ s.accounts, a.Readable

def UserAccount.credentials (a : UserAccount) : Str × Str := (a.name, a.password)

/-- Some accounts have been read, with primary groups that may have been cut off at a colon. -/
structure Reading (t : UserState) (done : List UserAccount) : Prop where
  formed : Formed t
  groups : t.groups.length ≤ t.accounts.length
  credentials : t.accounts.map UserAccount.credentials = done.map UserAccount.credentials
  readable : ∀ a ∈ t.accounts, a.Readable

variable {a : UserAccount} {done : List UserAccount}

theorem names_of_credentials {l l' : List UserAccount}
    (h : l.map UserAccount.credentials = l'.map UserAccount.credentials) :
    l.map UserAccount.name = l'.map UserAccount.name := by
  have := congrArg (List.map Prod.fst) h
  rwa [List.map_map, List.map_map] at this

theorem Loadable.same_names (hl : Loadable s) (hf : Formed s')
    (hnames : s'.accounts.map UserAccount.name = s.accounts.map UserAccount.name)
    (hgroups : ∀ a ∈ s'.accounts, 10 ∉ a.primaryGroup) : Loadable s' := by
  refine ⟨hf, hnames ▸ hl.names, fun a ha => ?_⟩
  have hmem : a.name ∈ s.accounts.map UserAccount.name := hnames ▸ List.mem_map_of_mem ha
  obtain ⟨b, hb, hname⟩ := List.mem_map.mp hmem
  have hr := hl.readable b hb
  exact ⟨hname ▸ hr.no_colon, hname ▸ hr.name_line, hgroups a ha⟩

theorem Loadable.same_accounts (hl : Loadable s) (hf : Formed s') (h : s'.accounts = s.accounts) :
    Loadable s' :=
  hl.same_names hf (by rw [h]) fun a ha => (hl.readable a (h ▸ ha)).group_line

theorem Loadable.setAccount (hl : Loadable s) {i : ℕ} {f : UserAccount → UserAccount}
    (hf : Formed s') (h : s'.accounts = s.accounts.modify i f) (hname : ∀ a, (f a).name = a.name)
    (hgroup : ∀ a ∈ s.accounts, 10 ∉ (f a).primaryGroup) : Loadable s' := by
  refine hl.same_names hf (by rw [h, map_modify_same _ _ hname]) fun b hb => ?_
  rw [h] at hb
  rcases mem_setAccount (s := s) hb with hb | ⟨a, ha, rfl⟩
  · exact (hl.readable b hb).group_line
  · exact hgroup a (List.mem_of_getElem? ha)

theorem loadable_addRefreshed (hl : Loadable s) {n : NewAccount} (hne : n.name ≠ [])
    (hp : Plain s n.name) (hline : 10 ∉ n.name) (hgroup : ShortName n.group)
    (hgroupline : 10 ∉ n.group) : Loadable (addRefreshed s n) := by
  have hf := formed_addRefreshed hl.formed hne hp.no_blank hgroup
  have hcopy : userCopy groupNameMax (if n.group = [] then n.name else n.group) = n.group := by
    rw [if_neg hgroup.nonempty, hgroup.copy]
  have hframe := (primaryAdded_frame s n.group).accounts
  have hprimary : ∀ a ∈ s.accounts, a.primaryGroup ≠ [] := fun a ha =>
    (hl.formed.accounts a ha).primary.nonempty
  have hcases := userAddAccount_cases s n.name n.password n.isRoot n.sudoer n.group false
  simp only [hcopy] at hcases
  rcases hcases with ⟨hno, hsame⟩ | ⟨i, hok, -, -, -, -, hset⟩ | ⟨hok, -, -, -, hfind, -, happend⟩
  · refine hl.same_accounts hf ?_
    rw [addRefreshed]
    simp only [hno, Bool.false_eq_true, if_false]
    exact (refused_frame hsame).accounts
  · refine hl.setAccount hf (i := i) (f := fun a => { a with
      password := userStorePassword userPassMax n.name n.password false, isRoot := n.isRoot,
      sudoer := n.sudoer || n.isRoot, primaryGroup := n.group }) ?_ (fun _ => rfl)
      fun _ _ => hgroupline
    rw [addRefreshed]
    simp only [if_pos hok]
    rw [hset, refreshed_accounts fun a ha => ?_]
    · exact congrArg (List.modify · i _) hframe
    · rcases mem_setAccount ha with ha | ⟨b, -, rfl⟩
      · exact hprimary a (hframe ▸ ha)
      · exact hgroup.nonempty
  · have hacc : (addRefreshed s n).accounts = s.accounts ++ [⟨userCopy userNameMax n.name,
        userStorePassword userPassMax n.name n.password false, n.group, n.isRoot,
        n.sudoer || n.isRoot⟩] := by
      rw [addRefreshed]
      simp only [if_pos hok]
      rw [happend, refreshed_accounts fun a ha => ?_]
      rcases List.mem_append.mp ha with ha | ha
      · exact hprimary a ha
      · rw [List.mem_singleton.mp ha]
        exact hgroup.nonempty
    refine ⟨hf, ?_, fun a ha => ?_⟩
    · rw [hacc, List.map_append]
      refine List.nodup_append.mpr ⟨hl.names, List.nodup_singleton _, fun b hb c hc => ?_⟩
      rw [List.mem_singleton.mp hc]
      rintro rfl
      exact userFind_none (hp.unused hfind) hb
    · rw [hacc] at ha
      rcases List.mem_append.mp ha with ha | ha
      · exact hl.readable a ha
      · rw [List.mem_singleton.mp ha]
        exact ⟨hp.no_colon, fun hm => hline (List.mem_of_mem_take hm), hgroupline⟩

theorem token_mem {size : ℕ} {c : UInt8} (h : c ∈ (userNextToken size args).1) :
    c ∈ args :=
  (List.dropWhile_sublist _).subset ((List.takeWhile_sublist _).subset (List.mem_of_mem_take h))

theorem rest_mem {size : ℕ} {c : UInt8} (h : c ∈ (userNextToken size args).2) :
    c ∈ args :=
  (List.dropWhile_sublist _).subset
    (List.mem_of_mem_drop ((List.dropWhile_sublist _).subset h))

theorem loadable_create (hl : Loadable s) (password : Str) (sudoer : Bool)
    (hline : 10 ∉ name) (hp : Plain s name) :
    Loadable (userCreateAccount s name password sudoer).2 := by
  rcases userCreateAccount_cases s name password sudoer with hsame | ⟨-, hne, -, hadd⟩
  · rwa [hsame]
  · rw [hadd]
    exact loadable_addRefreshed (n := installed name password sudoer) hl hne hp hline (copy_short hne)
      fun hm => hline (List.mem_of_mem_take hm)

theorem token_copy (args : Str) :
    userCopy userNameMax (userNextToken userNameMax args).1 = (userNextToken userNameMax args).1 :=
  List.take_of_length_le (token_length args)

theorem loadable_useradd (hl : Loadable s) (hline : 10 ∉ args)
    (hcolon : 58 ∉ (newAccountOf args).name) : Loadable (userCommandUseradd s args) := by
  rcases userCommandUseradd_cases s args with hsame | ⟨-, hne, -, hadd⟩
  · rwa [hsame]
  · have hcopy : userCopy userNameMax (newAccountOf args).name = (newAccountOf args).name :=
      token_copy args
    rw [hadd]
    refine loadable_addRefreshed hl hne ⟨?_, ?_, ?_⟩ (fun hm => hline (token_mem hm))
      (new_group_short hne) ?_
    · rwa [hcopy]
    · rw [hcopy]
      exact token_no_blank args userNameMax
    · rw [hcopy]
      exact id
    · simp only [newAccountOf]
      split
      · exact fun hm => hline (token_mem (List.mem_of_mem_take hm))
      · exact fun hm => hline (rest_mem (rest_mem (rest_mem (token_mem hm))))

theorem loadable_modify (hl : Loadable s) (m : Modification) (i : ℕ) (name : Str) {value : Str}
    (hvalue : ShortName value) (hline : 10 ∉ value) : Loadable (modify s m i name value) := by
  have hf := formed_modify hl.formed m i name hvalue
  cases m with
  | role =>
    exact hl.setAccount hf (userSyncRoleGroups_frame _).accounts (fun _ => rfl)
      fun a ha => (hl.readable a ha).group_line
  | primary =>
    have hadd := (groupAddInternal_frame s value).accounts
    simp only [modify] at hf ⊢
    split at hf
    next hno =>
      rw [if_pos hno]
      exact hl.same_accounts hf hadd
    next hok =>
      rw [if_neg hok]
      refine hl.setAccount hf (i := i) (f := fun a => { a with
        primaryGroup := userCopy groupNameMax value }) ?_ (fun _ => rfl)
        fun _ _ hm => hline (List.mem_of_mem_take hm)
      rw [(groupSetMembership_frame ..).accounts]
      exact congrArg (List.modify · i _) hadd
  | groupadd => exact hl.same_accounts hf (userAddToGroup_frame s name value).accounts
  | groupdel => exact hl.same_accounts hf (userRemoveFromGroup_frame s name value).accounts

theorem loadable_command (hl : Loadable s) (c : Command) (hline : 10 ∉ args)
    (hp : (Change.command c args).Plain) : Loadable (c.run s args) := by
  have hf := formed_command hl.formed c args
  cases c with
  | print => exact hl
  | login | su =>
    refine hl.same_accounts hf ?_
    simp only [Command.run, userCommandLoginLike]
    split <;> rfl
  | logout => exact hl.same_accounts hf rfl
  | sudoMode =>
    refine hl.same_accounts hf ?_
    simp only [Command.run, userCommandSudo]
    repeat' split
    all_goals rfl
  | passwd =>
    rcases userCommandPasswd_cases s args with hsame | ⟨i, password, hset⟩
    · exact hl.same_accounts hf (congrArg UserState.accounts hsame)
    · exact hl.setAccount hf (congrArg UserState.accounts hset) (fun _ => rfl)
        fun a ha => (hl.readable a ha).group_line
  | useradd => exact loadable_useradd hl hline hp
  | userdel =>
    simp only [Command.run, userCommandUserdel] at hf ⊢
    split at hf
    · exact hl
    next d hd =>
      have hsub : (deleteAccount s d).accounts.Sublist s.accounts := List.eraseIdx_sublist ..
      exact ⟨hf, hl.names.sublist (hsub.map _), fun a ha => hl.readable a (hsub.subset ha)⟩
  | usermod =>
    rcases userCommandUsermod_cases s args with hsame | ⟨i, m, -, -, hvalue, -, -, hmod⟩
    · exact hl.same_accounts hf (congrArg UserState.accounts hsame)
    · change Loadable (userCommandUsermod s args)
      rw [hmod]
      exact loadable_modify hl m i _ (usermod_value_short hvalue)
        fun hm => hline (rest_mem (rest_mem (token_mem hm)))
  | groupadd => exact hl.same_accounts hf (userCommandGroupadd_frame s args).accounts
  | groupdel => exact hl.same_accounts hf (userCommandGroupdel_frame s args).accounts
  | gpasswd => exact hl.same_accounts hf (userCommandGpasswd_frame s args).accounts

theorem accountLine_eq (a : UserAccount) : accountLine a = a.name ++ 58 :: (a.password ++
    58 :: (roleWord a ++ 58 :: (sudoerWord a ++ 58 :: a.primaryGroup))) := by
  simp [accountLine, accountFields, List.intercalate]

theorem splitOn_accountLine (hf : a.Formed) (hname : 58 ∉ a.name) : (accountLine a).splitOn 58 =
    a.name :: a.password :: roleWord a :: sudoerWord a :: a.primaryGroup.splitOn 58 := by
  have hrole : 58 ∉ roleWord a := by
    cases ha : a.isRoot <;> simp [roleWord, rootName, ha]
  have hsudoer : 58 ∉ sudoerWord a := by
    cases ha : a.sudoer <;> simp [sudoerWord, ha]
  rw [accountLine_eq, List.splitOn_append_cons_self_of_not_mem hname,
    List.splitOn_append_cons_self_of_not_mem hf.password.no_colon,
    List.splitOn_append_cons_self_of_not_mem hrole,
    List.splitOn_append_cons_self_of_not_mem hsudoer]

theorem splitOn_head : ∃ rest, l.splitOn 58 = (l.takeWhile fun c => c != 58) :: rest := by
  have hno : 58 ∉ l.takeWhile fun c => c != 58 := fun hm => by
    have := List.mem_takeWhile_imp hm
    simp at this
  have hsplit := List.takeWhile_append_dropWhile (p := fun c => c != 58) (l := l)
  cases hd : l.dropWhile fun c => c != 58 with
  | nil =>
    rw [hd, List.append_nil] at hsplit
    rw [hsplit] at hno ⊢
    exact ⟨[], List.splitOn_eq_singleton hno⟩
  | cons c r =>
    have hc := List.head_dropWhile_not (fun c => c != 58) (l := l) (by rw [hd]; simp)
    simp only [hd, List.head_cons, bne_eq_false_iff_eq] at hc
    rw [hd, hc] at hsplit
    refine ⟨r.splitOn 58, ?_⟩
    conv_lhs => rw [← hsplit]
    exact List.splitOn_append_cons_self_of_not_mem hno r

theorem loadAccountLine_account (hf : a.Formed) (hr : a.Readable) :
    ∃ group, ShortName group ∧ 10 ∉ group ∧ ∀ t, loadAccountLine t (accountLine a) =
      (userAddAccount t a.name a.password a.isRoot a.sudoer group true).2 := by
  obtain ⟨rest, hrest⟩ := splitOn_head a.primaryGroup
  have hfield : ∀ i, lineField (accountLine a) i = (((a.name :: a.password :: roleWord a ::
      sudoerWord a :: (a.primaryGroup.takeWhile fun c => c != 58) :: rest)[i]?).getD []).take 31 := by
    intro i
    rw [lineField, splitOn_accountLine hf hr.no_colon, hrest]
  have h0 : lineField (accountLine a) 0 = a.name :=
    (hfield 0).trans (List.take_of_length_le (hf.name.short.trans (by decide)))
  have h1 : lineField (accountLine a) 1 = a.password :=
    (hfield 1).trans (List.take_of_length_le (hf.password.length.le.trans (by decide)))
  have h2 : (lineField (accountLine a) 2 == rootName) = a.isRoot := by
    rw [hfield]
    cases ha : a.isRoot <;> simp [roleWord, rootName, ha]
  have h3 : ((lineField (accountLine a) 3).head? == some 49) = a.sudoer := by
    rw [hfield]
    cases ha : a.sudoer <;> simp [sudoerWord, ha]
  have hcut := List.takeWhile_sublist (p := fun c => c != 58) (l := a.primaryGroup)
  have h4 : lineField (accountLine a) 4 = a.primaryGroup.takeWhile fun c => c != 58 :=
    (hfield 4).trans (List.take_of_length_le
      ((hcut.length_le.trans hf.primary.short).trans (by decide)))
  refine ⟨if lineField (accountLine a) 4 = [] then a.name else lineField (accountLine a) 4, ?_, ?_,
    fun t => ?_⟩
  · split
    · exact hf.name
    next hne => exact ⟨hne, by rw [h4]; exact hcut.length_le.trans hf.primary.short⟩
  · split
    · exact hr.name_line
    · rw [h4]
      exact fun hm => hr.group_line (hcut.subset hm)
  · rw [loadAccountLine]
    simp only [h0, h1, h2, h3, hf.password.encoded]
    rw [if_neg (not_or.mpr ⟨hf.name.nonempty, hf.password_nonempty⟩)]

theorem groupAdd_grows (hne : name ≠ []) (hroom : t.groups.length < groupMax) :
    (groupAddInternal t name).1 = true ∧
      (groupAddInternal t name).2.groups.length ≤ t.groups.length + 1 := by
  rw [groupAddInternal, if_neg hne]
  split
  · exact ⟨rfl, Nat.le_succ _⟩
  · rw [if_neg (not_le.mpr hroom)]
    exact ⟨rfl, (List.length_append ..).le⟩

theorem Reading.add (h : Reading t done) (hf : a.Formed) (hr : a.Readable)
    (hnew : a.name ∉ done.map UserAccount.name) (hroom : done.length < userMaxAccounts) :
    Reading (loadAccountLine t (accountLine a)) (done ++ [a]) := by
  obtain ⟨group, hgroup, hline, hload⟩ := loadAccountLine_account hf hr
  have hlen : t.accounts.length = done.length := by
    simpa using congrArg List.length h.credentials
  have hgroups := h.groups
  obtain ⟨hok, hgrow⟩ := groupAdd_grows (t := t) hgroup.nonempty (by
    simp only [userMaxAccounts, groupMax] at hroom ⊢
    omega)
  have hframe := groupAddInternal_frame t group
  have hfind : userFind (groupAddInternal t group).2 a.name = none := by
    rw [userFind_names, hframe.accounts, names_of_credentials h.credentials,
      List.findIdx?_eq_none_iff]
    exact fun n hn => beq_eq_false_iff_ne.mpr fun he => hnew (he ▸ hn)
  have hname : userCopy userNameMax a.name = a.name := List.take_of_length_le hf.name.short
  have hrun : loadAccountLine t (accountLine a) = { (groupAddInternal t group).2 with
      accounts := t.accounts ++
        [⟨a.name, a.password, group, a.isRoot, a.sudoer || a.isRoot⟩] } := by
    rw [hload t, userAddAccount, if_neg (not_or.mpr ⟨hf.name.nonempty, hf.password_nonempty⟩)]
    simp only [if_neg hgroup.nonempty, hok, hfind, hf.password_stored, hframe.accounts, Bool.true_eq_false,
      if_false, if_neg (not_le.mpr (hlen ▸ hroom)), hname, hgroup.copy]
  have hadd := formed_add h.formed hgroup
  rw [hrun]
  refine ⟨⟨⟨?_, hadd.fits.groups⟩, fun b hb => ?_, hadd.groups⟩, ?_, ?_, fun b hb => ?_⟩
  · change (t.accounts ++ _).length ≤ _
    rw [List.length_append, hlen]
    exact hroom
  · rcases List.mem_append.mp hb with hb | hb
    · exact h.formed.accounts b hb
    · rw [List.mem_singleton.mp hb]
      refine ⟨hf.name, hf.no_blank, hgroup, hf.password, fun hroot => ?_⟩
      simp only at hroot
      simp [hroot]
  · change _ ≤ (t.accounts ++ _).length
    rw [List.length_append]
    exact hgrow.trans (Nat.add_le_add_right hgroups 1)
  · rw [List.map_append, List.map_append, h.credentials]
    rfl
  · rcases List.mem_append.mp hb with hb | hb
    · exact h.readable b hb
    · rw [List.mem_singleton.mp hb]
      exact ⟨hr.no_colon, hr.name_line, hline⟩

theorem Reading.file (h : Reading t done) (l : List UserAccount) (hf : ∀ a ∈ l, a.Formed)
    (hr : ∀ a ∈ l, a.Readable) (hnodup : ((done ++ l).map UserAccount.name).Nodup)
    (hroom : (done ++ l).length ≤ userMaxAccounts) :
    Reading ((l.map accountLine).foldl loadAccountLine t) (done ++ l) := by
  induction l generalizing t done with
  | nil =>
    rw [List.append_nil]
    exact h
  | cons a l ih =>
    have ha := List.mem_cons_self (a := a) (l := l)
    have hnew : a.name ∉ done.map UserAccount.name := by
      rw [List.map_append, List.map_cons] at hnodup
      exact fun hin => (List.nodup_append.mp hnodup).2.2 _ hin _ (List.mem_cons_self ..) rfl
    have hlt : done.length < userMaxAccounts := by
      rw [List.length_append, List.length_cons] at hroom
      omega
    have hstep := h.add (hf a ha) (hr a ha) hnew hlt
    have happend : done ++ a :: l = done ++ [a] ++ l := by
      rw [List.append_assoc, List.singleton_append]
    rw [happend] at hnodup hroom ⊢
    exact ih hstep (fun b hb => hf b (List.mem_cons_of_mem _ hb))
      (fun b hb => hr b (List.mem_cons_of_mem _ hb)) hnodup hroom

structure GroupsLoaded (t t' : UserState) : Prop where
  frame : OnlyGroups t t'
  formed : Formed t → Formed t'

theorem GroupsLoaded.fold {α : Type} {f : UserState → α → UserState}
    (h : ∀ t x, GroupsLoaded t (f t x)) (l : List α) (t : UserState) :
    GroupsLoaded t (l.foldl f t) := by
  induction l generalizing t with
  | nil => exact ⟨.refl t, id⟩
  | cons x l ih =>
    exact ⟨(h t x).frame.trans (ih _).frame, fun hf => (ih _).formed ((h t x).formed hf)⟩

theorem groupsLoaded_member (group name : Str) (t : UserState) :
    GroupsLoaded t (addMember group name t) := by
  unfold addMember
  split
  · exact ⟨.refl t, id⟩
  · exact ⟨groupSetMembership_frame .., fun hf => formed_setMembership hf ..⟩

theorem groupsLoaded_line (t : UserState) (line : Str) : GroupsLoaded t (loadGroupLine t line) := by
  simp only [loadGroupLine]
  split
  · exact ⟨.refl t, id⟩
  next hne =>
    have hshort : ShortName (userCopy groupNameMax (line.takeWhile fun c => c != 58)) :=
      copy_short fun he => hne (by rw [he]; rfl)
    generalize userCopy groupNameMax (line.takeWhile fun c => c != 58) = name at hshort ⊢
    have hadd : GroupsLoaded t (groupAddInternal t name).2 :=
      ⟨groupAddInternal_frame .., fun hf => formed_add hf hshort⟩
    split
    · exact hadd
    · generalize userCopy 96 _ = members
      have hfold := GroupsLoaded.fold (fun t user => groupsLoaded_member name user t)
        (splitMembers members.length members) (groupAddInternal t name).2
      exact ⟨hadd.frame.trans hfold.frame, fun hf => hfold.formed (hadd.formed hf)⟩

theorem groupsLoaded_db (t : UserState) (text : Str) :
    GroupsLoaded t (if text = [] then t else (dbLines text).foldl loadGroupLine t) := by
  split
  · exact ⟨.refl t, id⟩
  · exact .fold groupsLoaded_line _ _

theorem loadGroupsDb_formed (hf : Formed t) (text : Str) :
    (userLoadGroupsDb t text).accounts = t.accounts ∧ Formed (userLoadGroupsDb t text) := by
  have hdb := groupsLoaded_db t text
  have hf' := hdb.formed hf
  refine ⟨?_, formed_refresh hf'⟩
  rw [userLoadGroupsDb, refreshed_accounts fun a ha => (hf'.accounts a ha).primary.nonempty]
  exact hdb.frame.accounts

theorem loadGroupsDb_names (t : UserState) (text : Str) :
    (userLoadGroupsDb t text).accounts.map UserAccount.name = t.accounts.map UserAccount.name := by
  rw [userLoadGroupsDb, (refreshed_keeps_roles _).names, (groupsLoaded_db t text).frame.accounts]

theorem defaults_loadable : Loadable (userSeedDefaults bootState) := by
  have hread : ∀ a ∈ (userSeedDefaults bootState).accounts,
      58 ∉ a.name ∧ 10 ∉ a.name ∧ 10 ∉ a.primaryGroup := by
    decide +kernel
  refine ⟨SameDatabase.formed (s := seeded) ⟨rfl, rfl⟩ seeded_formed, by decide +kernel, ?_⟩
  exact fun a ha => ⟨(hread a ha).1, (hread a ha).2.1, (hread a ha).2.2⟩

theorem serviceStart_database (t : UserState) (users groups : Str) :
    SameDatabase (userLoadGroupsDb (userLoadDb t users) groups)
      (userServiceStart t (some (users, groups))) := ⟨rfl, rfl⟩

theorem restart_database (s : UserState) :
    SameDatabase (userLoadGroupsDb (userLoadDb bootState (userDbText s)) (groupDbText s)) (restart s) :=
  serviceStart_database bootState (userDbText s) (groupDbText s)

theorem Loadable.credentials_kept (hl : Loadable s) (hne : s.accounts ≠ []) :
    Loadable (restart s) ∧ (restart s).accounts.map UserAccount.credentials =
      s.accounts.map UserAccount.credentials := by
  have hstart : Reading (userResetState bootState) [] :=
    ⟨⟨⟨Nat.zero_le _, Nat.zero_le _⟩, fun _ h => absurd h List.not_mem_nil,
      fun _ h => absurd h List.not_mem_nil⟩, le_rfl, rfl, fun _ h => absurd h List.not_mem_nil⟩
  have hread := hstart.file s.accounts hl.formed.accounts hl.readable hl.names hl.formed.fits.accounts
  rw [List.nil_append] at hread
  have hlines : dbLines (userDbText s) = s.accounts.map accountLine :=
    dbLines_accounts hl.formed fun a ha =>
      ⟨(hl.readable a ha).name_line, (hl.readable a ha).group_line⟩
  have htext : userDbText s ≠ [] := by
    rw [userDbText_lines hl.formed]
    exact fileText_ne_nil (by simpa using hne)
  have hdb : userLoadDb bootState (userDbText s) =
      (s.accounts.map accountLine).foldl loadAccountLine (userResetState bootState) := by
    rw [userLoadDb, if_neg htext, hlines]
    refine if_neg fun hempty => hne ?_
    have := congrArg List.length hread.credentials
    rw [List.length_map, List.length_map, hempty] at this
    exact List.length_eq_zero_iff.mp this.symm
  rw [← hdb] at hread
  obtain ⟨hacc, hf⟩ := loadGroupsDb_formed hread.formed (groupDbText s)
  have hcred : (restart s).accounts.map UserAccount.credentials =
      s.accounts.map UserAccount.credentials := by
    rw [(restart_database s).accounts, hacc, hread.credentials]
  refine ⟨⟨(restart_database s).formed hf, ?_, fun a ha => ?_⟩, hcred⟩
  · rw [names_of_credentials hcred]
    exact hl.names
  · rw [(restart_database s).accounts, hacc] at ha
    exact hread.readable a ha

theorem loadable_restart (hl : Loadable s) : Loadable (restart s) := by
  by_cases hne : s.accounts = []
  · have hload : userLoadDb bootState (userDbText s) = userSeedDefaults bootState := by
      rw [userDbText, hne]
      rfl
    obtain ⟨hacc, hf⟩ := loadGroupsDb_formed defaults_loadable.formed (groupDbText s)
    rw [← hload] at hacc hf
    refine defaults_loadable.same_accounts ((restart_database s).formed hf) ?_
    rw [(restart_database s).accounts, hacc, hload]
  · exact (hl.credentials_kept hne).1

theorem loadable_run (h : Entered s) : Loadable s := by
  induction h with
  | seeded => exact defaults_loadable.same_accounts seeded_formed rfl
  | @change s c _ ht hp ih =>
    cases c with
    | command c args => exact loadable_command ih c ht hp
    | beginSudoScope =>
      have hsame := scope_same (s := s) .beginSudoScope (.inl rfl)
      exact ih.same_accounts (hsame.formed ih.formed) hsame.accounts
    | endSudoScope =>
      have hsame := scope_same (s := s) .endSudoScope (.inr rfl)
      exact ih.same_accounts (hsame.formed ih.formed) hsame.accounts
    | restart => exact loadable_restart ih
  | create name password sudoer _ hline hp ih => exact loadable_create ih password sudoer hline hp

def Colonless (t : UserState) : Prop := ∀ n ∈ t.accounts.map UserAccount.name, 58 ∉ n

theorem colonless_add (ht : Colonless t) (hname : 58 ∉ name) (password : Str)
    (isRoot sudoer : Bool) (group : Str) (hashed : Bool) :
    Colonless (userAddAccount t name password isRoot sudoer group hashed).2 := by
  have hframe := (primaryAdded_frame t group).accounts
  rcases userAddAccount_cases t name password isRoot sudoer group hashed with
    ⟨-, hsame⟩ | ⟨i, -, -, -, -, -, hset⟩ | ⟨-, -, -, -, -, -, happend⟩
  · rw [Colonless, (refused_frame hsame).accounts]
    exact ht
  · rw [hset, Colonless, setAccount_keeps_names _ i _ (by exact fun _ => rfl), hframe]
    exact ht
  · rw [happend, Colonless, List.map_append]
    intro n hn
    rcases List.mem_append.mp hn with hn | hn
    · exact ht n hn
    · rw [List.mem_singleton.mp hn]
      exact fun hm => hname (List.mem_of_mem_take hm)

theorem colonless_line (ht : Colonless t) (line : Str) : Colonless (loadAccountLine t line) := by
  have hfield : 58 ∉ lineField line 0 := by
    obtain ⟨rest, hrest⟩ := splitOn_head line
    rw [lineField, hrest]
    intro hm
    have := List.mem_takeWhile_imp (List.mem_of_mem_take hm)
    simp at this
  rw [loadAccountLine]
  split
  · exact ht
  · exact colonless_add ht hfield _ _ _ _ _

theorem colonless_defaults (t : UserState) : Colonless (userSeedDefaults t) := by
  have hreset : Colonless
      (groupAddInternal (groupAddInternal (userResetState t) rootName).2 sudoName).2 := by
    rw [Colonless, (groupAddInternal_frame ..).accounts, (groupAddInternal_frame ..).accounts]
    exact fun n hn => absurd hn List.not_mem_nil
  have hadd := colonless_add (colonless_add hreset (by decide : 58 ∉ rootName) rootName true true
    rootName false) (by decide : 58 ∉ guestName) guestName false true guestName false
  rw [Colonless, userSeedDefaults]
  simp only
  rw [(refreshed_keeps_roles _).names]
  exact hadd

theorem colonless_restart (s : UserState) : Colonless (restart s) := by
  have hfold : ∀ (l : List Str) {t}, Colonless t → Colonless (l.foldl loadAccountLine t) := by
    intro l
    induction l with
    | nil => exact fun ht => ht
    | cons line l ih => exact fun ht => ih (colonless_line ht line)
  have hload : Colonless (userLoadDb bootState (userDbText s)) := by
    rw [userLoadDb]
    split
    · exact colonless_defaults _
    · simp only
      split
      · exact colonless_defaults _
      · exact hfold _ fun n hn => absurd hn List.not_mem_nil
  have hnames := loadGroupsDb_names (userLoadDb bootState (userDbText s)) (groupDbText s)
  intro n hn
  exact hload n (hnames ▸ hn)

theorem login_same {l : Str} (h : s'.accounts.map UserAccount.credentials =
    s.accounts.map UserAccount.credentials) : loginIndex s' l = loginIndex s l := by
  have hfind : ∀ n, userFind s' n = userFind s n := fun n => by
    rw [userFind_names, userFind_names, names_of_credentials h]
  have hmatch : ∀ (i : ℕ) (q : Str), (s'.accounts[i]?).map (userPasswordMatches · q) =
      (s.accounts[i]?).map (userPasswordMatches · q) := by
    intro i q
    have hi := congrArg (fun l => (l[i]?).map fun c : Str × Str =>
      userPasswordMatches ⟨c.1, c.2, [], false, false⟩ q) h
    simp only [List.getElem?_map, Option.map_map] at hi
    exact hi
  simp only [loginIndex, hfind, hmatch]

theorem login_name_given (e : Entry) (h : e.given.1 ≠ []) : (∃ n p b, e = .wizard n p b) ∨
    e.loginName = e.given.1 := by
  have htyped : ∀ args : Str, (userNextToken userNameMax args).1 ≠ [] →
      (userNextToken userNameMax (firstWord args ++ 32 :: secondWord args)).1 =
        (userNextToken userNameMax args).1 := by
    intro args hne
    exact (login_tokens fun he => hne (by change (firstWord args).take 15 = []; rw [he]; rfl)).1
  cases e with
  | useradd args => exact .inr (htyped args h)
  | passwd args => exact .inr (htyped args h)
  | installUser args => exact .inr (htyped args h)
  | wizard n p b => exact .inl ⟨n, p, b, rfl⟩

theorem agrees_plain {e : Entry} (h : e.Agrees s) (hcolon : 58 ∉ e.loginName) :
    Plain s e.given.1 := by
  have hcopy : userCopy userNameMax e.given.1 = e.loginName := by
    rcases h.name with hm | hm
    · rw [← hm]
      exact token_copy _
    · exact hm.1.symm
  constructor
  · rwa [hcopy]
  · rw [hcopy]
    exact token_no_blank _ _
  intro hnone
  rw [hcopy]
  rcases h.name with hm | hm
  · rw [hm]
    exact hnone
  · exact hm.2.2

theorem loadable_entry (hl : Loadable s) (e : Entry) (ht : e.Typed) (ha : e.Agrees s)
    (hne : e.given.1 ≠ []) (hcolon : 58 ∉ e.loginName) : Loadable (e.apply s).2 := by
  have hplain := agrees_plain ha hcolon
  cases e with
  | useradd args =>
    refine loadable_useradd hl ht ?_
    rcases login_name_given (.useradd args) hne with ⟨_, _, _, he⟩ | hname
    · cases he
    · rwa [hname] at hcolon
  | passwd args => exact loadable_command hl .passwd ht trivial
  | installUser args => exact loadable_create hl _ _ (fun hm => ht (token_mem hm)) hplain
  | wizard name password sudoer => exact loadable_create hl _ _ ht hplain

/-- Exactly the entries whose texts agree can be logged in with at once and behind a restart. -/
theorem accepted_password_works_iff (h : Entered s) (e : Entry) (ht : e.Typed)
    (ha : (e.apply s).1 = true) :
    (e.LogsIn s (e.apply s).2 ∧ e.LogsIn s (restart (e.apply s).2)) ↔
      e.Agrees s ∧ 58 ∉ e.loginName := by
  have hl := loadable_run h
  have hnow := logs_in_now_iff hl.formed e ha
  obtain ⟨hne, -⟩ := accepted_stored hl.formed e ha
  constructor
  · rintro ⟨hfirst, hagain⟩
    refine ⟨hnow.mp hfirst, ?_⟩
    obtain ⟨-, -, hfind, -⟩ := (login_iff _ _ _).mp hagain
    obtain ⟨a, hmem, hname⟩ := userFind_some hfind
    have := colonless_restart (e.apply s).2 _ (List.mem_map_of_mem (List.mem_of_getElem? hmem))
    rwa [hname] at this
  · rintro ⟨hagrees, hcolon⟩
    have hfirst := hnow.mpr hagrees
    refine ⟨hfirst, ?_⟩
    have hl' := loadable_entry hl e ht hagrees hne hcolon
    have hsome : (e.apply s).2.accounts ≠ [] := by
      obtain ⟨-, -, hfind, -⟩ := (login_iff _ _ _).mp hfirst
      obtain ⟨a, hmem, -⟩ := userFind_some hfind
      exact List.ne_nil_of_mem (List.mem_of_getElem? hmem)
    rw [Entry.LogsIn, login_same (hl'.credentials_kept hsome).2]
    exact hfirst

/-- "lino x". -/
def shortInstall : Entry := .installUser [108, 105, 110, 111, 32, 120]

theorem short_install_works : shortInstall.LogsIn seeded (shortInstall.apply seeded).2 ∧
    shortInstall.LogsIn seeded (restart (shortInstall.apply seeded).2) :=
  (accepted_password_works_iff .seeded shortInstall (by decide) (by decide +kernel)).mpr
    ⟨⟨.inl (by decide), by decide, by decide⟩, by decide⟩

/-- "lino", and a password of forty letters. -/
def longInstall : Entry := .installUser ([108, 105, 110, 111, 32] ++ List.replicate 40 97)

/-- The hash is of all forty letters, and `login` takes 39 of them. -/
theorem long_install_locked_out : ¬ ∀ e : Entry, e.Typed → (e.apply seeded).1 = true →
    e.LogsIn seeded (e.apply seeded).2 := by
  intro h
  have hin := h longInstall (by decide) (by decide +kernel)
  revert hin
  decide +kernel

end Accounts
