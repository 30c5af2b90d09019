import K64.AccountInvariant
import Mathlib.Data.List.Perm.Subperm

/-! # The two files of the database

What the files can hold, and that a start from them finds the accounts, the names of the groups and
the members that were saved. -/
namespace Accounts

variable (s : UserState)

def roleWord (a : UserAccount) : Str := if a.isRoot then rootName else [117, 115, 101, 114]

def sudoerWord (a : UserAccount) : Str := [if a.sudoer then 49 else 48]

def accountFields (a : UserAccount) : List Str :=
  [a.name, a.password, roleWord a, sudoerWord a, a.primaryGroup]

def accountLine (a : UserAccount) : Str := [58].intercalate (accountFields a)

def memberText (g : UserGroup) : Str := [44].intercalate (memberNames s g)

def groupLine (g : UserGroup) : Str := g.name ++ 58 :: memberText s g

def fileText (lines : List Str) : Str := lines.flatMap fun line => line ++ [10]

/-- The roles, the primary groups and the members of some accounts agree. -/
structure Agreeing : Prop where
  account_names : (s.accounts.map UserAccount.name).Nodup
  group_names : (groupNames s).Nodup
  root_group : rootName ∈ groupNames s
  sudo_group : sudoName ∈ groupNames s
  primary_exists : ∀ a ∈ s.accounts, a.primaryGroup ∈ groupNames s
  primary_member : ∀ i a, s.accounts[i]? = some a → member s a.primaryGroup i = true
  root_members : ∀ i a, s.accounts[i]? = some a → member s rootName i = a.isRoot
  sudo_members : ∀ i a, s.accounts[i]? = some a → member s sudoName i = (a.isRoot || a.sudoer)
  members_inside : ∀ name i, member s name i = true → i < s.accounts.length
  some_account : s.accounts ≠ []

/-- Names without the separators of the files, and texts that fit. -/
structure Restorable : Prop where
  account_names : ∀ a ∈ s.accounts, 58 ∉ a.name ∧ 44 ∉ a.name ∧ 10 ∉ a.name
  group_names : ∀ n ∈ groupNames s, 58 ∉ n ∧ 10 ∉ n
  text : (fileText (s.groups.map (groupLine s))).length < dbSize
  members : ∀ g ∈ s.groups, (memberText s g).length < 96

def addName (names : List Str) (name : Str) : List Str :=
  if name ∈ names then names else names ++ [name]

/-- The names of the groups in the order in which a start finds them. -/
def loadOrder : List Str :=
  (s.accounts.map UserAccount.primaryGroup ++ groupNames s).foldl addName []

/-- A start from the files that `user_save_state` writes. -/
def restart : UserState := userServiceStart bootState (some (userDbText s, groupDbText s))

structure Restored (s s' : UserState) : Prop where
  accounts : s'.accounts = s.accounts
  names : groupNames s' = loadOrder s
  members : ∀ n i, member s' n i = member s n i

variable {s}

theorem Consistent.agreeing (h : Consistent s) : Agreeing s :=
  { h with some_account := h.some_root.elim fun _ ha => List.ne_nil_of_mem ha.1 }

theorem appendAll_flatten {size : ℕ} (pieces : List Str) (h : pieces.flatten.length ≤ size - 1) :
    appendAll size pieces = pieces.flatten := by
  suffices ∀ dst : Str, dst.length + pieces.flatten.length ≤ size - 1 →
      pieces.foldl (userAppend size) dst = dst ++ pieces.flatten by
    exact this [] (by simpa using h)
  clear h
  induction pieces with
  | nil =>
    intro dst _
    exact (List.append_nil dst).symm
  | cons p pieces ih =>
    intro dst h
    rw [List.flatten_cons, List.length_append] at h
    have hfit : userAppend size dst p = dst ++ p := by
      rw [userAppend, List.take_of_length_le (by omega)]
    rw [List.foldl_cons, hfit, ih _ (by rw [List.length_append]; omega), List.flatten_cons,
      List.append_assoc]

theorem accountPieces_flatten (a : UserAccount) :
    (accountPieces a).flatten = accountLine a ++ [10] := by
  simp [accountPieces, accountLine, accountFields, List.intercalate, roleWord, sudoerWord]

theorem groupPieces_flatten (g : UserGroup) : (groupPieces s g).flatten = groupLine s g ++ [10] := by
  simp [groupPieces, groupLine, memberText, List.intercalate]

theorem flatMap_flatten {α : Type} (l : List α) (f : α → List Str) (line : α → Str)
    (h : ∀ a, (f a).flatten = line a ++ [10]) :
    (l.flatMap f).flatten = fileText (l.map line) := by
  induction l with
  | nil => rfl
  | cons a l ih =>
    rw [List.flatMap_cons, List.flatten_append, h, ih]
    rfl

theorem fileText_cons (line : Str) (lines : List Str) :
    fileText (line :: lines) = line ++ 10 :: fileText lines := by
  simp [fileText]

variable {c : UInt8}

theorem not_sep {l : Str} (h : c ∉ l) : ∀ x ∈ l, (x != c) = true :=
  fun _ hx => bne_iff_ne.mpr fun he => h (he ▸ hx)

theorem takeWhile_append_stop {l : Str} (h : c ∉ l) (r : Str) :
    (l ++ c :: r).takeWhile (fun x => x != c) = l := by
  rw [List.takeWhile_append_of_pos (not_sep h), List.takeWhile_cons_of_neg (by simp),
    List.append_nil]

theorem dropWhile_append_stop {l : Str} (h : c ∉ l) (r : Str) :
    (l ++ c :: r).dropWhile (fun x => x != c) = c :: r := by
  rw [List.dropWhile_append_of_pos (not_sep h), List.dropWhile_cons_of_neg (by simp)]

variable (lines : List Str)

theorem lines_of_text {size : ℕ} (n : ℕ)
    (hn : (fileText lines).length ≤ n) (h : ∀ l ∈ lines, 10 ∉ l ∧ l.length ≤ size - 1) :
    linesFrom size n (fileText lines) = lines := by
  induction lines generalizing n with
  | nil => cases n <;> rfl
  | cons line lines ih =>
    obtain ⟨hline, hshort⟩ := h line (List.mem_cons_self ..)
    rw [fileText_cons, List.length_append, List.length_cons] at hn
    obtain ⟨m, rfl⟩ : ∃ m, n = m + 1 := ⟨n - 1, by omega⟩
    have hne : line ++ 10 :: fileText lines ≠ [] := by simp
    have htake : ((line ++ 10 :: fileText lines).takeWhile fun c => c != 10).take (size - 1) = line := by
      rw [takeWhile_append_stop hline, List.take_of_length_le hshort]
    rw [fileText_cons, linesFrom, if_neg hne]
    simp only [htake, List.drop_left, List.head?_cons, if_true, List.tail_cons]
    rw [ih m (by omega) fun l hl => h l (List.mem_cons_of_mem _ hl)]

theorem dbLines_of_text (h : ∀ l ∈ lines, 10 ∉ l ∧ l.length ≤ 159)
    (hne : ∀ l ∈ lines, l ≠ []) : dbLines (fileText lines) = lines := by
  rw [dbLines, lines_of_text lines _ le_rfl h]
  exact List.filter_eq_self.mpr fun l hl => bne_iff_ne.mpr (hne l hl)

variable {a : UserAccount}

theorem accountFields_char (hf : a.Formed) (hc : c = 58 ∨ c = 10)
    (hname : c ∉ a.name) (hprimary : c ∉ a.primaryGroup) : ∀ l ∈ accountFields a, c ∉ l := by
  have hpassword : c ∉ a.password := by
    rcases hc with rfl | rfl
    · exact hf.password.no_colon
    · exact hf.password.no_newline
  have hrole : c ∉ roleWord a := by
    rcases hc with rfl | rfl <;> cases ha : a.isRoot <;> simp [roleWord, rootName, ha]
  have hsudoer : c ∉ sudoerWord a := by
    rcases hc with rfl | rfl <;> cases ha : a.sudoer <;> simp [sudoerWord, ha]
  intro l hl
  simp only [accountFields, List.mem_cons, List.not_mem_nil, or_false] at hl
  rcases hl with rfl | rfl | rfl | rfl | rfl
  · exact hname
  · exact hpassword
  · exact hrole
  · exact hsudoer
  · exact hprimary

theorem accountLine_length (hf : a.Formed) : (accountLine a).length ≤ 59 := by
  have hrole : (roleWord a).length = 4 := by
    cases ha : a.isRoot <;> simp [roleWord, rootName, ha]
  have h1 := hf.name.short
  have h2 := hf.primary.short
  have h3 := hf.password.length
  simp only [accountLine, accountFields, List.intercalate, List.intersperse, List.flatten_cons,
    List.flatten_nil, List.length_append, List.length_cons, List.length_nil, sudoerWord, hrole]
  omega

theorem accountLine_no_newline (hf : a.Formed) (hname : 10 ∉ a.name)
    (hprimary : 10 ∉ a.primaryGroup) : 10 ∉ accountLine a := by
  have h := accountFields_char hf (.inr rfl) hname hprimary
  simp only [accountFields, List.mem_cons, List.not_mem_nil, or_false, forall_eq_or_imp,
    forall_eq] at h
  simp [accountLine, accountFields, List.intercalate, h]

theorem accountLine_ne_nil (a : UserAccount) : accountLine a ≠ [] := by
  simp [accountLine, accountFields, List.intercalate]

theorem lineField_accountLine (hf : a.Formed) (hname : 58 ∉ a.name)
    (hprimary : 58 ∉ a.primaryGroup) (i : ℕ) :
    lineField (accountLine a) i = (((accountFields a)[i]?).getD []).take 31 := by
  rw [lineField, accountLine, List.splitOn_intercalate _
    (accountFields_char hf (.inl rfl) hname hprimary) (by simp [accountFields])]

theorem fileText_length (h : ∀ l ∈ lines, l.length ≤ 59) :
    (fileText lines).length ≤ 60 * lines.length := by
  induction lines with
  | nil => exact le_rfl
  | cons line lines ih =>
    have := ih fun l hl => h l (List.mem_cons_of_mem _ hl)
    have := h line (List.mem_cons_self ..)
    rw [fileText_cons, List.length_append, List.length_cons, List.length_cons]
    omega

theorem userDbText_lines (hf : Formed s) :
    userDbText s = fileText (s.accounts.map accountLine) := by
  have hflat := flatMap_flatten s.accounts accountPieces accountLine accountPieces_flatten
  have hlen : (fileText (s.accounts.map accountLine)).length ≤ dbSize - 1 := by
    have hshort := fileText_length (s.accounts.map accountLine) fun l hl => by
      obtain ⟨a, ha, rfl⟩ := List.mem_map.mp hl
      exact accountLine_length (hf.accounts a ha)
    have hfew := hf.fits.accounts
    rw [List.length_map] at hshort
    simp only [userMaxAccounts, dbSize] at hfew ⊢
    omega
  rw [userDbText, appendAll_flatten _ (by rwa [hflat]), hflat]

theorem dbLines_accounts (hf : Formed s)
    (h : ∀ a ∈ s.accounts, 10 ∉ a.name ∧ 10 ∉ a.primaryGroup) :
    dbLines (userDbText s) = s.accounts.map accountLine := by
  rw [userDbText_lines hf]
  refine dbLines_of_text _ (fun l hl => ?_) fun l hl => ?_
  · obtain ⟨a, ha, rfl⟩ := List.mem_map.mp hl
    refine ⟨accountLine_no_newline (hf.accounts a ha) (h a ha).1 (h a ha).2, ?_⟩
    exact (accountLine_length (hf.accounts a ha)).trans (by decide)
  · obtain ⟨a, -, rfl⟩ := List.mem_map.mp hl
    exact accountLine_ne_nil a

theorem dbLines_users (hf : Formed s) (hr : Restorable s) (hc : Agreeing s) :
    dbLines (userDbText s) = s.accounts.map accountLine :=
  dbLines_accounts hf fun a ha =>
    ⟨(hr.account_names a ha).2.2, (hr.group_names _ (hc.primary_exists a ha)).2⟩

/-- Some accounts of the file and the groups that came with them, out of those that were saved. -/
structure Loading (all : List Str) (t : UserState) (done : List UserAccount)
    (order : List Str) : Prop where
  nodup : order.Nodup
  known : ∀ n ∈ order, n ∈ all
  accounts : t.accounts = done
  names : groupNames t = order

variable {all names : List Str} {t : UserState} {accounts : List UserAccount}

variable {name : Str}

theorem mem_addName {n : Str} : n ∈ addName names name ↔ n ∈ names ∨ n = name := by
  unfold addName
  split
  next h => exact ⟨.inl, fun hn => hn.elim id fun he => he ▸ h⟩
  · rw [List.mem_append, List.mem_singleton]

theorem addName_nodup (h : names.Nodup) (name : Str) : (addName names name).Nodup := by
  unfold addName
  split
  · exact h
  next hnew =>
    refine List.nodup_append.mpr ⟨h, List.nodup_singleton _, fun n hn m hm => ?_⟩
    rw [List.mem_singleton.mp hm]
    rintro rfl
    exact hnew hn

theorem Loading.add_ok (h : Loading all t accounts names) (hall : all.length ≤ groupMax)
    (hname : ShortName name) (hmem : name ∈ all) :
    (groupAddInternal t name).1 = true := by
  unfold groupAddInternal
  rw [if_neg hname.nonempty]
  split
  · rfl
  next hnew =>
    rw [groupFind_isSome, h.names] at hnew
    have hnodup : (name :: names).Nodup := List.nodup_cons.mpr ⟨hnew, h.nodup⟩
    have hsub : name :: names ⊆ all := List.cons_subset.mpr ⟨hmem, h.known⟩
    have hlen := (List.subperm_of_subset hnodup hsub).length_le
    have hgroups : t.groups.length = names.length := by
      rw [← h.names, groupNames, List.length_map]
    rw [List.length_cons] at hlen
    rw [if_neg (by omega)]

theorem Loading.add (h : Loading all t accounts names) (hall : all.length ≤ groupMax)
    (hname : ShortName name) (hmem : name ∈ all) :
    Loading all (groupAddInternal t name).2 accounts (addName names name) := by
  have hnames := groupNames_add t hname (h.add_ok hall hname hmem)
  rw [h.names] at hnames
  refine ⟨addName_nodup h.nodup name, fun n hn => ?_,
    (groupAddInternal_frame t name).accounts.trans h.accounts, hnames⟩
  rcases mem_addName.mp hn with hn | rfl
  · exact h.known n hn
  · exact hmem

theorem UserAccount.Formed.password_nonempty (hf : a.Formed) : a.password ≠ [] := by
  intro he
  have := hf.password.length
  rw [he] at this
  cases this

theorem UserAccount.Formed.password_stored (hf : a.Formed) :
    userStorePassword userPassMax a.name a.password true = a.password := by
  rw [userStorePassword, hf.password.encoded]
  exact List.take_of_length_le (hf.password.length.le.trans (by decide))

theorem loadAccountLine_add (hf : a.Formed) (hname : 58 ∉ a.name)
    (hprimary : 58 ∉ a.primaryGroup) :
    loadAccountLine t (accountLine a) =
      (userAddAccount t a.name a.password a.isRoot a.sudoer a.primaryGroup true).2 := by
  have hfield := lineField_accountLine hf hname hprimary
  have h0 : lineField (accountLine a) 0 = a.name := by
    rw [hfield]
    exact List.take_of_length_le (hf.name.short.trans (by decide))
  have h1 : lineField (accountLine a) 1 = a.password := by
    rw [hfield]
    exact List.take_of_length_le (hf.password.length.le.trans (by decide))
  have h2 : (lineField (accountLine a) 2 == rootName) = a.isRoot := by
    rw [hfield]
    cases ha : a.isRoot <;> simp [accountFields, roleWord, rootName, ha]
  have h3 : ((lineField (accountLine a) 3).head? == some 49) = a.sudoer := by
    rw [hfield]
    cases ha : a.sudoer <;> simp [accountFields, sudoerWord, ha]
  have h4 : lineField (accountLine a) 4 = a.primaryGroup := by
    rw [hfield]
    exact List.take_of_length_le (hf.primary.short.trans (by decide))
  unfold loadAccountLine
  simp only [h0, h1, h2, h3, h4, if_neg hf.primary.nonempty, hf.password.encoded]
  rw [if_neg (not_or.mpr ⟨hf.name.nonempty, hf.password_nonempty⟩)]

theorem Loading.account (h : Loading all t accounts names) (hall : all.length ≤ groupMax)
    (hf : a.Formed) (hsep : 58 ∉ a.name ∧ 58 ∉ a.primaryGroup)
    (hnew : a.name ∉ accounts.map UserAccount.name) (hroom : accounts.length < userMaxAccounts)
    (hmem : a.primaryGroup ∈ all) :
    Loading all (loadAccountLine t (accountLine a)) (accounts ++ [a])
        (addName names a.primaryGroup) ∧
      ∀ n i, member (loadAccountLine t (accountLine a)) n i = member t n i := by
  have hadd := h.add hall hf.primary hmem
  have hfind : userFind (groupAddInternal t a.primaryGroup).2 a.name = none := by
    rw [userFind, List.findIdx?_eq_none_iff, hadd.accounts]
    exact fun b hb => beq_eq_false_iff_ne.mpr fun he => hnew (List.mem_map.mpr ⟨b, hb, he⟩)
  have hsame : (⟨userCopy userNameMax a.name, a.password, userCopy groupNameMax a.primaryGroup,
      a.isRoot, a.sudoer || a.isRoot⟩ : UserAccount) = a := by
    have hsudoer : (a.sudoer || a.isRoot) = a.sudoer := by
      cases hr : a.isRoot with
      | false => rw [Bool.or_false]
      | true => rw [hf.root_sudoer hr]; rfl
    rw [hsudoer, hf.primary.copy]
    exact congrArg (UserAccount.mk · _ _ _ _) (List.take_of_length_le hf.name.short)
  have hline : loadAccountLine t (accountLine a) =
      { (groupAddInternal t a.primaryGroup).2 with
        accounts := (groupAddInternal t a.primaryGroup).2.accounts ++ [a] } := by
    rw [loadAccountLine_add hf hsep.1 hsep.2, userAddAccount,
      if_neg (not_or.mpr ⟨hf.name.nonempty, hf.password_nonempty⟩)]
    simp only [if_neg hf.primary.nonempty, h.add_ok hall hf.primary hmem, hfind, hf.password_stored,
      hadd.accounts, Bool.true_eq_false, if_false, if_neg (not_le.mpr hroom), hsame]
  rw [hline]
  refine ⟨⟨hadd.nodup, hadd.known, ?_, hadd.names⟩, fun n i => member_add t _ n i⟩
  exact congrArg (· ++ [a]) hadd.accounts

theorem Loading.accounts_file (h : Loading all t accounts names) (hall : all.length ≤ groupMax)
    (l : List UserAccount) (hf : ∀ a ∈ l, a.Formed)
    (hsep : ∀ a ∈ l, 58 ∉ a.name ∧ 58 ∉ a.primaryGroup)
    (hnodup : ((accounts ++ l).map UserAccount.name).Nodup)
    (hroom : (accounts ++ l).length ≤ userMaxAccounts) (hmem : ∀ a ∈ l, a.primaryGroup ∈ all) :
    Loading all ((l.map accountLine).foldl loadAccountLine t) (accounts ++ l)
        ((l.map UserAccount.primaryGroup).foldl addName names) ∧
      ∀ n i, member ((l.map accountLine).foldl loadAccountLine t) n i = member t n i := by
  induction l generalizing t accounts names with
  | nil =>
    rw [List.append_nil]
    exact ⟨h, fun _ _ => rfl⟩
  | cons a l ih =>
    have ha := List.mem_cons_self (a := a) (l := l)
    have hnew : a.name ∉ accounts.map UserAccount.name := by
      rw [List.map_append, List.map_cons] at hnodup
      intro hin
      exact (List.nodup_append.mp hnodup).2.2 _ hin _ (List.mem_cons_self ..) rfl
    have hlt : accounts.length < userMaxAccounts := by
      rw [List.length_append, List.length_cons] at hroom
      omega
    obtain ⟨hstep, hkeep⟩ := h.account hall (hf a ha) (hsep a ha) hnew hlt (hmem a ha)
    have happend : accounts ++ a :: l = accounts ++ [a] ++ l := by
      rw [List.append_assoc, List.singleton_append]
    rw [happend] at hnodup hroom ⊢
    obtain ⟨hrest, hkept⟩ := ih hstep (fun b hb => hf b (List.mem_cons_of_mem _ hb))
      (fun b hb => hsep b (List.mem_cons_of_mem _ hb)) hnodup hroom
      fun b hb => hmem b (List.mem_cons_of_mem _ hb)
    exact ⟨hrest, fun n i => (hkept n i).trans (hkeep n i)⟩

theorem intercalate_cons (c : UInt8) (name next : Str) (names : List Str) :
    [c].intercalate (name :: next :: names) = name ++ c :: [c].intercalate (next :: names) := by
  simp [List.intercalate]

/-- A name that `user_load_groups_db` reads back from the members of a group. -/
structure MemberName (name : Str) : Prop where
  short : ShortName name
  no_comma : 44 ∉ name
  no_blank : 32 ∉ name

theorem MemberName.skip (h : MemberName name) (rest : Str) :
    (name ++ rest).dropWhile (fun c => c == 44 || c == 32) = name ++ rest := by
  obtain ⟨c, l, rfl⟩ := List.exists_cons_of_ne_nil h.short.nonempty
  have hcomma : c ≠ 44 := fun he => h.no_comma (he ▸ List.mem_cons_self ..)
  have hblank : c ≠ 32 := fun he => h.no_blank (he ▸ List.mem_cons_self ..)
  exact List.dropWhile_cons_of_neg (by simp [hcomma, hblank])

theorem splitMembers_names (names : List Str) (h : ∀ m ∈ names, MemberName m) (n : ℕ)
    (hn : ([44].intercalate names).length ≤ n) :
    splitMembers n ([44].intercalate names) = names := by
  induction names generalizing n with
  | nil => cases n <;> rfl
  | cons name names ih =>
    have hname := h name (List.mem_cons_self ..)
    obtain ⟨c, l, hcons⟩ := List.exists_cons_of_ne_nil hname.short.nonempty
    have hshort : name.take (userNameMax - 1) = name := List.take_of_length_le hname.short.short
    cases names with
    | nil =>
      have htext : [44].intercalate [name] = name := by simp [List.intercalate]
      rw [htext] at hn ⊢
      obtain ⟨m, rfl⟩ : ∃ m, n = m + 1 := ⟨n - 1, by rw [hcons, List.length_cons] at hn; omega⟩
      have hskip : name.dropWhile (fun c => c == 44 || c == 32) = name := by
        simpa using hname.skip []
      have htake : name.takeWhile (fun c => c != 44) = name :=
        List.takeWhile_eq_self_iff.mpr (not_sep hname.no_comma)
      have hdrop : name.dropWhile (fun c => c != 44) = [] :=
        List.dropWhile_eq_nil_iff.mpr (not_sep hname.no_comma)
      rw [splitMembers, if_neg hname.short.nonempty]
      simp only [hskip, htake, hdrop, hshort, List.drop_nil]
      cases m <;> rfl
    | cons next names =>
      rw [intercalate_cons] at hn ⊢
      rw [List.length_append, List.length_cons] at hn
      obtain ⟨m, rfl⟩ : ∃ m, n = m + 1 := ⟨n - 1, by omega⟩
      have hne : name ++ 44 :: [44].intercalate (next :: names) ≠ [] := by simp
      rw [splitMembers, if_neg hne]
      simp only [hname.skip, takeWhile_append_stop hname.no_comma,
        dropWhile_append_stop hname.no_comma, hshort, List.drop_succ_cons, List.drop_zero]
      rw [ih (fun l hl => h l (List.mem_cons_of_mem _ hl)) m (by omega)]

theorem userFind_of_nodup {i : ℕ}
    (h : (t.accounts.map UserAccount.name).Nodup) (ha : t.accounts[i]? = some a) :
    userFind t a.name = some i := by
  have hname : (t.accounts.map UserAccount.name)[i]? = some a.name := by
    rw [List.getElem?_map, ha]
    rfl
  have hfind := findIdx_nodup h hname
  rwa [List.findIdx?_map] at hfind

theorem addMembers (group : Str) (l : List (UserAccount × ℕ))
    (h : (t.accounts.map UserAccount.name).Nodup) (hmem : group ∈ groupNames t)
    (hl : ∀ p ∈ l, t.accounts[p.2]? = some p.1) :
    OnlyGroups t ((l.map fun p => p.1.name).foldl (fun s user => addMember group user s) t) ∧
    groupNames ((l.map fun p => p.1.name).foldl (fun s user => addMember group user s) t) =
      groupNames t ∧
    ∀ n i, member ((l.map fun p => p.1.name).foldl (fun s user => addMember group user s) t) n i =
      true ↔ member t n i = true ∨ n = group ∧ ∃ p ∈ l, p.2 = i := by
  induction l generalizing t with
  | nil => exact ⟨.refl t, rfl, fun n i => by simp⟩
  | cons p l ih =>
    have hp := hl p (List.mem_cons_self ..)
    have hlt := (List.getElem?_eq_some_iff.mp hp).1
    have hstep : addMember group p.1.name t =
        groupSetMembership t (groupFind t group) p.2 true := by
      rw [addMember, userFind_of_nodup h hp]
    have hframe := groupSetMembership_frame t (groupFind t group) p.2 true
    have hnames := groupNames_setMembership t (groupFind t group) p.2 true
    rw [List.map_cons, List.foldl_cons, hstep]
    obtain ⟨hframe', hnames', hmember'⟩ := ih (t := groupSetMembership t (groupFind t group) p.2 true)
      (by rwa [hframe.accounts]) (by rwa [hnames]) fun q hq => by
        rw [hframe.accounts]
        exact hl q (List.mem_cons_of_mem _ hq)
    refine ⟨hframe.trans hframe', hnames'.trans hnames, fun n i => ?_⟩
    rw [hmember', member_setMembership t group n p.2 i true hlt]
    simp only [List.mem_cons, exists_eq_or_imp]
    constructor
    · rintro (hm | hrest)
      · split at hm
        next hc => exact .inr ⟨hc.1, .inl hc.2.2.symm⟩
        · exact .inl hm
      · exact .inr ⟨hrest.1, .inr hrest.2⟩
    · rintro (hm | ⟨rfl, rfl | hrest⟩)
      · refine .inl ?_
        split
        · rfl
        · exact hm
      · exact .inl (if_pos ⟨rfl, hmem, rfl⟩)
      · exact .inr ⟨rfl, hrest⟩

theorem memberNames_of {g : UserGroup} (i : ℕ) :
    (∃ p ∈ s.accounts.zipIdx.filter fun p => g.members p.2, p.2 = i) ↔
      i < s.accounts.length ∧ g.members i = true := by
  constructor
  · rintro ⟨p, hp, rfl⟩
    obtain ⟨hmem, hg⟩ := List.mem_filter.mp hp
    exact ⟨(List.getElem?_eq_some_iff.mp (List.mem_zipIdx_iff_getElem?.mp hmem)).1, hg⟩
  · rintro ⟨hlt, hg⟩
    refine ⟨(s.accounts[i], i), List.mem_filter.mpr ⟨?_, hg⟩, rfl⟩
    exact List.mem_zipIdx_iff_getElem?.mpr (List.getElem?_eq_getElem hlt)

theorem memberNames_mem {g : UserGroup} (h : name ∈ memberNames s g) :
    ∃ a ∈ s.accounts, a.name = name := by
  obtain ⟨p, hp, rfl⟩ := List.mem_map.mp h
  exact ⟨p.1, List.mem_of_getElem? (List.mem_zipIdx_iff_getElem?.mp (List.mem_filter.mp hp).1), rfl⟩

theorem memberName_of (hf : Formed s) (hr : Restorable s) (g : UserGroup) :
    ∀ m ∈ memberNames s g, MemberName m := by
  intro m hm
  obtain ⟨a, ha, rfl⟩ := memberNames_mem hm
  exact ⟨(hf.accounts a ha).name, (hr.account_names a ha).2.1, (hf.accounts a ha).no_blank⟩

theorem Loading.group (h : Loading all t s.accounts names) (hall : all.length ≤ groupMax)
    (hf : Formed s) (hr : Restorable s) (hc : Agreeing s) {g : UserGroup} (hg : g ∈ s.groups)
    (hmem : g.name ∈ all) :
    Loading all (loadGroupLine t (groupLine s g)) s.accounts (addName names g.name) ∧
    ∀ n i, member (loadGroupLine t (groupLine s g)) n i = true ↔
      member t n i = true ∨ n = g.name ∧ i < s.accounts.length ∧ g.members i = true := by
  have hgroup : g.name ∈ groupNames s := List.mem_map.mpr ⟨g, hg, rfl⟩
  have hname := hf.groups _ hgroup
  have hadd := h.add hall hname hmem
  have hok := h.add_ok hall hname hmem
  have hcolon := (hr.group_names _ hgroup).1
  have hfirst : userCopy groupNameMax ((groupLine s g).takeWhile fun c => c != 58) = g.name := by
    rw [groupLine, takeWhile_append_stop hcolon, hname.copy]
  have hrest : userCopy 96 (((groupLine s g).dropWhile fun c => c != 58).drop 1) =
      memberText s g := by
    rw [groupLine, dropWhile_append_stop hcolon, List.drop_succ_cons, List.drop_zero]
    exact List.take_of_length_le (Nat.le_of_lt_succ (hr.members g hg))
  have hsplit : splitMembers (memberText s g).length (memberText s g) = memberNames s g :=
    splitMembers_names _ (memberName_of hf hr g) _ le_rfl
  have hline : loadGroupLine t (groupLine s g) =
      (memberNames s g).foldl (fun s user => addMember g.name user s)
        (groupAddInternal t g.name).2 := by
    unfold loadGroupLine
    simp only [hfirst, hrest, if_neg hname.nonempty, hok, Bool.true_eq_false, if_false, hsplit]
  obtain ⟨hframe, hnames, hmember⟩ := addMembers (t := (groupAddInternal t g.name).2) g.name
    (s.accounts.zipIdx.filter fun p => g.members p.2) (by rw [hadd.accounts]; exact hc.account_names)
    (by rw [hadd.names]; exact mem_addName.mpr (.inr rfl)) (fun p hp => by
      rw [hadd.accounts]
      exact List.mem_zipIdx_iff_getElem?.mp (List.mem_filter.mp hp).1)
  rw [hline]
  refine ⟨⟨hadd.nodup, hadd.known, hframe.accounts.trans hadd.accounts, hnames.trans hadd.names⟩,
    fun n i => ?_⟩
  rw [← memberNames_of, ← member_add t g.name n i]
  exact hmember n i

theorem Loading.groups_file (h : Loading all t s.accounts names) (hall : all.length ≤ groupMax)
    (hf : Formed s) (hr : Restorable s) (hc : Agreeing s) (l : List UserGroup)
    (hl : ∀ g ∈ l, g ∈ s.groups) (hmem : ∀ g ∈ l, g.name ∈ all) :
    Loading all ((l.map (groupLine s)).foldl loadGroupLine t) s.accounts
        ((l.map UserGroup.name).foldl addName names) ∧
    ∀ n i, member ((l.map (groupLine s)).foldl loadGroupLine t) n i = true ↔
      member t n i = true ∨ ∃ g ∈ l, n = g.name ∧ i < s.accounts.length ∧ g.members i = true := by
  induction l generalizing t names with
  | nil => exact ⟨h, fun n i => by simp⟩
  | cons g l ih =>
    have hg := List.mem_cons_self (a := g) (l := l)
    obtain ⟨hstep, hmember⟩ := h.group hall hf hr hc (hl g hg) (hmem g hg)
    obtain ⟨hrest, hmember'⟩ := ih hstep (fun x hx => hl x (List.mem_cons_of_mem _ hx))
      fun x hx => hmem x (List.mem_cons_of_mem _ hx)
    refine ⟨hrest, fun n i => ?_⟩
    rw [List.map_cons, List.foldl_cons, hmember', hmember]
    simp only [List.mem_cons, exists_eq_or_imp]
    exact or_assoc

theorem not_mem_intercalate {d : UInt8} (hcd : c ≠ d) (names : List Str)
    (h : ∀ n ∈ names, c ∉ n) : c ∉ [d].intercalate names := by
  induction names with
  | nil => exact List.not_mem_nil
  | cons name names ih =>
    have hname := h name (List.mem_cons_self ..)
    have hrest := ih fun n hn => h n (List.mem_cons_of_mem _ hn)
    cases names with
    | nil => simpa [List.intercalate] using hname
    | cons next names =>
      rw [intercalate_cons]
      simp [hname, hrest, hcd]

theorem groupLine_ne_nil (g : UserGroup) : groupLine s g ≠ [] := by simp [groupLine]

theorem groupDbText_lines (hr : Restorable s) :
    groupDbText s = fileText (s.groups.map (groupLine s)) := by
  have hflat := flatMap_flatten s.groups (groupPieces s) (groupLine s) groupPieces_flatten
  rw [groupDbText, appendAll_flatten _ (by rw [hflat]; exact Nat.le_sub_one_of_lt hr.text), hflat]

theorem dbLines_groups (hf : Formed s) (hr : Restorable s) :
    dbLines (groupDbText s) = s.groups.map (groupLine s) := by
  rw [groupDbText_lines hr]
  refine dbLines_of_text _ (fun l hl => ?_) fun l hl => ?_
  · obtain ⟨g, hg, rfl⟩ := List.mem_map.mp hl
    have hgroup : g.name ∈ groupNames s := List.mem_map.mpr ⟨g, hg, rfl⟩
    have hmembers : 10 ∉ memberText s g := not_mem_intercalate (by decide) _ fun n hn => by
      obtain ⟨a, ha, rfl⟩ := memberNames_mem hn
      exact (hr.account_names a ha).2.2
    have h1 := (hf.groups _ hgroup).short
    have h2 := hr.members g hg
    refine ⟨by simp [groupLine, hmembers, (hr.group_names _ hgroup).2], ?_⟩
    rw [groupLine, List.length_append, List.length_cons]
    omega
  · obtain ⟨g, -, rfl⟩ := List.mem_map.mp hl
    exact groupLine_ne_nil g

theorem fileText_ne_nil {lines : List Str} (h : lines ≠ []) : fileText lines ≠ [] := by
  obtain ⟨line, rest, rfl⟩ := List.exists_cons_of_ne_nil h
  rw [fileText_cons]
  simp

theorem member_iff (h : (groupNames s).Nodup) (n : Str) (i : ℕ) :
    member s n i = true ↔ ∃ g ∈ s.groups, n = g.name ∧ g.members i = true := by
  constructor
  · intro hm
    unfold member at hm
    cases hg : s.groups.find? fun g => g.name == n with
    | none =>
      rw [hg] at hm
      cases hm
    | some g =>
      rw [hg] at hm
      have hname : g.name = n := by simpa using List.find?_some hg
      exact ⟨g, List.mem_of_find?_eq_some hg, hname.symm, hm⟩
  · rintro ⟨g, hg, rfl, hm⟩
    obtain ⟨x, hx⟩ := find_of_mem s (List.mem_map.mpr ⟨g, hg, rfl⟩ : g.name ∈ groupNames s)
    have hname : x.name = g.name := by simpa using List.find?_some hx
    have hsame : x = g := List.inj_on_of_nodup_map h (List.mem_of_find?_eq_some hx) hg hname
    rw [member, hx, hsame]
    exact hm

theorem mem_foldl_addName {n : Str} (l : List Str) :
    n ∈ l.foldl addName names ↔ n ∈ names ∨ n ∈ l := by
  induction l generalizing names with
  | nil => simp
  | cons m l ih => rw [List.foldl_cons, ih, mem_addName, List.mem_cons, or_assoc]

theorem mem_loadOrder (hc : Agreeing s) (n : Str) : n ∈ loadOrder s ↔ n ∈ groupNames s := by
  rw [loadOrder, mem_foldl_addName, List.mem_append]
  constructor
  · rintro (hn | hn | hn)
    · cases hn
    · obtain ⟨a, ha, rfl⟩ := List.mem_map.mp hn
      exact hc.primary_exists a ha
    · exact hn
  · exact fun hn => .inr (.inr hn)

theorem loaded_accounts (hf : Formed s) (hr : Restorable s) (hc : Agreeing s) :
    Loading (groupNames s) (userLoadDb t (userDbText s)) s.accounts
        ((s.accounts.map UserAccount.primaryGroup).foldl addName []) ∧
      ∀ n i, member (userLoadDb t (userDbText s)) n i = false := by
  have hall : (groupNames s).length ≤ groupMax := by
    rw [groupNames, List.length_map]
    exact hf.fits.groups
  have hsome := hc.some_account
  have hstart : Loading (groupNames s) (userResetState t) [] [] :=
    ⟨List.nodup_nil, fun _ hn => absurd hn List.not_mem_nil, rfl, rfl⟩
  obtain ⟨hload, hmember⟩ := hstart.accounts_file hall s.accounts hf.accounts
    (fun a ha => ⟨(hr.account_names a ha).1, (hr.group_names _ (hc.primary_exists a ha)).1⟩)
    hc.account_names hf.fits.accounts hc.primary_exists
  have htext : userDbText s ≠ [] := by
    rw [userDbText_lines hf]
    exact fileText_ne_nil (by simpa using hsome)
  have hdb : userLoadDb t (userDbText s) =
      (s.accounts.map accountLine).foldl loadAccountLine (userResetState t) := by
    rw [userLoadDb, if_neg htext, dbLines_users hf hr hc]
    refine if_neg ?_
    rw [hload.accounts]
    simpa using hsome
  rw [hdb]
  exact ⟨hload, hmember⟩

theorem loaded_groups (hf : Formed s) (hr : Restorable s) (hc : Agreeing s) :
    Restored s (userLoadGroupsDb (userLoadDb t (userDbText s)) (groupDbText s)) := by
  have hall : (groupNames s).length ≤ groupMax := by
    rw [groupNames, List.length_map]
    exact hf.fits.groups
  obtain ⟨hload, hnone⟩ := loaded_accounts (t := t) hf hr hc
  obtain ⟨hgroups, hmember⟩ := hload.groups_file hall hf hr hc s.groups (fun _ hg => hg)
    fun g hg => List.mem_map.mpr ⟨g, hg, rfl⟩
  have htext : groupDbText s ≠ [] := by
    rw [groupDbText_lines hr]
    refine fileText_ne_nil fun he => ?_
    have hroot := hc.root_group
    rw [groupNames, List.map_eq_nil_iff.mp he] at hroot
    cases hroot
  have hnames := hgroups.names
  rw [← List.foldl_append] at hnames
  change _ = loadOrder s at hnames
  unfold userLoadGroupsDb
  rw [if_neg htext, dbLines_groups hf hr]
  generalize (s.groups.map (groupLine s)).foldl loadGroupLine _ = loaded at hgroups hmember hnames ⊢
  have hsame : ∀ n i, member loaded n i = member s n i := by
    intro n i
    rw [Bool.eq_iff_iff, hmember, hnone, member_iff hc.group_names]
    constructor
    · rintro (hn | ⟨g, hg, hn, -, hm⟩)
      · cases hn
      · exact ⟨g, hg, hn, hm⟩
    · rintro ⟨g, hg, hn, hm⟩
      refine .inr ⟨g, hg, hn, hc.members_inside n i ?_, hm⟩
      exact (member_iff hc.group_names n i).mpr ⟨g, hg, hn, hm⟩
  have hprimaries : HasPrimaries loaded := by
    constructor
    · rw [hgroups.accounts]
      exact fun a ha => (hf.accounts a ha).primary.nonempty
    · rw [hgroups.accounts, hnames]
      exact fun a ha => (mem_loadOrder hc _).mpr (hc.primary_exists a ha)
  have hfresh := refreshed hprimaries (by rw [hnames]; exact (mem_loadOrder hc _).mpr hc.root_group)
    (by rw [hnames]; exact (mem_loadOrder hc _).mpr hc.sudo_group)
  refine ⟨hfresh.frame.accounts.trans hgroups.accounts, hfresh.names.trans hnames, fun n i => ?_⟩
  cases ha : s.accounts[i]? with
  | none =>
    rw [hfresh.outside n i (by rwa [hgroups.accounts]), hsame]
  | some a =>
    have ha' : loaded.accounts[i]? = some a := by rwa [hgroups.accounts]
    by_cases hr : n = rootName
    · rw [hr, hfresh.root_members i a ha', hc.root_members i a ha]
    by_cases hs : n = sudoName
    · rw [hs, hfresh.sudo_members i a ha', hc.sudo_members i a ha, Bool.or_comm]
    rw [Bool.eq_iff_iff, hfresh.others n i hr hs, hsame, ha']
    refine ⟨fun h => h.elim id fun h => ?_, .inl⟩
    rw [← Option.some.inj h]
    exact hc.primary_member i a ha

theorem restored (hf : Formed s) (hr : Restorable s) (hc : Agreeing s) :
    Restored s (restart s) := by
  have h := loaded_groups (t := bootState) hf hr hc
  simp only [restart, userServiceStart]
  generalize userLoadGroupsDb _ _ = loaded at h ⊢
  exact ⟨h.accounts, h.names, h.members⟩

theorem loadOrder_nodup (s : UserState) : (loadOrder s).Nodup := by
  have h : ∀ (l names : List Str), names.Nodup → (l.foldl addName names).Nodup := by
    intro l
    induction l with
    | nil => exact fun _ hn => hn
    | cons n l ih => exact fun names hn => ih _ (addName_nodup hn n)
  exact h _ _ List.nodup_nil

theorem Restored.consistent {s' : UserState} (h : Restored s s') (hc : Consistent s) :
    Consistent s' := by
  have hmem : ∀ n, n ∈ groupNames s' ↔ n ∈ groupNames s := fun n => by
    rw [h.names, mem_loadOrder hc.agreeing]
  constructor
  · rw [h.accounts]
    exact hc.account_names
  · rw [h.names]
    exact loadOrder_nodup s
  · exact (hmem _).mpr hc.root_group
  · exact (hmem _).mpr hc.sudo_group
  · rw [h.accounts]
    exact fun a ha => (hmem _).mpr (hc.primary_exists a ha)
  · simp only [h.accounts, h.members]
    exact hc.primary_member
  · simp only [h.accounts, h.members]
    exact hc.root_members
  · simp only [h.accounts, h.members]
    exact hc.sudo_members
  · simp only [h.accounts, h.members]
    exact hc.members_inside
  · rw [h.accounts]
    exact hc.some_root

theorem Restored.formed {s' : UserState} (h : Restored s s') (hc : Agreeing s) (hf : Formed s) :
    Formed s' := by
  have hnodup : (groupNames s').Nodup := by
    rw [h.names]
    exact loadOrder_nodup s
  have hsub : groupNames s' ⊆ groupNames s := fun n hn => (mem_loadOrder hc n).mp (h.names ▸ hn)
  refine ⟨⟨?_, ?_⟩, ?_, fun n hn => hf.groups n (hsub hn)⟩
  · rw [h.accounts]
    exact hf.fits.accounts
  · have hlen := (List.subperm_of_subset hnodup hsub).length_le
    rw [groupNames, groupNames, List.length_map, List.length_map] at hlen
    exact hlen.trans hf.fits.groups
  · rw [h.accounts]
    exact hf.accounts

end Accounts
