import K64.FileCommandLaw

/-! # Checks of the `xfsctl` command

`xfsctl` names the files of a mounted volume behind the prefix "/x", and checks the session against
the records of that volume. The prefix is taken off wherever a path is used, also off the directory
part of a path that has lost it already. -/
namespace Xfsctl
open FsPaths FileTree XfsDirectory XfsPaths
open Accounts (UserState userEffectiveUid userEffectiveGid userNextToken)
open FileCommands (grants accessRead accessWrite accessWriteExec)

/-- A volume without an inode of two names. -/
structure Volume where
  nodes : Nodes
  unique : ∀ ns ms i, resolve nodes ns = some i → resolve nodes ms = some i → ns = ms

variable (st : Storage) (s : UserState) (v : Volume)

/-- "/x". -/
def mountPoint : Str := [slash, 120]

def accessReadExec : UInt32 := 5

def xfsctlPath (path : Str) : Str :=
  if path = [] then [slash]
  else if (mountPoint ++ [slash]).isPrefixOf path then path.drop 2
  else if path = mountPoint then [slash]
  else path

def xfsctlParentPath (path : Str) : Str :=
  let path := path.take 127
  let named := path.rdropWhile (· == slash)
  let named := if named = [] then path.take 1 else named
  let dir := named.rdropWhile (· != slash)
  if dir = [] then [slash] else if dir.length = 1 then dir else dir.dropLast

def directoryPart (path : Str) : Str := xfsctlParentPath (xfsctlPath path)

/-- `xfs_resolve`, which takes paths from the root only. -/
def inodeAt (f : Nodes) (path : Str) : Option ℕ :=
  if path.head? = some slash then resolve f (tokens path) else none

/-- `xfs_split_parent` finds a name that an entry can have. -/
def namesEntry (path : Str) : Bool :=
  path.head? == some slash && (tokens path).getLast?.any fun leaf => leaf != [dot] && leaf != [dot, dot]

/-- The inode whose record grants the access. -/
def xfsctlAccess (path : Str) (mask : UInt32) : Option ℕ :=
  (inodeAt v.nodes (xfsctlPath path)).filter fun i =>
    (v.nodes i).any fun n => grants s (nodeStat n) mask

def xfsctlCreate (path : Str) : Option ℕ := xfsctlAccess s v (directoryPart path) accessWriteExec

inductive Sub where
  | mkdir
  | write
  | append
  | cat
  | rm
  | rmdir
  | ls
  deriving DecidableEq

/-- The checks that admitted a command, what it showed with the access that this takes, and what it
left. -/
structure Outcome where
  checked : List (ℕ × UInt32)
  shown : List (ℕ × UInt32)
  nodes : Nodes

def refused : Outcome := ⟨[], [], v.nodes⟩

def admittedBy (check : Option ℕ) (mask : UInt32) (act : Outcome → Outcome) : Outcome :=
  match check with
  | none => refused v
  | some i => act ⟨[(i, mask)], [], v.nodes⟩

def makeDirectory (path : Str) : Nodes :=
  if namesEntry path then
    (xfsCreateAt st v.nodes (tokens path) true (userEffectiveUid s) (userEffectiveGid s)).2
  else v.nodes

def storeFile (path data : Str) : Nodes :=
  if (inodeAt v.nodes path).isSome ∨ namesEntry path then
    (xfsWriteFile st v.nodes (tokens path) data (userEffectiveUid s) (userEffectiveGid s)).2
  else v.nodes

def takeOut (path : Str) (accepts : Node → Bool) : Nodes :=
  if namesEntry path then (xfsUnlink v.nodes (tokens path) accepts).2 else v.nodes

/-- What `append` finds in the file, in a buffer of 512 bytes. -/
def oldText (path : Str) : Str :=
  match (inodeAt v.nodes path).bind v.nodes with
  | some n => if n.isDir then [] else n.data.take 512
  | none => []

/-- Stores the text behind the old one, if both fit in the buffer. -/
def writeText (path old text : Str) (o : Outcome) : Outcome :=
  if 512 < old.length + text.length then o
  else { o with nodes := storeFile st s v path (old ++ text) }

def writeCommand (path old text : Str) : Outcome :=
  if (inodeAt v.nodes (xfsctlPath path)).isSome then
    admittedBy v (xfsctlAccess s v path accessWrite) accessWrite
      (writeText st s v (xfsctlPath path) old text)
  else
    admittedBy v (xfsctlCreate s v path) accessWriteExec (writeText st s v (xfsctlPath path) old text)

/-- The file or directory at the path is shown. -/
def reveal (path : Str) (isDir : Bool) (mask : UInt32) (o : Outcome) : Outcome :=
  match inodeAt v.nodes path with
  | none => o
  | some i => if (v.nodes i).any fun n => n.isDir == isDir then { o with shown := [(i, mask)] } else o

def run (c : Sub) (args : Str) : Outcome :=
  let a := (userNextToken 128 args).1
  let text := (userNextToken 128 args).2
  match c with
  | .mkdir => admittedBy v (xfsctlCreate s v a) accessWriteExec fun o =>
      { o with nodes := makeDirectory st s v (xfsctlPath a) }
  | .write => writeCommand st s v a [] text
  | .append => writeCommand st s v a (oldText v (xfsctlPath a)) text
  | .cat => admittedBy v (xfsctlAccess s v a accessRead) accessRead
      (reveal v (xfsctlPath a) false accessRead)
  | .rm => admittedBy v (xfsctlAccess s v a accessWrite) accessWrite fun o =>
      { o with nodes := takeOut v (xfsctlPath a) isRegular }
  | .rmdir => admittedBy v (xfsctlAccess s v a accessWrite) accessWrite fun o =>
      { o with nodes := takeOut v (xfsctlPath a) isEmptyDir }
  | .ls =>
      let path := if a = [] then mountPoint else a
      admittedBy v (xfsctlAccess s v path accessReadExec) accessReadExec
        (reveal v (xfsctlPath path) true accessReadExec)

/-- What is changed or shown was checked for that. -/
structure Lawful (o : Outcome) : Prop where
  directories : ∀ i n n', v.nodes i = some n → o.nodes i = some n' → n'.entries ≠ n.entries →
    (i, accessWriteExec) ∈ o.checked
  files : ∀ i n n', v.nodes i = some n → o.nodes i = some n' → n'.data ≠ n.data →
    (i, accessWrite) ∈ o.checked
  shown : ∀ r ∈ o.shown, r ∈ o.checked

def CanMake (path : Str) (isDir : Bool) : Prop :=
  namesEntry (xfsctlPath path) = true ∧ ∃ p d leaf i, Creates st v.nodes (tokens (xfsctlPath path))
    (newNode isDir (userEffectiveUid s) (userEffectiveGid s)) p d leaf i

def CanTakeOut (path : Str) (accepts : Node → Bool) : Prop :=
  namesEntry (xfsctlPath path) = true ∧ ∃ i n, resolve v.nodes (tokens (xfsctlPath path)) = some i ∧
    v.nodes i = some n ∧ accepts n = true

/-- The directory part of the path does not begin with the prefix once more. -/
def PrefixOnce (path : Str) : Prop := xfsctlPath (directoryPart path) = directoryPart path

/-- What a command asks beyond its own checks. -/
def Careful (c : Sub) (args : Str) : Prop :=
  let a := (userNextToken 128 args).1
  let text := (userNextToken 128 args).2
  match c with
  | .mkdir => (xfsctlCreate s v a).isSome → CanMake st s v a true → PrefixOnce a
  | .write | .append => (xfsctlCreate s v a).isSome → text.length ≤ 512 → CanMake st s v a false →
      PrefixOnce a
  | .cat | .ls => True
  | .rm => (xfsctlAccess s v a accessWrite).isSome → ¬CanTakeOut v a isRegular
  | .rmdir => (xfsctlAccess s v a accessWrite).isSome → ¬CanTakeOut v a isEmptyDir

variable {st s v} {path : Str}

theorem directory_tokens {u : Str} (hhead : u.head? = some slash) (hshort : u.length ≤ 127)
    (hne : tokens u ≠ []) : tokens (xfsctlParentPath u) = (tokens u).dropLast ∧
      (xfsctlParentPath u).head? = some slash := by
  have hwhole : u.take 127 = u := List.take_of_length_le hshort
  have hnamed : u.rdropWhile (· == slash) ≠ [] := by
    intro hnil
    have hall : u.rtakeWhile (· == slash) = u := by
      have := List.rdropWhile_append_rtakeWhile (p := (· == slash)) (l := u)
      rwa [hnil, List.nil_append] at this
    refine hne ?_
    have hslashes : ∀ x ∈ u, x = slash := fun x hx => by
      rw [← hall] at hx
      simpa using List.mem_rtakeWhile_imp hx
    simpa using tokens_slashes [] hslashes
  obtain ⟨init, leaf, ss, hu, hdrop, hleaf, hslash, hss⟩ := path_shape hhead hnamed
  have hleafne : leaf ≠ [] := by
    rintro rfl
    have := List.rdropWhile_last_not (· == slash) u hnamed
    simp [hdrop] at this
  have hdir : (init ++ slash :: leaf).rdropWhile (· != slash) = init ++ [slash] := by
    have := List.rdropWhile_append_rtakeWhile (p := (· != slash)) (l := init ++ slash :: leaf)
    rw [hdrop] at hleaf
    rw [hleaf] at this
    have hsplit : (init ++ slash :: leaf).rdropWhile (· != slash) ++ leaf =
        (init ++ [slash]) ++ leaf := by
      rw [this, List.append_assoc, List.singleton_append]
    exact List.append_cancel_right hsplit
  have hparent : xfsctlParentPath u = if init = [] then [slash] else init := by
    unfold xfsctlParentPath
    simp only [hwhole, if_neg hnamed]
    rw [hdrop, hdir, if_neg (by simp)]
    by_cases hinit : init = []
    · simp [hinit]
    · simp [hinit]
  have htokens : tokens u = tokens init ++ [leaf] := by
    rw [hu, List.append_assoc, List.cons_append, tokens_slash, tokens_slashes leaf hss,
      tokens_word hslash hleafne]
  rw [hparent, htokens, List.dropLast_concat]
  by_cases hinit : init = []
  · rw [if_pos hinit, hinit, tokens_root]
    exact ⟨rfl, rfl⟩
  · rw [if_neg hinit]
    refine ⟨rfl, ?_⟩
    rw [hu, List.append_assoc, List.head?_append_of_ne_nil _ hinit] at hhead
    exact hhead

variable {i : ℕ}

theorem inodeAt_some {f : Nodes} (h : inodeAt f path = some i) :
    path.head? = some slash ∧ resolve f (tokens path) = some i := by
  unfold inodeAt at h
  split at h
  next hhead => exact ⟨hhead, h⟩
  · cases h

theorem xfsctlPath_cases (path : Str) : xfsctlPath path = path ∨
    (xfsctlPath path = [slash] ∧ (path = [] ∨ path = mountPoint)) ∨
    ∃ rest, path = mountPoint ++ slash :: rest ∧ xfsctlPath path = slash :: rest := by
  unfold xfsctlPath
  split
  next hnil => exact .inr (.inl ⟨rfl, .inl hnil⟩)
  · split
    next hprefix =>
      obtain ⟨rest, rfl⟩ := List.isPrefixOf_iff_prefix.mp hprefix
      exact .inr (.inr ⟨rest, by simp, by simp [mountPoint]⟩)
    · split
      next hmount => exact .inr (.inl ⟨rfl, .inr hmount⟩)
      · exact .inl rfl

theorem prefix_once_iff {p j : ℕ} (hhead : path.head? = some slash)
    (hp : resolve v.nodes (tokens path) = some p) (hj : inodeAt v.nodes (xfsctlPath path) = some j) :
    j = p ↔ xfsctlPath path = path := by
  obtain ⟨-, hj⟩ := inodeAt_some hj
  constructor
  · rintro rfl
    have hsame := v.unique _ _ _ hj hp
    rcases xfsctlPath_cases path with hpath | ⟨hpath, rfl | rfl⟩ | ⟨rest, rfl, hpath⟩
    · exact hpath
    · cases hhead
    · rw [hpath] at hsame
      exact absurd hsame (by decide)
    · rw [hpath, tokens_slash] at hsame
      have hrest : tokens (slash :: rest) = tokens rest := by simpa using tokens_slash [] rest
      have hmount : tokens mountPoint = [[120]] := by decide
      rw [hrest, hmount] at hsame
      have := congrArg List.length hsame
      simp at this
  · intro hpath
    rw [hpath, hp] at hj
    exact (Option.some.inj hj).symm

theorem access_some {mask : UInt32} (h : xfsctlAccess s v path mask = some i) :
    inodeAt v.nodes (xfsctlPath path) = some i := (Option.filter_eq_some_iff.mp h).1

theorem lawful_unchanged {o : Outcome} (h : Unchanged v.nodes o.nodes)
    (hshown : ∀ r ∈ o.shown, r ∈ o.checked) : Lawful v o where
  directories i n n' hn hn' hdiff := by
    obtain rfl := Option.some.inj ((h i n hn).symm.trans hn')
    exact absurd rfl hdiff
  files i n n' hn hn' hdiff := by
    obtain rfl := Option.some.inj ((h i n hn).symm.trans hn')
    exact absurd rfl hdiff
  shown := hshown

theorem lawful_refused : Lawful v (refused v) := lawful_unchanged .refl nofun

theorem lawful_made_iff {o : Outcome} {p : ℕ} {d : Node} {leaf : Str} (hd : v.nodes p = some d)
    (h : Only v.nodes o.nodes p (d.addEntry leaf i)) (hshown : o.shown = []) :
    Lawful v o ↔ (p, accessWriteExec) ∈ o.checked := by
  constructor
  · intro hl
    refine hl.directories p d _ hd h.1 fun hsame => ?_
    have := congrArg List.length hsame
    simp [Node.addEntry] at this
  · intro hmem
    constructor
    · intro j n n' hn hn' hdiff
      by_cases hj : j = p
      · exact hj ▸ hmem
      · obtain rfl := Option.some.inj ((h.2 j n hj hn).symm.trans hn')
        exact absurd rfl hdiff
    · intro j n n' hn hn' hdiff
      by_cases hj : j = p
      · subst hj
        obtain rfl := Option.some.inj (hd.symm.trans hn)
        obtain rfl := Option.some.inj (h.1.symm.trans hn')
        exact absurd rfl hdiff
      · obtain rfl := Option.some.inj ((h.2 j n hj hn).symm.trans hn')
        exact absurd rfl hdiff
    · rw [hshown]
      exact fun _ h => absurd h List.not_mem_nil

theorem create_lawful_iff {new : Node} {p j : ℕ} {d : Node} {leaf : Str} {o : Outcome}
    (hshort : (xfsctlPath path).length ≤ 127) (hcheck : xfsctlCreate s v path = some j)
    (hentry : namesEntry (xfsctlPath path) = true)
    (hmake : Creates st v.nodes (tokens (xfsctlPath path)) new p d leaf i)
    (honly : Only v.nodes o.nodes p (d.addEntry leaf i)) (hshown : o.shown = [])
    (hchecked : o.checked = [(j, accessWriteExec)]) : Lawful v o ↔ PrefixOnce path := by
  have hhead : (xfsctlPath path).head? = some slash := by
    unfold namesEntry at hentry
    rw [Bool.and_eq_true, beq_iff_eq] at hentry
    exact hentry.1
  have hne : tokens (xfsctlPath path) ≠ [] := by
    rw [hmake.names_eq]
    simp
  obtain ⟨htokens, hdir⟩ := directory_tokens hhead hshort hne
  have hp : resolve v.nodes (tokens (directoryPart path)) = some p := by
    rw [directoryPart, htokens]
    exact hmake.parent
  have hdir' : (directoryPart path).head? = some slash := hdir
  rw [lawful_made_iff hmake.node honly hshown, hchecked, List.mem_singleton, PrefixOnce,
    ← prefix_once_iff hdir' hp (access_some hcheck)]
  constructor
  · intro heq
    exact (Prod.mk.inj heq).1.symm
  · rintro rfl
    rfl

theorem xfsctlPath_length (path : Str) : (xfsctlPath path).length ≤ max 1 path.length := by
  rcases xfsctlPath_cases path with hpath | ⟨hpath, -⟩ | ⟨rest, rfl, hpath⟩
  · rw [hpath]
    exact Nat.le_max_right ..
  · rw [hpath]
    exact Nat.le_max_left ..
  · rw [hpath]
    simp [mountPoint]

theorem token_path_length (args : Str) : (xfsctlPath (userNextToken 128 args).1).length ≤ 127 := by
  have htoken : (userNextToken 128 args).1.length ≤ 127 := List.length_take_le _ _
  exact (xfsctlPath_length _).trans (by omega)

theorem mkdir_lawful_iff (args : Str) :
    Lawful v (run st s v .mkdir args) ↔ Careful st s v .mkdir args := by
  have hshort := token_path_length args
  unfold run Careful
  simp only
  generalize (userNextToken 128 args).1 = a at hshort ⊢
  rcases hcheck : xfsctlCreate s v a with _ | j
  · exact iff_of_true lawful_refused fun h => by cases h
  have hsome : (some j).isSome = true := rfl
  simp only [admittedBy, hsome, forall_true_left]
  unfold makeDirectory
  by_cases hentry : namesEntry (xfsctlPath a) = true
  · rw [if_pos hentry]
    rcases create_cases st v.nodes (tokens (xfsctlPath a)) true (userEffectiveUid s)
      (userEffectiveGid s) with ⟨-, hsame, hnone⟩ | ⟨p, d, leaf, i, hmake, hmade⟩
    · refine iff_of_true (lawful_unchanged hsame nofun) ?_
      rintro ⟨-, p, d, leaf, i, hmake⟩
      exact absurd hmake (hnone p d leaf i)
    · rw [hmade, create_lawful_iff hshort hcheck hentry hmake hmake.only rfl rfl]
      exact ⟨fun h _ => h, fun h => h ⟨hentry, p, d, leaf, i, hmake⟩⟩
  · rw [if_neg hentry]
    exact iff_of_true (lawful_unchanged .refl nofun) fun h => absurd h.1 hentry

theorem stored_lawful {u data : Str} (hi : inodeAt v.nodes u = some i) :
    Lawful v ⟨[(i, accessWrite)], [], storeFile st s v u data⟩ := by
  obtain ⟨-, hres⟩ := inodeAt_some hi
  obtain ⟨n, hn⟩ := resolve_some hres
  have hstore : storeFile st s v u data = (writeNode st v.nodes i data (userEffectiveUid s)
      (userEffectiveGid s)).2 := by
    unfold storeFile
    rw [if_pos (.inl (by rw [hi]; rfl)), writeFile_existing hres]
  rw [hstore]
  rcases writeNode_cases st hn data (userEffectiveUid s) (userEffectiveGid s) with
    ⟨-, hwrite⟩ | ⟨-, hwrite⟩
  · rw [hwrite]
    constructor
    · intro k m m' hm hm' hdiff
      by_cases hk : k = i
      · subst hk
        obtain rfl := Option.some.inj (hn.symm.trans hm)
        obtain rfl := Option.some.inj ((setNode_self ..).symm.trans hm')
        exact absurd rfl hdiff
      · obtain rfl := Option.some.inj (hm.symm.trans ((setNode_ne _ _ hk).symm.trans hm'))
        exact absurd rfl hdiff
    · intro k m m' hm hm' hdiff
      by_cases hk : k = i
      · exact hk ▸ List.mem_singleton_self _
      · obtain rfl := Option.some.inj (hm.symm.trans ((setNode_ne _ _ hk).symm.trans hm'))
        exact absurd rfl hdiff
    · nofun
  · rw [hwrite]
    exact lawful_unchanged .refl nofun

theorem written_lawful_iff {a old text : Str} (hshort : (xfsctlPath a).length ≤ 127)
    (hold : inodeAt v.nodes (xfsctlPath a) = none → old = []) :
    Lawful v (writeCommand st s v a old text) ↔
      ((xfsctlCreate s v a).isSome → text.length ≤ 512 → CanMake st s v a false → PrefixOnce a) := by
  unfold writeCommand
  rcases hi : inodeAt v.nodes (xfsctlPath a) with _ | i
  · rw [if_neg (by simp)]
    obtain rfl := hold hi
    rcases hcheck : xfsctlCreate s v a with _ | j
    · exact iff_of_true lawful_refused fun h => by cases h
    have hsome : (some j).isSome = true := rfl
    simp only [admittedBy, hsome, forall_true_left, writeText, List.length_nil, Nat.zero_add,
      List.nil_append]
    split
    next hlong =>
      exact iff_of_true (lawful_unchanged .refl nofun) fun hfits => absurd hlong (by omega)
    next hfits =>
      rw [imp_iff_right (Nat.le_of_not_lt hfits)]
      unfold storeFile
      by_cases hentry : namesEntry (xfsctlPath a) = true
      · have hhead : (xfsctlPath a).head? = some slash := by
          unfold namesEntry at hentry
          rw [Bool.and_eq_true, beq_iff_eq] at hentry
          exact hentry.1
        have hmissing : resolve v.nodes (tokens (xfsctlPath a)) = none := by
          rw [inodeAt, if_pos hhead] at hi
          exact hi
        rw [if_pos (.inr hentry)]
        rcases writeFile_new st hmissing text (userEffectiveUid s) (userEffectiveGid s) with
          ⟨-, hsame, hnone⟩ | ⟨p, d, leaf, i, hmake, honly, -⟩
        · refine iff_of_true (lawful_unchanged hsame nofun) ?_
          rintro ⟨-, p, d, leaf, i, hmake⟩
          exact absurd hmake (hnone p d leaf i)
        · rw [create_lawful_iff hshort hcheck hentry hmake honly rfl rfl]
          exact ⟨fun h _ => h, fun h => h ⟨hentry, p, d, leaf, i, hmake⟩⟩
      · rw [if_neg (by simp [hi, hentry])]
        exact iff_of_true (lawful_unchanged .refl nofun) fun h => absurd h.1 hentry
  · rw [if_pos (show (some i).isSome = true from rfl)]
    have hnot : ¬CanMake st s v a false := by
      rintro ⟨-, p, d, leaf, k, hmake⟩
      have hfound := (inodeAt_some hi).2
      rw [hmake.absent] at hfound
      cases hfound
    refine iff_of_true ?_ fun _ _ h => absurd h hnot
    rcases hcheck : xfsctlAccess s v a accessWrite with _ | j
    · exact lawful_refused
    · obtain rfl : i = j := Option.some.inj (hi.symm.trans (access_some hcheck))
      simp only [admittedBy, writeText]
      split
      · exact lawful_unchanged .refl nofun
      · exact stored_lawful hi

theorem reveal_lawful {mask : UInt32} (isDir : Bool) :
    Lawful v (admittedBy v (xfsctlAccess s v path mask) mask
      (reveal v (xfsctlPath path) isDir mask)) := by
  rcases hcheck : xfsctlAccess s v path mask with _ | j
  · exact lawful_refused
  · simp only [admittedBy, reveal, access_some hcheck]
    split
    · exact lawful_unchanged .refl fun r hr => hr
    · exact lawful_unchanged .refl nofun

theorem takeOut_lawful_iff {accepts : Node → Bool}
    (haccepts : ∀ n leaf, accepts n = true → dirFind n leaf = none) :
    Lawful v (admittedBy v (xfsctlAccess s v path accessWrite) accessWrite fun o =>
        { o with nodes := takeOut v (xfsctlPath path) accepts }) ↔
      ((xfsctlAccess s v path accessWrite).isSome → ¬CanTakeOut v path accepts) := by
  rcases hcheck : xfsctlAccess s v path accessWrite with _ | j
  · exact iff_of_true lawful_refused fun h => by cases h
  have hsome : (some j).isSome = true := rfl
  simp only [admittedBy, hsome, forall_true_left]
  unfold takeOut
  by_cases hentry : namesEntry (xfsctlPath path) = true
  · rw [if_pos hentry]
    have hne : tokens (xfsctlPath path) ≠ [] := by
      intro hnil
      unfold namesEntry at hentry
      simp [hnil] at hentry
    rcases unlink_cases v.nodes (tokens (xfsctlPath path)) haccepts with
      ⟨hsame, hnone⟩ | ⟨p, d, leaf, i, n, -, -, hd, hfind, hi, hn, hyes, hpi, hmade⟩
    · refine iff_of_true (lawful_unchanged (by rw [hsame]; exact .refl) nofun) ?_
      rintro ⟨-, i, n, hi, hn, hyes⟩
      rw [hnone i n hne hi hn] at hyes
      cases hyes
    · refine iff_of_false (fun hl => ?_) fun h => h ⟨hentry, i, n, hi, hn, hyes⟩
      have hdropped : (xfsUnlink v.nodes (tokens (xfsctlPath path)) accepts).2 p =
          some (d.dropEntry leaf) := by
        rw [hmade, Function.update_of_ne hpi, setNode_self]
      have hmem := hl.directories p d _ hd hdropped (dropEntry_ne hfind)
      rw [List.mem_singleton] at hmem
      exact absurd (Prod.mk.inj hmem).2 (by decide)
  · rw [if_neg hentry]
    exact iff_of_true (lawful_unchanged .refl nofun) fun h => absurd h.1 hentry

/-- Every command acts on what it checked, but for entries that are made below a directory part which
begins with the prefix again, and for entries that are taken out. -/
theorem run_lawful_iff (st : Storage) (s : UserState) (v : Volume) (c : Sub) (args : Str) :
    Lawful v (run st s v c args) ↔ Careful st s v c args := by
  have hshort := token_path_length args
  cases c with
  | mkdir => exact mkdir_lawful_iff args
  | write => exact written_lawful_iff hshort fun _ => rfl
  | append =>
    refine written_lawful_iff hshort fun hnone => ?_
    rw [oldText, hnone]
    rfl
  | cat => exact iff_of_true (reveal_lawful false) trivial
  | rm => exact takeOut_lawful_iff fun _ leaf => dirFind_of_regular leaf
  | rmdir => exact takeOut_lawful_iff fun _ leaf => dirFind_of_emptyDir leaf
  | ls => exact iff_of_true (reveal_lawful true) trivial

/-- "/", open to everybody, with the directory "x" of root. -/
def innerTree : Nodes
  | 1 => some ⟨true, [], [([120], 2)], 1, 0o040777, 0, 0⟩
  | 2 => some ⟨true, [], [], 1, 0o040755, 0, 0⟩
  | _ => none

theorem innerTree_resolve {ns : List Str} (h : resolve innerTree ns = some i) :
    ns = [] ∧ i = 1 ∨ ns = [[120]] ∧ i = 2 := by
  rcases ns with _ | ⟨name, rest⟩
  · exact .inl ⟨rfl, (Option.some.inj h).symm⟩
  by_cases hname : name = [120]
  · subst hname
    rcases rest with _ | ⟨name', rest'⟩
    · exact .inr ⟨rfl, (Option.some.inj h).symm⟩
    · cases h
  · have hnone : resolve innerTree (name :: rest) = none := by
      have hne : ([120] == name) = false := beq_eq_false_iff_ne.mpr fun heq => hname heq.symm
      simp [resolve, walk, rootInode, innerTree, dirFind, hne]
    rw [hnone] at h
    cases h

def innerVolume : Volume where
  nodes := innerTree
  unique ns ms i hns hms := by
    rcases innerTree_resolve hns with ⟨rfl, rfl⟩ | ⟨rfl, rfl⟩
    · rcases innerTree_resolve hms with ⟨rfl, -⟩ | ⟨-, hi⟩
      · rfl
      · cases hi
    · rcases innerTree_resolve hms with ⟨-, hi⟩ | ⟨rfl, -⟩
      · cases hi
      · rfl

/-- The guest makes "a" in the directory "x" of root. -/
theorem inner_directory_changed : ¬∀ (st : Storage) (s : UserState) (v : Volume) (c : Sub) (args : Str),
    Lawful v (run st s v c args) := by
  intro h
  have hl := h FileCommands.roomy Accounts.guestSession innerVolume .mkdir
    [slash, 120, slash, 120, slash, 97]
  have hmade : ((run FileCommands.roomy Accounts.guestSession innerVolume .mkdir
      [slash, 120, slash, 120, slash, 97]).nodes 2).map Node.entries = some [([97], 9)] := by decide
  obtain ⟨n', hn', hentries⟩ := Option.map_eq_some_iff.mp hmade
  have hmem := hl.directories 2 ⟨true, [], [], 1, 0o040755, 0, 0⟩ n' rfl hn' (by rw [hentries]; simp)
  exact absurd hmem (by decide)

end Xfsctl
