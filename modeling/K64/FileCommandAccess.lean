import K64.FileTreeChanges

/-! # Ownership and modes under the file commands

Who may change what, for each command: a command that only makes something new is checked, and the
others are where the check is about another node than the change. -/
namespace FileCommands
open FileTree XfsDirectory
open Accounts (UserState userCanAccess userEffectiveUid userEffectiveGid userIsRoot userNextToken)

variable (st : Storage) (cwd : Str) (s : UserState) (f : Nodes)

/-- The file changes, the directories change and the owners stay as the modes have it. -/
structure Honoured (f f' : Nodes) : Prop where
  bytes : ∀ i n n', f i = some n → f' i = some n' → n'.data ≠ n.data →
    grants s (nodeStat n) accessWrite = true
  entries : ∀ i n n', f i = some n → f' i = some n' → n'.entries ≠ n.entries →
    grants s (nodeStat n) accessWriteExec = true
  owner : ∀ i n n', f i = some n → f' i = some n' →
    n'.uid = n.uid ∧ n'.gid = n.gid ∧ n'.mode = n.mode

def OwnedBy (uid gid : UInt32) (n : Node) : Prop := n.uid = uid ∧ n.gid = gid

def Owns (n : Node) : Prop := OwnedBy (userEffectiveUid s) (userEffectiveGid s) n

/-- The inode that the path leads to, and the names of the path. -/
def names (path : Str) : Option (List Str) := (fullPath cwd path).map tokens

def target (path : Str) : Option ℕ := (names cwd path).bind (resolve f)

def parentNode (path : Str) : Option Node := (names cwd path).bind fun ns => lookup f ns.dropLast

/-- The path is "/dev/null", whose pseudo file everybody may write. -/
def IsNull (path : Str) : Prop := fullPath cwd path = some nullPath

/-- A new file at the path would be made, in the directory `d`. -/
def Makes (path : Str) (d : Node) : Prop :=
  ∃ ns p leaf i, names cwd path = some ns ∧ Creates st f ns (newNode false 0 0) p d leaf i

def IsReal (path : Str) : Prop := ∃ full, fullPath cwd path = some full ∧ isPseudoPath full = false

structure Moves (old new : List Str) (p q i : ℕ) (e : Node) (oldLeaf newLeaf : Str) : Prop where
  old_eq : old = old.dropLast ++ [oldLeaf]
  new_eq : new = new.dropLast ++ [newLeaf]
  source : resolve f old.dropLast = some p
  target : resolve f new.dropLast = some q
  moved : resolve f old = some i
  node : f q = some e
  isDir : e.isDir = true
  missing : dirFind e newLeaf = none
  room : st.dirRoom f q = true

/-- Who owns the file already, and may write it or would not change it. -/
structure Overwrites (uid gid : UInt32) (n : Node) (data : Str) : Prop where
  owner : OwnedBy uid gid n
  bytes : n.data = data ∨ grants s (nodeStat n) accessWrite = true

/-- A file that can be removed is removed from a directory that the session may change. -/
def UnlinksOwn (path : Str) (accepts : Node → Bool) : Prop :=
  fsctlCanAccessPath cwd s f path accessWrite = true → ∀ i n d, target cwd f path = some i →
    f i = some n → accepts n = true → names cwd path ≠ some [] → parentNode cwd f path = some d →
      grants s (nodeStat d) accessWriteExec = true

/-- What a command asks beyond its own checks. -/
def Tidy (c : Command) (args : Str) : Prop :=
  match c with
  | .mkdir | .chmod | .chown => True
  | .mkdirp => fsctlRequireCreateAccess cwd s f args = true →
      ∀ i n, target cwd f args = some i → f i = some n → Owns s n
  | .touch => args ≠ [] → fsctlRequireWriteOrCreate cwd s f args = true →
      (∀ i n, target cwd f args = some i → f i = some n → Owns s n) ∧
        (IsNull cwd args → target cwd f args = none → ∀ d, Makes st cwd f args d →
          grants s (nodeStat d) accessWriteExec = true)
  | .write =>
      let path := userNextToken 64 args
      path.1 ≠ [] → fsctlRequireWriteOrCreate cwd s f path.1 = true →
        ∀ i n, target cwd f path.1 = some i → f i = some n →
          IsNull cwd path.1 ∨ IsReal cwd path.1 ∧ Stores st f i n path.2 → Owns s n
  | .append =>
      let path := userNextToken 64 args
      path.1 ≠ [] → fsctlRequireWriteOrCreate cwd s f path.1 = true →
        ∀ i n, target cwd f path.1 = some i → f i = some n → n.data.length + path.2.length ≤ rawMax →
          Stores st f i n (n.data ++ path.2) →
            Overwrites s (userEffectiveUid s) (userEffectiveGid s) n (n.data ++ path.2)
  | .rm => UnlinksOwn cwd s f args isRegular
  | .rmdir => UnlinksOwn cwd s f args isEmptyDir
  | .mv =>
      let src := userNextToken 64 args
      let dst := (userNextToken 64 src.2).1
      fsctlCanAccessPath cwd s f src.1 accessWrite = true → dst ≠ [] →
        fsctlRequireCreateAccess cwd s f dst = true →
        ∀ old new p q i e oldLeaf newLeaf d, names cwd src.1 = some old → names cwd dst = some new →
          Moves st f old new p q i e oldLeaf newLeaf → f p = some d →
            grants s (nodeStat d) accessWriteExec = true
  | .cp =>
      let src := userNextToken 64 args
      let dst := (userNextToken 64 src.2).1
      fsctlCanAccessPath cwd s f src.1 accessRead = true → dst ≠ [] →
        fsctlRequireCreateAccess cwd s f dst = true →
        ∀ i n j m, target cwd f src.1 = some i → f i = some n → n.isDir = false →
          n.data.length ≤ rawMax → target cwd f dst = some j → f j = some m → Stores st f j m n.data →
            Overwrites s (userEffectiveUid s) (userEffectiveGid s) m n.data
  | .k64cc => ∀ path data, k64ccTarget s args = some (path, data) → ∀ full,
      fullPath cwd path = some full → isPseudoPath full = false →
        (∀ i n, target cwd f path = some i → f i = some n → Stores st f i n data →
          Overwrites s 0 0 n data) ∧
        (target cwd f path = none → ∀ d, Makes st cwd f path d →
          grants s (nodeStat d) accessWriteExec = true)

variable {st cwd s f} {f' : Nodes}

theorem grants_not_root (hroot : userIsRoot s = false) (isDir : Bool) (size : ℕ) (mode mask : UInt32) :
    grants s ⟨isDir, size, mode, 0, 0⟩ mask = true →
      (((mode >>> 6) &&& 7) &&& mask = mask ∨ ((mode >>> 3) &&& 7) &&& mask = mask ∨
        (mode &&& 7) &&& mask = mask) := by
  unfold grants userCanAccess Accounts.bitsGrant Accounts.ownerBits Accounts.groupBits
    Accounts.otherBits
  simp only [hroot, Bool.false_eq_true, if_false]
  split
  · intro h
    exact .inl (by simpa using h)
  · split
    · intro h
      exact .inr (.inl (by simpa using h))
    · intro h
      exact .inr (.inr (by simpa using h))

variable {path : Str}

theorem pseudo_denied (hroot : userIsRoot s = false) {node : Stat}
    (h : pseudoStat pseudoSize path = some node) :
    grants s node accessWriteExec = false ∧ (path ≠ nullPath → grants s node accessWrite = false) := by
  have hdeny : ∀ (isDir : Bool) (size : ℕ) (mode mask : UInt32),
      ¬ (((mode >>> 6) &&& 7) &&& mask = mask ∨ ((mode >>> 3) &&& 7) &&& mask = mask ∨
        (mode &&& 7) &&& mask = mask) → grants s ⟨isDir, size, mode, 0, 0⟩ mask = false :=
    fun isDir size mode mask hno => Bool.of_not_eq_true fun hyes =>
      hno (grants_not_root hroot isDir size mode mask hyes)
  unfold pseudoStat at h
  split at h
  · obtain rfl := Option.some.inj h
    exact ⟨hdeny _ _ _ _ (by decide), fun _ => hdeny _ _ _ _ (by decide)⟩
  split at h
  next hnull =>
    obtain rfl := Option.some.inj h
    exact ⟨hdeny _ _ _ _ (by decide), fun hne => absurd hnull hne⟩
  split at h
  · obtain rfl := Option.some.inj h
    exact ⟨hdeny _ _ _ _ (by decide), fun _ => hdeny _ _ _ _ (by decide)⟩
  · simp at h

theorem canAccessPath_cases {mask : UInt32}
    (h : fsctlCanAccessPath cwd s f path mask = true) : path ≠ [] ∧ ∃ full node,
      fullPath cwd path = some full ∧ grants s node mask = true ∧
      (isPseudoPath full = true ∧ pseudoStat pseudoSize full = some node ∨
        isPseudoPath full = false ∧ ∃ i n, resolve f (tokens full) = some i ∧ f i = some n ∧
          node = nodeStat n) := by
  unfold fsctlCanAccessPath at h
  rw [Bool.and_eq_true, bne_iff_ne, Option.any_eq_true] at h
  obtain ⟨hne, node, hstat, hgrant⟩ := h
  obtain ⟨full, hfull, hnode⟩ := Option.bind_eq_some_iff.mp hstat
  refine ⟨hne, full, node, hfull, hgrant, ?_⟩
  split at hnode
  next hpseudo => exact .inl ⟨hpseudo, hnode⟩
  next hreal =>
    obtain ⟨n, hn, rfl⟩ := Option.map_eq_some_iff.mp hnode
    obtain ⟨i, hi, hin⟩ := lookup_eq_some.mp hn
    exact .inr ⟨Bool.of_not_eq_true hreal, i, n, hi, hin, rfl⟩

theorem write_checked (hroot : userIsRoot s = false) {full : Str}
    (h : fsctlCanAccessPath cwd s f path accessWrite = true) (hfull : fullPath cwd path = some full) :
    full = nullPath ∨ isPseudoPath full = false ∧ ∃ i n, resolve f (tokens full) = some i ∧
      f i = some n ∧ grants s (nodeStat n) accessWrite = true := by
  obtain ⟨-, full', node, hfull', hgrant, hpseudo | ⟨hreal, i, n, hi, hn, rfl⟩⟩ := canAccessPath_cases h
  · obtain rfl : full = full' := Option.some.inj (hfull.symm.trans hfull')
    refine .inl ?_
    by_contra hnull
    have := (pseudo_denied hroot hpseudo.2).2 hnull
    simp [hgrant] at this
  · obtain rfl : full = full' := Option.some.inj (hfull.symm.trans hfull')
    exact .inr ⟨hreal, i, n, hi, hn, hgrant⟩

theorem parent_checked (hroot : userIsRoot s = false) {full : Str} (hshort : path.length < 128)
    (h : fsctlRequireCreateAccess cwd s f path = true) (hfull : fullPath cwd path = some full) :
    ∃ dir q e, Beside (tokens full) dir ∧ resolve f dir = some q ∧ f q = some e ∧
      grants s (nodeStat e) accessWriteExec = true := by
  unfold fsctlRequireCreateAccess at h
  rw [Bool.and_eq_true, bne_iff_ne] at h
  obtain ⟨-, dir, node, hdir, hgrant, hpseudo | ⟨-, q, e, hq, he, rfl⟩⟩ := canAccessPath_cases h.2
  · have := (pseudo_denied hroot hpseudo.2).1
    simp [hgrant] at this
  · exact ⟨tokens dir, q, e, fullPath_beside h.1 hshort hfull hdir, hq, he, hgrant⟩

theorem Beside.missing {ns dir : List Str} {q : ℕ} (h : Beside ns dir) (hq : resolve f dir = some q)
    (hmissing : resolve f ns = none) : ∃ name, ns = dir ++ [name] := by
  rcases h with rfl | rfl | hentry
  · simp [hq] at hmissing
  · rcases List.eq_nil_or_concat dir with rfl | ⟨init, last, rfl⟩
    · simp [hq] at hmissing
    · rw [List.concat_eq_append] at hq hmissing
      rw [List.dropLast_concat] at hmissing
      obtain ⟨j, hj⟩ := resolve_prefix hq
      simp [hj] at hmissing
  · exact hentry

theorem create_checked (hroot : userIsRoot s = false) {full : Str} (hshort : path.length < 128)
    (h : fsctlRequireCreateAccess cwd s f path = true) (hfull : fullPath cwd path = some full)
    (hmissing : resolve f (tokens full) = none) {p : ℕ} {d : Node}
    (hp : resolve f (tokens full).dropLast = some p) (hd : f p = some d) :
    grants s (nodeStat d) accessWriteExec = true := by
  obtain ⟨dir, q, e, hbeside, hq, he, hgrant⟩ := parent_checked hroot hshort h hfull
  obtain ⟨name, hname⟩ := hbeside.missing hq hmissing
  rw [hname, List.dropLast_concat] at hp
  obtain rfl : q = p := Option.some.inj (hq.symm.trans hp)
  obtain rfl : e = d := Option.some.inj (he.symm.trans hd)
  exact hgrant

theorem honoured_unchanged (h : Unchanged f f') : Honoured s f f' where
  bytes i n n' hn hn' hdiff := by
    obtain rfl : n = n' := Option.some.inj ((h i n hn).symm.trans hn')
    exact absurd rfl hdiff
  entries i n n' hn hn' hdiff := by
    obtain rfl : n = n' := Option.some.inj ((h i n hn).symm.trans hn')
    exact absurd rfl hdiff
  owner i n n' hn hn' := by
    obtain rfl : n = n' := Option.some.inj ((h i n hn).symm.trans hn')
    exact ⟨rfl, rfl, rfl⟩

variable {n : Node} {i : ℕ}

theorem honoured_changed_iff {n' : Node} (hn : f i = some n) (hn' : f' i = some n')
    (hrest : ∀ j m m', j ≠ i → f j = some m → f' j = some m' → m' = m) :
    Honoured s f f' ↔ (n'.data ≠ n.data → grants s (nodeStat n) accessWrite = true) ∧
      (n'.entries ≠ n.entries → grants s (nodeStat n) accessWriteExec = true) ∧
      n'.uid = n.uid ∧ n'.gid = n.gid ∧ n'.mode = n.mode := by
  constructor
  · intro hh
    exact ⟨hh.bytes i n n' hn hn', hh.entries i n n' hn hn', hh.owner i n n' hn hn'⟩
  · rintro ⟨hbytes, hentries, howner⟩
    have hcase : ∀ j m m', f j = some m → f' j = some m' → m' = m ∨ m = n ∧ m' = n' := by
      intro j m m' hm hm'
      by_cases hj : j = i
      · subst hj
        exact .inr ⟨Option.some.inj (hm.symm.trans hn), Option.some.inj (hm'.symm.trans hn')⟩
      · exact .inl (hrest j m m' hj hm hm')
    constructor
    · intro j m m' hm hm' hdiff
      rcases hcase j m m' hm hm' with rfl | ⟨rfl, rfl⟩
      · exact absurd rfl hdiff
      · exact hbytes hdiff
    · intro j m m' hm hm' hdiff
      rcases hcase j m m' hm hm' with rfl | ⟨rfl, rfl⟩
      · exact absurd rfl hdiff
      · exact hentries hdiff
    · intro j m m' hm hm'
      rcases hcase j m m' hm hm' with rfl | ⟨rfl, rfl⟩
      · exact ⟨rfl, rfl, rfl⟩
      · exact howner

theorem honoured_only_iff {n' : Node} (hn : f i = some n) (h : Only f f' i n') :
    Honoured s f f' ↔ (n'.data ≠ n.data → grants s (nodeStat n) accessWrite = true) ∧
      (n'.entries ≠ n.entries → grants s (nodeStat n) accessWriteExec = true) ∧
      n'.uid = n.uid ∧ n'.gid = n.gid ∧ n'.mode = n.mode :=
  honoured_changed_iff hn h.1 fun j m _ hj hm hm' => Option.some.inj (hm'.symm.trans (h.2 j m hj hm))

theorem honoured_entry_iff {p : ℕ} {d : Node} {leaf : Str} (hd : f p = some d)
    (h : Only f f' p (d.addEntry leaf i)) :
    Honoured s f f' ↔ grants s (nodeStat d) accessWriteExec = true := by
  rw [honoured_only_iff hd h]
  simp [Node.addEntry]

theorem honoured_overwrite_iff {data : Str} {uid gid : UInt32}
    (hn : f i = some n) (h : Only f f' i { n with data := data, uid := uid, gid := gid }) :
    Honoured s f f' ↔ Overwrites s uid gid n data := by
  rw [honoured_only_iff hn h]
  constructor
  · rintro ⟨hbytes, -, huid, hgid, -⟩
    refine ⟨⟨huid.symm, hgid.symm⟩, ?_⟩
    by_cases hsame : n.data = data
    · exact .inl hsame
    · exact .inr (hbytes fun h => hsame h.symm)
  · rintro ⟨⟨huid, hgid⟩, hbytes⟩
    refine ⟨fun hdiff => ?_, fun hdiff => absurd rfl hdiff, huid.symm, hgid.symm, rfl⟩
    rcases hbytes with hsame | hwrite
    · exact absurd hsame.symm hdiff
    · exact hwrite

theorem honoured_owner_iff (hn : f i = some n)
    (h : Only f f' i (n.owned (userEffectiveUid s) (userEffectiveGid s))) :
    Honoured s f f' ↔ Owns s n := by
  have hover : Only f f' i { n with
      data := n.data, uid := userEffectiveUid s, gid := userEffectiveGid s } := h
  rw [honoured_overwrite_iff hn hover]
  exact ⟨fun h => h.owner, fun h => ⟨h, .inl rfl⟩⟩

end FileCommands
