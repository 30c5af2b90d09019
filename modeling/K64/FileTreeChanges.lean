import K64.FsParentPaths

/-! # What the file calls change

Every call that changes the volume changes one directory, one file or one of each; the rest of the
nodes that were there stays. -/
namespace FileTree
open XfsDirectory

variable {st : Storage} {f f' f'' : Nodes}

@[simp] theorem setNode_self (f : Nodes) (i : ℕ) (n : Node) : setNode f i n i = some n :=
  Function.update_self ..

variable {i : ℕ}

theorem setNode_ne (f : Nodes) {j : ℕ} (n : Node) (h : j ≠ i) : setNode f i n j = f j :=
  Function.update_of_ne h ..

variable {names : List Str}

theorem walk_some {j : ℕ} (h : walk f i names = some j) : ∃ n, f j = some n := by
  induction names generalizing i with
  | nil =>
    obtain ⟨n, hn, rfl⟩ := Option.map_eq_some_iff.mp h
    exact ⟨n, hn⟩
  | cons name rest ih =>
    obtain ⟨n, -, hrest⟩ := Option.bind_eq_some_iff.mp h
    obtain ⟨k, -, hk⟩ := Option.bind_eq_some_iff.mp hrest
    exact ih hk

theorem walk_append (f : Nodes) (i : ℕ) (xs ys : List Str) :
    walk f i (xs ++ ys) = (walk f i xs).bind fun j => walk f j ys := by
  induction xs generalizing i with
  | nil =>
    rcases hi : f i with _ | n
    · cases ys with
      | nil => simp [walk, hi]
      | cons y ys => simp [walk, hi]
    · simp [walk, hi]
  | cons x xs ih =>
    rcases hi : f i with _ | n
    · simp [walk, hi]
    · rcases hfind : dirFind n x with _ | j
      · simp [walk, hi, hfind]
      · simp [walk, hi, hfind, ih]

theorem resolve_some (h : resolve f names = some i) : ∃ n, f i = some n :=
  walk_some h

variable {parent : List Str} {d : Node} {leaf : Str} {p : ℕ}

theorem resolve_concat
    (hp : resolve f parent = some p) (hd : f p = some d) :
    resolve f (parent ++ [leaf]) = (dirFind d leaf).bind fun i => (f i).map fun _ => i := by
  unfold resolve at hp ⊢
  rw [walk_append, hp]
  simp [walk, hd]

theorem resolve_concat_some
    (h : resolve f (parent ++ [leaf]) = some i) :
    ∃ p d, resolve f parent = some p ∧ f p = some d ∧ dirFind d leaf = some i := by
  unfold resolve at h ⊢
  rw [walk_append] at h
  obtain ⟨p, hp, hleaf⟩ := Option.bind_eq_some_iff.mp h
  obtain ⟨d, hd, hfind⟩ := Option.bind_eq_some_iff.mp hleaf
  obtain ⟨j, hj, hwalk⟩ := Option.bind_eq_some_iff.mp hfind
  obtain ⟨-, -, rfl⟩ := Option.map_eq_some_iff.mp hwalk
  exact ⟨p, d, hp, hd, hj⟩

theorem resolve_prefix {xs ys : List Str} (h : resolve f (xs ++ ys) = some i) :
    ∃ j, resolve f xs = some j := by
  unfold resolve at h ⊢
  rw [walk_append] at h
  obtain ⟨j, hj, -⟩ := Option.bind_eq_some_iff.mp h
  exact ⟨j, hj⟩

theorem resolve_mono
    (h : ∀ j n, f j = some n → ∃ n', f' j = some n' ∧
      ∀ name k, dirFind n name = some k → dirFind n' name = some k) (hi : resolve f names = some i) :
    resolve f' names = some i := by
  unfold resolve at hi ⊢
  generalize rootInode = r at hi ⊢
  induction names generalizing r with
  | nil =>
    obtain ⟨n, hn, rfl⟩ := Option.map_eq_some_iff.mp hi
    obtain ⟨n', hn', -⟩ := h r n hn
    simp [walk, hn']
  | cons name rest ih =>
    obtain ⟨n, hn, hrest⟩ := Option.bind_eq_some_iff.mp hi
    obtain ⟨k, hk, hwalk⟩ := Option.bind_eq_some_iff.mp hrest
    obtain ⟨n', hn', hkeep⟩ := h r n hn
    simp [walk, hn', hkeep name k hk, ih k hwalk]

variable {n : Node}

theorem lookup_eq_some :
    lookup f names = some n ↔ ∃ i, resolve f names = some i ∧ f i = some n :=
  Option.bind_eq_some_iff

theorem lookup_none : lookup f names = none ↔ resolve f names = none := by
  constructor
  · intro h
    by_contra hsome
    obtain ⟨i, hi⟩ := Option.ne_none_iff_exists'.mp hsome
    obtain ⟨n, hn⟩ := resolve_some hi
    simp [lookup, hi, hn] at h
  · intro h
    simp [lookup, h]

def Unchanged (f f' : Nodes) : Prop := ∀ j n, f j = some n → f' j = some n

def Only (f f' : Nodes) (i : ℕ) (n : Node) : Prop :=
  f' i = some n ∧ ∀ j m, j ≠ i → f j = some m → f' j = some m

theorem Unchanged.refl : Unchanged f f := fun _ _ h => h

theorem only_setNode (f : Nodes) (i : ℕ) (n : Node) : Only f (setNode f i n) i n :=
  ⟨setNode_self f i n, fun _ _ hj hm => (setNode_ne f n hj).trans hm⟩

theorem dirFind_addEntry (hdir : d.isDir = true)
    (hnone : dirFind d leaf = none) : dirFind (d.addEntry leaf i) leaf = some i := by
  have hfind : d.entries.find? (fun e => e.1 == leaf) = none := by simpa [dirFind, hdir] using hnone
  simp [dirFind, Node.addEntry, hdir, List.find?_append, hfind]

theorem dirFind_addEntry_of_some {name : Str} {k : ℕ}
    (h : dirFind d name = some k) : dirFind (d.addEntry leaf i) name = some k := by
  unfold dirFind at h ⊢
  split at h
  next hdir =>
    obtain ⟨e, he, rfl⟩ := Option.map_eq_some_iff.mp h
    simp [Node.addEntry, hdir, List.find?_append, he]
  · simp at h

theorem dropEntry_ne (h : dirFind d leaf = some i) :
    (d.dropEntry leaf).entries ≠ d.entries := by
  unfold dirFind at h
  split at h
  · obtain ⟨e, he, -⟩ := Option.map_eq_some_iff.mp h
    intro hsame
    have hlen := congrArg List.length hsame
    have hmem := List.mem_of_find?_eq_some he
    have hpos := List.length_pos_of_mem hmem
    rw [Node.dropEntry, List.length_eraseP_of_mem hmem (List.find?_some he)] at hlen
    omega
  · simp at h

structure Creates (st : Storage) (f : Nodes) (names : List Str) (new : Node) (p : ℕ) (d : Node)
    (leaf : Str) (i : ℕ) : Prop where
  names_eq : names = names.dropLast ++ [leaf]
  parent : resolve f names.dropLast = some p
  node : f p = some d
  isDir : d.isDir = true
  missing : dirFind d leaf = none
  inode : st.allocInode f = some i
  extent : new.isDir = true → st.allocExtent (setNode f i new) i 1 = true
  room : st.dirRoom (setNode f i new) p = true

theorem splitParent_some
    (h : splitParent names = some (parent, leaf)) :
    parent = names.dropLast ∧ names = names.dropLast ++ [leaf] := by
  obtain ⟨last, hlast, heq⟩ := Option.map_eq_some_iff.mp h
  obtain ⟨rfl, rfl⟩ := Prod.mk.inj heq
  exact ⟨rfl, (List.dropLast_append_getLast? _ hlast).symm⟩

theorem splitParent_concat (parent : List Str) (leaf : Str) :
    splitParent (parent ++ [leaf]) = some (parent, leaf) := by
  simp [splitParent]

theorem splitParent_none (h : splitParent names = none) :
    names ≠ names.dropLast ++ [leaf] := by
  intro hnames
  rw [hnames, splitParent_concat] at h
  simp at h

theorem leaf_unique {leaf' : Str} (h : names = names.dropLast ++ [leaf])
    (h' : names = names.dropLast ++ [leaf']) : leaf' = leaf := by
  simpa using List.append_cancel_left (h'.symm.trans h)

theorem create_cases (st : Storage) (f : Nodes) (names : List Str) (isDir : Bool) (uid gid : UInt32) :
    ((xfsCreateAt st f names isDir uid gid).1 = false ∧
        Unchanged f (xfsCreateAt st f names isDir uid gid).2 ∧
        ∀ p d leaf i, ¬ Creates st f names (newNode isDir uid gid) p d leaf i) ∨
      ∃ p d leaf i, Creates st f names (newNode isDir uid gid) p d leaf i ∧
        xfsCreateAt st f names isDir uid gid =
          (true, setNode (setNode f i (newNode isDir uid gid)) p (d.addEntry leaf i)) := by
  unfold xfsCreateAt
  rcases hsplit : splitParent names with _ | ⟨parent, leaf⟩
  · exact .inl ⟨rfl, .refl, fun p d leaf i h => splitParent_none hsplit h.names_eq⟩
  obtain ⟨rfl, hnames⟩ := splitParent_some hsplit
  simp only
  rcases hp : resolve f names.dropLast with _ | p
  · refine .inl ⟨rfl, .refl, fun p d leaf i h => ?_⟩
    simp [h.parent] at hp
  rcases hd : f p with _ | d
  · obtain ⟨n, hn⟩ := resolve_some hp
    simp [hn] at hd
  simp only [hd]
  split
  next hbad =>
    refine .inl ⟨rfl, .refl, fun p' d' leaf' i h => ?_⟩
    obtain rfl : p' = p := Option.some.inj (h.parent.symm.trans hp)
    obtain rfl : d' = d := Option.some.inj (h.node.symm.trans hd)
    rw [← leaf_unique hnames h.names_eq] at hbad
    simp [h.isDir, h.missing] at hbad
  next hgood =>
    rw [not_or, Bool.not_eq_false, Bool.not_eq_true, Option.isSome_eq_false_iff,
      Option.isNone_iff_eq_none] at hgood
    rcases hi : st.allocInode f with _ | i
    · refine .inl ⟨rfl, .refl, fun p d leaf i h => ?_⟩
      simp [h.inode] at hi
    simp only
    have hfresh := st.fresh f i hi
    have hmade : Unchanged f (setNode f i (newNode isDir uid gid)) := by
      intro j n hj
      rw [setNode_ne _ _ (by rintro rfl; simp [hfresh] at hj)]
      exact hj
    split
    next hext =>
      refine .inl ⟨rfl, .refl, fun p' d' leaf' i' h => ?_⟩
      obtain rfl : i' = i := Option.some.inj (h.inode.symm.trans hi)
      have := h.extent hext.1
      simp [hext.2] at this
    next hext =>
      split
      next hroom =>
        refine .inl ⟨rfl, hmade, fun p' d' leaf' i' h => ?_⟩
        obtain rfl : i' = i := Option.some.inj (h.inode.symm.trans hi)
        obtain rfl : p' = p := Option.some.inj (h.parent.symm.trans hp)
        have := h.room
        simp [hroom] at this
      next hroom =>
        refine .inr ⟨p, d, leaf, i, ⟨hnames, hp, hd, hgood.1, hgood.2, hi, fun hdir => ?_,
          Bool.of_not_eq_false hroom⟩, rfl⟩
        by_contra hno
        exact hext ⟨hdir, Bool.of_not_eq_true hno⟩

variable {new : Node}

section Created

variable (h : Creates st f names new p d leaf i)

include h

theorem Creates.free : f i = none := st.fresh f i h.inode

theorem Creates.inode_ne : i ≠ p := by
  rintro rfl
  have := h.node
  simp [h.free] at this

theorem Creates.absent : resolve f names = none := by
  rw [h.names_eq, resolve_concat h.parent h.node, h.missing]
  rfl

theorem Creates.same_dir {d' : Node} {p' i' : ℕ} {leaf' : Str}
    (h' : Creates st f names new p' d' leaf' i') : d' = d := by
  obtain rfl : p' = p := Option.some.inj (h'.parent.symm.trans h.parent)
  exact Option.some.inj (h'.node.symm.trans h.node)

theorem Creates.only :
    Only f (setNode (setNode f i new) p (d.addEntry leaf i)) p (d.addEntry leaf i) := by
  refine ⟨setNode_self .., fun j n hj hn => ?_⟩
  rw [setNode_ne _ _ hj, setNode_ne _ _ (by rintro rfl; simp [h.free] at hn)]
  exact hn

theorem Creates.resolves :
    resolve (setNode (setNode f i new) p (d.addEntry leaf i)) names = some i := by
  have hparent : resolve (setNode (setNode f i new) p (d.addEntry leaf i)) names.dropLast = some p := by
    refine resolve_mono (fun j n hj => ?_) h.parent
    by_cases hjp : j = p
    · subst hjp
      obtain rfl : d = n := Option.some.inj (h.node.symm.trans hj)
      exact ⟨_, setNode_self .., fun name k hk => dirFind_addEntry_of_some hk⟩
    · exact ⟨n, h.only.2 j n hjp hj, fun _ _ hk => hk⟩
  rw [h.names_eq, resolve_concat hparent (setNode_self ..), dirFind_addEntry h.isDir h.missing,
    Option.bind_some, setNode_ne _ _ h.inode_ne, setNode_self]
  rfl

end Created

theorem resolve_setNode {n' : Node} (hi : f i = some n) (hdir : n'.isDir = n.isDir)
    (hentries : n'.entries = n.entries) {k : ℕ} (hk : resolve f names = some k) :
    resolve (setNode f i n') names = some k := by
  refine resolve_mono (fun j m hj => ?_) hk
  by_cases hji : j = i
  · subst hji
    obtain rfl : n = m := Option.some.inj (hi.symm.trans hj)
    refine ⟨n', setNode_self .., fun name k hfind => ?_⟩
    unfold dirFind at hfind ⊢
    rwa [hdir, hentries]
  · exact ⟨m, (setNode_ne f n' hji).trans hj, fun _ _ h => h⟩

theorem changeNode_of_resolve {change : Node → Node}
    (hi : resolve f names = some i) (hn : f i = some n) :
    changeNode f names change = (true, setNode f i (change n)) := by
  simp [changeNode, hi, hn]

theorem changeNode_of_none {change : Node → Node} (h : resolve f names = none) :
    changeNode f names change = (false, f) := by
  simp [changeNode, h]

def Stores (st : Storage) (f : Nodes) (i : ℕ) (n : Node) (data : Str) : Prop :=
  n.isDir = false ∧ fileBlocks data ≤ 2 ^ 32 - 1 ∧
    (0 < fileBlocks data → st.allocExtent f i (fileBlocks data) = true)

theorem writeNode_cases (st : Storage) (hn : f i = some n) (data : Str) (uid gid : UInt32) :
    (Stores st f i n data ∧ writeNode st f i data uid gid =
        (true, setNode f i { n with data := data, uid := uid, gid := gid })) ∨
      (¬ Stores st f i n data ∧ writeNode st f i data uid gid = (false, f)) := by
  unfold writeNode Stores
  simp only [hn]
  split
  next hbad =>
    refine .inr ⟨fun h => ?_, rfl⟩
    rcases hbad with hdir | hlong
    · simp [h.1] at hdir
    · omega
  next hgood =>
    rw [not_or, Bool.not_eq_true] at hgood
    split
    next hfull =>
      refine .inr ⟨fun h => ?_, rfl⟩
      simp [h.2.2 hfull.1] at hfull
    next hroom =>
      refine .inl ⟨⟨hgood.1, by omega, fun hpos => ?_⟩, rfl⟩
      by_contra hno
      exact hroom ⟨hpos, Bool.of_not_eq_true hno⟩

theorem writeFile_existing (h : resolve f names = some i) (data : Str)
    (uid gid : UInt32) : xfsWriteFile st f names data uid gid = writeNode st f i data uid gid := by
  unfold xfsWriteFile
  rw [h]

theorem writeFile_new (st : Storage) (h : resolve f names = none) (data : Str)
    (uid gid : UInt32) :
    ((xfsWriteFile st f names data uid gid).1 = false ∧
        Unchanged f (xfsWriteFile st f names data uid gid).2 ∧
        ∀ p d leaf i, ¬ Creates st f names (newNode false uid gid) p d leaf i) ∨
      ∃ p d leaf i, Creates st f names (newNode false uid gid) p d leaf i ∧
        Only f (xfsWriteFile st f names data uid gid).2 p (d.addEntry leaf i) ∧
        resolve (xfsWriteFile st f names data uid gid).2 names = some i := by
  unfold xfsWriteFile xfsCreate
  rw [h]
  simp only
  rcases create_cases st f names false uid gid with ⟨hfail, hsame, hnone⟩ | ⟨p, d, leaf, i, hc, hmade⟩
  · rw [if_pos hfail]
    exact .inl ⟨hfail, hsame, hnone⟩
  · refine .inr ⟨p, d, leaf, i, hc, ?_⟩
    rw [hmade]
    simp only [Bool.true_eq_false, if_false, hc.resolves]
    have hi : setNode (setNode f i (newNode false uid gid)) p (d.addEntry leaf i) i =
        some (newNode false uid gid) := by
      rw [setNode_ne _ _ hc.inode_ne, setNode_self]
    rcases writeNode_cases st hi data uid gid with ⟨-, hwrite⟩ | ⟨-, hwrite⟩
    · rw [hwrite]
      refine ⟨⟨?_, fun j n hj hn => ?_⟩, resolve_setNode hi (by rfl) (by rfl) hc.resolves⟩
      · exact (setNode_ne _ _ hc.inode_ne.symm).trans hc.only.1
      · exact (setNode_ne _ _ (by rintro rfl; simp [hc.free] at hn)).trans (hc.only.2 j n hj hn)
    · rw [hwrite]
      exact ⟨hc.only, hc.resolves⟩

theorem Only.changeNode (h : Only f f' p n)
    (hp : i ≠ p) (hnew : f i = none) (hi : resolve f' names = some i) (change : Node → Node) :
    Only f (changeNode f' names change).2 p n := by
  obtain ⟨m, hm⟩ := resolve_some hi
  rw [changeNode_of_resolve hi hm]
  refine ⟨(setNode_ne _ _ hp.symm).trans h.1, fun j k hj hk => ?_⟩
  exact (setNode_ne _ _ (by rintro rfl; simp [hnew] at hk)).trans (h.2 j k hj hk)

theorem unlink_cases (f : Nodes) (names : List Str) {accepts : Node → Bool}
    (haccepts : ∀ n leaf, accepts n = true → dirFind n leaf = none) :
    (xfsUnlink f names accepts).2 = f ∧ (∀ i n, names ≠ [] → resolve f names = some i →
        f i = some n → accepts n = false) ∨
      ∃ p d leaf i n, names ≠ [] ∧ resolve f names.dropLast = some p ∧ f p = some d ∧
        dirFind d leaf = some i ∧ resolve f names = some i ∧ f i = some n ∧ accepts n = true ∧ p ≠ i ∧
        (xfsUnlink f names accepts).2 =
          Function.update (setNode f p (d.dropEntry leaf)) i none := by
  unfold xfsUnlink
  rcases hsplit : splitParent names with _ | ⟨parent, leaf⟩
  · refine .inl ⟨rfl, fun i n hne => ?_⟩
    obtain ⟨init, last, rfl⟩ := (List.eq_nil_or_concat names).resolve_left hne
    simp [splitParent] at hsplit
  obtain ⟨rfl, hnames⟩ := splitParent_some hsplit
  have hne : names ≠ [] := by
    rw [hnames]
    simp
  rcases hi : resolve f names with _ | i
  · refine .inl ⟨?_, fun i n _ hno => by simp at hno⟩
    simp only
    cases resolve f names.dropLast with
    | none => rfl
    | some p => rfl
  · rw [hnames] at hi
    obtain ⟨p, d, hp, hd, hfind⟩ := resolve_concat_some hi
    rw [← hnames] at hi
    obtain ⟨n, hn⟩ := resolve_some hi
    simp only [hp, hd, hn]
    split
    next hno =>
      refine .inl ⟨rfl, fun j m _ hj hm => ?_⟩
      obtain rfl : i = j := Option.some.inj hj
      obtain rfl : n = m := Option.some.inj (hn.symm.trans hm)
      exact hno
    next hyes =>
      rw [Bool.not_eq_false] at hyes
      refine .inr ⟨p, d, leaf, i, n, hne, rfl, hd, hfind, rfl, hn, hyes, ?_, rfl⟩
      rintro rfl
      obtain rfl : d = n := Option.some.inj (hd.symm.trans hn)
      simp [haccepts d leaf hyes] at hfind

theorem dirFind_of_regular (leaf : Str) (h : isRegular n = true) :
    dirFind n leaf = none := by
  simp only [isRegular, Bool.not_eq_true'] at h
  simp [dirFind, h]

theorem dirFind_of_emptyDir (leaf : Str) (h : isEmptyDir n = true) :
    dirFind n leaf = none := by
  simp only [isEmptyDir, Bool.and_eq_true, List.isEmpty_iff] at h
  simp [dirFind, h.2]

theorem mkdirPath_present {above rest : List Str} (h : resolve f (above ++ rest) = some i) :
    mkdirPath st f above rest = (true, f) := by
  induction rest generalizing above with
  | nil => rfl
  | cons name rest ih =>
    rw [List.append_cons] at h
    obtain ⟨j, hj⟩ := resolve_prefix h
    obtain ⟨n, hn⟩ := resolve_some hj
    have hthere : (lookup f (above ++ [name])).isSome = true := by simp [lookup, hj, hn]
    rw [mkdirPath, if_pos hthere]
    exact ih h

theorem mkdirPath_last {above rest : List Str} {name : Str}
    (h : resolve f (above ++ rest) = some i) (hlast : resolve f (above ++ rest ++ [name]) = none) :
    mkdirPath st f above (rest ++ [name]) = xfsMkdir st f (above ++ rest ++ [name]) := by
  induction rest generalizing above with
  | nil =>
    rw [List.append_nil] at hlast ⊢
    have hmissing : (lookup f (above ++ [name])).isSome = false := by simp [lookup_none.mpr hlast]
    simp only [List.nil_append, mkdirPath, hmissing, Bool.false_eq_true, if_false]
    rcases hmade : xfsMkdir st f (above ++ [name]) with ⟨ok, made⟩
    cases ok with
    | false => rfl
    | true => rfl
  | cons dir rest ih =>
    rw [List.append_cons above dir rest] at h hlast ⊢
    obtain ⟨j, hj⟩ := resolve_prefix h
    obtain ⟨n, hn⟩ := resolve_some hj
    have hthere : (lookup f (above ++ [dir])).isSome = true := by simp [lookup, hj, hn]
    rw [List.cons_append, mkdirPath, if_pos hthere]
    exact ih h hlast

end FileTree
