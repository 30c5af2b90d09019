import K64.FileCommandLaw

/-! # File calls of processes

`fs.write_file` and `fs.move`, with the checks that they make for the calling process, and the calls
of the file layer that rewrite a file. -/
namespace FileCalls
open FsPaths FileTree XfsDirectory
open UserMode (userCanAccessUid errInval errNoent errAccess)
open FileCommands (roomy names target accessWrite accessWriteExec OwnedBy IsNull Moves Beside)
open StagedCalls (parentPath serviceCallPayloadMax)

/-- The effective ids of the calling process. -/
structure Caller where
  uid : UInt32
  gid : UInt32

variable (st : Storage) (cwd : Str) (c : Caller) (f : Nodes)

def grants (node : Stat) (mask : UInt32) : Bool :=
  userCanAccessUid c.uid c.gid node.uid node.gid node.mode mask

def fsCallCanAccessPath (path : Str) (mask : UInt32) : Bool :=
  path != [] && (fsStat f cwd path).any fun node => grants c node mask

def fsCallCanCreatePath (path : Str) : Bool :=
  path != [] && fsCallCanAccessPath cwd c f (parentPath (fsCopy 256 path)) accessWriteExec

def cString (bytes : Str) : Str := bytes.takeWhile (· != 0)

/-- The paths of a well-formed request of `fs.move`. -/
def moveRequest (input : Str) : Option (Str × Str) :=
  if input.length < 4 ∨ 512 < input.length then none
  else
    let src := cString input
    if src = [] ∨ input.length ≤ src.length + 1 then none
    else
      let dst := cString (input.drop (src.length + 1))
      if dst = [] ∨ input.getLast? ≠ some 0 then none else some (src, dst)

def fsMoveCall (input : Str) : ℤ × Nodes :=
  match moveRequest input with
  | none => (errInval, f)
  | some (src, dst) =>
    if fsCallCanAccessPath cwd c f src accessWrite = false ∨ fsCallCanCreatePath cwd c f dst = false then
      (errAccess, f)
    else
      let moved := fsMove st f cwd src dst
      (if moved.1 then 0 else errNoent, moved.2)

/-- The path and the data of a well-formed request of `fs.write_file`. -/
def writeRequest (input : Str) : Option (Str × Str) :=
  if input.length < 16 then none
  else
    let pathLen := ByteCodec.leNat (input.take 8)
    let dataLen := ByteCodec.leNat ((input.drop 8).take 8)
    if pathLen = 0 ∨ 256 < pathLen ∨ serviceCallPayloadMax < dataLen ∨
        input.length < 16 + pathLen + dataLen then none
    else if input.getD (16 + pathLen - 1) 0 ≠ 0 then none
    else some (cString (input.drop 16), (input.drop (16 + pathLen)).take dataLen)

/-- The branch for processes. -/
def fsWriteFileCall (input : Str) : ℤ × Nodes :=
  match writeRequest input with
  | none => (errInval, f)
  | some (path, data) =>
    let may := if (fsStat f cwd path).isSome then fsCallCanAccessPath cwd c f path accessWrite
      else fsCallCanCreatePath cwd c f path
    if may = false then (errAccess, f)
    else
      let written := fsWriteFileRaw st f cwd path data
      if written.1 = false then (errAccess, written.2)
      else (0, (fsChown written.2 cwd path c.uid c.gid).2)

/-- The bytes of a file after `data` is put at `offset`. -/
def patched (old : Str) (offset : ℕ) (data : Str) : Str :=
  (old ++ List.replicate (offset - old.length) 0).take offset ++ data ++ old.drop (offset + data.length)

def fsWriteFileRange (path : Str) (offset : ℕ) (data : Str) : Bool × Nodes :=
  match fullPath cwd path with
  | none => (false, f)
  | some full =>
    match lookup f (tokens full) with
    | none => if offset = 0 then xfsWriteFile st f (tokens full) data 0 0 else (false, f)
    | some n =>
      if n.isDir ∨ rawMax < n.data.length ∨ rawMax < offset ∨ rawMax < data.length ∨
          rawMax < max n.data.length (offset + data.length) then (false, f)
      else xfsWriteFile st f (tokens full) (patched n.data offset data) n.uid n.gid

def fsTruncate (path : Str) (size : ℕ) : Bool × Nodes :=
  match fullPath cwd path with
  | none => (false, f)
  | some full =>
    match lookup f (tokens full) with
    | none => (false, f)
    | some n =>
      if n.isDir ∨ rawMax < size ∨ rawMax < n.data.length then (false, f)
      else xfsWriteFile st f (tokens full)
        (n.data.take size ++ List.replicate (size - n.data.length) 0) n.uid n.gid

/-- The calls that store into a file. -/
inductive Rewrite where
  | writeFileRaw (path data : Str)
  | writeFile (path text : Str)
  | appendFile (path text : Str)
  | writeFileRange (path : Str) (offset : ℕ) (data : Str)
  | truncate (path : Str) (size : ℕ)
  | copy (src dst : Str)
  | writeFileCall (c : Caller) (input : Str)

namespace Rewrite

/-- Whether the call succeeds, and what it leaves. -/
def run : Rewrite → Bool × Nodes
  | .writeFileRaw path data => fsWriteFileRaw st f cwd path data
  | .writeFile path text => fsWriteFileRaw st f cwd path (cString text)
  | .appendFile path text => fsAppendFile st f cwd path (cString text)
  | .writeFileRange path offset data => fsWriteFileRange st cwd f path offset data
  | .truncate path size => fsTruncate st cwd f path size
  | .copy src dst => fsCopyFile st f cwd src dst
  | .writeFileCall c input =>
    let r := fsWriteFileCall st cwd c f input
    (r.1 == 0, r.2)

def path : Rewrite → Option Str
  | .writeFileRaw path _ | .writeFile path _ | .appendFile path _ | .writeFileRange path _ _
  | .truncate path _ | .copy _ path => some path
  | .writeFileCall _ input => (writeRequest input).map Prod.fst

/-- The owner that the call leaves is the owner of the file already. -/
def Leaves (n : Node) : Rewrite → Prop
  | .writeFileRaw path _ | .writeFile path _ => IsNull cwd path ∨ OwnedBy 0 0 n
  | .appendFile _ _ | .writeFileRange _ _ _ | .truncate _ _ => True
  | .copy src _ => ∀ i m, target cwd f src = some i → f i = some m → OwnedBy m.uid m.gid n
  | .writeFileCall c _ => OwnedBy c.uid c.gid n

end Rewrite

/-- The file is there afterwards, with its owner and its mode. -/
structure Kept (f' : Nodes) (i : ℕ) (n : Node) : Prop where
  kept : ∃ n', f' i = some n' ∧ n'.uid = n.uid ∧ n'.gid = n.gid ∧ n'.mode = n.mode

variable {st cwd c f} {path data : Str} {i : ℕ} {n : Node} {uid gid : UInt32}

theorem kept_refl (hn : f i = some n) : Kept f i n := ⟨n, hn, rfl, rfl, rfl⟩

theorem target_full (hi : target cwd f path = some i) :
    ∃ full, fullPath cwd path = some full ∧ resolve f (tokens full) = some i := by
  obtain ⟨ns, hns, hres⟩ := Option.bind_eq_some_iff.mp hi
  obtain ⟨full, hfull, rfl⟩ := Option.map_eq_some_iff.mp hns
  exact ⟨full, hfull, hres⟩

variable {ns : List Str}

section Found

variable (hi : resolve f ns = some i) (hn : f i = some n)

include hi hn

theorem lookup_resolve : lookup f ns = some n := by
  rw [lookup, hi, Option.bind_some, hn]

theorem write_kept_iff (hok : (xfsWriteFile st f ns data uid gid).1 = true) :
    Kept (xfsWriteFile st f ns data uid gid).2 i n ↔ OwnedBy uid gid n := by
  rw [writeFile_existing hi] at hok ⊢
  rcases writeNode_cases st hn data uid gid with ⟨-, hwrite⟩ | ⟨-, hwrite⟩
  · rw [hwrite]
    constructor
    · rintro ⟨n', hn', huid, hgid, -⟩
      obtain rfl := Option.some.inj ((setNode_self ..).symm.trans hn')
      exact ⟨huid.symm, hgid.symm⟩
    · rintro ⟨huid, hgid⟩
      exact ⟨_, setNode_self .., huid.symm, hgid.symm, rfl⟩
  · rw [hwrite] at hok
    cases hok

theorem write_keeps (hok : (xfsWriteFile st f ns data n.uid n.gid).1 = true) :
    Kept (xfsWriteFile st f ns data n.uid n.gid).2 i n :=
  (write_kept_iff hi hn hok).mpr ⟨rfl, rfl⟩

theorem guarded_keeps {refused : Prop} [Decidable refused]
    (hok : (if refused then (false, f) else xfsWriteFile st f ns data n.uid n.gid).1 = true) :
    Kept (if refused then (false, f) else xfsWriteFile st f ns data n.uid n.gid).2 i n := by
  split at hok
  · cases hok
  next hgood =>
    rw [if_neg hgood]
    exact write_keeps hi hn hok

end Found

section Present

variable (hi : target cwd f path = some i) (hn : f i = some n)

include hi hn

theorem raw_kept_iff (hok : (fsWriteFileRaw st f cwd path data).1 = true) :
    Kept (fsWriteFileRaw st f cwd path data).2 i n ↔ IsNull cwd path ∨ OwnedBy 0 0 n := by
  obtain ⟨full, hfull, hres⟩ := target_full hi
  unfold IsNull
  unfold fsWriteFileRaw at hok ⊢
  rw [hfull] at hok ⊢
  simp only at hok ⊢
  split at hok
  next hnull =>
    rw [if_pos hnull, hnull]
    exact iff_of_true (kept_refl hn) (.inl rfl)
  next hnull =>
    rw [if_neg hnull, Option.some.injEq, or_iff_right hnull]
    split at hok
    · cases hok
    next hreal =>
      rw [if_neg hreal]
      exact write_kept_iff hres hn hok

theorem append_keeps (hok : (fsAppendFile st f cwd path data).1 = true) :
    Kept (fsAppendFile st f cwd path data).2 i n := by
  obtain ⟨full, hfull, hres⟩ := target_full hi
  unfold fsAppendFile at hok ⊢
  rw [hfull] at hok ⊢
  simp only [lookup_resolve hres hn] at hok ⊢
  exact guarded_keeps hres hn hok

theorem range_keeps {offset : ℕ} (hok : (fsWriteFileRange st cwd f path offset data).1 = true) :
    Kept (fsWriteFileRange st cwd f path offset data).2 i n := by
  obtain ⟨full, hfull, hres⟩ := target_full hi
  unfold fsWriteFileRange at hok ⊢
  rw [hfull] at hok ⊢
  simp only [lookup_resolve hres hn] at hok ⊢
  exact guarded_keeps hres hn hok

theorem truncate_keeps {size : ℕ} (hok : (fsTruncate st cwd f path size).1 = true) :
    Kept (fsTruncate st cwd f path size).2 i n := by
  obtain ⟨full, hfull, hres⟩ := target_full hi
  unfold fsTruncate at hok ⊢
  rw [hfull] at hok ⊢
  simp only [lookup_resolve hres hn] at hok ⊢
  exact guarded_keeps hres hn hok

theorem copy_kept_iff {src : Str} (hok : (fsCopyFile st f cwd src path).1 = true) :
    Kept (fsCopyFile st f cwd src path).2 i n ↔
      ∀ j m, target cwd f src = some j → f j = some m → OwnedBy m.uid m.gid n := by
  obtain ⟨full, hfull, hres⟩ := target_full hi
  unfold fsCopyFile at hok ⊢
  rw [hfull] at hok ⊢
  rcases hsrc : fullPath cwd src with _ | from_
  · rw [hsrc] at hok
    cases hok
  rw [hsrc] at hok
  simp only at hok ⊢
  rcases hfound : lookup f (tokens from_) with _ | m
  · rw [hfound] at hok
    cases hok
  rw [hfound] at hok
  simp only at hok ⊢
  obtain ⟨j, hj, hm⟩ := lookup_eq_some.mp hfound
  split at hok
  · cases hok
  next hgood =>
    have hsame : target cwd f src = some j := by rw [FileCommands.target_eq hsrc, hj]
    rw [if_neg hgood, write_kept_iff hres hn hok]
    constructor
    · intro howned j' m' hj' hm'
      obtain rfl : j = j' := Option.some.inj (hsame.symm.trans hj')
      obtain rfl : m = m' := Option.some.inj (hm.symm.trans hm')
      exact howned
    · exact fun hall => hall j m hsame hm

end Present

theorem call_kept_iff {input : Str}
    (hi : ((writeRequest input).map Prod.fst).bind (target cwd f) = some i)
    (hn : f i = some n) (hok : (fsWriteFileCall st cwd c f input).1 = 0) :
    Kept (fsWriteFileCall st cwd c f input).2 i n ↔ OwnedBy c.uid c.gid n := by
  unfold fsWriteFileCall at hok ⊢
  rcases hrequest : writeRequest input with _ | ⟨path, data⟩
  · rw [hrequest] at hi
    cases hi
  rw [hrequest] at hi hok
  simp only [Option.map_some, Option.bind_some] at hi
  simp only at hok ⊢
  generalize (if (fsStat f cwd path).isSome then fsCallCanAccessPath cwd c f path accessWrite
    else fsCallCanCreatePath cwd c f path) = may at hok ⊢
  split at hok
  · cases hok
  next hmay =>
    rw [if_neg hmay]
    split at hok
    · cases hok
    next hwritten =>
      rw [if_neg hwritten]
      simp only
      rw [Bool.not_eq_false] at hwritten
      obtain ⟨full, hfull, hres⟩ := target_full hi
      obtain ⟨m, hm, hnames, hmode⟩ : ∃ m, (fsWriteFileRaw st f cwd path data).2 i = some m ∧
          resolve (fsWriteFileRaw st f cwd path data).2 (tokens full) = some i ∧ m.mode = n.mode := by
        unfold fsWriteFileRaw at hwritten ⊢
        rw [hfull] at hwritten ⊢
        simp only at hwritten ⊢
        split at hwritten
        next hnull =>
          rw [if_pos hnull]
          exact ⟨n, hn, hres, rfl⟩
        next hnull =>
          rw [if_neg hnull]
          split at hwritten
          · cases hwritten
          next hreal =>
            rw [if_neg hreal]
            rw [writeFile_existing hres] at hwritten ⊢
            rcases writeNode_cases st hn data 0 0 with ⟨-, hwrite⟩ | ⟨-, hwrite⟩
            · rw [hwrite]
              exact ⟨_, setNode_self .., resolve_setNode hn (by rfl) (by rfl) hres, rfl⟩
            · rw [hwrite] at hwritten
              cases hwritten
      unfold fsChown
      rw [hfull]
      simp only
      rw [xfsChown, changeNode_of_resolve hnames hm]
      constructor
      · rintro ⟨n', hn', huid, hgid, -⟩
        obtain rfl := Option.some.inj ((setNode_self ..).symm.trans hn')
        exact ⟨huid.symm, hgid.symm⟩
      · rintro ⟨huid, hgid⟩
        exact ⟨_, setNode_self .., huid.symm, hgid.symm, hmode⟩

/-- A call that rewrites a file keeps its owner and its mode just when the owner that it leaves is the
one of the file. -/
theorem rewrite_kept_iff (st : Storage) (cwd : Str) (f : Nodes) (r : Rewrite) {i : ℕ} {n : Node}
    (hi : r.path.bind (target cwd f) = some i) (hn : f i = some n)
    (hok : (r.run st cwd f).1 = true) :
    Kept (r.run st cwd f).2 i n ↔ r.Leaves cwd f n := by
  cases r with
  | writeFileRaw path data => exact raw_kept_iff hi hn hok
  | writeFile path text => exact raw_kept_iff hi hn hok
  | appendFile path text => exact iff_of_true (append_keeps hi hn hok) trivial
  | writeFileRange path offset data => exact iff_of_true (range_keeps hi hn hok) trivial
  | truncate path size => exact iff_of_true (truncate_keeps hi hn hok) trivial
  | copy src dst => exact copy_kept_iff hi hn hok
  | writeFileCall c input => exact call_kept_iff hi hn (by simpa [Rewrite.run] using hok)

/-- "/" with the file "a" of user 1001. -/
def guestFile : Nodes := fun i =>
  if i = 1 then some ⟨true, [], [([97], 3)], 1, 0o040755, 0, 0⟩
  else if i = 3 then some ⟨false, [120], [], 1, 0o100644, 1001, 1001⟩
  else none

/-- "/a". -/
def pathA : Str := [slash, 97]

theorem rewrite_kept_append :
    Kept ((Rewrite.appendFile pathA [121]).run roomy [slash] guestFile).2 3
        ⟨false, [120], [], 1, 0o100644, 1001, 1001⟩ ↔
      (Rewrite.appendFile pathA [121]).Leaves [slash] guestFile
        ⟨false, [120], [], 1, 0o100644, 1001, 1001⟩ :=
  rewrite_kept_iff roomy [slash] guestFile (.appendFile pathA [121]) (by decide) rfl (by decide)

/-- A file of user 1001 that is written through `k64_fs_write_file` belongs to root. -/
theorem written_for_root : ¬∀ (st : Storage) (cwd : Str) (f : Nodes) (r : Rewrite) (i : ℕ) (n : Node),
    r.path.bind (target cwd f) = some i → f i = some n → n.isDir = false →
    (r.run st cwd f).1 = true → Kept (r.run st cwd f).2 i n := by
  intro h
  obtain ⟨n', hn', huid, -⟩ := h roomy [slash] guestFile (.writeFile pathA [121]) 3
    ⟨false, [120], [], 1, 0o100644, 1001, 1001⟩ (by decide) rfl rfl (by decide)
  have hroot : (((Rewrite.writeFile pathA [121]).run roomy [slash] guestFile).2 3).map Node.uid =
      some 0 := by decide
  rw [hn', Option.map_some, huid] at hroot
  exact absurd hroot (by decide)

/-- The caller may change the directory that the path has its entry in. -/
def GrantsParent (c : Caller) (cwd : Str) (f : Nodes) (path : Str) : Prop :=
  ∃ ns d, names cwd path = some ns ∧ lookup f ns.dropLast = some d ∧
    grants c (nodeStat d) accessWriteExec = true

/-- The tree changes only with rights on both directories. -/
def MoveLawful (st : Storage) (cwd : Str) (c : Caller) (f : Nodes) (input : Str) : Prop :=
  (fsMoveCall st cwd c f input).2 ≠ f → ∃ src dst, moveRequest input = some (src, dst) ∧
    GrantsParent c cwd f src ∧ GrantsParent c cwd f dst

/-- What passes the checks and is moved leaves a directory that the caller may change. -/
def SourceGranted (st : Storage) (cwd : Str) (c : Caller) (f : Nodes) (input : Str) : Prop :=
  ∀ src dst, moveRequest input = some (src, dst) →
    fsCallCanAccessPath cwd c f src accessWrite = true → fsCallCanCreatePath cwd c f dst = true →
    ∀ old new p q i e oldLeaf newLeaf d, names cwd src = some old → names cwd dst = some new →
      Moves st f old new p q i e oldLeaf newLeaf → f p = some d →
        grants c (nodeStat d) accessWriteExec = true

theorem grants_root (hroot : c.uid = 0) (node : Stat) (mask : UInt32) : grants c node mask = true := by
  rw [grants, userCanAccessUid, if_pos hroot]

theorem pseudo_denied (hroot : c.uid ≠ 0) {full : Str} {node : Stat}
    (h : pseudoStat pseudoSize full = some node) : grants c node accessWriteExec = false := by
  have hdeny : ∀ (isDir : Bool) (size : ℕ) (mode : UInt32),
      (mode >>> 3) &&& 7 &&& accessWriteExec ≠ accessWriteExec →
      mode &&& 7 &&& accessWriteExec ≠ accessWriteExec →
      grants c ⟨isDir, size, mode, 0, 0⟩ accessWriteExec = false := by
    intro isDir size mode hgroup hother
    unfold grants userCanAccessUid
    simp only [if_neg hroot]
    split
    · simpa using hgroup
    · simpa using hother
  unfold pseudoStat at h
  split at h
  · obtain rfl := Option.some.inj h
    exact hdeny _ _ _ (by decide) (by decide)
  split at h
  · obtain rfl := Option.some.inj h
    exact hdeny _ _ _ (by decide) (by decide)
  split at h
  · obtain rfl := Option.some.inj h
    exact hdeny _ _ _ (by decide) (by decide)
  · cases h

theorem create_checked {full : Str} (hroot : c.uid ≠ 0)
    (hcheck : fsCallCanCreatePath cwd c f path = true)
    (hfull : fullPath cwd path = some full) (hmissing : resolve f (tokens full) = none) {p : ℕ}
    {d : Node} (hp : resolve f (tokens full).dropLast = some p) (hd : f p = some d) :
    grants c (nodeStat d) accessWriteExec = true := by
  unfold fsCallCanCreatePath at hcheck
  rw [Bool.and_eq_true, bne_iff_ne] at hcheck
  obtain ⟨hne, hparent⟩ := hcheck
  unfold fsCallCanAccessPath at hparent
  rw [Bool.and_eq_true, Option.any_eq_true] at hparent
  obtain ⟨-, node, hstat, hgrant⟩ := hparent
  obtain ⟨dir, hdir, hnode⟩ := Option.bind_eq_some_iff.mp hstat
  split at hnode
  · rw [pseudo_denied hroot hnode] at hgrant
    cases hgrant
  · obtain ⟨e, he, rfl⟩ := Option.map_eq_some_iff.mp hnode
    obtain ⟨q, hq, heq⟩ := lookup_eq_some.mp he
    have hne' : path.take 255 ≠ [] := by
      obtain ⟨x, rest, rfl⟩ := List.exists_cons_of_ne_nil hne
      simp
    rw [FileCommands.fullPath_take cwd hne] at hfull
    have hbeside := FileCommands.fullPath_parent hne' (List.length_take_le ..) hfull hdir
    obtain ⟨name, hname⟩ := hbeside.missing hq hmissing
    rw [hname, List.dropLast_concat] at hp
    obtain rfl : q = p := Option.some.inj (hq.symm.trans hp)
    obtain rfl : e = d := Option.some.inj (heq.symm.trans hd)
    exact hgrant

theorem moved_ne {old new : List Str} {p q : ℕ} {d e : Node} {oldLeaf newLeaf : Str}
    (h : Moves st f old new p q i e oldLeaf newLeaf) (hd : f p = some d) :
    dropName (setNode f q (e.addEntry newLeaf i)) p oldLeaf ≠ f := by
  intro hsame
  have hmissing : (newLeaf, i) ∉ e.entries := by
    have hnone := h.missing
    rw [dirFind, if_pos h.isDir, Option.map_eq_none_iff, List.find?_eq_none] at hnone
    exact fun hmem => by simpa using hnone _ hmem
  have hentries : ∃ n, f q = some n ∧ (newLeaf, i) ∈ n.entries := by
    by_cases hpq : q = p
    · subst hpq
      obtain rfl : d = e := Option.some.inj (hd.symm.trans h.node)
      refine ⟨(d.addEntry newLeaf i).dropEntry oldLeaf, ?_, ?_⟩
      · rw [← congrFun hsame q]
        simp [dropName, setNode]
      · have hfound := h.found hd
        rw [dirFind, if_pos h.isDir] at hfound
        obtain ⟨entry, hentry, -⟩ := Option.map_eq_some_iff.mp hfound
        have hmem := List.mem_of_find?_eq_some hentry
        have hpred : (fun e : Str × ℕ => e.1 == oldLeaf) entry = true :=
          List.find?_some (p := fun e : Str × ℕ => e.1 == oldLeaf) hentry
        have hleft : (d.entries ++ [(newLeaf, i)]).eraseP (fun e => e.1 == oldLeaf) =
            d.entries.eraseP (fun e => e.1 == oldLeaf) ++ [(newLeaf, i)] :=
          List.eraseP_append_left (p := fun e : Str × ℕ => e.1 == oldLeaf) hpred _ hmem
        change (newLeaf, i) ∈ (d.entries ++ [(newLeaf, i)]).eraseP (fun e => e.1 == oldLeaf)
        rw [hleft]
        exact List.mem_append_right _ List.mem_cons_self
    · refine ⟨e.addEntry newLeaf i, ?_, by simp [Node.addEntry]⟩
      rw [← congrFun hsame q, dropName, setNode_ne _ _ (Ne.symm hpq), hd]
      simp [setNode, Function.update_of_ne hpq]
  obtain ⟨n, hn, hmem⟩ := hentries
  obtain rfl : e = n := Option.some.inj (h.node.symm.trans hn)
  exact hmissing hmem

theorem grantsParent_source {old new : List Str} {p q : ℕ} {d e : Node} {oldLeaf newLeaf src : Str}
    (hold : names cwd src = some old) (h : Moves st f old new p q i e oldLeaf newLeaf)
    (hd : f p = some d) : GrantsParent c cwd f src ↔ grants c (nodeStat d) accessWriteExec = true := by
  have hlookup : lookup f old.dropLast = some d := lookup_resolve h.source hd
  constructor
  · rintro ⟨ns, d', hns, hd', hgrant⟩
    obtain rfl := Option.some.inj (hold.symm.trans hns)
    obtain rfl := Option.some.inj (hlookup.symm.trans hd')
    exact hgrant
  · exact fun hgrant => ⟨old, d, hold, hlookup, hgrant⟩

/-- The call is lawful just when what it moves leaves a directory that the caller may change. -/
theorem move_lawful_iff (st : Storage) (cwd : Str) (c : Caller) (f : Nodes) (input : Str) :
    MoveLawful st cwd c f input ↔ SourceGranted st cwd c f input := by
  unfold MoveLawful SourceGranted fsMoveCall
  rcases hrequest : moveRequest input with _ | ⟨src, dst⟩
  · exact iff_of_true (fun hne => absurd rfl hne) fun _ _ h => by cases h
  simp only [Option.some.injEq, Prod.mk.injEq]
  split
  next hdenied =>
    refine iff_of_true (fun hne => absurd rfl hne) ?_
    rintro _ _ ⟨rfl, rfl⟩ hsrc hdst
    simp [hsrc, hdst] at hdenied
  next hchecked =>
    rw [not_or, Bool.not_eq_false, Bool.not_eq_false] at hchecked
    unfold fsMove
    rcases hold : fullPath cwd src with _ | old
    · refine iff_of_true (fun hne => absurd rfl hne) ?_
      rintro _ _ ⟨rfl, rfl⟩ - - ns ns' p q i e ol nl d hns
      simp [names, hold] at hns
    rcases hnew : fullPath cwd dst with _ | new
    · refine iff_of_true (fun hne => absurd rfl hne) ?_
      rintro _ _ ⟨rfl, rfl⟩ - - ns ns' p q i e ol nl d - hns
      simp [names, hnew] at hns
    have holdNames : names cwd src = some (tokens old) := by simp [names, hold]
    have hnewNames : names cwd dst = some (tokens new) := by simp [names, hnew]
    simp only
    rcases FileCommands.rename_cases st f (tokens old) (tokens new) with
      ⟨hsame, hnone⟩ | ⟨p, q, i, e, oldLeaf, newLeaf, hmoves, hmade⟩
    · rw [hsame]
      refine iff_of_true (fun hne => absurd rfl hne) ?_
      rintro _ _ ⟨rfl, rfl⟩ - - ns ns' p q i e ol nl d hns hns' hm
      obtain rfl := Option.some.inj (holdNames.symm.trans hns)
      obtain rfl := Option.some.inj (hnewNames.symm.trans hns')
      exact absurd hm (hnone p q i e ol nl)
    · obtain ⟨d, hd⟩ := resolve_some hmoves.source
      have hdst : GrantsParent c cwd f dst := by
        refine ⟨_, e, hnewNames, lookup_resolve hmoves.target hmoves.node, ?_⟩
        by_cases hroot : c.uid = 0
        · exact grants_root hroot _ _
        · exact create_checked hroot hchecked.2 hnew hmoves.absent hmoves.target hmoves.node
      have hsrc := grantsParent_source (c := c) holdNames hmoves hd
      rw [hmade]
      constructor
      · intro hlaw
        rintro _ _ ⟨rfl, rfl⟩ - - ns ns' p' q' i' e' ol nl d' hns hns' hm hd'
        obtain rfl := Option.some.inj (holdNames.symm.trans hns)
        obtain rfl := Option.some.inj (hnewNames.symm.trans hns')
        obtain rfl := hmoves.same_source hm
        obtain rfl : d = d' := Option.some.inj (hd.symm.trans hd')
        obtain ⟨_, _, ⟨rfl, rfl⟩, hgrant, -⟩ := hlaw (moved_ne hmoves hd)
        exact hsrc.mp hgrant
      · intro hgranted _
        exact ⟨src, dst, ⟨rfl, rfl⟩, hsrc.mpr (hgranted src dst ⟨rfl, rfl⟩ hchecked.1 hchecked.2 _ _ p
          q i e oldLeaf newLeaf d holdNames hnewNames hmoves hd), hdst⟩

/-- "/" of root, with "a" of user 1001 and the directory "h" of user 1001. -/
def homeTree : Nodes := fun i =>
  if i = 1 then some ⟨true, [], [([97], 3), ([104], 4)], 1, 0o040755, 0, 0⟩
  else if i = 3 then some ⟨false, [120], [], 1, 0o100644, 1001, 1001⟩
  else if i = 4 then some ⟨true, [], [], 1, 0o040755, 1001, 1001⟩
  else none

/-- "/a" and "/h/a". -/
def moveHome : Str := [slash, 97, 0, slash, 104, slash, 97, 0]

/-- User 1001 takes its file out of the directory of root. -/
theorem moved_out_of_root : ¬∀ (st : Storage) (cwd : Str) (c : Caller) (f : Nodes) (input : Str),
    MoveLawful st cwd c f input := by
  intro h
  have hchanged : (fsMoveCall roomy [slash] ⟨1001, 1001⟩ homeTree moveHome).2 ≠ homeTree := by
    intro hsame
    have hentries : ((fsMoveCall roomy [slash] ⟨1001, 1001⟩ homeTree moveHome).2 4).map
        Node.entries = some [([97], 3)] := by decide
    rw [hsame] at hentries
    exact absurd hentries (by decide)
  obtain ⟨src, dst, hrequest, ⟨ns, d, hns, hd, hgrant⟩, -⟩ := h _ _ _ _ _ hchanged
  obtain rfl : [slash, 97] = src := (Prod.mk.inj (Option.some.inj
    ((by decide : moveRequest moveHome = some ([slash, 97], [slash, 104, slash, 97])).symm.trans
      hrequest))).1
  obtain rfl : [[97]] = ns :=
    Option.some.inj ((by decide : names [slash] [slash, 97] = some [[97]]).symm.trans hns)
  have hdenied : (lookup homeTree ([[97]] : List Str).dropLast).map
      (fun d => grants ⟨1001, 1001⟩ (nodeStat d) accessWriteExec) = some false := by decide
  rw [hd, Option.map_some, hgrant] at hdenied
  cases hdenied

end FileCalls
