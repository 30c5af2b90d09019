import K64.FsPaths

/-! # The file layer over nodes

`k64_fs.c` and the calls of `k64_xfs.c` under it, with the blocks of the volume left out: a node is
what its inode says, a directory the list of its entries. What there is room for is a parameter. -/
namespace FileTree
open FsPaths XfsDirectory

abbrev Str := List UInt8

/-- An inode; `blocks` counts the blocks of a directory. -/
structure Node where
  isDir : Bool
  data : Str
  entries : List (Str × ℕ)
  blocks : ℕ
  mode : UInt32
  uid : UInt32
  gid : UInt32

abbrev Nodes := ℕ → Option Node

/-- What the allocators answer: an inode that is free, whether a file can have so many blocks, and
whether a directory takes one more entry. -/
structure Storage where
  allocInode : Nodes → Option ℕ
  fresh : ∀ f i, allocInode f = some i → f i = none
  allocExtent : Nodes → ℕ → ℕ → Bool
  dirRoom : Nodes → ℕ → Bool

/-- `K64_ROOTFS_RAW_MAX`. -/
def rawMax : ℕ := 16777216

/-- The inode of "/". -/
def rootInode : ℕ := 1

variable (st : Storage) (f : Nodes)

def dirFind (n : Node) (name : Str) : Option ℕ :=
  if n.isDir then (n.entries.find? fun e => e.1 == name).map Prod.snd else none

/-- `xfs_resolve` from an inode on. -/
def walk : ℕ → List Str → Option ℕ
  | i, [] => (f i).map fun _ => i
  | i, name :: rest => (f i).bind fun n => (dirFind n name).bind fun j => walk j rest

def resolve (names : List Str) : Option ℕ := walk f rootInode names

def lookup (names : List Str) : Option Node := (resolve f names).bind f

/-- `xfs_split_parent`; the names of a normalised path are valid. -/
def splitParent (names : List Str) : Option (List Str × Str) :=
  names.getLast?.map fun leaf => (names.dropLast, leaf)

def newNode (isDir : Bool) (uid gid : UInt32) : Node where
  isDir := isDir
  data := []
  entries := []
  blocks := 1
  mode := if isDir then 0o040755 else 0o100644
  uid := uid
  gid := gid

def Node.addEntry (n : Node) (name : Str) (i : ℕ) : Node :=
  { n with entries := n.entries ++ [(name, i)] }

def Node.dropEntry (n : Node) (name : Str) : Node :=
  { n with entries := n.entries.eraseP fun e => e.1 == name }

def Node.owned (n : Node) (uid gid : UInt32) : Node := { n with uid := uid, gid := gid }

def setNode (i : ℕ) (n : Node) : Nodes := Function.update f i (some n)

def xfsCreateAt (names : List Str) (isDir : Bool) (uid gid : UInt32) : Bool × Nodes :=
  match splitParent names with
  | none => (false, f)
  | some (parent, leaf) =>
    match resolve f parent with
    | none => (false, f)
    | some p =>
      match f p with
      | none => (false, f)
      | some n =>
        if n.isDir = false ∨ (dirFind n leaf).isSome then (false, f)
        else
          match st.allocInode f with
          | none => (false, f)
          | some i =>
            let made := setNode f i (newNode isDir uid gid)
            if isDir ∧ st.allocExtent made i 1 = false then (false, f)
            else if st.dirRoom made p = false then (false, made)
            else (true, setNode made p (n.addEntry leaf i))

def xfsMkdir (names : List Str) : Bool × Nodes := xfsCreateAt st f names true 0 0

def xfsCreate (names : List Str) (uid gid : UInt32) : Bool × Nodes :=
  xfsCreateAt st f names false uid gid

def fileBlocks (data : Str) : ℕ := (data.length + 4095) / 4096

/-- The part of `k64_xfs_write_file` behind the lookup. In the source a rewrite that finds no room has
already given the old blocks of the file back, so that two files can share blocks afterwards. That is left
out here: what fails changes nothing. -/
def writeNode (i : ℕ) (data : Str) (uid gid : UInt32) : Bool × Nodes :=
  match f i with
  | none => (false, f)
  | some n =>
    if n.isDir ∨ 2 ^ 32 - 1 < fileBlocks data then (false, f)
    else if 0 < fileBlocks data ∧ st.allocExtent f i (fileBlocks data) = false then (false, f)
    else (true, setNode f i { n with data := data, uid := uid, gid := gid })

def xfsWriteFile (names : List Str) (data : Str) (uid gid : UInt32) : Bool × Nodes :=
  match resolve f names with
  | some i => writeNode st f i data uid gid
  | none =>
    let made := xfsCreate st f names uid gid
    if made.1 = false then made
    else
      match resolve made.2 names with
      | none => (false, made.2)
      | some i => writeNode st made.2 i data uid gid

/-- `k64_xfs_remove` and `k64_xfs_rmdir`, which take a regular file and a directory of one block
without entries. -/
def xfsUnlink (names : List Str) (accepts : Node → Bool) : Bool × Nodes :=
  match splitParent names with
  | none => (false, f)
  | some (parent, leaf) =>
    match resolve f parent, resolve f names with
    | some p, some i =>
      match f p, f i with
      | some d, some n =>
        if accepts n = false then (false, f)
        else (true, Function.update (setNode f p (d.dropEntry leaf)) i none)
      | _, _ => (false, f)
    | _, _ => (false, f)

def isRegular (n : Node) : Bool := !n.isDir

def isEmptyDir (n : Node) : Bool := n.isDir && n.blocks == 1 && n.entries.isEmpty

def xfsRemove (names : List Str) : Bool × Nodes := xfsUnlink f names isRegular

def xfsRmdir (names : List Str) : Bool × Nodes := xfsUnlink f names isEmptyDir

def dropName (p : ℕ) (name : Str) : Nodes :=
  match f p with
  | none => f
  | some d => setNode f p (d.dropEntry name)

/-- The entry is put into the new directory before it is taken out of the old one. Where both are one
directory that grows by a block, the source then writes an older copy of its inode back and the new entry
is lost (`XfsRenameEffect.renamed_lost`). That is left out here: the entry stays. -/
def xfsRename (old new : List Str) : Bool × Nodes :=
  match splitParent old, splitParent new with
  | some (oldParent, oldLeaf), some (newParent, newLeaf) =>
    match resolve f oldParent, resolve f newParent, resolve f old with
    | some p, some q, some i =>
      match f q with
      | none => (false, f)
      | some d =>
        if d.isDir = false ∨ (dirFind d newLeaf).isSome ∨ st.dirRoom f q = false then (false, f)
        else (true, dropName (setNode f q (d.addEntry newLeaf i)) p oldLeaf)
    | _, _, _ => (false, f)
  | _, _ => (false, f)

/-- `k64_xfs_chmod` and `k64_xfs_chown`. -/
def changeNode (names : List Str) (change : Node → Node) : Bool × Nodes :=
  match resolve f names with
  | none => (false, f)
  | some i =>
    match f i with
    | none => (false, f)
    | some n => (true, setNode f i (change n))

def xfsChown (names : List Str) (uid gid : UInt32) : Bool × Nodes :=
  changeNode f names fun n => n.owned uid gid

def xfsChmod (names : List Str) (mode : UInt32) : Bool × Nodes :=
  changeNode f names fun n =>
    { n with mode := (if n.isDir then 0o040000 else 0o100000) ||| (mode &&& 0o7777) }

structure Stat where
  isDir : Bool
  size : ℕ
  mode : UInt32
  uid : UInt32
  gid : UInt32

def nodeStat (n : Node) : Stat := ⟨n.isDir, n.data.length, n.mode, n.uid, n.gid⟩

def procPath : Str := [47, 112, 114, 111, 99]

def devPath : Str := [47, 100, 101, 118]

/-- "/proc/version", "/proc/services", "/dev/console" and "/dev/tty0". -/
def pseudoFiles : List Str :=
  [[47, 112, 114, 111, 99, 47, 118, 101, 114, 115, 105, 111, 110],
    [47, 112, 114, 111, 99, 47, 115, 101, 114, 118, 105, 99, 101, 115],
    [47, 100, 101, 118, 47, 99, 111, 110, 115, 111, 108, 101],
    [47, 100, 101, 118, 47, 116, 116, 121, 48]]

/-- "/dev/null". -/
def nullPath : Str := [47, 100, 101, 118, 47, 110, 117, 108, 108]

def isPseudoPath (path : Str) : Bool :=
  path == procPath || (procPath ++ [slash]).isPrefixOf path || path == devPath ||
    (devPath ++ [slash]).isPrefixOf path

/-- `size` is what `fs_pseudo_read_all` has for the path. -/
def pseudoStat (size : Str → ℕ) (path : Str) : Option Stat :=
  if path = procPath ∨ path = devPath then some ⟨true, 0, 0o555, 0, 0⟩
  else if path = nullPath then some ⟨false, size path, 0o666, 0, 0⟩
  else if pseudoFiles.contains path then some ⟨false, size path, 0o444, 0, 0⟩
  else none

/-- "/proc/version" has 8 bytes, "/proc/services" 117. -/
def pseudoSize (path : Str) : ℕ :=
  if pseudoFiles[0]? = some path then 8 else if pseudoFiles[1]? = some path then 117 else 0

variable (cwd : Str)

def fullPath (path : Str) : Option Str := fsNormalize cwd path 256

def fsStat (path : Str) : Option Stat :=
  (fullPath cwd path).bind fun full =>
    if isPseudoPath full then pseudoStat pseudoSize full else (lookup f (tokens full)).map nodeStat

def fsMkdir (path : Str) : Bool × Nodes :=
  match fullPath cwd path with
  | none => (false, f)
  | some full => xfsMkdir st f (tokens full)

/-- The directories of a path, from the top; the names in `above` are there. -/
def mkdirPath (f : Nodes) (above : List Str) : List Str → Bool × Nodes
  | [] => (true, f)
  | name :: rest =>
    if (lookup f (above ++ [name])).isSome then mkdirPath f (above ++ [name]) rest
    else
      let made := xfsMkdir st f (above ++ [name])
      if made.1 then mkdirPath made.2 (above ++ [name]) rest else made

def fsMkdirP (path : Str) : Bool × Nodes :=
  match fullPath cwd path with
  | none => (false, f)
  | some full => mkdirPath st f [] (tokens full)

def fsTouch (path : Str) : Bool × Nodes :=
  match fullPath cwd path with
  | none => (false, f)
  | some full =>
    if (lookup f (tokens full)).isSome then (true, f) else xfsCreate st f (tokens full) 0 0

def fsWriteFileRaw (path data : Str) : Bool × Nodes :=
  match fullPath cwd path with
  | none => (false, f)
  | some full =>
    if full = nullPath then (true, f)
    else if isPseudoPath full then (false, f)
    else xfsWriteFile st f (tokens full) data 0 0

/-- The range behind the end of the file; that the path is normalised once more changes nothing. -/
def fsAppendFile (path text : Str) : Bool × Nodes :=
  match fullPath cwd path with
  | none => (false, f)
  | some full =>
    match lookup f (tokens full) with
    | none => fsWriteFileRaw st f cwd path text
    | some n =>
      if n.isDir ∨ rawMax < n.data.length ∨ rawMax < text.length ∨
          rawMax < n.data.length + text.length then (false, f)
      else xfsWriteFile st f (tokens full) (n.data ++ text) n.uid n.gid

def fsChmod (path : Str) (mode : UInt32) : Bool × Nodes :=
  match fullPath cwd path with
  | none => (false, f)
  | some full => xfsChmod f (tokens full) mode

def fsChown (path : Str) (uid gid : UInt32) : Bool × Nodes :=
  match fullPath cwd path with
  | none => (false, f)
  | some full => xfsChown f (tokens full) uid gid

def fsRemove (path : Str) : Bool × Nodes :=
  match fullPath cwd path with
  | none => (false, f)
  | some full => xfsRemove f (tokens full)

def fsRmdir (path : Str) : Bool × Nodes :=
  match fullPath cwd path with
  | none => (false, f)
  | some full => xfsRmdir f (tokens full)

def fsMove (src dst : Str) : Bool × Nodes :=
  match fullPath cwd src, fullPath cwd dst with
  | some src, some dst => xfsRename st f (tokens src) (tokens dst)
  | _, _ => (false, f)

/-- The copy gets the owner of the original. -/
def fsCopyFile (src dst : Str) : Bool × Nodes :=
  match fullPath cwd src, fullPath cwd dst with
  | some src, some dst =>
    match lookup f (tokens src) with
    | none => (false, f)
    | some n =>
      if n.isDir ∨ rawMax < n.data.length then (false, f)
      else xfsWriteFile st f (tokens dst) n.data n.uid n.gid
  | _, _ => (false, f)

end FileTree
