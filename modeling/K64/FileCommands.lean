import K64.AccountAccess
import K64.FileTree
import K64.ServiceArtifacts

/-! # File commands of the shell

The handlers of the `fsctl` service that change files, and `k64cc`, with their access checks. -/
namespace FileCommands
open FsPaths FileTree XfsDirectory
open Accounts (UserState userCanAccess userEffectiveUid userEffectiveGid userIsRoot userNextToken)

/-- `K64_ACCESS_READ`, `K64_ACCESS_WRITE` and `K64_ACCESS_WRITE | K64_ACCESS_EXEC`. -/
def accessRead : UInt32 := 4
def accessWrite : UInt32 := 2
def accessWriteExec : UInt32 := 3

variable (st : Storage) (cwd : Str) (s : UserState) (f : Nodes)

def grants (node : Stat) (mask : UInt32) : Bool := userCanAccess s node.uid node.gid node.mode mask

def fsctlCanAccessPath (path : Str) (mask : UInt32) : Bool :=
  path != [] && (fsStat f cwd path).any fun node => grants s node mask

/-- Slashes at the end go, but not the first one; then the last component, and the slash in front of
it. -/
def fsctlParentPath (path : Str) : Str :=
  let path := path.take 127
  let named := path.rdropWhile (· == slash)
  let named := if named = [] then path.take 1 else named
  let dir := named.rdropWhile (· != slash)
  if dir = [] then [dot] else if dir.length = 1 then dir else dir.dropLast

def fsctlRequireCreateAccess (path : Str) : Bool :=
  path != [] && fsctlCanAccessPath cwd s f (fsctlParentPath path) accessWriteExec

def fsctlApplyNewOwner (path : Str) : Nodes :=
  (fsChown f cwd path (userEffectiveUid s) (userEffectiveGid s)).2

/-- A successful call, and the new owner of what it made. -/
def ownedAfter (path : Str) (call : Bool × Nodes) : Nodes :=
  if call.1 then fsctlApplyNewOwner cwd s call.2 path else call.2

/-- Writing where there is something, creating where there is nothing. -/
def fsctlRequireWriteOrCreate (path : Str) : Bool :=
  if (fsStat f cwd path).isSome then fsctlCanAccessPath cwd s f path accessWrite
  else fsctlRequireCreateAccess cwd s f path

def fsctlMkdirHandler (args : Str) : Nodes :=
  if args = [] ∨ fsctlRequireCreateAccess cwd s f args = false then f
  else ownedAfter cwd s args (fsMkdir st f cwd args)

def fsctlMkdirpHandler (args : Str) : Nodes :=
  if args = [] ∨ fsctlRequireCreateAccess cwd s f args = false then f
  else ownedAfter cwd s args (fsMkdirP st f cwd args)

def fsctlTouchHandler (args : Str) : Nodes :=
  if args = [] ∨ fsctlRequireWriteOrCreate cwd s f args = false then f
  else ownedAfter cwd s args (fsTouch st f cwd args)

def fsctlWriteHandler (args : Str) : Nodes :=
  let path := userNextToken 64 args
  if path.1 = [] ∨ fsctlRequireWriteOrCreate cwd s f path.1 = false then f
  else ownedAfter cwd s path.1 (fsWriteFileRaw st f cwd path.1 path.2)

def fsctlAppendHandler (args : Str) : Nodes :=
  let path := userNextToken 64 args
  if path.1 = [] ∨ fsctlRequireWriteOrCreate cwd s f path.1 = false then f
  else ownedAfter cwd s path.1 (fsAppendFile st f cwd path.1 path.2)

def fsctlRmHandler (args : Str) : Nodes :=
  if args = [] ∨ fsctlCanAccessPath cwd s f args accessWrite = false then f
  else (fsRemove f cwd args).2

def fsctlRmdirHandler (args : Str) : Nodes :=
  if args = [] ∨ fsctlCanAccessPath cwd s f args accessWrite = false then f
  else (fsRmdir f cwd args).2

def fsctlMvHandler (args : Str) : Nodes :=
  let src := userNextToken 64 args
  let dst := userNextToken 64 src.2
  if src.1 = [] ∨ dst.1 = [] ∨ fsctlCanAccessPath cwd s f src.1 accessWrite = false ∨
      fsctlRequireCreateAccess cwd s f dst.1 = false then f
  else (fsMove st f cwd src.1 dst.1).2

def fsctlCpHandler (args : Str) : Nodes :=
  let src := userNextToken 64 args
  let dst := userNextToken 64 src.2
  if src.1 = [] ∨ dst.1 = [] ∨ fsctlCanAccessPath cwd s f src.1 accessRead = false ∨
      fsctlRequireCreateAccess cwd s f dst.1 = false then f
  else ownedAfter cwd s dst.1 (fsCopyFile st f cwd src.1 dst.1)

def parseOctalMode (text : Str) : Option UInt32 :=
  if text = [] ∨ text.any (fun c => c < 48 || 55 < c) then none
  else some ((text.foldl (fun (n : UInt32) c => (n <<< 3) ||| (c - 48).toUInt32) 0) &&& 0o7777)

def fsctlChmodHandler (args : Str) : Nodes :=
  let mode := userNextToken 16 args
  let path := userNextToken 128 mode.2
  if userIsRoot s = false ∨ path.1 = [] then f
  else
    match parseOctalMode mode.1 with
    | none => f
    | some mode => (fsChmod f cwd path.1 mode).2

def fsctlChownHandler (args : Str) : Nodes :=
  let owner := userNextToken 32 args
  let path := userNextToken 128 owner.2
  if userIsRoot s = false ∨ path.1 = [] ∨ owner.1.contains 58 = false then f
  else
    match Accounts.userNameToUid s ((owner.1.takeWhile (· != 58)).take 15),
      Accounts.userGroupToGid s (((owner.1.dropWhile (· != 58)).drop 1).take 15) with
    | some uid, some gid => (fsChown f cwd path.1 uid gid).2
    | _, _ => f

def effectiveName : Str :=
  match Accounts.sessionAccount s with
  | none => Accounts.guestName
  | some a =>
    if s.ready = false then Accounts.guestName
    else if userIsRoot s then Accounts.rootName
    else a.name

def svcAppend (dst src : Str) : Str := Accounts.userAppend 128 dst src

/-- "elf", "k64s" and "k64m". -/
def elfWord : Str := [101, 108, 102]
def serviceWord : Str := [107, 54, 52, 115]
def driverWord : Str := [107, 54, 52, 109]

def usrDir : Str := [47, 117, 115, 114, 47]

def exDir : Str := [47, 101, 120, 47]

def elfSuffix : Str := [46, 101, 108, 102]

/-- "root", "user", "filesystem" and "service". -/
def rootClass : Str := [114, 111, 111, 116]
def userClass : Str := [117, 115, 101, 114]
def filesystemType : Str := [102, 105, 108, 101, 115, 121, 115, 116, 101, 109]
def serviceType : Str := [115, 101, 114, 118, 105, 99, 101]

def elfTarget (name : Str) : Str :=
  if name.contains slash then name
  else
    let path := svcAppend (svcAppend (svcAppend usrDir (effectiveName s)) [slash]) name
    if name.contains dot then path else svcAppend path elfSuffix

/-- The path of a module and the path that it executes. -/
def moduleTarget (dir suffix name : Str) : Str := svcAppend (svcAppend dir name) suffix

def moduleEntry (name : Str) : Str := svcAppend (svcAppend exDir name) elfSuffix

/-- The bytes of `k64cc_build_stub_elf`: one loadable segment at 0x50000000, whose code returns. -/
def stubElf : Str :=
  let le := ByteCodec.leBytes
  [0x7F, 69, 76, 70, 2, 1, 1] ++ List.replicate 9 0 ++ le 2 2 ++ le 2 62 ++ le 4 1 ++
    le 8 0x50000078 ++ le 8 64 ++ le 8 0 ++ le 4 0 ++ le 2 64 ++ le 2 56 ++ le 2 1 ++ le 2 0 ++
    le 2 0 ++ le 2 0 ++ le 4 1 ++ le 4 5 ++ le 8 0 ++ le 8 0x50000000 ++ le 8 0x50000000 ++
    le 8 0x7B ++ le 8 0x7B ++
    le 8 0x1000 ++ [0x31, 0xC0, 0xC3]

def field (size : ℕ) (text : Str) : Str :=
  let text := text.take (size - 1)
  text ++ List.replicate (size - text.length) 0

def moduleFile (magic : ℕ) (kindId : UInt8) (name : Str) : Str :=
  Artifacts.structPack magic Artifacts.execElf kindId 0 (ByteCodec.leBytes 4 1) (ByteCodec.leBytes 4 0)
    (field 32 name) (field 96 (moduleEntry name))

/-- The path that a line of `k64cc` writes, with the bytes. -/
def k64ccTarget (args : Str) : Option (Str × Str) :=
  let subcmd := userNextToken 16 args
  let name := userNextToken 64 subcmd.2
  let kind := (userNextToken 32 name.2).1
  if name.1 = [] then none
  else if subcmd.1 = elfWord then some (elfTarget s name.1, stubElf)
  else if subcmd.1 = serviceWord then
    some (moduleTarget Artifacts.serviceDir Artifacts.serviceSuffix name.1,
      moduleFile Artifacts.systemMagic
        (if kind = rootClass then 2 else if kind = userClass then 3 else 1) name.1)
  else if subcmd.1 = driverWord then
    some (moduleTarget Artifacts.driverDir Artifacts.driverSuffix name.1,
      moduleFile Artifacts.moduleMagic
        (if kind = filesystemType then 2 else if kind = serviceType then 3 else 1) name.1)
  else none

def k64ccCommand (args : Str) : Nodes :=
  match k64ccTarget s args with
  | none => f
  | some (path, data) => (fsWriteFileRaw st f cwd path data).2

inductive Command where
  | mkdir
  | mkdirp
  | touch
  | write
  | append
  | rm
  | rmdir
  | mv
  | cp
  | chmod
  | chown
  | k64cc
  deriving DecidableEq

def run (c : Command) (args : Str) : Nodes :=
  match c with
  | .mkdir => fsctlMkdirHandler st cwd s f args
  | .mkdirp => fsctlMkdirpHandler st cwd s f args
  | .touch => fsctlTouchHandler st cwd s f args
  | .write => fsctlWriteHandler st cwd s f args
  | .append => fsctlAppendHandler st cwd s f args
  | .rm => fsctlRmHandler cwd s f args
  | .rmdir => fsctlRmdirHandler cwd s f args
  | .mv => fsctlMvHandler st cwd s f args
  | .cp => fsctlCpHandler st cwd s f args
  | .chmod => fsctlChmodHandler cwd s f args
  | .chown => fsctlChownHandler cwd s f args
  | .k64cc => k64ccCommand st cwd s f args

end FileCommands
