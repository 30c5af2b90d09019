import Mathlib.Algebra.Group.Nat.Defs
import Mathlib.Tactic.Common

/-! # Accounts and groups

`k64_user.c`: the account database, the session, the commands of the `userctl` service and the two
text files that the database is kept in. Strings are lists of bytes without the terminator. -/
namespace Accounts

abbrev Str := List UInt8

def userMaxAccounts : ℕ := 8
def userNameMax : ℕ := 16
def userPassMax : ℕ := 40
def groupMax : ℕ := 16
def groupNameMax : ℕ := 16

def rootName : Str := [114, 111, 111, 116]

def sudoName : Str := [115, 117, 100, 111]

def guestName : Str := [103, 117, 101, 115, 116]

structure UserAccount where
  name : Str
  password : Str
  primaryGroup : Str
  isRoot : Bool
  sudoer : Bool
  deriving DecidableEq

/-- The members are indices of accounts. -/
structure UserGroup where
  name : Str
  members : ℕ → Bool

/-- The arrays up to `count` and `group_count`; without a session the index is `none`. -/
structure UserState where
  ready : Bool
  currentIndex : Option ℕ
  sudoActive : Bool
  accounts : List UserAccount
  groups : List UserGroup

def userCopy (size : ℕ) (src : Str) : Str := src.take (size - 1)

def userAppend (size : ℕ) (dst src : Str) : Str := dst ++ src.take (size - 1 - dst.length)

def isBlank (c : UInt8) : Bool := c == 32 || c == 9

def userSkipWs (s : Str) : Str := s.dropWhile isBlank

/-- A token, and the rest behind it. What does not fit into the token begins the rest. -/
def userNextToken (size : ℕ) (s : Str) : Str × Str :=
  let s := userSkipWs s
  let token := (s.takeWhile fun c => !isBlank c).take (size - 1)
  (token, userSkipWs (s.drop token.length))

/-- "k64$". -/
def hashMark : Str := [107, 54, 52, 36]

def userHashIsEncoded (value : Str) : Bool := hashMark.isPrefixOf value

/-- "K64:userctl:v1". -/
def pepper : Str := [75, 54, 52, 58, 117, 115, 101, 114, 99, 116, 108, 58, 118, 49]

def hashByte (hash : UInt64) (c : UInt8) : UInt64 := (hash ^^^ c.toUInt64) * 1099511628211

def hexDigit (n : UInt64) : UInt8 := if n < 10 then 48 + n.toUInt8 else 87 + n.toUInt8

def userHashPassword (userName password : Str) (outSize : ℕ) : Str :=
  let hash := (pepper ++ userName ++ [58] ++ password).foldl hashByte 1469598103934665603
  if outSize < 5 then []
  else userCopy outSize (hashMark ++
    ((List.range 16).map fun i => hexDigit ((hash >>> (60 - 4 * i).toUInt64) &&& 15)))

def userStorePassword (size : ℕ) (userName value : Str) (alreadyHashed : Bool) : Str :=
  if alreadyHashed && userHashIsEncoded value then userCopy size value
  else userHashPassword userName value size

def userPasswordMatches (account : UserAccount) (candidate : Str) : Bool :=
  if userHashIsEncoded account.password then
    account.password == userHashPassword account.name candidate userPassMax
  else account.password == candidate

variable (s : UserState)

def userFind (name : Str) : Option ℕ := s.accounts.findIdx? fun a => a.name == name

def groupFind (name : Str) : Option ℕ := s.groups.findIdx? fun g => g.name == name

/-- Also successful when the group is there already. -/
def groupAddInternal (name : Str) : Bool × UserState :=
  if name = [] then (false, s)
  else if (groupFind s name).isSome then (true, s)
  else if s.groups.length ≥ groupMax then (false, s)
  else (true, { s with groups := s.groups ++ [⟨userCopy groupNameMax name, fun _ => false⟩] })

def UserState.setAccount (i : ℕ) (f : UserAccount → UserAccount) : UserState :=
  { s with accounts := s.accounts.modify i f }

def groupSetMembership (group : Option ℕ) (user : ℕ) (member : Bool) : UserState :=
  match group with
  | none => s
  | some g =>
    if user < s.accounts.length then
      { s with groups := s.groups.modify g fun group =>
        { group with members := Function.update group.members user member } }
    else s

def groupIsMember (group : Option ℕ) (user : ℕ) : Bool :=
  match group.bind fun g => s.groups[g]? with
  | none => false
  | some g => user < s.accounts.length && g.members user

def userAddToGroup (userName groupName : Str) : Bool × UserState :=
  match userFind s userName with
  | none => (false, s)
  | some user =>
    let added := groupAddInternal s groupName
    match added.1, groupFind added.2 groupName with
    | true, some g => (true, groupSetMembership added.2 (some g) user true)
    | _, _ => (false, added.2)

def userRemoveFromGroup (userName groupName : Str) : Bool × UserState :=
  match userFind s userName, groupFind s groupName with
  | some user, some g =>
    if (s.accounts[user]?).map UserAccount.primaryGroup = some groupName then (false, s)
    else (true, groupSetMembership s (some g) user false)
  | _, _ => (false, s)

/-- An account of that name is overwritten. -/
def userAddAccount (name password : Str) (isRoot sudoer : Bool) (primaryGroup : Str)
    (hashed : Bool) : Bool × UserState :=
  if name = [] ∨ password = [] then (false, s)
  else
    let added := if primaryGroup = [] then (true, s) else groupAddInternal s primaryGroup
    if added.1 = false then (false, added.2)
    else
      let stored := userStorePassword userPassMax name password hashed
      let primary := userCopy groupNameMax (if primaryGroup = [] then name else primaryGroup)
      match userFind added.2 name with
      | some i => (true, added.2.setAccount i fun a => { a with
          password := stored, isRoot, sudoer := sudoer || isRoot, primaryGroup := primary })
      | none =>
        if added.2.accounts.length ≥ userMaxAccounts then (false, added.2)
        else (true, { added.2 with accounts := added.2.accounts ++
          [⟨userCopy userNameMax name, stored, primary, isRoot, sudoer || isRoot⟩] })

/-- Gives all accounts the membership in a group that a rule says. -/
def setRoleMembers (group : Str) (rule : UserAccount → Bool) : UserState :=
  match groupFind s group with
  | none => s
  | some g => { s with groups := s.groups.modify g fun group => { group with
      members := fun i => ((s.accounts[i]?).map rule).getD (group.members i) } }

def userSyncRoleGroups : UserState :=
  let s := (groupAddInternal s rootName).2
  let s := (groupAddInternal s sudoName).2
  let s := setRoleMembers s rootName UserAccount.isRoot
  setRoleMembers s sudoName fun a => a.sudoer || a.isRoot

def userEnsurePrimaryGroup (i : ℕ) : UserState :=
  match s.accounts[i]? with
  | none => s
  | some a =>
    let primary := if a.primaryGroup = [] then userCopy groupNameMax a.name else a.primaryGroup
    let s := s.setAccount i fun a => { a with primaryGroup := primary }
    let s := (groupAddInternal s primary).2
    groupSetMembership s (groupFind s primary) i true

def userEnsurePrimaryGroups : UserState :=
  (List.range s.accounts.length).foldl userEnsurePrimaryGroup s

def userResetState : UserState :=
  { s with accounts := [], groups := [], currentIndex := none, sudoActive := false }

def userSeedDefaults : UserState :=
  let s := userResetState s
  let s := (groupAddInternal s rootName).2
  let s := (groupAddInternal s sudoName).2
  let s := (userAddAccount s rootName rootName true true rootName false).2
  let s := (userAddAccount s guestName guestName false true guestName false).2
  let s := userSyncRoleGroups (userEnsurePrimaryGroups s)
  { s with currentIndex := none, sudoActive := false }

def dbSize : ℕ := 1024

/-- What `user_append` makes of pieces one after the other in an empty buffer. -/
def appendAll (size : ℕ) (pieces : List Str) : Str := pieces.foldl (userAppend size) []

/-- A name, a password, "root" or "user", "1" or "0" and a group, with colons between. -/
def accountPieces (a : UserAccount) : List Str :=
  [a.name, [58], a.password, [58], if a.isRoot then rootName else [117, 115, 101, 114], [58],
    [if a.sudoer then 49 else 48], [58], a.primaryGroup, [10]]

def userDbText : Str := appendAll dbSize (s.accounts.flatMap accountPieces)

def memberNames (g : UserGroup) : List Str :=
  (s.accounts.zipIdx.filter fun p => g.members p.2).map fun p => p.1.name

def groupPieces (g : UserGroup) : List Str :=
  g.name :: [58] :: (memberNames s g).intersperse [44] ++ [[10]]

def groupDbText : Str := appendAll dbSize (s.groups.flatMap (groupPieces s))

/-- The lines of a text. One that is longer than its buffer goes on as the next. -/
def linesFrom (size : ℕ) : ℕ → Str → List Str
  | 0, _ => []
  | n + 1, p =>
    if p = [] then []
    else
      let line := (p.takeWhile fun c => c != 10).take (size - 1)
      let rest := p.drop line.length
      line :: linesFrom size n (if rest.head? = some 10 then rest.tail else rest)

def dbLines (text : Str) : List Str := (linesFrom 160 text.length text).filter fun l => l != []

def lineField (line : Str) (i : ℕ) : Str := (((line.splitOn 58)[i]?).getD []).take 31

def loadAccountLine (line : Str) : UserState :=
  let field := lineField line
  if field 0 = [] ∨ field 1 = [] then s
  else (userAddAccount s (field 0) (field 1) (field 2 == rootName) ((field 3).head? == some 49)
    (if field 4 = [] then field 0 else field 4) (userHashIsEncoded (field 1))).2

/-- The text is what `k64_fs_cat` reads, empty when it fails. -/
def userLoadDb (text : Str) : UserState :=
  if text = [] then userSeedDefaults s
  else
    let s := (dbLines text).foldl loadAccountLine (userResetState s)
    if s.accounts.length = 0 then userSeedDefaults s else s

def splitMembers : ℕ → Str → List Str
  | 0, _ => []
  | n + 1, p =>
    if p = [] then []
    else
      let p := p.dropWhile fun c => c == 44 || c == 32
      (p.takeWhile fun c => c != 44).take (userNameMax - 1) ::
        splitMembers n ((p.dropWhile fun c => c != 44).drop 1)

def addMember (groupName userName : Str) (s : UserState) : UserState :=
  match userFind s userName with
  | none => s
  | some user => groupSetMembership s (groupFind s groupName) user true

def loadGroupLine (line : Str) : UserState :=
  let name := userCopy groupNameMax (line.takeWhile fun c => c != 58)
  let members := userCopy 96 ((line.dropWhile fun c => c != 58).drop 1)
  if name = [] then s
  else
    let added := groupAddInternal s name
    if added.1 = false then added.2
    else (splitMembers members.length members).foldl (fun s user => addMember name user s) added.2

def userLoadGroupsDb (text : Str) : UserState :=
  let s := if text = [] then s else (dbLines text).foldl loadGroupLine s
  userSyncRoleGroups (userEnsurePrimaryGroups s)

/-- The account of the session, also while the service is stopped. -/
def sessionAccount : Option UserAccount := s.currentIndex.bind fun i => s.accounts[i]?

def userIsRoot : Bool :=
  match sessionAccount s with
  | none => false
  | some a => s.ready && (a.isRoot || s.sudoActive)

def userCanSudo : Bool :=
  match sessionAccount s with
  | none => false
  | some a => s.ready && (a.isRoot || a.sudoer)

def userIsLoggedIn : Bool := s.ready && (sessionAccount s).isSome

def userBeginSudoScope : UserState :=
  match sessionAccount s with
  | none => s
  | some a => if s.ready && !a.isRoot && a.sudoer then { s with sudoActive := true } else s

def userEndSudoScope : UserState :=
  match sessionAccount s with
  | none => s
  | some a => if s.ready && !a.isRoot then { s with sudoActive := false } else s

/-- The account that a `login` or `su` logs in. -/
def loginIndex (args : Str) : Option ℕ :=
  let name := userNextToken userNameMax args
  let password := userNextToken userPassMax name.2
  if name.1 = [] ∨ password.1 = [] then none
  else (userFind s name.1).filter fun i =>
    ((s.accounts[i]?).map fun a => userPasswordMatches a password.1).getD false

def userCommandLoginLike (args : Str) : UserState :=
  match loginIndex s args with
  | none => s
  | some i => { s with currentIndex := some i, sudoActive := false }

def userCommandLogout : UserState := { s with currentIndex := none, sudoActive := false }

def onWord : Str := [111, 110]

def offWord : Str := [111, 102, 102]

def userCommandSudo (args : Str) : UserState :=
  match sessionAccount s with
  | none => s
  | some a =>
    let action := (userNextToken userPassMax args).1
    if action = [] ∨ action = onWord then
      if userIsRoot s then s else if a.sudoer then { s with sudoActive := true } else s
    else if action = offWord then { s with sudoActive := false }
    else if a.sudoer && userPasswordMatches a action then { s with sudoActive := true }
    else s

def userCommandPasswd (args : Str) : UserState :=
  let name := userNextToken userNameMax args
  let password := userNextToken userPassMax name.2
  if name.1 = [] ∨ password.1 = [] then s
  else
    match userFind s name.1 with
    | none => s
    | some i =>
      if userIsRoot s = false ∧ (sessionAccount s).map UserAccount.name ≠ some name.1 then s
      else s.setAccount i fun a =>
        { a with password := userStorePassword userPassMax a.name password.1 false }

def userCommandUseradd (args : Str) : UserState :=
  if userIsRoot s = false then s
  else
    let name := userNextToken userNameMax args
    let password := userNextToken userPassMax name.2
    let role := userNextToken 8 password.2
    let primary := userNextToken groupNameMax role.2
    if name.1 = [] ∨ password.1 = [] then s
    else
      let isRoot := role.1 == rootName
      let sudoer := isRoot || role.1 == sudoName
      let group := if primary.1 = [] then userCopy groupNameMax name.1 else primary.1
      let added := userAddAccount s name.1 password.1 isRoot sudoer group false
      if added.1 then userSyncRoleGroups (userEnsurePrimaryGroups added.2) else added.2

def deletedIndex (args : Str) : Option ℕ :=
  let name := (userNextToken userNameMax args).1
  if userIsRoot s = false ∨ name = [] then none
  else (userFind s name).filter fun i => !((s.accounts[i]?).map UserAccount.isRoot).getD false

/-- Moves the members behind `i` up; there are `count` accounts afterwards. -/
def UserGroup.dropMember (i count : ℕ) (g : UserGroup) : UserGroup :=
  { g with members := fun j =>
    if j < i then g.members j else if j < count then g.members (j + 1)
    else if j = count then false else g.members j }

def deleteAccount (i : ℕ) : UserState :=
  { s with
    accounts := s.accounts.eraseIdx i
    groups := s.groups.map (UserGroup.dropMember i (s.accounts.length - 1))
    currentIndex := s.currentIndex.bind fun c =>
      if c = i then none else if c > i then some (c - 1) else some c
    sudoActive := if s.currentIndex = some i then false else s.sudoActive }

def userCommandUserdel (args : Str) : UserState :=
  match deletedIndex s args with
  | none => s
  | some i => deleteAccount s i

def userCommandGroupadd (args : Str) : UserState :=
  if userIsRoot s = false then s else (groupAddInternal s (userNextToken groupNameMax args).1).2

def deletedGroup (args : Str) : Option ℕ :=
  let group := (userNextToken groupNameMax args).1
  if userIsRoot s = false ∨ group = [] ∨ group = rootName ∨ group = sudoName then none
  else if s.accounts.any fun a => a.primaryGroup == group then none
  else groupFind s group

def userCommandGroupdel (args : Str) : UserState :=
  match deletedGroup s args with
  | none => s
  | some g => { s with groups := s.groups.eraseIdx g }

def addWord : Str := [97, 100, 100]

def delWord : Str := [100, 101, 108]

def userCommandGpasswd (args : Str) : UserState :=
  if userIsRoot s = false then s
  else
    let action := userNextToken 8 args
    let group := userNextToken groupNameMax action.2
    let name := userNextToken userNameMax group.2
    if action.1 = [] ∨ group.1 = [] ∨ name.1 = [] then s
    else if action.1 = addWord then (userAddToGroup s name.1 group.1).2
    else if action.1 = delWord then (userRemoveFromGroup s name.1 group.1).2
    else s

/-- What a `usermod` changes of an account. -/
inductive Modification where
  | role
  | primary
  | groupadd
  | groupdel
  deriving DecidableEq

/-- "role", "primary", "groupadd" and "groupdel". -/
def modificationOf (action : Str) : Option Modification :=
  if action = [114, 111, 108, 101] then some .role
  else if action = [112, 114, 105, 109, 97, 114, 121] then some .primary
  else if action = [103, 114, 111, 117, 112, 97, 100, 100] then some .groupadd
  else if action = [103, 114, 111, 117, 112, 100, 101, 108] then some .groupdel
  else none

def modify (m : Modification) (i : ℕ) (name value : Str) : UserState :=
  match m with
  | .role => userSyncRoleGroups (s.setAccount i fun a => { a with
      isRoot := value == rootName, sudoer := value == rootName || value == sudoName })
  | .primary =>
    let added := groupAddInternal s value
    if added.1 = false then added.2
    else
      let s := added.2.setAccount i fun a => { a with primaryGroup := userCopy groupNameMax value }
      groupSetMembership s (groupFind s value) i true
  | .groupadd => (userAddToGroup s name value).2
  | .groupdel => (userRemoveFromGroup s name value).2

def userCommandUsermod (args : Str) : UserState :=
  if userIsRoot s = false then s
  else
    let action := userNextToken 16 args
    let name := userNextToken userNameMax action.2
    let value := userNextToken groupNameMax name.2
    if action.1 = [] ∨ name.1 = [] ∨ value.1 = [] then s
    else
      match userFind s name.1, modificationOf action.1 with
      | some i, some m => modify s m i name.1 value.1
      | _, _ => s

def userCreateAccount (name password : Str) (sudoer : Bool) : Bool × UserState :=
  if s.ready = false ∨ name = [] ∨ password = [] then (false, s)
  else
    let added := userAddAccount s name password false sudoer (userCopy groupNameMax name) false
    if added.1 then (true, userSyncRoleGroups (userEnsurePrimaryGroups added.2))
    else (false, added.2)

/-- The commands that only print are one. -/
inductive Command where
  | print
  | login
  | logout
  | su
  | sudoMode
  | passwd
  | useradd
  | userdel
  | usermod
  | groupadd
  | groupdel
  | gpasswd
  deriving DecidableEq

def Command.run (c : Command) (args : Str) : UserState :=
  match c with
  | .print => s
  | .login | .su => userCommandLoginLike s args
  | .logout => userCommandLogout s
  | .sudoMode => userCommandSudo s args
  | .passwd => userCommandPasswd s args
  | .useradd => userCommandUseradd s args
  | .userdel => userCommandUserdel s args
  | .usermod => userCommandUsermod s args
  | .groupadd => userCommandGroupadd s args
  | .groupdel => userCommandGroupdel s args
  | .gpasswd => userCommandGpasswd s args

/-- The names that the commands are registered under: "users", "groups", "whoami", "id", "login",
"logout", "su", "sudo", "passwd", "useradd", "userdel", "usermod", "groupadd", "groupdel" and
"gpasswd". -/
def commandTable : List (Str × Command) :=
  [([117, 115, 101, 114, 115], .print), ([103, 114, 111, 117, 112, 115], .print),
    ([119, 104, 111, 97, 109, 105], .print), ([105, 100], .print),
    ([108, 111, 103, 105, 110], .login), ([108, 111, 103, 111, 117, 116], .logout),
    ([115, 117], .su), (sudoName, .sudoMode), ([112, 97, 115, 115, 119, 100], .passwd),
    ([117, 115, 101, 114, 97, 100, 100], .useradd), ([117, 115, 101, 114, 100, 101, 108], .userdel),
    ([117, 115, 101, 114, 109, 111, 100], .usermod),
    ([103, 114, 111, 117, 112, 97, 100, 100], .groupadd),
    ([103, 114, 111, 117, 112, 100, 101, 108], .groupdel),
    ([103, 112, 97, 115, 115, 119, 100], .gpasswd)]

/-- `userctl` prints its usage unless the first word of its line is one of these. -/
def commandOf (name : Str) : Option Command := (commandTable.find? fun p => p.1 == name).map (·.2)

def userCommandUserctl (args : Str) : UserState :=
  let sub := userNextToken 16 args
  match commandOf sub.1 with
  | none => s
  | some c => c.run s sub.2

/-- `k64_user_service_start`, with the two texts if the file system runs. -/
def userServiceStart (files : Option (Str × Str)) : UserState :=
  let s :=
    match files with
    | none => userSeedDefaults s
    | some (users, groups) => userLoadGroupsDb (userLoadDb s users) groups
  { s with currentIndex := none, sudoActive := false, ready := true }

def bootState : UserState := ⟨false, none, false, [], []⟩

end Accounts
