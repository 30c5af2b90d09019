import K64.ByteCodec
import Mathlib.Data.List.DropRight

/-! # Artifacts of services and drivers

`build_k64x.py` packs a definition text into a file of 148 bytes, and the kernel registers a service
or a driver from the file. The two agree only on the offsets, widths and numbers of the fields. -/
namespace Artifacts
open ByteCodec

/-- A string of the packer. -/
abbrev Text := List Char

/-- A string of the kernel, without its terminator. -/
abbrev Str := List UInt8

def utf8 (text : Text) : Str := text.flatMap String.utf8EncodeChar

/-- `str.isspace`. -/
def isSpace (c : Char) : Bool :=
  let n := c.toNat
  (9 ≤ n && n ≤ 13) || (28 ≤ n && n ≤ 32) || n == 0x85 || n == 0xA0 || n == 0x1680 ||
    (0x2000 ≤ n && n ≤ 0x200A) || n == 0x2028 || n == 0x2029 || n == 0x202F || n == 0x205F ||
    n == 0x3000

/-- The characters that `str.splitlines` splits at. Between the two of a line end it sees no line
here, but an empty one, which says nothing. -/
def isLineEnd (c : Char) : Bool :=
  let n := c.toNat
  (10 ≤ n && n ≤ 13) || (28 ≤ n && n ≤ 30) || n == 0x85 || n == 0x2028 || n == 0x2029

def strip (text : Text) : Text := (text.dropWhile isSpace).rdropWhile isSpace

abbrev Meta := List (Text × Text)

/-- The last line of a key counts, so that it is put in front. -/
def readLine (entries : Meta) (raw : Text) : Option Meta :=
  let line := strip raw
  if line = [] ∨ line.head? = some '#' then some entries
  else if line.contains '=' = false then none
  else
    some ((strip (line.takeWhile fun c => c != '='),
      strip ((line.dropWhile fun c => c != '=').drop 1)) :: entries)

def readKv (text : Text) : Option Meta := (text.splitOnP isLineEnd).foldlM readLine []

/-- `meta.get` with the default. -/
def getMeta (entries : Meta) (key default : String) : Text :=
  (entries.lookup key.toList).getD default.toList

/-- The bytes of the text with zeros up to the size of the field. -/
def packStr (text : Text) (size : ℕ) : Option Str :=
  let data := utf8 text
  if size ≤ data.length then none else some (data ++ List.replicate (size - data.length) 0)

/-- An `I` of `struct`. -/
def packInt (n : ℤ) : Option Str := if 0 ≤ n ∧ n < 2 ^ 32 then some (leBytes 4 n.toNat) else none

def artifactVersion : UInt8 := 1
def execBuiltin : UInt8 := 1
def execElf : UInt8 := 2

def parseExecKind (value : Text) : Option UInt8 :=
  if value = "builtin".toList then some execBuiltin
  else if value = "elf".toList then some execElf
  else none

def parseServiceClass (value : Text) : UInt8 :=
  if value = "root".toList then 2 else if value = "user".toList then 3 else 1

def parseDriverType (value : Text) : UInt8 :=
  if value = "filesystem".toList then 2 else if value = "service".toList then 3 else 1

def parseBoolFlag (value : Text) : Bool :=
  value == "1".toList || value == "true".toList || value == "yes".toList || value == "on".toList

def systemMagic : ℕ := 0x4B363453
def moduleMagic : ℕ := 0x4B36344D

/-- `K64_SYSTEM_FLAG_AUTOSTART` and `K64_SYSTEM_FLAG_ASYNC`. -/
def serviceFlags (autostart async : Bool) : UInt32 :=
  (if autostart then 1 else 0) ||| (if async then 2 else 0)

/-- `K64_MODULE_FLAG_AUTOSTART` and `K64_MODULE_FLAG_ASYNC`. -/
def driverFlags (autostart async : Bool) : UInt32 :=
  (if autostart then 2 else 0) ||| (if async then 1 else 0)

/-- The format "<IBBBBIII32s96s". -/
def structPack (magic : ℕ) (execKind kindId : UInt8) (flags : UInt32) (priority word : Str)
    (name entryPath : Str) : Str :=
  leBytes 4 magic ++ [artifactVersion, execKind, kindId, 0] ++ leBytes 4 flags.toNat ++ priority ++
    word ++ name ++ entryPath

/-- Python's `int` of a text. -/
abbrev IntOf := Text → Option ℤ

variable (int : IntOf)

def buildService (text : Text) : Option Str := do
  let entries ← readKv text
  let name ← entries.lookup "name".toList
  let execKind ← parseExecKind (getMeta entries "kind" "builtin")
  let priority ← int (getMeta entries "priority" "1")
  let pollInterval ← int (getMeta entries "poll_interval_ticks" "0")
  let priority ← packInt priority
  let pollInterval ← packInt pollInterval
  let nameField ← packStr name 32
  let entryField ← packStr (getMeta entries "entry" "") 96
  return structPack systemMagic execKind (parseServiceClass (getMeta entries "class" "system"))
    (serviceFlags (parseBoolFlag (getMeta entries "autostart" "0"))
      (parseBoolFlag (getMeta entries "async" "0")))
    priority pollInterval nameField entryField

def buildDriver (text : Text) : Option Str := do
  let entries ← readKv text
  let name ← entries.lookup "name".toList
  let execKind ← parseExecKind (getMeta entries "kind" "builtin")
  let priority ← int (getMeta entries "priority" "1")
  let priority ← packInt priority
  let nameField ← packStr name 32
  let entryField ← packStr (getMeta entries "entry" "") 96
  return structPack moduleMagic execKind (parseDriverType (getMeta entries "type" "driver"))
    (driverFlags (parseBoolFlag (getMeta entries "autostart" "0"))
      (parseBoolFlag (getMeta entries "async" "0")))
    priority (leBytes 4 0) nameField entryField

/-- `k64_service_file_t` and `k64_driver_file_t`, which have one layout; the last number is reserved
in a driver. -/
structure ArtifactFile where
  magic : ℕ
  version : UInt8
  execKind : UInt8
  kindId : UInt8
  flags : UInt32
  priority : ℕ
  pollIntervalTicks : ℕ
  name : Str
  entryPath : Str

def cString (field : Str) : Str := field.takeWhile fun c => c != 0

def artifactSize : ℕ := 148

def readArtifact (data : Str) : ArtifactFile where
  magic := leNat (data.take 4)
  version := data.getD 4 0
  execKind := data.getD 5 0
  kindId := data.getD 6 0
  flags := UInt32.ofNat (leNat ((data.drop 8).take 4))
  priority := leNat ((data.drop 12).take 4)
  pollIntervalTicks := leNat ((data.drop 16).take 4)
  name := cString ((data.drop 20).take 32)
  entryPath := cString ((data.drop 52).take 96)

def copyString (size : ℕ) (src : Str) : Str := src.take (size - 1)

def buildRootfsPath (dir name : Str) : Str := (dir ++ name).take 95

def maxServices : ℕ := 32
def maxDrivers : ℕ := 32

def kernelName : Str := [107, 101, 114, 110, 101, 108]

/-- A service that was registered from a file; `contextPath` is the path in its slot of
`rootfs_ctx`. -/
structure Service where
  name : Str
  classId : UInt8
  flags : UInt32
  priority : ℕ
  pollIntervalTicks : ℕ
  entryPath : Str
  contextPath : Str

structure Driver where
  name : Str
  type : UInt8
  flags : UInt32
  priority : ℕ
  contextPath : Str

structure Services where
  services : List Service
  ctxCount : ℕ

structure Drivers where
  drivers : List Driver
  ctxCount : ℕ

def systemFindServiceByName (r : Services) (name : Str) : Option Service :=
  r.services.find? fun v => v.name == name

def modulesFindDriverByName (r : Drivers) (name : Str) : Option Driver :=
  r.drivers.find? fun d => d.name == name

/-- `K64_SERVICE_FLAG_ASYNC` is 1, `K64_SERVICE_FLAG_AUTOSTART` 2; a service outside ring 0 gets
`K64_SERVICE_FLAG_RING3_REQUIRED`, 8. -/
def systemRegisterService (r : Services) (file : ArtifactFile) : Services :=
  if maxServices ≤ r.services.length then { r with ctxCount := r.ctxCount + 1 }
  else
    let classId := if file.kindId = 0 ∧ file.name ≠ kernelName then 1 else file.kindId
    let flags : UInt32 := (if file.flags &&& 2 ≠ 0 then 1 else 0) |||
      (if file.flags &&& 1 ≠ 0 then 2 else 0)
    { services := r.services ++ [{
        name := copyString 32 file.name
        classId := classId
        flags := if classId = 0 then flags else flags ||| 8
        priority := file.priority
        pollIntervalTicks := file.pollIntervalTicks
        entryPath := copyString 96 file.entryPath
        contextPath := copyString 64 file.entryPath }]
      ctxCount := r.ctxCount + 1 }

/-- The file is an artifact of its kind that says what to execute. -/
def loadable (magic : ℕ) (data : Str) : Bool :=
  let file := readArtifact data
  artifactSize ≤ data.length && file.magic == magic && file.version == artifactVersion &&
    file.execKind == execElf && file.name != [] && file.entryPath != []

/-- "/k64s/". -/
def serviceDir : Str := [47, 107, 54, 52, 115, 47]

/-- ".k64s". -/
def serviceSuffix : Str := [46, 107, 54, 52, 115]

/-- "/k64m/". -/
def driverDir : Str := [47, 107, 54, 52, 109, 47]

/-- ".k64m". -/
def driverSuffix : Str := [46, 107, 54, 52, 109]

variable (files : Str → Option Str)

def rootfsK64sCb (name : Str) (isDir : Bool) (r : Services) : Services :=
  if isDir ∨ name = [] ∨ serviceSuffix.isSuffixOf name = false then r
  else
    match files (buildRootfsPath serviceDir name) with
    | none => r
    | some data =>
      if loadable systemMagic data = false then r
      else if (systemFindServiceByName r (readArtifact data).name).isSome then r
      else if maxServices ≤ r.ctxCount then r
      else systemRegisterService r (readArtifact data)

def modulesRegisterDriver (r : Drivers) (file : ArtifactFile) : Drivers :=
  if maxDrivers ≤ r.drivers.length then { r with ctxCount := r.ctxCount + 1 }
  else
    { drivers := r.drivers ++ [{
        name := copyString 32 file.name
        type := file.kindId
        flags := file.flags
        priority := file.priority
        contextPath := copyString 64 file.entryPath }]
      ctxCount := r.ctxCount + 1 }

def rootfsK64mCb (name : Str) (isDir : Bool) (r : Drivers) : Drivers :=
  if isDir ∨ name = [] ∨ driverSuffix.isSuffixOf name = false then r
  else
    match files (buildRootfsPath driverDir name) with
    | none => r
    | some data =>
      if loadable moduleMagic data = false then r
      else if (modulesFindDriverByName r (readArtifact data).name).isSome then r
      else if maxDrivers ≤ r.ctxCount then r
      else modulesRegisterDriver r (readArtifact data)

/-- The path that is executed, and its arguments. -/
def rootfsServiceStart (v : Service) : Option (Str × Str) :=
  if v.contextPath = [] then none else some (v.contextPath, v.name)

/-- The path that is executed. -/
def rootfsDriverStart (d : Driver) : Option Str :=
  if d.contextPath = [] then none else some d.contextPath

/-- A definition text that the packer accepts, with an entry to execute and no zero in its values. -/
structure Definition (build : Text → Option Str) where
  text : Text
  entries : Meta
  blob : Str
  read : readKv text = some entries
  built : build text = some blob
  elf : getMeta entries "kind" "builtin" = "elf".toList
  entry_given : getMeta entries "entry" "" ≠ []
  no_zero : ∀ e ∈ entries, Char.ofNat 0 ∉ e.2

variable {build : Text → Option Str}

def Definition.name (d : Definition build) : Text := (d.entries.lookup "name".toList).getD []

def Definition.entry (d : Definition build) : Text := getMeta d.entries "entry" ""

def Definition.flag (d : Definition build) (key : String) : Bool :=
  parseBoolFlag (getMeta d.entries key "0")

/-- The file of the artifact is in the directory, under a name that the loader takes whole. -/
structure Placed (dir suffix fileName blob : Str) : Prop where
  suffix_eq : suffix.isSuffixOf fileName = true
  named : fileName ≠ []
  fits : (dir ++ fileName).length < 96
  stored : files (dir ++ fileName) = some blob

/-- The callback registers one service, as defined, and starting it executes the entry. -/
def ServiceSurvives (d : Definition (buildService int)) (fileName : Str) (r : Services) : Prop :=
  ∃ v : Service, (rootfsK64sCb files fileName false r).services = r.services ++ [v] ∧
    v.name = utf8 d.name ∧
    v.classId = parseServiceClass (getMeta d.entries "class" "system") ∧
    (v.flags &&& 1 ≠ 0 ↔ d.flag "async" = true) ∧ (v.flags &&& 2 ≠ 0 ↔ d.flag "autostart" = true) ∧
    int (getMeta d.entries "priority" "1") = some (v.priority : ℤ) ∧
    int (getMeta d.entries "poll_interval_ticks" "0") = some (v.pollIntervalTicks : ℤ) ∧
    (rootfsServiceStart v).map Prod.fst = some (utf8 d.entry)

def DriverSurvives (d : Definition (buildDriver int)) (fileName : Str) (r : Drivers) : Prop :=
  ∃ v : Driver, (rootfsK64mCb files fileName false r).drivers = r.drivers ++ [v] ∧
    v.name = utf8 d.name ∧ v.type = parseDriverType (getMeta d.entries "type" "driver") ∧
    (v.flags &&& 1 ≠ 0 ↔ d.flag "async" = true) ∧ (v.flags &&& 2 ≠ 0 ↔ d.flag "autostart" = true) ∧
    int (getMeta d.entries "priority" "1") = some (v.priority : ℤ) ∧
    rootfsDriverStart v = some (utf8 d.entry)

/-- There is a name, and the entry fits into the 64 bytes of the slot. -/
def Fits (d : Definition build) : Prop := d.name ≠ [] ∧ (utf8 d.entry).length < 64

theorem zero_not_mem_utf8Char {c : Char} (h : c ≠ Char.ofNat 0) : 0 ∉ String.utf8EncodeChar c := by
  have hpos : c.val.toNat ≠ 0 := by
    intro hzero
    exact h (Char.ext (UInt32.toNat_inj.mp hzero))
  have hbyte : ∀ n, 0 < n % 256 → (0 : UInt8) ≠ UInt8.ofNat n := by
    intro n hn heq
    have := congrArg UInt8.toNat heq
    simp only [UInt8.toNat_zero, UInt8.toNat_ofNat'] at this
    omega
  unfold String.utf8EncodeChar
  simp only
  split
  · simp only [List.mem_singleton]
    exact hbyte _ (by omega)
  · split
    · simp only [List.mem_cons, List.not_mem_nil, or_false, not_or]
      exact ⟨hbyte _ (by omega), hbyte _ (by omega)⟩
    · split
      · simp only [List.mem_cons, List.not_mem_nil, or_false, not_or]
        exact ⟨hbyte _ (by omega), hbyte _ (by omega), hbyte _ (by omega)⟩
      · simp only [List.mem_cons, List.not_mem_nil, or_false, not_or]
        exact ⟨hbyte _ (by omega), hbyte _ (by omega), hbyte _ (by omega), hbyte _ (by omega)⟩

theorem zero_not_mem_utf8 {text : Text} (h : Char.ofNat 0 ∉ text) : 0 ∉ utf8 text := by
  simp only [utf8, List.mem_flatMap, not_exists, not_and]
  intro c hc
  exact zero_not_mem_utf8Char fun hzero => h (hzero ▸ hc)

theorem utf8_eq_nil {text : Text} : utf8 text = [] ↔ text = [] := by
  cases text with
  | nil => simp [utf8]
  | cons c rest => simp [utf8, String.utf8EncodeChar_ne_nil]

theorem cString_padded {data : Str} (h : 0 ∉ data) (k : ℕ) :
    cString (data ++ List.replicate k 0) = data := by
  have hall : ∀ c ∈ data, (c != 0) = true := fun c hc => by
    simpa using fun hzero : c = 0 => h (hzero ▸ hc)
  rw [cString, List.takeWhile_append_of_pos hall]
  cases k with
  | zero => simp
  | succ k => simp [List.replicate_succ]

theorem packStr_cases {text : Text} {size : ℕ} {field : Str} (h : packStr text size = some field) :
    field.length = size ∧ (utf8 text).length < size ∧
      (Char.ofNat 0 ∉ text → cString field = utf8 text) := by
  simp only [packStr] at h
  split at h
  · simp at h
  next hshort =>
    obtain rfl := Option.some.inj h
    refine ⟨by simp; omega, by omega, fun hzero => cString_padded (zero_not_mem_utf8 hzero) _⟩

theorem packInt_cases {n : ℤ} {field : Str} (h : packInt n = some field) :
    ∃ k : ℕ, n = k ∧ k < 2 ^ 32 ∧ field = leBytes 4 k := by
  simp only [packInt] at h
  split at h
  next hrange => exact ⟨n.toNat, by omega, by omega, (Option.some.inj h).symm⟩
  · simp at h

theorem leNat_four {k : ℕ} (h : k < 2 ^ 32) : leNat (leBytes 4 k) = k := by
  rw [leNat_leBytes]
  exact Nat.mod_eq_of_lt h

theorem readArtifact_structPack {magic p w : ℕ} (execKind kindId : UInt8) (flags : UInt32)
    {name entryPath : Str} (hmagic : magic < 2 ^ 32) (hp : p < 2 ^ 32) (hw : w < 2 ^ 32)
    (hname : name.length = 32) (hentry : entryPath.length = 96) :
    readArtifact (structPack magic execKind kindId flags (leBytes 4 p) (leBytes 4 w) name entryPath) =
      { magic := magic, version := artifactVersion, execKind := execKind, kindId := kindId,
        flags := flags, priority := p, pollIntervalTicks := w, name := cString name,
        entryPath := cString entryPath } := by
  have hfour : ∀ k : ℕ, leBytes 4 k = [UInt8.ofNat k, UInt8.ofNat (k / 256),
      UInt8.ofNat (k / 256 / 256), UInt8.ofNat (k / 256 / 256 / 256)] := fun k => rfl
  have hflags : UInt32.ofNat (leNat (leBytes 4 flags.toNat)) = flags := by
    rw [leNat_four flags.toNat_lt]
    simp
  have htake : (name ++ entryPath).take 32 = name := by rw [← hname, List.take_left]
  have hdrop : ((name ++ entryPath).drop 32).take 96 = entryPath := by
    rw [← hname, List.drop_left, ← hentry, List.take_length]
  have hm := leNat_four hmagic
  have hp := leNat_four hp
  have hw := leNat_four hw
  rw [hfour] at hm hp hw hflags
  unfold readArtifact structPack
  simp only [hfour]
  rw [ArtifactFile.mk.injEq]
  exact ⟨hm, rfl, rfl, rfl, hflags, hp, hw, congrArg cString htake, congrArg cString hdrop⟩

variable {int} {files}

theorem zero_not_mem_getMeta (d : Definition build) (key default : String)
    (h : Char.ofNat 0 ∉ default.toList) : Char.ofNat 0 ∉ getMeta d.entries key default := by
  unfold getMeta
  rcases hfind : d.entries.lookup key.toList with _ | value
  · exact h
  · obtain ⟨_, _, hsplit, -⟩ := List.lookup_eq_some_iff.mp hfind
    exact d.no_zero (key.toList, value) (by simp [hsplit])

theorem Definition.no_zero_name (d : Definition build) : Char.ofNat 0 ∉ d.name :=
  zero_not_mem_getMeta d "name" "" (by simp)

theorem Definition.no_zero_entry (d : Definition build) : Char.ofNat 0 ∉ d.entry :=
  zero_not_mem_getMeta d "entry" _ (by simp)

theorem built_service (d : Definition (buildService int)) :
    ∃ p w : ℕ, int (getMeta d.entries "priority" "1") = some (p : ℤ) ∧
      int (getMeta d.entries "poll_interval_ticks" "0") = some (w : ℤ) ∧
      (utf8 d.name).length < 32 ∧ (utf8 d.entry).length < 96 ∧ d.blob.length = artifactSize ∧
      readArtifact d.blob =
        { magic := systemMagic, version := artifactVersion, execKind := execElf,
          kindId := parseServiceClass (getMeta d.entries "class" "system"),
          flags := serviceFlags (d.flag "autostart") (d.flag "async"), priority := p,
          pollIntervalTicks := w, name := utf8 d.name, entryPath := utf8 d.entry } := by
  have hbuilt := d.built
  simp only [buildService, d.read, d.elf, Option.bind_eq_bind, Option.bind_some,
    Option.bind_eq_some_iff] at hbuilt
  obtain ⟨name, hname, kind, hkind, _, hp, _, hw, pfield, hpfield, wfield, hwfield, nfield, hnfield,
    efield, hefield, hblob⟩ := hbuilt
  obtain rfl : d.name = name := by rw [Definition.name, hname, Option.getD_some]
  obtain rfl : execElf = kind := Option.some.inj hkind
  obtain ⟨p, rfl, hplt, rfl⟩ := packInt_cases hpfield
  obtain ⟨w, rfl, hwlt, rfl⟩ := packInt_cases hwfield
  obtain ⟨hnlen, hnshort, hncstr⟩ := packStr_cases hnfield
  obtain ⟨helen, heshort, hecstr⟩ := packStr_cases hefield
  refine ⟨p, w, hp, hw, hnshort, heshort, ?_, ?_⟩
  · rw [← Option.some.inj hblob]
    simp [structPack, hnlen, helen, artifactSize]
  · rw [← Option.some.inj hblob, readArtifact_structPack _ _ _ (by decide) hplt hwlt hnlen helen,
      hncstr d.no_zero_name, hecstr d.no_zero_entry]
    rfl

theorem built_driver (d : Definition (buildDriver int)) :
    ∃ p : ℕ, int (getMeta d.entries "priority" "1") = some (p : ℤ) ∧
      (utf8 d.name).length < 32 ∧ (utf8 d.entry).length < 96 ∧ d.blob.length = artifactSize ∧
      readArtifact d.blob =
        { magic := moduleMagic, version := artifactVersion, execKind := execElf,
          kindId := parseDriverType (getMeta d.entries "type" "driver"),
          flags := driverFlags (d.flag "autostart") (d.flag "async"), priority := p,
          pollIntervalTicks := 0, name := utf8 d.name, entryPath := utf8 d.entry } := by
  have hbuilt := d.built
  simp only [buildDriver, d.read, d.elf, Option.bind_eq_bind, Option.bind_some,
    Option.bind_eq_some_iff] at hbuilt
  obtain ⟨name, hname, kind, hkind, _, hp, pfield, hpfield, nfield, hnfield, efield, hefield,
    hblob⟩ := hbuilt
  obtain rfl : d.name = name := by rw [Definition.name, hname, Option.getD_some]
  obtain rfl : execElf = kind := Option.some.inj hkind
  obtain ⟨p, rfl, hplt, rfl⟩ := packInt_cases hpfield
  obtain ⟨hnlen, hnshort, hncstr⟩ := packStr_cases hnfield
  obtain ⟨helen, heshort, hecstr⟩ := packStr_cases hefield
  refine ⟨p, hp, hnshort, heshort, ?_, ?_⟩
  · rw [← Option.some.inj hblob]
    simp [structPack, hnlen, helen, artifactSize]
  · rw [← Option.some.inj hblob,
      readArtifact_structPack _ _ _ (by decide) hplt (by decide) hnlen helen,
      hncstr d.no_zero_name, hecstr d.no_zero_entry]
    rfl

theorem serviceClass_ne_kernel (value : Text) : parseServiceClass value ≠ 0 := by
  unfold parseServiceClass
  split
  · decide
  · split <;> decide

theorem copyString_of_lt {size : ℕ} {src : Str} (h : src.length < size) :
    copyString size src = src :=
  List.take_of_length_le (by omega)

variable {d : Definition (buildService int)} {fileName : Str}

theorem Placed.path {dir suffix blob : Str} (h : Placed files dir suffix fileName blob) :
    buildRootfsPath dir fileName = dir ++ fileName :=
  List.take_of_length_le (by have := h.fits; omega)

theorem rootfsK64sCb_registers {r : Services}
    (hplaced : Placed files serviceDir serviceSuffix fileName d.blob)
    (hnew : systemFindServiceByName r (utf8 d.name) = none) (hctx : r.ctxCount < maxServices)
    (hname : d.name ≠ []) :
    rootfsK64sCb files fileName false r = systemRegisterService r (readArtifact d.blob) := by
  obtain ⟨p, w, -, -, -, -, hsize, hread⟩ := built_service d
  have hload : loadable systemMagic d.blob = true := by
    simp [loadable, hread, hsize, utf8_eq_nil, hname, Definition.entry, d.entry_given]
  have hfile : (readArtifact d.blob).name = utf8 d.name := by rw [hread]
  simp [rootfsK64sCb, hplaced.named, hplaced.suffix_eq, hplaced.path, hplaced.stored, hload, hfile, hnew,
    hctx]

theorem rootfsK64mCb_registers {d : Definition (buildDriver int)} {r : Drivers}
    (hplaced : Placed files driverDir driverSuffix fileName d.blob)
    (hnew : modulesFindDriverByName r (utf8 d.name) = none) (hctx : r.ctxCount < maxDrivers)
    (hname : d.name ≠ []) :
    rootfsK64mCb files fileName false r = modulesRegisterDriver r (readArtifact d.blob) := by
  obtain ⟨p, -, -, -, hsize, hread⟩ := built_driver d
  have hload : loadable moduleMagic d.blob = true := by
    simp [loadable, hread, hsize, utf8_eq_nil, hname, Definition.entry, d.entry_given]
  have hfile : (readArtifact d.blob).name = utf8 d.name := by rw [hread]
  simp [rootfsK64mCb, hplaced.named, hplaced.suffix_eq, hplaced.path, hplaced.stored, hload, hfile, hnew,
    hctx]

theorem rootfsK64sCb_nameless {r : Services}
    (hplaced : Placed files serviceDir serviceSuffix fileName d.blob) (hname : d.name = []) :
    rootfsK64sCb files fileName false r = r := by
  obtain ⟨p, w, -, -, -, -, -, hread⟩ := built_service d
  have hload : loadable systemMagic d.blob = false := by
    simp [loadable, hread, hname, utf8]
  simp [rootfsK64sCb, hplaced.named, hplaced.suffix_eq, hplaced.path, hplaced.stored, hload]

theorem rootfsK64mCb_nameless {d : Definition (buildDriver int)} {r : Drivers}
    (hplaced : Placed files driverDir driverSuffix fileName d.blob) (hname : d.name = []) :
    rootfsK64mCb files fileName false r = r := by
  obtain ⟨p, -, -, -, -, hread⟩ := built_driver d
  have hload : loadable moduleMagic d.blob = false := by
    simp [loadable, hread, hname, utf8]
  simp [rootfsK64mCb, hplaced.named, hplaced.suffix_eq, hplaced.path, hplaced.stored, hload]

theorem slot_holds_iff {entry : Text} :
    copyString 64 (utf8 entry) = utf8 entry ↔ (utf8 entry).length < 64 := by
  constructor
  · intro h
    have hlength := congrArg List.length h
    simp only [copyString, List.length_take] at hlength
    omega
  · exact copyString_of_lt

theorem slot_ne_nil {entry : Text} (h : entry ≠ []) : copyString 64 (utf8 entry) ≠ [] := by
  simp [copyString, utf8_eq_nil, h]

theorem serviceFlags_registered (autostart async : Bool) :
    (((if serviceFlags autostart async &&& 2 ≠ 0 then (1 : UInt32) else 0) |||
        (if serviceFlags autostart async &&& 1 ≠ 0 then 2 else 0) ||| 8) &&& 1 ≠ 0 ↔ async = true) ∧
      (((if serviceFlags autostart async &&& 2 ≠ 0 then (1 : UInt32) else 0) |||
        (if serviceFlags autostart async &&& 1 ≠ 0 then 2 else 0) ||| 8) &&& 2 ≠ 0 ↔
          autostart = true) := by
  revert autostart async
  decide

theorem driverFlags_registered (autostart async : Bool) :
    (driverFlags autostart async &&& 1 ≠ 0 ↔ async = true) ∧
      (driverFlags autostart async &&& 2 ≠ 0 ↔ autostart = true) := by
  revert autostart async
  decide

theorem service_survives_iff {r : Services}
    (hplaced : Placed files serviceDir serviceSuffix fileName d.blob)
    (hnew : systemFindServiceByName r (utf8 d.name) = none) (hroom : r.services.length < maxServices)
    (hctx : r.ctxCount < maxServices) : ServiceSurvives int files d fileName r ↔ Fits d := by
  by_cases hname : d.name = []
  · have hsame := rootfsK64sCb_nameless (r := r) hplaced hname
    constructor
    · rintro ⟨v, hadded, -⟩
      rw [hsame] at hadded
      simpa using congrArg List.length hadded
    · exact fun h => absurd hname h.1
  · obtain ⟨p, w, hp, hw, hshort, -, -, hread⟩ := built_service d
    have hadded := rootfsK64sCb_registers hplaced hnew hctx hname
    rw [systemRegisterService, if_neg (by omega)] at hadded
    simp only [hread, serviceClass_ne_kernel, false_and, if_false] at hadded
    constructor
    · rintro ⟨v, hv, -, -, -, -, -, -, hstart⟩
      rw [hadded] at hv
      obtain rfl := List.singleton_inj.mp (List.append_cancel_left hv)
      refine ⟨hname, slot_holds_iff.mp ?_⟩
      simpa [rootfsServiceStart, slot_ne_nil d.entry_given, Definition.entry] using hstart
    · rintro ⟨-, hfits⟩
      obtain ⟨hasync, hautostart⟩ :=
        serviceFlags_registered (d.flag "autostart") (d.flag "async")
      refine ⟨_, by rw [hadded], copyString_of_lt hshort, rfl, hasync, hautostart, hp, hw, ?_⟩
      have hgiven : utf8 d.entry ≠ [] := utf8_eq_nil.not.mpr d.entry_given
      simp [rootfsServiceStart, slot_holds_iff.mpr hfits, hgiven]

theorem driver_survives_iff {d : Definition (buildDriver int)} {r : Drivers}
    (hplaced : Placed files driverDir driverSuffix fileName d.blob)
    (hnew : modulesFindDriverByName r (utf8 d.name) = none) (hroom : r.drivers.length < maxDrivers)
    (hctx : r.ctxCount < maxDrivers) : DriverSurvives int files d fileName r ↔ Fits d := by
  by_cases hname : d.name = []
  · have hsame := rootfsK64mCb_nameless (r := r) hplaced hname
    constructor
    · rintro ⟨v, hadded, -⟩
      rw [hsame] at hadded
      simpa using congrArg List.length hadded
    · exact fun h => absurd hname h.1
  · obtain ⟨p, hp, hshort, -, -, hread⟩ := built_driver d
    have hadded := rootfsK64mCb_registers hplaced hnew hctx hname
    rw [modulesRegisterDriver, if_neg (by omega)] at hadded
    simp only [hread] at hadded
    constructor
    · rintro ⟨v, hv, -, -, -, -, -, hstart⟩
      rw [hadded] at hv
      obtain rfl := List.singleton_inj.mp (List.append_cancel_left hv)
      refine ⟨hname, slot_holds_iff.mp ?_⟩
      simpa [rootfsDriverStart, slot_ne_nil d.entry_given, Definition.entry] using hstart
    · rintro ⟨-, hfits⟩
      obtain ⟨hasync, hautostart⟩ :=
        driverFlags_registered (d.flag "autostart") (d.flag "async")
      refine ⟨_, by rw [hadded], copyString_of_lt hshort, rfl, hasync, hautostart, hp, ?_⟩
      have hgiven : utf8 d.entry ≠ [] := utf8_eq_nil.not.mpr d.entry_given
      simp [rootfsDriverStart, slot_holds_iff.mpr hfits, hgiven]

/-- What the loaders are given has room for one more, and no entry of the name. -/
structure ServiceRoom (r : Services) (name : Str) : Prop where
  new : systemFindServiceByName r name = none
  room : r.services.length < maxServices
  slot : r.ctxCount < maxServices

structure DriverRoom (r : Drivers) (name : Str) : Prop where
  new : modulesFindDriverByName r name = none
  room : r.drivers.length < maxDrivers
  slot : r.ctxCount < maxDrivers

/-- Artifacts survive the build if and only if they have a name and an entry that fits into the slot
of the loader. -/
theorem artifacts_survive_iff_fits (int : IntOf) (files : Str → Option Str) (fileName : Str) :
    (∀ (d : Definition (buildService int)) (r : Services),
      Placed files serviceDir serviceSuffix fileName d.blob → ServiceRoom r (utf8 d.name) →
        (ServiceSurvives int files d fileName r ↔ Fits d)) ∧
    ∀ (d : Definition (buildDriver int)) (r : Drivers),
      Placed files driverDir driverSuffix fileName d.blob → DriverRoom r (utf8 d.name) →
        (DriverSurvives int files d fileName r ↔ Fits d) :=
  ⟨fun _ _ hplaced h => service_survives_iff hplaced h.new h.room h.slot,
    fun _ _ hplaced h => driver_survives_iff hplaced h.new h.room h.slot⟩

def digits (text : Text) : Option ℤ := some (text.foldl (fun n c => n * 10 + (c.toNat - 48)) 0)

/-- "name=hello", "kind=elf" and the entry. -/
def helloText (entry : String) : Text := "name=hello\nkind=elf\nentry=".toList ++ entry.toList

def helloEntries (entry : String) : Meta :=
  [("entry".toList, entry.toList), ("kind".toList, "elf".toList), ("name".toList, "hello".toList)]

def shortEntry : String := "/ex/hello.elf"

def longEntry : String := "/ex/aaaaaaaaaaaaaaaaaaaaaaaaaaaaaaaaaaaaaaaaaaaaaaaaaaaaaaaa.elf"

def helloBlob (entry : String) : Str :=
  structPack systemMagic execElf 1 0 [1, 0, 0, 0] [0, 0, 0, 0]
    ([104, 101, 108, 108, 111] ++ List.replicate 27 0)
    (utf8 entry.toList ++ List.replicate (96 - (utf8 entry.toList).length) 0)

def shortDefinition : Definition (buildService digits) where
  text := helloText shortEntry
  entries := helloEntries shortEntry
  blob := helloBlob shortEntry
  read := by decide +kernel
  built := by decide +kernel
  elf := by decide
  entry_given := by decide
  no_zero := by decide +kernel

def longDefinition : Definition (buildService digits) where
  text := helloText longEntry
  entries := helloEntries longEntry
  blob := helloBlob longEntry
  read := by decide +kernel
  built := by decide +kernel
  elf := by decide
  entry_given := by decide
  no_zero := by decide +kernel

/-- "hello.k64s". -/
def helloFile : Str := [104, 101, 108, 108, 111, 46, 107, 54, 52, 115]

theorem hello_survives :
    (ServiceSurvives digits (fun _ => some shortDefinition.blob) shortDefinition helloFile ⟨[], 0⟩ ↔
      Fits shortDefinition) ∧ Fits shortDefinition :=
  ⟨(artifacts_survive_iff_fits digits (fun _ => some shortDefinition.blob) helloFile).1
    shortDefinition ⟨[], 0⟩ ⟨by decide, by decide, by decide, rfl⟩ ⟨rfl, by decide, by decide⟩,
    by decide, by decide⟩

/-- The entry of 64 bytes is accepted by the packer and cut by the loader. -/
theorem long_entry_cut :
    ¬ ServiceSurvives digits (fun _ => some longDefinition.blob) longDefinition helloFile ⟨[], 0⟩ := by
  rw [service_survives_iff ⟨by decide, by decide, by decide, rfl⟩ rfl (by decide) (by decide)]
  exact fun h => absurd h.2 (by decide)

end Artifacts
