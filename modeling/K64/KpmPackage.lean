import K64.ByteCodec
import K64.FsPaths
import K64.NetState

/-! # Packages

The package header, its validation and the paths that are built from it (`k64_kpm.c`). -/
namespace KpmPackage

open ByteCodec XfsDirectory FsPaths NetState

def kpmCopy (size : ℕ) (src : List UInt8) : List UInt8 := src.take (size - 1)

def kpmAppend (size : ℕ) (dst src : List UInt8) : List UInt8 := dst ++ src.take (size - 1 - dst.length)

/-- The string in a character array. -/
def cstr (field : List UInt8) : List UInt8 := field.takeWhile (· ≠ 0)

theorem kpmCopy_eq {size : ℕ} {src : List UInt8} (h : src.length < size) : kpmCopy size src = src :=
  List.take_of_length_le (by omega)

theorem kpmAppend_eq {size : ℕ} {dst src : List UInt8} (h : dst.length + src.length < size) :
    kpmAppend size dst src = dst ++ src := by
  rw [kpmAppend, List.take_of_length_le (by omega)]

theorem kpmAppend_take {size : ℕ} {dst src : List UInt8} (h : dst.length ≤ size - 1) :
    kpmAppend size dst src = (dst ++ src).take (size - 1) := by
  rw [kpmAppend, List.take_append, List.take_of_length_le h]

def kpmMagic : UInt32 := 0x3147504B
def kindElf : UInt16 := 1
def kindK64s : UInt16 := 2
def kindK64m : UInt16 := 3

structure KpmPackageHeader where
  magic : UInt32
  formatVersion : UInt16
  kind : UInt16
  packageName : Vector UInt8 64
  packageVersion : Vector UInt8 32
  installName : Vector UInt8 64
  payloadSize : UInt64
  payloadCrc32 : UInt32
  flags : UInt32
  reserved : Vector UInt8 64

/-- `sizeof(kpm_package_header_t)`. -/
def headerSize : ℕ := 248

def readHeader (data : List UInt8) : KpmPackageHeader where
  magic := Codec.u32.decode data
  formatVersion := Codec.u16.decode (data.drop 4)
  kind := Codec.u16.decode (data.drop 6)
  packageName := (Codec.bytes 64).decode (data.drop 8)
  packageVersion := (Codec.bytes 32).decode (data.drop 72)
  installName := (Codec.bytes 64).decode (data.drop 104)
  payloadSize := Codec.u64.decode (data.drop 168)
  payloadCrc32 := Codec.u32.decode (data.drop 176)
  flags := Codec.u32.decode (data.drop 180)
  reserved := (Codec.bytes 64).decode (data.drop 184)

def crcBit (crc : UInt32) : UInt32 := (crc >>> 1) ^^^ (0xEDB88320 &&& (0 - (crc &&& 1)))

def kpmCrc32 (data : List UInt8) : UInt32 :=
  ~~~ (data.foldl (fun crc b => crcBit^[8] (crc ^^^ b.toUInt32)) 0xFFFFFFFF)

def kpmBoundedCstr (field : List UInt8) : Bool := field.any (· == 0)

def backslash : UInt8 := 92

/-- The character loop of `kpm_valid_install_name`. -/
def validChars : List UInt8 → Bool
  | [] => true
  | ch :: rest =>
    if ch < 32 || ch == slash || ch == backslash then false
    else if ch == dot && rest.head? == some dot then false
    else validChars rest

def kpmValidInstallName (name : List UInt8) : Bool := name != [] && validChars name

def k64KpmValidatePackageBytes (data : List UInt8) : Except String KpmPackageHeader :=
  if data.length < headerSize then .error "package too small"
  else
    let hdr := readHeader data
    if hdr.magic != kpmMagic || hdr.formatVersion != 1 ||
        (hdr.kind != kindElf && hdr.kind != kindK64s && hdr.kind != kindK64m) then
      .error "bad header"
    else if !kpmBoundedCstr hdr.packageName.toList || !kpmBoundedCstr hdr.packageVersion.toList ||
        !kpmBoundedCstr hdr.installName.toList ||
        !kpmValidInstallName (cstr hdr.installName.toList) then
      .error "bad names"
    else if hdr.payloadSize.toNat != data.length - headerSize then .error "payload size mismatch"
    else if kpmCrc32 ((data.drop headerSize).take hdr.payloadSize.toNat) != hdr.payloadCrc32 then
      .error "payload crc mismatch"
    else .ok hdr

def kpmKindName (kind : UInt16) : List UInt8 :=
  if kind = kindElf then ascii "ELF"
  else if kind = kindK64s then ascii "K64S"
  else if kind = kindK64m then ascii "K64M"
  else ascii "UNKNOWN"

def kpmInstallPath (size : ℕ) (hdr : KpmPackageHeader) : List UInt8 :=
  let name := cstr hdr.installName.toList
  if hdr.kind = kindElf then
    kpmAppend size (kpmAppend size (kpmAppend size [] (ascii "/ex/")) name) (ascii ".elf")
  else if hdr.kind = kindK64s then
    kpmAppend size (kpmAppend size (kpmAppend size [] (ascii "/k64s/")) name) (ascii ".k64s")
  else kpmAppend size (kpmAppend size (kpmAppend size [] (ascii "/k64m/")) name) (ascii ".k64m")

/-- The two paths of `k64_kpm_install_package_bytes` that depend on the package. -/
def finalPath (hdr : KpmPackageHeader) : List UInt8 := kpmInstallPath 128 hdr

def tempPath (hdr : KpmPackageHeader) : List UInt8 :=
  kpmAppend 160 (kpmCopy 160 (finalPath hdr)) (ascii ".kpmtmp")

structure Accepted (data : List UInt8) (hdr : KpmPackageHeader) : Prop where
  read : hdr = readHeader data
  kind : hdr.kind = kindElf ∨ hdr.kind = kindK64s ∨ hdr.kind = kindK64m
  bounded : kpmBoundedCstr hdr.installName.toList = true
  name : kpmValidInstallName (cstr hdr.installName.toList) = true
  size : hdr.payloadSize.toNat + headerSize = data.length
  crc : kpmCrc32 (data.drop headerSize) = hdr.payloadCrc32

variable {data : List UInt8} {hdr : KpmPackageHeader}

theorem accepted_of_ok (h : k64KpmValidatePackageBytes data = .ok hdr) : Accepted data hdr := by
  rw [k64KpmValidatePackageBytes] at h
  split at h
  · cases h
  rename_i hlen
  dsimp only at h
  split at h
  · cases h
  rename_i hheader
  split at h
  · cases h
  rename_i hnames
  split at h
  · cases h
  rename_i hsize
  split at h
  · cases h
  rename_i hcrc
  cases h
  have hsize : (readHeader data).payloadSize.toNat = data.length - headerSize := by simpa using hsize
  simp only [Bool.or_eq_true, Bool.not_eq_true', not_or, Bool.not_eq_false] at hnames
  refine ⟨rfl, ?_, hnames.1.2, hnames.2, by omega, ?_⟩
  · simp only [Bool.or_eq_true, Bool.and_eq_true, bne_iff_ne, not_or, not_and_or, not_not] at hheader
    exact or_assoc.mp hheader.2
  · have hwhole : (data.drop headerSize).take (readHeader data).payloadSize.toNat =
        data.drop headerSize := List.take_of_length_le (by rw [List.length_drop]; omega)
    rw [hwhole] at hcrc
    simpa using hcrc

/-- The install directory that the kind selects, and the suffix of its files. -/
def installDir (hdr : KpmPackageHeader) : List UInt8 :=
  if hdr.kind = kindElf then ascii "ex" else if hdr.kind = kindK64s then ascii "k64s"
  else ascii "k64m"

def installSuffix (hdr : KpmPackageHeader) : List UInt8 :=
  if hdr.kind = kindElf then ascii ".elf" else if hdr.kind = kindK64s then ascii ".k64s"
  else ascii ".k64m"

def installLeaf (hdr : KpmPackageHeader) : List UInt8 :=
  cstr hdr.installName.toList ++ installSuffix hdr

theorem installDir_cases (hdr : KpmPackageHeader) : (installDir hdr = ascii "ex" ∨
    installDir hdr = ascii "k64s" ∨ installDir hdr = ascii "k64m") ∧
    (installSuffix hdr = ascii ".elf" ∨ installSuffix hdr = ascii ".k64s" ∨
      installSuffix hdr = ascii ".k64m") := by
  rw [installDir, installSuffix]
  split
  · exact ⟨Or.inl rfl, Or.inl rfl⟩
  · split
    · exact ⟨Or.inr (Or.inl rfl), Or.inr (Or.inl rfl)⟩
    · exact ⟨Or.inr (Or.inr rfl), Or.inr (Or.inr rfl)⟩

theorem length_cstr {field : List UInt8} (h : kpmBoundedCstr field = true) :
    (cstr field).length < field.length := by
  induction field with
  | nil => cases h
  | cons b field ih =>
    rw [cstr, List.takeWhile_cons]
    by_cases hb : b = 0
    · simp [hb]
    · have hrest : kpmBoundedCstr field = true := by
        simpa [kpmBoundedCstr, hb] using h
      have := ih hrest
      rw [cstr] at this
      simpa [hb] using this

theorem validChars_slash {name : List UInt8} (h : validChars name = true) : slash ∉ name := by
  induction name with
  | nil => exact List.not_mem_nil
  | cons ch rest ih =>
    rw [validChars] at h
    split at h
    · cases h
    rename_i hch
    have hne : ch ≠ slash := by
      rintro rfl
      simp at hch
    have hrest : validChars rest = true := by
      split at h
      · cases h
      · exact h
    rw [List.mem_cons, not_or]
    exact ⟨hne.symm, ih hrest⟩

/-- The leaf is a plain name, also with the temporary suffix, and the paths are not truncated. -/
structure Placed (hdr : KpmPackageHeader) : Prop where
  dir : PlainName (installDir hdr)
  leaf : PlainName (installLeaf hdr)
  tempLeaf : PlainName (installLeaf hdr ++ ascii ".kpmtmp")
  final : finalPath hdr = slash :: installDir hdr ++ slash :: installLeaf hdr
  temp : tempPath hdr = slash :: installDir hdr ++ slash :: (installLeaf hdr ++ ascii ".kpmtmp")
  dirLength : (installDir hdr).length ≤ 4
  leafLength : (installLeaf hdr).length ≤ 68

theorem plainName_suffix {name suffix : List UInt8} (hslash : slash ∉ name) (hs : slash ∉ suffix)
    (hlong : 3 ≤ suffix.length) (hshort : name.length + suffix.length < 128) :
    PlainName (name ++ suffix) := by
  have hne : ∀ short : List UInt8, short.length ≤ 2 → name ++ suffix ≠ short := by
    rintro short hle rfl
    rw [List.length_append] at hle
    omega
  refine ⟨hne [] (by decide), fun hm => ?_, by rwa [List.length_append], hne [dot] (by decide),
    hne [dot, dot] (by decide)⟩
  rcases List.mem_append.mp hm with hm | hm
  · exact hslash hm
  · exact hs hm

theorem accepted_placed (h : Accepted data hdr) : Placed hdr := by
  have hname := h.name
  rw [kpmValidInstallName, Bool.and_eq_true] at hname
  have hslash := validChars_slash hname.2
  have hlength : (cstr hdr.installName.toList).length < 64 := by
    simpa using length_cstr h.bounded
  obtain ⟨hdir, hsuffix⟩ := installDir_cases hdr
  have hd : slash ∉ installDir hdr ∧ 2 ≤ (installDir hdr).length ∧ (installDir hdr).length ≤ 4 ∧
      installDir hdr ≠ [dot] ∧ installDir hdr ≠ [dot, dot] := by
    rcases hdir with hd | hd | hd <;> rw [hd] <;> decide
  have hs : slash ∉ installSuffix hdr ∧ 4 ≤ (installSuffix hdr).length ∧
      (installSuffix hdr).length ≤ 5 := by
    rcases hsuffix with hs | hs | hs <;> rw [hs] <;> decide
  have hleaf : (installLeaf hdr).length =
      (cstr hdr.installName.toList).length + (installSuffix hdr).length := List.length_append
  have hpath : finalPath hdr = slash :: installDir hdr ++ slash :: installLeaf hdr := by
    rw [finalPath, kpmInstallPath, installDir, installLeaf, installSuffix]
    have happend : ∀ pre suffix : List UInt8, pre.length ≤ 6 → suffix.length ≤ 5 →
        kpmAppend 128 (kpmAppend 128 (kpmAppend 128 [] pre) (cstr hdr.installName.toList)) suffix =
          pre ++ (cstr hdr.installName.toList ++ suffix) := by
      intro pre suffix hp hx
      have hpre : kpmAppend 128 [] pre = pre := kpmAppend_eq (by simp; omega)
      have hmid : kpmAppend 128 pre (cstr hdr.installName.toList) =
          pre ++ cstr hdr.installName.toList := kpmAppend_eq (by omega)
      rw [hpre, hmid, kpmAppend_eq (by rw [List.length_append]; omega), List.append_assoc]
    split
    · exact happend _ _ (by decide) (by decide)
    · split
      · exact happend _ _ (by decide) (by decide)
      · exact happend _ _ (by decide) (by decide)
  have hfinal : (finalPath hdr).length = (installDir hdr).length + (installLeaf hdr).length + 2 := by
    rw [hpath]
    simp only [List.length_append, List.length_cons]
    omega
  have htmp : (ascii ".kpmtmp").length = 7 := by decide
  refine ⟨⟨?_, hd.1, by omega, hd.2.2.2.1, hd.2.2.2.2⟩, ?_, ?_, hpath, ?_, hd.2.2.1, by omega⟩
  · exact List.length_pos_iff.mp (by omega)
  · exact plainName_suffix hslash hs.1 (by omega) (by omega)
  · rw [installLeaf, List.append_assoc]
    refine plainName_suffix hslash ?_ ?_ ?_
    · rw [List.mem_append, not_or]
      exact ⟨hs.1, by decide⟩
    · rw [List.length_append]
      omega
    · rw [List.length_append]
      omega
  · rw [tempPath, kpmCopy_eq (by omega), kpmAppend_eq (by omega), hpath]
    simp

end KpmPackage
