import K64.ElfRawFiles
import K64.NotedReads

/-! # What the ELF parsers read

The three validators of ELF files and the copies of their segments, with every read noted. -/
namespace ElfReads

open ByteCodec NotedReads VirtualMemory ElfLoader
open ElfRawFiles (elfHeaderValid_some elfFile)

def readField (file : File) (offset w : ℕ) : Noted ℕ := do
  return leNat (← readBytes file offset w)

def ptInterp : UInt32 := 3

/-- `klcs_elf_info_t`. -/
structure ElfInfo where
  valid : Bool
  dynamic : Bool
  machine : UInt16
  type : UInt16
  entry : UInt64
  phnum : UInt16
  message : List UInt8

def noInfo : ElfInfo := ⟨false, false, 0, 0, 0, 0, []⟩

def ElfInfo.say (info : ElfInfo) (text : String) : ElfInfo := { info with message := asciiBytes text }

/-- The loop over `n` program headers from number `i` on: whether it gets through, and `dynamic`. -/
def klcsCheckPhdrs (file : File) (phoff phentsize : ℕ) : ℕ → ℕ → Bool → Noted (Bool × Bool)
  | 0, _, dynamic => return (true, dynamic)
  | n + 1, i, dynamic => do
    let ph := phoff + i * phentsize
    let type := UInt32.ofNat (← readField file ph 4)
    let off := UInt64.ofNat (← readField file (ph + 8) 8)
    let filesz := UInt64.ofNat (← readField file (ph + 32) 8)
    let memsz := UInt64.ofNat (← readField file (ph + 40) 8)
    let dynamic := dynamic || type == ptInterp
    if type == ptLoad && (decide (memsz < filesz) || decide (file.length < off.toNat) ||
        decide (file.length - off.toNat < filesz.toNat)) then return (false, dynamic)
    else klcsCheckPhdrs file phoff phentsize n (i + 1) dynamic

def klcsValidateElf64 (file : File) : Noted (Bool × ElfInfo) :=
  if file.length < 64 then return (false, noInfo.say "ELF too small")
  else do
    let magic ← readBytes file 0 4
    if magic != [0x7F, 0x45, 0x4C, 0x46] then return (false, noInfo.say "bad ELF magic")
    else
      let classAndData ← readBytes file 4 2
      if classAndData != [2, 1] then return (false, noInfo.say "unsupported ELF class/data")
      else
        let type := UInt16.ofNat (← readField file 16 2)
        let machine := UInt16.ofNat (← readField file 18 2)
        let entry := UInt64.ofNat (← readField file 24 8)
        let phoff := UInt64.ofNat (← readField file 32 8)
        let phentsize := UInt16.ofNat (← readField file 54 2)
        let phnum := UInt16.ofNat (← readField file 56 2)
        let info := { noInfo with type, machine, entry, phnum }
        if (type != elfTypeExec && type != elfTypeDyn) || machine != elfX8664 then
          return (false, info.say "unsupported ELF target")
        else if decide (phentsize < 56) || phnum == 0 || decide (file.length < phoff.toNat) ||
            decide (file.length - phoff.toNat < (phnum.toUInt64 * phentsize.toUInt64).toNat) then
          return (false, info.say "bad program header table")
        else
          let (inside, dynamic) ← klcsCheckPhdrs file phoff.toNat phentsize.toNat phnum.toNat 0 false
          let info := { info with dynamic }
          if !inside then return (false, info.say "bad PT_LOAD bounds")
          else
            return (true, { info with valid := true }.say
              (if dynamic then "dynamic ELF not supported yet by KLCS MVP"
                else "ELF64 static candidate"))

/-- The program headers that it walks over. -/
def klcsPhdrs (file : File) : List Phdr :=
  let ehdr := ehdrOf file
  (List.range ehdr.ePhnum.toNat).map fun i =>
    phdrAt file (ehdr.ePhoff.toNat + i * ehdr.ePhentsize.toNat)

def readEhdr (file : File) : Noted Ehdr := do
  return {
    eIdent := ← readBytes file 0 16
    eType := UInt16.ofNat (← readField file 16 2)
    eMachine := UInt16.ofNat (← readField file 18 2)
    eEntry := UInt64.ofNat (← readField file 24 8)
    ePhoff := UInt64.ofNat (← readField file 32 8)
    ePhentsize := UInt16.ofNat (← readField file 54 2)
    ePhnum := UInt16.ofNat (← readField file 56 2) }

/-- The whole of a program header, of which the source reads the fields as it needs them. -/
def readPhdr (file : File) (offset : ℕ) : Noted Phdr := do
  return {
    pType := UInt32.ofNat (← readField file offset 4)
    pOffset := UInt64.ofNat (← readField file (offset + 8) 8)
    pVaddr := UInt64.ofNat (← readField file (offset + 16) 8)
    pFilesz := UInt64.ofNat (← readField file (offset + 32) 8)
    pMemsz := UInt64.ofNat (← readField file (offset + 40) 8)
    pAlign := UInt64.ofNat (← readField file (offset + 48) 8) }

/-- `elf_header_valid`. -/
def readHeader (file : File) : Noted (Option Ehdr) :=
  if file.length < sizeofEhdr then return none
  else do
    let ehdr ← readEhdr file
    let table := ehdr.ePhnum.toUInt64 * sizeofPhdr
    if ehdr.eIdent.take 6 != [0x7F, 0x45, 0x4C, 0x46, 2, 1] ||
        (ehdr.eType != elfTypeExec && ehdr.eType != elfTypeDyn) || ehdr.eMachine != elfX8664 then
      return none
    else if ehdr.ePhentsize != 56 || ehdr.ePhnum == 0 || elfAddOverflows ehdr.ePhoff table ||
        decide (file.length < (ehdr.ePhoff + table).toNat) then return none
    else return some ehdr

def readPhdrNumber (file : File) (ehdr : Ehdr) (i : ℕ) : Noted Phdr :=
  readPhdr file (ehdr.ePhoff.toNat + i * 56)

/-- `elf_scan_loads`, and the loop of `elf_execute_impl_ex` in its place. -/
def readScan (file : File) (ehdr : Ehdr) (userMin loadBias : UInt64) :
    Noted (Option (UInt64 × UInt64)) := do
  let scanned ← scanFrom (fun i range => do
    return scanSegment file.length userMin loadBias range (← readPhdrNumber file ehdr i))
    ehdr.ePhnum.toNat 0 (0xFFFFFFFFFFFFFFFF, 0)
  return scanned.bind fun range =>
    if range.1 == 0xFFFFFFFFFFFFFFFF || range.2 ≤ range.1 then none else some range

/-- The bytes that `vmm_map_range_flags` copies into a page, from a segment at `offset`. -/
def readPage (file : File) (offset : ℕ) (virt fileSize page : UInt64) : Noted (List UInt8) :=
  let (copyStart, copyEnd) := copyWindow virt fileSize page
  if copyStart < copyEnd then
    readBytes file (offset + (page + copyStart - virt).toNat) (copyEnd - copyStart).toNat
  else return []

/-- `k64_vmm_map_user_range` and `k64_vmm_map_private_range` of a segment. -/
def readRange (file : File) (loadBias : UInt64) (ph : Phdr) : Noted PUnit :=
  let virt := ph.pVaddr + loadBias
  (pagesBetween (virt &&& pageMask) ((virt + ph.pMemsz + pageSize - 1) &&& pageMask)).forM
    fun page => do
      let _ ← readPage file ph.pOffset.toNat virt ph.pFilesz page

/-- The copies of `elf_map_loads`: in user mode a segment is copied by one `k64_vmm_write_user`. -/
def readLoads (file : File) (ehdr : Ehdr) (userMode : Bool) (loadBias : UInt64) : Noted PUnit :=
  (List.range ehdr.ePhnum.toNat).forM fun i => do
    let ph ← readPhdrNumber file ehdr i
    if !ph.loads then return
    else if userMode then
      if ph.pFilesz != 0 then
        let _ ← readBytes file ph.pOffset.toNat ph.pFilesz.toNat
    else readRange file loadBias ph

/-- `elf_header_valid`, `elf_scan_loads` and `elf_map_loads`, with a bias that the caller makes of the
header. -/
def readImage (file : File) (userMode : Bool) (biasOf : Ehdr → UInt64) : Noted Bool := do
  match ← readHeader file with
  | none => return false
  | some ehdr =>
    match ← readScan file ehdr 0 (biasOf ehdr) with
    | none => return false
    | some _ =>
      readLoads file ehdr userMode (biasOf ehdr)
      return true

def executeBias (ehdr : Ehdr) : UInt64 := if ehdr.eType == elfTypeDyn then elfDynLoadBias else 0

/-- The checks and the segment copies of `elf_execute_impl_ex`, in either mode. -/
def readExecuted (file : File) : Noted Bool := do
  match ← readHeader file with
  | none => return false
  | some ehdr =>
    match ← readScan file ehdr elfUserMin (executeBias ehdr) with
    | none => return false
    | some (minVaddr, maxVaddr) =>
      let entry := ehdr.eEntry + executeBias ehdr
      if entry < minVaddr || maxVaddr ≤ entry || entry < elfUserMin || elfUserMax ≤ entry then
        return false
      else
        readLoads file ehdr false (executeBias ehdr)
        return true

structure InFile (length : ℕ) (ph : Phdr) : Prop where
  fits : ph.pFilesz ≤ ph.pMemsz
  inside : ph.pOffset.toNat + ph.pFilesz.toNat ≤ length

variable {file : File}

variable {length : ℕ}

theorem within_field {offset w : ℕ} (h : offset + w ≤ length) :
    (readField file offset w).Within length :=
  within_bind (within_read h) (within_pure _)

theorem within_next {α : Type} {offset w : ℕ} {next : ℕ → Noted α} (h : offset + w ≤ length)
    (hnext : (next (readField file offset w).value).Within length) :
    (readField file offset w >>= next).Within length :=
  within_bind (within_field h) hnext

theorem within_klcsCheckPhdrs {phoff phentsize n i : ℕ} {dynamic : Bool}
    (h : ∀ j, i ≤ j → j < i + n → phoff + j * phentsize + 56 ≤ file.length) :
    (klcsCheckPhdrs file phoff phentsize n i dynamic).Within file.length := by
  induction n generalizing i dynamic with
  | zero => exact within_pure _
  | succ n ih =>
    have hi := h i le_rfl (by omega)
    refine within_next (by omega) (within_next (by omega)
      (within_next (by omega) (within_next (by omega) ?_)))
    dsimp only
    split
    · exact within_pure _
    · exact ih fun j hj hlt => h j (by omega) (by omega)

theorem klcsCheckPhdrs_checked {phoff phentsize n i : ℕ} {dynamic : Bool}
    (h : (klcsCheckPhdrs file phoff phentsize n i dynamic).value.1 = true) :
    ∀ j, i ≤ j → j < i + n → (phdrAt file (phoff + j * phentsize)).loads = true →
      InFile file.length (phdrAt file (phoff + j * phentsize)) := by
  induction n generalizing i dynamic with
  | zero => exact fun j hj hlt => by omega
  | succ n ih =>
    intro j hj hlt hloads
    simp only [klcsCheckPhdrs, bind_value] at h
    split at h
    · cases h
    next hgood =>
      by_cases hji : j = i
      · subst hji
        have htype : (phdrAt file (phoff + j * phentsize)).pType = ptLoad := by
          simp only [Phdr.loads, Bool.and_eq_true, beq_iff_eq] at hloads
          exact hloads.1
        have hgood' : ¬ ((phdrAt file (phoff + j * phentsize)).pType == ptLoad &&
            (decide ((phdrAt file (phoff + j * phentsize)).pMemsz <
                (phdrAt file (phoff + j * phentsize)).pFilesz) ||
              decide (file.length < (phdrAt file (phoff + j * phentsize)).pOffset.toNat) ||
              decide (file.length - (phdrAt file (phoff + j * phentsize)).pOffset.toNat <
                (phdrAt file (phoff + j * phentsize)).pFilesz.toNat))) = true := hgood
        simp only [htype, BEq.rfl, Bool.true_and, Bool.or_eq_true, decide_eq_true_eq, not_or,
          not_lt] at hgood'
        exact ⟨UInt64.not_lt.mp hgood'.1.1, by omega⟩
      · exact ih h j (by omega) (by omega) hloads

theorem entry_inside {start n size j : ℕ} (hstart : start ≤ length)
    (htable : n * size ≤ length - start) (hsize : 56 ≤ size) (hj : j < n) :
    start + j * size + 56 ≤ length := by
  have hmul : (j + 1) * size ≤ n * size := Nat.mul_le_mul_right size hj
  rw [Nat.add_mul, Nat.one_mul] at hmul
  omega

theorem table_size (a b : UInt16) : (a.toUInt64 * b.toUInt64).toNat = a.toNat * b.toNat := by
  have ha : a.toNat < 65536 := a.toNat_lt
  have hb : b.toNat < 65536 := b.toNat_lt
  have hlt : a.toNat * b.toNat < 2 ^ 64 :=
    (Nat.mul_lt_mul'' ha hb).trans (by decide)
  rw [UInt64.toNat_mul, UInt16.toNat_toUInt64, UInt16.toNat_toUInt64, Nat.mod_eq_of_lt hlt]

theorem within_klcsValidateElf64 (file : File) :
    (klcsValidateElf64 file).Within file.length := by
  unfold klcsValidateElf64
  split
  · exact within_pure _
  next hsize =>
    refine within_bind (within_read (by omega)) ?_
    split
    · exact within_pure _
    refine within_bind (within_read (by omega)) ?_
    split
    · exact within_pure _
    refine within_next (by omega) (within_next (by omega)
      (within_next (by omega) (within_next (by omega)
        (within_next (by omega) (within_next (by omega) ?_)))))
    dsimp only
    split
    · exact within_pure _
    split
    · exact within_pure _
    next htable =>
      simp only [Bool.or_eq_true, decide_eq_true_eq, beq_iff_eq, not_or, not_lt,
        table_size] at htable
      obtain ⟨⟨⟨hentry, -⟩, hstart⟩, htable⟩ := htable
      have hentry := UInt16.le_iff_toNat_le.mp (UInt16.not_lt.mp hentry)
      refine within_bind (within_klcsCheckPhdrs fun j _ hlt => ?_) ?_
      · exact entry_inside hstart htable hentry (by simpa only [Nat.zero_add] using hlt)
      · split <;> exact within_pure _

theorem klcsValidateElf64_checked (h : (klcsValidateElf64 file).value.1 = true) :
    ∀ ph ∈ klcsPhdrs file, ph.loads = true → InFile file.length ph := by
  simp only [klcsValidateElf64] at h
  split at h
  · cases h
  simp only [bind_value] at h
  split at h
  · cases h
  simp only [bind_value] at h
  split at h
  · cases h
  simp only [bind_value] at h
  split at h
  · cases h
  split at h
  · cases h
  simp only [bind_value] at h
  split at h
  · cases h
  next hinside =>
    rw [Bool.not_eq_true, Bool.not_eq_false'] at hinside
    have hchecked := klcsCheckPhdrs_checked hinside
    intro ph hph hloads
    obtain ⟨j, hj, rfl⟩ := List.mem_map.mp hph
    exact hchecked j (Nat.zero_le j) (by rw [Nat.zero_add]; exact List.mem_range.mp hj) hloads

theorem within_readPhdr {offset : ℕ} (h : offset + 56 ≤ file.length) :
    (readPhdr file offset).Within file.length :=
  within_next (by omega) (within_next (by omega)
    (within_next (by omega) (within_next (by omega)
      (within_next (by omega) (within_next h (within_pure _))))))

theorem within_readHeader (file : File) : (readHeader file).Within file.length := by
  unfold readHeader
  split
  · exact within_pure _
  next hsize =>
    rw [sizeofEhdr] at hsize
    refine within_bind ?_ ?_
    · exact within_bind (within_read (by omega)) (within_next (by omega)
        (within_next (by omega) (within_next (by omega)
          (within_next (by omega) (within_next (by omega)
            (within_next (by omega) (within_pure _)))))))
    · dsimp only
      split
      · exact within_pure _
      · split <;> exact within_pure _

theorem readHeader_value (file : File) :
    (readHeader file).value.map (fun ehdr => (ehdr, phdrsOf file ehdr)) = elfHeaderValid file := by
  unfold readHeader elfHeaderValid
  split
  · rfl
  · simp only [bind_value]
    have hehdr : (readEhdr file).value = ehdrOf file := rfl
    rw [hehdr]
    split
    · rfl
    · split <;> rfl

theorem add_toNat {a b : UInt64} (h : elfAddOverflows a b = false) :
    (a + b).toNat = a.toNat + b.toNat := by
  have ha := a.toNat_lt
  have hb := b.toNat_lt
  rw [elfAddOverflows, decide_eq_false_iff_not, UInt64.lt_iff_toNat_lt, UInt64.toNat_add] at h
  rw [UInt64.toNat_add]
  omega

variable {ehdr : Ehdr}

theorem readHeader_table (h : (readHeader file).value = some ehdr) :
    ehdr.ePhoff.toNat + ehdr.ePhnum.toNat * 56 ≤ file.length := by
  unfold readHeader at h
  split at h
  · cases h
  · simp only [bind_value] at h
    split at h
    · cases h
    · split at h
      · cases h
      next htable =>
        cases h
        simp only [Bool.or_eq_true, decide_eq_true_eq, not_or, not_lt, Bool.not_eq_true] at htable
        obtain ⟨⟨⟨-, -⟩, hover⟩, hend⟩ := htable
        have hsize := table_size (readEhdr file).value.ePhnum 56
        rw [add_toNat hover] at hend
        change _ + ((readEhdr file).value.ePhnum.toUInt64 * (56 : UInt16).toUInt64).toNat ≤ _ at hend
        rwa [hsize] at hend

theorem within_readPhdrNumber (h : (readHeader file).value = some ehdr) {i : ℕ}
    (hi : i < ehdr.ePhnum.toNat) : (readPhdrNumber file ehdr i).Within file.length := by
  have htable := readHeader_table h
  exact within_readPhdr (entry_inside (by omega) (by omega) le_rfl hi)

theorem within_readScan (h : (readHeader file).value = some ehdr)
    (userMin loadBias : UInt64) : (readScan file ehdr userMin loadBias).Within file.length := by
  refine within_bind (within_scanFrom fun j range _ hlt => ?_) (within_pure _)
  rw [Nat.zero_add] at hlt
  exact within_bind (within_readPhdrNumber h hlt) (within_pure _)

theorem readScan_value (file : File) (ehdr : Ehdr) (userMin loadBias : UInt64) :
    (readScan file ehdr userMin loadBias).value =
      scanSegments file.length userMin loadBias (phdrsOf file ehdr) := by
  have hfold : (scanFrom (fun i range => do
      return scanSegment file.length userMin loadBias range (← readPhdrNumber file ehdr i))
      ehdr.ePhnum.toNat 0 (0xFFFFFFFFFFFFFFFF, 0)).value =
        ((List.range' 0 ehdr.ePhnum.toNat).map fun i =>
          phdrAt file (ehdr.ePhoff.toNat + i * 56)).foldlM
            (scanSegment file.length userMin loadBias) (0xFFFFFFFFFFFFFFFF, 0) := by
    refine scanFrom_foldlM (fun _ _ => ?_) _ _ _
    rfl
  rw [← List.range_eq_range'] at hfold
  exact congrArg (Option.bind · _) hfold

variable {userMin loadBias : UInt64} {range : UInt64 × UInt64}

theorem scanSegment_checked {range' : UInt64 × UInt64}
    {ph : Phdr} (h : scanSegment length userMin loadBias range ph = some range')
    (hloads : ph.loads = true) :
    InFile length ph ∧ (ph.pVaddr + loadBias).toNat + ph.pMemsz.toNat ≤ 0x80000000 := by
  simp only [scanSegment, hloads, Bool.not_true, Bool.false_eq_true, if_false] at h
  split at h
  · cases h
  next hfile =>
    split at h
    · cases h
    next hrange =>
      simp only [Bool.or_eq_true, decide_eq_true_eq, not_or, not_lt, Bool.not_eq_true] at hfile
      obtain ⟨⟨⟨hfits, -⟩, hover⟩, hend⟩ := hfile
      rw [add_toNat hover] at hend
      simp only [elfRangeValid, Bool.not_eq_true, Bool.not_eq_false'] at hrange
      split at hrange
      · cases hrange
      next hno =>
        simp only [Bool.or_eq_true, not_or, Bool.not_eq_true] at hno
        simp only [Bool.and_eq_true, decide_eq_true_eq] at hrange
        refine ⟨⟨UInt64.not_lt.mp hfits, hend⟩, ?_⟩
        rw [← add_toNat hno.2]
        exact UInt64.le_iff_toNat_le.mp hrange.2

theorem readScan_checked
    (h : (readScan file ehdr userMin loadBias).value = some range) {i : ℕ}
    (hi : i < ehdr.ePhnum.toNat) (hloads : (readPhdrNumber file ehdr i).value.loads = true) :
    InFile file.length (readPhdrNumber file ehdr i).value ∧
      ((readPhdrNumber file ehdr i).value.pVaddr + loadBias).toNat +
        (readPhdrNumber file ehdr i).value.pMemsz.toNat ≤ 0x80000000 := by
  obtain ⟨last, hscan, -⟩ := Option.bind_eq_some_iff.mp h
  obtain ⟨c, c', hstep⟩ := scanFrom_some hscan i (Nat.zero_le i) (by rwa [Nat.zero_add])
  exact scanSegment_checked hstep hloads

theorem window_inside {virt fileSize page : UInt64} (hv : virt.toNat + fileSize.toNat < 2 ^ 64)
    (hp : page.toNat + 4096 < 2 ^ 64)
    (h : (copyWindow virt fileSize page).1 < (copyWindow virt fileSize page).2) :
    (page + (copyWindow virt fileSize page).1 - virt).toNat +
        ((copyWindow virt fileSize page).2 - (copyWindow virt fileSize page).1).toNat ≤
      fileSize.toNat := by
  have hend : (page + pageSize).toNat = page.toNat + 4096 := by
    rw [UInt64.toNat_add]
    exact Nat.mod_eq_of_lt hp
  have hdata : (virt + fileSize).toNat = virt.toNat + fileSize.toNat := by
    rw [UInt64.toNat_add]
    exact Nat.mod_eq_of_lt hv
  have hsize : pageSize.toNat = 4096 := rfl
  simp only [copyWindow, UInt64.lt_iff_toNat_lt, UInt64.le_iff_toNat_le, hend, hdata] at h ⊢
  split_ifs at h ⊢ <;>
    simp only [UInt64.toNat_sub, UInt64.toNat_add, UInt64.toNat_zero, hsize] at h ⊢ <;> omega

theorem pagesBetween_below {start stop page : UInt64} (h : page ∈ pagesBetween start stop) :
    page.toNat + 4096 ≤ stop.toNat := by
  unfold pagesBetween at h
  split at h
  · cases h
  next hlt =>
    rw [UInt64.not_le, UInt64.lt_iff_toNat_lt] at hlt
    obtain ⟨i, hi, rfl⟩ := List.mem_map.mp h
    have hstop := stop.toNat_lt
    have hlen : ((stop - start) / pageSize).toNat = (stop.toNat - start.toNat) / 4096 := by
      rw [UInt64.toNat_div, UInt64.toNat_sub_of_le _ _ (UInt64.le_iff_toNat_le.mpr hlt.le)]
      rfl
    rw [List.mem_range, hlen] at hi
    have hi' : i < 2 ^ 64 := by omega
    rw [UInt64.toNat_add, UInt64.toNat_mul, UInt64.toNat_ofNat', Nat.mod_eq_of_lt hi']
    change (start.toNat + i * 4096 % 2 ^ 64) % 2 ^ 64 + 4096 ≤ _
    omega

theorem within_readRange {ph : Phdr} (hfile : InFile file.length ph)
    (hrange : (ph.pVaddr + loadBias).toNat + ph.pMemsz.toNat ≤ 0x80000000) :
    (readRange file loadBias ph).Within file.length := by
  refine within_forM fun page hpage => within_bind ?_ (within_pure _)
  have hfits := UInt64.le_iff_toNat_le.mp hfile.fits
  have hpage : page.toNat + 4096 < 2 ^ 64 := by
    have hbelow := pagesBetween_below hpage
    rw [UInt64.toNat_and] at hbelow
    have hle := hbelow.trans Nat.and_le_left
    rw [UInt64.toNat_sub, UInt64.toNat_add, UInt64.toNat_add] at hle
    change _ ≤ (2 ^ 64 - 1 + (((_ + _) % 2 ^ 64 + 4096) % 2 ^ 64)) % 2 ^ 64 at hle
    omega
  unfold readPage
  dsimp only
  split
  next hwindow =>
    have hinside := window_inside (by omega) hpage hwindow
    have hend := hfile.inside
    exact within_read (by omega)
  · exact within_pure _

theorem within_readLoads
    (h : (readHeader file).value = some ehdr)
    (hscan : (readScan file ehdr userMin loadBias).value = some range) (userMode : Bool) :
    (readLoads file ehdr userMode loadBias).Within file.length := by
  refine within_forM fun i hi => ?_
  have hi := List.mem_range.mp hi
  refine within_bind (within_readPhdrNumber h hi) ?_
  cases hloads : (readPhdrNumber file ehdr i).value.loads with
  | false => exact within_pure _
  | true =>
    obtain ⟨hfile, hrange⟩ := readScan_checked hscan hi hloads
    cases userMode with
    | false => exact within_readRange hfile hrange
    | true =>
      simp only [Bool.not_true, Bool.false_eq_true, if_false, if_true]
      split
      · exact within_bind (within_read hfile.inside) (within_pure _)
      · exact within_pure _

theorem within_readImage (file : File) (userMode : Bool) (biasOf : Ehdr → UInt64) :
    (readImage file userMode biasOf).Within file.length := by
  refine within_bind (within_readHeader file) ?_
  cases h : (readHeader file).value with
  | none => exact within_pure _
  | some ehdr =>
    refine within_bind (within_readScan h 0 (biasOf ehdr)) ?_
    cases hscan : (readScan file ehdr 0 (biasOf ehdr)).value with
    | none => exact within_pure _
    | some range => exact within_bind (within_readLoads h hscan userMode) (within_pure _)

theorem within_readExecuted (file : File) : (readExecuted file).Within file.length := by
  refine within_bind (within_readHeader file) ?_
  cases h : (readHeader file).value with
  | none => exact within_pure _
  | some ehdr =>
    refine within_bind (within_readScan h elfUserMin (executeBias ehdr)) ?_
    cases hscan : (readScan file ehdr elfUserMin (executeBias ehdr)).value with
    | none => exact within_pure _
    | some range =>
      dsimp only
      split
      · exact within_pure _
      · exact within_bind (within_readLoads h hscan false) (within_pure _)

theorem scanned_inside
    (h : (readHeader file).value = some ehdr)
    (hscan : (readScan file ehdr userMin loadBias).value = some range) :
    ∀ ph ∈ phdrsOf file (ehdrOf file), ph.loads = true → InFile file.length ph := by
  have hvalid := readHeader_value file
  rw [h, Option.map_some] at hvalid
  obtain ⟨hehdr, -⟩ := elfHeaderValid_some hvalid.symm
  rw [← hehdr]
  intro ph hph hloads
  obtain ⟨i, hi, rfl⟩ := List.mem_map.mp hph
  exact (readScan_checked hscan (List.mem_range.mp hi) hloads).1

theorem readImage_checked {userMode : Bool} {biasOf : Ehdr → UInt64}
    (h : (readImage file userMode biasOf).value = true) :
    ∀ ph ∈ phdrsOf file (ehdrOf file), ph.loads = true → InFile file.length ph := by
  rw [readImage, bind_value] at h
  cases hheader : (readHeader file).value with
  | none =>
    rw [hheader] at h
    cases h
  | some ehdr =>
    simp only [hheader, bind_value] at h
    cases hscan : (readScan file ehdr 0 (biasOf ehdr)).value with
    | none =>
      rw [hscan] at h
      cases h
    | some range => exact scanned_inside hheader hscan

theorem readExecuted_checked (h : (readExecuted file).value = true) :
    ∀ ph ∈ phdrsOf file (ehdrOf file), ph.loads = true → InFile file.length ph := by
  rw [readExecuted, bind_value] at h
  cases hheader : (readHeader file).value with
  | none =>
    rw [hheader] at h
    cases h
  | some ehdr =>
    simp only [hheader, bind_value] at h
    cases hscan : (readScan file ehdr elfUserMin (executeBias ehdr)).value with
    | none =>
      rw [hscan] at h
      cases h
    | some range => exact scanned_inside hheader hscan

/-- The traced checks are those of the loader. -/
theorem executed_only_if_read {r : Request} (hfile : r.file = some file)
    (h : (readExecuted file).value = false) (program : Behaviour) (k : Kernel) :
    elfExecuteImplEx r program k = (false, k) := by
  have hvalid := readHeader_value file
  rw [readExecuted, bind_value] at h
  rw [elfExecuteImplEx, hfile]
  split
  · rfl
  · cases hheader : (readHeader file).value with
    | none =>
      rw [hheader] at hvalid
      simp only [← hvalid, Option.map_none]
    | some ehdr =>
      rw [hheader] at hvalid
      simp only [hheader, bind_value, readScan_value] at h
      simp only [← hvalid, Option.map_some]
      have hbias : (if (ehdr.eType == elfTypeDyn) = true then elfDynLoadBias else 0) =
        executeBias ehdr := rfl
      simp only [hbias]
      cases hscan : scanSegments file.length elfUserMin (executeBias ehdr) (phdrsOf file ehdr) with
      | none => rfl
      | some range =>
        rw [hscan] at h
        dsimp only at h ⊢
        split at h
        next houtside => exact if_pos houtside
        · cases h

/-- No parser reads outside the file, and one that accepts it has all segments in the file. -/
theorem elf_parsing_inside (file : File) :
    (klcsValidateElf64 file).Within file.length ∧
    (∀ userMode biasOf, (readImage file userMode biasOf).Within file.length) ∧
    (readExecuted file).Within file.length ∧
    ((klcsValidateElf64 file).value.1 = true →
      ∀ ph ∈ klcsPhdrs file, ph.loads = true → InFile file.length ph) ∧
    ((∃ userMode biasOf, (readImage file userMode biasOf).value = true) ∨
        (readExecuted file).value = true →
      ∀ ph ∈ phdrsOf file (ehdrOf file), ph.loads = true → InFile file.length ph) := by
  refine ⟨within_klcsValidateElf64 file, within_readImage file, within_readExecuted file,
    klcsValidateElf64_checked, ?_⟩
  rintro (⟨userMode, biasOf, h⟩ | h)
  · exact readImage_checked h
  · exact readExecuted_checked h

/-- A program of one segment, which all three accept. -/
theorem one_segment_inside : ∀ ph ∈ klcsPhdrs (elfFile 2 0x20000 0xAA) ++
    phdrsOf (elfFile 2 0x20000 0xAA) (ehdrOf (elfFile 2 0x20000 0xAA)), ph.loads = true →
      InFile (elfFile 2 0x20000 0xAA).length ph := by
  obtain ⟨-, -, -, hklcs, hloader⟩ := elf_parsing_inside (elfFile 2 0x20000 0xAA)
  intro ph hph
  rcases List.mem_append.mp hph with hph | hph
  · exact hklcs (by decide +kernel) ph hph
  · exact hloader (.inr (by decide +kernel)) ph hph

end ElfReads
