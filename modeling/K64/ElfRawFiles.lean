import K64.ElfLoader

/-! # The files of a dynamic program

`k64_fs_read_file_raw` hands out its one static buffer, and `k64_elf_execute_linux_dynamic` keeps two
pointers into it. -/
namespace ElfRawFiles

open ByteCodec Attempts ElfLoader

def rootfsRawMax : ℕ := 16 * 1024 * 1024

/-- The size that is returned, and the buffer afterwards; the data stands at its start. -/
def k64FsReadFileRaw (file : Option File) (buffer : File) : Option ℕ × File :=
  match file with
  | none => (none, buffer)
  | some file =>
    if rootfsRawMax < file.length then (none, buffer)
    else (some file.length, file ++ buffer.drop file.length)

/-- The files as they are read through the two pointers, once both calls have been made. -/
def throughBuffer (r : LinuxRequest) (buffer : File) : LinuxRequest :=
  let (mainSize, buffer) := k64FsReadFileRaw r.mainFile buffer
  let (interpSize, buffer) := k64FsReadFileRaw r.interpFile buffer
  { r with
    mainFile := mainSize.map fun size => buffer.take size
    interpFile := interpSize.map fun size => buffer.take size }

/-- `k64_elf_execute_linux_dynamic` with whatever stands in the buffer before. -/
def executeLinuxDynamic (r : LinuxRequest) (buffer : File) (program : Behaviour) (k : Kernel) :
    Bool × Kernel :=
  k64ElfExecuteLinuxDynamic (throughBuffer r buffer) program k

/-- The images that are mapped, each as its header and program headers, if the checks are passed. -/
def checkedImages (r : LinuxRequest) : Option ((Ehdr × List Phdr) × (Ehdr × List Phdr)) := do
  let mainFile ← r.mainFile
  let interpFile ← r.interpFile
  let main ← elfHeaderValid mainFile
  let interp ← elfHeaderValid interpFile
  let mainBias := if main.1.eType == elfTypeDyn then elfMainDynLoadBias else 0
  let mainRange ← elfScanLoads mainFile.length main.2 mainBias
  let interpRange ← elfScanLoads interpFile.length interp.2 0
  if interp.1.eType != elfTypeDyn || !dynamicLayoutValid (main.1.eEntry + mainBias)
      (interp.1.eEntry + 0) mainRange interpRange then none
  else some (main, interp)

def part (file : File) (offset size : ℕ) : File := (file.drop offset).take size

/-- The header and the program headers of `seen` are those of `file`, and so is what is copied into
each segment. -/
structure FromFile (seen file : File) : Prop where
  header : part seen 0 sizeofEhdr = part file 0 sizeofEhdr
  programHeaders : part seen (ehdrOf file).ePhoff.toNat ((ehdrOf file).ePhnum.toNat * 56) =
    part file (ehdrOf file).ePhoff.toNat ((ehdrOf file).ePhnum.toNat * 56)
  segments : ∀ ph ∈ phdrsOf file (ehdrOf file), ph.loads = true →
    part seen ph.pOffset.toNat ph.pFilesz.toNat = part file ph.pOffset.toNat ph.pFilesz.toNat

/-- The header, the program headers and the data of the segments, as offsets and sizes. -/
def parts (file : File) : List (ℕ × ℕ) :=
  (0, sizeofEhdr) :: ((ehdrOf file).ePhoff.toNat, (ehdrOf file).ePhnum.toNat * 56) ::
    ((phdrsOf file (ehdrOf file)).filter Phdr.loads).map fun ph =>
      (ph.pOffset.toNat, ph.pFilesz.toNat)

/-- The interpreter file has the bytes of the main file, where parts of that lie within its size. -/
def Agree (mainFile interpFile : File) : Prop :=
  ∀ range ∈ parts mainFile, ∀ p, range.1 ≤ p → p < range.1 + range.2 → p < mainFile.length →
    p < interpFile.length → interpFile[p]? = mainFile[p]?

variable {seen file mainFile interpFile buffer : File} {r : LinuxRequest}

theorem fromFile_iff : FromFile seen file ↔
    ∀ range ∈ parts file, part seen range.1 range.2 = part file range.1 range.2 := by
  constructor
  · intro h range hmem
    rcases List.mem_cons.mp hmem with rfl | hmem
    · exact h.header
    rcases List.mem_cons.mp hmem with rfl | hmem
    · exact h.programHeaders
    obtain ⟨ph, hph, rfl⟩ := List.mem_map.mp hmem
    obtain ⟨hin, hloads⟩ := List.mem_filter.mp hph
    exact h.segments ph hin hloads
  · intro h
    refine ⟨h _ List.mem_cons_self, h _ (List.mem_cons_of_mem _ List.mem_cons_self), ?_⟩
    intro ph hin hloads
    exact h _ (List.mem_cons_of_mem _ (List.mem_cons_of_mem _
      (List.mem_map.mpr ⟨ph, List.mem_filter.mpr ⟨hin, hloads⟩, rfl⟩)))

theorem getElem_part {offset size i : ℕ} :
    (part file offset size)[i]? = if i < size then file[offset + i]? else none := by
  rw [part, List.getElem?_take, List.getElem?_drop]

theorem part_eq_iff {other : File} {offset size : ℕ} :
    part file offset size = part other offset size ↔
      ∀ p, offset ≤ p → p < offset + size → file[p]? = other[p]? := by
  constructor
  · intro h p hle hlt
    have hget := congrArg (·[p - offset]?) h
    simp only [getElem_part] at hget
    rwa [if_pos (by omega), if_pos (by omega), Nat.add_sub_cancel' hle] at hget
  · intro h
    refine List.ext_getElem? fun i => ?_
    rw [getElem_part, getElem_part]
    split
    next hi => exact h _ (Nat.le_add_right _ _) (by omega)
    next => rfl

/-- A program and its interpreter, as they are found in the file system. -/
structure Readable (r : LinuxRequest) (mainFile interpFile : File) : Prop where
  main : r.mainFile = some mainFile
  interp : r.interpFile = some interpFile
  mainSize : mainFile.length ≤ rootfsRawMax
  interpSize : interpFile.length ≤ rootfsRawMax

def overwritten (mainFile interpFile buffer : File) : File :=
  (interpFile ++ (mainFile ++ buffer.drop mainFile.length).drop interpFile.length).take
    mainFile.length

theorem throughBuffer_eq (h : Readable r mainFile interpFile) :
    throughBuffer r buffer =
      { r with
        mainFile := some (overwritten mainFile interpFile buffer)
        interpFile := some interpFile } := by
  have hmain := h.mainSize
  have hinterp := h.interpSize
  simp only [throughBuffer, h.main, h.interp, k64FsReadFileRaw, if_neg (Nat.not_lt.mpr hmain),
    if_neg (Nat.not_lt.mpr hinterp), Option.map_some, List.take_left, overwritten]

theorem getElem_overwritten {p : ℕ} : (overwritten mainFile interpFile buffer)[p]? =
    if p < mainFile.length then
      if p < interpFile.length then interpFile[p]? else mainFile[p]?
    else none := by
  rw [overwritten, List.getElem?_take]
  split
  next hp =>
    split
    next hi => rw [List.getElem?_append_left hi]
    next hi =>
      rw [List.getElem?_append_right (by omega), List.getElem?_drop,
        List.getElem?_append_left (by omega)]
      congr 1
      omega
  next => rfl

theorem length_overwritten : (overwritten mainFile interpFile buffer).length = mainFile.length := by
  rw [overwritten, List.length_take, List.length_append, List.length_drop, List.length_append]
  omega

theorem overwritten_iff :
    FromFile (overwritten mainFile interpFile buffer) mainFile ↔ Agree mainFile interpFile := by
  rw [fromFile_iff]
  refine forall₂_congr fun range _ => part_eq_iff.trans ?_
  refine forall₃_congr fun p _ _ => ?_
  rw [getElem_overwritten]
  constructor
  · intro h hp hi
    rwa [if_pos hp, if_pos hi] at h
  · intro h
    split
    next hp =>
      split
      next hi => exact h hp hi
      next => rfl
    next hp => exact (List.getElem?_eq_none (Nat.not_lt.mp hp)).symm

theorem field_eq {offset size q w : ℕ} (h : part seen offset size = part file offset size)
    (hq : offset ≤ q) (hw : q + w ≤ offset + size) : field seen q w = field file q w :=
  congrArg leNat (part_eq_iff.mpr fun p hp hlt => part_eq_iff.mp h p (by omega) (by omega))

theorem ehdrOf_eq (h : part seen 0 sizeofEhdr = part file 0 sizeofEhdr) :
    ehdrOf seen = ehdrOf file := by
  have hsize : sizeofEhdr = 64 := rfl
  have hfield : ∀ q w, q + w ≤ 64 → field seen q w = field file q w :=
    fun q w hw => field_eq h (Nat.zero_le _) (by omega)
  have hident : part seen 0 16 = part file 0 16 :=
    part_eq_iff.mpr fun p hp hlt => part_eq_iff.mp h p hp (by omega)
  have hident : seen.take 16 = file.take 16 := hident
  simp only [ehdrOf, hident, hfield 16 2 (by omega), hfield 18 2 (by omega), hfield 24 8 (by omega),
    hfield 32 8 (by omega), hfield 54 2 (by omega), hfield 56 2 (by omega)]

theorem phdrsOf_eq {ehdr : Ehdr} (h : part seen ehdr.ePhoff.toNat (ehdr.ePhnum.toNat * 56) =
    part file ehdr.ePhoff.toNat (ehdr.ePhnum.toNat * 56)) :
    phdrsOf seen ehdr = phdrsOf file ehdr := by
  refine List.map_congr_left fun i hi => ?_
  have hi := List.mem_range.mp hi
  have hfield : ∀ q w, q + w ≤ 56 → field seen (ehdr.ePhoff.toNat + i * 56 + q) w =
      field file (ehdr.ePhoff.toNat + i * 56 + q) w :=
    fun q w hw => field_eq h (by omega) (by omega)
  have hfirst : field seen (ehdr.ePhoff.toNat + i * 56) 4 =
      field file (ehdr.ePhoff.toNat + i * 56) 4 := hfield 0 4 (by omega)
  simp only [phdrAt, hfirst, hfield 8 8 (by omega), hfield 16 8 (by omega), hfield 32 8 (by omega),
    hfield 40 8 (by omega), hfield 48 8 (by omega)]

theorem elfHeaderValid_eq (hlen : seen.length = file.length) (h : FromFile seen file) :
    elfHeaderValid seen = elfHeaderValid file := by
  simp only [elfHeaderValid, hlen, ehdrOf_eq h.header, phdrsOf_eq h.programHeaders]

theorem elfHeaderValid_some {ehdr : Ehdr} {phdrs : List Phdr}
    (h : elfHeaderValid file = some (ehdr, phdrs)) :
    ehdr = ehdrOf file ∧ phdrs = phdrsOf file (ehdrOf file) := by
  simp only [elfHeaderValid] at h
  split_ifs at h
  obtain ⟨rfl, rfl⟩ := Prod.mk.inj (Option.some.inj h)
  exact ⟨rfl, rfl⟩

theorem foldlM_congr {m : Type → Type} [Monad m] {α β : Type} {f g : β → α → m β} :
    ∀ (l : List α) (b : β), (∀ b, ∀ a ∈ l, f b a = g b a) → l.foldlM f b = l.foldlM g b := by
  intro l
  induction l with
  | nil => exact fun _ _ => rfl
  | cons a l ih =>
    intro b h
    rw [List.foldlM_cons, List.foldlM_cons, h b a List.mem_cons_self]
    congr 1
    funext c
    exact ih c fun b x hx => h b x (List.mem_cons_of_mem a hx)

theorem elfMapLoads_eq {phdrs : List Phdr} (h : ∀ ph ∈ phdrs, ph.loads = true →
    part seen ph.pOffset.toNat ph.pFilesz.toNat = part file ph.pOffset.toNat ph.pFilesz.toNat)
    (loadBias : UInt64) :
    elfMapLoads true seen phdrs loadBias = elfMapLoads true file phdrs loadBias := by
  refine foldlM_congr _ _ fun mappedPages ph hmem => ?_
  cases hloads : ph.loads with
  | false => rfl
  | true =>
    have hcopied : (ph.contents seen).take ph.pFilesz.toNat =
        (ph.contents file).take ph.pFilesz.toNat := h ph hmem hloads
    simp only [hcopied, Bool.not_true, Bool.false_eq_true, if_false, if_true]

theorem checkedImages_eq (h : Readable r mainFile interpFile) (hagree : Agree mainFile interpFile) :
    checkedImages (throughBuffer r buffer) = checkedImages r := by
  have hfrom : FromFile (overwritten mainFile interpFile buffer) mainFile :=
    overwritten_iff.mpr hagree
  have hvalid := elfHeaderValid_eq length_overwritten hfrom
  rw [throughBuffer_eq h]
  simp only [checkedImages, h.main, h.interp, Option.bind_eq_bind, Option.bind_some, hvalid,
    length_overwritten]

theorem executeLinuxDynamic_eq (h : Readable r mainFile interpFile)
    (hagree : Agree mainFile interpFile) (program : Behaviour) (k : Kernel) :
    executeLinuxDynamic r buffer program k = k64ElfExecuteLinuxDynamic r program k := by
  have hfrom : FromFile (overwritten mainFile interpFile buffer) mainFile :=
    overwritten_iff.mpr hagree
  have hvalid := elfHeaderValid_eq length_overwritten hfrom
  rw [executeLinuxDynamic, throughBuffer_eq h]
  simp only [k64ElfExecuteLinuxDynamic, h.main, h.interp, hvalid, length_overwritten]
  split
  next => rfl
  cases hmain : elfHeaderValid mainFile with
  | none => rfl
  | some main =>
    cases elfHeaderValid interpFile with
    | none => rfl
    | some interp =>
      obtain ⟨hehdr, hphdrs⟩ := elfHeaderValid_some hmain
      have hmap := elfMapLoads_eq hfrom.segments
      rw [← hphdrs] at hmap
      simp only [prepareDynamic, hmap]

structure LoadsOwnFiles (r : LinuxRequest) (mainFile interpFile buffer : File) : Prop where
  main : ∃ seen, (throughBuffer r buffer).mainFile = some seen ∧ FromFile seen mainFile
  interp : ∃ seen, (throughBuffer r buffer).interpFile = some seen ∧ FromFile seen interpFile

/-- Both images come from their files exactly if the interpreter file does not differ from the main
file where that is used; then the run is that of a loader with two buffers. -/
theorem loads_own_files_iff (h : Readable r mainFile interpFile) (buffer : File) :
    (LoadsOwnFiles r mainFile interpFile buffer ↔ Agree mainFile interpFile) ∧
    (Agree mainFile interpFile → checkedImages (throughBuffer r buffer) = checkedImages r ∧
      ∀ program k,
        executeLinuxDynamic r buffer program k = k64ElfExecuteLinuxDynamic r program k) := by
  refine ⟨⟨fun hloads => ?_, fun hagree => ?_⟩,
    fun hagree => ⟨checkedImages_eq h hagree, executeLinuxDynamic_eq h hagree⟩⟩
  · obtain ⟨seen, hseen, hfrom⟩ := hloads.main
    rw [throughBuffer_eq h] at hseen
    rw [← Option.some.inj hseen] at hfrom
    exact overwritten_iff.mp hfrom
  · rw [← overwritten_iff] at hagree
    constructor
    · rw [throughBuffer_eq h]
      exact ⟨_, rfl, hagree⟩
    · rw [throughBuffer_eq h]
      exact ⟨_, rfl, ⟨rfl, rfl, fun _ _ _ => rfl⟩⟩

/-- A file with one segment, which is one byte behind the headers. -/
def elfFile (type : ℕ) (vaddr : ℕ) (data : UInt8) : File :=
  [0x7F, 0x45, 0x4C, 0x46, 2, 1] ++ List.replicate 10 0 ++ leBytes 2 type ++ leBytes 2 62 ++
    leBytes 4 1 ++ leBytes 8 vaddr ++ leBytes 8 64 ++ leBytes 8 0 ++ leBytes 4 0 ++ leBytes 2 64 ++
    leBytes 2 56 ++ leBytes 2 1 ++ leBytes 6 0 ++
  leBytes 4 1 ++ leBytes 4 5 ++ leBytes 8 120 ++ leBytes 8 vaddr ++ leBytes 8 vaddr ++ leBytes 8 1 ++
    leBytes 8 1 ++ leBytes 8 4096 ++ [data]

def programFile : File := elfFile 2 0x20000 0xAA

def interpreterFile : File := elfFile 3 0x10000000 0xBB

def sampleRequest : LinuxRequest where
  mainPath := asciiBytes "/bin/program"
  argv0Path := []
  args := []
  interpPath := asciiBytes "/lib/ld.so"
  mainFile := some programFile
  interpFile := some interpreterFile
  who := ⟨0, 0, 0⟩

theorem sampleReadable : Readable sampleRequest programFile interpreterFile where
  main := rfl
  interp := rfl
  mainSize := by decide +kernel
  interpSize := by decide +kernel

theorem loads_own_files_sample :
    (LoadsOwnFiles sampleRequest programFile interpreterFile [] ↔
      Agree programFile interpreterFile) ∧
    (Agree programFile interpreterFile →
      checkedImages (throughBuffer sampleRequest []) = checkedImages sampleRequest ∧
      ∀ program k, executeLinuxDynamic sampleRequest [] program k =
        k64ElfExecuteLinuxDynamic sampleRequest program k) :=
  loads_own_files_iff sampleReadable []

/-- The interpreter is mapped twice, the program not at all. -/
theorem program_not_loaded :
    (checkedImages sampleRequest).isSome = true ∧
    (checkedImages (throughBuffer sampleRequest [])).map (fun images => images.1.1.eType) =
      some elfTypeDyn ∧
    (ehdrOf programFile).eType = elfTypeExec ∧
    ¬LoadsOwnFiles sampleRequest programFile interpreterFile [] := by
  refine ⟨by decide +kernel, by decide +kernel, by decide +kernel, fun h => ?_⟩
  obtain ⟨seen, hseen, hfrom⟩ := h.main
  have hheader := hfrom.header
  rw [throughBuffer_eq sampleReadable] at hseen
  rw [← Option.some.inj hseen] at hheader
  revert hheader
  decide +kernel

end ElfRawFiles
