import K64.VirtualMemory

/-! # The ELF loader

`k64_elf.c`: an image is checked, mapped into a new address space, given a stack and run. Programs
start further programs from inside their run, up to a fixed depth; the loader keeps one context for
each depth. -/
namespace ElfLoader

open ByteCodec Attempts Attempt VirtualMemory

def elfPage : UInt64 := 4096
def elfTypeExec : UInt16 := 2
def elfTypeDyn : UInt16 := 3
def elfX8664 : UInt16 := 62
def ptLoad : UInt32 := 1
def elfDynLoadBias : UInt64 := 0x40000000
def elfMainDynLoadBias : UInt64 := 0x400000
def elfVmBase : UInt64 := 0x40000000
def elfVmStride : UInt64 := 0x1000000
def elfVmMaxSlots : UInt64 := 256
def elfPidBase : UInt64 := 0x100000000
def elfUserMin : UInt64 := 0x10000
def elfUserMax : UInt64 := 0x80000000
def elfSegmentMax : UInt64 := 0x1000000
def elfArgMax : ℕ := 16
def elfArgTextMax : ℕ := 384
def elfContextMax : ℤ := 4

abbrev File := List UInt8

/-- The `w` bytes of a file at an offset. -/
def field (file : File) (offset w : ℕ) : ℕ := leNat ((file.drop offset).take w)

structure Ehdr where
  eIdent : List UInt8
  eType : UInt16
  eMachine : UInt16
  eEntry : UInt64
  ePhoff : UInt64
  ePhentsize : UInt16
  ePhnum : UInt16

structure Phdr where
  pType : UInt32
  pOffset : UInt64
  pVaddr : UInt64
  pFilesz : UInt64
  pMemsz : UInt64
  pAlign : UInt64

def sizeofEhdr : ℕ := 64
def sizeofPhdr : UInt64 := 56

def ehdrOf (file : File) : Ehdr where
  eIdent := file.take 16
  eType := UInt16.ofNat (field file 16 2)
  eMachine := UInt16.ofNat (field file 18 2)
  eEntry := UInt64.ofNat (field file 24 8)
  ePhoff := UInt64.ofNat (field file 32 8)
  ePhentsize := UInt16.ofNat (field file 54 2)
  ePhnum := UInt16.ofNat (field file 56 2)

def phdrAt (file : File) (offset : ℕ) : Phdr where
  pType := UInt32.ofNat (field file offset 4)
  pOffset := UInt64.ofNat (field file (offset + 8) 8)
  pVaddr := UInt64.ofNat (field file (offset + 16) 8)
  pFilesz := UInt64.ofNat (field file (offset + 32) 8)
  pMemsz := UInt64.ofNat (field file (offset + 40) 8)
  pAlign := UInt64.ofNat (field file (offset + 48) 8)

def phdrsOf (file : File) (ehdr : Ehdr) : List Phdr :=
  (List.range ehdr.ePhnum.toNat).map fun i => phdrAt file (ehdr.ePhoff.toNat + i * 56)

def Phdr.loads (ph : Phdr) : Bool := ph.pType == ptLoad && ph.pMemsz != 0

def elfAddOverflows (a b : UInt64) : Bool := a + b < a

def elfAlignUp (value align : UInt64) : UInt64 := (value + align - 1) &&& ~~~(align - 1)

def elfRangeValid (start size lo hi : UInt64) : Bool :=
  if size == 0 || elfAddOverflows start size then false
  else lo ≤ start && start + size ≤ hi

/-- `elf_header_valid`, and the same checks of `elf_execute_impl_ex`. -/
def elfHeaderValid (file : File) : Option (Ehdr × List Phdr) :=
  if file.length < sizeofEhdr then none
  else
    let ehdr := ehdrOf file
    let table := ehdr.ePhnum.toUInt64 * sizeofPhdr
    if ehdr.eIdent.take 6 != [0x7F, 0x45, 0x4C, 0x46, 2, 1] ||
        (ehdr.eType != elfTypeExec && ehdr.eType != elfTypeDyn) || ehdr.eMachine != elfX8664 then none
    else if ehdr.ePhentsize != 56 || ehdr.ePhnum == 0 || elfAddOverflows ehdr.ePhoff table ||
        file.length < (ehdr.ePhoff + table).toNat then none
    else some (ehdr, phdrsOf file ehdr)

/-- One step of the loops that check the segments: the range of pages seen so far grows. -/
def scanSegment (fileSize : ℕ) (userMin loadBias : UInt64) (range : UInt64 × UInt64) (ph : Phdr) :
    Option (UInt64 × UInt64) :=
  let loadVaddr := ph.pVaddr + loadBias
  let segLimit := loadVaddr + ph.pMemsz
  if !ph.loads then some range
  else if ph.pMemsz < ph.pFilesz || elfSegmentMax < ph.pMemsz ||
      elfAddOverflows ph.pOffset ph.pFilesz || fileSize < (ph.pOffset + ph.pFilesz).toNat then none
  else if !elfRangeValid loadVaddr ph.pMemsz userMin elfUserMax then none
  else if ph.pAlign != 0 && ph.pAlign &&& (ph.pAlign - 1) != 0 then none
  else if elfAddOverflows loadVaddr ph.pMemsz || elfAddOverflows segLimit (elfPage - 1) then none
  else some (min (loadVaddr &&& ~~~(elfPage - 1)) range.1, max (elfAlignUp segLimit elfPage) range.2)

/-- The pages from the first to behind the last of an image, if it loads anything. -/
def scanSegments (fileSize : ℕ) (userMin loadBias : UInt64) (phdrs : List Phdr) :
    Option (UInt64 × UInt64) := do
  let range ← phdrs.foldlM (scanSegment fileSize userMin loadBias) (0xFFFFFFFFFFFFFFFF, 0)
  if range.1 == 0xFFFFFFFFFFFFFFFF || range.2 ≤ range.1 then none else some range

def elfScanLoads (fileSize : ℕ) (phdrs : List Phdr) (loadBias : UInt64) : Option (UInt64 × UInt64) :=
  scanSegments fileSize 0 loadBias phdrs

def elfPidForEntry (fallbackPid entry : UInt64) : UInt64 :=
  if elfVmBase ≤ entry ∧ (entry - elfVmBase) / elfVmStride < elfVmMaxSlots then
    elfPidBase + (entry - elfVmBase) / elfVmStride
  else fallbackPid

def elfPhdrVaddr (ehdr : Ehdr) (phdrs : List Phdr) (loadBias : UInt64) : UInt64 :=
  let tableEnd := ehdr.ePhoff + ehdr.ePhnum.toUInt64 * ehdr.ePhentsize.toUInt64
  match phdrs.find? fun ph => ph.pType == ptLoad && decide (ph.pOffset ≤ ehdr.ePhoff) &&
      decide (tableEnd ≤ ph.pOffset + ph.pFilesz) with
  | some ph => loadBias + ph.pVaddr + (ehdr.ePhoff - ph.pOffset)
  | none => loadBias + ehdr.ePhoff

def isBlank (c : UInt8) : Bool := c == 0x20 || c == 0x09

/-- The string ends with its list, or at a zero byte. -/
def atEnd (s : List UInt8) : Bool := s.headD 0 == 0

def tokenOf (room : ℕ) (s : List UInt8) : List UInt8 :=
  (s.takeWhile fun c => c != 0 && !isBlank c).take room

/-- The arguments behind the path: at most `n` more, from position `pos` of the text buffer on. -/
def parseRest : ℕ → ℕ → List UInt8 → List (List UInt8)
  | 0, _, _ => []
  | n + 1, pos, args =>
    let token := tokenOf (elfArgTextMax - 1 - pos) (args.dropWhile isBlank)
    if atEnd args || decide (elfArgTextMax ≤ pos + 1) || atEnd (args.dropWhile isBlank) then []
    else
      token :: parseRest n (pos + token.length + 1) ((args.dropWhile isBlank).drop token.length)

def elfParseArgs (path args : List UInt8) : List (List UInt8) :=
  let first := tokenOf (elfArgTextMax - 1) path
  first :: parseRest (elfArgMax - 1) (first.length + 1) args

def asciiBytes (s : String) : List UInt8 := s.toList.map fun c => UInt8.ofNat c.toNat

def elfEnv : List (List UInt8) :=
  ["TERM=xterm", "PATH=/bin:/usr/bin:/usr/games:/compat/linux/bin", "HOME=/"].map asciiBytes

/-- The user ids that the auxiliary vector shows to the program. -/
structure Identity where
  realUid : UInt64
  effectiveUid : UInt64
  effectiveGid : UInt64

/-- Writes the strings downwards from `sp`, the last one first. -/
def pushStrings (sp : UInt64) (strings : List (List UInt8)) : VmmOp (UInt64 × List UInt64) :=
  strings.reverse.foldlM (fun (sp, addrs) s => do
    let sp := sp - UInt64.ofNat (s.length + 1)
    k64VmmWriteUser sp (s ++ [0])
    return (sp, sp :: addrs)) (sp, [])

def pushWords (sp : UInt64) (words : List UInt64) : VmmOp UInt64 :=
  words.foldlM (fun sp word => do
    k64VmmWriteUser (sp - 8) (leBytes 8 word.toNat)
    return sp - 8) sp

def randomBytes : List UInt8 := (List.range 16).map fun i => UInt8.ofNat (0x5A + i)

def elfWriteInitialStack (who : Identity) (stackTop : UInt64) (argv : List (List UInt8))
    (entry phdr phnum phentsize atBase : UInt64) : VmmOp UInt64 := do
  require (!argv.isEmpty)
  let (sp, argvUser) ← pushStrings stackTop argv
  let (sp, envUser) ← pushStrings sp elfEnv
  let randomUser := sp - 16
  k64VmmWriteUser randomUser randomBytes
  let auxv : List (UInt64 × UInt64) := [(3, phdr), (4, phentsize), (5, phnum), (6, elfPage),
    (7, atBase), (8, 0), (9, entry), (11, who.realUid), (12, who.effectiveUid),
    (13, who.effectiveGid), (14, who.effectiveGid), (17, 100), (23, 0), (25, randomUser),
    (31, argvUser.headD 0), (0, 0)]
  let sp := randomUser &&& ~~~0xF
  let tableBytes := 16 * 16 + 8 + 3 * 8 + (UInt64.ofNat argv.length + 1) * 8 + 8
  let sp := sp - ((sp - tableBytes) &&& 0xF)
  pushWords sp (auxv.reverse.flatMap (fun (key, value) => [value, key]) ++ [0] ++ envUser.reverse ++
    [0] ++ argvUser.reverse ++ [UInt64.ofNat argv.length])

/-- The bytes that the source passes as `file_data + ph->p_offset`. -/
def Phdr.contents (ph : Phdr) (file : File) : List UInt8 := file.drop ph.pOffset.toNat

/-- The loop of `elf_execute_impl_ex`. -/
def mapSegments (userMode : Bool) (file : File) (phdrs : List Phdr) (loadBias : UInt64) :
    VmmOp Unit :=
  phdrs.forM fun ph =>
    if !ph.loads then pure ()
    else if userMode then
      k64VmmMapUserRange (ph.pVaddr + loadBias) (ph.contents file) ph.pFilesz ph.pMemsz
    else k64VmmMapPrivateRange (ph.pVaddr + loadBias) (ph.contents file) ph.pFilesz ph.pMemsz

def elfMappedPagesMax : ℕ := 512

def mapPageOnce (mappedPages : List UInt64) (page : UInt64) : VmmOp (List UInt64) :=
  if page ∈ mappedPages then pure mappedPages
  else do
    require (mappedPages.length < elfMappedPagesMax)
    k64VmmMapUserAnon page elfPage
    return mappedPages ++ [page]

def elfMapLoads (userMode : Bool) (file : File) (phdrs : List Phdr) (loadBias : UInt64) :
    VmmOp (List UInt64) :=
  phdrs.foldlM (fun mappedPages ph => do
    let loadVaddr := ph.pVaddr + loadBias
    if !ph.loads then return mappedPages
    else if userMode then
      let mappedPages ← (pagesBetween (loadVaddr &&& ~~~(elfPage - 1))
        (elfAlignUp (loadVaddr + ph.pMemsz) elfPage)).foldlM mapPageOnce mappedPages
      if ph.pFilesz != 0 then
        k64VmmWriteUser loadVaddr ((ph.contents file).take ph.pFilesz.toNat)
      return mappedPages
    else
      k64VmmMapPrivateRange loadVaddr (ph.contents file) ph.pFilesz ph.pMemsz
      return mappedPages) []

structure Kernel where
  vmm : Vmm
  elfContexts : ℕ → VmSpace
  elfContextDepth : ℤ
  nextEphemeralPid : UInt64
  nextDynamicPid : UInt64

/-- Stores what a call left of the kernel and of the space of a context. -/
def Kernel.put (k : Kernel) (i : ℕ) (w : Access) : Kernel :=
  { k with vmm := w.vmm, elfContexts := Function.update k.elfContexts i w.space }

def Kernel.access (k : Kernel) (i : ℕ) : Access := ⟨k.vmm, k.elfContexts i⟩

/-- A call on the space of context `i`. -/
def inContext {α : Type} (i : ℕ) (op : VmmOp α) : Attempt Kernel α := fun k =>
  let (result, w) := op (k.access i)
  (result, k.put i w)

/-- What a run does between its start and its end: the program of the image, whatever it is. -/
abbrev Behaviour := ℕ → Kernel → Kernel

/-- Takes the next context, allocates its space, prepares it and runs the program, which `prepare`
says is entered or not. Every way out of the source behind the allocation releases the space and
lowers the depth. -/
def runInContext (alloc : Vmm → Bool × Access) (prepare : VmmOp Bool) (program : Behaviour)
    (k : Kernel) : Bool × Kernel :=
  let i := k.elfContextDepth.toNat
  let (allocated, w) := alloc k.vmm
  let k := { k with elfContextDepth := k.elfContextDepth + 1 }.put i w
  if !allocated then (false, { k with elfContextDepth := k.elfContextDepth - 1 })
  else
    let (entered, k) := inContext i prepare k
    let k := if entered = some true then program i k else k
    let k := k.put i (k64VmmReleaseServiceSpace (k.access i))
    (entered.isSome, { k with elfContextDepth := k.elfContextDepth - 1 })

def Kernel.contextFree (k : Kernel) : Bool :=
  0 ≤ k.elfContextDepth && k.elfContextDepth < elfContextMax

/-- A call of `elf_execute_impl_ex`: its arguments, and what the file system answers. -/
structure Request where
  path : List UInt8
  userMode : Bool
  args : List UInt8
  permitted : Bool
  file : Option File
  who : Identity

/-- The stack pointer that a run starts with, before its arguments are written. -/
def userStackTop (space : VmSpace) : UInt64 := space.stackBase + space.stackSize - 16

/-- The segments, and in user mode the entry page and the stack. A run at address 0, or with a null
stack pointer, is refused before it starts. -/
def prepareImage (r : Request) (file : File) (ehdr : Ehdr) (phdrs : List Phdr) (loadBias : UInt64) :
    VmmOp Bool := do
  let entry := ehdr.eEntry + loadBias
  mapSegments r.userMode file phdrs loadBias
  if r.userMode then
    let w ← state
    require (k64VmmIsMapped w.vmm.mem w.space entry true)
    let stackTop ← elfWriteInitialStack r.who (userStackTop w.space) (elfParseArgs r.path r.args)
      entry (elfPhdrVaddr ehdr phdrs loadBias) ehdr.ePhnum.toUInt64 ehdr.ePhentsize.toUInt64 0
    return entry != 0 && stackTop != 0
  else return entry != 0

def elfExecuteImplEx (r : Request) (program : Behaviour) (k : Kernel) : Bool × Kernel :=
  if r.path.isEmpty || (r.userMode && !r.permitted) then (false, k)
  else
    match r.file with
    | none => (false, k)
    | some file =>
      match elfHeaderValid file with
      | none => (false, k)
      | some (ehdr, phdrs) =>
        let loadBias := if ehdr.eType == elfTypeDyn then elfDynLoadBias else 0
        let entry := ehdr.eEntry + loadBias
        match scanSegments file.length elfUserMin loadBias phdrs with
        | none => (false, k)
        | some (minVaddr, maxVaddr) =>
          if entry < minVaddr || maxVaddr ≤ entry || entry < elfUserMin || elfUserMax ≤ entry then
            (false, k)
          else
            let appPid := elfPidForEntry k.nextEphemeralPid entry
            let k := { k with nextEphemeralPid := k.nextEphemeralPid + 1 }
            if !k.contextFree then (false, k)
            else
              let alloc := if r.userMode then k64VmmAllocUserSpace appPid
                else k64VmmAllocServiceSpace appPid
              runInContext alloc (prepareImage r file ehdr phdrs loadBias) program k

/-- A call of `k64_elf_execute_linux_dynamic`. -/
structure LinuxRequest where
  mainPath : List UInt8
  argv0Path : List UInt8
  args : List UInt8
  interpPath : List UInt8
  mainFile : Option File
  interpFile : Option File
  who : Identity

/-- Each entry lies in its image, and the images do not overlap. -/
def dynamicLayoutValid (mainEntry interpEntry : UInt64) (main interp : UInt64 × UInt64) : Bool :=
  main.1 ≤ mainEntry && mainEntry < main.2 && interp.1 ≤ interpEntry && interpEntry < interp.2 &&
    (main.2 ≤ interp.1 || interp.2 ≤ main.1)

def prepareDynamic (who : Identity) (argv : List (List UInt8)) (mainFile interpFile : File)
    (mainEhdr : Ehdr) (mainPhdrs interpPhdrs : List Phdr)
    (mainBias interpBias mainEntry entry : UInt64) : VmmOp Bool := do
  let _ ← elfMapLoads true mainFile mainPhdrs mainBias
  let _ ← elfMapLoads true interpFile interpPhdrs interpBias
  let w ← state
  let stackTop ← elfWriteInitialStack who (userStackTop w.space) argv mainEntry
    (elfPhdrVaddr mainEhdr mainPhdrs mainBias) mainEhdr.ePhnum.toUInt64
    mainEhdr.ePhentsize.toUInt64 interpBias
  return entry != 0 && stackTop != 0

def k64ElfExecuteLinuxDynamic (r : LinuxRequest) (program : Behaviour) (k : Kernel) :
    Bool × Kernel :=
  if r.mainPath.isEmpty || r.interpPath.isEmpty then (false, k)
  else
    let argv0Path := if r.argv0Path.isEmpty then r.mainPath else r.argv0Path
    match r.mainFile, r.interpFile with
    | some mainFile, some interpFile =>
      match elfHeaderValid mainFile, elfHeaderValid interpFile with
      | some (mainEhdr, mainPhdrs), some (interpEhdr, interpPhdrs) =>
        let mainBias := if mainEhdr.eType == elfTypeDyn then elfMainDynLoadBias else 0
        let interpBias : UInt64 := 0
        let mainEntry := mainEhdr.eEntry + mainBias
        let entry := interpEhdr.eEntry + interpBias
        match elfScanLoads mainFile.length mainPhdrs mainBias,
          elfScanLoads interpFile.length interpPhdrs interpBias with
        | some main, some interp =>
          if interpEhdr.eType != elfTypeDyn || !dynamicLayoutValid mainEntry entry main interp ||
              !k.contextFree then (false, k)
          else
            let prepare := prepareDynamic r.who (elfParseArgs argv0Path r.args) mainFile interpFile
              mainEhdr mainPhdrs interpPhdrs mainBias interpBias mainEntry entry
            runInContext (k64VmmAllocUserSpace k.nextDynamicPid) prepare program
              { k with nextDynamicPid := k.nextDynamicPid + 1 }
        | _, _ => (false, k)
      | _, _ => (false, k)
    | _, _ => (false, k)

def linuxHeapBase : UInt64 := 0x4B70000
def linuxHeapSize : UInt64 := 0x1000000

/-- `linux_map_heap_range`. -/
def linuxMapHeapRange (start stop : UInt64) : VmmOp Unit :=
  if stop ≤ start then pure ()
  else if linuxHeapBase + linuxHeapSize < stop then Attempt.stop
  else
    (pagesBetween (start &&& pageMask) ((stop + pageSize - 1) &&& pageMask)).forM fun page => do
      let w ← state
      if k64VmmIsMapped w.vmm.mem w.space page true then pure ()
      else k64VmmMapUserAnon page pageSize

/-- What the system calls map into the space of the program that makes them. -/
inductive Mapping where
  | heap (start stop : UInt64)
  | anon (virt size : UInt64)
  | file (virt : UInt64) (data : List UInt8) (len size : UInt64)

def Mapping.perform : Mapping → VmmOp Unit
  | .heap start stop => linuxMapHeapRange start stop
  | .anon virt size => k64VmmMapUserAnon virt size
  | .file virt data len size => k64VmmMapUserRange virt data len size

/-- What a program does to the kernel in one run: any number of mappings and of executions of
further programs, each with its own run, in any order, with any stores to memory in between. -/
inductive Program where
  | finished
  | compute (effect : Memory → Memory) (rest : Program)
  | map (mapping : Mapping) (rest : Program)
  | execute (request : Request) (child rest : Program)
  | executeLinux (request : LinuxRequest) (child rest : Program)

def Program.run : Program → Behaviour
  | .finished, _, k => k
  | .compute effect rest, i, k => rest.run i { k with vmm := { k.vmm with mem := effect k.vmm.mem } }
  | .map mapping rest, i, k => rest.run i (inContext i mapping.perform k).2
  | .execute request child rest, i, k => rest.run i (elfExecuteImplEx request child.run k).2
  | .executeLinux request child rest, i, k =>
    rest.run i (k64ElfExecuteLinuxDynamic request child.run k).2

end ElfLoader
