import K64.ElfLoader
import K64.FrameOwnership

/-! # What an execution gives back

Every call of the loader leaves the depth, the slots and the frames as they were, and the contexts
of the programs that are still running alone. A program keeps what its own context owes; the
induction is on the program, as its runs of other programs are parts of it. -/
namespace ElfLoader

open ByteCodec Attempts Attempt VirtualMemory
open PhysicalMemory (Pmm Multiboot Allocation Reachable testFrame searchLimit k64PmmInit
  k64PmmAllocFrame k64PmmAllocContiguous granted reachable_sound halfFrameMap)

variable {p : Pmm} {used : ℕ → Bool} {k k' : Kernel} {i : ℕ}

structure Balanced (k k' : Kernel) : Prop where
  depth : k'.elfContextDepth = k.elfContextDepth
  contexts : ∀ j : ℕ, (j : ℤ) < k.elfContextDepth → k'.elfContexts j = k.elfContexts j
  settled : Settled k.vmm.pmm k.vmm.serviceSlotUsed k'.vmm

theorem Balanced.refl (k : Kernel) : Balanced k k :=
  ⟨rfl, fun _ _ => rfl, ⟨rfl, fun _ => rfl, rfl⟩⟩

/-- A run in context `i` that started from `k`: what was taken since is recorded there. -/
structure Running (k : Kernel) (i : ℕ) (k' : Kernel) : Prop where
  index : k.elfContextDepth = i
  depth : k'.elfContextDepth = k.elfContextDepth + 1
  contexts : ∀ j < i, k'.elfContexts j = k.elfContexts j
  owes : Owes k.vmm.pmm k.vmm.serviceSlotUsed (k'.access i)

def Behaves (program : Behaviour) : Prop :=
  ∀ k i k', NullReserved k.vmm.pmm → Running k i k' → Running k i (program i k')

theorem keeps_mapSegments (hnull : NullReserved p) (userMode : Bool) (file : File)
    (phdrs : List Phdr) (loadBias : UInt64) :
    Keeps (Owes p used) (mapSegments userMode file phdrs loadBias) := by
  apply keeps_forM
  intro ph _
  split
  · exact keeps_pure _
  · split
    · exact keeps_mapRangeFlags hnull _ _ _ _ _
    · exact keeps_mapRangeFlags hnull _ _ _ _ _

theorem keeps_mapPageOnce (hnull : NullReserved p) (mappedPages : List UInt64) (page : UInt64) :
    Keeps (Owes p used) (mapPageOnce mappedPages page) := by
  rw [mapPageOnce]
  split
  · exact keeps_pure _
  · refine (keeps_require _).bind fun _ => ?_
    exact (keeps_mapRangeFlags hnull _ _ _ _ _).bind fun _ => keeps_pure _

theorem keeps_mapLoads (hnull : NullReserved p) (userMode : Bool) (file : File)
    (phdrs : List Phdr) (loadBias : UInt64) :
    Keeps (Owes p used) (elfMapLoads userMode file phdrs loadBias) := by
  apply keeps_foldlM
  intro mappedPages ph _
  dsimp only
  split
  · exact keeps_pure _
  · split
    · apply (keeps_foldlM (fun pages page _ => keeps_mapPageOnce hnull pages page) _).bind
      intro pages
      split
      · exact (keeps_writeUser _ _).bind fun _ => keeps_pure _
      · exact keeps_pure _
    · exact (keeps_mapRangeFlags hnull _ _ _ _ _).bind fun _ => keeps_pure _

theorem keeps_pushStrings (sp : UInt64) (strings : List (List UInt8)) :
    Keeps (Owes p used) (pushStrings sp strings) := by
  apply keeps_foldlM
  intro (sp, addrs) s _
  exact (keeps_writeUser _ _).bind fun _ => keeps_pure _

theorem keeps_pushWords (sp : UInt64) (words : List UInt64) :
    Keeps (Owes p used) (pushWords sp words) := by
  apply keeps_foldlM
  intro sp word _
  exact (keeps_writeUser _ _).bind fun _ => keeps_pure _

theorem keeps_writeInitialStack (who : Identity) (stackTop : UInt64) (argv : List (List UInt8))
    (entry phdr phnum phentsize atBase : UInt64) :
    Keeps (Owes p used)
      (elfWriteInitialStack who stackTop argv entry phdr phnum phentsize atBase) := by
  refine (keeps_require _).bind fun _ => ?_
  apply (keeps_pushStrings _ _).bind
  intro (sp, argvUser)
  apply (keeps_pushStrings _ _).bind
  intro (sp, envUser)
  apply (keeps_writeUser _ _).bind
  intro _
  exact keeps_pushWords _ _

theorem keeps_mapping (hnull : NullReserved p) (mapping : Mapping) :
    Keeps (Owes p used) mapping.perform := by
  cases mapping with
  | heap start stop =>
    change Keeps (Owes p used) (linuxMapHeapRange start stop)
    rw [linuxMapHeapRange]
    split
    · exact keeps_pure _
    · split
      · exact keeps_stop
      · apply keeps_forM
        intro page _
        refine keeps_state.bind fun w => ?_
        split
        · exact keeps_pure _
        · exact keeps_mapRangeFlags hnull _ _ _ _ _
  | anon virt size => exact keeps_mapRangeFlags hnull _ _ _ _ _
  | file virt data len size => exact keeps_mapRangeFlags hnull _ _ _ _ _

theorem Running.inContext {α : Type} {op : VmmOp α} (h : Running k i k')
    (hop : Keeps (Owes k.vmm.pmm k.vmm.serviceSlotUsed) op) :
    Running k i (inContext i op k').2 := by
  have howes := hop _ h.owes
  refine ⟨h.index, h.depth, fun j hj => ?_, ?_⟩
  · change Function.update k'.elfContexts i _ j = _
    rw [Function.update_of_ne (Nat.ne_of_lt hj)]
    exact h.contexts j hj
  · change Owes _ _ ⟨(op (k'.access i)).2.vmm, Function.update k'.elfContexts i _ i⟩
    rw [Function.update_self]
    exact howes

theorem Running.leave (h : Running k i k') :
    let k'' := k'.put i (k64VmmReleaseServiceSpace (k'.access i))
    Balanced k { k'' with elfContextDepth := k''.elfContextDepth - 1 } := by
  refine ⟨?_, fun j hj => ?_, h.owes.release⟩
  · change k'.elfContextDepth - 1 = _
    rw [h.depth, Int.add_sub_cancel]
  · have hji : j < i := by
      rw [h.index] at hj
      exact Int.ofNat_lt.mp hj
    change Function.update k'.elfContexts i _ j = _
    rw [Function.update_of_ne (Nat.ne_of_lt hji)]
    exact h.contexts j hji

variable {program : Behaviour}

theorem runInContext_balanced {alloc : Vmm → Bool × Access} {prepare : VmmOp Bool}
    (hnull : NullReserved k.vmm.pmm) (hfree : k.contextFree = true)
    (halloc : match alloc k.vmm with
      | (true, w) => Owes k.vmm.pmm k.vmm.serviceSlotUsed w
      | (false, w) => Settled k.vmm.pmm k.vmm.serviceSlotUsed w.vmm)
    (hprepare : Keeps (Owes k.vmm.pmm k.vmm.serviceSlotUsed) prepare)
    (hprogram : Behaves program) : Balanced k (runInContext alloc prepare program k).2 := by
  have hindex : k.elfContextDepth = (k.elfContextDepth.toNat : ℤ) := by
    rw [Kernel.contextFree, Bool.and_eq_true, decide_eq_true_eq] at hfree
    exact (Int.toNat_of_nonneg hfree.1).symm
  generalize hi : k.elfContextDepth.toNat = i at hindex
  rw [runInContext, hi]
  rcases hrun : alloc k.vmm with ⟨allocated, w⟩
  rw [hrun] at halloc
  dsimp only
  cases allocated with
  | false =>
    rw [Bool.not_false, if_pos rfl]
    refine ⟨Int.add_sub_cancel _ _, fun j hj => ?_, halloc⟩
    rw [hindex] at hj
    exact Function.update_of_ne (Nat.ne_of_lt (Int.ofNat_lt.mp hj)) _ _
  | true =>
    rw [Bool.not_true, if_neg Bool.false_ne_true]
    have hstart : Running k i
        (Kernel.put { k with elfContextDepth := k.elfContextDepth + 1 } i w) := by
      refine ⟨hindex, rfl, fun j hj => Function.update_of_ne (Nat.ne_of_lt hj) _ _, ?_⟩
      change Owes _ _ ⟨w.vmm, Function.update k.elfContexts i w.space i⟩
      rw [Function.update_self]
      exact halloc
    have hprepared := hstart.inContext hprepare
    split
    · exact (hprogram k i _ hnull hprepared).leave
    · exact hprepared.leave

theorem keeps_prepareImage (hnull : NullReserved p) (r : Request) (file : File) (ehdr : Ehdr)
    (phdrs : List Phdr) (loadBias : UInt64) :
    Keeps (Owes p used) (prepareImage r file ehdr phdrs loadBias) := by
  apply (keeps_mapSegments hnull _ _ _ _).bind
  intro _
  split
  · refine keeps_state.bind fun w => ?_
    refine (keeps_require _).bind fun _ => ?_
    exact (keeps_writeInitialStack _ _ _ _ _ _ _ _).bind fun _ => keeps_pure _
  · exact keeps_pure _

theorem keeps_prepareDynamic (hnull : NullReserved p) (who : Identity) (argv : List (List UInt8))
    (mainFile interpFile : File) (mainEhdr : Ehdr) (mainPhdrs interpPhdrs : List Phdr)
    (mainBias interpBias mainEntry entry : UInt64) :
    Keeps (Owes p used) (prepareDynamic who argv mainFile interpFile mainEhdr mainPhdrs interpPhdrs
      mainBias interpBias mainEntry entry) := by
  apply (keeps_mapLoads hnull _ _ _ _).bind
  intro _
  apply (keeps_mapLoads hnull _ _ _ _).bind
  intro _
  refine keeps_state.bind fun w => ?_
  exact (keeps_writeInitialStack _ _ _ _ _ _ _ _).bind fun _ => keeps_pure _

theorem executeImplEx_balanced (hnull : NullReserved k.vmm.pmm) (r : Request) (hprogram : Behaves program) :
    Balanced k (elfExecuteImplEx r program k).2 := by
  rw [elfExecuteImplEx]
  split
  · exact Balanced.refl k
  rcases r.file with _ | file
  · exact Balanced.refl k
  rcases hheader : elfHeaderValid file with _ | ⟨ehdr, phdrs⟩
  · simp only [hheader]
    exact Balanced.refl k
  simp only [hheader]
  generalize (if (ehdr.eType == elfTypeDyn) = true then elfDynLoadBias else 0) = loadBias
  rcases scanSegments file.length elfUserMin loadBias phdrs with _ | ⟨minVaddr, maxVaddr⟩
  · exact Balanced.refl k
  dsimp only
  split
  · exact Balanced.refl k
  -- the counter of process ids is no part of what is given back
  have hcounted : ∀ k', Balanced { k with nextEphemeralPid := k.nextEphemeralPid + 1 } k' →
      Balanced k k' := fun k' h => ⟨h.depth, h.contexts, h.settled⟩
  apply hcounted
  split
  · exact Balanced.refl _
  next hfree =>
    refine runInContext_balanced (k := { k with nextEphemeralPid := k.nextEphemeralPid + 1 }) hnull
      (by simpa using hfree) ?_ (keeps_prepareImage hnull _ _ _ _ _) hprogram
    cases r.userMode with
    | true => exact allocSpace_spec hnull _ _ _
    | false => exact allocSpace_spec hnull _ _ _

theorem executeLinuxDynamic_balanced (hnull : NullReserved k.vmm.pmm) (r : LinuxRequest)
    (hprogram : Behaves program) :
    Balanced k (k64ElfExecuteLinuxDynamic r program k).2 := by
  rw [k64ElfExecuteLinuxDynamic]
  split
  · exact Balanced.refl k
  rcases r.mainFile with _ | mainFile
  · exact Balanced.refl k
  rcases r.interpFile with _ | interpFile
  · exact Balanced.refl k
  rcases hmain : elfHeaderValid mainFile with _ | ⟨mainEhdr, mainPhdrs⟩
  · simp only [hmain]
    exact Balanced.refl k
  rcases hinterp : elfHeaderValid interpFile with _ | ⟨interpEhdr, interpPhdrs⟩
  · simp only [hmain, hinterp]
    exact Balanced.refl k
  simp only [hmain, hinterp]
  generalize (if (mainEhdr.eType == elfTypeDyn) = true then elfMainDynLoadBias else 0) = mainBias
  rcases elfScanLoads mainFile.length mainPhdrs mainBias with _ | main
  · exact Balanced.refl k
  rcases elfScanLoads interpFile.length interpPhdrs 0 with _ | interp
  · exact Balanced.refl k
  dsimp only
  split
  · exact Balanced.refl k
  next hvalid =>
    rw [Bool.or_eq_true, not_or] at hvalid
    have hfree : k.contextFree = true := by simpa using hvalid.2
    have hcounted : ∀ k', Balanced { k with nextDynamicPid := k.nextDynamicPid + 1 } k' →
        Balanced k k' := fun k' h => ⟨h.depth, h.contexts, h.settled⟩
    apply hcounted
    exact runInContext_balanced (k := { k with nextDynamicPid := k.nextDynamicPid + 1 }) hnull
      hfree (allocSpace_spec hnull _ _ _) (keeps_prepareDynamic hnull _ _ _ _ _ _ _ _ _ _ _)
      hprogram

theorem Running.balanced {k'' : Kernel} (h : Running k i k') (hb : Balanced k' k'') :
    Running k i k'' := by
  have hsame : ∀ j ≤ i, k''.elfContexts j = k'.elfContexts j := by
    intro j hj
    apply hb.contexts
    rw [h.depth, h.index]
    exact Int.ofNat_lt.mpr (Nat.lt_succ_of_le hj)
  refine ⟨h.index, hb.depth.trans h.depth, fun j hj => ?_, ?_⟩
  · exact (hsame j (Nat.le_of_lt hj)).trans (h.contexts j hj)
  · have hspace : k''.access i = ⟨k''.vmm, k'.elfContexts i⟩ := by
      rw [Kernel.access, hsame i (Nat.le_refl i)]
    rw [hspace]
    refine ⟨h.owes.present, hb.settled.total.trans h.owes.total,
      fun f => (hb.settled.bits f).trans (h.owes.bits f), h.owes.fresh, ?_⟩
    have hslots := h.owes.slots
    rw [slotsBack] at hslots ⊢
    rw [← hslots]
    change (if _ then Function.update k''.vmm.serviceSlotUsed _ _ else k''.vmm.serviceSlotUsed) = _
    rw [hb.settled.slots]
    rfl

theorem Running.nullReserved (h : Running k i k') (hnull : NullReserved k.vmm.pmm) :
    NullReserved k'.vmm.pmm := by
  have htotal : k'.vmm.pmm.totalFrames = k.vmm.pmm.totalFrames := h.owes.total
  have hzero : testFrame k'.vmm.pmm 0 = (testFrame k.vmm.pmm 0 || _) := h.owes.bits 0
  rw [NullReserved, htotal, hzero, Bool.or_eq_true]
  exact hnull.imp Or.inl id

theorem program_behaves (program : Program) : Behaves program.run := by
  induction program with
  | finished => exact fun k i k' _ h => h
  | compute effect rest ih =>
    intro k i k' hnull h
    exact ih k i _ hnull ⟨h.index, h.depth, h.contexts,
      ⟨h.owes.present, h.owes.total, h.owes.bits, h.owes.fresh, h.owes.slots⟩⟩
  | map mapping rest ih =>
    intro k i k' hnull h
    exact ih k i _ hnull (h.inContext (keeps_mapping hnull mapping))
  | execute request child rest ihchild ihrest =>
    intro k i k' hnull h
    have hb := executeImplEx_balanced (h.nullReserved hnull) request ihchild
    exact ihrest k i _ hnull (h.balanced hb)
  | executeLinux request child rest ihchild ihrest =>
    intro k i k' hnull h
    have hb := executeLinuxDynamic_balanced (h.nullReserved hnull) request ihchild
    exact ihrest k i _ hnull (h.balanced hb)

variable {mb : Multiboot} {live : List Allocation}

theorem reachable_nullReserved (h : Reachable mb p live) : NullReserved p := by
  by_cases hmagic : mb.magic = 0x2BADB002
  · exact Or.inl (reachable_sound hmagic h).frame_zero
  have hempty : p.totalFrames = 0 ∧ live = [] := by
    induction h with
    | init =>
      have hm : (mb.magic != 0x2BADB002) = true := by simpa using hmagic
      rw [k64PmmInit, hm, if_pos rfl]
      exact ⟨rfl, rfl⟩
    | @allocFrame s live _ ih =>
      have hlimit : searchLimit s = 0 := by rw [searchLimit, ih.1, Nat.zero_min]
      have hnone : k64PmmAllocFrame s = (0, s) := by
        rw [k64PmmAllocFrame, hlimit]
        rfl
      rw [hnone, granted, if_pos rfl]
      exact ih
    | @allocContiguous s live n _ ih =>
      have hlimit : searchLimit s = 0 := by rw [searchLimit, ih.1, Nat.zero_min]
      have hnone : k64PmmAllocContiguous s n = (0, s) := by
        rw [k64PmmAllocContiguous, hlimit]
        split
        · rfl
        next hn =>
          rw [not_or] at hn
          rw [FirstFit.firstRun, FirstFit.runFrom, Nat.zero_add, if_neg (by omega)]
      rw [hnone, granted, if_pos rfl]
      exact ih
    | freeFrame addr _ howned ih =>
      rw [ih.2] at howned
      cases howned
    | freeContiguous addr n _ howned ih =>
      rw [ih.2] at howned
      cases howned
  exact Or.inr hempty.1

/-- Whatever the files hold, wherever a call stops and whatever the program did, the depth, the
used slots and the allocated frames are afterwards what they were. -/
theorem execution_gives_back (h : Reachable mb k.vmm.pmm live) (program : Program) :
    (∀ r : Request, let k' := (elfExecuteImplEx r program.run k).2
      k'.elfContextDepth = k.elfContextDepth ∧ k'.vmm.serviceSlotUsed = k.vmm.serviceSlotUsed ∧
        ∀ f, testFrame k'.vmm.pmm f = testFrame k.vmm.pmm f) ∧
    ∀ r : LinuxRequest, let k' := (k64ElfExecuteLinuxDynamic r program.run k).2
      k'.elfContextDepth = k.elfContextDepth ∧ k'.vmm.serviceSlotUsed = k.vmm.serviceSlotUsed ∧
        ∀ f, testFrame k'.vmm.pmm f = testFrame k.vmm.pmm f := by
  have hnull := reachable_nullReserved h
  have hprogram := program_behaves program
  refine ⟨fun r => ?_, fun r => ?_⟩
  · have hb := executeImplEx_balanced hnull r hprogram
    exact ⟨hb.depth, hb.settled.slots, hb.settled.bits⟩
  · have hb := executeLinuxDynamic_balanced hnull r hprogram
    exact ⟨hb.depth, hb.settled.slots, hb.settled.bits⟩

def tinyImage : File :=
  [0x7F, 0x45, 0x4C, 0x46, 2, 1] ++ List.replicate 10 0 ++ leBytes 2 2 ++ leBytes 2 62 ++
  leBytes 4 1 ++ leBytes 8 0x400000 ++ leBytes 8 64 ++ leBytes 8 0 ++ leBytes 4 0 ++ leBytes 2 64 ++
  leBytes 2 56 ++ leBytes 2 1 ++ List.replicate 6 0 ++
  leBytes 4 1 ++ leBytes 4 5 ++ leBytes 8 120 ++ leBytes 8 0x400000 ++ leBytes 8 0x400000 ++
  leBytes 8 1 ++ leBytes 8 1 ++ leBytes 8 0x1000 ++ [0xC3]

def tinyRequest : Request where
  path := asciiBytes "/ex/tiny.elf"
  userMode := true
  args := asciiBytes "one two"
  permitted := true
  file := some tinyImage
  who := ⟨0, 0, 0⟩

example : (elfHeaderValid tinyImage).isSome = true := by decide +kernel

/-- Two MiB of memory, which the kernel reaches through one entry of 1 GiB: its tables are in frames
1 and 2, and the first free frame lies behind its image. -/
def bootMap : Multiboot := { halfFrameMap with mmap := [⟨0, 0x200000, 1⟩] }

def bootMemory : Memory := storeWord (storeWord (fun _ => 0) 0x1000 0x2003) 0x2000 0x83

def bootedKernel (pmm : Pmm) : Kernel where
  vmm := ⟨pmm, bootMemory, fun _ => false, 0x1000⟩
  elfContexts := fun _ => VmSpace.clear
  elfContextDepth := 0
  nextEphemeralPid := elfPidBase
  nextDynamicPid := elfPidBase + 0x1000

example : tableEntry bootMemory 0x1000 0 = 0x2003 ∧ tableEntry bootMemory 0x2000 0 = 0x83 := by
  decide +kernel

/-- A program that maps a page and runs the same image again. -/
def nestingProgram : Program :=
  .map (.anon 0x60000000 0x1000) (.execute tinyRequest .finished .finished)

theorem bootedKernel_pmm (pmm : Pmm) : (bootedKernel pmm).vmm.pmm = pmm := rfl

theorem tiny_run_gives_back :
    let k := bootedKernel (k64PmmInit bootMap Pmm.unset)
    let k' := (elfExecuteImplEx tinyRequest nestingProgram.run k).2
    k'.elfContextDepth = 0 ∧ k'.vmm.serviceSlotUsed = k.vmm.serviceSlotUsed ∧
      ∀ f, testFrame k'.vmm.pmm f = testFrame k.vmm.pmm f := by
  have hreachable : Reachable bootMap (bootedKernel (k64PmmInit bootMap Pmm.unset)).vmm.pmm [] := by
    rw [bootedKernel_pmm]
    exact Reachable.init
  exact (execution_gives_back hreachable nestingProgram).1 tinyRequest

end ElfLoader
