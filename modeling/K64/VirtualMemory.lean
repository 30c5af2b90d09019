import K64.Attempts
import K64.ByteCodec
import K64.PhysicalMemory

/-! # The virtual memory manager

`k64_vmm.c`: address spaces with four-level page tables in physical memory. An address space records the
frames that it takes in two bounded lists.

The kernel reaches a frame at the virtual address with its number. A store is one to the frame here, as it
is under the tables of the kernel, which map these addresses to themselves. Under the tables of a process
that holds for the addresses that the process does not map itself. -/
namespace VirtualMemory

open ByteCodec Attempts
open PhysicalMemory (Pmm k64PmmAllocFrame k64PmmFreeFrame)

def pageSize : UInt64 := 4096
def pageMask : UInt64 := ~~~(pageSize - 1)
def pagePresent : UInt64 := 0x001
def pageRw : UInt64 := 0x002
def pageUser : UInt64 := 0x004
/-- An entry that maps a page of 2 MiB or 1 GiB itself. -/
def pageLarge : UInt64 := 0x080
def pageTableFlags : UInt64 := pagePresent ||| pageRw
def serviceVmBase : UInt64 := 0x100000000
def serviceVmStride : UInt64 := 0x1000000
def serviceVmRootSize : UInt64 := 0x1000000
def serviceVmStackSize : UInt64 := 0x40000
def serviceVmHeapSize : UInt64 := 0x100000
def serviceVmMaxSlots : ℕ := 256
def serviceStackFrames : ℕ := 64

abbrev Memory := UInt64 → UInt8

def loadWord (m : Memory) (addr : UInt64) : UInt64 :=
  UInt64.ofNat (leNat ((List.range 8).map fun i => m (addr + UInt64.ofNat i)))

def storeBytes (m : Memory) (addr : UInt64) (bytes : List UInt8) : Memory :=
  fun a => bytes.getD (a - addr).toNat (m a)

def storeWord (m : Memory) (addr value : UInt64) : Memory :=
  storeBytes m addr (leBytes 8 value.toNat)

def tableEntry (m : Memory) (table index : UInt64) : UInt64 := loadWord m (table + 8 * index)

structure FrameList (capacity : ℕ) where
  frames : List UInt64
  within : frames.length ≤ capacity

def FrameList.empty (capacity : ℕ) : FrameList capacity := ⟨[], Nat.zero_le capacity⟩

def vmmRecordFrame {capacity : ℕ} (l : FrameList capacity) (frame : UInt64) :
    Option (FrameList capacity) :=
  if h : l.frames.length < capacity then
    some ⟨l.frames ++ [frame], by rw [List.length_append]; exact h⟩
  else none

structure VmSpace where
  present : Bool
  userMode : Bool
  cr3 : UInt64
  rootBase : UInt64
  rootSize : UInt64
  stackBase : UInt64
  stackSize : UInt64
  heapBase : UInt64
  heapSize : UInt64
  pageTableFrames : FrameList 64
  physFrames : FrameList 4096

/-- `vmm_clear_space`. -/
def VmSpace.clear : VmSpace :=
  ⟨false, false, 0, 0, 0, 0, 0, 0, 0, FrameList.empty 64, FrameList.empty 4096⟩

inductive FrameKind where
  | table
  | data

def VmSpace.record (space : VmSpace) (frame : UInt64) : FrameKind → Option VmSpace
  | .table => (vmmRecordFrame space.pageTableFrames frame).map fun l =>
      { space with pageTableFrames := l }
  | .data => (vmmRecordFrame space.physFrames frame).map fun l => { space with physFrames := l }

/-- The state of the kernel that the manager works on. -/
structure Vmm where
  pmm : Pmm
  mem : Memory
  serviceSlotUsed : ℕ → Bool
  kernelCr3 : UInt64

/-- The kernel with the address space that a call is given. -/
structure Access where
  vmm : Vmm
  space : VmSpace

abbrev VmmOp := Attempt Access

open Attempt

def changeMem (f : Memory → Memory) : VmmOp Unit :=
  change fun w => { w with vmm := { w.vmm with mem := f w.vmm.mem } }

def readEntry (table index : UInt64) : VmmOp UInt64 := do
  return tableEntry (← state).vmm.mem table index

def writeEntry (table index value : UInt64) : VmmOp Unit :=
  changeMem fun m => storeWord m (table + 8 * index) value

def vmmClearPage (page : UInt64) : VmmOp Unit :=
  changeMem fun m => storeBytes m page (List.replicate 4096 0)

def allocFrame : VmmOp UInt64 := fun w =>
  let (frame, pmm) := k64PmmAllocFrame w.vmm.pmm
  (if frame = 0 then none else some (UInt64.ofNat frame), { w with vmm := { w.vmm with pmm := pmm } })

def freeFrame (frame : UInt64) : VmmOp Unit :=
  change fun w => { w with vmm := { w.vmm with pmm := k64PmmFreeFrame w.vmm.pmm frame.toNat } }

/-- Takes a frame and records it; a frame that the list has no room for goes back at once. -/
def takeFrame (kind : FrameKind) : VmmOp UInt64 := do
  let frame ← allocFrame
  match (← state).space.record frame kind with
  | none =>
    freeFrame frame
    stop
  | some space =>
    change fun w => { w with space := space }
    vmmClearPage frame
    return frame

def vmmAllocTableFrame : VmmOp UInt64 := takeFrame .table

def vmmSplitLargePage (table index flags : UInt64) (level : ℕ) : VmmOp UInt64 := do
  let entry ← readEntry table index
  require (entry &&& pageLarge != 0 && decide (1 ≤ level ∧ level ≤ 2))
  let next ← vmmAllocTableFrame
  let childFlags := entry &&& 0xFFF
  (List.range 512).forM fun i =>
    if level = 2 then
      writeEntry next (UInt64.ofNat i)
        (((entry &&& 0xFFFFFC0000000) + UInt64.ofNat i * 0x200000) ||| childFlags)
    else
      writeEntry next (UInt64.ofNat i)
        (((entry &&& 0xFFFFFFE00000) + UInt64.ofNat i * pageSize) ||| (childFlags &&& ~~~pageLarge))
  writeEntry table index (next ||| pageTableFlags ||| ((entry ||| flags) &&& pageUser))
  return next

def vmmNextTable (table index flags : UInt64) (level : ℕ) : VmmOp UInt64 := do
  let entry ← readEntry table index
  if entry &&& pagePresent != 0 then
    if entry &&& pageLarge != 0 then
      vmmSplitLargePage table index flags level
    else
      return entry &&& pageMask
  else
    let next ← vmmAllocTableFrame
    writeEntry table index (next ||| pageTableFlags ||| (flags &&& pageUser))
    return next

def pml4Index (virt : UInt64) : UInt64 := (virt >>> 39) &&& 0x1FF
def pdptIndex (virt : UInt64) : UInt64 := (virt >>> 30) &&& 0x1FF
def pdtIndex (virt : UInt64) : UInt64 := (virt >>> 21) &&& 0x1FF
def ptIndex (virt : UInt64) : UInt64 := (virt >>> 12) &&& 0x1FF

def vmmMapPage (virt phys flags : UInt64) : VmmOp Unit := do
  let space := (← state).space
  require (space.present && space.cr3 != 0)
  let pdpt ← vmmNextTable space.cr3 (pml4Index virt) flags 3
  let pdt ← vmmNextTable pdpt (pdptIndex virt) flags 2
  let pt ← vmmNextTable pdt (pdtIndex virt) flags 1
  writeEntry pt (ptIndex virt) ((phys &&& pageMask) ||| (flags &&& 0xFFF) ||| pagePresent)

/-- Both tables are asked for before either answer is looked at. -/
def vmmCloneKernelRoot : VmmOp Unit := do
  let w ← state
  let kernelPml4 := w.vmm.kernelCr3
  require (kernelPml4 != 0)
  let first ← readEntry kernelPml4 0
  require (first &&& pagePresent != 0)
  let kernelPdpt := first &&& pageMask
  let newPml4 ← vmmAllocTableFrame.tried
  let newPdpt ← vmmAllocTableFrame.tried
  match newPml4, newPdpt with
  | some newPml4, some newPdpt =>
    (List.range 512).forM fun i => do
      writeEntry newPml4 (UInt64.ofNat i) (← readEntry kernelPml4 (UInt64.ofNat i))
      writeEntry newPdpt (UInt64.ofNat i) (← readEntry kernelPdpt (UInt64.ofNat i))
    writeEntry newPml4 0
      (newPdpt ||| pageTableFlags ||| (if w.space.userMode then pageUser else 0))
    change fun w => { w with space := { w.space with cr3 := newPml4 } }
  | _, _ => stop

def vmmMapZeroedPageFlags (virt flags : UInt64) : VmmOp Unit := do
  let frame ← takeFrame .data
  vmmMapPage virt frame flags

/-- The first slot from `start` on that is not in use, going round once. -/
def findSlot (used : ℕ → Bool) (start : ℕ) : Option ℕ :=
  ((List.range serviceVmMaxSlots).map fun j => (start + j) % serviceVmMaxSlots).find?
    fun slot => !used slot

def slotBase (slot : ℕ) : UInt64 := serviceVmBase + UInt64.ofNat slot * serviceVmStride

def slotOf (base : UInt64) : ℕ := ((base - serviceVmBase) / serviceVmStride).toNat

/-- `k64_vmm_release_service_space`. -/
def k64VmmReleaseServiceSpace (w : Access) : Access :=
  if !w.space.present then w
  else
    let frames := w.space.physFrames.frames ++ w.space.pageTableFrames.frames
    let pmm := (frames.filter (· != 0)).foldl (fun s frame => k64PmmFreeFrame s frame.toNat)
      w.vmm.pmm
    let slot := slotOf w.space.rootBase
    let used := if serviceVmBase ≤ w.space.rootBase ∧ slot < serviceVmMaxSlots then
      Function.update w.vmm.serviceSlotUsed slot false else w.vmm.serviceSlotUsed
    { vmm := { w.vmm with pmm := pmm, serviceSlotUsed := used }, space := VmSpace.clear }

/-- A space for the kernel itself shares the tables of the kernel. -/
def kernelSpace (kernelCr3 : UInt64) : VmSpace :=
  { VmSpace.clear with present := true, cr3 := kernelCr3, rootSize := 0x40000000 }

def slotSpace (slot : ℕ) (userMode : Bool) : VmSpace :=
  { VmSpace.clear with
    present := true
    userMode := userMode
    rootBase := slotBase slot
    rootSize := serviceVmRootSize
    heapBase := slotBase slot + 0x100000
    heapSize := serviceVmHeapSize
    stackSize := serviceVmStackSize
    stackBase := slotBase slot + serviceVmRootSize - serviceVmStackSize }

/-- The root tables and the stack of a new space. -/
def furnishSpace (stackBase stackFlags : UInt64) : VmmOp Unit := do
  vmmCloneKernelRoot
  (List.range serviceStackFrames).forM fun i =>
    vmmMapZeroedPageFlags (stackBase + UInt64.ofNat i * pageSize) stackFlags

def vmmAllocSpace (pid stackFlags : UInt64) (userMode : Bool) (v : Vmm) : Bool × Access :=
  if pid = 0 then (true, ⟨v, kernelSpace v.kernelCr3⟩)
  else
    match findSlot v.serviceSlotUsed (pid.toNat % serviceVmMaxSlots) with
    | none => (false, ⟨v, VmSpace.clear⟩)
    | some slot =>
      let space := slotSpace slot userMode
      let v := { v with serviceSlotUsed := Function.update v.serviceSlotUsed slot true }
      match furnishSpace space.stackBase stackFlags ⟨v, space⟩ with
      | (some (), w) => (true, w)
      | (none, w) => (false, k64VmmReleaseServiceSpace w)

def k64VmmAllocServiceSpace (pid : UInt64) (v : Vmm) : Bool × Access :=
  vmmAllocSpace pid pageRw false v

def k64VmmAllocUserSpace (pid : UInt64) (v : Vmm) : Bool × Access :=
  vmmAllocSpace pid (pageRw ||| pageUser) true v

/-- The pages from `start` up to `stop`, both multiples of the page size. -/
def pagesBetween (start stop : UInt64) : List UInt64 :=
  if stop ≤ start then []
  else (List.range ((stop - start) / pageSize).toNat).map fun i => start + UInt64.ofNat i * pageSize

/-- The part of a page that the file covers: where it starts, and where it ends. -/
def copyWindow (virt fileSize page : UInt64) : UInt64 × UInt64 :=
  let copyStart := if page < virt then virt - page else 0
  let copyEnd :=
    if virt + fileSize < page + pageSize then
      if virt + fileSize ≤ page then copyStart else virt + fileSize - page
    else pageSize
  (copyStart, copyEnd)

def copyToFrame (virt fileSize page frame : UInt64) (data : Option (List UInt8)) : VmmOp Unit :=
  let (copyStart, copyEnd) := copyWindow virt fileSize page
  match data with
  | none => pure ()
  | some data =>
    if copyStart < copyEnd then
      changeMem fun m => storeBytes m (frame + copyStart)
        ((data.drop (page + copyStart - virt).toNat).take (copyEnd - copyStart).toNat)
    else pure ()

/-- `data` is absent where the source passes a null pointer. -/
def vmmMapRangeFlags (virt : UInt64) (data : Option (List UInt8)) (fileSize memSize flags : UInt64) :
    VmmOp Unit := do
  require ((← state).space.present && memSize != 0)
  (pagesBetween (virt &&& pageMask) ((virt + memSize + pageSize - 1) &&& pageMask)).forM
    fun page => do
      let frame ← takeFrame .data
      copyToFrame virt fileSize page frame data
      vmmMapPage page frame flags

def k64VmmMapPrivateRange (virt : UInt64) (data : List UInt8) (fileSize memSize : UInt64) :
    VmmOp Unit := vmmMapRangeFlags virt (some data) fileSize memSize pageRw

def k64VmmMapUserRange (virt : UInt64) (data : List UInt8) (fileSize memSize : UInt64) :
    VmmOp Unit := vmmMapRangeFlags virt (some data) fileSize memSize (pageRw ||| pageUser)

def k64VmmMapUserAnon (virt memSize : UInt64) : VmmOp Unit :=
  vmmMapRangeFlags virt none 0 memSize (pageRw ||| pageUser)

def entryAllows (requireUser : Bool) (entry : UInt64) : Bool :=
  let mask := pagePresent ||| (if requireUser then pageUser else 0)
  entry &&& mask == mask

def k64VmmIsMapped (m : Memory) (space : VmSpace) (virt : UInt64) (requireUser : Bool) : Bool :=
  let allows := entryAllows requireUser
  if !space.present || space.cr3 == 0 then false
  else
    let pml4Entry := tableEntry m space.cr3 (pml4Index virt)
    if !allows pml4Entry then false
    else
      let pdptEntry := tableEntry m (pml4Entry &&& pageMask) (pdptIndex virt)
      if !allows pdptEntry then false
      else if pdptEntry &&& pageLarge != 0 then true
      else
        let pdtEntry := tableEntry m (pdptEntry &&& pageMask) (pdtIndex virt)
        if !allows pdtEntry then false
        else if pdtEntry &&& pageLarge != 0 then true
        else allows (tableEntry m (pdtEntry &&& pageMask) (ptIndex virt))

def vmmTranslate (m : Memory) (space : VmSpace) (virt : UInt64) (requireUser : Bool) :
    Option UInt64 :=
  let allows := entryAllows requireUser
  if !space.present || space.cr3 == 0 then none
  else
    let pml4Entry := tableEntry m space.cr3 (pml4Index virt)
    if !allows pml4Entry then none
    else
      let pdptEntry := tableEntry m (pml4Entry &&& pageMask) (pdptIndex virt)
      if !allows pdptEntry then none
      else if pdptEntry &&& pageLarge != 0 then
        some ((pdptEntry &&& 0xFFFFFC0000000) + (virt &&& 0x3FFFFFFF))
      else
        let pdtEntry := tableEntry m (pdptEntry &&& pageMask) (pdtIndex virt)
        if !allows pdtEntry then none
        else if pdtEntry &&& pageLarge != 0 then
          some ((pdtEntry &&& 0xFFFFFFE00000) + (virt &&& 0x1FFFFF))
        else
          let ptEntry := tableEntry m (pdtEntry &&& pageMask) (ptIndex virt)
          if !allows ptEntry then none
          else some ((ptEntry &&& pageMask) + (virt &&& (pageSize - 1)))

theorem isMapped_iff_translate (m : Memory) (space : VmSpace) (virt : UInt64) (requireUser : Bool) :
    k64VmmIsMapped m space virt requireUser = (vmmTranslate m space virt requireUser).isSome := by
  simp only [k64VmmIsMapped, vmmTranslate]
  repeat' split
  all_goals simp_all

def vmmRangeOverflows (virt : UInt64) (size : ℕ) : Bool :=
  size != 0 && virt + UInt64.ofNat (size - 1) < virt

/-- Page by page; `fuel` is at least the number of bytes that are left. -/
def writeUserFrom : ℕ → UInt64 → List UInt8 → VmmOp Unit
  | 0, _, _ => pure ()
  | fuel + 1, virt, data =>
    if data.isEmpty then pure ()
    else do
      let chunk := min (4096 - (virt &&& (pageSize - 1)).toNat) data.length
      let w ← state
      match vmmTranslate w.vmm.mem w.space virt true with
      | none => stop
      | some phys =>
        changeMem fun m => storeBytes m phys (data.take chunk)
        writeUserFrom fuel (virt + UInt64.ofNat chunk) (data.drop chunk)

def k64VmmWriteUser (virt : UInt64) (data : List UInt8) : VmmOp Unit := do
  require (!vmmRangeOverflows virt data.length)
  writeUserFrom data.length virt data

end VirtualMemory
