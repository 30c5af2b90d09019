import K64.ByteCodec
import K64.FirstFit
import Mathlib.Data.Finset.Card

/-! # The physical memory manager

`k64_pmm.c`: a bitmap with one bit for each frame of the first 4 GiB, set up from the memory map of
the boot loader, and the four calls that take frames and give them back. A null pointer is the
address 0, as it is in the source. -/
namespace PhysicalMemory

open ByteCodec FirstFit

def frameSize : ℕ := 4096
def maxFrames : ℕ := 1024 * 1024

structure Pmm where
  pmmBitmap : ℕ → UInt8
  totalFrames : ℕ
  usedFrames : UInt64

def setFrame (s : Pmm) (frame : ℕ) : Pmm :=
  { s with pmmBitmap :=
      Function.update s.pmmBitmap (frame / 8) (s.pmmBitmap (frame / 8) ||| bitMask frame) }

def clearFrame (s : Pmm) (frame : ℕ) : Pmm :=
  { s with pmmBitmap :=
      Function.update s.pmmBitmap (frame / 8) (s.pmmBitmap (frame / 8) &&& ~~~bitMask frame) }

def testFrame (s : Pmm) (frame : ℕ) : Bool := s.pmmBitmap (frame / 8) &&& bitMask frame != 0

variable {s : Pmm} {f g k n : ℕ}

theorem testFrame_eq (s : Pmm) (f : ℕ) :
    testFrame s f = (s.pmmBitmap (f / 8)).toNat.testBit (f % 8) := by
  rw [Bool.eq_iff_iff, ← and_mask_ne_zero]
  simp [testFrame]

@[simp] theorem testFrame_setFrame (s : Pmm) (f g : ℕ) :
    testFrame (setFrame s f) g = (decide (f = g) || testFrame s g) := by
  rw [testFrame_eq, testFrame_eq, setFrame]
  dsimp only
  by_cases hb : g / 8 = f / 8
  · have hm : f % 8 = g % 8 ↔ f = g := by omega
    rw [hb, Function.update_self, testBit_or_mask]
    simp only [hm]
    by_cases hfg : f = g <;> simp [hfg]
  · have hne : f ≠ g := fun h => hb (h ▸ rfl)
    rw [Function.update_of_ne hb, decide_eq_false hne, Bool.false_or]

@[simp] theorem testFrame_clearFrame (s : Pmm) (f g : ℕ) :
    testFrame (clearFrame s f) g = (!decide (f = g) && testFrame s g) := by
  rw [testFrame_eq, testFrame_eq, clearFrame]
  dsimp only
  by_cases hb : g / 8 = f / 8
  · have h8 : g % 8 < 8 := Nat.mod_lt _ (by decide)
    have hm : f % 8 = g % 8 ↔ f = g := by omega
    rw [hb, Function.update_self, testBit_and_not_mask _ _ h8]
    simp only [hm]
    by_cases hfg : f = g <;> simp [hfg]
  · have hne : f ≠ g := fun h => hb (h ▸ rfl)
    rw [Function.update_of_ne hb, decide_eq_false hne, Bool.not_false, Bool.true_and]

/-- `set_frame` with its count. -/
def takeFrame (s : Pmm) (frame : ℕ) : Pmm :=
  { setFrame s frame with usedFrames := s.usedFrames + 1 }

/-- `clear_frame` with its count. -/
def dropFrame (s : Pmm) (frame : ℕ) : Pmm :=
  { clearFrame s frame with usedFrames := s.usedFrames - 1 }

@[simp] theorem testFrame_takeFrame (s : Pmm) (f g : ℕ) :
    testFrame (takeFrame s f) g = (decide (f = g) || testFrame s g) := testFrame_setFrame s f g

@[simp] theorem testFrame_dropFrame (s : Pmm) (f g : ℕ) :
    testFrame (dropFrame s f) g = (!decide (f = g) && testFrame s g) := testFrame_clearFrame s f g

structure MmapEntry where
  addr : UInt64
  len : UInt64
  type : UInt32

structure MultibootModule where
  modStart : UInt32
  modEnd : UInt32

/-- What the boot loader passes on, with the end of the kernel image. The image is linked at 1 MiB
and entered with 32-bit addresses. -/
structure Multiboot where
  magic : UInt32
  info : UInt32
  flags : UInt32
  mmapAddr : UInt32
  mmapLength : UInt32
  mmap : List MmapEntry
  modsAddr : UInt32
  mods : List MultibootModule
  kernelEnd : UInt64
  mods_count : mods.length < 2 ^ 32
  linked : 0x100000 ≤ kernelEnd.toNat
  loaded : kernelEnd.toNat < 2 ^ 32

def Multiboot.hasMmap (mb : Multiboot) : Bool := mb.flags &&& ((1 : UInt32) <<< 6) != 0
def Multiboot.hasMods (mb : Multiboot) : Bool := mb.flags &&& ((1 : UInt32) <<< 3) != 0

def reserveFrame (s : Pmm) (frame : ℕ) : Pmm :=
  if frame < maxFrames && !testFrame s frame then takeFrame s frame else s

/-- The frames between `start`, rounded down, and `stop`, rounded up. -/
def rangeFrames (r : UInt64 × UInt64) : List ℕ :=
  if r.2 ≤ r.1 then []
  else List.range' (r.1.toNat / frameSize) ((r.2 + 4095).toNat / frameSize - r.1.toNat / frameSize)

def reserveRange (s : Pmm) (r : UInt64 × UInt64) : Pmm := (rangeFrames r).foldl reserveFrame s

/-- The successive `reserve_range` calls of `k64_pmm_init`. An information structure takes 116 bytes
and a module record 16. -/
def Multiboot.reservations (mb : Multiboot) : List (UInt64 × UInt64) :=
  [(0, mb.kernelEnd), (mb.info.toUInt64, mb.info.toUInt64 + 116)] ++
  (if mb.hasMmap then
    [(mb.mmapAddr.toUInt64, mb.mmapAddr.toUInt64 + mb.mmapLength.toUInt64)] else []) ++
  (if mb.hasMods then
    (mb.modsAddr.toUInt64, mb.modsAddr.toUInt64 + UInt64.ofNat mb.mods.length * 16) ::
      mb.mods.map fun m => (m.modStart.toUInt64, m.modEnd.toUInt64) else [])

/-- The frames that the loop over a region visits. The end of the region is a 64-bit sum. -/
def regionFrames (e : MmapEntry) : List ℕ :=
  (List.range' (e.addr.toNat / frameSize)
    (((e.addr + e.len).toNat - e.addr.toNat + 4095) / frameSize)).takeWhile (· < maxFrames)

def addFrame (s : Pmm) (frame : ℕ) : Pmm :=
  { clearFrame s frame with totalFrames := s.totalFrames + 1 }

def addRegion (s : Pmm) (e : MmapEntry) : Pmm :=
  if e.type != 1 then s else (regionFrames e).foldl addFrame s

def k64PmmInit (mb : Multiboot) (s : Pmm) : Pmm :=
  if mb.magic != 0x2BADB002 then s
  else
    let s := { s with pmmBitmap := fun _ => 0xFF }
    if !mb.hasMmap then s
    else
      let s := mb.mmap.foldl addRegion { s with totalFrames := 0, usedFrames := 0 }
      mb.reservations.foldl reserveRange s

def searchLimit (s : Pmm) : ℕ := min s.totalFrames maxFrames

def k64PmmAllocFrame (s : Pmm) : ℕ × Pmm :=
  match firstFree (testFrame s) (searchLimit s) with
  | none => (0, s)
  | some frame => (frame * frameSize, takeFrame s frame)

def k64PmmAllocContiguous (s : Pmm) (frames : ℕ) : ℕ × Pmm :=
  if frames = 0 ∨ maxFrames < frames then (0, s)
  else
    match firstRun (testFrame s) (searchLimit s) frames with
    | none => (0, s)
    | some frame => (frame * frameSize, (List.range' frame frames).foldl takeFrame s)

def releaseFrame (s : Pmm) (frame : ℕ) : Pmm :=
  if frame < maxFrames && testFrame s frame then dropFrame s frame else s

def k64PmmFreeFrame (s : Pmm) (frameAddr : ℕ) : Pmm := releaseFrame s (frameAddr / frameSize)

def k64PmmFreeContiguous (s : Pmm) (frameAddr frames : ℕ) : Pmm :=
  (List.range' (frameAddr / frameSize) frames).foldl releaseFrame s

/-- Clear bits are frames of `mapped`, and the count is that of the other frames of `mapped`. -/
structure Counted (mapped : Finset ℕ) (s : Pmm) : Prop where
  small : ∀ f ∈ mapped, f < maxFrames
  clear : ∀ f, testFrame s f = false → f ∈ mapped
  count : s.usedFrames.toNat = (mapped.filter fun f => testFrame s f = true).card

variable {mapped : Finset ℕ}

theorem Counted.count_le (h : Counted mapped s) : s.usedFrames.toNat ≤ maxFrames := by
  have hsub : mapped ⊆ Finset.range maxFrames := fun f hf => Finset.mem_range.mpr (h.small f hf)
  calc s.usedFrames.toNat
      = (mapped.filter fun f => testFrame s f = true).card := h.count
    _ ≤ mapped.card := Finset.card_filter_le _ _
    _ ≤ (Finset.range maxFrames).card := Finset.card_le_card hsub
    _ = maxFrames := Finset.card_range _

theorem Counted.take (h : Counted mapped s) (hf : testFrame s f = false) :
    Counted mapped (takeFrame s f) ∧
      (takeFrame s f).usedFrames.toNat = s.usedFrames.toNat + 1 := by
  have hle := h.count_le
  have hadd : (takeFrame s f).usedFrames.toNat = s.usedFrames.toNat + 1 := by
    rw [show (takeFrame s f).usedFrames = s.usedFrames + 1 from rfl, UInt64.toNat_add]
    exact Nat.mod_eq_of_lt (by simp [maxFrames] at hle ⊢; omega)
  have hset : (mapped.filter fun g => testFrame (takeFrame s f) g = true) =
      insert f (mapped.filter fun g => testFrame s g = true) := by
    ext g
    simp only [testFrame_takeFrame, Bool.or_eq_true, decide_eq_true_eq, Finset.mem_filter,
      Finset.mem_insert]
    constructor
    · rintro ⟨hg, rfl | hs⟩
      · exact Or.inl rfl
      · exact Or.inr ⟨hg, hs⟩
    · rintro (rfl | ⟨hg, hs⟩)
      · exact ⟨h.clear _ hf, Or.inl rfl⟩
      · exact ⟨hg, Or.inr hs⟩
  refine ⟨⟨h.small, fun g hg => ?_, ?_⟩, hadd⟩
  · rw [testFrame_takeFrame, Bool.or_eq_false_iff] at hg
    exact h.clear g hg.2
  · rw [hadd, hset, Finset.card_insert_of_notMem (by simp [hf]), h.count]

theorem Counted.drop (h : Counted mapped s) (hf : testFrame s f = true) (hm : f ∈ mapped) :
    Counted mapped (dropFrame s f) ∧
      (dropFrame s f).usedFrames.toNat + 1 = s.usedFrames.toNat := by
  have hin : f ∈ mapped.filter fun g => testFrame s g = true := Finset.mem_filter.mpr ⟨hm, hf⟩
  have hpos : 0 < s.usedFrames.toNat := by
    rw [h.count]
    exact Finset.card_pos.mpr ⟨f, hin⟩
  have hsub : (dropFrame s f).usedFrames.toNat + 1 = s.usedFrames.toNat := by
    have hle : (1 : UInt64) ≤ s.usedFrames := UInt64.le_iff_toNat_le.mpr hpos
    rw [show (dropFrame s f).usedFrames = s.usedFrames - 1 from rfl, UInt64.toNat_sub_of_le _ _ hle]
    exact Nat.sub_add_cancel hpos
  have hset : (mapped.filter fun g => testFrame (dropFrame s f) g = true) =
      (mapped.filter fun g => testFrame s g = true).erase f := by
    ext g
    simp only [testFrame_dropFrame, Bool.and_eq_true, Bool.not_eq_true', decide_eq_false_iff_not,
      Finset.mem_filter, Finset.mem_erase]
    constructor
    · rintro ⟨hg, hne, hs⟩
      exact ⟨fun h => hne h.symm, hg, hs⟩
    · rintro ⟨hne, hg, hs⟩
      exact ⟨hg, fun h => hne h.symm, hs⟩
  refine ⟨⟨h.small, fun g hg => ?_, ?_⟩, hsub⟩
  · by_cases hfg : f = g
    · exact hfg ▸ hm
    · rw [testFrame_dropFrame, decide_eq_false hfg, Bool.not_false, Bool.true_and] at hg
      exact h.clear g hg
  · have hcard := Finset.card_erase_add_one hin
    rw [hset]
    have := h.count
    omega

theorem Counted.takeRun : ∀ n k s, Counted mapped s →
    (∀ j, k ≤ j → j < k + n → testFrame s j = false) →
    Counted mapped ((List.range' k n).foldl takeFrame s) ∧
      ((List.range' k n).foldl takeFrame s).usedFrames.toNat = s.usedFrames.toNat + n ∧
      (∀ g, testFrame ((List.range' k n).foldl takeFrame s) g =
        (decide (k ≤ g ∧ g < k + n) || testFrame s g)) ∧
      ((List.range' k n).foldl takeFrame s).totalFrames = s.totalFrames := by
  intro n
  induction n with
  | zero =>
    intro k s h hfree
    refine ⟨h, rfl, fun g => ?_, rfl⟩
    rw [decide_eq_false (by omega)]
    rfl
  | succ n ih =>
    intro k s h hfree
    obtain ⟨hstep, hcount⟩ := h.take (hfree k (Nat.le_refl k) (by omega))
    obtain ⟨hall, hused, htest, htotal⟩ := ih (k + 1) (takeFrame s k) hstep fun j h1 h2 => by
      rw [testFrame_takeFrame, decide_eq_false (by omega), Bool.false_or]
      exact hfree j (by omega) (by omega)
    rw [List.range'_succ, List.foldl_cons]
    refine ⟨hall, by omega, fun g => ?_, htotal⟩
    rw [htest, testFrame_takeFrame, ← Bool.or_assoc, ← Bool.decide_or]
    congr 1
    exact decide_eq_decide.mpr (by omega)

theorem Counted.releaseRun : ∀ n k s, Counted mapped s →
    (∀ j, k ≤ j → j < k + n → testFrame s j = true ∧ j ∈ mapped) →
    Counted mapped ((List.range' k n).foldl releaseFrame s) ∧
      ((List.range' k n).foldl releaseFrame s).usedFrames.toNat + n = s.usedFrames.toNat ∧
      (∀ g, testFrame ((List.range' k n).foldl releaseFrame s) g =
        (!decide (k ≤ g ∧ g < k + n) && testFrame s g)) ∧
      ((List.range' k n).foldl releaseFrame s).totalFrames = s.totalFrames := by
  intro n
  induction n with
  | zero =>
    intro k s h hused
    refine ⟨h, rfl, fun g => ?_, rfl⟩
    rw [decide_eq_false (by omega)]
    rfl
  | succ n ih =>
    intro k s h hused
    obtain ⟨hk, hmem⟩ := hused k (Nat.le_refl k) (by omega)
    obtain ⟨hstep, hcount⟩ := h.drop hk hmem
    have hrelease : releaseFrame s k = dropFrame s k := by
      rw [releaseFrame, decide_eq_true (h.small k hmem), hk]
      rfl
    obtain ⟨hall, hdown, htest, htotal⟩ := ih (k + 1) (dropFrame s k) hstep fun j h1 h2 => by
      rw [testFrame_dropFrame, decide_eq_false (by omega), Bool.not_false, Bool.true_and]
      exact hused j (by omega) (by omega)
    rw [List.range'_succ, List.foldl_cons, hrelease]
    refine ⟨hall, by omega, fun g => ?_, htotal⟩
    rw [htest, testFrame_dropFrame, ← Bool.and_assoc, ← Bool.not_or, ← Bool.decide_or]
    congr 2
    exact decide_eq_decide.mpr (by omega)

end PhysicalMemory
