import K64.PhysicalMemory
import Mathlib.Algebra.BigOperators.Group.List.Basic
import Mathlib.Data.List.TakeWhile

/-! # Runs of the physical memory manager

After `k64_pmm_init` any number of allocations and releases follow in any order, where only live
allocations are released, each once and with its own size. -/
namespace PhysicalMemory

open FirstFit

/-- The frames that the loops over the type-1 regions visit, in their order. -/
def Multiboot.visitedFrames (mb : Multiboot) : List ℕ :=
  if mb.hasMmap then (mb.mmap.filter (·.type == 1)).flatMap regionFrames else []

/-- The frames whose bits are cleared from the map. -/
def Multiboot.mappedFrames (mb : Multiboot) : Finset ℕ := mb.visitedFrames.toFinset

def Multiboot.reservedFrames (mb : Multiboot) : List ℕ := mb.reservations.flatMap rangeFrames

/-- The static variables of the source before `k64_pmm_init`. -/
def Pmm.unset : Pmm := ⟨fun _ => 0, 0, 0⟩

variable {mb : Multiboot} {s : Pmm} {f k n : ℕ} {mapped : Finset ℕ}

theorem add_frames (l : List ℕ) : ∀ s,
    (∀ f, testFrame (l.foldl addFrame s) f = (!decide (f ∈ l) && testFrame s f)) ∧
    (l.foldl addFrame s).totalFrames = s.totalFrames + l.length ∧
    (l.foldl addFrame s).usedFrames = s.usedFrames := by
  induction l with
  | nil => exact fun s => ⟨fun f => by simp, rfl, rfl⟩
  | cons k l ih =>
    intro s
    obtain ⟨htest, htotal, hused⟩ := ih (addFrame s k)
    refine ⟨fun f => ?_, ?_, hused⟩
    · have hadd : testFrame (addFrame s k) f = (!decide (k = f) && testFrame s f) :=
        testFrame_clearFrame s k f
      rw [List.foldl_cons, htest, hadd]
      by_cases hkf : k = f
      · simp [hkf]
      · simp [hkf, Ne.symm hkf]
    · rw [List.foldl_cons, htotal, List.length_cons]
      exact Nat.add_right_comm _ _ _

theorem reserve_frames (l : List ℕ) : ∀ s, Counted mapped s →
    Counted mapped (l.foldl reserveFrame s) ∧
    (∀ f < maxFrames, testFrame (l.foldl reserveFrame s) f = (decide (f ∈ l) || testFrame s f)) ∧
    (l.foldl reserveFrame s).totalFrames = s.totalFrames := by
  induction l with
  | nil => exact fun s h => ⟨h, fun f _ => by simp, rfl⟩
  | cons k l ih =>
    intro s h
    rw [List.foldl_cons]
    by_cases hk : k < maxFrames ∧ testFrame s k = false
    · have hstep : reserveFrame s k = takeFrame s k := by
        rw [reserveFrame, decide_eq_true hk.1, hk.2]
        rfl
      obtain ⟨hcounted, htest, htotal⟩ := ih (takeFrame s k) (h.take hk.2).1
      rw [hstep]
      refine ⟨hcounted, fun f hf => ?_, htotal⟩
      rw [htest f hf, testFrame_takeFrame]
      by_cases hkf : k = f
      · simp [hkf]
      · simp [hkf, Ne.symm hkf]
    · have hstep : reserveFrame s k = s := by
        rw [reserveFrame, if_neg]
        simpa using hk
      obtain ⟨hcounted, htest, htotal⟩ := ih s h
      rw [hstep]
      refine ⟨hcounted, fun f hf => ?_, htotal⟩
      rw [htest f hf]
      by_cases hkf : f = k
      · have hset : testFrame s k = true := by
          by_contra hc
          exact hk ⟨hkf ▸ hf, Bool.not_eq_true _ ▸ hc⟩
        rw [hkf, hset, Bool.or_true, Bool.or_true]
      · simp [hkf]

theorem regionFrames_small {e : MmapEntry} (h : f ∈ regionFrames e) : f < maxFrames := by
  simpa using List.mem_takeWhile_imp h

theorem mappedFrames_small (h : f ∈ mb.mappedFrames) : f < maxFrames := by
  rw [Multiboot.mappedFrames, List.mem_toFinset, Multiboot.visitedFrames] at h
  split at h
  · obtain ⟨e, -, he⟩ := List.mem_flatMap.mp h
    exact regionFrames_small he
  · cases h

/-- What `k64_pmm_init` establishes, and every later call keeps but for the live allocations. -/
structure Ready (mb : Multiboot) (s : Pmm) : Prop where
  counted : Counted mb.mappedFrames s
  total : s.totalFrames = mb.visitedFrames.length

theorem init_ready (hmagic : mb.magic = 0x2BADB002) :
    Ready mb (k64PmmInit mb Pmm.unset) ∧ ∀ f, testFrame (k64PmmInit mb Pmm.unset) f = false ↔
      f ∈ mb.mappedFrames ∧ f ∉ mb.reservedFrames := by
  have hset : ∀ (t : Pmm) (f : ℕ), t.pmmBitmap = (fun _ => 0xFF) → testFrame t f = true := by
    intro t f ht
    have h8 : ∀ i < 8, (255 : UInt8).toNat.testBit i = true := by decide
    rw [testFrame_eq, ht]
    exact h8 (f % 8) (Nat.mod_lt f (by decide))
  have hm : (mb.magic != 0x2BADB002) = false := by rw [hmagic]; rfl
  rw [k64PmmInit, hm, if_neg Bool.false_ne_true]
  dsimp only
  cases hmmap : mb.hasMmap with
  | false =>
    have hvisited : mb.visitedFrames = [] := by rw [Multiboot.visitedFrames, hmmap]; rfl
    have hmapped : mb.mappedFrames = ∅ := by rw [Multiboot.mappedFrames, hvisited]; rfl
    rw [Bool.not_false, if_pos rfl, hmapped]
    refine ⟨⟨⟨?_, ?_, ?_⟩, by rw [hvisited]; rfl⟩, fun f => ?_⟩
    · rw [hmapped]
      exact fun f hf => absurd hf (Finset.notMem_empty f)
    · intro f hf
      rw [hset _ f rfl] at hf
      cases hf
    · rw [hmapped]
      rfl
    · rw [hset _ f rfl]
      simp
  | true =>
    have hvisited : mb.visitedFrames = (mb.mmap.filter (·.type == 1)).flatMap regionFrames := by
      rw [Multiboot.visitedFrames, hmmap]
      rfl
    -- all loops over regions are one loop over the visited frames, as are those over ranges
    have hregions : ∀ t, mb.mmap.foldl addRegion t = mb.visitedFrames.foldl addFrame t := by
      intro t
      rw [hvisited, List.foldl_flatMap, List.foldl_filter]
      congr 1
      funext u e
      rw [addRegion]
      by_cases he : e.type = 1 <;> simp [he]
    have hranges : ∀ t, mb.reservations.foldl reserveRange t =
        mb.reservedFrames.foldl reserveFrame t := by
      intro t
      rw [Multiboot.reservedFrames, List.foldl_flatMap]
      rfl
    rw [Bool.not_true, if_neg Bool.false_ne_true, hregions, hranges]
    obtain ⟨htest, htotal, hused⟩ := add_frames mb.visitedFrames
      { Pmm.unset with pmmBitmap := fun _ => 0xFF, totalFrames := 0, usedFrames := 0 }
    have hbits : ∀ f, testFrame (mb.visitedFrames.foldl addFrame
        { Pmm.unset with pmmBitmap := fun _ => 0xFF, totalFrames := 0, usedFrames := 0 }) f =
        !decide (f ∈ mb.mappedFrames) := by
      intro f
      rw [htest, hset _ f rfl, Bool.and_true, Multiboot.mappedFrames]
      simp only [List.mem_toFinset]
    have hcounted : Counted mb.mappedFrames (mb.visitedFrames.foldl addFrame
        { Pmm.unset with pmmBitmap := fun _ => 0xFF, totalFrames := 0, usedFrames := 0 }) := by
      refine ⟨fun f => mappedFrames_small, fun f hf => ?_, ?_⟩
      · rw [hbits] at hf
        simpa using hf
      · rw [hused, Finset.filter_false_of_mem]
        · rfl
        · intro f hf
          rw [hbits]
          simpa using hf
    obtain ⟨hafter, hreserved, hkeep⟩ := reserve_frames mb.reservedFrames _ hcounted
    refine ⟨⟨hafter, ?_⟩, fun f => ?_⟩
    · rw [hkeep, htotal]
      exact Nat.zero_add _
    · constructor
      · intro hf
        have hmem := hafter.clear f hf
        rw [hreserved f (mappedFrames_small hmem), Bool.or_eq_false_iff] at hf
        exact ⟨hmem, of_decide_eq_false hf.1⟩
      · rintro ⟨hmem, hnot⟩
        rw [hreserved f (mappedFrames_small hmem), hbits, decide_eq_true hmem, decide_eq_false hnot]
        rfl

theorem frame_zero_reserved (mb : Multiboot) : 0 ∈ mb.reservedFrames := by
  refine List.mem_flatMap.mpr ⟨(0, mb.kernelEnd), by simp [Multiboot.reservations], ?_⟩
  have hl := mb.linked
  have hh := mb.loaded
  have hnot : ¬ mb.kernelEnd ≤ 0 := by
    rw [UInt64.le_iff_toNat_le]
    simp
    omega
  have hsum : (mb.kernelEnd + 4095).toNat = mb.kernelEnd.toNat + 4095 := by
    rw [UInt64.toNat_add]
    exact Nat.mod_eq_of_lt (by simp; omega)
  rw [rangeFrames, if_neg hnot]
  refine List.mem_range'_1.mpr ⟨by simp, ?_⟩
  rw [hsum]
  simp [frameSize]
  omega

structure Allocation where
  addr : ℕ
  count : ℕ
  deriving DecidableEq

def Allocation.Owns (a : Allocation) (f : ℕ) : Prop :=
  a.addr / frameSize ≤ f ∧ f < a.addr / frameSize + a.count

instance (a : Allocation) (f : ℕ) : Decidable (a.Owns f) := inferInstanceAs (Decidable (_ ∧ _))

def Apart (a b : Allocation) : Prop := ∀ f, ¬ (a.Owns f ∧ b.Owns f)

/-- A null pointer is not an allocation. -/
def granted (addr count : ℕ) (live : List Allocation) : List Allocation :=
  if addr = 0 then live else ⟨addr, count⟩ :: live

/-- The states after any sequence of calls, with the allocations that are live. -/
inductive Reachable (mb : Multiboot) : Pmm → List Allocation → Prop where
  | init : Reachable mb (k64PmmInit mb Pmm.unset) []
  | allocFrame {s live} (h : Reachable mb s live) :
      Reachable mb (k64PmmAllocFrame s).2 (granted (k64PmmAllocFrame s).1 1 live)
  | allocContiguous {s live} (n : ℕ) (h : Reachable mb s live) :
      Reachable mb (k64PmmAllocContiguous s n).2 (granted (k64PmmAllocContiguous s n).1 n live)
  | freeFrame {s live} (addr : ℕ) (h : Reachable mb s live) (owned : ⟨addr, 1⟩ ∈ live) :
      Reachable mb (k64PmmFreeFrame s addr) (live.erase ⟨addr, 1⟩)
  | freeContiguous {s live} (addr n : ℕ) (h : Reachable mb s live) (owned : ⟨addr, n⟩ ∈ live) :
      Reachable mb (k64PmmFreeContiguous s addr n) (live.erase ⟨addr, n⟩)

structure Sound (mb : Multiboot) (s : Pmm) (live : List Allocation) : Prop extends Ready mb s where
  clear : ∀ f, testFrame s f = false ↔
    f ∈ mb.mappedFrames ∧ f ∉ mb.reservedFrames ∧ ∀ a ∈ live, ¬ a.Owns f
  owned : ∀ a ∈ live, 0 < a.count ∧
    ∀ f, a.Owns f → f < searchLimit s ∧ f ∈ mb.mappedFrames ∧ f ∉ mb.reservedFrames
  apart : live.Pairwise Apart
  used : s.usedFrames.toNat =
    (k64PmmInit mb Pmm.unset).usedFrames.toNat + (live.map Allocation.count).sum

variable {live : List Allocation}

theorem sound_init (hmagic : mb.magic = 0x2BADB002) : Sound mb (k64PmmInit mb Pmm.unset) [] := by
  obtain ⟨hready, hclear⟩ := init_ready hmagic
  refine ⟨hready, fun f => ?_, fun a ha => absurd ha List.not_mem_nil, List.Pairwise.nil, rfl⟩
  rw [hclear]
  simp

theorem Sound.frame_zero (h : Sound mb s live) : testFrame s 0 = true := by
  by_contra hc
  exact ((h.clear 0).mp (Bool.not_eq_true _ ▸ hc)).2.1 (frame_zero_reserved mb)

theorem owns_frames (k n : ℕ) (f : ℕ) : Allocation.Owns ⟨k * frameSize, n⟩ f ↔
    k ≤ f ∧ f < k + n := by
  rw [Allocation.Owns, Nat.mul_div_cancel _ (by decide : 0 < frameSize)]

theorem Sound.take (h : Sound mb s live) (hrun : Run (testFrame s) (searchLimit s) n k) :
    Sound mb ((List.range' k n).foldl takeFrame s) (⟨k * frameSize, n⟩ :: live) ∧
      k * frameSize ≠ 0 := by
  obtain ⟨hcounted, hused, htest, htotal⟩ := h.counted.takeRun n k s hrun.free
  have hfree : ∀ f, Allocation.Owns ⟨k * frameSize, n⟩ f → testFrame s f = false := by
    intro f hf
    obtain ⟨h1, h2⟩ := (owns_frames k n f).mp hf
    exact hrun.free f h1 h2
  have hlimit : searchLimit ((List.range' k n).foldl takeFrame s) = searchLimit s := by
    rw [searchLimit, htotal, searchLimit]
  refine ⟨⟨⟨hcounted, htotal.trans h.total⟩, fun f => ?_, fun a ha => ?_, ?_, ?_⟩, ?_⟩
  · rw [htest, Bool.or_eq_false_iff, decide_eq_false_iff_not, h.clear, List.forall_mem_cons,
      owns_frames]
    tauto
  · rw [hlimit]
    rcases List.mem_cons.mp ha with rfl | ha
    · refine ⟨hrun.nonempty, fun f hf => ⟨?_, ?_⟩⟩
      · have hbelow := hrun.below
        have hend := ((owns_frames k n f).mp hf).2
        omega
      · obtain ⟨h1, h2, -⟩ := (h.clear f).mp (hfree f hf)
        exact ⟨h1, h2⟩
    · exact h.owned a ha
  · apply List.Pairwise.cons _ h.apart
    intro a ha f ⟨hnew, hold⟩
    exact ((h.clear f).mp (hfree f hnew)).2.2 a ha hold
  · rw [hused, h.used, List.map_cons, List.sum_cons]
    exact (Nat.add_assoc _ _ _).trans (congrArg _ (Nat.add_comm _ _))
  · intro hzero
    have hk : k = 0 := by
      rcases Nat.mul_eq_zero.mp hzero with hk | hk
      · exact hk
      · exact absurd hk (by decide)
    have h0 := hrun.free 0 (by omega) (by have := hrun.nonempty; omega)
    rw [h.frame_zero] at h0
    cases h0

theorem Sound.release (h : Sound mb s live) {a : Allocation} (ha : a ∈ live) :
    Sound mb ((List.range' (a.addr / frameSize) a.count).foldl releaseFrame s) (live.erase a) := by
  have hperm : live.Perm (a :: live.erase a) := List.perm_cons_erase ha
  have hsub : ∀ b ∈ live.erase a, b ∈ live := fun b => List.mem_of_mem_erase
  have hapart : (a :: live.erase a).Pairwise Apart :=
    hperm.pairwise h.apart fun {b c} hbc f hf => hbc f ⟨hf.2, hf.1⟩
  obtain ⟨haway, hrest⟩ := List.pairwise_cons.mp hapart
  have hset : ∀ f, a.Owns f → testFrame s f = true ∧ f ∈ mb.mappedFrames := by
    intro f hf
    refine ⟨?_, ((h.owned a ha).2 f hf).2.1⟩
    by_contra hc
    exact ((h.clear f).mp (Bool.not_eq_true _ ▸ hc)).2.2 a ha hf
  obtain ⟨hcounted, hused, htest, htotal⟩ :=
    h.counted.releaseRun a.count (a.addr / frameSize) s fun j h1 h2 => hset j ⟨h1, h2⟩
  refine ⟨⟨hcounted, htotal.trans h.total⟩, fun f => ?_, fun b hb => ?_, hrest, ?_⟩
  · have hall : (∀ b ∈ live, ¬ b.Owns f) ↔ ¬ a.Owns f ∧ ∀ b ∈ live.erase a, ¬ b.Owns f := by
      constructor
      · exact fun hb => ⟨hb a ha, fun b hm => hb b (hsub b hm)⟩
      · intro ⟨hfirst, hothers⟩ b hm
        rcases List.mem_cons.mp (hperm.mem_iff.mp hm) with rfl | hm
        · exact hfirst
        · exact hothers b hm
    have hclear := h.clear f
    rw [hall] at hclear
    rw [htest]
    change (!decide (a.Owns f) && testFrame s f) = false ↔ _
    by_cases hown : a.Owns f
    · rw [decide_eq_true hown, Bool.not_true, Bool.false_and]
      have hgood := ((h.owned a ha).2 f hown).2
      exact iff_of_true rfl ⟨hgood.1, hgood.2, fun b hb hbf => haway b hb f ⟨hown, hbf⟩⟩
    · rw [decide_eq_false hown, Bool.not_false, Bool.true_and, hclear]
      tauto
  · have hlimit : searchLimit ((List.range' (a.addr / frameSize) a.count).foldl releaseFrame s) =
        searchLimit s := by
      rw [searchLimit, htotal, searchLimit]
    rw [hlimit]
    exact h.owned b (hsub b hb)
  · have hsum : (live.map Allocation.count).sum =
        a.count + ((live.erase a).map Allocation.count).sum := by
      rw [(hperm.map Allocation.count).sum_eq, List.map_cons, List.sum_cons]
    have := h.used
    omega

theorem alloc_frame_cases (h : Sound mb s live) :
    ((k64PmmAllocFrame s).1 = 0 ∧ (k64PmmAllocFrame s).2 = s ∧
      ∀ f < searchLimit s, testFrame s f = true) ∨
    ∃ k, (k64PmmAllocFrame s).1 = k * frameSize ∧ k * frameSize ≠ 0 ∧
      LowestRun (testFrame s) (searchLimit s) 1 k ∧
      Sound mb (k64PmmAllocFrame s).2 (⟨k * frameSize, 1⟩ :: live) := by
  rw [k64PmmAllocFrame]
  cases hfind : firstFree (testFrame s) (searchLimit s) with
  | none => exact Or.inl ⟨rfl, rfl, firstFree_none.mp hfind⟩
  | some k =>
    obtain ⟨hk, hfree, hbefore⟩ := firstFree_some hfind
    have hrun : Run (testFrame s) (searchLimit s) 1 k :=
      ⟨Nat.one_pos, hk, fun j h1 h2 => by rwa [show j = k by omega]⟩
    obtain ⟨hsound, hne⟩ := h.take hrun
    refine Or.inr ⟨k, rfl, hne, ⟨hrun, fun k' hk' hrun' => ?_⟩, hsound⟩
    have hset := hrun'.free k' (Nat.le_refl k') (by omega)
    rw [hbefore k' hk'] at hset
    cases hset

theorem alloc_contiguous_cases (h : Sound mb s live) (n : ℕ) :
    ((k64PmmAllocContiguous s n).1 = 0 ∧ (k64PmmAllocContiguous s n).2 = s ∧
      ∀ k, ¬ Run (testFrame s) (searchLimit s) n k) ∨
    ∃ k, (k64PmmAllocContiguous s n).1 = k * frameSize ∧ k * frameSize ≠ 0 ∧
      LowestRun (testFrame s) (searchLimit s) n k ∧
      Sound mb (k64PmmAllocContiguous s n).2 (⟨k * frameSize, n⟩ :: live) := by
  rw [k64PmmAllocContiguous]
  by_cases hn : n = 0 ∨ maxFrames < n
  · rw [if_pos hn]
    refine Or.inl ⟨rfl, rfl, fun k hrun => ?_⟩
    have hpos := hrun.nonempty
    have hbelow := hrun.below
    rw [searchLimit] at hbelow
    omega
  rw [if_neg hn]
  have hpos : 0 < n := by omega
  cases hfind : firstRun (testFrame s) (searchLimit s) n with
  | none => exact Or.inl ⟨rfl, rfl, (firstRun_none hpos).mp hfind⟩
  | some k =>
    have hlow := firstRun_some hpos hfind
    obtain ⟨hsound, hne⟩ := h.take hlow.toRun
    exact Or.inr ⟨k, rfl, hne, hlow, hsound⟩

theorem reachable_sound (hmagic : mb.magic = 0x2BADB002) (h : Reachable mb s live) :
    Sound mb s live := by
  induction h with
  | init => exact sound_init hmagic
  | allocFrame _ ih =>
    rcases alloc_frame_cases ih with ⟨hnull, hsame, -⟩ | ⟨k, haddr, hne, -, hsound⟩
    · rw [hnull, hsame]
      exact ih
    · rw [haddr, granted, if_neg hne]
      exact hsound
  | allocContiguous n _ ih =>
    rcases alloc_contiguous_cases ih n with ⟨hnull, hsame, -⟩ | ⟨k, haddr, hne, -, hsound⟩
    · rw [hnull, hsame]
      exact ih
    · rw [haddr, granted, if_neg hne]
      exact hsound
  | freeFrame addr _ howned ih => exact ih.release howned
  | freeContiguous addr n _ howned ih => exact ih.release howned

/-- No frame is handed out twice, the bitmap and the count say which frames are taken, and the
contiguous search finds the lowest run there is. -/
theorem frames_never_shared (hmagic : mb.magic = 0x2BADB002) (h : Reachable mb s live) :
    live.Pairwise Apart ∧
    (∀ a ∈ live, ∀ f, a.Owns f → f ∉ mb.reservedFrames) ∧
    (∀ f < maxFrames, testFrame s f = false ↔
      f ∈ mb.mappedFrames ∧ f ∉ mb.reservedFrames ∧ ∀ a ∈ live, ¬ a.Owns f) ∧
    s.usedFrames.toNat =
      (k64PmmInit mb Pmm.unset).usedFrames.toNat + (live.map Allocation.count).sum ∧
    ∀ n, ((k64PmmAllocContiguous s n).1 = 0 ↔ ∀ k, ¬ Run (testFrame s) (searchLimit s) n k) ∧
      ((k64PmmAllocContiguous s n).1 ≠ 0 → ∃ k, (k64PmmAllocContiguous s n).1 = k * frameSize ∧
        LowestRun (testFrame s) (searchLimit s) n k) := by
  have hsound := reachable_sound hmagic h
  refine ⟨hsound.apart, fun a ha f hf => ((hsound.owned a ha).2 f hf).2.2,
    fun f _ => hsound.clear f, hsound.used, fun n => ?_⟩
  rcases alloc_contiguous_cases hsound n with ⟨hnull, -, hnone⟩ | ⟨k, haddr, hne, hlow, -⟩
  · exact ⟨iff_of_true hnull hnone, fun hne => absurd hnull hne⟩
  · refine ⟨iff_of_false (haddr ▸ hne) fun hnone => hnone k hlow.toRun, fun _ => ⟨k, haddr, hlow⟩⟩

/-- 258 frames from address 0 on, of which the kernel takes all but the last; half of that one lies
outside of the region. -/
def halfFrameMap : Multiboot where
  magic := 0x2BADB002
  info := 0x9000
  flags := 0x40
  mmapAddr := 0x9100
  mmapLength := 24
  mmap := [⟨0, 0x101800, 1⟩]
  modsAddr := 0
  mods := []
  kernelEnd := 0x100800
  mods_count := by decide
  linked := by decide
  loaded := by decide

theorem halfFrameMap_first_frame_counted :
    (k64PmmAllocFrame (k64PmmInit halfFrameMap Pmm.unset)).2.usedFrames.toNat =
      (k64PmmInit halfFrameMap Pmm.unset).usedFrames.toNat +
        ((granted (k64PmmAllocFrame (k64PmmInit halfFrameMap Pmm.unset)).1 1 []).map
          Allocation.count).sum :=
  (frames_never_shared (show halfFrameMap.magic = 0x2BADB002 from rfl)
    (Reachable.allocFrame .init)).2.2.2.1

end PhysicalMemory
