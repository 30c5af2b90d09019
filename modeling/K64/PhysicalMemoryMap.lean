import K64.PhysicalMemoryRuns

/-! # The memory map behind the frames

Which maps keep the allocator inside of real memory, and which ones let it reach all of it. The
region loop of `k64_pmm_init` does not round the bounds of a region to frames, and the searches stop
at the number of frames it counted. -/
namespace PhysicalMemory

variable {mb : Multiboot} {s : Pmm} {live : List Allocation} {f : ℕ}

def MmapEntry.Covers (e : MmapEntry) (x : ℕ) : Prop :=
  e.addr.toNat ≤ x ∧ x < e.addr.toNat + e.len.toNat

/-- All bytes of the frame are type-1 memory, and none belongs to an entry of another type. -/
def FrameReal (mb : Multiboot) (f : ℕ) : Prop :=
  (∀ x, x / frameSize = f → ∃ e ∈ mb.mmap, e.type = 1 ∧ e.Covers x) ∧
  ∀ e ∈ mb.mmap, e.type ≠ 1 → ∀ x, x / frameSize = f → ¬ e.Covers x

/-- The kernel image, the structures of the boot loader and the boot modules. -/
def Multiboot.protectedRanges (mb : Multiboot) : List (ℕ × ℕ) :=
  [(0x100000, mb.kernelEnd.toNat), (mb.info.toNat, mb.info.toNat + 116)] ++
  (if mb.hasMmap then [(mb.mmapAddr.toNat, mb.mmapAddr.toNat + mb.mmapLength.toNat)] else []) ++
  (if mb.hasMods then (mb.modsAddr.toNat, mb.modsAddr.toNat + mb.mods.length * 16) ::
    mb.mods.map fun m => (m.modStart.toNat, m.modEnd.toNat) else [])

structure FrameSafe (mb : Multiboot) (f : ℕ) : Prop where
  real : FrameReal mb f
  unprotected : ∀ r ∈ mb.protectedRanges, ∀ x, x / frameSize = f → ¬ (r.1 ≤ x ∧ x < r.2)

theorem mem_takeWhile_range' (m n : ℕ) : ∀ k, f ∈ (List.range' k n).takeWhile (· < m) ↔
    k ≤ f ∧ f < k + n ∧ f < m := by
  induction n with
  | zero =>
    intro k
    simp
    omega
  | succ n ih =>
    intro k
    rw [List.range'_succ, List.takeWhile_cons]
    by_cases hk : k < m
    · rw [decide_eq_true hk, if_pos rfl, List.mem_cons, ih]
      omega
    · rw [decide_eq_false hk, if_neg Bool.false_ne_true]
      simp
      omega

theorem mem_regionFrames (e : MmapEntry) : f ∈ regionFrames e ↔
    ∃ k, e.addr.toNat + 4096 * k < (e.addr + e.len).toNat ∧ f = e.addr.toNat / frameSize + k ∧
      f < maxFrames := by
  rw [regionFrames, mem_takeWhile_range', frameSize]
  constructor
  · rintro ⟨h1, h2, h3⟩
    exact ⟨f - e.addr.toNat / 4096, by omega, by omega, h3⟩
  · rintro ⟨k, hk, rfl, h3⟩
    exact ⟨by omega, by omega, h3⟩

theorem mem_mappedFrames : f ∈ mb.mappedFrames ↔
    mb.hasMmap = true ∧ ∃ e ∈ mb.mmap, e.type = 1 ∧ f ∈ regionFrames e := by
  rw [Multiboot.mappedFrames, List.mem_toFinset, Multiboot.visitedFrames]
  cases hm : mb.hasMmap with
  | false => simp
  | true => simp [and_assoc]

theorem mem_rangeFrames {r : UInt64 × UInt64} {x : ℕ} (hwrap : r.2.toNat + 4095 < 2 ^ 64)
    (h1 : r.1.toNat ≤ x) (h2 : x < r.2.toNat) : x / frameSize ∈ rangeFrames r := by
  have hsum : (r.2 + 4095).toNat = r.2.toNat + 4095 := by
    rw [UInt64.toNat_add]
    exact Nat.mod_eq_of_lt hwrap
  rw [rangeFrames, if_neg (by rw [UInt64.le_iff_toNat_le]; omega)]
  refine List.mem_range'_1.mpr ⟨Nat.div_le_div_right h1, ?_⟩
  rw [hsum, frameSize]
  omega

theorem reserved_of_mem {r : UInt64 × UInt64} {x : ℕ} (hr : r ∈ mb.reservations)
    (hwrap : r.2.toNat + 4095 < 2 ^ 64) (h1 : r.1.toNat ≤ x) (h2 : x < r.2.toNat) :
    x / frameSize ∈ mb.reservedFrames :=
  List.mem_flatMap.mpr ⟨r, hr, mem_rangeFrames hwrap h1 h2⟩

theorem toNat_end (a : UInt32) (n : ℕ) (hn : n < 2 ^ 40) :
    (a.toUInt64 + UInt64.ofNat n).toNat = a.toNat + n := by
  have ha := a.toNat_lt
  rw [UInt64.toNat_add, UInt64.toNat_ofNat', UInt32.toNat_toUInt64]
  omega

theorem protected_reserved {r : ℕ × ℕ} {x : ℕ} (hr : r ∈ mb.protectedRanges) (h1 : r.1 ≤ x)
    (h2 : x < r.2) : x / frameSize ∈ mb.reservedFrames := by
  simp only [Multiboot.protectedRanges, List.mem_append, List.mem_cons, List.not_mem_nil,
    or_false] at hr
  rcases hr with (( rfl | rfl) | hr) | hr
  · have hl := mb.loaded
    exact reserved_of_mem (r := (0, mb.kernelEnd)) (by simp [Multiboot.reservations])
      (by dsimp only; omega) (Nat.zero_le x) h2
  · have hend : (mb.info.toUInt64 + 116).toNat = mb.info.toNat + 116 := toNat_end mb.info 116 (by decide)
    have hlt := mb.info.toNat_lt
    refine reserved_of_mem (r := (mb.info.toUInt64, mb.info.toUInt64 + 116))
      (by simp [Multiboot.reservations]) ?_ ?_ ?_
    · rw [hend]; omega
    · rw [UInt32.toNat_toUInt64]; exact h1
    · rw [hend]; exact h2
  · cases hm : mb.hasMmap with
    | false =>
      rw [hm, if_neg Bool.false_ne_true] at hr
      cases hr
    | true =>
      rw [hm, if_pos rfl, List.mem_singleton] at hr
      subst hr
      have hlen := mb.mmapLength.toNat_lt
      have hlt := mb.mmapAddr.toNat_lt
      have hend : (mb.mmapAddr.toUInt64 + mb.mmapLength.toUInt64).toNat =
          mb.mmapAddr.toNat + mb.mmapLength.toNat := by
        rw [UInt64.toNat_add, UInt32.toNat_toUInt64, UInt32.toNat_toUInt64]
        omega
      refine reserved_of_mem (r := (mb.mmapAddr.toUInt64,
        mb.mmapAddr.toUInt64 + mb.mmapLength.toUInt64)) (by simp [Multiboot.reservations, hm]) ?_ ?_ ?_
      · rw [hend]; omega
      · rw [UInt32.toNat_toUInt64]; exact h1
      · rw [hend]; exact h2
  · cases hm : mb.hasMods with
    | false =>
      rw [hm, if_neg Bool.false_ne_true] at hr
      cases hr
    | true =>
      rw [hm, if_pos rfl, List.mem_cons, List.mem_map] at hr
      rcases hr with rfl | ⟨m, hmem, rfl⟩
      · have hcount := mb.mods_count
        have hlt := mb.modsAddr.toNat_lt
        have hprod : UInt64.ofNat mb.mods.length * 16 = UInt64.ofNat (mb.mods.length * 16) := by
          rw [UInt64.ofNat_mul]
          rfl
        have hend : (mb.modsAddr.toUInt64 + UInt64.ofNat mb.mods.length * 16).toNat =
            mb.modsAddr.toNat + mb.mods.length * 16 := by
          rw [hprod]
          exact toNat_end mb.modsAddr _ (by omega)
        refine reserved_of_mem (r := (mb.modsAddr.toUInt64,
          mb.modsAddr.toUInt64 + UInt64.ofNat mb.mods.length * 16))
          (by simp [Multiboot.reservations, hm]) ?_ ?_ ?_
        · rw [hend]; omega
        · rw [UInt32.toNat_toUInt64]; exact h1
        · rw [hend]; exact h2
      · have hlt := m.modEnd.toNat_lt
        refine reserved_of_mem (r := (m.modStart.toUInt64, m.modEnd.toUInt64)) ?_ ?_ ?_ ?_
        · rw [Multiboot.reservations, hm]
          exact List.mem_append_right _ (List.mem_cons_of_mem _ (List.mem_map_of_mem hmem))
        · rw [UInt32.toNat_toUInt64]; omega
        · rw [UInt32.toNat_toUInt64]; exact h1
        · rw [UInt32.toNat_toUInt64]; exact h2

theorem Sound.count_bound (h : Sound mb s live) :
    (live.map Allocation.count).sum ≤ maxFrames := by
  have hle := h.counted.count_le
  have := h.used
  omega

theorem exhausted_reachable (hmagic : mb.magic = 0x2BADB002) (n : ℕ) : ∀ {s live},
    Reachable mb s live → maxFrames - (live.map Allocation.count).sum ≤ n →
    ∃ t rest, Reachable mb t rest ∧ (k64PmmAllocFrame t).1 = 0 := by
  induction n with
  | zero =>
    intro s live h hn
    have hsound := reachable_sound hmagic h
    rcases alloc_frame_cases hsound with ⟨hnull, -⟩ | ⟨k, -, -, -, hnext⟩
    · exact ⟨s, live, h, hnull⟩
    · have hbound := hnext.count_bound
      rw [List.map_cons, List.sum_cons] at hbound
      dsimp only at hbound
      omega
  | succ n ih =>
    intro s live h hn
    have hsound := reachable_sound hmagic h
    rcases alloc_frame_cases hsound with ⟨hnull, -⟩ | ⟨k, haddr, hne, -, -⟩
    · exact ⟨s, live, h, hnull⟩
    · have hgrant := h.allocFrame
      rw [haddr, granted, if_neg hne] at hgrant
      refine ih hgrant ?_
      rw [List.map_cons, List.sum_cons]
      dsimp only
      omega

theorem Sound.owner (h : Sound mb s live) (hset : testFrame s f = true) (hm : f ∈ mb.mappedFrames)
    (hr : f ∉ mb.reservedFrames) : ∃ a ∈ live, a.Owns f := by
  by_contra hnone
  have hfree := (h.clear f).mpr ⟨hm, hr, fun a ha hown => hnone ⟨a, ha, hown⟩⟩
  rw [hset] at hfree
  cases hfree

theorem Sound.below_limit (h : Sound mb s live) (hm : f ∈ mb.mappedFrames) :
    f < searchLimit s ↔ f < mb.visitedFrames.length := by
  have hsmall := mappedFrames_small hm
  rw [searchLimit, h.total]
  omega

theorem all_frames_owned (hmagic : mb.magic = 0x2BADB002) : ∃ s live, Reachable mb s live ∧
    (k64PmmAllocFrame s).1 = 0 ∧
    ∀ f ∈ mb.mappedFrames, f ∉ mb.reservedFrames → f < mb.visitedFrames.length →
      ∃ a ∈ live, a.Owns f := by
  obtain ⟨s, live, h, hnull⟩ := exhausted_reachable hmagic _ .init (Nat.le_refl _)
  have hsound := reachable_sound hmagic h
  refine ⟨s, live, h, hnull, fun f hm hr hlt => ?_⟩
  rcases alloc_frame_cases hsound with ⟨-, -, hall⟩ | ⟨k, haddr, hne, -⟩
  · exact hsound.owner (hall f ((hsound.below_limit hm).mpr hlt)) hm hr
  · exact absurd (haddr.symm.trans hnull) hne

/-- Every frame that the loop over a type-1 region steps through is real memory, but for those that
are reserved and those whose number is not below the number of frames counted. -/
def RegionsReal (mb : Multiboot) : Prop :=
  ∀ e ∈ mb.mmap, e.type = 1 → ∀ f ∈ regionFrames e, f < mb.visitedFrames.length →
    f ∉ mb.reservedFrames → FrameReal mb f

/-- Only real and unreserved memory is allocated if and only if no region loop steps into a frame
that its region does not fill. -/
theorem allocated_frames_real_iff (hmagic : mb.magic = 0x2BADB002) :
    (∀ s live, Reachable mb s live → ∀ a ∈ live, ∀ f, a.Owns f → FrameSafe mb f) ↔
      RegionsReal mb := by
  constructor
  · intro h e he htype f hf hlt hr
    have hmap : mb.hasMmap = true := by
      by_contra hc
      rw [Multiboot.visitedFrames, if_neg hc] at hlt
      cases hlt
    obtain ⟨s, live, hreach, -, hown⟩ := all_frames_owned hmagic
    obtain ⟨a, ha, hf'⟩ := hown f (mem_mappedFrames.mpr ⟨hmap, e, he, htype, hf⟩) hr hlt
    exact (h s live hreach a ha f hf').real
  · intro h s live hreach a ha f hf
    have hsound := reachable_sound hmagic hreach
    obtain ⟨hlimit, hm, hr⟩ := (hsound.owned a ha).2 f hf
    obtain ⟨-, e, he, htype, hin⟩ := mem_mappedFrames.mp hm
    refine ⟨h e he htype f hin ((hsound.below_limit hm).mp hlimit) hr, fun r hmem x hx hin => ?_⟩
    exact hr (hx ▸ protected_reserved hmem hin.1 hin.2)

theorem regionsReal_of_aligned
    (halign : ∀ e ∈ mb.mmap, e.type = 1 → e.addr.toNat % frameSize = 0 ∧
      e.len.toNat % frameSize = 0 ∧ e.addr.toNat + e.len.toNat < 2 ^ 64)
    (hother : ∀ e ∈ mb.mmap, ∀ e' ∈ mb.mmap, e.type = 1 → e'.type ≠ 1 →
      ∀ x, ¬ (e.Covers x ∧ e'.Covers x)) : RegionsReal mb := by
  intro e he htype f hf _ _
  obtain ⟨haddr, hlen, hwrap⟩ := halign e he htype
  obtain ⟨k, hk, rfl, -⟩ := (mem_regionFrames e).mp hf
  rw [UInt64.toNat_add, Nat.mod_eq_of_lt hwrap] at hk
  rw [frameSize] at haddr hlen
  have hcover : ∀ x, x / frameSize = e.addr.toNat / frameSize + k → e.Covers x := by
    intro x hx
    rw [frameSize] at hx
    exact ⟨by omega, by omega⟩
  exact ⟨fun x hx => ⟨e, he, htype, hcover x hx⟩,
    fun e' he' hne x hx hx' => hother e he e' he' htype hne x ⟨hcover x hx, hx'⟩⟩

def wholeFrameMap : Multiboot := { halfFrameMap with mmap := [⟨0, 0x102000, 1⟩] }

theorem wholeFrameMap_frames_real : RegionsReal wholeFrameMap ∧ ∀ s live,
    Reachable wholeFrameMap s live → ∀ a ∈ live, ∀ f, a.Owns f → FrameSafe wholeFrameMap f := by
  have hreal : RegionsReal wholeFrameMap := by
    apply regionsReal_of_aligned
    · intro e he _
      rw [show wholeFrameMap.mmap = [⟨0, 0x102000, 1⟩] from rfl, List.mem_singleton] at he
      subst he
      decide
    · intro e _ e' he' _ hne
      rw [show wholeFrameMap.mmap = [⟨0, 0x102000, 1⟩] from rfl, List.mem_singleton] at he'
      subst he'
      exact absurd rfl hne
  exact ⟨hreal, (allocated_frames_real_iff rfl).mpr hreal⟩

/-- On `halfFrameMap` the last frame is allocated although its second half is not memory. -/
theorem half_frame_allocated : ∃ s live, Reachable halfFrameMap s live ∧
    ∃ a ∈ live, a.Owns 257 ∧ ¬ FrameSafe halfFrameMap 257 := by
  obtain ⟨s, live, hreach, -, hown⟩ := all_frames_owned (show halfFrameMap.magic = 0x2BADB002 from rfl)
  have hregion : 257 ∈ regionFrames ⟨0, 0x101800, 1⟩ :=
    (mem_regionFrames _).mpr ⟨257, by decide, by decide, by decide⟩
  have hmapped : 257 ∈ halfFrameMap.mappedFrames :=
    mem_mappedFrames.mpr ⟨by decide, _, List.mem_singleton.mpr rfl, rfl, hregion⟩
  obtain ⟨a, ha, hf⟩ := hown 257 hmapped (by decide +kernel) (by decide +kernel)
  refine ⟨s, live, hreach, a, ha, hf, fun hsafe => ?_⟩
  obtain ⟨e, he, -, hcover⟩ := hsafe.real.1 (257 * 4096 + 4095) (by decide)
  rw [show halfFrameMap.mmap = [⟨0, 0x101800, 1⟩] from rfl, List.mem_singleton] at he
  subst he
  exact absurd hcover.2 (by decide)

/-- Allocation fails only when memory is exhausted, if and only if the frames found usable have
numbers below their count. -/
theorem allocation_fails_exhausted_iff (hmagic : mb.magic = 0x2BADB002) :
    (∀ s live, Reachable mb s live →
      ((k64PmmAllocFrame s).1 = 0 →
        ∀ f ∈ mb.mappedFrames, f ∉ mb.reservedFrames → ∃ a ∈ live, a.Owns f) ∧
      ∀ n, 0 < n → (k64PmmAllocContiguous s n).1 = 0 →
        ¬ ∃ k, ∀ f, k ≤ f → f < k + n →
          f ∈ mb.mappedFrames ∧ f ∉ mb.reservedFrames ∧ ∀ a ∈ live, ¬ a.Owns f) ↔
    ∀ f ∈ mb.mappedFrames, f ∉ mb.reservedFrames → f < mb.visitedFrames.length := by
  constructor
  · intro h f hm hr
    obtain ⟨s, live, hreach, hnull, -⟩ := all_frames_owned hmagic
    have hsound := reachable_sound hmagic hreach
    obtain ⟨a, ha, hown⟩ := (h s live hreach).1 hnull f hm hr
    exact (hsound.below_limit hm).mp ((hsound.owned a ha).2 f hown).1
  · intro h s live hreach
    have hsound := reachable_sound hmagic hreach
    constructor
    · intro hnull f hm hr
      rcases alloc_frame_cases hsound with ⟨-, -, hall⟩ | ⟨k, haddr, hne, -⟩
      · exact hsound.owner (hall f ((hsound.below_limit hm).mpr (h f hm hr))) hm hr
      · exact absurd (haddr.symm.trans hnull) hne
    · rintro n hn hnull ⟨k, hfree⟩
      have hlimit : ∀ f, k ≤ f → f < k + n → f < searchLimit s := by
        intro f h1 h2
        obtain ⟨hm, hr, -⟩ := hfree f h1 h2
        exact (hsound.below_limit hm).mpr (h f hm hr)
      have hlast := hlimit (k + n - 1) (by omega) (by omega)
      rcases alloc_contiguous_cases hsound n with ⟨-, -, hnone⟩ | ⟨k', haddr, hne, -⟩
      · exact hnone k ⟨hn, by omega, fun f h1 h2 => (hsound.clear f).mpr (hfree f h1 h2)⟩
      · exact absurd (haddr.symm.trans hnull) hne

theorem wholeFrameMap_frames : wholeFrameMap.visitedFrames = List.range' 0 258 := by decide +kernel

theorem wholeFrameMap_allocates_all : wholeFrameMap.visitedFrames.length = 258 ∧
    ∀ s live, Reachable wholeFrameMap s live → (k64PmmAllocFrame s).1 = 0 →
      ∀ f ∈ wholeFrameMap.mappedFrames, f ∉ wholeFrameMap.reservedFrames → ∃ a ∈ live, a.Owns f := by
  have hlength : wholeFrameMap.visitedFrames.length = 258 := by
    rw [wholeFrameMap_frames, List.length_range']
  have hbelow : ∀ f ∈ wholeFrameMap.mappedFrames, f ∉ wholeFrameMap.reservedFrames →
      f < wholeFrameMap.visitedFrames.length := by
    intro f hf _
    rw [Multiboot.mappedFrames, List.mem_toFinset, wholeFrameMap_frames] at hf
    rw [hlength]
    exact (List.mem_range'_1.mp hf).2
  refine ⟨hlength, fun s live h => ?_⟩
  exact ((allocation_fails_exhausted_iff (show wholeFrameMap.magic = 0x2BADB002 from rfl)).mpr hbelow
    s live h).1

/-- Four frames at 2 MiB. -/
def highMap : Multiboot where
  magic := 0x2BADB002
  info := 0x9000
  flags := 0x40
  mmapAddr := 0x9100
  mmapLength := 24
  mmap := [⟨0x200000, 0x4000, 1⟩]
  modsAddr := 0
  mods := []
  kernelEnd := 0x100800
  mods_count := halfFrameMap.mods_count
  linked := halfFrameMap.linked
  loaded := halfFrameMap.loaded

theorem highMap_frames : ∀ f, 512 ≤ f → f < 516 →
    f ∈ highMap.mappedFrames ∧ f ∉ highMap.reservedFrames := by
  intro f h1 h2
  refine ⟨mem_mappedFrames.mpr ⟨by decide, _, List.mem_singleton.mpr rfl, rfl,
    (mem_regionFrames _).mpr ⟨f - 512, ?_, ?_, ?_⟩⟩, ?_⟩
  · have : ((0x200000 : UInt64) + 0x4000).toNat = 0x204000 := by decide
    dsimp only
    rw [this]
    have : (0x200000 : UInt64).toNat = 0x200000 := by decide
    omega
  · have : (0x200000 : UInt64).toNat / frameSize = 512 := by decide
    dsimp only
    omega
  · rw [maxFrames]
    omega
  · have hr : ∀ g ∈ highMap.reservedFrames, g < 512 := by decide +kernel
    exact fun hf => absurd (hr f hf) (by omega)

/-- On `highMap` nothing can be allocated although four frames are free. -/
theorem high_frames_unreachable : ∃ s, Reachable highMap s [] ∧ (k64PmmAllocFrame s).1 = 0 ∧
    (k64PmmAllocContiguous s 4).1 = 0 ∧
    ∀ f, 512 ≤ f → f < 516 → f ∈ highMap.mappedFrames ∧ f ∉ highMap.reservedFrames := by
  have hsound := sound_init (show highMap.magic = 0x2BADB002 from rfl)
  have hlimit : searchLimit (k64PmmInit highMap Pmm.unset) = 4 := by
    rw [searchLimit, hsound.total]
    decide +kernel
  have hfree : ∀ f < 4, testFrame (k64PmmInit highMap Pmm.unset) f = true := by
    intro f hf
    by_contra hc
    obtain ⟨-, hr, -⟩ := (hsound.clear f).mp (Bool.not_eq_true _ ▸ hc)
    have hlow : ∀ g < 4, g ∈ highMap.reservedFrames := by decide +kernel
    exact hr (hlow f hf)
  refine ⟨_, .init, ?_, ?_, highMap_frames⟩
  · rcases alloc_frame_cases hsound with ⟨hnull, -⟩ | ⟨k, -, -, hlow, -⟩
    · exact hnull
    · have hbelow := hlow.below
      have hclear := hlow.free k (Nat.le_refl k) (by omega)
      rw [hfree k (by omega)] at hclear
      cases hclear
  · rcases alloc_contiguous_cases hsound 4 with ⟨hnull, -⟩ | ⟨k, -, -, hlow, -⟩
    · exact hnull
    · have hbelow := hlow.below
      have hclear := hlow.free k (Nat.le_refl k) (by omega)
      rw [hfree k (by omega)] at hclear
      cases hclear

end PhysicalMemory
