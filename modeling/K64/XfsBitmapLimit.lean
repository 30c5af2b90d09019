import K64.XfsBitmapIndices

/-! # The bitmap block and its 32768 bits

The bitmap of the blocks is one block long. Up to 32768 blocks no index leaves it; on a larger volume
`k64_xfs_check` passes 32768 right after the mount. -/
namespace XfsBitmapLimit

open IoProgram IoContract XfsFormat XfsCache XfsJournal XfsInode XfsLogicalDisk XfsVolumeRefinement
  XfsVolumeLifecycle XfsMounting XfsFormatting XfsSystem XfsRuns XfsExtentSafety XfsMountSafety
  XfsBitmapIndices

variable {fs : Xfs} {d : Disk} {m : Machine} {dev : Geometry} {sb : Superblock} {s t : System}
  {label : CString}

theorem mount_any (hsector : WholeSectors dev)
    (hf : d.flushed = true) (hsuper : superOn d = Superblock.sealed sb) (hl : Layout sb)
    (hstate : sb.mountState = mountClean) (ht : sb.totalBlocks.toNat = xfsFsBlocks dev)
    (h84 : 84 ≤ xfsFsBlocks dev) (hsize : 0 < d.size) (fs : Xfs) :
    dwp (k64XfsMount dev) (fun r _ _ => r = some ()) fs d := by
  have haccept : superAccepted dev (Superblock.sealed sb) = true :=
    super_accepted hl (Nat.le_of_eq ht) (ht ▸ h84)
  have hclean : needsRecovery (Superblock.sealed sb) = false := by
    change (sb.mountState == mountDirty || sb.mountState == mountNeedsRecovery) = false
    rw [hstate]
    decide
  have hblock : (d.blk 0).record superblockCodec 0 = Superblock.sealed sb := hsuper
  simp only [dwp, k64XfsMount, mountSuper, Proc.wp_bind, Proc.wp_guard, hsector, if_true,
    Proc.wpNext_some, Proc.wp_update, cacheInit, Proc.wp_request]
  refine ⟨hf, Proc.wp_mono (block_read_tmp (d := d) hsize (by decide)) ?_⟩
  intro r fs' d' hread
  obtain ⟨hr, hfs, hd⟩ := hread
  subst hr hfs hd
  simp only [Proc.wpNext_some, Proc.wp_bind, Proc.wp_guard, hblock, haccept, if_true,
    Proc.wp_update, Proc.wp_pure, hclean, Bool.false_eq_true, if_false, wp_writeSuper]
  refine Proc.wp_mono (P := fun r _ d' => r = some ()) ?_ ?_
  · simp [xfsBlockWrite, Xfs.withState, Xfs.cleared, cacheWrite, diskGuard, disk, hsize,
      journalArea]
  · rintro r fs' d' rfl
    simp [cacheFlush, diskGuard, disk]

theorem fresh_any (label : CString) (hok : xfsDevOk (System.geometry s) = true)
    (hlow : 83 < xfsFsBlocks (System.geometry s))
    (hhigh : xfsFsBlocks (System.geometry s) ≤ 2 ^ 32 - 1)
    (hf : ∀ i, s.machine.dev.faults i = false)
    (ht : t = ((s.call (k64XfsFormat (System.geometry s) label)).2.call
      (k64XfsMount (System.geometry s))).2) :
    FreshMount label s t ∧ ∃ d, Represents journalArea t.machine d ∧
      d.size = xfsFsBlocks (System.geometry s) := by
  obtain ⟨hdone, d₁, hr₁, hfb⟩ := format_represents label hok hlow hhigh hf
  have hfresh := represents_fresh hr₁ hfb.flushed journalArea
  have hsector := sector_of_ok hok
  have hlayout : Layout (Superblock.sealed
      (formatSuper (xfsFsBlocks (System.geometry s)) label.bytes)) :=
    (layout_formatSuper _ label.bytes).update _ _ _ _
  have hsize : d₁.size = xfsFsBlocks (System.geometry s) := hfb.size
  have htotal : (UInt64.ofNat (xfsFsBlocks (System.geometry s))).toNat =
      xfsFsBlocks (System.geometry s) := UInt64.toNat_ofNat'.trans (Nat.mod_eq_of_lt (by omega))
  have hmountable : ∀ raws fs, dwp (k64XfsMount (System.geometry s)) (fun r _ _ => r = some ()) fs
      { d₁ with raws } := fun raws fs =>
    mount_any (d := { d₁ with raws }) hsector hfb.flushed hfb.super hlayout rfl htotal hlow (by
      change 0 < d₁.size
      omega) fs
  obtain ⟨d₂, hsize₂, hr₂, hsome⟩ := call_of_wp
    (s := ⟨(s.call (k64XfsFormat (System.geometry s) label)).2.fs, _⟩) hfresh (hmountable _ _)
  have hmount := call_mount hsector (s.call (k64XfsFormat (System.geometry s) label)).2
  rw [ht]
  refine ⟨⟨?_, ?_, rfl⟩, d₂, ?_, hsize₂.trans hsize⟩
  · rw [hdone]
    rfl
  · rw [hmount]
    exact Option.isSome_iff_exists.mpr ⟨_, hsome⟩
  · rw [hmount]
    exact hr₂

theorem inodeIndices_answers (sb : Superblock) (inodeBitmap : XBlock) (n : ℕ) : ∀ i fs m,
    mwp (inodeIndices sb inodeBitmap i n) (fun r _ _ => r.isSome = true) fs m := by
  induction n with
  | zero => exact fun _ _ _ => rfl
  | succ n ih =>
    intro i fs m
    rw [mwp, inodeIndices]
    split
    · exact ih (i + 1) fs m
    · rw [Proc.wp_bind, Proc.wp_attempt]
      refine Proc.wp_any fun o fs' m' => ?_
      rw [Proc.wpNext_some]
      cases o with
      | none => exact ih (i + 1) fs' m'
      | some inode =>
        rw [Proc.wp_bind]
        refine Proc.wp_mono (ih (i + 1) fs' m') fun r fs'' m'' hr => ?_
        obtain ⟨rest, rfl⟩ := Option.isSome_iff_exists.mp hr
        rfl

theorem checkRoot_answers (sb : Superblock) (fs : Xfs) (m : Machine) :
    mwp (checkRoot sb) (fun r _ _ => r.isSome = true) fs m := by
  rw [mwp, checkRoot, Proc.wp_bind, Proc.wp_attempt]
  refine Proc.wp_any fun o fs' m' => ?_
  rw [Proc.wpNext_some]
  cases o with
  | none => rfl
  | some root => rfl

theorem readBitmaps_answers {total : ℕ} (hr : Represents journalArea m d) (hp : Placed total fs)
    (hsize : 2 < d.size) : mwp (readBitmaps fs.super) (fun r _ _ => r.isSome = true) fs m := by
  have hread : dwp (readBitmaps fs.super) (fun r _ _ => r.isSome = true) fs d := by
    have h1 : 1 < d.size := Nat.lt_of_succ_lt hsize
    simp [dwp, readBitmaps, hp.layout.inodeBitmapStart, hp.layout.blockBitmapStart, xfsBlockRead,
      cacheRead, diskGuard, disk, journalArea, h1, hsize]
  refine Proc.wp_mono (Proc.wp_sim (D := fun _ _ => True)
    (fun q s t hs hc => ⟨trivial, request_simulates q s t hs hc⟩) hr hread) ?_
  rintro r fs' m' ⟨d', -, hsome⟩
  exact hsome

theorem check_passes {total : ℕ} (hr : Represents journalArea s.machine d) (hp : Placed total s.fs)
    (hsize : 2 < d.size) (hlarge : 32768 < total) : 32768 ∈ PublicCall.indices s .check := by
  have hsuper : checkSuper s.fs = true := by
    have hdata : s.fs.super.dataStart < s.fs.super.totalBlocks := by
      rw [hp.layout.dataStart, UInt64.lt_iff_toNat_lt, hp.total]
      exact Nat.lt_trans (by decide) hlarge
    simp [checkSuper, hp.mounted, hp.layout.magic, hp.layout.blockSize, hp.layout.rootInode, hdata]
  have hcount : 32768 ∈ countIndices s.fs.super := by
    refine List.mem_map.mpr ⟨32768, List.mem_range'_1.mpr ?_, rfl⟩
    rw [data_end hp (by omega), hp.layout.dataStart]
    exact ⟨by decide, hlarge⟩
  have hcheck : mwp checkIndices (fun r _ _ => ∃ l, r = some l ∧ 32768 ∈ l) s.fs s.machine := by
    rw [mwp, checkIndices, Proc.wp_bind, Proc.wp_load, Proc.wpNext_some, hsuper]
    simp only [Bool.not_true, Bool.false_eq_true, if_false]
    rw [Proc.wp_bind, Proc.wp_attempt]
    refine Proc.wp_mono (readBitmaps_answers hr hp hsize) fun r fs₁ m₁ hbitmaps => ?_
    obtain ⟨bitmaps, rfl⟩ := Option.isSome_iff_exists.mp hbitmaps
    rw [Proc.wpNext_some, Proc.wp_bind]
    refine Proc.wp_mono (checkRoot_answers _ fs₁ m₁) fun r fs₂ m₂ hroot => ?_
    obtain ⟨_, rfl⟩ := Option.isSome_iff_exists.mp hroot
    rw [Proc.wpNext_some, Proc.wp_bind]
    refine Proc.wp_mono (inodeIndices_answers _ _ _ _ fs₂ m₂) fun r fs₃ m₃ hvisited => ?_
    obtain ⟨visited, rfl⟩ := Option.isSome_iff_exists.mp hvisited
    exact ⟨_, rfl, List.mem_append_right _ hcount⟩
  obtain ⟨l, hl, hmem⟩ := Proc.wp_exec hcheck
  have hanswer : (s.call checkIndices).1 = some l := hl
  rw [PublicCall.indices, hanswer]
  exact hmem

/-- Whatever fails, no index that is passed leaves the bitmap block as long as there are at most 32768
blocks. Beyond that, the checker leaves it on every device that does not fail. -/
theorem bitmap_indices_inside (hfresh : FreshMount label s t) :
    (xfsFsBlocks (System.geometry s) ≤ 32768 → ∀ calls u, Run (System.geometry s) t calls u →
      ∀ call, ∀ i ∈ PublicCall.indices u call, i < 32768) ∧
    ((∀ i, s.machine.dev.faults i = false) → 32768 < xfsFsBlocks (System.geometry s) →
      32768 ∈ PublicCall.indices t .check) := by
  obtain ⟨hok, hbounds⟩ := format_accepts hfresh.formatted
  rw [show xfsDataStart = 82 from rfl, Bool.and_eq_true, decide_eq_true_eq,
    decide_eq_true_eq] at hbounds
  obtain ⟨hsteady, hmounted⟩ := fresh_steady hfresh
  constructor
  · intro hsmall calls u hrun call i hi
    have hbelow := indices_below (by omega) (run_steady hrun hsteady) call i hi
    exact Nat.lt_of_lt_of_le hbelow hsmall
  · intro hf hlarge
    obtain ⟨-, d, hr, hsize⟩ := fresh_any label hok hbounds.1 hbounds.2 hf hfresh.result
    exact check_passes hr (hsteady.placed hmounted) (by omega) hlarge

theorem small_indices_inside : xfsFsBlocks (System.geometry (blankSystem smallDevice)) ≤ 32768 ∧
    ∀ calls u, Run (System.geometry (blankSystem smallDevice)) (freshSystem smallDevice) calls u →
      ∀ call, ∀ i ∈ PublicCall.indices u call, i < 32768 :=
  ⟨by decide, (bitmap_indices_inside fresh_smallDevice).1 (by decide)⟩

def largeDevice : Device := { smallDevice with blockCount := 262152 }

theorem large_index_outside : ¬ ∀ (label : CString) (s t : System), FreshMount label s t →
    ∀ calls u, Run (System.geometry s) t calls u → ∀ call, ∀ i ∈ PublicCall.indices u call,
      i < 32768 := by
  intro h
  obtain ⟨hfresh, d, hr, hsize⟩ := fresh_any (s := blankSystem largeDevice)
    (t := freshSystem largeDevice) ⟨[], by simp⟩ (by decide) (by decide) (by decide) (fun _ => rfl)
    rfl
  obtain ⟨hsteady, hmounted⟩ := fresh_steady hfresh
  have hlarge : 32768 < xfsFsBlocks (System.geometry (blankSystem largeDevice)) := by decide
  have hpasses := check_passes hr (hsteady.placed hmounted) (by omega) hlarge
  have hinside := h _ _ _ hfresh [] _ (Run.nil _) .check 32768 hpasses
  exact absurd hinside (Nat.lt_irrefl _)

end XfsBitmapLimit
