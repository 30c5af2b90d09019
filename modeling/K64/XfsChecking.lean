import K64.XfsMounting
import K64.XfsLookup

/-! # The checker accepts every consistent volume

`k64_xfs_check` walks the used inodes and keeps a bitmap of the blocks it has seen. On a consistent
volume no block is met twice, so no error is counted. -/
namespace XfsChecking

open ByteCodec IoProgram XfsFormat XfsJournal XfsInode XfsCalls XfsLogicalDisk XfsVolume
  XfsVolumeRefinement XfsVolumeLifecycle XfsConsistency XfsLookup XfsMounting

variable {fs : Xfs} {d : Disk} {V : Volume} {c : Content} {sb : Superblock} {bitmap : XBlock}

/-- No error so far, the seen bits are those of the blocks in `S`, and the counts are `n`. -/
structure Clear (r : CheckReport) (S : List ℕ) (n : UInt32 × UInt64) : Prop where
  errors : r.errors = 0
  message : r.message = ""
  seen : ∀ b < 32768, xfsBitmapGet r.seen b = true ↔ b ∈ S
  counts : (r.usedInodes, r.usedBlocks) = n

/-- The used inodes up to `i`, and the blocks of their extents. -/
def counted (c : Content) : ℕ → UInt32 × UInt64
  | 0 => (0, 0)
  | i + 1 => if c.inodeUsed (i + 1) then ((counted c i).1 + 1,
      (Inode.extents (c.inode (i + 1))).foldl (fun n ex => n + ex.blockCount) (counted c i).2)
    else counted c i

/-- What the check reports of a consistent volume. -/
def cleanReport (c : Content) : CheckResult :=
  ⟨true, 0, (counted c 512).1, (counted c 512).2, c.freeBlocks, "K64XFS check: OK"⟩

variable {n : UInt32 × UInt64}

structure Reads (sb : Superblock) (bitmap : XBlock) (c : Content) : Prop where
  dataStart : sb.dataStart.toNat = 82
  total : sb.totalBlocks.toNat = c.total
  small : c.total ≤ 32768
  free : sb.freeBlocks = c.freeBlocks
  marked : ∀ b < c.total, xfsBitmapGet bitmap b = c.blockUsed b

theorem check_block (h : Reads sb bitmap c) {r : CheckReport} {S : List ℕ} {b : ℕ} (hr : Clear r S n)
    (hb : b < c.total) (hm : c.blockUsed b = true) (hn : b ∉ S) :
    Clear (checkBlock sb bitmap r b) (S ++ [b]) n := by
  have hsmall := h.small
  have hmod : b % 2 ^ 32 = b := Nat.mod_eq_of_lt (by omega)
  have hseen : xfsBitmapGet r.seen b = false := by
    by_contra hx
    exact hn ((hr.seen b (by omega)).mp (by simpa using hx))
  have hle : sb.totalBlocks.toNat ≤ 32768 := h.total ▸ h.small
  have heq : checkBlock sb bitmap r b = { r with seen := xfsBitmapSet r.seen b true } := by
    simp only [checkBlock, hmod, h.marked b hb, hm, hle, hseen, Bool.not_true, Bool.false_eq_true,
      if_false, and_false, if_true]
  rw [heq]
  refine ⟨hr.errors, hr.message, fun k hk => ?_, hr.counts⟩
  rw [show ({ r with seen := xfsBitmapSet r.seen b true } : CheckReport).seen =
    xfsBitmapSet r.seen b true from rfl, xfsBitmapGet_set _ _ hk, List.mem_append,
    List.mem_singleton]
  by_cases hbk : b = k
  · simp [hbk]
  · rw [if_neg hbk, hr.seen k hk]
    exact ⟨Or.inl, fun hx => hx.resolve_right fun hx => hbk hx.symm⟩

theorem check_blocks (h : Reads sb bitmap c) (blocks : List ℕ) : ∀ {r : CheckReport} {S : List ℕ},
    Clear r S n → (∀ b ∈ blocks, b < c.total ∧ c.blockUsed b = true) → (S ++ blocks).Nodup →
    Clear (blocks.foldl (checkBlock sb bitmap) r) (S ++ blocks) n := by
  induction blocks with
  | nil =>
    intro r S hr _ _
    simpa using hr
  | cons b rest ih =>
    intro r S hr hb hnd
    obtain ⟨hlt, hm⟩ := hb b (List.mem_cons_self ..)
    have hn : b ∉ S := by
      intro hx
      exact (List.nodup_append.mp hnd).2.2 b hx b (List.mem_cons_self ..) rfl
    have hstep := check_block h hr hlt hm hn
    have hrest := ih hstep (fun k hk => hb k (List.mem_cons_of_mem _ hk)) (by simpa using hnd)
    simpa using hrest

theorem check_extents (h : Reads sb bitmap c) (exts : List Extent) :
    ∀ {r : CheckReport} {S : List ℕ} {n : UInt32 × UInt64}, Clear r S n →
    (∀ ex ∈ exts, Extent.Fits c.total ex ∧ 0 < ex.blockCount.toNat) →
    (∀ b ∈ exts.flatMap Extent.blocks, c.blockUsed b = true) →
    (S ++ exts.flatMap Extent.blocks).Nodup →
    Clear (exts.foldl (checkExtent sb bitmap) r) (S ++ exts.flatMap Extent.blocks)
      (n.1, exts.foldl (fun n ex => n + ex.blockCount) n.2) := by
  have hsmall := h.small
  induction exts with
  | nil =>
    intro r S n hr _ _ _
    simpa using hr
  | cons ex rest ih =>
    intro r S n hr hfit hmark hnd
    obtain ⟨⟨h1, h2⟩, hpos⟩ := hfit ex (List.mem_cons_self ..)
    rw [List.flatMap_cons, ← List.append_assoc] at hnd ⊢
    have hin : ∀ b ∈ Extent.blocks ex, b < c.total ∧ c.blockUsed b = true := by
      intro b hb
      refine ⟨?_, hmark b (List.mem_flatMap.mpr ⟨ex, List.mem_cons_self .., hb⟩)⟩
      have := mem_extent_blocks.mp hb
      omega
    have hone := check_blocks h (Extent.blocks ex) hr hin hnd.of_append_left
    have heq : checkExtent sb bitmap r ex =
        { (Extent.blocks ex).foldl (checkBlock sb bitmap) r with
          usedBlocks := ((Extent.blocks ex).foldl (checkBlock sb bitmap) r).usedBlocks +
            ex.blockCount } := by
      unfold checkExtent
      rw [if_neg]
      · rfl
      · rw [h.dataStart, h.total]
        omega
    rw [List.foldl_cons, heq]
    obtain rfl := hone.counts
    exact ih (n := (_, _ + ex.blockCount)) ⟨hone.errors, hone.message, hone.seen, rfl⟩
      (fun x hx => hfit x (List.mem_cons_of_mem _ hx))
      (fun b hb => hmark b (by
        rw [List.flatMap_cons]
        exact List.mem_append_right _ hb)) hnd

/-- The blocks of the used inodes among `ids`. -/
def ownedBy (c : Content) (ids : List ℕ) : List ℕ :=
  ids.flatMap fun id => if c.inodeUsed id then Inode.blocks (c.inode id) else []

theorem mem_ownedBy {ids : List ℕ} {b : ℕ} : b ∈ ownedBy c ids ↔
    ∃ id ∈ ids, c.inodeUsed id = true ∧ b ∈ Inode.blocks (c.inode id) := by
  simp only [ownedBy, List.mem_flatMap]
  constructor
  · rintro ⟨id, hid, hb⟩
    split at hb
    · next hu => exact ⟨id, hid, hu, hb⟩
    · cases hb
  · rintro ⟨id, hid, hu, hb⟩
    exact ⟨id, hid, by rwa [if_pos hu]⟩

theorem ownedBy_succ (c : Content) (i : ℕ) : ownedBy c (List.range' 1 (i + 1)) =
    ownedBy c (List.range' 1 i) ++
      if c.inodeUsed (i + 1) then Inode.blocks (c.inode (i + 1)) else [] := by
  rw [ownedBy, List.range'_1_concat, List.flatMap_append, List.flatMap_singleton, Nat.add_comm 1 i]
  rfl

theorem nodup_ownedBy (h : Consistent c) : ∀ i ≤ 512, (ownedBy c (List.range' 1 i)).Nodup := by
  intro i
  induction i with
  | zero => exact fun _ => List.nodup_nil
  | succ i ih =>
    intro hi
    rw [ownedBy_succ]
    by_cases hu : c.inodeUsed (i + 1) = true
    · have hused : Used c (i + 1) := ⟨by omega, hi, hu⟩
      rw [if_pos hu, List.nodup_append]
      refine ⟨ih (by omega), (h.shape _ hused).disjoint, ?_⟩
      rintro b hb _ hb' rfl
      obtain ⟨id, hid, hu', hb⟩ := mem_ownedBy.mp hb
      obtain ⟨h1, h2⟩ := List.mem_range'_1.mp hid
      have := h.owner id (i + 1) ⟨h1, by omega, hu'⟩ hused b hb hb'
      omega
    · rw [if_neg hu, List.append_nil]
      exact ih (by omega)

theorem check_inodes {inodeBitmap : XBlock} (h : Consistent V.content)
    (hreads : Reads sb bitmap V.content)
    (hbit : ∀ i < 512, xfsBitmapGet inodeBitmap i = V.content.inodeUsed (i + 1)) :
    ∀ n i {fs : Xfs} {d : Disk} {r : CheckReport}, i + n = 512 → Shows fs d V →
    Clear r (ownedBy V.content (List.range' 1 i)) (counted V.content i) →
    dwp (checkInodes sb inodeBitmap bitmap i n r) (fun r' fs' d' => Shows fs' d' V ∧
      ∃ res S, r' = some res ∧ Clear res S (counted V.content 512)) fs d := by
  intro n
  induction n with
  | zero =>
    intro i fs d r hi hs hr
    obtain rfl : i = 512 := hi
    exact ⟨hs, r, _, rfl, hr⟩
  | succ n ih =>
    intro i fs d r hi hs hr
    have hnd := nodup_ownedBy h (i + 1) (by omega)
    rw [checkInodes, hbit i (by omega)]
    have hsucc := ownedBy_succ V.content i
    by_cases hu : V.content.inodeUsed (i + 1) = true
    · have hused : Used V.content (i + 1) := ⟨by omega, by omega, hu⟩
      have htoNat : (UInt32.ofNat (i + 1)).toNat = i + 1 := by
        rw [UInt32.toNat_ofNat']
        omega
      have hrec : V.content.record (UInt32.ofNat (i + 1)) = some (V.content.inode (i + 1)) := by
        have := record_used h.toAllocated (i := UInt32.ofNat (i + 1)) (htoNat.symm ▸ hused)
        rwa [htoNat] at this
      have hshape := h.shape _ hused
      rw [if_pos hu] at hsucc
      rw [hsucc] at hnd
      rw [hu, if_neg (by decide), dwp, Proc.wp_bind]
      refine Proc.wp_mono (read_inode_realised (UInt32.ofNat (i + 1)) fs d V hs trivial) ?_
      rintro ans fs' d' ⟨rfl, hs'⟩
      rw [show (volume (Call.readInode (UInt32.ofNat (i + 1))) V).1 =
        V.content.record (UInt32.ofNat (i + 1)) from rfl, hrec, Proc.wpNext_some]
      refine ih (i + 1) (by omega) hs' ?_
      have hfields : ∀ r : CheckReport, checkFields r (V.content.inode (i + 1)) = r := by
        intro r
        unfold checkFields
        rw [if_neg]
        rintro (hx | hx | hx)
        · rcases hshape.kind with hk | hk <;> rw [hk] at hx <;> exact absurd hx (by decide)
        · rcases hshape.kind with hk | hk <;> rw [hk] at hx <;> exact absurd hx (by decide)
        · exact absurd hshape.few (by omega)
      have hcounts := hr.counts
      rw [hfields, hsucc, counted, if_pos hu, ← hcounts]
      refine check_extents hreads _ (n := (r.usedInodes + 1, r.usedBlocks))
        ⟨hr.errors, hr.message, hr.seen, rfl⟩
        (fun ex hex => ⟨h.fits _ hused.pos hused.le ex hex, hshape.nonempty ex hex⟩)
        (h.marked _ hused) hnd
    · rw [Bool.not_eq_true] at hu
      rw [hu, if_pos (by decide)]
      refine ih (i + 1) (by omega) hs ?_
      rw [hsucc, counted, hu, if_neg (by decide), if_neg (by decide), List.append_nil]
      exact hr

theorem check_free (hreads : Reads sb bitmap c) (h : Consistent c) :
    UInt64.ofNat (bitmapFree sb bitmap) = sb.freeBlocks := by
  have hcount : bitmapFree sb bitmap = spare c := by
    unfold bitmapFree spare
    rw [hreads.dataStart, hreads.total]
    refine List.countP_congr fun b hb => ?_
    obtain ⟨h1, h2⟩ := List.mem_range'_1.mp hb
    have hsmall := hreads.small
    rw [Nat.mod_eq_of_lt (show b < 2 ^ 32 by omega), hreads.marked b (by omega)]
  rw [hcount, ← h.free, hreads.free]
  simp

theorem check_disk (h : Consistent V.content) (hs : Shows fs d V) (hm : V.mounted = true) :
    dwp k64XfsCheck (fun r fs' d' => Shows fs' d' V ∧ r = some (cleanReport V.content)) fs d := by
  have hsize := hs.stores.size_eq
  have hlarge := hs.stores.large
  have hsuper : checkSuper fs = true := by
    have hdata : fs.super.dataStart < fs.super.totalBlocks := by
      rw [hs.layout.dataStart, UInt64.lt_iff_toNat_lt, hs.total]
      exact Nat.lt_of_lt_of_le (by decide) hlarge
    simp [checkSuper, hs.mounted, hm, hs.layout.magic, hs.layout.blockSize, hs.layout.rootInode,
      hdata]
  have hreads : Reads fs.super (d.blk 2) V.content :=
    ⟨hs.layout.toNat_dataStart, hs.total, hs.stores.small, hs.free, hs.stores.blockUsed⟩
  have hbit : ∀ i < 512, xfsBitmapGet (d.blk 1) i = V.content.inodeUsed (i + 1) :=
    fun i hi => hs.stores.inodeUsed (i + 1) (by omega) (by omega)
  have h1 : fs.super.inodeBitmapStart.toNat = 1 := by rw [hs.layout.inodeBitmapStart]; rfl
  have h2 : fs.super.blockBitmapStart.toNat = 2 := by rw [hs.layout.blockBitmapStart]; rfl
  rw [dwp, k64XfsCheck, Proc.wp_bind, Proc.wp_load, Proc.wpNext_some, hsuper]
  simp only [Bool.not_true, Bool.false_eq_true, if_false, Proc.wp_bind, Proc.wp_attempt, readBitmaps,
    xfsBlockRead, h1, h2]
  refine Proc.wp_mono (cache_read_disk (by omega) (by decide)) ?_
  rintro r fs' d' ⟨rfl, rfl, rfl⟩
  simp only [Proc.wpNext_some, Proc.wp_bind]
  refine Proc.wp_mono (cache_read_disk (by omega) (by decide)) ?_
  rintro r fs' d' ⟨rfl, rfl, rfl⟩
  simp only [Proc.wpNext_some, Proc.wp_pure, Proc.wp_bind, checkRoot]
  refine Proc.wp_mono (read_inode_realised fs'.super.rootInode fs' d' V hs trivial) ?_
  rintro ans fs'' d'' ⟨rfl, hs'⟩
  have hroot : (volume (Call.readInode fs'.super.rootInode) V).1 = some (V.content.inode 1) := by
    change V.content.record fs'.super.rootInode = _
    rw [hs.layout.rootInode]
    exact record_used h.toAllocated (i := 1) h.rootInUse
  rw [hroot]
  simp only [Proc.wpNext_some, Proc.wp_pure, h.rootDir, ne_eq, not_true_eq_false, if_false,
    Proc.wp_bind]
  have hclear : Clear ⟨0, 0, 0, "", Block.zero⟩ (ownedBy V.content (List.range' 1 0))
      (counted V.content 0) := ⟨rfl, rfl, fun b _ => by simp [ownedBy], rfl⟩
  refine Proc.wp_mono (check_inodes h hreads hbit 512 0 rfl hs' hclear) ?_
  rintro ans fs₃ d₃ ⟨hs₃, res, S, rfl, hclear⟩
  simp only [Proc.wpNext_some, Proc.wp_pure, checkFinish, check_free hreads h, ne_eq,
    not_true_eq_false, if_false]
  refine ⟨hs₃, congrArg some ?_⟩
  rw [cleanReport, ← hclear.counts, hclear.errors, ← hreads.free]
  rfl

theorem check_unmounted (hm : fs.mounted = false) :
    dwp k64XfsCheck (fun r fs' d' => r = some (CheckResult.bad "bad superblock") ∧ fs' = fs ∧
      d' = d) fs d := by
  simp [dwp, k64XfsCheck, checkSuper, hm]

end XfsChecking
