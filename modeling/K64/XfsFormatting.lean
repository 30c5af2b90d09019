import K64.XfsMounting
import K64.XfsContentChanges

/-! # Formatting

`k64_xfs_format` leaves a volume whose only inode is the root directory, with one empty block. The
cache is its own and is written back at the end, so the device holds all of it. -/
namespace XfsFormatting

open ByteCodec IoProgram XfsFormat XfsCache XfsJournal XfsInode XfsDirectory XfsLogicalDisk
  XfsVolume XfsVolumeRefinement XfsVolumeLifecycle XfsConsistency XfsContentChanges XfsMounting

variable {fs : Xfs} {d : Disk} {m : Machine}

/-- A volume with nothing but the root directory; `data` is what the device holds elsewhere. -/
def formatted (total : ℕ) (data : ℕ → XBlock) : Content where
  total := total
  freeBlocks := UInt64.ofNat (total - 83)
  inodeUsed id := id == 1
  blockUsed b := b < 83
  inode id := if id = 1 then Inode.sealed formatRoot else Inode.zero
  data b := if b = 82 then Block.zero else data b

theorem formatRoot_eq : formatRoot = Inode.withBlock { Inode.zero with
    magic := inodeMagic
    inodeId := 1
    type := typeDirectory
    mode := 0o40755
    linkCount := 1
    createdTick := 1
    modifiedTick := 1
    accessedTick := 1
    generation := 1 } 82 := rfl

theorem extents_formatRoot : Inode.extents (Inode.sealed formatRoot) = [singleExtent 82 1] :=
  extents_single (i := Inode.sealed formatRoot) rfl rfl

theorem shape_formatRoot : InodeShape formatRoot := by
  rw [formatRoot_eq]
  exact shape_withBlock (by decide) rfl

theorem alike_sealed (i : Inode) : Alike (Inode.sealed i) i := ⟨rfl, rfl, rfl, rfl, rfl, rfl⟩

variable {total : ℕ}

theorem used_formatted {id : ℕ} {data : ℕ → XBlock} (h : Used (formatted total data) id) :
    id = 1 := by simpa [formatted] using h.bit

theorem spare_formatted (data : ℕ → XBlock) (h : 84 ≤ total) :
    spare (formatted total data) = total - 83 := by
  have hsplit : List.range' 82 (total - 82) = 82 :: List.range' 83 (total - 83) := by
    rw [show total - 82 = (total - 83) + 1 by omega, List.range'_succ]
  have hrest : (List.range' 83 (total - 83)).countP
      (fun b => !(formatted total data).blockUsed b) = total - 83 := by
    rw [List.countP_eq_length.mpr, List.length_range']
    intro b hb
    have := List.mem_range'_1.mp hb
    simp only [formatted, Bool.not_eq_true', decide_eq_false_iff_not]
    omega
  rw [spare, show (formatted total data).total = total from rfl, hsplit,
    List.countP_cons_of_neg (by simp [formatted]), hrest]

theorem inode_formatted (total : ℕ) (data : ℕ → XBlock) :
    (formatted total data).inode 1 = Inode.sealed formatRoot := by simp [formatted]

theorem lookup_formatRoot : Inode.lookup (Inode.sealed formatRoot) 0 = some 82 :=
  lookup_single (by decide) extents_formatRoot 0

theorem formatted_empty {data : ℕ → XBlock} (dir b s : ℕ) (e : Dirent) :
    ¬ Live (formatted total data) dir b s e := by
  intro hl
  have hone := inode_formatted total data
  have hdir := used_formatted hl.used
  subst hdir
  have hb : b < 1 := by have := hl.block; rwa [hone] at this
  have hentry := hl.entry
  rw [Nat.lt_one_iff.mp hb, hone, Content.dataOf, lookup_formatRoot] at hentry
  refine hl.id ?_
  rw [← hentry]
  exact dirent_zero s

theorem formatted_consistent (data : ℕ → XBlock) (h84 : 84 ≤ total)
    (hsmall : total ≤ 32768) : Consistent (formatted total data) := by
  have hone := inode_formatted total data
  have hbl : Inode.blocks (Inode.sealed formatRoot) = List.range' 82 1 :=
    blocks_single (by decide) extents_formatRoot
  refine ⟨⟨h84, hsmall, ?_, rfl, ?_, ?_, ?_, ?_, ?_, ?_⟩, ⟨?_, ?_, ?_⟩⟩
  · rw [spare_formatted data h84]
    exact (UInt64.toNat_ofNat' (n := total - 83)).trans (Nat.mod_eq_of_lt (by omega))
  · rw [hone]; rfl
  · intro id _ _
    by_cases hid : id = 1
    · subst hid
      rw [hone]
      intro ex hex
      rw [extents_formatRoot, List.mem_singleton] at hex
      obtain ⟨hp, hc, -⟩ := toNat_singleExtent (show 82 + 1 < 2 ^ 64 by decide)
      rw [hex]
      refine ⟨by rw [hp], ?_⟩
      rw [hp, hc]
      exact Nat.le_of_lt h84
    · have hzero : (formatted total data).inode id = Inode.zero := if_neg hid
      rw [hzero]
      exact fits_empty rfl
  · intro id hu
    rw [used_formatted hu, hone]
    exact inode_valid_sealed rfl
  · intro id hu
    rw [used_formatted hu, hone]
    exact (alike_sealed formatRoot).shape shape_formatRoot
  · intro id hu b hb
    rw [used_formatted hu, hone, hbl] at hb
    have := List.mem_range'_1.mp hb
    simp only [formatted, decide_eq_true_eq]
    omega
  · intro id id' hu hu' _ _ _
    rw [used_formatted hu, used_formatted hu']
  · exact fun dir b s e hl => absurd hl (formatted_empty dir b s e)
  · exact fun dir b s e _ _ _ _ hl => absurd hl (formatted_empty dir b s e)
  · exact fun dir b s e _ _ _ hl => absurd hl (formatted_empty dir b s e)

def noRaw (_ : ℕ) : Bool := false

abbrev fwp {α : Type} (f : XfsM α) (P : Option α → Xfs → Disk → Prop) (fs : Xfs) (d : Disk) :
    Prop := Proc.wp disk (diskGuard noRaw) f P fs d

theorem block_write_plain (ha : fs.journalActive = false) {n : ℕ} (hn : n < d.size) (b : XBlock) :
    fwp (xfsBlockWrite n b)
      (fun r fs' d' => r = some () ∧ fs' = fs ∧ d' = Disk.cached d n b) fs d := by
  simp [fwp, xfsBlockWrite, ha, cacheWrite, diskGuard, disk, hn, noRaw, Disk.cached]

theorem clear_blocks (ha : fs.journalActive = false) {k : ℕ} (hk : k ≤ d.size) :
    fwp (Proc.loop (fun b => xfsBlockWrite b Block.zero) 0 k)
      (fun r fs' d' => r = some () ∧ fs' = fs ∧ d'.size = d.size ∧
        ∀ n, d'.blk n = if n < k then Block.zero else d.blk n) fs d := by
  have hloop := Proc.wp_loop (h := disk) (C := diskGuard noRaw)
    (f := fun b => xfsBlockWrite b Block.zero) (F := fun _ _ => False)
    (I := fun i fs' d' => fs' = fs ∧ d'.size = d.size ∧
      ∀ n, d'.blk n = if n < i then Block.zero else d.blk n) k 0 fs d ⟨rfl, rfl, by simp⟩ ?_
  · refine Proc.wp_mono hloop ?_
    rintro r fs' d' hpost
    cases r with
    | none => simp at hpost
    | some _ => simpa using hpost
  · rintro j fs' d' - hj ⟨rfl, hsize, hblk⟩
    refine Proc.wp_mono (block_write_plain ha (by omega) Block.zero) ?_
    rintro r fs'' d'' ⟨rfl, rfl, rfl⟩
    refine ⟨rfl, hsize, fun n => ?_⟩
    change Function.update d'.blk j Block.zero n = _
    by_cases hnj : n = j
    · simp [hnj]
    · rw [Function.update_of_ne hnj, hblk]
      have : n < j ↔ n < j + 1 := by omega
      simp only [this]

def rootBlock : XBlock := Block.zero.setRecord inodeCodec 0 (Inode.sealed formatRoot)

theorem write_root_inode (ha : fs.journalActive = false) (ht : fs.super.inodeTableStart = 35)
    (hn : 35 < d.size) (hz : d.blk 35 = Block.zero) :
    fwp (xfsWriteInode formatRoot)
      (fun r fs' d' => r = some () ∧ fs' = fs.withTmp rootBlock ∧
        d' = Disk.cached d 35 rootBlock) fs d := by
  have hblock : inodeBlock fs.super formatRoot.inodeId = 35 := by
    unfold inodeBlock
    rw [ht]
    rfl
  have hroot : Block.zero.setRecord inodeCodec (inodeOffset formatRoot.inodeId)
      (Inode.sealed formatRoot) = rootBlock := by
    rw [rootBlock, show inodeOffset formatRoot.inodeId = 0 from rfl]
  have hguard : (formatRoot.inodeId != 0 && decide (formatRoot.inodeId.toNat ≤ 512)) = true := rfl
  simp only [fwp, xfsWriteInode, Proc.wp_bind, Proc.wp_guard, hguard, if_true, Proc.wpNext_some,
    Proc.wp_load, hblock]
  refine Proc.wp_mono (block_read_tmp hn (show noRaw 35 = false from rfl)) ?_
  rintro r fs' d' ⟨rfl, rfl, rfl⟩
  simp only [Proc.wpNext_some, Proc.wp_bind, setTmp, Proc.wp_update, hz, hroot,
    Xfs.withTmp_withTmp]
  exact block_write_plain ((Xfs.journalActive_withTmp fs rootBlock).trans ha) hn rootBlock

/-- The blocks of a freshly formatted volume with the superblock `sb`, over what the device held
before. -/
structure FormattedBlocks (sb : Superblock) (before after : Disk) : Prop where
  size : after.size = before.size
  flushed : after.flushed = true
  super : superOn after = Superblock.sealed sb
  inodeBitmap : after.blk 1 = xfsBitmapSet Block.zero 0 true
  blockBitmap : after.blk 2 = setRun Block.zero 0 83
  root : after.blk 35 = rootBlock
  cleared : ∀ n, 3 ≤ n → n ≠ 35 → after.blk n = if n < 83 then Block.zero else before.blk n

variable {before : Disk}

theorem format_writes {sb : Superblock} (ha : fs.journalActive = false)
    (h1 : sb.inodeBitmapStart = 1) (h2 : sb.blockBitmapStart = 2) (h35 : sb.inodeTableStart = 35)
    (hn : 83 < d.size) (hsize : d.size = before.size)
    (hblk : ∀ n, d.blk n = if n < 83 then Block.zero else before.blk n) :
    fwp (do
      Proc.update fun fs => { fs with super := sb }
      setTmp (xfsBitmapSet Block.zero 0 true)
      xfsBlockWrite sb.inodeBitmapStart.toNat (xfsBitmapSet Block.zero 0 true)
      setTmp (setRun Block.zero 0 83)
      xfsBlockWrite sb.blockBitmapStart.toNat (setRun Block.zero 0 83)
      xfsWriteInode formatRoot
      setTmp Block.zero
      xfsBlockWrite 82 Block.zero
      xfsWriteSuper
      cacheFlush) (fun r _ d' => r = some () ∧ FormattedBlocks sb before d') fs d := by
  have hplain : ∀ b, (Xfs.withTmp { fs with super := sb } b).journalActive = false :=
    fun b => (Xfs.journalActive_withTmp _ b).trans ha
  have hone : sb.inodeBitmapStart.toNat = 1 := by rw [h1]; rfl
  have htwo : sb.blockBitmapStart.toNat = 2 := by rw [h2]; rfl
  simp only [fwp, Proc.wp_bind, Proc.wp_update, setTmp, Proc.wpNext_some, hone, htwo]
  refine Proc.wp_mono (block_write_plain ?_ ?_ _) ?_
  · exact hplain _
  · omega
  rintro r fs₁ d₁ ⟨rfl, rfl, rfl⟩
  simp only [Proc.wpNext_some, Proc.wp_bind, Proc.wp_update, Xfs.withTmp_withTmp]
  refine Proc.wp_mono (block_write_plain ?_ ?_ _) ?_
  · exact hplain _
  · exact Nat.lt_trans (by decide) hn
  rintro r fs₂ d₂ ⟨rfl, rfl, rfl⟩
  rw [Proc.wpNext_some, Proc.wp_bind]
  refine Proc.wp_mono (write_root_inode ?_ ?_ ?_ ?_) ?_
  · exact hplain _
  · rw [Xfs.super_withTmp]
    exact h35
  · exact Nat.lt_trans (by decide) hn
  · simp [Disk.cached, hblk]
  rintro r fs₃ d₃ ⟨rfl, rfl, rfl⟩
  simp only [Proc.wpNext_some, Proc.wp_bind, Proc.wp_update, Xfs.withTmp_withTmp]
  refine Proc.wp_mono (block_write_plain ?_ ?_ _) ?_
  · exact hplain _
  · exact Nat.lt_trans (by decide) hn
  rintro r fs₄ d₄ ⟨rfl, rfl, rfl⟩
  rw [Proc.wpNext_some, Proc.wp_bind, wp_writeSuper]
  refine Proc.wp_mono (block_write_plain ?_ ?_ _) ?_
  · exact hplain _
  · exact Nat.lt_trans (by decide) hn
  rintro r fs₅ d₅ ⟨rfl, rfl, rfl⟩
  simp only [Proc.wpNext_some, cacheFlush, Proc.wp_bind, Proc.wp_request, diskGuard, disk,
    Proc.wp_guard, if_true, true_and]
  refine ⟨hsize, rfl, ?_, ?_, ?_, ?_, fun n h3 hne => ?_⟩
  · simp only [superOn, Disk.cached, Function.update_self, record_superBlock,
      Xfs.super_withTmp]
  · simp [Disk.cached]
  · simp [Disk.cached]
  · simp [Disk.cached]
  · by_cases h82 : n = 82
    · simp [Disk.cached, h82]
    · simp [Disk.cached, h82, hne, hblk, show n ≠ 0 by omega, show n ≠ 1 by omega,
        show n ≠ 2 by omega]

variable {dev : Geometry}

theorem format_disk {f : Xfs} (label : CString) (hok : xfsDevOk dev = true)
    (hlow : 83 < xfsFsBlocks dev) (hhigh : xfsFsBlocks dev ≤ 2 ^ 32 - 1) (hf : d.flushed = true)
    (hsize : xfsFsBlocks dev ≤ d.size) :
    fwp (k64XfsFormat dev label)
      (fun r _ d' => r = some () ∧ FormattedBlocks
        (Superblock.sealed (formatSuper (xfsFsBlocks dev) label.bytes)) d d') f d := by
  have hstart : xfsDataStart = 82 := rfl
  have hbounds : (decide (xfsDataStart + 1 < xfsFsBlocks dev) &&
      decide (xfsFsBlocks dev ≤ 2 ^ 32 - 1)) = true := by
    rw [hstart]
    simpa [hlow] using hhigh
  simp only [fwp, k64XfsFormat, Proc.wp_bind, Proc.wp_guard, hok, hbounds, if_true,
    Proc.wpNext_some, Proc.wp_update, cacheInit, Proc.wp_request]
  refine ⟨hf, Proc.wp_mono (clear_blocks (d := d) (k := 83) rfl (by omega)) ?_⟩
  rintro r fs₁ d₁ ⟨rfl, rfl, hsize₁, hblk₁⟩
  rw [Proc.wpNext_some]
  exact format_writes rfl rfl rfl rfl (by omega) hsize₁ hblk₁

theorem encode_zero_inode : inodeCodec.encode Inode.zero = List.replicate 372 0 := by decide +kernel

theorem record_zero_block (off : ℕ) :
    (Block.zero : XBlock).record inodeCodec off = Inode.zero := by
  rw [Block.record, Block.read_zero, size_inodeCodec, ← encode_zero_inode, Codec.decode_encode]

theorem record_rootBlock {off : ℕ} (h : 372 ≤ off) :
    rootBlock.record inodeCodec off = Inode.zero := by
  rw [rootBlock, Block.record_setRecord_disjoint _ _ _ _ _ _ (Or.inr (by simpa using h)),
    record_zero_block]

theorem layout_formatSuper (total : ℕ) (label : List UInt8) : Layout (formatSuper total label) where
  inodeBitmapStart := rfl
  blockBitmapStart := rfl
  journalStart := rfl
  journalBlocks := rfl
  inodeTableStart := rfl
  dataStart := rfl
  rootInode := rfl
  blockSize := rfl
  versionMajor := rfl
  magic := by
    change k64Strncmp (Vector.ofFn fun i : Fin 8 => xfsMagic.getD i 0).toList xfsMagic 7 = 0
    decide

theorem FormattedBlocks.stores {sb : Superblock} {after : Disk}
    (h : FormattedBlocks sb before after) (h84 : 84 ≤ before.size) (hsmall : before.size ≤ 32768) :
    StoresContent after.size after.blk (formatted before.size before.blk) := by
  refine ⟨h.size, h84, hsmall, fun id h1 h512 => ?_, fun b hb => ?_, fun id h1 h512 => ?_,
    fun b h82 hb => ?_⟩
  · rw [h.inodeBitmap, xfsBitmapGet_set _ _ (by omega), xfsBitmapGet_zero]
    by_cases hid : id = 1
    · simp [formatted, hid]
    · rw [if_neg (by omega)]
      simp [formatted, hid]
  · have hlt : b < before.size := hb
    rw [h.blockBitmap, get_setRun _ _ (by omega) (by decide), xfsBitmapGet_zero]
    by_cases h83 : b < 83
    · rw [if_pos ⟨Nat.zero_le _, by omega⟩]
      simp [formatted, h83]
    · rw [if_neg (by omega)]
      simp [formatted, h83]
  · by_cases hid : id = 1
    · subst hid
      rw [show 35 + (1 - 1) / 11 = 35 from rfl, h.root, rootBlock]
      simpa [formatted] using Block.record_setRecord _ _ _ _ (by simp)
    · have hzero : (formatted before.size before.blk).inode id = Inode.zero := by
        simp [formatted, hid]
      rw [hzero]
      by_cases h35 : (id - 1) / 11 = 0
      · rw [h35, h.root]
        exact record_rootBlock (by omega)
      · rw [h.cleared _ (by omega) (by omega), if_pos (by omega)]
        exact record_zero_block _
  · rw [h.cleared b (by omega) (by omega)]
    by_cases he : b = 82
    · simp [formatted, he]
    · rw [if_neg (by omega)]
      simp [formatted, he]

theorem FormattedBlocks.clean {label : List UInt8} {after : Disk}
    (h : FormattedBlocks (Superblock.sealed (formatSuper (xfsFsBlocks dev) label)) before after)
    (hok : xfsDevOk dev = true) (h84 : 84 ≤ xfsFsBlocks dev) (hsmall : xfsFsBlocks dev ≤ 32768)
    (hsize : before.size = xfsFsBlocks dev) :
    CleanDisk dev after (Superblock.sealed (formatSuper (xfsFsBlocks dev) label))
      (formatted before.size before.blk) := by
  have hword : (UInt64.ofNat (xfsFsBlocks dev)).toNat = xfsFsBlocks dev :=
    UInt64.toNat_ofNat'.trans (Nat.mod_eq_of_lt (by omega))
  obtain ⟨⟨⟨-, hnz⟩, hdiv⟩, -⟩ : ((_ ∧ (dev.blockSize != 0) = true) ∧
      (4096 % dev.blockSize.toNat == 0) = true) ∧ _ := by
    simpa only [xfsDevOk, Bool.and_eq_true] using hok
  refine ⟨by rw [hnz, hdiv]; rfl, ?_, h.flushed, h.super, rfl,
    (layout_formatSuper (xfsFsBlocks dev) label).update _ _ _ _, h.stores (by omega) (by omega), ?_,
    ?_⟩
  · exact Nat.le_of_eq hsize
  · exact hword.trans hsize.symm
  · change UInt64.ofNat (xfsFsBlocks dev - 82 - 1) = UInt64.ofNat (before.size - 83)
    rw [hsize]
    rfl

theorem working_of_ok {dev : Device} (hok : xfsDevOk dev.toGeometry = true)
    (hhigh : xfsFsBlocks dev.toGeometry ≤ 2 ^ 32 - 1) (hf : ∀ i, dev.faults i = false) :
    Working dev (xfsFsBlocks dev.toGeometry) := by
  simp only [xfsDevOk, Bool.and_eq_true, bne_iff_ne, ne_eq, beq_iff_eq, decide_eq_true_eq] at hok
  obtain ⟨⟨⟨⟨⟨⟨hon, hread⟩, hwrite⟩, hwritable⟩, hnz⟩, hdiv⟩, -⟩ := hok
  refine ⟨hf, hon, hread, hwrite, hwritable, fun n hn => ?_⟩
  have hpos : 0 < dev.blockSize.toNat := Nat.pos_of_ne_zero fun h0 => hnz (UInt32.toNat_inj.mp h0)
  obtain ⟨k, hk⟩ := Nat.dvd_of_mod_eq_zero hdiv
  have hsec : dev.sectors = k := by
    rw [Device.sectors, hk, Nat.mul_div_cancel_left k hpos]
  have hkpos : 0 < k := Nat.pos_of_ne_zero fun h0 => by simp [h0] at hk
  have hk4096 : k ≤ 4096 := hk ▸ Nat.le_mul_of_pos_left k hpos
  have hbytes : (n + 1) * 4096 ≤ dev.blockCount.toNat * dev.blockSize.toNat := by
    unfold xfsFsBlocks at hn
    rw [if_neg hnz] at hn
    have := Nat.mod_le (dev.blockCount.toNat * dev.blockSize.toNat) (2 ^ 64)
    omega
  have hrange : (n + 1) * k ≤ dev.blockCount.toNat := by
    refine Nat.le_of_mul_le_mul_right ?_ hpos
    calc (n + 1) * k * dev.blockSize.toNat = (n + 1) * 4096 := by
          rw [hk, Nat.mul_assoc, Nat.mul_comm k]
      _ ≤ _ := hbytes
  constructor
  · have hfar : n ≤ (2 ^ 64 - 1) / k := by
      rw [Nat.le_div_iff_mul_le hkpos]
      calc n * k ≤ 2 ^ 32 * 4096 := Nat.mul_le_mul (by omega) hk4096
        _ ≤ _ := by decide
    simp only [Device.addressable, hsec, Bool.and_eq_true, bne_iff_ne, ne_eq, beq_iff_eq,
      decide_eq_true_eq]
    exact ⟨⟨hnz, hdiv⟩, hfar⟩
  · rw [Nat.add_mul, Nat.one_mul] at hrange
    simp only [Device.inRange, hsec, Bool.and_eq_true, bne_iff_ne, ne_eq, decide_eq_true_eq]
    omega

theorem guard_bind {α : Type} {c : Bool} (hc : c = true) (f : Unit → XfsM α) :
    (Proc.guard c >>= f) = f () := by
  subst hc
  rfl

theorem exec_init {α : Type} (u : Xfs → Xfs) (g : Unit → XfsM α) (fs : Xfs) (m : Machine) :
    (do Proc.update u; let r ← cacheInit; g r : XfsM α).exec machine fs m =
      (do Proc.update u; let r ← cacheInit; g r : XfsM α).exec machine fs
        { m with cache := k64XfsCacheInit } := rfl

theorem format_init (label : CString) (hok : xfsDevOk dev = true)
    (hbounds : (decide (xfsDataStart + 1 < xfsFsBlocks dev) &&
      decide (xfsFsBlocks dev ≤ 2 ^ 32 - 1)) = true) (fs : Xfs) (m : Machine) :
    (k64XfsFormat dev label).exec machine fs m =
      (k64XfsFormat dev label).exec machine fs { m with cache := k64XfsCacheInit } := by
  rw [k64XfsFormat, guard_bind hok, guard_bind hbounds]
  exact exec_init _ _ fs m

theorem exec_init_bind {α β : Type} (u : Xfs → Xfs) (g : Unit → XfsM α) (k : α → XfsM β) (fs : Xfs)
    (m : Machine) : ((do Proc.update u; let r ← cacheInit; g r : XfsM α) >>= k).exec machine fs m =
      ((do Proc.update u; let r ← cacheInit; g r : XfsM α) >>= k).exec machine fs
        { m with cache := k64XfsCacheInit } := rfl

theorem mount_init
    (hsector : (dev.blockSize != 0 && 4096 % dev.blockSize.toNat == 0) = true) (fs : Xfs)
    (m : Machine) : (k64XfsMount dev).exec machine fs m =
      (k64XfsMount dev).exec machine fs { m with cache := k64XfsCacheInit } := by
  rw [k64XfsMount, mountSuper, guard_bind hsector]
  exact exec_init_bind _ _ _ fs m

end XfsFormatting
