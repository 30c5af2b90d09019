import K64.XfsSmallVolume

/-! # Blocks and inodes over whole runs

What the bitmaps, the inode table and the free count say to each other after any run of successful
calls, read through the cache as `k64_xfs_check` reads them. -/
namespace XfsAllocation

open IoProgram XfsFormat XfsCacheRefinement XfsJournal XfsInode XfsCalls XfsLogicalDisk XfsVolume
  XfsVolumeRefinement XfsVolumeLifecycle XfsConsistency XfsChecking XfsSystem XfsRuns XfsSmallVolume

/-- The inode bitmap and the block bitmap, as the cache shows them. -/
def inodeMarked (s : System) (id : UInt32) : Bool :=
  xfsBitmapGet (view s.machine s.fs.super.inodeBitmapStart.toNat) (id.toNat - 1)

def blockMarked (s : System) (b : ℕ) : Bool :=
  xfsBitmapGet (view s.machine s.fs.super.blockBitmapStart.toNat) b

/-- The inode `id` is marked as used and reads back as `inode`. -/
def Stored (s : System) (id : UInt32) (inode : Inode) : Prop :=
  id ≠ 0 ∧ id.toNat ≤ 512 ∧ inodeMarked s id = true ∧ (s.call (xfsReadInode id)).1 = some inode

structure AllocationSound (s : System) : Prop where
  /-- Every used inode reads back. -/
  readable : ∀ id : UInt32, id ≠ 0 → id.toNat ≤ 512 → inodeMarked s id = true →
    ∃ inode, (s.call (xfsReadInode id)).1 = some inode
  few : ∀ id inode, Stored s id inode → inode.extentCount.toNat ≤ 8
  inside : ∀ id inode, Stored s id inode → ∀ ex ∈ Inode.extents inode, 0 < ex.blockCount.toNat ∧
    s.fs.super.dataStart.toNat ≤ ex.physicalBlock.toNat ∧
    ex.physicalBlock.toNat + ex.blockCount.toNat ≤ s.fs.super.totalBlocks.toNat
  /-- Two extents, of one inode or of two, have no block in common. -/
  disjoint : ∀ id inode (j : ℕ) ex id' inode' (k : ℕ) ex', Stored s id inode → Stored s id' inode' →
    (Inode.extents inode)[j]? = some ex → (Inode.extents inode')[k]? = some ex' →
    (id, j) ≠ (id', k) → ∀ b ∈ Extent.blocks ex, b ∉ Extent.blocks ex'
  marked : ∀ id inode, Stored s id inode → ∀ ex ∈ Inode.extents inode,
    ∀ b ∈ Extent.blocks ex, blockMarked s b = true
  free : (List.range' s.fs.super.dataStart.toNat (s.fs.super.totalBlocks.toNat -
    s.fs.super.dataStart.toNat)).countP (fun b => !blockMarked s b) = s.fs.super.freeBlocks.toNat
  checked : ∃ res, (s.call k64XfsCheck).1 = some res ∧ res.ok = true

variable {total : ℕ} {s t u : System} {V : Volume}

theorem read_inode_disk {fs : Xfs} {d : Disk} (h : Shows fs d V) (id : UInt32) :
    dwp (xfsReadInode id) (fun r _ _ => r = V.content.record id) fs d := by
  have hreal := read_inode_realised id fs d V h trivial
  rw [show implementation (.readInode id) = (xfsReadInode id).attempt from rfl,
    Proc.wp_attempt] at hreal
  refine Proc.wp_mono hreal ?_
  rintro r fs' d' ⟨hr, -⟩
  exact Option.some.inj hr

structure Seen (s : System) (c : Content) : Prop where
  inodeMarked : ∀ id : UInt32, id ≠ 0 → id.toNat ≤ 512 → inodeMarked s id = c.inodeUsed id.toNat
  blockMarked : ∀ b < c.total, blockMarked s b = c.blockUsed b
  inode : ∀ id, (s.call (xfsReadInode id)).1 = c.record id
  dataStart : s.fs.super.dataStart.toNat = 82
  total : s.fs.super.totalBlocks.toNat = c.total
  free : s.fs.super.freeBlocks = c.freeBlocks

theorem holds_seen (h : XfsSystem.Holds total s V) : Seen s V.content := by
  obtain ⟨d, -, hrep, hs, -⟩ := h
  have hone : s.fs.super.inodeBitmapStart.toNat = 1 := by rw [hs.layout.inodeBitmapStart]; rfl
  have htwo : s.fs.super.blockBitmapStart.toNat = 2 := by rw [hs.layout.blockBitmapStart]; rfl
  refine ⟨fun id h0 h512 => ?_, fun b hb => ?_, fun id => ?_, hs.layout.toNat_dataStart, hs.total,
    hs.free⟩
  · rw [XfsAllocation.inodeMarked, hone, hrep.cached 1 (by decide)]
    exact hs.stores.inodeUsed id.toNat (pos_of_ne_zero h0) h512
  · rw [XfsAllocation.blockMarked, htwo, hrep.cached 2 (by decide)]
    exact hs.stores.blockUsed b hb
  · obtain ⟨-, -, -, hr⟩ := call_of_wp hrep (read_inode_disk hs id)
    exact hr

theorem stored_used {c : Content} (hseen : Seen s c) {id : UInt32} {inode : Inode}
    (h : Stored s id inode) : Used c id.toNat ∧ inode = c.inode id.toNat := by
  obtain ⟨h0, h512, hmark, hread⟩ := h
  rw [hseen.inodeMarked id h0 h512] at hmark
  rw [hseen.inode, Content.record] at hread
  split at hread
  · exact ⟨⟨pos_of_ne_zero h0, h512, hmark⟩, (Option.some.inj hread).symm⟩
  · cases hread

theorem extents_disjoint {inode : Inode} (h : (Inode.blocks inode).Nodup) {j k : ℕ}
    {ex ex' : Extent} (hj : (Inode.extents inode)[j]? = some ex)
    (hk : (Inode.extents inode)[k]? = some ex') (hne : j ≠ k) :
    ∀ b ∈ Extent.blocks ex, b ∉ Extent.blocks ex' := by
  have hpair := (List.nodup_flatMap.mp h).2
  rw [List.pairwise_iff_getElem] at hpair
  obtain ⟨hjlt, rfl⟩ := List.getElem?_eq_some_iff.mp hj
  obtain ⟨hklt, rfl⟩ := List.getElem?_eq_some_iff.mp hk
  intro b hb hb'
  rcases Nat.lt_or_gt_of_ne hne with hlt | hgt
  · exact hpair j k hjlt hklt hlt hb hb'
  · exact hpair k j hklt hjlt hgt hb' hb

theorem mem_blocks_of_extent {inode : Inode} {ex : Extent} (h : ex ∈ Inode.extents inode) {b : ℕ}
    (hb : b ∈ Extent.blocks ex) : b ∈ Inode.blocks inode :=
  List.mem_flatMap.mpr ⟨ex, h, hb⟩

theorem consistent_sound (hseen : Seen s V.content) (hc : Consistent V.content)
    (hcheck : ∃ res, (s.call k64XfsCheck).1 = some res ∧ res.ok = true) : AllocationSound s := by
  refine ⟨fun id h0 h512 hmark => ?_, fun id inode h => ?_, fun id inode h ex hex => ?_,
    fun id inode j ex id' inode' k ex' h h' hj hk hne b hb hb' => ?_,
    fun id inode h ex hex b hb => ?_, ?_, hcheck⟩
  · rw [hseen.inodeMarked id h0 h512] at hmark
    have hu : Used V.content id.toNat := ⟨pos_of_ne_zero h0, h512, hmark⟩
    have hvalid := hc.valid _ hu
    rw [UInt32.ofNat_toNat] at hvalid
    exact ⟨_, by rw [hseen.inode, Content.record, if_pos ⟨h0, h512, hvalid⟩]⟩
  · obtain ⟨hu, rfl⟩ := stored_used hseen h
    exact (hc.shape _ hu).few
  · obtain ⟨hu, rfl⟩ := stored_used hseen h
    obtain ⟨hlow, hhigh⟩ := hc.fits _ hu.pos hu.le ex hex
    rw [hseen.dataStart, hseen.total]
    exact ⟨(hc.shape _ hu).nonempty ex hex, hlow, hhigh⟩
  · obtain ⟨hu, rfl⟩ := stored_used hseen h
    obtain ⟨hu', rfl⟩ := stored_used hseen h'
    have hmem := mem_blocks_of_extent (List.mem_of_getElem? hj) hb
    have hmem' := mem_blocks_of_extent (List.mem_of_getElem? hk) hb'
    have hid : id = id' := UInt32.toNat_inj.mp (hc.owner _ _ hu hu' b hmem hmem')
    subst hid
    have hjk : j ≠ k := fun hjk => hne (by rw [hjk])
    exact extents_disjoint (hc.shape _ hu).disjoint hj hk hjk b hb hb'
  · obtain ⟨hu, rfl⟩ := stored_used hseen h
    have hmem := mem_blocks_of_extent hex hb
    rw [hseen.blockMarked b (blocks_fit (hc.fits _ hu.pos hu.le) hmem).2]
    exact hc.marked _ hu b hmem
  · rw [hseen.dataStart, hseen.total, hseen.free, hc.free, spare]
    refine List.countP_congr fun b hb => ?_
    have := List.mem_range'_1.mp hb
    have hlarge := hc.large
    rw [hseen.blockMarked b (by omega)]

/-- After every run of successful calls from a format and a mount on, the bitmaps, the inodes and
the free count agree, and the checker finds no error. -/
theorem successful_runs_keep_allocation {label : CString} {calls : List (PublicCall × Bool)}
    (hfresh : FreshMount label s t) (hf : ∀ i, s.machine.dev.faults i = false)
    (hsmall : xfsFsBlocks (System.geometry s) ≤ 32768)
    (hrun : Run (System.geometry s) t calls u) (hok : ∀ c ∈ calls, c.2 = true)
    (hm : u.fs.mounted = true) : AllocationSound u := by
  obtain ⟨V, hV⟩ := fresh_run_steady hfresh hf hsmall hrun hok
  refine consistent_sound (holds_seen hV.holds) hV.consistent ?_
  obtain ⟨d, -, hrep, hs, -⟩ := hV.holds
  obtain ⟨-, -, -, -, hres⟩ :=
    call_of_wp hrep (check_disk hV.consistent hs (hs.mounted.symm.trans hm))
  exact ⟨_, hres, rfl⟩

theorem allocation_after_write : AllocationSound writtenSystem :=
  successful_runs_keep_allocation fresh_smallDevice (fun _ => rfl) (by decide) written_reached
    (by simp) written_mounted

end XfsAllocation
