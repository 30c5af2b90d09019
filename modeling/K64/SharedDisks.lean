import K64.BlockDevices
import K64.XfsRuns

/-! # Volumes on shared disks

Devices of the table may lie on one disk: a partition has the driver and the context of its disk. What
a volume reads and writes through its device are sectors of that disk. -/
namespace SharedDisks
open ByteCodec IoProgram XfsFormat XfsJournal
open XfsCache (Geometry Machine Cache k64XfsCacheInit)

variable {Context ReadFn WriteFn : Type}

abbrev Entry (Context ReadFn WriteFn : Type) := BlockDevices.Device Context ReadFn WriteFn

/-- The bytes of each sector of each disk. -/
abbrev Sectors (Context : Type) := Context → ℕ → List UInt8

variable (d : Entry Context ReadFn WriteFn)

def geometry : Geometry where
  blockSize := d.blockSize
  blockCount := d.blockCount
  online := d.online
  writable := d.writable
  hasRead := d.read.isSome
  hasWrite := d.write.isSome

def sectorSize : ℕ := d.blockSize.toNat

def perBlock : ℕ := 4096 / sectorSize d

/-- Where block `n` begins on the disk. -/
def blockStart (n : ℕ) : ℕ := d.startLba.toNat + n * perBlock d

def viewBlock (sectors : Sectors Context) (n : ℕ) : XBlock :=
  ⟨Vector.ofFn fun i : Fin 4096 =>
    (sectors d.context (blockStart d n + i / sectorSize d)).getD (i % sectorSize d) 0⟩

def sectorOf (b : XBlock) (j : ℕ) : List UInt8 := b.read (j * sectorSize d) (sectorSize d)

def storeBlock [DecidableEq Context] (w : ℕ × XBlock) (sectors : Sectors Context) :
    Sectors Context := fun context lba =>
  if context = d.context ∧ blockStart d w.1 ≤ lba ∧ lba < blockStart d w.1 + perBlock d then
    sectorOf d w.2 (lba - blockStart d w.1)
  else sectors context lba

/-- The writes of a device, newest first. -/
def storeLog [DecidableEq Context] (log : List (ℕ × XBlock)) (sectors : Sectors Context) :
    Sectors Context := log.foldr (storeBlock d) sectors

def deviceOf (sectors : Sectors Context) (faults : ℕ → Bool) : XfsCache.Device where
  toGeometry := geometry d
  base := viewBlock d sectors
  log := []
  faults := faults
  calls := 0

/-- A sector of the disk belongs to the device. -/
def Covers (context : Context) (lba : ℕ) : Prop :=
  context = d.context ∧ d.startLba.toNat ≤ lba ∧ lba < d.startLba.toNat + d.blockCount.toNat

/-- Two devices have no sector in common. -/
def Apart (e : Entry Context ReadFn WriteFn) : Prop :=
  ∀ context lba, ¬ (Covers d context lba ∧ Covers e context lba)

variable {d} {sectors : Sectors Context} {log : List (ℕ × XBlock)}

def Divides (d : Entry Context ReadFn WriteFn) : Prop := sectorSize d ≠ 0 ∧ 4096 % sectorSize d = 0

theorem Divides.mul (h : Divides d) : perBlock d * sectorSize d = 4096 :=
  Nat.div_mul_cancel (Nat.dvd_of_mod_eq_zero h.2)

theorem Divides.offset_lt (h : Divides d) {i : ℕ} (hi : i < 4096) : i / sectorSize d < perBlock d :=
  (Nat.div_lt_iff_lt_mul (Nat.pos_of_ne_zero h.1)).mpr (h.mul ▸ hi)

theorem get_viewBlock (sectors : Sectors Context) (n : ℕ) {i : ℕ} (hi : i < 4096) :
    (viewBlock d sectors n).get i =
      (sectors d.context (blockStart d n + i / sectorSize d)).getD (i % sectorSize d) 0 := by
  simp [Block.get, viewBlock, hi]

theorem getD_sectorOf (h : Divides d) (b : XBlock) (i : ℕ) :
    (sectorOf d b (i / sectorSize d)).getD (i % sectorSize d) 0 = b.get i := by
  have hmod : i % sectorSize d < sectorSize d := Nat.mod_lt _ (Nat.pos_of_ne_zero h.1)
  have hdiv : i / sectorSize d * sectorSize d + i % sectorSize d = i := Nat.div_add_mod' i _
  simp [sectorOf, Block.read, List.getD_eq_getElem?_getD, hmod, hdiv]

theorem blockStart_apart {n m : ℕ} (hne : n ≠ m) :
    blockStart d n + perBlock d ≤ blockStart d m ∨ blockStart d m + perBlock d ≤ blockStart d n := by
  unfold blockStart
  rcases Nat.lt_or_gt_of_ne hne with hlt | hgt
  · have := Nat.mul_le_mul_right (perBlock d) (Nat.succ_le_of_lt hlt)
    rw [Nat.succ_mul] at this
    omega
  · have := Nat.mul_le_mul_right (perBlock d) (Nat.succ_le_of_lt hgt)
    rw [Nat.succ_mul] at this
    omega

theorem view_storeBlock [DecidableEq Context] (h : Divides d) (w : ℕ × XBlock)
    (sectors : Sectors Context) (n : ℕ) : viewBlock d (storeBlock d w sectors) n =
      if w.1 = n then w.2 else viewBlock d sectors n := by
  apply Block.ext_get
  intro i hi
  have hlt := h.offset_lt hi
  rw [get_viewBlock _ _ hi]
  by_cases hn : w.1 = n
  · subst hn
    have hin : d.context = d.context ∧ blockStart d w.1 ≤ blockStart d w.1 + i / sectorSize d ∧
        blockStart d w.1 + i / sectorSize d < blockStart d w.1 + perBlock d :=
      ⟨rfl, Nat.le_add_right _ _, Nat.add_lt_add_left hlt _⟩
    rw [if_pos rfl, storeBlock, if_pos hin, Nat.add_sub_cancel_left, getD_sectorOf h]
  · have hsector : storeBlock d w sectors d.context (blockStart d n + i / sectorSize d) =
        sectors d.context (blockStart d n + i / sectorSize d) := by
      refine if_neg fun hin => ?_
      generalize i / sectorSize d = j at hlt hin
      rcases blockStart_apart (d := d) hn with hbefore | hbehind
      · omega
      · omega
    rw [if_neg hn, hsector, get_viewBlock _ _ hi]

theorem view_storeLog [DecidableEq Context] (h : Divides d) (sectors : Sectors Context)
    {dev : XfsCache.Device} (hbase : dev.base = viewBlock d sectors) :
    viewBlock d (storeLog d dev.log sectors) = dev.block := by
  obtain ⟨g, base, log, faults, calls⟩ := dev
  obtain rfl : base = viewBlock d sectors := hbase
  funext n
  induction log with
  | nil => rfl
  | cons w log ih =>
    rw [storeLog, List.foldr_cons, view_storeBlock h]
    by_cases hn : w.1 = n
    · simp [XfsCache.Device.block, hn]
    · rw [if_neg hn]
      refine ih.trans ?_
      simp [XfsCache.Device.block, hn]

structure Confined (g : Geometry) (base : ℕ → XBlock) (m : Machine) : Prop where
  same : m.dev.toGeometry = g
  base : m.dev.base = base
  range : ∀ w ∈ m.dev.log, m.dev.inRange w.1 = true

variable {g : Geometry} {base : ℕ → XBlock} {m : Machine}

theorem Confined.raw_write (h : Confined g base m) (n : ℕ) (b : XBlock) (cache : Cache) :
    Confined g base ⟨cache, (XfsCache.xfsRawWrite m.dev n b).2⟩ := by
  unfold XfsCache.xfsRawWrite
  split
  · exact ⟨h.same, h.base, h.range⟩
  · unfold XfsCache.k64BlockWrite
    split
    · exact ⟨h.same, h.base, h.range⟩
    split
    · exact ⟨h.same, h.base, h.range⟩
    next hrange =>
      rw [Bool.not_eq_true', Bool.not_eq_false] at hrange
      split
      · exact ⟨h.same, h.base, h.range⟩
      · refine ⟨h.same, h.base, fun w hw => ?_⟩
        rcases List.mem_cons.mp hw with rfl | hw
        · exact hrange
        · exact h.range w hw

theorem Confined.raw_read (h : Confined g base m) (n : ℕ) (cache : Cache) :
    Confined g base ⟨cache, (XfsCache.xfsRawRead m.dev n).2⟩ := by
  unfold XfsCache.xfsRawRead
  split
  · exact ⟨h.same, h.base, h.range⟩
  · unfold XfsCache.k64BlockRead
    split
    · exact ⟨h.same, h.base, h.range⟩
    split
    · exact ⟨h.same, h.base, h.range⟩
    split
    · exact ⟨h.same, h.base, h.range⟩
    · exact ⟨h.same, h.base, h.range⟩

theorem Confined.withCache (h : Confined g base m) (cache : Cache) :
    Confined g base ⟨cache, m.dev⟩ := ⟨h.same, h.base, h.range⟩

theorem Confined.victim (h : Confined g base m) : Confined g base (XfsCache.cacheVictim m).2 := by
  unfold XfsCache.cacheVictim
  simp only
  split
  · exact h
  split
  · have hw := h.raw_write (m.cache.entries (XfsCache.victimSlot m.cache)).blockNo
      (m.cache.entries (XfsCache.victimSlot m.cache)).data m.cache
    split
    next heq =>
      rw [heq] at hw
      exact hw
    next heq =>
      rw [heq] at hw
      exact hw.withCache _
  · exact h.withCache _

theorem Confined.flush (is : List (Fin 64)) : ∀ {m : Machine}, Confined g base m →
    Confined g base (XfsCache.flushSlots is m).2 := by
  induction is with
  | nil => exact fun h => h
  | cons i is ih =>
    intro m h
    have hslot : Confined g base (XfsCache.flushSlot i m).2 := by
      unfold XfsCache.flushSlot
      simp only
      split
      · have hw := h.raw_write (m.cache.entries i).blockNo (m.cache.entries i).data m.cache
        split
        next heq =>
          rw [heq] at hw
          exact hw
        next heq =>
          rw [heq] at hw
          exact hw.withCache _
      · exact h
    rw [XfsCache.flushSlots]
    split
    next heq =>
      rw [heq] at hslot
      exact hslot
    next heq =>
      rw [heq] at hslot
      exact ih hslot

/-- The step lemma: no request makes the device write outside. -/
theorem Confined.request (h : Confined g base m) (q : Req) :
    Confined g base (XfsJournal.machine q m).2 := by
  cases q with
  | read n =>
    change Confined g base (XfsCache.k64XfsCacheRead m n).2
    unfold XfsCache.k64XfsCacheRead
    split
    · exact h.withCache _
    · have hv := h.victim
      split
      next heq =>
        rw [heq] at hv
        exact hv
      next v m' heq =>
        rw [heq] at hv
        have hr := Confined.raw_read hv n m'.cache
        split
        next heq' =>
          rw [heq'] at hr
          exact hr
        next heq' =>
          rw [heq'] at hr
          exact hr.withCache _
  | write n b =>
    change Confined g base (XfsCache.k64XfsCacheWrite m n b).2
    unfold XfsCache.k64XfsCacheWrite
    split
    · exact h.withCache _
    · have hv := h.victim
      split
      next heq =>
        rw [heq] at hv
        exact hv
      next heq =>
        rw [heq] at hv
        exact hv.withCache _
  | flush => exact Confined.flush _ h
  | init => exact h.withCache _
  | rawRead n => exact h.raw_read n m.cache
  | rawWrite n b => exact h.raw_write n b m.cache

theorem Confined.exec {α : Type} (f : XfsM α) (fs : Xfs) (h : Confined g base m) :
    Confined g base (f.exec XfsJournal.machine fs m).2.2 := by
  have hkeep : ∀ (p : Prog Req Resp (Option α × Xfs)) (m : Machine), Confined g base m →
      Confined g base (p.run XfsJournal.machine m).2 := by
    intro p
    induction p with
    | ret a => exact fun m hm => hm
    | ask q k ih => exact fun m hm => ih _ _ (hm.request q)
  exact hkeep (f fs) m h

theorem confined_deviceOf (sectors : Sectors Context) (faults : ℕ → Bool) (cache : Cache) :
    Confined (geometry d) (viewBlock d sectors) ⟨cache, deviceOf d sectors faults⟩ :=
  ⟨rfl, rfl, fun w hw => by simp [deviceOf] at hw⟩

theorem Confined.covers (h : Confined (geometry d) base m) {w : ℕ × XBlock} (hw : w ∈ m.dev.log)
    {lba : ℕ} (hfrom : blockStart d w.1 ≤ lba) (hto : lba < blockStart d w.1 + perBlock d) :
    Covers d d.context lba := by
  have hrange := h.range w hw
  unfold XfsCache.Device.inRange XfsCache.Device.sectors at hrange
  rw [h.same] at hrange
  simp only [geometry, Bool.and_eq_true] at hrange
  obtain ⟨⟨-, hbegin⟩, hend⟩ := hrange
  have hbegin := of_decide_eq_true hbegin
  have hend := of_decide_eq_true hend
  unfold blockStart perBlock sectorSize at hfrom hto
  generalize 4096 / d.blockSize.toNat = k at hbegin hend hfrom hto
  refine ⟨rfl, ?_, ?_⟩
  · omega
  · omega

end SharedDisks
