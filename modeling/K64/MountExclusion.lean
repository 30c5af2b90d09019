import K64.MountedVolumes

/-! # No sector under two mounts

The two volumes stay apart, and what holds no volume may be formatted, partitioned and installed to, as
long as nobody names a device that is in use: the commands themselves do not look. -/
namespace MountedVolumes
open ByteCodec XfsFormat XfsJournal XfsCalls XfsOperations XfsVolumeLifecycle SharedDisks
open BlockDevices (Table Disk k64BlockWrite k64BlockWriteK64Mbr)
open XfsCache (Cache k64XfsCacheInit)
open XfsSystem (PublicCall)
open XfsRuns XfsLogicalDisk XfsMounting XfsFormatting XfsInode XfsVolumeRefinement

variable {Context ReadFn WriteFn : Type} {α : Type}

section Law

variable [DecidableEq Context] (s : System Context ReadFn WriteFn)

def MountedAt (w : Holder) (e : Entry Context ReadFn WriteFn) : Prop :=
  (s.mounts w).mem.mounted = true ∧ s.entry w = some e

/-- No sector of a disk is under both. -/
def Exclusive : Prop :=
  ∀ r x, MountedAt s .rootfs r → MountedAt s .xfsctl x → Apart r x

/-- The sectors that a format, a new partition table or an installation writes. -/
def Writes (c : Command × Env) (context : Context) (lba : ℕ) : Prop :=
  match c.1 with
  | .xfsctlFormat name label => ∃ i d, s.find name = some (i, d) ∧
      ∃ w ∈ (formatCall s c.2 d label).2.machine.dev.log, context = d.context ∧
        blockStart d w.1 ≤ lba ∧ lba < blockStart d w.1 + perBlock d
  | .storagectlPartition name => ∃ i d, s.find name = some (i, d) ∧
      ∃ run ∈ (partitionOn s c.2 d).2, run.Has context lba
  | .install name => ∃ run ∈ (install s c.2 name).2.2, run.Has context lba
  | _ => False

def Spares (c : Command × Env) : Prop :=
  ∀ w e, MountedAt s w e → ∀ context lba, Writes s c context lba → ¬ Covers e context lba

/-- Every block of the cache is on the device. -/
def Clean (cache : Cache) : Prop :=
  ∀ i, (cache.entries i).valid = true → (cache.entries i).dirty = false

/-- `k64_xfs_mount` clears a structure whose cache has blocks that are not written back. -/
def DropsDirty (c : Command × Env) : Prop :=
  match c.1 with
  | .xfsctlMount name => ∃ i d, s.find name = some (i, d) ∧ d.blockSize ≠ 0 ∧
      4096 % d.blockSize.toNat = 0 ∧ ¬ Clean (s.mounts .xfsctl).cache
  | _ => False

/-- The law, in every state of a run and for every command of it. -/
def Lawful (s : System Context ReadFn WriteFn) : List (Command × Env) → Prop
  | [] => Exclusive s
  | c :: rest => Exclusive s ∧ Spares s c ∧ ¬ DropsDirty s c ∧ Lawful (step s c) rest

def OutOf (e : Entry Context ReadFn WriteFn) (run : WriteRun Context) : Prop :=
  ∀ context lba, run.Has context lba → ¬ Covers e context lba

/-- The device that a command names is not in use. -/
def Careful (c : Command) : Prop :=
  match c with
  | .xfsctlFormat name _ => ∀ i d, s.find name = some (i, d) → ∀ w e, MountedAt s w e → Apart d e
  | .xfsctlMount name => ∀ i d, s.find name = some (i, d) → d.blockSize ≠ 0 →
      4096 % d.blockSize.toNat = 0 →
        Clean (s.mounts .xfsctl).cache ∧ ∀ r, s.entry .rootfs = some r → Apart r d
  | .storagectlPartition name => ∀ i d, s.find name = some (i, d) → ∀ w e, MountedAt s w e →
      OutOf e ⟨d.context, d.startLba.toNat, 1⟩
  | .install name => ∀ i d, s.find name = some (i, d) → installRefuses d = false →
      ∀ w e, MountedAt s w e → OutOf e ⟨d.context, d.startLba.toNat, partitionLba⟩ ∧
        ∀ r, s.entry .rootfs = some r → inPlace d r = false →
          OutOf e ⟨d.context, partitionLba, r.blockCount.toNat⟩
  | .xfsctlUnmount | .fileCall .. => True

def CarefulRun (s : System Context ReadFn WriteFn) : List (Command × Env) → Prop
  | [] => True
  | c :: rest => Careful s c.1 ∧ CarefulRun (step s c) rest

end Law

variable {s s' : System Context ReadFn WriteFn}

/-- The invariant: the structures are on devices of the table, and these are apart. -/
structure Separate (s : System Context ReadFn WriteFn) : Prop where
  placed : ∀ w i, (s.mounts w).dev = some i → i < s.table.devices.length
  apart : ∀ r x, s.entry .rootfs = some r → s.entry .xfsctl = some x → Apart r x

structure SameDevices (s s' : System Context ReadFn WriteFn) : Prop where
  dev : ∀ w, (s'.mounts w).dev = (s.mounts w).dev
  table : s.table.devices <+: s'.table.devices

theorem SameDevices.refl : SameDevices s s := ⟨fun _ => rfl, List.prefix_rfl⟩

theorem SameDevices.trans {u : System Context ReadFn WriteFn} (h : SameDevices s s')
    (h' : SameDevices s' u) : SameDevices s u :=
  ⟨fun w => (h'.dev w).trans (h.dev w), h.table.trans h'.table⟩

theorem getElem?_of_prefix {β : Type} {xs ys : List β} (h : xs <+: ys) {i : ℕ} (hi : i < xs.length) :
    ys[i]? = xs[i]? := by
  obtain ⟨rest, rfl⟩ := h
  exact List.getElem?_append_left hi

theorem SameDevices.entry (h : SameDevices s s') (hs : Separate s) (w : Holder) :
    s'.entry w = s.entry w := by
  unfold System.entry
  rw [h.dev w]
  rcases hdev : (s.mounts w).dev with _ | i
  · rfl
  · exact getElem?_of_prefix h.table (hs.placed w i hdev)

theorem SameDevices.separate (h : SameDevices s s') (hs : Separate s) : Separate s' where
  placed w i hi := Nat.lt_of_lt_of_le (hs.placed w i (h.dev w ▸ hi)) h.table.length_le
  apart r x hr hx := hs.apart r x (h.entry hs .rootfs ▸ hr) (h.entry hs .xfsctl ▸ hx)

theorem same_sectors (s : System Context ReadFn WriteFn) (sectors : Sectors Context) :
    SameDevices s { s with sectors := sectors } := ⟨fun _ => rfl, List.prefix_rfl⟩

theorem same_keep (s : System Context ReadFn WriteFn) (w : Holder) (u : XfsSystem.System) :
    SameDevices s (s.keep w (s.mounts w).dev u) := by
  refine ⟨fun v => ?_, List.prefix_rfl⟩
  by_cases hv : v = w
  · subst hv
    simp [System.keep]
  · simp [System.keep, Function.update_of_ne hv]

variable {d : Entry Context ReadFn WriteFn}

theorem register_prefix {t : Table Context ReadFn WriteFn}
    {number type : UInt8} {start count : UInt64} :
    t.devices <+: (BlockDevices.registerPartition t d number type start count).devices := by
  unfold BlockDevices.registerPartition
  split
  · exact List.prefix_rfl
  split
  · exact List.prefix_rfl
  simp only
  split
  · exact List.prefix_rfl
  split
  · exact List.prefix_rfl
  next part t' hreg =>
    obtain ⟨rfl, -⟩ := BlockDevices.register_some hreg
    simp

theorem scan_prefix (t : Table Context ReadFn WriteFn) (d : Entry Context ReadFn WriteFn)
    (disk : Disk Context ReadFn) :
    t.devices <+: (BlockDevices.k64BlockScanPartitions t d disk).devices := by
  unfold BlockDevices.k64BlockScanPartitions
  split
  · exact List.prefix_rfl
  split
  · exact List.prefix_rfl
  next mbr _ =>
    split
    · exact List.prefix_rfl
    · generalize List.range 4 = is
      induction is generalizing t with
      | nil => exact List.prefix_rfl
      | cons i is ih =>
        refine List.IsPrefix.trans ?_ (ih (BlockDevices.scanEntry d mbr t i))
        unfold BlockDevices.scanEntry
        simp only
        split
        · exact List.prefix_rfl
        · exact register_prefix

theorem find_some {name : List UInt8} {i : ℕ}
    (h : s.find name = some (i, d)) : s.table.devices[i]? = some d := by
  obtain ⟨j, -, hj⟩ := Option.bind_eq_some_iff.mp h
  obtain ⟨e, he, heq⟩ := Option.map_eq_some_iff.mp hj
  obtain ⟨rfl, rfl⟩ := Prod.mk.inj heq
  exact he

theorem Separate.exclusive (hs : Separate s) : Exclusive s :=
  fun r x hr hx => hs.apart r x hr.2 hx.2

variable {env : Env}

theorem format_confined (s : System Context ReadFn WriteFn) (env : Env) (label : CString) :
    Confined (geometry d) (viewBlock d s.sectors) (formatCall s env d label).2.machine :=
  (confined_deviceOf s.sectors env.faults blankMount.cache).exec (k64XfsFormat (geometry d) label)
    (blankMount.mem.withTmp s.tmp)

theorem format_covers {label : CString}
    {w : ℕ × XBlock} (hw : w ∈ (formatCall s env d label).2.machine.dev.log) {lba : ℕ}
    (hfrom : blockStart d w.1 ≤ lba) (hto : lba < blockStart d w.1 + perBlock d) :
    Covers d d.context lba :=
  (format_confined s env label).covers hw hfrom hto

theorem divides_of_sector
    (h : ((geometry d).blockSize != 0 && 4096 % (geometry d).blockSize.toNat == 0) = true) :
    Divides d := by
  simp only [Bool.and_eq_true, bne_iff_ne, beq_iff_eq] at h
  exact ⟨fun hzero => h.1 (UInt32.toNat_inj.mp hzero), h.2⟩

variable [DecidableEq Context]

section Same

variable (s : System Context ReadFn WriteFn)

theorem same_stored (d : Entry Context ReadFn WriteFn) (u : XfsSystem.System) :
    SameDevices s (s.stored d u) := ⟨fun _ => rfl, List.prefix_rfl⟩

theorem same_runOn (env : Env) (w : Holder) (f : XfsM α) : SameDevices s (runOn s env w f).2 := by
  unfold runOn
  split
  · exact .refl
  next d _ =>
    exact (same_stored s d _).trans (same_keep (s.stored d (s.callOn env (s.mounts w) d f).2) w _)

theorem same_readFileRaw (env : Env) (path : CString) :
    SameDevices s (readFileRaw s env path).2 := by
  have hstat := same_runOn s env .rootfs (lowered (k64XfsStat path))
  unfold readFileRaw
  split
  next heq =>
    rw [heq] at hstat
    exact hstat
  next st s₁ heq =>
    rw [heq] at hstat
    split
    · exact hstat
    · have hread := same_runOn s₁ env .rootfs (lowered (k64XfsReadFile path st.size.toNat))
      split
      next heq' =>
        rw [heq'] at hread
        exact hstat.trans hread
      next heq' =>
        rw [heq'] at hread
        exact hstat.trans hread

theorem same_copyRoot (env : Env) (d r : Entry Context ReadFn WriteFn) :
    SameDevices s (copyRoot s env d r).2.1 := by
  have hsync := same_runOn s env .rootfs k64XfsSync
  unfold copyRoot
  split
  · exact .refl
  · split
    next heq =>
      rw [heq] at hsync
      exact hsync
    next heq =>
      rw [heq] at hsync
      exact hsync.trans (same_sectors _ _)

theorem same_installOn (env : Env) (d r : Entry Context ReadFn WriteFn) (area : List UInt8) :
    SameDevices s (installOn s env d r area).2.1 := by
  unfold installOn
  split
  · exact .refl
  · simp only
    split
    · exact .refl
    · split
      · exact (same_sectors s _).trans (same_runOn _ env .rootfs k64XfsSync)
      · exact (same_sectors s _).trans (same_copyRoot _ env d r)

theorem same_install (env : Env) (name : List UInt8) : SameDevices s (install s env name).2.1 := by
  unfold install
  split
  · exact .refl
  split
  · exact .refl
  next d _ _ =>
    have hread := same_readFileRaw s env bootPath
    split
    next heq =>
      rw [heq] at hread
      exact hread
    next heq =>
      rw [heq] at hread
      split
      · exact hread
      · split
        · exact hread
        · exact hread.trans (same_installOn _ env _ _ _)

theorem same_partitionOn (env : Env) (d : Entry Context ReadFn WriteFn) :
    SameDevices s (partitionOn s env d).1 := by
  unfold partitionOn
  split
  · exact .refl
  · refine ⟨fun _ => rfl, ?_⟩
    simp only
    unfold k64BlockWriteK64Mbr
    split
    · exact List.prefix_rfl
    split
    · exact List.prefix_rfl
    split
    · exact scan_prefix _ _ _
    · exact List.prefix_rfl

end Same

variable {c : Command × Env}

theorem same_step (h : ∀ name, c.1 ≠ .xfsctlMount name) :
    SameDevices s (step s c) := by
  obtain ⟨c, env⟩ := c
  unfold step
  cases c with
  | xfsctlFormat name label =>
    simp only
    split
    · exact .refl
    · exact same_stored s _ _
  | xfsctlMount name => exact absurd rfl (h name)
  | xfsctlUnmount =>
    simp only
    split
    · exact .refl
    · exact (same_runOn s env .xfsctl k64XfsUnmount).trans ⟨fun _ => rfl, List.prefix_rfl⟩
  | fileCall w call =>
    simp only
    split
    · exact .refl
    split
    · exact .refl
    · exact same_runOn s env w _
  | storagectlPartition name =>
    simp only
    split
    · exact .refl
    · exact same_partitionOn s env _
  | install name => exact same_install s env name

theorem separate_mount (hs : Separate s) {i : ℕ}
    (hd : s.table.devices[i]? = some d) (b : Bool)
    (happart : d.blockSize ≠ 0 → 4096 % d.blockSize.toNat = 0 →
      ∀ r, s.entry .rootfs = some r → Apart r d) :
    Separate { (mountOn s env .xfsctl i d).2 with xfsctlMounted := b } := by
  unfold mountOn
  split
  · exact ⟨hs.placed, hs.apart⟩
  next hsector =>
    rw [not_or, not_not] at hsector
    have hroot : ∀ (t : System Context ReadFn WriteFn) (u : XfsSystem.System), t.entry .rootfs =
        ({ t.keep .xfsctl (some i) u with xfsctlMounted := b } :
          System Context ReadFn WriteFn).entry .rootfs := fun t u => rfl
    constructor
    · intro w j hj
      cases w with
      | rootfs => exact hs.placed .rootfs j hj
      | xfsctl =>
        obtain rfl : i = j := by simpa [System.keep] using hj
        exact (List.getElem?_eq_some_iff.mp hd).1
    · intro r x hr hx
      obtain rfl : d = x := Option.some.inj (hd.symm.trans hx)
      exact happart hsector.1 hsector.2 r hr

theorem separate_step (hs : Separate s) (hc : Careful s c.1) :
    Separate (step s c) := by
  by_cases hmount : ∃ name, c.1 = .xfsctlMount name
  · obtain ⟨name, hname⟩ := hmount
    rw [hname] at hc
    unfold step
    rw [hname]
    simp only
    rcases hfind : s.find name with _ | ⟨i, d⟩
    · exact hs
    · exact separate_mount hs (find_some hfind) _ fun h h' => (hc i d hfind h h').2
  · exact (same_step fun name hname => hmount ⟨name, hname⟩).separate hs

variable {run : WriteRun Context}

theorem partition_runs
    (h : run ∈ (partitionOn s env d).2) : run = ⟨d.context, d.startLba.toNat, 1⟩ := by
  unfold partitionOn at h
  split at h
  · simp at h
  · simpa using h

variable {r : Entry Context ReadFn WriteFn}

theorem copy_runs (n : ℕ) :
    ∀ (k : ℕ) (sectors : Sectors Context), ∀ run ∈ (copyChunks env r d n k sectors).2.2,
      ∀ context lba, run.Has context lba →
        WriteRun.Has ⟨d.context, partitionLba, r.blockCount.toNat⟩ context lba := by
  induction n with
  | zero => exact fun k sectors run hrun => by simp [copyChunks] at hrun
  | succ n ih =>
    intro k sectors run hrun context lba hhas
    have hfirst : run = ⟨d.context, partitionLba + k * chunkBlocks,
        min chunkBlocks (r.blockCount.toNat - k * chunkBlocks)⟩ →
        WriteRun.Has ⟨d.context, partitionLba, r.blockCount.toNat⟩ context lba := by
      rintro rfl
      obtain ⟨hcontext, hfrom, hto⟩ := hhas
      simp only at hcontext hfrom hto
      exact ⟨hcontext, by simp only; omega, by simp only; omega⟩
    rw [copyChunks] at hrun
    simp only at hrun
    split at hrun
    · simp at hrun
    split at hrun
    · simp at hrun
    split at hrun
    · exact hfirst (List.mem_singleton.mp hrun)
    · rcases List.mem_cons.mp hrun with hrun | hrun
      · exact hfirst hrun
      · exact ih _ _ run hrun context lba hhas

theorem copyRoot_runs
    (h : run ∈ (copyRoot s env d r).2.2) : rootMounted s = true ∧
      ∀ context lba, run.Has context lba →
        WriteRun.Has ⟨d.context, partitionLba, r.blockCount.toNat⟩ context lba := by
  unfold copyRoot at h
  split at h
  · simp at h
  next hfits =>
    constructor
    · by_contra hno
      exact hfits (by simp [copyRefuses, hno])
    · split at h
      · simp at h
      · -- the list is taken out first: the kernel would unfold the copy to see that it is the same
        have hwritten : ∀ (copied : Bool × Sectors Context × List (WriteRun Context))
            (t : System Context ReadFn WriteFn),
            run ∈ (copied.1, t, copied.2.2).2.2 → run ∈ copied.2.2 := fun _ _ hrun => hrun
        exact copy_runs _ _ _ run (hwritten _ _ h)

theorem installOn_runs {area : List UInt8} (h : run ∈ (installOn s env d r area).2.2) :
    run = ⟨d.context, d.startLba.toNat, partitionLba⟩ ∨ inPlace d r = false ∧
      ∀ context lba, run.Has context lba →
        WriteRun.Has ⟨d.context, partitionLba, r.blockCount.toNat⟩ context lba := by
  unfold installOn at h
  split at h
  · simp at h
  simp only at h
  split at h
  · exact .inl (List.mem_singleton.mp h)
  split at h
  · exact .inl (List.mem_singleton.mp h)
  next hplace =>
    rcases List.mem_cons.mp h with h | h
    · exact .inl h
    · obtain ⟨hmounted, hcopied⟩ := copyRoot_runs h
      exact .inr ⟨Bool.of_not_eq_true fun hin => hplace ⟨hmounted, hin⟩, hcopied⟩

theorem install_runs {name : List UInt8} (hs : Separate s)
    (h : run ∈ (install s env name).2.2) : ∃ i d r, s.find name = some (i, d) ∧
      installRefuses d = false ∧ s.entry .rootfs = some r ∧
      (run = ⟨d.context, d.startLba.toNat, partitionLba⟩ ∨ inPlace d r = false ∧
        ∀ context lba, run.Has context lba →
          WriteRun.Has ⟨d.context, partitionLba, r.blockCount.toNat⟩ context lba) := by
  unfold install at h
  split at h
  · simp at h
  next i d hfind =>
    split at h
    · simp at h
    next hgo =>
      rw [not_or, Bool.not_eq_true] at hgo
      have hread := same_readFileRaw s env bootPath
      split at h
      · simp at h
      next data s₁ heq =>
        rw [heq] at hread
        split at h
        · simp at h
        split at h
        · simp at h
        next r hr => exact ⟨i, d, r, hfind, hgo.2, (hread.entry hs .rootfs) ▸ hr, installOn_runs h⟩

/-- The step lemma of the law. -/
theorem careful_spares (hs : Separate s) (hc : Careful s c.1) : Spares s c := by
  obtain ⟨c, env⟩ := c
  intro w e he context lba hwrites
  cases c with
  | xfsctlFormat name label =>
    obtain ⟨i, d, hfind, v, hv, rfl, hfrom, hto⟩ := hwrites
    exact fun hcovers => hc i d hfind w e he d.context lba ⟨format_covers hv hfrom hto, hcovers⟩
  | xfsctlMount name => exact hwrites.elim
  | xfsctlUnmount => exact hwrites.elim
  | fileCall v call => exact hwrites.elim
  | storagectlPartition name =>
    obtain ⟨i, d, hfind, run, hrun, hhas⟩ := hwrites
    obtain rfl := partition_runs hrun
    exact hc i d hfind w e he context lba hhas
  | install name =>
    obtain ⟨run, hrun, hhas⟩ := hwrites
    obtain ⟨i, d, r, hfind, hok, hr, rfl | ⟨hplace, hcopied⟩⟩ := install_runs hs hrun
    · exact (hc i d hfind hok w e he).1 context lba hhas
    · exact (hc i d hfind hok w e he).2 r hr hplace context lba (hcopied context lba hhas)

theorem careful_clean (hc : Careful s c.1) : ¬ DropsDirty s c := by
  obtain ⟨c, env⟩ := c
  cases c with
  | xfsctlMount name =>
    rintro ⟨i, d, hfind, hsize, hdivides, hdirty⟩
    exact hdirty (hc i d hfind hsize hdivides).1
  | _ => exact fun h => h

theorem separate_lawful {cmds : List (Command × Env)} (hs : Separate s) (hc : CarefulRun s cmds) :
    Lawful s cmds := by
  induction cmds generalizing s with
  | nil => exact hs.exclusive
  | cons c rest ih =>
    exact ⟨hs.exclusive, careful_spares hs hc.1, careful_clean hc.1,
      ih (separate_step hs hc.1) hc.2⟩

theorem booted_separate (h : Booted s) : Separate s := by
  obtain ⟨u, i, d, env, hblank, -, hd, hmount⟩ := h
  unfold mountOn at hmount
  split at hmount
  · simp at hmount
  · obtain ⟨-, rfl⟩ := Prod.mk.inj hmount
    have hxfsctl : (((u.stored d (u.callOn env (u.mounts .rootfs) d (k64XfsMount (geometry d))).2).keep
        .rootfs (some i) (u.callOn env (u.mounts .rootfs) d (k64XfsMount (geometry d))).2).mounts
        .xfsctl).dev = none := by
      change (u.mounts .xfsctl).dev = none
      rw [hblank]
      rfl
    constructor
    · intro w j hj
      cases w with
      | rootfs =>
        obtain rfl : i = j := by simpa [System.keep] using hj
        exact (List.getElem?_eq_some_iff.mp hd).1
      | xfsctl =>
        rw [hxfsctl] at hj
        cases hj
    · intro r x hr hx
      unfold System.entry at hx
      rw [hxfsctl] at hx
      cases hx

/-- No two mounts share a sector, no mounted sector is written past its volume and no cache is dropped
in any run whose commands name no device that is in use. -/
theorem careful_run_lawful (s : System Context ReadFn WriteFn) (cmds : List (Command × Env))
    (hboot : Booted s) (hcareful : CarefulRun s cmds) : Lawful s cmds :=
  separate_lawful (booted_separate hboot) hcareful

theorem mount_clean {w : Holder} {i : ℕ}
    {disk : XfsLogicalDisk.Disk} {sb : Superblock} {c : XfsVolume.Content}
    (hclean : CleanDisk (geometry d) disk sb c) (hview : viewBlock d s.sectors = disk.blk)
    (hworks : Working (deviceOf d s.sectors env.faults) disk.size) :
    ∃ t, mountOn s env w i d = (true, t) ∧ t.table = s.table ∧ (t.mounts w).dev = some i ∧
      (∀ v, v ≠ w → t.mounts v = s.mounts v) ∧
      ∃ disk', Shows (t.mounts w).mem disk' (mountedVolume c sb.generation) := by
  have hblank := represents_blank hworks
  have hblock : (deviceOf d s.sectors env.faults).block = disk.blk := hview
  have hfresh := represents_fresh hblank rfl XfsVolumeRefinement.journalArea
  obtain ⟨size, blk, flushed, raws⟩ := disk
  obtain rfl : flushed = true := hclean.flushed
  obtain rfl : (deviceOf d s.sectors env.faults).block = blk := hblock
  have hready := hclean.withRaws
    (rawLog XfsVolumeRefinement.journalArea (deviceOf d s.sectors env.faults))
  obtain ⟨disk', -, -, hsome, hshows, -⟩ := XfsSystem.call_of_wp
    (s := ⟨(s.mounts w).mem.withTmp s.tmp, _⟩) hfresh (mount_disk hready _)
  have hcall := call_mount hclean.sector (XfsSystem.System.mk ((s.mounts w).mem.withTmp s.tmp)
    ⟨(s.mounts w).cache, deviceOf d s.sectors env.faults⟩)
  have hdivides := divides_of_sector hclean.sector
  have hgo : ¬ (d.blockSize = 0 ∨ 4096 % d.blockSize.toNat ≠ 0) := by
    rintro (hzero | hrest)
    · exact hdivides.1 (by simp [sectorSize, hzero])
    · exact hrest hdivides.2
  have hanswer : (s.callOn env (s.mounts w) d (k64XfsMount (geometry d))).1 = some () :=
    (congrArg Prod.fst hcall).trans hsome
  have hmem : Shows (s.callOn env (s.mounts w) d (k64XfsMount (geometry d))).2.fs disk'
      (mountedVolume c sb.generation) := (congrArg (fun r => r.2.fs) hcall).symm ▸ hshows
  have hmount : mountOn s env w i d = (true, (s.stored d
      (s.callOn env (s.mounts w) d (k64XfsMount (geometry d))).2).keep w (some i)
      (s.callOn env (s.mounts w) d (k64XfsMount (geometry d))).2) := by
    unfold mountOn
    rw [if_neg hgo]
    simp only [hanswer, Option.isSome_some]
  refine ⟨_, hmount, rfl, by simp [System.keep], fun v hv => ?_, disk',
    by simpa [System.keep] using hmem⟩
  simp [System.keep, System.stored, hv]

theorem mount_formatted (s : System Context ReadFn WriteFn) (env : Env) (label : CString)
    (w : Holder) (i : ℕ)
    (hok : xfsDevOk (geometry d) = true) (hlow : 83 < xfsFsBlocks (geometry d))
    (hsmall : xfsFsBlocks (geometry d) ≤ 32768) (hf : ∀ n, env.faults n = false) :
    ∃ t, mountOn (s.stored d (formatCall s env d label).2) env w i d = (true, t) ∧
      t.table = s.table ∧ (t.mounts w).dev = some i ∧ (∀ v, v ≠ w → t.mounts v = s.mounts v) ∧
      (t.mounts w).mem.mounted = true := by
  let before : XfsSystem.System :=
    ⟨blankMount.mem.withTmp s.tmp, ⟨k64XfsCacheInit, deviceOf d s.sectors env.faults⟩⟩
  have hlarge : xfsFsBlocks (geometry d) ≤ 2 ^ 32 - 1 := Nat.le_trans hsmall (by decide)
  obtain ⟨-, disk, hrep, hformatted⟩ := format_represents (s := before) label hok hlow hlarge hf
  have hclean := hformatted.clean hok hlow hsmall rfl
  have hview : viewBlock d (s.stored d (formatCall s env d label).2).sectors = disk.blk :=
    (view_storeLog (divides_of_sector hclean.sector) s.sectors (format_confined s env label).base).trans
      (funext (block_of_flushed hrep hformatted.flushed))
  have hworks : Working (deviceOf d (s.stored d (formatCall s env d label).2).sectors env.faults)
      disk.size := hformatted.size ▸ working_of_ok hok hlarge hf
  obtain ⟨t, hmount, htable, hdev, hothers, disk', hshows⟩ :=
    mount_clean (w := w) (i := i) hclean hview hworks
  exact ⟨t, hmount, htable, hdev, hothers, hshows.mounted⟩

/-- "memxfs", the disk in memory, and "hda". -/
def memName : List UInt8 := [109, 101, 109, 120, 102, 115]
def hdaName : List UInt8 := [104, 100, 97]

/-- The device of `fs_mount_fallback`, whose context is `false`. -/
def memDevice : Entry Bool Unit Unit where
  id := 1
  name := memName
  source := []
  blockSize := 512
  blockCount := 16384
  startLba := 0
  partitionType := 0
  isPartition := false
  writable := true
  online := true
  context := false
  read := some ()
  write := some ()

def hdaDevice : Entry Bool Unit Unit := { memDevice with id := 2, name := hdaName, context := true }

def calm : Env := ⟨fun _ => false, fun _ => true⟩

def unbooted : System Bool Unit Unit :=
  ⟨⟨[memDevice, hdaDevice], 3⟩, fun _ _ => [], fun _ => blankMount, false, Block.zero⟩

/-- No disk holds a volume, so one is made in memory. -/
def memoryBoot : System Bool Unit Unit :=
  (mountOn (unbooted.stored memDevice (formatCall unbooted calm memDevice ⟨[], noNul_nil⟩).2) calm
    .rootfs 0 memDevice).2

theorem memoryBoot_spec : Booted memoryBoot ∧ memoryBoot.table = unbooted.table ∧
    MountedAt memoryBoot .rootfs memDevice ∧ memoryBoot.entry .xfsctl = none := by
  obtain ⟨t, hmount, htable, hdev, hothers, hmounted⟩ := mount_formatted unbooted calm
    (d := memDevice) ⟨[], by simp⟩ .rootfs 0 (by decide) (by decide) (by decide) fun _ => rfl
  have ht : memoryBoot = t := congrArg Prod.snd hmount
  rw [ht]
  have hblank : t.mounts .xfsctl = blankMount := hothers .xfsctl (by decide)
  refine ⟨⟨_, 0, memDevice, calm, rfl, rfl, rfl, hmount⟩, htable, ⟨hmounted, ?_⟩, ?_⟩
  · unfold System.entry
    rw [hdev, htable]
    rfl
  · unfold System.entry
    rw [hblank]
    rfl

theorem find_memoryBoot (name : List UInt8) : memoryBoot.find name = unbooted.find name := by
  unfold System.find
  rw [memoryBoot_spec.2.1]

/-- Another disk may be partitioned. -/
theorem partition_hda_lawful :
    Lawful memoryBoot [(.storagectlPartition hdaName, calm)] := by
  refine careful_run_lawful memoryBoot _ memoryBoot_spec.1 ⟨fun i d hfind w e he => ?_, trivial⟩
  have hda : d = hdaDevice := by
    rw [find_memoryBoot] at hfind
    have hsecond : unbooted.find hdaName = some (1, hdaDevice) := by rfl
    exact (Prod.mk.inj (Option.some.inj (hfind.symm.trans hsecond))).2
  rintro context lba ⟨hrun, -⟩ ⟨hcovers, -⟩
  cases w with
  | rootfs =>
    obtain rfl : memDevice = e := Option.some.inj (memoryBoot_spec.2.2.1.2.symm.trans he.2)
    rw [hda] at hrun
    exact absurd (hrun.symm.trans hcovers) (by decide)
  | xfsctl =>
    have hnone := memoryBoot_spec.2.2.2.symm.trans he.2
    cases hnone

theorem memDevice_partitioned (s : System Bool Unit Unit) :
    (⟨false, 0, 1⟩ : WriteRun Bool) ∈ (partitionOn s calm memDevice).2 := by
  have haccepted : (k64BlockWriteK64Mbr s.table memDevice (fun _ => calm.accepts 0)
      (firstSector s.sectors)).1 = true := by rfl
  unfold partitionOn
  rw [if_neg (by rw [haccepted]; decide)]
  exact List.mem_singleton.mpr rfl

/-- `storagectl partition memxfs k64 yes` writes over the superblock of the root volume. -/
theorem mounted_disk_partitioned : ¬ ∀ (s : System Bool Unit Unit) (cmds : List (Command × Env)),
    Booted s → Lawful s cmds := by
  intro h
  have hlaw := h memoryBoot [(.storagectlPartition memName, calm)] memoryBoot_spec.1
  have hspares : Spares memoryBoot (.storagectlPartition memName, calm) := hlaw.2.1
  have hfind : memoryBoot.find memName = some (0, memDevice) := find_memoryBoot memName
  refine hspares .rootfs memDevice memoryBoot_spec.2.2.1 false 0
    ⟨0, memDevice, hfind, ⟨false, 0, 1⟩, ?_, rfl, by decide, by decide⟩ ⟨rfl, by decide, by decide⟩
  exact memDevice_partitioned memoryBoot

end MountedVolumes
