import K64.BlockDevices
import K64.RunPrefixes
import Mathlib.Data.List.Nodup
import Mathlib.Data.List.Perm.Subperm
import Mathlib.Logic.Function.Basic

/-! # What the block registry says about the disks

Entries of the table are appended and only marked offline, a lookup takes the first of a name, and a
scan passes over names that are there already. -/
namespace BlockRegistry
open BlockDevices

variable {Context ReadFn WriteFn : Type}

theorem inside_450 : 450 < 512 := by decide

theorem inside_454 : 454 < 512 := by decide

theorem inside_458 : 458 < 512 := by decide

theorem inside_510 : 510 < 512 := by decide

theorem inside_511 : 511 < 512 := by decide

/-- The first sector that `k64_block_write_k64_mbr` writes. -/
def k64Mbr (blockCount : UInt64) : Vector UInt8 512 :=
  let n := blockCount - mbrPartitionLba
  ((((((((((((((((Vector.replicate 512 0).set 446 0x80).set 448 0x02).set 450 0x83 inside_450).set 451
    0xFF).set 452 0xFF).set 453 0xFF).set 454 0x00 inside_454).set 455 0x08).set 456 0x00).set 457
    0x00).set 458 n.toUInt8 inside_458).set 459 (n >>> 8).toUInt8).set 460 (n >>> 16).toUInt8).set 461
    (n >>> 24).toUInt8).set 510 0x55 inside_510).set 511 0xAA inside_511

/-- The table, the first sector of each disk, and the names that were registered since they were
unregistered last. The disks do all that they are asked to. -/
structure System (Context ReadFn WriteFn : Type) where
  table : Table Context ReadFn WriteFn
  sectors : Context → Vector UInt8 512
  attached : List UInt8 → Bool

/-- A device is named by its place in the table. The first sector of a disk may also change by other
means than these calls. -/
inductive Call (Context ReadFn WriteFn : Type) where
  | register (name source : Option (List UInt8)) (blockSize : UInt32) (blockCount : UInt64)
      (writable : Bool) (context : Context) (read : Option ReadFn) (write : Option WriteFn)
  | unregister (name : List UInt8)
  | scan (index : ℕ)
  | writeMbr (index : ℕ)
  | changeSector (context : Context) (sector : Vector UInt8 512)

/-- Requests of the registry are for the first sector only. -/
def diskOf (sectors : Context → Vector UInt8 512) : Disk Context ReadFn :=
  fun call => some (sectors call.context)

variable (s : System Context ReadFn WriteFn)

/-- The new entries are those behind the old ones. -/
def System.change (t : Table Context ReadFn WriteFn) : System Context ReadFn WriteFn :=
  { s with
    table := t
    attached := fun name => s.attached name ||
      (t.devices.drop s.table.devices.length).any fun d => d.name == name }

/-- The device, if `k64_block_write_k64_mbr` writes to it. -/
def written (index : ℕ) : Option (Device Context ReadFn WriteFn) :=
  s.table.devices[index]?.filter fun dev =>
    (k64BlockWriteK64Mbr s.table dev (fun _ => true) (diskOf s.sectors)).1

def step [DecidableEq Context] (s : System Context ReadFn WriteFn) :
    Call Context ReadFn WriteFn → System Context ReadFn WriteFn
  | .register name source blockSize blockCount writable context read write =>
    s.change (BlockDevices.step s.table
      (.register name source blockSize blockCount writable context read write))
  | .unregister name => { s with
      table := k64BlockUnregisterDevice s.table name
      attached := Function.update s.attached name false }
  | .scan index => s.change (BlockDevices.step s.table (.scan index (diskOf s.sectors)))
  | .writeMbr index =>
    match written s index with
    | none => s
    | some dev =>
      let sectors := Function.update s.sectors dev.context (k64Mbr dev.blockCount)
      { s with sectors }.change
        (BlockDevices.step s.table (.writeMbr index (fun _ => true) (diskOf sectors)))
  | .changeSector context sector =>
    { s with sectors := Function.update s.sectors context sector }

/-- After `k64_block_init`. -/
def start (sectors : Context → Vector UInt8 512) : System Context ReadFn WriteFn :=
  ⟨k64BlockInit, sectors, fun _ => false⟩

def run [DecidableEq Context] (sectors : Context → Vector UInt8 512)
    (calls : List (Call Context ReadFn WriteFn)) : System Context ReadFn WriteFn :=
  calls.foldl step (start sectors)

def entryType (mbr : Vector UInt8 512) (i : ℕ) : UInt8 := mbr.getD (446 + i * 16 + 4) 0

def entryStart (mbr : Vector UInt8 512) (i : ℕ) : UInt32 := readU32le mbr (446 + i * 16 + 8)

def entryCount (mbr : Vector UInt8 512) (i : ℕ) : UInt32 := readU32le mbr (446 + i * 16 + 12)

variable (dev : Device Context ReadFn WriteFn) (mbr : Vector UInt8 512)

def usable (i : ℕ) : Bool :=
  !(entryType mbr i == 0 || entryCount mbr i == 0 || entryStart mbr i == 0 ||
    (entryStart mbr i).toUInt64 ≥ dev.blockCount)

/-- Its length, clamped to the disk. -/
def clampedCount (i : ℕ) : UInt64 :=
  if (entryCount mbr i).toUInt64 > dev.blockCount - (entryStart mbr i).toUInt64 then
    dev.blockCount - (entryStart mbr i).toUInt64
  else (entryCount mbr i).toUInt64

def partName (i : ℕ) : List UInt8 := partitionName dev.name (UInt8.ofNat (i + 1))

/-- The partition table that a scan of the device reads. -/
def scanned (disk : Disk Context ReadFn) : Option (Vector UInt8 512) :=
  if dev.isPartition || dev.blockSize != 512 || !dev.online || dev.read.isNone then none
  else ((k64BlockRead dev 0 1).bind disk).filter fun mbr =>
    !(mbr.getD 510 0 != 0x55 || mbr.getD 511 0 != 0xAA)

/-- The place and the length that the entry gives. -/
structure Matches (i : ℕ) (p : Device Context ReadFn WriteFn) : Prop where
  usable : usable dev mbr i = true
  start : p.startLba = (entryStart mbr i).toUInt64
  count : p.blockCount = clampedCount dev mbr i

/-- The device with the name of a partition is the one that the entry describes. -/
def ListedAt (t : Table Context ReadFn WriteFn) (i : ℕ) : Prop :=
  match k64BlockFindDeviceByName t (partName dev i) with
  | some p => Matches dev mbr i p
  | none => usable dev mbr i = false

def Listed (t : Table Context ReadFn WriteFn) : Prop := ∀ i < 4, ListedAt dev mbr t i

/-- The call scans that device and reads that partition table. -/
def Scans [DecidableEq Context] :
    Call Context ReadFn WriteFn → Device Context ReadFn WriteFn → Vector UInt8 512 → Prop
  | .scan index, dev, mbr =>
    s.table.devices[index]? = some dev ∧ scanned dev (diskOf s.sectors) = some mbr
  | .writeMbr index, dev, mbr => written s index = some dev ∧
    scanned dev (diskOf (Function.update s.sectors dev.context (k64Mbr dev.blockCount))) = some mbr
  | _, _, _ => False

/-- The arguments with which a driver registers a disk under that name. -/
def Registers : Call Context ReadFn WriteFn → List UInt8 → Prop
  | .register name _ blockSize blockCount _ _ read _, n =>
    read.isSome ∧ blockSize ≠ 0 ∧ blockCount ≠ 0 ∧ n = copyString 32 (name.getD defaultName)
  | _, _ => False

/-- What a call leaves reflects the disks. -/
structure Reflects [DecidableEq Context] (c : Call Context ReadFn WriteFn) : Prop where
  found : ∀ name, (step s c).attached name = true →
    ∃ d, k64BlockFindDeviceByName (step s c).table name = some d ∧ d.online = true
  listed : ∀ dev mbr, Scans s c dev mbr → Listed dev mbr (step s c).table
  registered : ∀ name, Registers c name →
    ((step s c).table.devices.drop s.table.devices.length).any (fun d => d.name == name) = true

/-- The entries among these that describe partitions without a device. -/
def missingOf (t : Table Context ReadFn WriteFn) (is : List ℕ) : List ℕ :=
  is.filter fun i => usable dev mbr i && (k64BlockFindDeviceByName t (partName dev i)).isNone

def missing (t : Table Context ReadFn WriteFn) : List ℕ := missingOf dev mbr t (List.range 4)

/-- No stale device has the name of a partition, and there is room for the new ones. -/
structure Scannable (t : Table Context ReadFn WriteFn) : Prop where
  current : ∀ i < 4, ∀ p, k64BlockFindDeviceByName t (partName dev i) = some p →
    Matches dev mbr i p
  room : t.devices.length + (missing dev mbr t).length ≤ maxBlockDevices
  named : missing dev mbr t ≠ [] → dev.name.length + 3 < 32

/-- A disk is registered while an entry is free, and the first entry of its name, if there is one, is
online; a scan finds no stale partitions. -/
structure Fresh [DecidableEq Context] (c : Call Context ReadFn WriteFn) : Prop where
  register : ∀ name, Registers c name → s.table.devices.length < maxBlockDevices ∧
    ∀ d, k64BlockFindDeviceByName s.table name = some d → d.online = true
  scan : ∀ dev mbr, Scans s c dev mbr → Scannable dev mbr s.table

variable {t t' : Table Context ReadFn WriteFn} {dev : Device Context ReadFn WriteFn}
  {mbr : Vector UInt8 512} {i : ℕ}

structure Readable (dev : Device Context ReadFn WriteFn) : Prop where
  disk : dev.isPartition = false
  blockSize : dev.blockSize = 512
  read : dev.read.isSome = true
  noNul : (0 : UInt8) ∉ dev.name

theorem partName_inj (dev : Device Context ReadFn WriteFn) {i j : ℕ} (hi : i < 4) (hj : j < 4)
    (h : partName dev i = partName dev j) : i = j := by
  have hdigit := List.append_cancel_left h
  simp only [List.cons.injEq, and_true, true_and] at hdigit
  have hnat := congrArg UInt8.toNat hdigit
  simp only [UInt8.toNat_add, UInt8.toNat_ofNat'] at hnat
  simp at hnat
  omega

theorem partName_noNul (h : (0 : UInt8) ∉ dev.name) (hi : i < 4) :
    (0 : UInt8) ∉ partName dev i := by
  intro hmem
  rcases List.mem_append.1 hmem with hmem | hmem
  · exact h hmem
  · simp only [List.mem_cons, List.not_mem_nil, or_false] at hmem
    rcases hmem with hmem | hmem
    · cases hmem
    · have hnat := congrArg UInt8.toNat hmem
      simp only [UInt8.toNat_add, UInt8.toNat_ofNat'] at hnat
      simp at hnat
      omega

theorem scan_count (h : usable dev mbr i = true) :
    (if (entryCount mbr i).toUInt64 > dev.blockCount - (entryStart mbr i).toUInt64 then
      (dev.blockCount - (entryStart mbr i).toUInt64).toUInt32 else entryCount mbr i).toUInt64 =
        clampedCount dev mbr i ∧ clampedCount dev mbr i ≠ 0 := by
  simp only [usable, Bool.not_eq_true', Bool.or_eq_false_iff, beq_eq_false_iff_ne,
    decide_eq_false_iff_not, ge_iff_le, UInt64.not_le] at h
  obtain ⟨⟨⟨-, hcount⟩, -⟩, hstart⟩ := h
  have hlt := UInt64.lt_iff_toNat_lt.1 hstart
  have hsub : (dev.blockCount - (entryStart mbr i).toUInt64).toNat =
      dev.blockCount.toNat - (entryStart mbr i).toNat :=
    UInt64.toNat_sub_of_le _ _ (UInt64.le_iff_toNat_le.2 (Nat.le_of_lt hlt))
  rw [UInt32.toNat_toUInt64] at hlt
  have hne : (entryCount mbr i).toNat ≠ 0 := fun hzero => hcount (UInt32.toNat_inj.1 hzero)
  rw [clampedCount]
  split
  · rename_i hgt
    have hgt' := UInt64.lt_iff_toNat_lt.1 hgt
    rw [hsub, UInt32.toNat_toUInt64] at hgt'
    have hbound := (entryCount mbr i).toNat_lt
    constructor
    · apply UInt64.toNat_inj.1
      rw [UInt32.toNat_toUInt64, UInt64.toNat_toUInt32, hsub]
      exact Nat.mod_eq_of_lt (by omega)
    · intro hzero
      have hnat : (dev.blockCount - (entryStart mbr i).toUInt64).toNat = 0 := by
        rw [hzero]
        rfl
      rw [hsub] at hnat
      omega
  · refine ⟨rfl, fun hzero => hne ?_⟩
    have hnat := congrArg UInt64.toNat hzero
    rwa [UInt32.toNat_toUInt64] at hnat

structure Added (dev : Device Context ReadFn WriteFn) (mbr : Vector UInt8 512)
    (t t' : Table Context ReadFn WriteFn) (i : ℕ) (p : Device Context ReadFn WriteFn) : Prop where
  devices : t'.devices = t.devices ++ [p]
  name : p.name = partName dev i
  online : p.online = true
  entry : Matches dev mbr i p
  absent : k64BlockFindDeviceByName t (partName dev i) = none
  room : t.devices.length < maxBlockDevices
  named : dev.name.length + 3 < 32

def Passed (dev : Device Context ReadFn WriteFn) (mbr : Vector UInt8 512)
    (t : Table Context ReadFn WriteFn) (i : ℕ) : Prop :=
  usable dev mbr i = false ∨ (k64BlockFindDeviceByName t (partName dev i)).isSome = true ∨
    maxBlockDevices ≤ t.devices.length ∨ 32 ≤ dev.name.length + 3

theorem registerPartition_cases (hr : Readable dev) (hi : i < 4) (t : Table Context ReadFn WriteFn)
    (h : usable dev mbr i = true) :
    registerPartition t dev (UInt8.ofNat (i + 1)) (entryType mbr i) (entryStart mbr i).toUInt64
        (clampedCount dev mbr i) = t ∧ Passed dev mbr t i ∨
    ∃ p, Added dev mbr t (registerPartition t dev (UInt8.ofNat (i + 1)) (entryType mbr i)
      (entryStart mbr i).toUInt64 (clampedCount dev mbr i)) i p := by
  have hne := (scan_count h).2
  rw [registerPartition]
  split
  · rename_i hcond
    refine Or.inl ⟨rfl, Or.inr (Or.inr (Or.inl ?_))⟩
    simpa [hr.disk, hne] using hcond
  rename_i hcond
  have hroom : ¬ maxBlockDevices ≤ t.devices.length := by simpa [hr.disk, hne] using hcond
  split
  · rename_i hlong
    exact Or.inl ⟨rfl, Or.inr (Or.inr (Or.inr hlong))⟩
  rename_i hshort
  dsimp only
  split
  · rename_i hfound
    exact Or.inl ⟨rfl, Or.inr (Or.inl hfound)⟩
  rename_i hfound
  right
  obtain ⟨fn, hread⟩ := Option.isSome_iff_exists.1 hr.read
  have hregister : ¬ (maxBlockDevices ≤ t.devices.length ∨ dev.read.isNone = true ∨
      dev.blockSize = 0 ∨ clampedCount dev mbr i = 0) := by
    rw [hread, hr.blockSize]
    simp [hroom, hne]
  rw [k64BlockRegisterDevice, if_neg hregister]
  dsimp only
  rw [List.dropLast_concat]
  have hname : copyString 32 (partitionName dev.name (UInt8.ofNat (i + 1))) = partName dev i := by
    refine copyString_eq (partName_noNul hr.noNul hi) ?_
    simp only [partitionName, List.length_append, List.length_cons, List.length_nil]
    omega
  exact ⟨_, rfl, hname, rfl, ⟨h, rfl, rfl⟩, Option.not_isSome_iff_eq_none.1 hfound,
    Nat.lt_of_not_le hroom,
    Nat.lt_of_not_le hshort⟩

theorem scanEntry_cases (mbr : Vector UInt8 512) (hr : Readable dev) (hi : i < 4)
    (t : Table Context ReadFn WriteFn) :
    scanEntry dev mbr t i = t ∧ Passed dev mbr t i ∨
    ∃ p, Added dev mbr t (scanEntry dev mbr t i) i p := by
  have hguard : (mbr.getD (446 + i * 16 + 4) 0 == 0 || readU32le mbr (446 + i * 16 + 12) == 0 ||
      readU32le mbr (446 + i * 16 + 8) == 0 ||
      (readU32le mbr (446 + i * 16 + 8)).toUInt64 ≥ dev.blockCount) = !usable dev mbr i := by
    rw [usable, Bool.not_not]
    rfl
  rw [scanEntry]
  dsimp only
  rw [hguard]
  cases hu : usable dev mbr i with
  | false => exact Or.inl ⟨rfl, Or.inl hu⟩
  | true =>
    have hcases := registerPartition_cases hr hi t hu
    rw [← (scan_count hu).1] at hcases
    exact hcases

structure Appends (dev : Device Context ReadFn WriteFn) (is : List ℕ)
    (t t' : Table Context ReadFn WriteFn) (extra : List (Device Context ReadFn WriteFn)) :
    Prop where
  devices : t'.devices = t.devices ++ extra
  entry : ∀ p ∈ extra, p.online = true ∧ k64BlockFindDeviceByName t p.name = none ∧
    ∃ i ∈ is, p.name = partName dev i
  named : extra ≠ [] → dev.name.length + 3 < 32
  room : extra ≠ [] → t'.devices.length ≤ maxBlockDevices

variable {extra : List (Device Context ReadFn WriteFn)} {name : List UInt8}

theorem find_of_devices
    (h : t'.devices = t.devices ++ extra) : k64BlockFindDeviceByName t' name =
      (k64BlockFindDeviceByName t name).or (extra.find? fun d => d.name = name) := by
  rw [k64BlockFindDeviceByName, h]
  exact List.find?_append

theorem fold_appends (mbr : Vector UInt8 512) (hr : Readable dev) (is : List ℕ) :
    ∀ t : Table Context ReadFn WriteFn,
    (∀ i ∈ is, i < 4) → ∃ extra, Appends dev is t (is.foldl (scanEntry dev mbr) t) extra := by
  induction is with
  | nil => exact fun t _ => ⟨[], (List.append_nil _).symm, nofun, (absurd rfl ·), (absurd rfl ·)⟩
  | cons i is ih =>
    intro t hlt
    obtain ⟨extra, hrest⟩ := ih (scanEntry dev mbr t i) fun j hj => hlt j (List.mem_cons_of_mem i hj)
    rcases scanEntry_cases mbr hr (hlt i List.mem_cons_self) t with ⟨heq, -⟩ | ⟨p, hp⟩
    · rw [heq] at hrest
      rw [List.foldl_cons, heq]
      refine ⟨extra, hrest.devices, fun q hq => ?_, hrest.named, hrest.room⟩
      obtain ⟨honline, hnone, j, hj, hname⟩ := hrest.entry q hq
      exact ⟨honline, hnone, j, List.mem_cons_of_mem i hj, hname⟩
    · rw [List.foldl_cons]
      have hdevices : (is.foldl (scanEntry dev mbr) (scanEntry dev mbr t i)).devices =
          t.devices ++ p :: extra := by
        rw [hrest.devices, hp.devices, List.append_assoc, List.singleton_append]
      refine ⟨p :: extra, hdevices, fun q hq => ?_, fun _ => hp.named, fun _ => ?_⟩
      · rcases List.mem_cons.1 hq with rfl | hq
        · exact ⟨hp.online, hp.name ▸ hp.absent, i, List.mem_cons_self, hp.name⟩
        · obtain ⟨honline, hnone, j, hj, hname⟩ := hrest.entry q hq
          rw [find_of_devices hp.devices] at hnone
          exact ⟨honline, (Option.or_eq_none_iff.1 hnone).1, j, List.mem_cons_of_mem i hj, hname⟩
      · cases extra with
        | nil =>
          have hroom := hp.room
          rw [hdevices, List.length_append, List.length_singleton]
          exact hroom
        | cons q extra => exact hrest.room (List.cons_ne_nil q extra)

variable {p : Device Context ReadFn WriteFn}

theorem Appends.find_some {is : List ℕ}
    (h : Appends dev is t t' extra)
    (hp : k64BlockFindDeviceByName t name = some p) :
    k64BlockFindDeviceByName t' name = some p := by
  rw [find_of_devices h.devices, hp, Option.some_or]

theorem Appends.find_other {is : List ℕ}
    (h : Appends dev is t t' extra) (hname : ∀ i ∈ is, name ≠ partName dev i) :
    k64BlockFindDeviceByName t' name = k64BlockFindDeviceByName t name := by
  rw [find_of_devices h.devices]
  have hnone : extra.find? (fun d => d.name = name) = none := by
    refine List.find?_eq_none.2 fun p hp heq => ?_
    obtain ⟨-, -, i, hi, hpart⟩ := h.entry p hp
    exact hname i hi ((of_decide_eq_true heq).symm.trans hpart)
  rw [hnone, Option.or_none]

theorem missingOf_cons (t : Table Context ReadFn WriteFn) (i : ℕ) (is : List ℕ) :
    missingOf dev mbr t (i :: is) =
      if usable dev mbr i && (k64BlockFindDeviceByName t (partName dev i)).isNone then
        i :: missingOf dev mbr t is
      else missingOf dev mbr t is := List.filter_cons

theorem Passed.not_missing {is : List ℕ} (h : Passed dev mbr t i)
    (hroom : t.devices.length + (missingOf dev mbr t (i :: is)).length ≤ maxBlockDevices)
    (hnamed : missingOf dev mbr t (i :: is) ≠ [] → dev.name.length + 3 < 32) :
    ¬ (usable dev mbr i && (k64BlockFindDeviceByName t (partName dev i)).isNone) = true := by
  intro hmissing
  rw [missingOf_cons, if_pos hmissing] at hroom hnamed
  simp only [Bool.and_eq_true, Option.isNone_iff_eq_none] at hmissing
  have hshort := hnamed (List.cons_ne_nil _ _)
  rw [List.length_cons] at hroom
  rcases h with hu | hfound | hfull | hlong
  · rw [hmissing.1] at hu
    cases hu
  · rw [hmissing.2] at hfound
    cases hfound
  · omega
  · omega

theorem Added.missing (h : Added dev mbr t t' i p) :
    (usable dev mbr i && (k64BlockFindDeviceByName t (partName dev i)).isNone) = true := by
  rw [h.entry.usable, h.absent]
  rfl

theorem Added.appends (h : Added dev mbr t t' i p) :
    Appends dev [i] t t' [p] := by
  refine ⟨h.devices, fun q hq => ?_, fun _ => h.named, fun _ => ?_⟩
  · rw [List.mem_singleton.1 hq]
    exact ⟨h.online, h.name ▸ h.absent, i, List.mem_singleton_self i, h.name⟩
  · rw [h.devices, List.length_append, List.length_singleton]
    exact h.room

theorem Added.find_self (h : Added dev mbr t t' i p) :
    k64BlockFindDeviceByName t' (partName dev i) = some p := by
  rw [find_of_devices h.devices, h.absent, Option.none_or, List.find?_cons_of_pos]
  exact decide_eq_true h.name

theorem fold_listed (hr : Readable dev) (is : List ℕ) : ∀ t : Table Context ReadFn WriteFn,
    is.Nodup → (∀ i ∈ is, i < 4) →
    (∀ i ∈ is, ∀ p, k64BlockFindDeviceByName t (partName dev i) = some p → Matches dev mbr i p) →
    t.devices.length + (missingOf dev mbr t is).length ≤ maxBlockDevices →
    (missingOf dev mbr t is ≠ [] → dev.name.length + 3 < 32) →
    ∀ i ∈ is, ListedAt dev mbr (is.foldl (scanEntry dev mbr) t) i := by
  induction is with
  | nil => exact fun t _ _ _ _ _ i hi => absurd hi List.not_mem_nil
  | cons i is ih =>
    intro t hnodup hlt hcurrent hroom hnamed
    obtain ⟨hi, hnodup⟩ := List.nodup_cons.1 hnodup
    have hi4 := hlt i List.mem_cons_self
    have hlt' : ∀ j ∈ is, j < 4 := fun j hj => hlt j (List.mem_cons_of_mem i hj)
    have hne : ∀ j ∈ is, partName dev i ≠ partName dev j := by
      rintro j hj heq
      rw [partName_inj dev hi4 (hlt' j hj) heq] at hi
      exact hi hj
    obtain ⟨extra, hrest⟩ := fold_appends mbr hr is (scanEntry dev mbr t i) hlt'
    rw [List.foldl_cons]
    rcases scanEntry_cases mbr hr hi4 t with ⟨heq, hpassed⟩ | ⟨p, hp⟩
    · have hmissing := hpassed.not_missing hroom hnamed
      rw [missingOf_cons, if_neg hmissing] at hroom hnamed
      rw [heq] at hrest ⊢
      intro j hj
      rcases List.mem_cons.1 hj with rfl | hj
      · rw [ListedAt, hrest.find_other hne]
        rcases hfind : k64BlockFindDeviceByName t (partName dev j) with _ | p
        · rw [hfind, Option.isNone_none, Bool.and_true] at hmissing
          exact Bool.eq_false_iff.2 hmissing
        · exact hcurrent j List.mem_cons_self p hfind
      · exact ih t hnodup hlt' (fun k hk => hcurrent k (List.mem_cons_of_mem i hk)) hroom hnamed j hj
    · rw [missingOf_cons, if_pos hp.missing] at hroom hnamed
      have hshort := hnamed (List.cons_ne_nil _ _)
      have hsame : ∀ j ∈ is, k64BlockFindDeviceByName (scanEntry dev mbr t i) (partName dev j) =
          k64BlockFindDeviceByName t (partName dev j) := by
        refine fun j hj => hp.appends.find_other fun k hk => ?_
        rw [List.mem_singleton.1 hk]
        exact (hne j hj).symm
      have hmissing' : missingOf dev mbr (scanEntry dev mbr t i) is = missingOf dev mbr t is :=
        List.filter_congr fun j hj => by rw [hsame j hj]
      intro j hj
      rcases List.mem_cons.1 hj with rfl | hj
      · rw [ListedAt, hrest.find_some hp.find_self]
        exact hp.entry
      · refine ih _ hnodup hlt' (fun k hk q hq => ?_) ?_ (fun _ => hshort) j hj
        · rw [hsame k hk] at hq
          exact hcurrent k (List.mem_cons_of_mem i hk) q hq
        · rw [hmissing', hp.devices, List.length_append, List.length_singleton]
          rw [List.length_cons] at hroom
          omega

theorem scannable_of_listed (hr : Readable dev) (hsized : t.devices.length ≤ maxBlockDevices)
    (h : Listed dev mbr ((List.range 4).foldl (scanEntry dev mbr) t)) : Scannable dev mbr t := by
  obtain ⟨extra, hall⟩ := fold_appends mbr hr (List.range 4) t fun i hi =>
    List.mem_range.1 hi
  -- every missing entry has a device among the new ones
  have hadded : ∀ i ∈ missing dev mbr t, partName dev i ∈ extra.map Device.name := by
    intro i hi
    obtain ⟨hrange, hmissing⟩ := List.mem_filter.1 hi
    simp only [Bool.and_eq_true, Option.isNone_iff_eq_none] at hmissing
    have hlisted := h i (List.mem_range.1 hrange)
    rw [ListedAt, find_of_devices hall.devices, hmissing.2, Option.none_or] at hlisted
    rcases hfind : extra.find? (fun d => d.name = partName dev i) with _ | p
    · rw [hfind] at hlisted
      exact absurd (hmissing.1.symm.trans hlisted) (by decide)
    · have hname : p.name = partName dev i := by simpa using List.find?_some hfind
      exact List.mem_map.2 ⟨p, List.mem_of_find?_eq_some hfind, hname⟩
  have hnonempty : missing dev mbr t ≠ [] → extra ≠ [] := by
    intro hne heq
    obtain ⟨i, hi⟩ := List.exists_mem_of_ne_nil _ hne
    have hmem := hadded i hi
    rw [heq] at hmem
    cases hmem
  refine ⟨fun i hi p hp => ?_, ?_, fun hne => hall.named (hnonempty hne)⟩
  · have hlisted := h i hi
    rwa [ListedAt, hall.find_some hp] at hlisted
  · by_cases hne : missing dev mbr t = []
    · rw [hne]
      exact hsized
    · have hnodup : ((missing dev mbr t).map (partName dev)).Nodup := by
        refine List.Nodup.map_on (fun i hi j hj => ?_) (List.nodup_range.filter _)
        exact partName_inj dev (List.mem_range.1 (List.mem_filter.1 hi).1)
          (List.mem_range.1 (List.mem_filter.1 hj).1)
      have hsubset : (missing dev mbr t).map (partName dev) ⊆ extra.map Device.name := by
        intro name hname
        obtain ⟨i, hi, rfl⟩ := List.mem_map.1 hname
        exact hadded i hi
      have hle := (List.subperm_of_subset hnodup hsubset).length_le
      have hroom := hall.room (hnonempty hne)
      rw [hall.devices, List.length_append] at hroom
      rw [List.length_map, List.length_map] at hle
      omega

theorem listed_of_scannable (hr : Readable dev) (h : Scannable dev mbr t) :
    Listed dev mbr ((List.range 4).foldl (scanEntry dev mbr) t) := by
  intro i hi
  exact fold_listed hr (List.range 4) t List.nodup_range (fun j hj => List.mem_range.1 hj)
    (fun j hj => h.current j (List.mem_range.1 hj)) h.room h.named i (List.mem_range.2 hi)

theorem scan_eq (t : Table Context ReadFn WriteFn) (dev : Device Context ReadFn WriteFn)
    (disk : Disk Context ReadFn) : k64BlockScanPartitions t dev disk =
      match scanned dev disk with
      | none => t
      | some mbr => (List.range 4).foldl (scanEntry dev mbr) t := by
  rw [k64BlockScanPartitions, scanned]
  split
  · rfl
  · rcases (k64BlockRead dev 0 1).bind disk with _ | mbr
    · rfl
    · rw [Option.filter_some]
      dsimp only
      cases mbr.getD 510 0 != 0x55 || mbr.getD 511 0 != 0xAA <;> rfl

theorem scanned_readable {disk : Disk Context ReadFn} (hc : Contained t) (hdev : dev ∈ t.devices)
    (h : scanned dev disk = some mbr) : Readable dev := by
  rw [scanned] at h
  split at h
  · cases h
  · rename_i hguard
    simp only [Bool.or_eq_true, not_or, bne_iff_ne, ne_eq, not_not, Bool.not_eq_true,
      Option.isNone_eq_false_iff] at hguard
    exact ⟨hguard.1.1.1, hguard.1.1.2, hguard.2, hc.noNul dev hdev⟩

theorem scan_appends (hc : Contained t) (hdev : dev ∈ t.devices) (disk : Disk Context ReadFn) :
    ∃ extra, Appends dev (List.range 4) t (k64BlockScanPartitions t dev disk) extra := by
  rw [scan_eq]
  split
  · exact ⟨[], (List.append_nil _).symm, nofun, (absurd rfl ·), (absurd rfl ·)⟩
  · rename_i hscanned
    exact fold_appends _ (scanned_readable hc hdev hscanned) (List.range 4) t fun i hi =>
      List.mem_range.1 hi

variable {s : System Context ReadFn WriteFn}
  {c : Call Context ReadFn WriteFn}

def Found (s : System Context ReadFn WriteFn) : Prop := ∀ name, s.attached name = true →
  ∃ d, k64BlockFindDeviceByName s.table name = some d ∧ d.online = true

theorem change_found (h : Found s) (extra : List (Device Context ReadFn WriteFn))
    (hdevices : t.devices = s.table.devices ++ extra)
    (hextra : ∀ p ∈ extra, p.online = true ∧
      ∀ q, k64BlockFindDeviceByName s.table p.name = some q → q.online = true) :
    Found (s.change t) := by
  intro name hname
  have hname' : s.attached name = true ∨ ∃ p ∈ extra, p.name = name := by
    simpa [System.change, hdevices] using hname
  rw [show (s.change t).table = t from rfl, find_of_devices hdevices]
  rcases hold : k64BlockFindDeviceByName s.table name with _ | q
  · obtain ⟨p, hp, hpname⟩ : ∃ p ∈ extra, p.name = name := by
      refine hname'.resolve_left fun hattached => ?_
      obtain ⟨q, hq, -⟩ := h name hattached
      rw [hold] at hq
      cases hq
    rcases hfind : extra.find? (fun d => d.name = name) with _ | q
    · exact absurd (decide_eq_true hpname) (List.find?_eq_none.1 hfind p hp)
    · exact ⟨q, hfind, (hextra q (List.mem_of_find?_eq_some hfind)).1⟩
  · refine ⟨q, rfl, ?_⟩
    rcases hname' with hattached | ⟨p, hp, rfl⟩
    · obtain ⟨q', hq', honline⟩ := h name hattached
      rw [hold] at hq'
      cases hq'
      exact honline
    · exact (hextra p hp).2 q hold

structure Current (s : System Context ReadFn WriteFn) : Prop where
  contained : Contained s.table
  sized : s.table.devices.length ≤ maxBlockDevices
  found : Found s

theorem scan_current (h : Current s) (hdev : dev ∈ s.table.devices)
    (sectors : Context → Vector UInt8 512) : Current ({ s with sectors }.change
      (k64BlockScanPartitions s.table dev (diskOf sectors))) := by
  obtain ⟨extra, hall⟩ := scan_appends h.contained hdev (diskOf sectors)
  refine ⟨contained_scan h.contained hdev _, ?_, ?_⟩
  · change (k64BlockScanPartitions s.table dev (diskOf sectors)).devices.length ≤ maxBlockDevices
    rcases extra with _ | ⟨p, extra⟩
    · rw [hall.devices, List.append_nil]
      exact h.sized
    · exact hall.room (List.cons_ne_nil p extra)
  · refine change_found (s := { s with sectors }) h.found _ hall.devices fun p hp => ?_
    obtain ⟨honline, hnone, -⟩ := hall.entry p hp
    refine ⟨honline, fun q hq => ?_⟩
    rw [hnone] at hq
    cases hq

theorem listed_iff_scannable (h : Current s) (hdev : dev ∈ s.table.devices)
    {disk : Disk Context ReadFn} (hscanned : scanned dev disk = some mbr) :
    Listed dev mbr (k64BlockScanPartitions s.table dev disk) ↔ Scannable dev mbr s.table := by
  have hr := scanned_readable h.contained hdev hscanned
  rw [scan_eq, hscanned]
  exact ⟨scannable_of_listed hr h.sized, listed_of_scannable hr⟩

theorem written_some {index : ℕ} (h : written s index = some dev) :
    s.table.devices[index]? = some dev ∧ ∀ disk : Disk Context ReadFn,
      (k64BlockWriteK64Mbr s.table dev (fun _ => true) disk).2 =
        k64BlockScanPartitions s.table dev disk := by
  obtain ⟨hdev, hwrites⟩ := Option.filter_eq_some_iff.1 h
  refine ⟨hdev, fun disk => ?_⟩
  rw [k64BlockWriteK64Mbr] at hwrites ⊢
  split at hwrites
  · cases hwrites
  · rename_i hguard
    rw [if_neg hguard]
    rcases hcall : k64BlockWrite dev 0 1 with _ | call
    · rw [hcall] at hwrites
      cases hwrites
    · rfl

theorem step_scans [DecidableEq Context] (h : Scans s c dev mbr) : dev ∈ s.table.devices ∧
    ∃ sectors, scanned dev (diskOf sectors) = some mbr ∧ step s c =
      { s with sectors }.change (k64BlockScanPartitions s.table dev (diskOf sectors)) := by
  cases c with
  | scan index =>
    obtain ⟨hdev, hscanned⟩ := h
    refine ⟨List.mem_of_getElem? hdev, s.sectors, hscanned, ?_⟩
    rw [step, BlockDevices.step, hdev]
  | writeMbr index =>
    obtain ⟨hwritten, hscanned⟩ := h
    obtain ⟨hdev, hscan⟩ := written_some hwritten
    refine ⟨List.mem_of_getElem? hdev, _, hscanned, ?_⟩
    rw [step, hwritten]
    dsimp only
    rw [BlockDevices.step, hdev]
    dsimp only
    rw [hscan]
  | _ => exact h.elim

theorem register_cases (t : Table Context ReadFn WriteFn) (name source : Option (List UInt8))
    (blockSize : UInt32) (blockCount : UInt64) (writable : Bool) (context : Context)
    (read : Option ReadFn) (write : Option WriteFn) :
    (∃ d, (BlockDevices.step t (.register name source blockSize blockCount writable context read
          write)).devices = t.devices ++ [d] ∧ d.name = copyString 32 (name.getD defaultName) ∧
        d.online = true ∧ t.devices.length < maxBlockDevices ∧
        read.isSome = true ∧ blockSize ≠ 0 ∧ blockCount ≠ 0) ∨
    BlockDevices.step t (.register name source blockSize blockCount writable context read
        write) = t ∧
      (maxBlockDevices ≤ t.devices.length ∨ read.isNone = true ∨ blockSize = 0 ∨
        blockCount = 0) := by
  rw [BlockDevices.step, k64BlockRegisterDevice]
  split
  · rename_i hnone
    split at hnone
    · rename_i hrefused
      exact Or.inr ⟨rfl, hrefused⟩
    · cases hnone
  · rename_i hsome
    split at hsome
    · cases hsome
    · rename_i haccepted
      simp only [not_or, Nat.not_le, Bool.not_eq_true, Option.isNone_eq_false_iff] at haccepted
      cases hsome
      exact Or.inl ⟨_, rfl, rfl, rfl, haccepted.1, haccepted.2.1, haccepted.2.2.1,
        haccepted.2.2.2⟩

theorem find_unregister (t : Table Context ReadFn WriteFn) {name' : List UInt8}
    (hne : name' ≠ name) :
    k64BlockFindDeviceByName (k64BlockUnregisterDevice t name) name' =
      k64BlockFindDeviceByName t name' := by
  rw [k64BlockFindDeviceByName, k64BlockFindDeviceByName, k64BlockUnregisterDevice]
  dsimp only
  induction t.devices with
  | nil => rfl
  | cons d ds ih =>
    rw [List.map_cons, List.find?_cons, List.find?_cons, ih]
    by_cases hd : d.name = name
    · rw [if_pos hd]
      have hother : ¬ d.name = name' := fun heq => hne (heq.symm.trans hd)
      rw [decide_eq_false hother, decide_eq_false (show ¬ d.detached.name = name' from hother)]
    · rw [if_neg hd]

theorem unregister_current [DecidableEq Context] (h : Current s) (name : List UInt8) :
    Current (step s (.unregister name)) := by
  refine ⟨contained_unregister h.contained name, ?_, fun name' hname => ?_⟩
  · rw [show (step s (.unregister name)).table.devices.length = _ from List.length_map _]
    exact h.sized
  · have hne : name' ≠ name := by
      rintro rfl
      exact absurd hname (by simp [step])
    have hname : s.attached name' = true := by simpa [step, Function.update_of_ne hne] using hname
    change ∃ d, k64BlockFindDeviceByName (k64BlockUnregisterDevice s.table name) name' = some d ∧ _
    rw [find_unregister s.table hne]
    exact h.found name' hname

theorem register_current [DecidableEq Context] (h : Current s)
    {name source : Option (List UInt8)} {blockSize : UInt32}
    {blockCount : UInt64} {writable : Bool} {context : Context} {read : Option ReadFn}
    {write : Option WriteFn} (hf : Fresh s (.register name source blockSize blockCount writable
      context read write)) :
    Current (step s (.register name source blockSize blockCount writable context read write)) := by
  have hcontained := contained_step h.contained
    (.register name source blockSize blockCount writable context read write)
  rcases register_cases s.table name source blockSize blockCount writable context read write with
    ⟨d, hdevices, hname, honline, hroom, hread, hsize, hcount⟩ | ⟨hsame, -⟩
  · refine ⟨hcontained, ?_, change_found h.found _ hdevices fun p hp => ?_⟩
    · rw [show (step s (.register name source blockSize blockCount writable context read
        write)).table.devices.length = _ from congrArg List.length hdevices, List.length_append]
      exact hroom
    · rw [List.mem_singleton.1 hp]
      refine ⟨honline, fun q hq => (hf.register d.name ?_).2 q hq⟩
      exact ⟨hread, hsize, hcount, hname⟩
  · refine ⟨hcontained, ?_, change_found h.found [] ?_ nofun⟩
    · rw [show (step s (.register name source blockSize blockCount writable context read
        write)).table = _ from hsame]
      exact h.sized
    · rw [hsame, List.append_nil]

theorem step_current [DecidableEq Context] (h : Current s) (hf : Fresh s c) :
    Current (step s c) := by
  have hsame : Current (s.change s.table) :=
    ⟨h.contained, h.sized, change_found h.found [] (List.append_nil _).symm nofun⟩
  cases c with
  | register name source blockSize blockCount writable context read write =>
    exact register_current h hf
  | unregister name => exact unregister_current h name
  | scan index =>
    rw [step, BlockDevices.step]
    rcases hdev : s.table.devices[index]? with _ | dev
    · exact hsame
    · exact scan_current h (List.mem_of_getElem? hdev) s.sectors
  | writeMbr index =>
    rw [step]
    rcases hwritten : written s index with _ | dev
    · exact h
    · obtain ⟨hdev, hscan⟩ := written_some hwritten
      dsimp only
      rw [BlockDevices.step, hdev]
      dsimp only
      rw [hscan]
      exact scan_current h (List.mem_of_getElem? hdev) _
  | changeSector context sector => exact ⟨h.contained, h.sized, h.found⟩

theorem reflects_of_fresh [DecidableEq Context] (h : Current s) (hf : Fresh s c) :
    Reflects s c := by
  refine ⟨(step_current h hf).found, fun dev mbr hscans => ?_, fun name hname => ?_⟩
  · obtain ⟨hdev, sectors, hscanned, hstep⟩ := step_scans hscans
    rw [hstep]
    exact (listed_iff_scannable h hdev hscanned).2 (hf.scan dev mbr hscans)
  · cases c with
    | register name' source blockSize blockCount writable context read write =>
      obtain ⟨hread, hsize, hcount, rfl⟩ := hname
      have hroom := (hf.register _ ⟨hread, hsize, hcount, rfl⟩).1
      rcases register_cases s.table name' source blockSize blockCount writable context read
        write with ⟨d, hdevices, hd, -⟩ | ⟨-, hrefused⟩
      · rw [step, System.change]
        dsimp only
        rw [hdevices, List.drop_left, List.any_cons, hd, beq_self_eq_true, Bool.true_or]
      · rcases hrefused with hfull | hnull | hzero | hempty
        · exact absurd hroom (Nat.not_lt_of_le hfull)
        · rw [Option.isNone_iff_eq_none] at hnull
          rw [hnull] at hread
          cases hread
        · exact absurd hzero hsize
        · exact absurd hempty hcount
    | _ => exact hname.elim

theorem fresh_of_reflects [DecidableEq Context] (h : Current s) (hr : Reflects s c) :
    Fresh s c := by
  refine ⟨fun name hname => ?_, fun dev mbr hscans => ?_⟩
  · have hnew := hr.registered name hname
    cases c with
    | register name' source blockSize blockCount writable context read write =>
      rcases register_cases s.table name' source blockSize blockCount writable context read
        write with ⟨d, hdevices, -, -, hroom, -⟩ | ⟨hsame, -⟩
      · refine ⟨hroom, fun q hq => ?_⟩
        have hattached : (step s (.register name' source blockSize blockCount writable context read
            write)).attached name = true := by
          rw [step, System.change]
          dsimp only
          rw [Bool.or_eq_true]
          exact Or.inr hnew
        obtain ⟨q', hq', honline⟩ := hr.found name hattached
        rw [step, System.change] at hq'
        dsimp only at hq'
        rw [find_of_devices hdevices, hq, Option.some_or] at hq'
        cases hq'
        exact honline
      · rw [step, System.change] at hnew
        dsimp only at hnew
        rw [hsame, List.drop_length] at hnew
        cases hnew
    | _ => exact hname.elim
  · obtain ⟨hdev, sectors, hscanned, hstep⟩ := step_scans hscans
    have hlisted := hr.listed dev mbr hscans
    rw [hstep] at hlisted
    exact (listed_iff_scannable h hdev hscanned).1 hlisted

theorem start_current (sectors : Context → Vector UInt8 512) :
    Current (start sectors : System Context ReadFn WriteFn) :=
  ⟨contained_init, Nat.zero_le _, nofun⟩

variable [DecidableEq Context]

/-- The registry reflects the disks in a whole run exactly if no disk is registered behind an entry
that is offline or without a free one, and no scan meets a stale partition or a full table. -/
theorem registry_reflects_iff_fresh (sectors : Context → Vector UInt8 512)
    (calls : List (Call Context ReadFn WriteFn)) :
    (∀ n c, calls[n]? = some c → Reflects (run sectors (calls.take n)) c) ↔
      ∀ n c, calls[n]? = some c → Fresh (run sectors (calls.take n)) c := by
  refine RunPrefixes.law_iff_guarded step (fun s c => Reflects s c) (start_current sectors)
    (fun s c => step_current) fun s c h => ?_
  constructor
  · exact fresh_of_reflects h
  · exact reflects_of_fresh h

def restarted : List (Call Unit Unit Unit) :=
  [.register (some [104]) none 512 100 true () (some ()) (some ()), .unregister [104],
    .register (some [104]) none 512 100 true () (some ()) (some ())]

theorem restarted_disk_offline : ¬ ∀ (sectors : Unit → Vector UInt8 512)
    (calls : List (Call Unit Unit Unit)) (n : ℕ) (c : Call Unit Unit Unit),
    calls[n]? = some c → Reflects (run sectors (calls.take n)) c := by
  intro h
  obtain ⟨d, hd, honline⟩ :=
    (h (fun _ => Vector.replicate 512 0) restarted 2 _ rfl).found [104] (by decide)
  have hentry := congrArg (Option.map Device.online) hd
  rw [Option.map_some, honline] at hentry
  exact absurd hentry (by decide)

end BlockRegistry
