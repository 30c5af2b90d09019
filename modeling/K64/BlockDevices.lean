import Mathlib.Algebra.Group.Nat.Defs
import Mathlib.Tactic.Common
import Mathlib.Data.List.TakeWhile

/-! # The table of block devices

Disks are registered by their drivers, partitions by a scan of the disk's first sector. Whatever that
sector holds, a partition lies inside its disk, and requests on it reach the driver only for sectors
of the partition. -/
namespace BlockDevices

variable {Context ReadFn WriteFn : Type}

def maxBlockDevices : ℕ := 32

def mbrPartitionLba : UInt64 := 2048

/-- An entry of the table. A missing callback is a null pointer. -/
structure Device (Context ReadFn WriteFn : Type) where
  id : UInt64
  name : List UInt8
  source : List UInt8
  blockSize : UInt32
  blockCount : UInt64
  startLba : UInt64
  partitionType : UInt8
  isPartition : Bool
  writable : Bool
  online : Bool
  context : Context
  read : Option ReadFn
  write : Option WriteFn
  deriving DecidableEq

structure Table (Context ReadFn WriteFn : Type) where
  devices : List (Device Context ReadFn WriteFn)
  nextId : UInt64

structure DriverCall (Context Fn : Type) where
  fn : Fn
  context : Context
  lba : UInt64
  count : UInt32

/-- What the driver puts into a buffer of one sector, when the invocation succeeds. -/
abbrev Disk (Context ReadFn : Type) := DriverCall Context ReadFn → Option (Vector UInt8 512)

/-- A string copied into an array of `size` characters. -/
def copyString (size : ℕ) (src : List UInt8) : List UInt8 :=
  (src.takeWhile (· ≠ 0)).take (size - 1)

def k64BlockInit : Table Context ReadFn WriteFn := ⟨[], 1⟩

/-- `"block"` and `"k64m"`, the names of a device that gives none. -/
def defaultName : List UInt8 := [98, 108, 111, 99, 107]

def defaultSource : List UInt8 := [107, 54, 52, 109]

def k64BlockRegisterDevice (t : Table Context ReadFn WriteFn) (name source : Option (List UInt8))
    (blockSize : UInt32) (blockCount : UInt64) (writable : Bool) (context : Context)
    (read : Option ReadFn) (write : Option WriteFn) :
    Option (Device Context ReadFn WriteFn × Table Context ReadFn WriteFn) :=
  if maxBlockDevices ≤ t.devices.length ∨ read.isNone ∨ blockSize = 0 ∨ blockCount = 0 then none
  else
    let dev : Device Context ReadFn WriteFn :=
      { id := t.nextId
        name := copyString 32 (name.getD defaultName)
        source := copyString 48 (source.getD defaultSource)
        blockSize := blockSize
        blockCount := blockCount
        startLba := 0
        partitionType := 0
        isPartition := false
        writable := writable
        online := true
        context := context
        read := read
        write := write }
    some (dev, ⟨t.devices ++ [dev], t.nextId + 1⟩)

/-- The device loses its driver; its entry stays. -/
def Device.detached (d : Device Context ReadFn WriteFn) : Device Context ReadFn WriteFn :=
  { d with online := false, read := none, write := none }

def k64BlockUnregisterDevice (t : Table Context ReadFn WriteFn) (name : List UInt8) :
    Table Context ReadFn WriteFn :=
  { t with devices := t.devices.map fun d => if d.name = name then d.detached else d }

def k64BlockFindDeviceByName (t : Table Context ReadFn WriteFn) (name : List UInt8) :
    Option (Device Context ReadFn WriteFn) :=
  t.devices.find? fun d => d.name = name

/-- The bounds check that reads and writes share. -/
def Device.covers (d : Device Context ReadFn WriteFn) (lba : UInt64) (count : UInt32) : Bool :=
  !(lba ≥ d.blockCount || count.toUInt64 > d.blockCount - lba)

/-- The invocation a read makes; `none` is a refusal. -/
def k64BlockRead (d : Device Context ReadFn WriteFn) (lba : UInt64) (count : UInt32) :
    Option (DriverCall Context ReadFn) :=
  d.read.bind fun fn =>
    if !d.online || count == 0 then none
    else if d.covers lba count then some ⟨fn, d.context, d.startLba + lba, count⟩
    else none

def k64BlockWrite (d : Device Context ReadFn WriteFn) (lba : UInt64) (count : UInt32) :
    Option (DriverCall Context WriteFn) :=
  d.write.bind fun fn =>
    if !d.online || count == 0 || !d.writable then none
    else if d.covers lba count then some ⟨fn, d.context, d.startLba + lba, count⟩
    else none

def readU32le (mbr : Vector UInt8 512) (p : ℕ) : UInt32 :=
  (mbr.getD p 0).toUInt32 ||| ((mbr.getD (p + 1) 0).toUInt32 <<< 8) |||
    ((mbr.getD (p + 2) 0).toUInt32 <<< 16) ||| ((mbr.getD (p + 3) 0).toUInt32 <<< 24)

/-- The name of a partition: the disk's, a `p` and a digit. -/
def partitionName (parent : List UInt8) (number : UInt8) : List UInt8 := parent ++ [112, 48 + number]

def registerPartition (t : Table Context ReadFn WriteFn) (parent : Device Context ReadFn WriteFn)
    (number type : UInt8) (startLba blockCount : UInt64) : Table Context ReadFn WriteFn :=
  if parent.isPartition || blockCount == 0 || maxBlockDevices ≤ t.devices.length then t
  else if 32 ≤ parent.name.length + 3 then t
  else
    let name := partitionName parent.name number
    if (k64BlockFindDeviceByName t name).isSome then t
    else
      match k64BlockRegisterDevice t (some name) (some parent.source) parent.blockSize blockCount
          parent.writable parent.context parent.read parent.write with
      | none => t
      | some (part, t') =>
        { t' with devices := t'.devices.dropLast ++
            [{ part with startLba := startLba, partitionType := type, isPartition := true }] }

def scanEntry (dev : Device Context ReadFn WriteFn) (mbr : Vector UInt8 512)
    (t : Table Context ReadFn WriteFn) (i : ℕ) : Table Context ReadFn WriteFn :=
  let off := 446 + i * 16
  let type := mbr.getD (off + 4) 0
  let start := readU32le mbr (off + 8)
  let count := readU32le mbr (off + 12)
  if type == 0 || count == 0 || start == 0 || start.toUInt64 ≥ dev.blockCount then t
  else
    let count := if count.toUInt64 > dev.blockCount - start.toUInt64 then
      (dev.blockCount - start.toUInt64).toUInt32 else count
    registerPartition t dev (UInt8.ofNat (i + 1)) type start.toUInt64 count.toUInt64

def k64BlockScanPartitions (t : Table Context ReadFn WriteFn)
    (dev : Device Context ReadFn WriteFn) (disk : Disk Context ReadFn) :
    Table Context ReadFn WriteFn :=
  if dev.isPartition || dev.blockSize != 512 || !dev.online || dev.read.isNone then t
  else
    match (k64BlockRead dev 0 1).bind disk with
    | none => t
    | some mbr =>
      if mbr.getD 510 0 != 0x55 || mbr.getD 511 0 != 0xAA then t
      else (List.range 4).foldl (scanEntry dev mbr) t

/-- The disk is given one partition behind its first 2048 sectors. `written` tells whether the
driver accepts the new first sector. -/
def k64BlockWriteK64Mbr (t : Table Context ReadFn WriteFn) (dev : Device Context ReadFn WriteFn)
    (written : DriverCall Context WriteFn → Bool) (disk : Disk Context ReadFn) :
    Bool × Table Context ReadFn WriteFn :=
  if dev.isPartition || !dev.online || !dev.writable || dev.blockSize != 512 ||
      dev.blockCount ≤ mbrPartitionLba || dev.blockCount > 0xFFFFFFFF then (false, t)
  else
    match k64BlockWrite dev 0 1 with
    | none => (false, t)
    | some call =>
      if written call then (true, k64BlockScanPartitions t dev disk) else (false, t)

/-- The calls that change the table. A device is named by its place in the table. -/
inductive Event (Context ReadFn WriteFn : Type) where
  | init
  | register (name source : Option (List UInt8)) (blockSize : UInt32) (blockCount : UInt64)
      (writable : Bool) (context : Context) (read : Option ReadFn) (write : Option WriteFn)
  | unregister (name : List UInt8)
  | scan (index : ℕ) (disk : Disk Context ReadFn)
  | writeMbr (index : ℕ) (written : DriverCall Context WriteFn → Bool) (disk : Disk Context ReadFn)

def step (t : Table Context ReadFn WriteFn) :
    Event Context ReadFn WriteFn → Table Context ReadFn WriteFn
  | .init => k64BlockInit
  | .register name source blockSize blockCount writable context read write =>
    match k64BlockRegisterDevice t name source blockSize blockCount writable context read write with
    | none => t
    | some (_, t') => t'
  | .unregister name => k64BlockUnregisterDevice t name
  | .scan index disk =>
    match t.devices[index]? with
    | none => t
    | some dev => k64BlockScanPartitions t dev disk
  | .writeMbr index written disk =>
    match t.devices[index]? with
    | none => t
    | some dev => (k64BlockWriteK64Mbr t dev written disk).2

/-- The table after the calls so far. -/
def run (events : List (Event Context ReadFn WriteFn)) : Table Context ReadFn WriteFn :=
  events.foldl step k64BlockInit

variable {t t' : Table Context ReadFn WriteFn} {d p : Device Context ReadFn WriteFn}

/-- `p` is the partition `number` of the disk `d` and lies inside it. -/
structure Inside (d p : Device Context ReadFn WriteFn) : Prop where
  disk : d.isPartition = false
  name : ∃ number : UInt8, 1 ≤ number ∧ number ≤ 4 ∧ p.name = partitionName d.name number
  context : p.context = d.context
  range : p.startLba.toNat + p.blockCount.toNat ≤ d.blockCount.toNat

structure Contained (t : Table Context ReadFn WriteFn) : Prop where
  noNul : ∀ d ∈ t.devices, (0 : UInt8) ∉ d.name
  start : ∀ d ∈ t.devices, d.isPartition = false → d.startLba = 0
  parent : ∀ p ∈ t.devices, p.isPartition = true → ∃ d ∈ t.devices, Inside d p

theorem contained_init : Contained (k64BlockInit : Table Context ReadFn WriteFn) := by
  constructor <;> exact fun _ h => absurd h List.not_mem_nil

theorem noNul_copyString (size : ℕ) (src : List UInt8) : (0 : UInt8) ∉ copyString size src := by
  intro h
  simpa using List.mem_takeWhile_imp (List.mem_of_mem_take h)

theorem copyString_eq {size : ℕ} {src : List UInt8} (h0 : (0 : UInt8) ∉ src)
    (hlen : src.length < size) : copyString size src = src := by
  have hall : src.takeWhile (· ≠ 0) = src := by
    rw [List.takeWhile_eq_self_iff]
    intro x hx
    simpa using fun hx0 : x = 0 => h0 (hx0 ▸ hx)
  rw [copyString, hall, List.take_of_length_le (by omega)]

theorem contained_push (h : Contained t) {n : UInt64} (h0 : (0 : UInt8) ∉ p.name)
    (hdisk : p.isPartition = false → p.startLba = 0)
    (hpart : p.isPartition = true → ∃ d ∈ t.devices, Inside d p) :
    Contained (⟨t.devices ++ [p], n⟩ : Table Context ReadFn WriteFn) := by
  refine ⟨fun d hd => ?_, fun d hd hk => ?_, fun q hq hk => ?_⟩
  · rcases List.mem_append.mp hd with hd | hd
    · exact h.noNul d hd
    · rwa [List.mem_singleton.mp hd]
  · rcases List.mem_append.mp hd with hd | hd
    · exact h.start d hd hk
    · obtain rfl := List.mem_singleton.mp hd
      exact hdisk hk
  · rcases List.mem_append.mp hq with hq | hq
    · obtain ⟨d, hd, hin⟩ := h.parent q hq hk
      exact ⟨d, List.mem_append_left _ hd, hin⟩
    · obtain rfl := List.mem_singleton.mp hq
      obtain ⟨d, hd, hin⟩ := hpart hk
      exact ⟨d, List.mem_append_left _ hd, hin⟩

variable {blockCount : UInt64}

theorem register_some {name source : Option (List UInt8)} {blockSize : UInt32}
    {writable : Bool} {context : Context} {read : Option ReadFn} {write : Option WriteFn}
    (h : k64BlockRegisterDevice t name source blockSize blockCount writable context read write =
      some (d, t')) :
    t' = ⟨t.devices ++ [d], t.nextId + 1⟩ ∧ d.name = copyString 32 (name.getD defaultName) ∧
      d.isPartition = false ∧ d.startLba = 0 ∧ d.blockCount = blockCount ∧ d.context = context := by
  unfold k64BlockRegisterDevice at h
  split at h
  · cases h
  · obtain ⟨rfl, rfl⟩ := Prod.mk.inj (Option.some.inj h)
    exact ⟨rfl, rfl, rfl, rfl, rfl, rfl⟩

theorem contained_register (h : Contained t) {name source : Option (List UInt8)}
    {blockSize : UInt32} {writable : Bool} {context : Context}
    {read : Option ReadFn} {write : Option WriteFn}
    (hr : k64BlockRegisterDevice t name source blockSize blockCount writable context read write =
      some (d, t')) : Contained t' := by
  obtain ⟨rfl, hname, hpart, hstart, -, -⟩ := register_some hr
  refine contained_push h ?_ (fun _ => hstart) fun hk => ?_
  · rw [hname]
    exact noNul_copyString _ _
  · rw [hpart] at hk
    cases hk

theorem contained_unregister (h : Contained t) (name : List UInt8) :
    Contained (k64BlockUnregisterDevice t name) := by
  have hfields : ∀ q : Device Context ReadFn WriteFn,
      (if q.name = name then q.detached else q) = q ∨
        (if q.name = name then q.detached else q) = q.detached := by
    intro q
    by_cases hq : q.name = name
    · exact .inr (if_pos hq)
    · exact .inl (if_neg hq)
  refine ⟨fun d hd => ?_, fun d hd hk => ?_, fun q hq hk => ?_⟩
  · obtain ⟨d', hd', rfl⟩ := List.mem_map.mp hd
    rcases hfields d' with he | he <;> rw [he] <;> exact h.noNul d' hd'
  · obtain ⟨d', hd', rfl⟩ := List.mem_map.mp hd
    rcases hfields d' with he | he <;> rw [he] at hk ⊢ <;> exact h.start d' hd' hk
  · obtain ⟨q', hq', rfl⟩ := List.mem_map.mp hq
    have hq'part : q'.isPartition = true := by
      rcases hfields q' with he | he <;> rw [he] at hk <;> exact hk
    obtain ⟨d, hd, hin⟩ := h.parent q' hq' hq'part
    refine ⟨_, List.mem_map.mpr ⟨d, hd, rfl⟩, ?_⟩
    obtain ⟨h1, h2, h3, h4⟩ := hin
    rcases hfields d with he | he <;> rcases hfields q' with he' | he' <;> rw [he, he'] <;>
      exact ⟨h1, h2, h3, h4⟩

theorem contained_partition (h : Contained t) (hd : d ∈ t.devices) {number type : UInt8}
    {startLba : UInt64} (hnum : 1 ≤ number ∧ number ≤ 4)
    (hrange : startLba.toNat + blockCount.toNat ≤ d.blockCount.toNat) :
    Contained (registerPartition t d number type startLba blockCount) ∧
      d ∈ (registerPartition t d number type startLba blockCount).devices := by
  unfold registerPartition
  split
  · exact ⟨h, hd⟩
  next hcond =>
    have hdisk : d.isPartition = false := by
      by_contra hne
      exact hcond (by simp [hne])
    split
    · exact ⟨h, hd⟩
    next hlen =>
      dsimp only
      split
      · exact ⟨h, hd⟩
      · split
        · exact ⟨h, hd⟩
        next part t' hreg =>
          obtain ⟨rfl, hname, -, -, hcount, hctx⟩ := register_some hreg
          rw [List.dropLast_concat]
          have h0 : (0 : UInt8) ∉ partitionName d.name number := by
            intro hmem
            rcases List.mem_append.mp hmem with hmem | hmem
            · exact h.noNul d hd hmem
            · simp only [List.mem_cons, List.not_mem_nil, or_false] at hmem
              rcases hmem with hmem | hmem
              · exact absurd hmem (by decide)
              · have hz := congrArg UInt8.toNat hmem
                have h1 := UInt8.le_iff_toNat_le.mp hnum.1
                have h4 := UInt8.le_iff_toNat_le.mp hnum.2
                rw [UInt8.toNat_add] at hz
                simp at hz h1 h4
                omega
          have hpname : part.name = partitionName d.name number := by
            rw [hname, Option.getD_some, copyString_eq h0]
            simp only [partitionName, List.length_append, List.length_cons, List.length_nil]
            omega
          refine ⟨contained_push h (hpname ▸ h0) nofun fun _ => ?_, List.mem_append_left _ hd⟩
          refine ⟨d, hd, hdisk, ⟨number, hnum.1, hnum.2, hpname⟩, hctx, ?_⟩
          rw [hcount]
          exact hrange

theorem clamped_fits {start count : UInt32}
    (hstart : start.toUInt64 < blockCount) :
    start.toUInt64.toNat + (if count.toUInt64 > blockCount - start.toUInt64 then
      (blockCount - start.toUInt64).toUInt32 else count).toUInt64.toNat ≤ blockCount.toNat := by
  have hlt := UInt64.lt_iff_toNat_lt.mp hstart
  have hsub : (blockCount - start.toUInt64).toNat = blockCount.toNat - start.toUInt64.toNat :=
    UInt64.toNat_sub_of_le _ _ (UInt64.le_iff_toNat_le.mpr (Nat.le_of_lt hlt))
  split
  next hgt =>
    have hgt' := UInt64.lt_iff_toNat_lt.mp hgt
    have hcount := count.toNat_lt
    rw [UInt32.toNat_toUInt64 (UInt64.toUInt32 _), UInt64.toNat_toUInt32, hsub]
    have := Nat.mod_le (blockCount.toNat - start.toUInt64.toNat) (2 ^ 32)
    omega
  next hle =>
    have hle' := UInt64.le_iff_toNat_le.mp (UInt64.not_lt.mp hle)
    omega

theorem contained_scanEntry (mbr : Vector UInt8 512) {i : ℕ} (hi : i < 4) (h : Contained t)
    (hd : d ∈ t.devices) :
    Contained (scanEntry d mbr t i) ∧ d ∈ (scanEntry d mbr t i).devices := by
  unfold scanEntry
  dsimp only
  split
  · exact ⟨h, hd⟩
  next hcond =>
    simp only [Bool.or_eq_true, decide_eq_true_eq, not_or] at hcond
    apply contained_partition h hd
    · rcases i with _ | _ | _ | _ | i
      · decide
      · decide
      · decide
      · decide
      · omega
    · exact clamped_fits (UInt64.not_le.mp hcond.2)

theorem contained_scan (h : Contained t) (hd : d ∈ t.devices) (disk : Disk Context ReadFn) :
    Contained (k64BlockScanPartitions t d disk) := by
  unfold k64BlockScanPartitions
  split
  · exact h
  · split
    · exact h
    next mbr _ =>
      split
      · exact h
      · -- the disk stays in the table while its entries are read
        have hfold : ∀ (is : List ℕ) (t : Table Context ReadFn WriteFn), (∀ i ∈ is, i < 4) →
            Contained t → d ∈ t.devices → Contained (is.foldl (scanEntry d mbr) t) := by
          intro is
          induction is with
          | nil => exact fun _ _ h _ => h
          | cons i is ih =>
            intro t hlt h hd
            obtain ⟨h', hd'⟩ := contained_scanEntry mbr (hlt i List.mem_cons_self) h hd
            exact ih _ (fun j hj => hlt j (List.mem_cons_of_mem i hj)) h' hd'
        exact hfold _ t (fun i hi => List.mem_range.mp hi) h hd

theorem contained_step (h : Contained t) (e : Event Context ReadFn WriteFn) :
    Contained (step t e) := by
  cases e with
  | init => exact contained_init
  | register name source blockSize blockCount writable context read write =>
    rw [step]
    split
    · exact h
    next hr => exact contained_register h hr
  | unregister name => exact contained_unregister h name
  | scan index disk =>
    rw [step]
    split
    · exact h
    next hd => exact contained_scan h (List.mem_of_getElem? hd) disk
  | writeMbr index written disk =>
    rw [step]
    split
    · exact h
    next hd =>
      unfold k64BlockWriteK64Mbr
      split
      · exact h
      · split
        · exact h
        · split
          · exact contained_scan h (List.mem_of_getElem? hd) disk
          · exact h

theorem contained_run (events : List (Event Context ReadFn WriteFn)) : Contained (run events) := by
  have hfold : ∀ (t : Table Context ReadFn WriteFn), Contained t → Contained (events.foldl step t) := by
    induction events with
    | nil => exact fun _ h => h
    | cons e events ih => exact fun t h => ih _ (contained_step h e)
  exact hfold _ contained_init

/-- The sectors of an invocation are sectors of the device. -/
structure Within {Fn : Type} (d : Device Context ReadFn WriteFn) (call : DriverCall Context Fn) :
    Prop where
  context : call.context = d.context
  low : d.startLba.toNat ≤ call.lba.toNat
  high : call.lba.toNat + call.count.toNat ≤ d.startLba.toNat + d.blockCount.toNat

theorem covers_iff (lba : UInt64) (count : UInt32) : d.covers lba count = true ↔
    lba.toNat < d.blockCount.toNat ∧ lba.toNat + count.toNat ≤ d.blockCount.toNat := by
  have hsub : lba.toNat ≤ d.blockCount.toNat →
      (d.blockCount - lba).toNat = d.blockCount.toNat - lba.toNat :=
    fun hle => UInt64.toNat_sub_of_le _ _ (UInt64.le_iff_toNat_le.mpr hle)
  simp only [Device.covers, Bool.not_eq_true', Bool.or_eq_false_iff, decide_eq_false_iff_not,
    ge_iff_le, gt_iff_lt, UInt64.le_iff_toNat_le, UInt64.lt_iff_toNat_lt, UInt32.toNat_toUInt64]
  constructor
  · rintro ⟨h1, h2⟩
    rw [hsub (by omega)] at h2
    omega
  · rintro ⟨h1, h2⟩
    rw [hsub (by omega)]
    omega

theorem within_of_covers {Fn : Type} {fn : Fn} {lba : UInt64} {count : UInt32}
    (hrange : d.startLba.toNat + d.blockCount.toNat < 2 ^ 64) (h : d.covers lba count = true) :
    Within d ⟨fn, d.context, d.startLba + lba, count⟩ := by
  obtain ⟨hlt, hle⟩ := (covers_iff lba count).mp h
  have hadd : (d.startLba + lba).toNat = d.startLba.toNat + lba.toNat := by
    rw [UInt64.toNat_add, Nat.mod_eq_of_lt (by omega)]
  refine ⟨rfl, ?_, ?_⟩
  · exact hadd ▸ Nat.le_add_right _ _
  · change (d.startLba + lba).toNat + count.toNat ≤ _
    omega

/-- What reaches the driver of a device. -/
structure Confined (d : Device Context ReadFn WriteFn) : Prop where
  read : ∀ lba count call, k64BlockRead d lba count = some call → Within d call
  write : ∀ lba count call, k64BlockWrite d lba count = some call → Within d call
  refused : ∀ (lba : UInt64) (count : UInt32), d.blockCount.toNat < lba.toNat + count.toNat →
    k64BlockRead d lba count = none ∧ k64BlockWrite d lba count = none

theorem confined_of_range (hrange : d.startLba.toNat + d.blockCount.toNat < 2 ^ 64) :
    Confined d := by
  refine ⟨fun lba count call h => ?_, fun lba count call h => ?_, fun lba count hgt => ?_⟩
  · obtain ⟨fn, -, h⟩ := Option.bind_eq_some_iff.mp h
    split_ifs at h with h1 h2
    obtain rfl := Option.some.inj h
    exact within_of_covers hrange h2
  · obtain ⟨fn, -, h⟩ := Option.bind_eq_some_iff.mp h
    split_ifs at h with h1 h2
    obtain rfl := Option.some.inj h
    exact within_of_covers hrange h2
  · have hno : d.covers lba count = false := by
      rw [← Bool.not_eq_true, covers_iff]
      omega
    constructor
    · cases hr : d.read <;> simp [k64BlockRead, hr, hno]
    · cases hw : d.write <;> simp [k64BlockWrite, hw, hno]

/-- After any calls and over any sector contents, a partition lies inside its disk and its requests
stay inside the partition. -/
theorem partitions_contained (events : List (Event Context ReadFn WriteFn))
    (p : Device Context ReadFn WriteFn) (hp : p ∈ (run events).devices)
    (hk : p.isPartition = true) :
    (∃ d ∈ (run events).devices, Inside d p ∧ d.startLba = 0) ∧ Confined p := by
  have hc := contained_run events
  obtain ⟨d, hd, hin⟩ := hc.parent p hp hk
  refine ⟨⟨d, hd, hin, hc.start d hd hin.disk⟩, confined_of_range ?_⟩
  have hcount := d.blockCount.toNat_lt
  have hrange := hin.range
  omega

def sampleMbr : Vector UInt8 512 :=
  ((((Vector.replicate 512 0).set 450 0x83).set 454 40).set 458 200).set 510 0x55 |>.set 511 0xAA

def sampleEvents : List (Event Unit Unit Unit) :=
  [.register (some [104]) none 512 100 true () (some ()) (some ()), .scan 0 fun _ => some sampleMbr]

theorem clamped_partition_contained :
    let p : Device Unit Unit Unit := ⟨2, [104, 112, 49], defaultSource, 512, 60, 40, 0x83, true,
      true, true, (), some (), some ()⟩
    p ∈ (run sampleEvents).devices ∧
      (∃ d ∈ (run sampleEvents).devices, Inside d p ∧ d.startLba = 0) ∧ Confined p := by
  intro p
  have hp : p ∈ (run sampleEvents).devices := List.mem_of_getElem? (i := 1) (by decide +kernel)
  exact ⟨hp, partitions_contained sampleEvents p hp rfl⟩

end BlockDevices
