import K64.BlockRegistry
import K64.SharedDisks

/-! # The two mounted volumes

The root volume of `k64_fs.c` and the volume of `xfsctl`, each with a cache of its own, and the commands
that name a device: `xfsctl format`, `xfsctl mount`, `storagectl partition` and `install`. A command is
here when its words and its session have been checked. -/
namespace MountedVolumes
open ByteCodec XfsFormat XfsJournal XfsCalls XfsOperations XfsVolumeLifecycle SharedDisks
open BlockDevices (Table Disk k64BlockWrite k64BlockWriteK64Mbr)
open XfsCache (Cache k64XfsCacheInit)
open XfsSystem (PublicCall)

/-- `rootfs` and `xfsctl_mount`. -/
inductive Holder where
  | rootfs
  | xfsctl
  deriving DecidableEq

/-- A `k64_xfs_mount_t`; the device is a place in the table. -/
structure Mount where
  dev : Option ℕ
  mem : Xfs
  cache : Cache

def blankMount : Mount := ⟨none, ⟨false, Superblock.zero, 0, 0, false, Block.zero⟩, k64XfsCacheInit⟩

/-- `tmp` is the scratch block that all volumes share. -/
structure System (Context ReadFn WriteFn : Type) where
  table : Table Context ReadFn WriteFn
  sectors : Sectors Context
  mounts : Holder → Mount
  xfsctlMounted : Bool
  tmp : XBlock

/-- What the drivers answer during a command: the calls that fail below a volume, and the requests of
the command itself that are accepted. -/
structure Env where
  faults : ℕ → Bool
  accepts : ℕ → Bool

variable {Context ReadFn WriteFn : Type} [DecidableEq Context] {α : Type}
variable (s : System Context ReadFn WriteFn) (env : Env)

def System.entry (w : Holder) : Option (Entry Context ReadFn WriteFn) :=
  (s.mounts w).dev.bind fun i => s.table.devices[i]?

def System.callOn (m : Mount) (d : Entry Context ReadFn WriteFn) (f : XfsM α) :
    Option α × XfsSystem.System :=
  (XfsSystem.System.mk (m.mem.withTmp s.tmp) ⟨m.cache, deviceOf d s.sectors env.faults⟩).call f

def System.stored (d : Entry Context ReadFn WriteFn) (u : XfsSystem.System) :
    System Context ReadFn WriteFn :=
  { s with sectors := storeLog d u.machine.dev.log s.sectors, tmp := u.fs.tmp }

def System.keep (w : Holder) (dev : Option ℕ) (u : XfsSystem.System) :
    System Context ReadFn WriteFn :=
  { s with mounts := Function.update s.mounts w ⟨dev, u.fs, u.machine.cache⟩ }

def runOn (w : Holder) (f : XfsM α) : Option α × System Context ReadFn WriteFn :=
  match s.entry w with
  | none => (none, s)
  | some d =>
    let r := s.callOn env (s.mounts w) d f
    (r.1, (s.stored d r.2).keep w (s.mounts w).dev r.2)

/-- `k64_xfs_mount` into one of the two structures. -/
def mountOn (w : Holder) (i : ℕ) (d : Entry Context ReadFn WriteFn) :
    Bool × System Context ReadFn WriteFn :=
  if d.blockSize = 0 ∨ 4096 % d.blockSize.toNat ≠ 0 then (false, s)
  else
    let r := s.callOn env (s.mounts w) d (k64XfsMount (geometry d))
    (r.1.isSome, (s.stored d r.2).keep w (some i) r.2)

/-- The mount structure of a format is a local one. -/
def formatCall (d : Entry Context ReadFn WriteFn) (label : CString) : Option Unit × XfsSystem.System :=
  s.callOn env blankMount d (k64XfsFormat (geometry d) label)

structure WriteRun (Context : Type) where
  context : Context
  first : ℕ
  count : ℕ

def WriteRun.Has (run : WriteRun Context) (context : Context) (lba : ℕ) : Prop :=
  context = run.context ∧ run.first ≤ lba ∧ lba < run.first + run.count

def writeRun (run : WriteRun Context) (data : ℕ → List UInt8) (sectors : Sectors Context) :
    Sectors Context := fun context lba =>
  if context = run.context ∧ run.first ≤ lba ∧ lba < run.first + run.count then data (lba - run.first)
  else sectors context lba

def firstSector (sectors : Sectors Context) : Disk Context ReadFn := fun call =>
  some (Vector.ofFn fun i : Fin 512 => (sectors call.context call.lba.toNat).getD i 0)

/-- `k64_block_write_k64_mbr`, and what it wrote. -/
def partitionOn (d : Entry Context ReadFn WriteFn) :
    System Context ReadFn WriteFn × List (WriteRun Context) :=
  if (k64BlockWriteK64Mbr s.table d (fun _ => env.accepts 0) (firstSector s.sectors)).1 = false then
    (s, [])
  else
    let run : WriteRun Context := ⟨d.context, d.startLba.toNat, 1⟩
    let sectors := writeRun run (fun _ => (BlockRegistry.k64Mbr d.blockCount).toList) s.sectors
    ({ s with
        sectors := sectors
        table := (k64BlockWriteK64Mbr s.table d (fun _ => true) (firstSector sectors)).2 }, [run])

/-- `K64_ROOTFS_PARTITION_LBA`, which is also the length of the boot area. -/
def partitionLba : ℕ := 2048

/-- `K64_ROOTFS_RAW_MAX`, and the sectors that fit into a buffer of that size. -/
def rawMax : ℕ := 16777216
def chunkBlocks : ℕ := 32768

/-- "/boot/grub/k64-boot-area.bin". -/
def bootPath : CString where
  bytes := [47, 98, 111, 111, 116, 47, 103, 114, 117, 98, 47, 107, 54, 52, 45, 98, 111, 111, 116, 45, 97,
    114, 101, 97, 46, 98, 105, 110]
  noNul := by decide

/-- `k64_fs_read_file_raw` of a normalised path. -/
def readFileRaw (path : CString) : Option (List UInt8) × System Context ReadFn WriteFn :=
  match runOn s env .rootfs (lowered (k64XfsStat path)) with
  | (none, s) => (none, s)
  | (some st, s) =>
    if st.isDir ∨ rawMax < st.size.toNat then (none, s)
    else
      match runOn s env .rootfs (lowered (k64XfsReadFile path st.size.toNat)) with
      | (none, s) => (none, s)
      | (some data, s) => (if data.length = st.size.toNat then some data else none, s)

/-- The boot sectors with a partition table for the rest of the disk, whose length has 32 bits. -/
def bootArea (data : List UInt8) (blockCount : UInt64) : List UInt8 :=
  data.take 446 ++ [0x80, 0, 0, 0, 0x83, 0, 0, 0] ++ leBytes 4 partitionLba ++
    leBytes 4 (blockCount - 2048).toUInt32.toNat ++ List.replicate 48 0 ++ data.drop 510

def bootAreaOk (data : List UInt8) : Bool :=
  data.length == partitionLba * 512 && data.getD 510 0 == 0x55 && data.getD 511 0 == 0xAA

def installRefuses (d : Entry Context ReadFn WriteFn) : Bool :=
  d.isPartition || !d.online || !d.writable || d.blockSize != 512 || d.blockCount ≤ 2048

def rootMounted : Bool := (s.mounts .rootfs).mem.mounted

def inPlace (d r : Entry Context ReadFn WriteFn) : Bool :=
  decide (r.context = d.context) && r.startLba == 2048

/-- The loop of `fs_copy_root_to_device`, over `n` chunks from chunk `k` on. -/
def copyChunks (r d : Entry Context ReadFn WriteFn) :
    ℕ → ℕ → Sectors Context → Bool × Sectors Context × List (WriteRun Context)
  | 0, _, sectors => (true, sectors, [])
  | n + 1, k, sectors =>
    let first := k * chunkBlocks
    let count := min chunkBlocks (r.blockCount.toNat - first)
    if r.read.isNone ∨ r.online = false ∨ env.accepts (2 * k + 1) = false then (false, sectors, [])
    else
      let run : WriteRun Context := ⟨d.context, partitionLba + first, count⟩
      if d.write.isNone ∨ d.online = false ∨ d.writable = false then (false, sectors, [])
      else if env.accepts (2 * k + 2) = false then (false, sectors, [run])
      else
        let copied := copyChunks r d n (k + 1) (writeRun run
          (fun j => sectors r.context (r.startLba.toNat + first + j)) sectors)
        (copied.1, copied.2.1, run :: copied.2.2)

/-- Whether the volume fits. -/
def copyRefuses (d r : Entry Context ReadFn WriteFn) : Bool :=
  !rootMounted s || !d.writable || r.blockSize != 512 || d.blockSize != 512 || r.blockCount == 0 ||
    decide (d.blockCount - 2048 < r.blockCount)

/-- `fs_copy_root_to_device` to the partition that was just made. -/
def copyRoot (d r : Entry Context ReadFn WriteFn) :
    Bool × System Context ReadFn WriteFn × List (WriteRun Context) :=
  if copyRefuses s d r then (false, s, [])
  else
    match runOn s env .rootfs k64XfsSync with
    | (none, s) => (false, s, [])
    | (some _, s) =>
      let chunks := (r.blockCount.toNat + (chunkBlocks - 1)) / chunkBlocks
      let copied := copyChunks env r d chunks 0 s.sectors
      (copied.1, { s with sectors := copied.2.1 }, copied.2.2)

/-- The part of `k64_fs_install_to_block_device` behind the checks: the boot area, then the volume. -/
def installOn (d r : Entry Context ReadFn WriteFn) (area : List UInt8) :
    Bool × System Context ReadFn WriteFn × List (WriteRun Context) :=
  if (k64BlockWrite d 0 2048).isNone then (false, s, [])
  else
    let run : WriteRun Context := ⟨d.context, d.startLba.toNat, partitionLba⟩
    if env.accepts 0 = false then (false, s, [run])
    else
      let s : System Context ReadFn WriteFn :=
        { s with sectors := writeRun run (fun j => (area.drop (j * 512)).take 512) s.sectors }
      if rootMounted s ∧ inPlace d r then
        let synced := runOn s env .rootfs k64XfsSync
        (synced.1.isSome, synced.2, [run])
      else
        let copied := copyRoot s env d r
        (copied.1, copied.2.1, run :: copied.2.2)

def System.find (name : List UInt8) : Option (ℕ × Entry Context ReadFn WriteFn) :=
  (s.table.devices.findIdx? fun d => d.name = name).bind fun i =>
    (s.table.devices[i]?).map fun d => (i, d)

/-- Without a root volume the boot area cannot be read. -/
def install (name : List UInt8) : Bool × System Context ReadFn WriteFn × List (WriteRun Context) :=
  match s.find name with
  | none => (false, s, [])
  | some (_, d) =>
    if name = [] ∨ installRefuses d then (false, s, [])
    else
      match readFileRaw s env bootPath with
      | (none, s) => (false, s, [])
      | (some data, s) =>
        if bootAreaOk data = false then (false, s, [])
        else
          match s.entry .rootfs with
          | none => (false, s, [])
          | some r => installOn s env d r (bootArea data d.blockCount)

/-- The calls of the file commands; `k64_xfs_sync` is one of them. -/
def FileCall : Type := { call : PublicCall // call ≠ .mount ∧ call ≠ .unmount }

inductive Command where
  | xfsctlFormat (name : List UInt8) (label : CString)
  | xfsctlMount (name : List UInt8)
  | xfsctlUnmount
  | fileCall (w : Holder) (call : FileCall)
  | storagectlPartition (name : List UInt8)
  | install (name : List UInt8)

def step (s : System Context ReadFn WriteFn) (c : Command × Env) : System Context ReadFn WriteFn :=
  match c.1 with
  | .xfsctlFormat name label =>
    match s.find name with
    | none => s
    | some (_, d) => s.stored d (formatCall s c.2 d label).2
  | .xfsctlMount name =>
    match s.find name with
    | none => s
    | some (i, d) =>
      let mounted := mountOn s c.2 .xfsctl i d
      { mounted.2 with xfsctlMounted := s.xfsctlMounted || mounted.1 }
  | .xfsctlUnmount =>
    if s.xfsctlMounted = false ∨ (s.mounts .xfsctl).mem.mounted = false then s
    else
      let unmounted := runOn s c.2 .xfsctl k64XfsUnmount
      { unmounted.2 with xfsctlMounted := unmounted.1.isNone }
  | .fileCall w call =>
    if w = .xfsctl ∧ s.xfsctlMounted = false then s
    else
      match s.entry w with
      | none => s
      | some d => (runOn s c.2 w (call.1.proc (geometry d))).2
  | .storagectlPartition name =>
    match s.find name with
    | none => s
    | some (_, d) => (partitionOn s c.2 d).1
  | .install name => (install s c.2 name).2.1

/-- The service has mounted the first device with a volume on it. -/
def Booted (s : System Context ReadFn WriteFn) : Prop :=
  ∃ (u : System Context ReadFn WriteFn) (i : ℕ) (d : Entry Context ReadFn WriteFn) (env : Env),
    u.mounts .xfsctl = blankMount ∧ u.xfsctlMounted = false ∧ u.table.devices[i]? = some d ∧
      mountOn u env .rootfs i d = (true, s)

end MountedVolumes
