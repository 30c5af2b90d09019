import K64.XfsFormat
import Mathlib.Data.List.FinRange
import Mathlib.Logic.Function.Basic

/-! # The block device and the K64XFS block cache

`k64_block_read` and `k64_block_write` as the filesystem uses them, always on the whole sectors of
one filesystem block, and the write-back cache of `k64_xfs_cache.c`. The device keeps the writes
it took, newest first, and its driver fails at the calls the fault schedule names. -/
namespace XfsCache

open ByteCodec XfsFormat

/-- The fields of `k64_block_device_t` the filesystem looks at; `hasRead` and `hasWrite` say
whether the driver callbacks are set. -/
structure Geometry where
  blockSize : UInt32
  blockCount : UInt64
  online : Bool
  writable : Bool
  hasRead : Bool
  hasWrite : Bool
  deriving DecidableEq

structure Device extends Geometry where
  /-- The content before the first write, one filesystem block at a time. -/
  base : ℕ → XBlock
  log : List (ℕ × XBlock)
  faults : ℕ → Bool
  calls : ℕ

namespace Device

def block (d : Device) (n : ℕ) : XBlock :=
  match d.log.find? fun w => w.1 == n with
  | some w => w.2
  | none => d.base n

def sectors (d : Device) : ℕ := 4096 / d.blockSize.toNat

/-- The checks of `xfs_raw_read` and `xfs_raw_write` before the request is made. -/
def addressable (d : Device) (fsBlock : ℕ) : Bool :=
  d.blockSize != 0 && 4096 % d.blockSize.toNat == 0 && fsBlock ≤ (2 ^ 64 - 1) / d.sectors

/-- The range check of the block layer on the sectors of one filesystem block. -/
def inRange (d : Device) (fsBlock : ℕ) : Bool :=
  d.sectors != 0 && fsBlock * d.sectors < d.blockCount.toNat &&
    d.sectors ≤ d.blockCount.toNat - fsBlock * d.sectors

def called (d : Device) : Device := { d with calls := d.calls + 1 }

def store (d : Device) (n : ℕ) (b : XBlock) : Device := { d with log := (n, b) :: d.log }

end Device

def k64BlockRead (d : Device) (fsBlock : ℕ) : Option XBlock × Device :=
  if !d.online || !d.hasRead then (none, d)
  else if !d.inRange fsBlock then (none, d)
  else if d.faults d.calls then (none, d.called)
  else (some (d.block fsBlock), d.called)

def k64BlockWrite (d : Device) (fsBlock : ℕ) (data : XBlock) : Bool × Device :=
  if !d.online || !d.hasWrite || !d.writable then (false, d)
  else if !d.inRange fsBlock then (false, d)
  else if d.faults d.calls then (false, d.called)
  else (true, d.called.store fsBlock data)

/-- Also `journal_block_read`, which makes the same checks. -/
def xfsRawRead (d : Device) (fsBlock : ℕ) : Option XBlock × Device :=
  if !d.addressable fsBlock then (none, d) else k64BlockRead d fsBlock

/-- Also `journal_block_write`. -/
def xfsRawWrite (d : Device) (fsBlock : ℕ) (data : XBlock) : Bool × Device :=
  if !d.addressable fsBlock then (false, d) else k64BlockWrite d fsBlock data

structure CacheEntry where
  valid : Bool
  dirty : Bool
  blockNo : ℕ
  lastUsedTick : UInt64
  data : XBlock

structure Cache where
  entries : Fin 64 → CacheEntry
  clock : UInt64

def k64XfsCacheInit : Cache := ⟨fun _ => ⟨false, false, 0, 0, Block.zero⟩, 0⟩

structure Machine where
  cache : Cache
  dev : Device

def Machine.setEntry (m : Machine) (i : Fin 64) (e : CacheEntry) : Machine :=
  { m with cache := { m.cache with entries := Function.update m.cache.entries i e } }

def cacheFind (c : Cache) (blockNo : ℕ) : Option (Fin 64) :=
  (List.finRange 64).find? fun i => (c.entries i).valid && (c.entries i).blockNo == blockNo

/-- The scan of `cache_victim`: the first invalid entry, or the first one least recently used. -/
def victimScan (c : Cache) : List (Fin 64) → Fin 64 → UInt64 → Fin 64
  | [], victim, _ => victim
  | i :: is, victim, oldest =>
    if !(c.entries i).valid then i
    else if (c.entries i).lastUsedTick < oldest then victimScan c is i (c.entries i).lastUsedTick
    else victimScan c is victim oldest

def victimSlot (c : Cache) : Fin 64 := victimScan c (List.finRange 64) 0 (-1)

def cacheVictim (m : Machine) : Option (Fin 64) × Machine :=
  let v := victimSlot m.cache
  let e := m.cache.entries v
  if !e.valid then (some v, m)
  else if e.dirty then
    match xfsRawWrite m.dev e.blockNo e.data with
    | (false, dev) => (none, { m with dev })
    | (true, dev) =>
      (some v, { m with dev }.setEntry v { e with valid := false, dirty := false })
  else (some v, m.setEntry v { e with valid := false, dirty := false })

/-- Stores an entry under the next value of the clock. -/
def Machine.touch (m : Machine) (i : Fin 64) (e : CacheEntry) : Machine :=
  { m with cache :=
    { entries := Function.update m.cache.entries i { e with lastUsedTick := m.cache.clock + 1 }
      clock := m.cache.clock + 1 } }

def k64XfsCacheRead (m : Machine) (blockNo : ℕ) : Option XBlock × Machine :=
  match cacheFind m.cache blockNo with
  | some i => (some (m.cache.entries i).data, m.touch i (m.cache.entries i))
  | none =>
    match cacheVictim m with
    | (none, m') => (none, m')
    | (some v, m') =>
      match xfsRawRead m'.dev blockNo with
      | (none, dev) => (none, { m' with dev })
      | (some b, dev) =>
        (some b, { m' with dev }.touch v
          { m'.cache.entries v with valid := true, dirty := false, blockNo, data := b })

def k64XfsCacheWrite (m : Machine) (blockNo : ℕ) (data : XBlock) : Bool × Machine :=
  match cacheFind m.cache blockNo with
  | some i => (true, m.touch i { m.cache.entries i with data, dirty := true })
  | none =>
    match cacheVictim m with
    | (none, m') => (false, m')
    | (some v, m') =>
      (true, m'.touch v { m'.cache.entries v with valid := true, dirty := true, blockNo, data })

/-- One turn of the loop of `k64_xfs_cache_flush`. -/
def flushSlot (i : Fin 64) (m : Machine) : Bool × Machine :=
  let e := m.cache.entries i
  if e.valid && e.dirty then
    match xfsRawWrite m.dev e.blockNo e.data with
    | (false, dev) => (false, { m with dev })
    | (true, dev) => (true, { m with dev }.setEntry i { e with dirty := false })
  else (true, m)

def flushSlots : List (Fin 64) → Machine → Bool × Machine
  | [], m => (true, m)
  | i :: is, m =>
    match flushSlot i m with
    | (false, m') => (false, m')
    | (true, m') => flushSlots is m'

def k64XfsCacheFlush (m : Machine) : Bool × Machine := flushSlots (List.finRange 64) m

end XfsCache
