import K64.IoProgram
import K64.BlockDevices

/-! # Transfers of the ATA driver

`ata_pio_rw` tells the drive the number of each sector in four registers and moves the words of the
sector through the data port. The drive is whatever answers at the ports. -/
namespace AtaTransfers

open IoProgram BlockDevices

inductive PortRequest where
  | inb (port : UInt16)
  | outb (port : UInt16) (value : UInt8)
  | inw (port : UInt16)
  | outw (port : UInt16) (value : UInt16)

abbrev Answer : PortRequest → Type
  | .inb _ => UInt8
  | .outb _ _ => Unit
  | .inw _ => UInt16
  | .outw _ _ => Unit

/-- The bytes from the pointer of the caller on. -/
abbrev Buffer := ℕ → UInt8

abbrev PortProc := Proc PortRequest Answer Buffer

def ataRegSeccount0 : UInt16 := 2
def ataRegLba0 : UInt16 := 3
def ataRegLba1 : UInt16 := 4
def ataRegLba2 : UInt16 := 5
def ataRegHddevsel : UInt16 := 6
def ataRegCommand : UInt16 := 7
def ataRegStatus : UInt16 := 7

def ataCmdReadPio : UInt8 := 0x20
def ataCmdWritePio : UInt8 := 0x30
def ataCmdCacheFlush : UInt8 := 0xE7

def ataSrErr : UInt8 := 0x01
def ataSrDrq : UInt8 := 0x08
def ataSrDf : UInt8 := 0x20
def ataSrBsy : UInt8 := 0x80

/-- A drive of the table. Its selector is one of the two of `k64_ata_driver_start`. -/
structure AtaDevice where
  present : Bool
  ioBase : UInt16
  ctrlBase : UInt16
  lbaSelect : UInt8
  sectorCount : UInt64
  select : lbaSelect = 0xE0 ∨ lbaSelect = 0xF0

def inb (port : UInt16) : PortProc UInt8 := Proc.request (PortRequest.inb port)

def inw (port : UInt16) : PortProc UInt16 := Proc.request (PortRequest.inw port)

def outb (port : UInt16) (value : UInt8) : PortProc Unit := Proc.request (PortRequest.outb port value)

def outw (port value : UInt16) : PortProc Unit := Proc.request (PortRequest.outw port value)

/-- The word of two bytes, the low one first. -/
def wordAt (x : Buffer) (off : ℕ) : UInt16 := (x off).toUInt16 + 256 * (x (off + 1)).toUInt16

def setWord (off : ℕ) (w : UInt16) (x : Buffer) : Buffer := fun j =>
  if j = off then w.toUInt8 else if j = off + 1 then (w / 256).toUInt8 else x j

def ataDelay400ns (ctrlBase : UInt16) : PortProc Unit :=
  Proc.loop (fun _ => do let _ ← inb ctrlBase) 0 4

def spin (dev : AtaDevice) (needDrq : Bool) : ℕ → PortProc Bool
  | 0 => pure false
  | spins + 1 => do
    let status ← inb (dev.ioBase + ataRegStatus)
    if status &&& ataSrBsy ≠ 0 then spin dev needDrq spins
    else if status &&& (ataSrErr ||| ataSrDf) ≠ 0 then pure false
    else if needDrq = false ∨ status &&& ataSrDrq ≠ 0 then pure true
    else spin dev needDrq spins

def ataPollReady (dev : AtaDevice) (needDrq : Bool) : PortProc Bool := do
  ataDelay400ns dev.ctrlBase
  spin dev needDrq 1000000

/-- Tells the drive which sector, and what to do. -/
def commandSector (dev : AtaDevice) (current : UInt64) (write : Bool) : PortProc Unit := do
  outb (dev.ioBase + ataRegHddevsel) (dev.lbaSelect ||| ((current >>> 24) &&& 0x0F).toUInt8)
  outb (dev.ioBase + ataRegSeccount0) 1
  outb (dev.ioBase + ataRegLba0) (current &&& 0xFF).toUInt8
  outb (dev.ioBase + ataRegLba1) ((current >>> 8) &&& 0xFF).toUInt8
  outb (dev.ioBase + ataRegLba2) ((current >>> 16) &&& 0xFF).toUInt8
  outb (dev.ioBase + ataRegCommand) (if write then ataCmdWritePio else ataCmdReadPio)

def writeWord (dev : AtaDevice) (sector i : ℕ) : PortProc Unit := do
  let x ← Proc.load
  outw dev.ioBase (wordAt x (512 * sector + 2 * i))

def readWord (dev : AtaDevice) (sector i : ℕ) : PortProc Unit := do
  let w ← inw dev.ioBase
  Proc.update (setWord (512 * sector + 2 * i) w)

def transferSector (dev : AtaDevice) (lba : UInt64) (write : Bool) (sector : ℕ) : PortProc Unit := do
  commandSector dev (lba + UInt64.ofNat sector) write
  let ready ← ataPollReady dev true
  Proc.guard ready
  if write then
    Proc.loop (writeWord dev sector) 0 256
    ataDelay400ns dev.ctrlBase
    outb (dev.ioBase + ataRegCommand) ataCmdCacheFlush
    let done ← ataPollReady dev false
    Proc.guard done
  else Proc.loop (readWord dev sector) 0 256

/-- The two checks of the driver. -/
def AtaDevice.takes (dev : AtaDevice) (lba : UInt64) (count : UInt32) : Bool :=
  dev.present && count != 0 && !(lba + count.toUInt64 > dev.sectorCount || lba > 0x0FFFFFFF)

def ataPioRw (dev : AtaDevice) (lba : UInt64) (count : UInt32) (write : Bool) : PortProc Unit := do
  Proc.guard (dev.takes lba count)
  Proc.loop (transferSector dev lba write) 0 count.toNat

/-- A disk or partition of the ATA driver: its callbacks are `ata_block_read` and
`ata_block_write`. -/
abbrev AtaDisk := Device AtaDevice Unit Unit

/-- `k64_block_read` and `k64_block_write` on such a device. -/
def blockTransfer (disk : AtaDisk) (lba : UInt64) (count : UInt32) (write : Bool) : PortProc Unit :=
  match if write then k64BlockWrite disk lba count else k64BlockRead disk lba count with
  | none => Proc.fail
  | some call => ataPioRw call.context call.lba call.count write

inductive DriveEvent where
  | command (write : Bool) (sector : ℕ)
  | word (write : Bool) (w : UInt16)
  deriving DecidableEq

structure AddressRegisters where
  hddevsel : UInt8
  lba0 : UInt8
  lba1 : UInt8
  lba2 : UInt8

/-- The 28 bits of the sector number. -/
def AddressRegisters.sector (a : AddressRegisters) : ℕ :=
  (a.hddevsel &&& 0x0F).toNat * 2 ^ 24 + a.lba2.toNat * 2 ^ 16 + a.lba1.toNat * 2 ^ 8 + a.lba0.toNat

structure Told where
  address : AddressRegisters
  events : List DriveEvent

/-- What the access of a port tells the drive that is at `io`. -/
def Told.after (io : UInt16) (t : Told) : (q : PortRequest) → Answer q → Told
  | .inb _, _ => t
  | .outb port value, _ =>
    if port = io + ataRegHddevsel then { t with address := { t.address with hddevsel := value } }
    else if port = io + ataRegLba0 then { t with address := { t.address with lba0 := value } }
    else if port = io + ataRegLba1 then { t with address := { t.address with lba1 := value } }
    else if port = io + ataRegLba2 then { t with address := { t.address with lba2 := value } }
    else if port = io + ataRegCommand ∧ value = ataCmdReadPio then
      { t with events := t.events ++ [.command false t.address.sector] }
    else if port = io + ataRegCommand ∧ value = ataCmdWritePio then
      { t with events := t.events ++ [.command true t.address.sector] }
    else t
  | .inw port, w => if port = io then { t with events := t.events ++ [.word false w] } else t
  | .outw port w, _ => if port = io then { t with events := t.events ++ [.word true w] } else t

variable {σ : Type}

/-- Any machine, watched at the ports of a drive. -/
def watched (io : UInt16) (h : Handler PortRequest Answer σ) :
    Handler PortRequest Answer (σ × Told) := fun q s =>
  ((h q s.1).1, (h q s.1).2, s.2.after io q (h q s.1).1)

def sectorEvents (write : Bool) (lba sector : ℕ) (x : Buffer) : List DriveEvent :=
  .command write (lba + sector) ::
    (List.range 256).map fun i => .word write (wordAt x (512 * sector + 2 * i))

def transferEvents (write : Bool) (lba count : ℕ) (x : Buffer) : List DriveEvent :=
  (List.range count).flatMap fun k => sectorEvents write lba k x

/-- A transfer of `count` sectors from the sector that the driver is called with. -/
structure TransferExact (h : Handler PortRequest Answer σ) (s : σ) (address : AddressRegisters)
    (disk : AtaDisk) (lba : UInt64) (count : UInt32) (write : Bool) (x : Buffer) : Prop where
  sectors : ∀ x' s' t', (blockTransfer disk lba count write).exec (watched disk.context.ioBase h) x
      (s, ⟨address, []⟩) = (some (), x', s', t') →
    t'.events = transferEvents write (disk.startLba + lba).toNat count.toNat x' ∧
      (write = true → x' = x)
  refused : (∃ k < count.toNat, 2 ^ 28 ≤ (disk.startLba + lba).toNat + k) →
    (blockTransfer disk lba count write).exec (watched disk.context.ioBase h) x (s, ⟨address, []⟩) =
      (none, x, s, ⟨address, []⟩)

/-- The checks of both layers. -/
def accepted (disk : AtaDisk) (lba : UInt64) (count : UInt32) (write : Bool) : Bool :=
  disk.online && (if write then disk.write.isSome && disk.writable else disk.read.isSome) &&
    disk.covers lba count && disk.context.takes (disk.startLba + lba) count

theorem wordAt_setWord (off : ℕ) (w : UInt16) (x : Buffer) : wordAt (setWord off w x) off = w := by
  apply UInt16.toNat_inj.mp
  have hlow : setWord off w x off = w.toUInt8 := if_pos rfl
  have hhigh : setWord off w x (off + 1) = (w / 256).toUInt8 := by
    rw [setWord, if_neg (by omega), if_pos rfl]
  have hlt := w.toNat_lt
  rw [wordAt, hlow, hhigh, UInt16.toNat_add, UInt16.toNat_mul, UInt8.toNat_toUInt16,
    UInt8.toNat_toUInt16, UInt16.toNat_toUInt8, UInt16.toNat_toUInt8, UInt16.toNat_div]
  simp only [UInt16.reduceToNat]
  omega

theorem setWord_other {off j : ℕ} (w : UInt16) (x : Buffer) (h : j < off ∨ off + 2 ≤ j) :
    setWord off w x j = x j := by
  rw [setWord, if_neg (by omega), if_neg (by omega)]

/-- The four registers as `ata_pio_rw` programs them. -/
def programmed (dev : AtaDevice) (current : UInt64) : AddressRegisters where
  hddevsel := dev.lbaSelect ||| ((current >>> 24) &&& 0x0F).toUInt8
  lba0 := (current &&& 0xFF).toUInt8
  lba1 := ((current >>> 8) &&& 0xFF).toUInt8
  lba2 := ((current >>> 16) &&& 0xFF).toUInt8

theorem programmed_sector (dev : AtaDevice) {current : UInt64} (h : current.toNat < 2 ^ 28) :
    (programmed dev current).sector = current.toNat := by
  have hbyte : ∀ n : UInt64, (n &&& 0xFF).toUInt8.toNat = n.toNat % 256 := by
    intro n
    rw [UInt64.toNat_toUInt8, UInt64.toNat_and]
    have : n.toNat &&& 255 = n.toNat % 256 := Nat.and_two_pow_sub_one_eq_mod n.toNat 8
    simp only [UInt64.reduceToNat, this]
    omega
  have hshift : ∀ (k : ℕ), k < 64 → (current >>> UInt64.ofNat k).toNat = current.toNat / 2 ^ k := by
    intro k hk
    rw [UInt64.toNat_shiftRight, UInt64.toNat_ofNat', Nat.shiftRight_eq_div_pow]
    congr 2
    omega
  have hnibble : ∀ n : UInt64, (n &&& 0x0F).toUInt8.toNat = n.toNat % 16 := by
    intro n
    rw [UInt64.toNat_toUInt8, UInt64.toNat_and]
    have : n.toNat &&& 15 = n.toNat % 16 := Nat.and_two_pow_sub_one_eq_mod n.toNat 4
    simp only [UInt64.reduceToNat, this]
    omega
  have hselect : ((dev.lbaSelect ||| ((current >>> 24) &&& 0x0F).toUInt8) &&& (0x0F : UInt8)).toNat =
      (current >>> 24).toNat % 16 := by
    have hsel : dev.lbaSelect.toNat &&& 15 = 0 := by
      rcases dev.select with hs | hs
      · rw [hs]
        rfl
      · rw [hs]
        rfl
    have hmod : (current >>> 24).toNat % 16 &&& 15 = (current >>> 24).toNat % 16 % 16 :=
      Nat.and_two_pow_sub_one_eq_mod _ 4
    rw [UInt8.toNat_and, UInt8.toNat_or, hnibble]
    simp only [UInt8.reduceToNat]
    rw [Nat.and_or_distrib_right, hsel, Nat.zero_or, hmod, Nat.mod_mod]
  have h8 := hshift 8 (by omega)
  have h16 := hshift 16 (by omega)
  have h24 := hshift 24 (by omega)
  unfold AddressRegisters.sector programmed
  rw [hselect, hbyte, hbyte, hbyte]
  rw [show (8 : UInt64) = UInt64.ofNat 8 from rfl, h8, show (16 : UInt64) = UInt64.ofNat 16 from rfl,
    h16, show (24 : UInt64) = UInt64.ofNat 24 from rfl, h24]
  omega

section Watched

variable {h : Handler PortRequest Answer σ} {dev : AtaDevice} {io : UInt16}

abbrev Post (σ α : Type) := Option α → Buffer → σ × Told → Prop

abbrev runs (io : UInt16) (h : Handler PortRequest Answer σ) {α : Type} (f : PortProc α)
    (P : Post σ α) (x : Buffer) (s : σ × Told) : Prop :=
  Proc.wp (watched io h) (fun _ _ => True) f P x s

def Quiet (io : UInt16) (h : Handler PortRequest Answer σ) {α : Type} (f : PortProc α) : Prop :=
  ∀ x s, runs io h f (fun r x' s' => r.isSome = true ∧ x' = x ∧ s'.2 = s.2) x s

theorem quiet_inb (port : UInt16) : Quiet io h (inb port) := fun _ _ => ⟨trivial, rfl, rfl, rfl⟩

theorem quiet_pure {α : Type} (a : α) : Quiet io h (pure a) := fun _ _ => ⟨rfl, rfl, rfl⟩

theorem Quiet.bind {α β : Type} {f : PortProc α} {g : α → PortProc β} (hf : Quiet io h f)
    (hg : ∀ a, Quiet io h (g a)) : Quiet io h (f >>= g) := by
  intro x s
  refine Proc.wp_seq (hf x s) (fun _ _ hn => by simp at hn) ?_
  rintro a x' s' ⟨-, rfl, hs⟩
  rw [← hs]
  exact hg a x' s'

theorem quiet_delay (port : UInt16) : Quiet io h (ataDelay400ns port) := by
  have hread : Quiet io h (do let _ ← inb port : PortProc Unit) :=
    (quiet_inb port).bind fun _ => quiet_pure ()
  exact hread.bind fun _ => hread.bind fun _ => hread.bind fun _ => hread.bind fun _ => quiet_pure ()

theorem quiet_spin (needDrq : Bool) : ∀ n, Quiet io h (spin dev needDrq n) := by
  intro n
  induction n with
  | zero => exact quiet_pure false
  | succ n ih =>
    refine (quiet_inb _).bind fun status => ?_
    split
    · exact ih
    · split
      · exact quiet_pure false
      · split
        · exact quiet_pure true
        · exact ih

theorem quiet_poll (needDrq : Bool) : Quiet io h (ataPollReady dev needDrq) :=
  (quiet_delay _).bind fun _ => quiet_spin needDrq _

theorem runs_ready (needDrq : Bool) (x : Buffer) (s : σ × Told) :
    runs io h (ataPollReady dev needDrq >>= Proc.guard) (fun _ x' s' => x' = x ∧ s'.2 = s.2) x s := by
  refine Proc.wp_seq (quiet_poll needDrq x s) (fun _ _ hn => by simp at hn) ?_
  rintro ready x' s' ⟨-, hx, hs⟩
  rw [Proc.wp_guard]
  split
  · exact ⟨hx, hs⟩
  · exact ⟨hx, hs⟩

theorem runs_command (current : UInt64) (write : Bool) (x : Buffer) (s : σ × Told) :
    runs dev.ioBase h (commandSector dev current write) (fun r x' s' => r.isSome = true ∧ x' = x ∧
      s'.2.events = s.2.events ++ [.command write (programmed dev current).sector]) x s := by
  unfold commandSector
  simp only [runs, Proc.wp_bind, outb, Proc.wp_request, Proc.wpNext_some, true_and]
  cases write
  · simp [watched, Told.after, ataRegHddevsel, ataRegSeccount0, ataRegLba0, ataRegLba1, ataRegLba2,
      ataRegCommand, ataCmdReadPio, programmed]
  · simp [watched, Told.after, ataRegHddevsel, ataRegSeccount0, ataRegLba0, ataRegLba1, ataRegLba2,
      ataRegCommand, ataCmdReadPio, ataCmdWritePio, programmed]

def sectorWords (write : Bool) (sector n : ℕ) (x : Buffer) : List DriveEvent :=
  (List.range n).map fun i => .word write (wordAt x (512 * sector + 2 * i))

theorem sectorWords_succ (write : Bool) (sector n : ℕ) (x : Buffer) :
    sectorWords write sector (n + 1) x =
      sectorWords write sector n x ++ [.word write (wordAt x (512 * sector + 2 * n))] := by
  rw [sectorWords, List.range_succ, List.map_append]
  rfl

theorem sectorWords_congr (write : Bool) {sector n : ℕ} {x y : Buffer}
    (h : ∀ j, 512 * sector ≤ j → j < 512 * sector + 2 * n → x j = y j) :
    sectorWords write sector n x = sectorWords write sector n y := by
  apply List.map_congr_left
  intro i hi
  rw [List.mem_range] at hi
  rw [wordAt, wordAt, h _ (by omega) (by omega), h _ (by omega) (by omega)]

theorem runs_loop {f : ℕ → PortProc Unit} {I : ℕ → Buffer → σ × Told → Prop} (n : ℕ) {x : Buffer}
    {s : σ × Told} (hi : I 0 x s) (hturn : ∀ j x' s', I j x' s' →
      runs io h (f j) (fun r x'' s'' => r.isSome = true ∧ I (j + 1) x'' s'') x' s') :
    runs io h (Proc.loop f 0 n) (fun r x' s' => r.isSome = true ∧ I n x' s') x s := by
  have hloop := Proc.wp_loop (C := fun _ _ => True) (F := fun _ _ => False) n 0 x s hi
    fun j x' s' _ _ hI => Proc.wp_mono (hturn j x' s' hI) fun r x'' s'' hr => by
      rw [if_pos hr.1]
      exact hr.2
  refine Proc.wp_mono hloop fun r x' s' hr => ?_
  split at hr
  next hsome =>
    rw [Nat.zero_add] at hr
    exact ⟨hsome, hr⟩
  · exact hr.elim

theorem runs_writeWords (sector n : ℕ) (x : Buffer) (s : σ × Told) :
    runs dev.ioBase h (Proc.loop (writeWord dev sector) 0 n) (fun r x' s' => r.isSome = true ∧
      x' = x ∧ s'.2.events = s.2.events ++ sectorWords true sector n x) x s := by
  apply runs_loop (I := fun i x' s' => x' = x ∧
    s'.2.events = s.2.events ++ sectorWords true sector i x) n ⟨rfl, (List.append_nil _).symm⟩
  rintro i x' s' ⟨rfl, hs⟩
  unfold writeWord outw
  simp only [runs, Proc.wp_bind, Proc.wp_load, Proc.wp_request, Proc.wpNext_some, true_and]
  refine ⟨rfl, ?_⟩
  rw [sectorWords_succ, ← List.append_assoc, ← hs]
  simp [watched, Told.after]

theorem runs_readWords (sector n : ℕ) (x : Buffer) (s : σ × Told) :
    runs dev.ioBase h (Proc.loop (readWord dev sector) 0 n) (fun r x' s' => r.isSome = true ∧
      (∀ j < 512 * sector, x' j = x j) ∧
      s'.2.events = s.2.events ++ sectorWords false sector n x') x s := by
  apply runs_loop (I := fun i x' s' => (∀ j < 512 * sector, x' j = x j) ∧
    s'.2.events = s.2.events ++ sectorWords false sector i x') n
    ⟨fun _ _ => rfl, (List.append_nil _).symm⟩
  rintro i x' s' ⟨hx, hs⟩
  unfold readWord inw
  simp only [runs, Proc.wp_bind, Proc.wp_update, Proc.wp_request, Proc.wpNext_some, true_and]
  refine ⟨rfl, fun j hj => ?_, ?_⟩
  · rw [setWord_other _ _ (.inl (by omega))]
    exact hx j hj
  · have hkept : sectorWords false sector i x' = sectorWords false sector i
        (setWord (512 * sector + 2 * i) (watched dev.ioBase h (.inw dev.ioBase) s').1 x') :=
      sectorWords_congr false fun j _ hj => (setWord_other _ _ (.inl hj)).symm
    rw [sectorWords_succ, wordAt_setWord, ← hkept, ← List.append_assoc, ← hs]
    simp [watched, Told.after]

theorem runs_sector (lba : UInt64) (write : Bool) (sector : ℕ) (x : Buffer) (s : σ × Told) :
    runs dev.ioBase h (transferSector dev lba write sector) (fun r x' s' => r.isSome = true →
      (write = true → x' = x) ∧ (∀ j < 512 * sector, x' j = x j) ∧
      s'.2.events = s.2.events ++
        (.command write (programmed dev (lba + UInt64.ofNat sector)).sector ::
          sectorWords write sector 256 x')) x s := by
  unfold transferSector
  refine Proc.wp_seq (runs_command _ _ x s) (fun _ _ hn => by simp at hn) ?_
  rintro _ x' s' ⟨-, rfl, hcommand⟩
  refine Proc.wp_seq (quiet_poll true x' s') (fun _ _ hn => by simp at hn) ?_
  rintro ready x'' s'' ⟨-, rfl, hs⟩
  rw [← hs] at hcommand
  refine Proc.wp_seq (M := fun _ x₁ s₁ => x₁ = x'' ∧ s₁ = s'') ?_ (by simp) ?_
  · rw [Proc.wp_guard]
    split
    · exact ⟨rfl, rfl⟩
    · exact ⟨rfl, rfl⟩
  rintro _ _ _ ⟨rfl, rfl⟩
  cases write
  · refine Proc.wp_mono (runs_readWords sector 256 _ _) fun r x₁ s₁ ⟨_, hx, hread⟩ _ => ?_
    refine ⟨by simp, hx, ?_⟩
    rw [hread, hcommand, List.append_assoc]
    rfl
  · simp only [if_true]
    refine Proc.wp_seq (runs_writeWords sector 256 _ _) (fun _ _ hn => by simp at hn) ?_
    rintro _ x₁ s₁ ⟨-, rfl, hwrite⟩
    have hflush : ∀ s₂ : σ × Told, runs dev.ioBase h
        (outb (dev.ioBase + ataRegCommand) ataCmdCacheFlush)
        (fun r x' s' => r.isSome = true ∧ x' = x₁ ∧ s'.2 = s₂.2) x₁ s₂ := by
      intro s₂
      refine ⟨trivial, rfl, rfl, ?_⟩
      simp [watched, Told.after, ataRegHddevsel, ataRegLba0, ataRegLba1, ataRegLba2,
        ataRegCommand, ataCmdReadPio, ataCmdWritePio, ataCmdCacheFlush]
    refine Proc.wp_seq (quiet_delay _ x₁ s₁) (fun _ _ hn => by simp at hn) ?_
    rintro _ x₂ s₂ ⟨-, rfl, hs₂⟩
    refine Proc.wp_seq (hflush s₂) (fun _ _ hn => by simp at hn) ?_
    rintro _ x₃ s₃ ⟨-, rfl, hs₃⟩
    refine Proc.wp_mono (runs_ready false _ s₃) fun r x₄ s₄ ⟨hx, hs₄⟩ _ => ?_
    subst hx
    refine ⟨fun _ => rfl, fun _ _ => rfl, ?_⟩
    rw [hs₄, hs₃, hs₂, hwrite, hcommand, List.append_assoc]
    rfl

theorem transferEvents_succ (write : Bool) (lba count : ℕ) (x : Buffer) :
    transferEvents write lba (count + 1) x =
      transferEvents write lba count x ++ sectorEvents write lba count x := by
  simp [transferEvents, List.range_succ]

theorem transferEvents_congr (write : Bool) (lba : ℕ) {count : ℕ} {x y : Buffer}
    (h : ∀ j < 512 * count, x j = y j) :
    transferEvents write lba count x = transferEvents write lba count y := by
  rw [transferEvents, transferEvents, List.flatMap_def, List.flatMap_def]
  congr 1
  apply List.map_congr_left
  intro k hk
  rw [List.mem_range] at hk
  have hwords : sectorWords write k 256 x = sectorWords write k 256 y :=
    sectorWords_congr write fun j _ hj => h j (by omega)
  exact congrArg (List.cons _) hwords

theorem runs_sectors (lba : UInt64) (write : Bool) {count : ℕ} (hfits : lba.toNat + count ≤ 2 ^ 28)
    (x : Buffer) (s : σ × Told) :
    runs dev.ioBase h (Proc.loop (transferSector dev lba write) 0 count) (fun r x' s' =>
      r.isSome = true → s'.2.events = s.2.events ++ transferEvents write lba.toNat count x' ∧
        (write = true → x' = x)) x s := by
  have hloop := Proc.wp_loop (h := watched dev.ioBase h) (C := fun _ _ => True)
    (f := transferSector dev lba write) (F := fun _ _ => True)
    (I := fun k x' s' => s'.2.events = s.2.events ++ transferEvents write lba.toNat k x' ∧
      (write = true → x' = x)) count 0 x s ⟨(List.append_nil _).symm, fun _ => rfl⟩ ?_
  · refine Proc.wp_mono hloop fun r x' s' hr hsome => ?_
    rwa [if_pos hsome, Nat.zero_add] at hr
  · rintro k x' s' - hk ⟨hevents, hsame⟩
    have hcurrent : (lba + UInt64.ofNat k).toNat = lba.toNat + k := by
      rw [UInt64.toNat_add, UInt64.toNat_ofNat']
      omega
    have hsector : (programmed dev (lba + UInt64.ofNat k)).sector = lba.toNat + k := by
      rw [programmed_sector dev (by omega), hcurrent]
    refine Proc.wp_mono (runs_sector lba write k x' s') fun r x'' s'' hr => ?_
    split
    next hsome =>
      obtain ⟨hx, hlow, hdone⟩ := hr hsome
      refine ⟨?_, fun hw => (hx hw).trans (hsame hw)⟩
      rw [hdone, hevents, hsector, List.append_assoc, transferEvents_succ,
        transferEvents_congr write lba.toNat hlow]
      rfl
    · trivial

theorem runs_told {α : Type} (f : PortProc α) {x : Buffer} {s : σ × Told} (hs : s.2.events ≠ []) :
    runs io h f (fun _ _ s' => s'.2.events ≠ []) x s := by
  have hkeeps : ∀ q s, (s : σ × Told).2.events ≠ [] → (watched io h q s).2.2.events ≠ [] := by
    intro q s hs
    cases q
    · exact hs
    · simp only [watched, Told.after]
      repeat' split
      all_goals simp [hs]
    · simp only [watched, Told.after]
      split
      · simp
      · exact hs
    · simp only [watched, Told.after]
      split
      · simp
      · exact hs
  have hany : Proc.wp (watched io h) (fun _ _ => True) f (fun _ _ _ => True) x s :=
    Proc.wp_any fun _ _ _ => trivial
  exact Prog.wp_mono (fun _ _ hc => hc) (fun _ _ hr => hr.2)
    (f x) (Prog.wp_keeps (I := fun s => s.2.events ≠ []) hkeeps (f x) hs hany)

theorem runs_first (lba : UInt64) (write : Bool) {count : ℕ} (hcount : 0 < count) (x : Buffer)
    (s : σ × Told) :
    runs dev.ioBase h (Proc.loop (transferSector dev lba write) 0 count)
      (fun _ _ s' => s'.2.events ≠ []) x s := by
  obtain ⟨n, rfl⟩ := Nat.exists_eq_succ_of_ne_zero (Nat.pos_iff_ne_zero.mp hcount)
  have hsector : runs dev.ioBase h (transferSector dev lba write 0)
      (fun _ _ s' => s'.2.events ≠ []) x s := by
    unfold transferSector
    refine Proc.wp_seq (runs_command _ _ x s) (fun _ _ hn => by simp at hn) ?_
    rintro _ x' s' ⟨-, -, hcommand⟩
    exact runs_told _ (by rw [hcommand]; simp)
  rw [Proc.loop]
  exact Proc.wp_seq hsector (fun _ _ hs => hs) fun _ _ _ hs => runs_told _ hs

end Watched

section Requests

variable {h : Handler PortRequest Answer σ} {s : σ} {address : AddressRegisters} {disk : AtaDisk}
  {lba : UInt64} {count : UInt32} {write : Bool} {x : Buffer}

theorem blockTransfer_eq (disk : AtaDisk) (lba : UInt64) (count : UInt32) (write : Bool) :
    blockTransfer disk lba count write = if accepted disk lba count write = true then
      Proc.loop (transferSector disk.context (disk.startLba + lba) write) 0 count.toNat
    else Proc.fail := by
  have hdriver : ataPioRw disk.context (disk.startLba + lba) count write =
      if disk.context.takes (disk.startLba + lba) count = true then
        Proc.loop (transferSector disk.context (disk.startLba + lba) write) 0 count.toNat
      else Proc.fail := by
    unfold ataPioRw
    split
    next htakes => rw [htakes]; rfl
    next htakes => rw [Bool.eq_false_iff.mpr htakes]; rfl
  have hzero : count = 0 → disk.context.takes (disk.startLba + lba) count = false := by
    rintro rfl
    simp [AtaDevice.takes]
  unfold blockTransfer accepted
  by_cases hcount : count = 0
  · rw [hzero hcount]
    cases write
    · cases hread : disk.read <;> simp [k64BlockRead, hread, hcount]
    · cases hwrite : disk.write <;> simp [k64BlockWrite, hwrite, hcount]
  cases write
  · cases hread : disk.read with
    | none => simp [k64BlockRead, hread]
    | some fn =>
      cases honline : disk.online
      · simp [k64BlockRead, hread, honline]
      · cases hcovers : disk.covers lba count
        · simp [k64BlockRead, hread, honline, hcovers]
        · simp [k64BlockRead, hread, honline, hcovers, hcount, hdriver]
  · cases hwrite : disk.write with
    | none => simp [k64BlockWrite, hwrite]
    | some fn =>
      cases honline : disk.online
      · simp [k64BlockWrite, hwrite, honline]
      · cases hwritable : disk.writable
        · simp [k64BlockWrite, hwrite, honline, hwritable]
        · cases hcovers : disk.covers lba count
          · simp [k64BlockWrite, hwrite, honline, hwritable, hcovers]
          · simp [k64BlockWrite, hwrite, honline, hwritable, hcovers, hcount, hdriver]

theorem accepted_count (h : accepted disk lba count write = true) : 0 < count.toNat := by
  simp only [accepted, AtaDevice.takes, Bool.and_eq_true, bne_iff_ne] at h
  have hne := h.2.1.2
  by_contra hzero
  exact hne (UInt32.toNat_inj.mp (by simpa using hzero))

theorem not_exact_beyond (haccepted : accepted disk lba count write = true)
    (hbeyond : 2 ^ 28 < (disk.startLba + lba).toNat + count.toNat) :
    ¬TransferExact h s address disk lba count write x := by
  intro hexact
  have hcount := accepted_count haccepted
  have hrun := hexact.refused ⟨count.toNat - 1, by omega, by omega⟩
  have hfirst := Proc.wp_exec (show runs disk.context.ioBase h _ _ x _ from
    runs_first (disk.startLba + lba) write hcount x (s, ⟨address, []⟩))
  rw [blockTransfer_eq, if_pos haccepted] at hrun
  rw [hrun] at hfirst
  exact hfirst rfl

/-- A request transfers its sectors, or is refused at once, unless it is accepted with a sector
beyond the 28 bits. -/
theorem transfer_exact_iff (h : Handler PortRequest Answer σ) (s : σ) (address : AddressRegisters)
    (disk : AtaDisk) (lba : UInt64) (count : UInt32) (write : Bool) (x : Buffer) :
    TransferExact h s address disk lba count write x ↔ (accepted disk lba count write = true →
      (disk.startLba + lba).toNat + count.toNat ≤ 2 ^ 28) := by
  constructor
  · intro hexact haccepted
    by_contra hbeyond
    exact not_exact_beyond haccepted (Nat.lt_of_not_le hbeyond) hexact
  · intro hlimit
    by_cases haccepted : accepted disk lba count write = true
    · have hfits := hlimit haccepted
      constructor
      · intro x' s' t' hrun
        have hdone := Proc.wp_exec (show runs disk.context.ioBase h _ _ x _ from
          runs_sectors (disk.startLba + lba) write hfits x (s, ⟨address, []⟩))
        rw [blockTransfer_eq, if_pos haccepted] at hrun
        rw [hrun] at hdone
        simpa using hdone rfl
      · rintro ⟨k, hk, hbeyond⟩
        omega
    · have hfail : (blockTransfer disk lba count write).exec (watched disk.context.ioBase h) x
          (s, ⟨address, []⟩) = (none, x, s, ⟨address, []⟩) := by
        rw [blockTransfer_eq, if_neg haccepted]
        rfl
      refine ⟨fun x' s' t' hrun => ?_, fun _ => hfail⟩
      rw [hfail] at hrun
      cases hrun

def hugeDisk : AtaDisk where
  id := 1
  name := [97, 116, 97, 48]
  source := []
  blockSize := 512
  blockCount := 0x10000001
  startLba := 0
  partitionType := 0
  isPartition := false
  writable := true
  online := true
  context := ⟨true, 0x1F0, 0x3F6, 0xE0, 0x10000001, .inl rfl⟩
  read := some ()
  write := some ()

def ready : Handler PortRequest Answer Unit
  | .inb _, _ => (0x48, ())
  | .outb _ _, _ => ((), ())
  | .inw _, _ => (0, ())
  | .outw _ _, _ => ((), ())

/-- The two sectors around the limit. -/
theorem limit_crossed : ¬∀ (σ : Type) (h : Handler PortRequest Answer σ) (s : σ)
    (address : AddressRegisters) (disk : AtaDisk) (lba : UInt64) (count : UInt32) (write : Bool)
    (x : Buffer), TransferExact h s address disk lba count write x := by
  intro hall
  exact not_exact_beyond (by decide) (by decide)
    (hall Unit ready () ⟨0, 0, 0, 0⟩ hugeDisk 0x0FFFFFFF 2 false fun _ => 0)

end Requests

end AtaTransfers
