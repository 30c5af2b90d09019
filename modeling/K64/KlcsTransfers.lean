import K64.KlcsAccess
import K64.PieceLoops

/-! # What the transfers of a Linux program move

`read`, `write`, `pread` and `pwrite` against the number that they return: the bytes that get to the
memory or to the file, and the offset of the descriptor. -/
namespace Klcs

open PieceLoops

inductive Transfer where
  | read (fd p len : UInt64)
  | write (fd p len : UInt64)
  | pread (fd p len offset : UInt64)
  | pwrite (fd p len offset : UInt64)

variable {V : Type} (fs : FileSystem V) (m : Memory) (s : State V)

def Transfer.run : Transfer → Outcome V
  | .read fd p len => linuxFdRead fs m s fd p len
  | .write fd p len => linuxWriteUserBuffer fs m s fd p len
  | .pread fd p len offset => linuxFdPread fs m s fd p len offset
  | .pwrite fd p len offset => linuxFdPwrite fs m s fd p len offset

/-- The bytes got to the memory from `p` on, in pieces that `user_write` accepted. -/
inductive Delivered (p : UInt64) : Str → Prop
  | nil : Delivered p []
  | snoc {bytes more : Str} : Delivered p bytes → m.write (p + bytes.length.toUInt64) more = true →
      Delivered p (bytes ++ more)

/-- `n` bytes were taken from the memory from `p` on. -/
inductive Taken (p : UInt64) : ℕ → Prop
  | nil : Taken p 0
  | snoc {n count : ℕ} : Taken p n → (m.read (p + n.toUInt64) count).isSome = true → Taken p (n + count)

def bufferPiece (size : ℕ) (p : UInt64) (len k : ℕ) : Option Str :=
  m.read (p + (k * size).toUInt64) (pieceLength size len k)

def storePiece (size : ℕ) (path : Str) (p offset : UInt64) (len k : ℕ) (volume : V) : Option V :=
  (bufferPiece m size p len k).bind fun bytes =>
    let r := fs.writeFileRange volume path (offset + (k * size).toUInt64) bytes
    if r.1 then some r.2 else none

def filePiece (path : Str) (offset : UInt64) (len k : ℕ) : Option Str :=
  fs.readFileRange s.volume path (offset + (k * 256).toUInt64) (pieceLength 256 len k)

/-- Delivers a whole piece of the file behind the ones before it. -/
def deliverPiece (path : Str) (p offset : UInt64) (len k : ℕ) (before : Str) : Option Str :=
  (filePiece fs s path offset len k).bind fun bytes =>
    if bytes.length = pieceLength 256 len k ∧ m.write (p + (k * 256).toUInt64) bytes = true then
      some (before ++ bytes)
    else none

/-- A call that returns a number has delivered so many bytes. -/
def Delivers (fd p : UInt64) (o : Outcome V) : Prop :=
  0 ≤ o.result → ∃ bytes, Delivered m p bytes ∧ (bytes.length : ℤ) = o.result ∧
    (fileOf s fd ≠ none → bytes = o.returned)

/-- A call that returns a number has stored so many bytes of the buffer in the file, and nothing
else. -/
def Stores (size : ℕ) (target : Option Str) (p len offset : UInt64) (o : Outcome V) : Prop :=
  0 ≤ o.result →
    match target with
    | none => o.state.volume = s.volume
    | some path => ∃ k, o.result = min (k * size) len.toNat ∧
        reached (storePiece fs m size path p offset len.toNat) s.volume k = some o.state.volume

/-- A call that returns a number has moved the offset by it. -/
def Advances (fd : UInt64) (o : Outcome V) : Prop :=
  0 ≤ o.result → ∀ desc, usedFd s fd = some desc →
    usedFd o.state fd = some { desc with offset := desc.offset + o.result.toNat.toUInt64 }

/-- A call that returns an error has changed neither the files nor the descriptor. -/
def Refuses (fd : UInt64) (o : Outcome V) : Prop :=
  o.result < 0 → o.state.volume = s.volume ∧ usedFd o.state fd = usedFd s fd

/-- The file that a `write` stores into; the numbers below 3 are the terminal. -/
def writeTarget (fd : UInt64) : Option (Str × UInt64) :=
  if 3 ≤ fd then
    (usedFd s fd).bind fun desc => if desc.kind = .file then some (desc.path, desc.offset) else none
  else none

structure ReadLaw (fd p len : UInt64) : Prop where
  as_pread : ∀ desc, usedFd s fd = some desc →
    (linuxFdRead fs m s fd p len).result = (linuxFdPread fs m s fd p len desc.offset).result ∧
      (linuxFdRead fs m s fd p len).returned = (linuxFdPread fs m s fd p len desc.offset).returned
  delivers : Delivers m s fd p (linuxFdRead fs m s fd p len)
  advances : Advances s fd (linuxFdRead fs m s fd p len)
  refuses : Refuses s fd (linuxFdRead fs m s fd p len)

structure WriteLaw (fd p len : UInt64) : Prop where
  stores : Stores fs m s 128 ((writeTarget s fd).map Prod.fst) p (min len serviceCallPayloadMax)
    (((writeTarget s fd).map Prod.snd).getD 0) (linuxWriteUserBuffer fs m s fd p len)
  takes : fd < 3 → 0 ≤ (linuxWriteUserBuffer fs m s fd p len).result →
    Taken m p (linuxWriteUserBuffer fs m s fd p len).result.toNat
  advances : Advances s fd (linuxWriteUserBuffer fs m s fd p len)
  refuses : Refuses s fd (linuxWriteUserBuffer fs m s fd p len)

def TransferLaw : Transfer → Prop
  | .read fd p len => ReadLaw fs m s fd p len
  | .write fd p len => WriteLaw fs m s fd p len
  | .pread fd p len offset => Delivers m s fd p (linuxFdPread fs m s fd p len offset) ∧
      Refuses s fd (linuxFdPread fs m s fd p len offset)
  | .pwrite fd p len offset =>
    Stores fs m s 256 (fileOf s fd) p (min len serviceCallPayloadMax) offset
        (linuxFdPwrite fs m s fd p len offset) ∧
      Refuses s fd (linuxFdPwrite fs m s fd p len offset)

/-- No piece of the file but the first meets memory that cannot be written. -/
def NoLateFault (path : Str) (p offset : UInt64) (len : ℕ) : Prop :=
  ∀ k before bytes, 0 < k → k * 256 < len →
    reached (deliverPiece fs m s path p offset len) [] k = some before →
    filePiece fs s path offset len k = some bytes → bytes ≠ [] →
    m.write (p + (k * 256).toUInt64) bytes = true

/-- A piece that the file system does not store leaves the volume as it is. -/
def FailsClean (size : ℕ) (path : Str) (p offset : UInt64) (len : ℕ) : Prop :=
  ∀ k volume bytes, k * size < len →
    reached (storePiece fs m size path p offset len) s.volume k = some volume →
    bufferPiece m size p len k = some bytes →
    (fs.writeFileRange volume path (offset + (k * size).toUInt64) bytes).1 = false →
    (fs.writeFileRange volume path (offset + (k * size).toUInt64) bytes).2 = volume

/-- Behind `k` stored pieces the next one is in memory that cannot be read. -/
def LateFault (size : ℕ) (path : Str) (p offset : UInt64) (len k : ℕ) (volume : V) : Prop :=
  0 < k ∧ k * size < len ∧
    reached (storePiece fs m size path p offset len) s.volume k = some volume ∧
    bufferPiece m size p len k = none

def ReadCondition (fd p len : UInt64) : Prop :=
  (p = 0 ∧ len ≠ 0) ∨
    match usedFd s fd with
    | none => True
    | some desc =>
      match desc.kind with
      | .stdin => False
      | .devZero | .devNull => len = 0 ∨ ∃ k, k * 256 < len.toNat ∧
          m.write (p + (k * 256).toUInt64) (List.replicate (pieceLength 256 len.toNat k) 0) = false
      | .file => NoLateFault fs m s desc.path p desc.offset len.toNat
      | _ => True

def WriteCondition (fd p len : UInt64) : Prop :=
  (len ≠ 0 ∧ p = 0) ∨
    let len := min len serviceCallPayloadMax
    if fd ≥ 3 then
      match usedFd s fd with
      | none => True
      | some desc =>
        match desc.kind with
        | .devNull => len = 0
        | .file => FailsClean fs m s 128 desc.path p desc.offset len.toNat ∧
            ∀ k volume, ¬ LateFault fs m s 128 desc.path p desc.offset len.toNat k volume
        | _ => True
    else fd = 0 ∨ usedFd s fd = none ∨ len = 0 ∨
      ∃ k, k * 128 < len.toNat ∧ bufferPiece m 128 p len.toNat k = none

def PwriteCondition (fd p len offset : UInt64) : Prop :=
  (p = 0 ∧ len ≠ 0) ∨
    match fileOf s fd with
    | none => True
    | some path =>
      let len := min len serviceCallPayloadMax
      FailsClean fs m s 256 path p offset len.toNat ∧
        ∀ k volume, LateFault fs m s 256 path p offset len.toNat k volume → volume = s.volume

/-- When the law is kept: a `pread` always keeps it. -/
def TransferCondition : Transfer → Prop
  | .read fd p len => ReadCondition fs m s fd p len
  | .write fd p len => WriteCondition fs m s fd p len
  | .pread .. => True
  | .pwrite fd p len offset => PwriteCondition fs m s fd p len offset

/-- The file system delivers at most the bytes that it is asked for, as `FsRanges.read_range_at_most` has it
of `k64_fs_read_file_range`. -/
def FileSystem.ReadsAtMost : Prop :=
  ∀ volume path offset n bytes, fs.readFileRange volume path offset n = some bytes → bytes.length ≤ n

variable {fs m s}

variable {k : ℕ}

theorem writeChunks_stops {size : ℕ} (hsize : 0 < size) (path : Str) (p offset : UInt64) (len n : ℕ)
    {volume : V} (hn : len ≤ min (k * size) len + n)
    (hk : reached (storePiece fs m size path p offset len) s.volume k = some volume) :
    let r := writeChunks fs m size path p offset len n (min (k * size) len) volume
    ∃ j v, reached (storePiece fs m size path p offset len) s.volume j = some v ∧
      r.done = min (j * size) len ∧
      ((len ≤ j * size ∧ r.ending = .complete ∧ r.volume = v) ∨
        (j * size < len ∧ bufferPiece m size p len j = none ∧ r.ending = .fault ∧ r.volume = v) ∨
        (j * size < len ∧ ∃ bytes, bufferPiece m size p len j = some bytes ∧
          (fs.writeFileRange v path (offset + (j * size).toUInt64) bytes).1 = false ∧
          r.ending = .failed ∧
          r.volume = (fs.writeFileRange v path (offset + (j * size).toUInt64) bytes).2)) := by
  induction n generalizing k volume with
  | zero => exact ⟨k, volume, hk, rfl, .inl ⟨by omega, rfl, rfl⟩⟩
  | succ n ih =>
    by_cases hend : len ≤ k * size
    · have hdone : len ≤ min (k * size) len := by omega
      unfold writeChunks
      rw [if_pos hdone]
      exact ⟨k, volume, hk, rfl, .inl ⟨hend, rfl, rfl⟩⟩
    · have hlt : k * size < len := Nat.not_le.mp hend
      have hdone : min (k * size) len = k * size := by omega
      have hpos := pieceLength_pos hsize hlt
      have hnext : k * size + min (len - k * size) size = min ((k + 1) * size) len :=
        done_add_piece hlt
      rw [pieceLength] at hpos
      rw [hdone] at hn ⊢
      unfold writeChunks
      rw [if_neg hend]
      simp only
      have hpiece : m.read (p + (k * size).toUInt64) (min (len - k * size) size) =
          bufferPiece m size p len k := rfl
      rw [hpiece]
      cases hb : bufferPiece m size p len k with
      | none => exact ⟨k, volume, hk, hdone.symm, .inr (.inl ⟨hlt, hb, rfl, rfl⟩)⟩
      | some bytes =>
        simp only
        by_cases hw : (fs.writeFileRange volume path (offset + (k * size).toUInt64) bytes).1 = true
        · rw [if_pos hw]
          rw [hnext]
          refine ih (by omega) ?_
          rw [reached_succ hk, storePiece, hb]
          exact if_pos hw
        · rw [if_neg hw]
          exact ⟨k, volume, hk, hdone.symm,
            .inr (.inr ⟨hlt, bytes, hb, by simpa using hw, rfl, rfl⟩)⟩

variable {desc : Fd} {fd : UInt64}

theorem setOffset_used (hd : usedFd s fd = some desc) (offset : UInt64)
    (volume : V) :
    usedFd { s.setOffset fd desc offset with volume := volume } fd = some { desc with offset } := by
  unfold usedFd at hd ⊢
  split at hd
  next hlt =>
    rw [if_pos hlt]
    exact Function.update_self ..
  · cases hd

theorem stored_all {size : ℕ} {path : Str} {p offset : UInt64} {len j : ℕ} {v v' : V}
    (hj : reached (storePiece fs m size path p offset len) s.volume j = some v) (hend : len ≤ j * size)
    (hlt : k * size < len)
    (hk : reached (storePiece fs m size path p offset len) s.volume k = some v') :
    storePiece fs m size path p offset len k v' ≠ none := by
  have hkj : k + 1 ≤ j := by
    by_contra h
    have := Nat.mul_le_mul_right size (show j ≤ k by omega)
    omega
  obtain ⟨w, hw⟩ := reached_earlier hkj hj
  rw [reached_succ hk] at hw
  rw [hw]
  exact Option.some_ne_none w

theorem store_fault {size : ℕ} {path : Str} {p offset : UInt64} {len : ℕ} (v : V)
    (h : bufferPiece m size p len k = none) : storePiece fs m size path p offset len k v = none := by
  rw [storePiece, h, Option.bind_none]

theorem store_failed {size : ℕ} {path : Str} {p offset : UInt64} {len : ℕ} {v : V} {bytes : Str}
    (h : bufferPiece m size p len k = some bytes)
    (hw : (fs.writeFileRange v path (offset + (k * size).toUInt64) bytes).1 = false) :
    storePiece fs m size path p offset len k v = none := by
  rw [storePiece, h, Option.bind_some]
  exact if_neg (by rw [hw]; exact Bool.noConfusion)

section Endings

variable {size : ℕ} {path : Str} {p offset : UInt64} {len j : ℕ} {v : V}
  (hj : reached (storePiece fs m size path p offset len) s.volume j = some v)
include hj

theorem condition_complete (hend : len ≤ j * size) : FailsClean fs m s size path p offset len ∧
    ∀ k w, ¬ LateFault fs m s size path p offset len k w := by
  constructor
  · intro k w bytes hlt hk hb hw
    exact absurd (store_failed hb hw) (stored_all hj hend hlt hk)
  · rintro k w ⟨-, hlt, hk, hb⟩
    exact stored_all hj hend hlt hk (store_fault w hb)

theorem condition_fault (hlt : j * size < len) (hb : bufferPiece m size p len j = none) :
    FailsClean fs m s size path p offset len ∧
      ∀ k w, LateFault fs m s size path p offset len k w ↔ 0 < j ∧ k = j ∧ w = v := by
  constructor
  · intro k w bytes hk hkw hbytes hw
    obtain ⟨rfl, rfl⟩ := stopped_unique hj (store_fault v hb) hkw (store_failed hbytes hw)
    rw [hb] at hbytes
    cases hbytes
  · intro k w
    constructor
    · rintro ⟨hpos, -, hkw, hnone⟩
      obtain ⟨rfl, rfl⟩ := stopped_unique hj (store_fault v hb) hkw (store_fault w hnone)
      exact ⟨hpos, rfl, rfl⟩
    · rintro ⟨hpos, rfl, rfl⟩
      exact ⟨hpos, hlt, hj, hb⟩

theorem condition_failed (hlt : j * size < len) {bytes : Str}
    (hb : bufferPiece m size p len j = some bytes)
    (hw : (fs.writeFileRange v path (offset + (j * size).toUInt64) bytes).1 = false) :
    (FailsClean fs m s size path p offset len ↔
        (fs.writeFileRange v path (offset + (j * size).toUInt64) bytes).2 = v) ∧
      ∀ k w, ¬ LateFault fs m s size path p offset len k w := by
  constructor
  · refine ⟨fun h => h j v bytes hlt hj hb hw, fun h k w more hk hkw hmore hfail => ?_⟩
    obtain ⟨rfl, rfl⟩ := stopped_unique hj (store_failed hb hw) hkw (store_failed hmore hfail)
    cases hb.symm.trans hmore
    exact h
  · rintro k w ⟨-, -, hkw, hnone⟩
    obtain ⟨rfl, rfl⟩ := stopped_unique hj (store_failed hb hw) hkw (store_fault w hnone)
    cases hb.symm.trans hnone

theorem stores_failed (hsize : 0 < size) (hlt : j * size < len) {w : V} :
    (∃ k, ((j * size : ℕ) : ℤ) = min (k * size) len ∧
      reached (storePiece fs m size path p offset len) s.volume k = some w) ↔ w = v := by
  constructor
  · rintro ⟨k, hdone, hk⟩
    obtain rfl := pieces_unique hsize hlt (Int.ofNat_inj.mp hdone).symm
    exact Option.some.inj (hk.symm.trans hj)
  · rintro rfl
    exact ⟨j, by omega, hj⟩

end Endings

theorem write_file {p len : UInt64} (hp : ¬ (len ≠ 0 ∧ p = 0)) (hfd : 3 ≤ fd)
    (hd : usedFd s fd = some desc) (hk : desc.kind = .file) :
    linuxWriteUserBuffer fs m s fd p len =
      let len := min len serviceCallPayloadMax
      let r := writeChunks fs m 128 desc.path p desc.offset len.toNat len.toNat 0 s.volume
      ⟨r.readResult, { s.setOffset fd desc (desc.offset + r.done.toUInt64) with volume := r.volume },
        []⟩ := by
  unfold linuxWriteUserBuffer
  rw [if_neg hp]
  simp only
  rw [if_pos hfd, hd]
  simp only [hk]

theorem pwrite_file {p len offset : UInt64} (hp : ¬ (p = 0 ∧ len ≠ 0))
    (hd : usedFd s fd = some desc) (hk : desc.kind = .file) :
    linuxFdPwrite fs m s fd p len offset =
      let len := min len serviceCallPayloadMax
      let r := writeChunks fs m 256 desc.path p offset len.toNat len.toNat 0 s.volume
      ⟨r.readResult, { s with volume := r.volume }, []⟩ := by
  unfold linuxFdPwrite
  rw [if_neg hp, hd]
  simp only [hk]

theorem small_done {done : ℕ} {len : UInt64} (h : done ≤ len.toNat) (hz : done.toUInt64 = 0) :
    done = 0 := by
  have hlt : done < 2 ^ 64 := lt_of_le_of_lt h len.toNat_lt
  have := congrArg UInt64.toNat hz
  rwa [UInt64.toNat_ofNat_of_lt' hlt] at this

/-- What the loop over the pieces of a buffer answers and leaves. -/
structure ChunksLaw (fs : FileSystem V) (m : Memory) (s : State V) (size : ℕ) (path : Str)
    (p offset : UInt64) (len : ℕ) (r : Progress V) : Prop where
  within : r.done ≤ len
  counts : 0 ≤ r.readResult → r.readResult = r.done
  unmoved : (r.readResult < 0 → r.done = 0) ↔
    ∀ k volume, ¬ LateFault fs m s size path p offset len k volume
  stores : ((0 ≤ r.readResult → ∃ k, r.readResult = min (k * size) len ∧
        reached (storePiece fs m size path p offset len) s.volume k = some r.volume) ∧
      (r.readResult < 0 → r.volume = s.volume)) ↔
    FailsClean fs m s size path p offset len ∧
      ∀ k volume, LateFault fs m s size path p offset len k volume → volume = s.volume

/-- By the three ways in which the loop ends. -/
theorem chunks_law {size : ℕ} (hsize : 0 < size) (path : Str) (p offset : UInt64) (len : ℕ) :
    ChunksLaw fs m s size path p offset len
      (writeChunks fs m size path p offset len len 0 s.volume) := by
  obtain ⟨j, v, hj, hdone, hends⟩ :=
    writeChunks_stops (k := 0) hsize path p offset len len (Nat.le_add_left ..) rfl
  rw [Nat.zero_mul, Nat.zero_min] at hdone hends
  generalize writeChunks fs m size path p offset len len 0 s.volume = r at hdone hends ⊢
  have hwithin : r.done ≤ len := hdone ▸ Nat.min_le_right ..
  rcases hends with ⟨hend, hending, hvolume⟩ | ⟨hlt, hb, hending, hvolume⟩ |
    ⟨hlt, bytes, hb, hw, hending, hvolume⟩
  · have hresult : r.readResult = r.done := by rw [Progress.readResult, hending]
    obtain ⟨hclean, hlate⟩ := condition_complete hj hend
    refine ⟨hwithin, fun _ => hresult, iff_of_true (fun hneg => absurd hneg (by omega)) hlate,
      iff_of_true ⟨fun _ => ⟨j, ?_, hvolume ▸ hj⟩, fun hneg => absurd hneg (by omega)⟩
        ⟨hclean, fun k w h => absurd h (hlate k w)⟩⟩
    rw [hresult, hdone]
  · have hresult : r.readResult = -14 := by rw [Progress.readResult, hending]; rfl
    obtain ⟨hclean, hlate⟩ := condition_fault hj hlt hb
    refine ⟨hwithin, fun hpos => absurd hpos (by omega), ⟨fun h k w hfault => ?_, fun hnone _ => ?_⟩, ?_⟩
    · have hpos := Nat.mul_pos ((hlate k w).mp hfault).1 hsize
      have hzero := h (by omega)
      omega
    · have hzero : j = 0 := Nat.eq_zero_of_not_pos fun hpos =>
        hnone j v ((hlate j v).mpr ⟨hpos, rfl, rfl⟩)
      rw [hdone, hzero, Nat.zero_mul, Nat.zero_min]
    · rw [and_iff_right hclean]
      refine ⟨fun h k w hfault => ?_, fun hsame => ⟨fun hpos => absurd hpos (by omega), fun _ => ?_⟩⟩
      · obtain ⟨-, -, rfl⟩ := (hlate k w).mp hfault
        exact hvolume ▸ h.2 (by omega)
      · rcases Nat.eq_zero_or_pos j with rfl | hpos
        · exact hvolume.trans (Option.some.inj hj).symm
        · exact hvolume.trans (hsame j v ((hlate j v).mpr ⟨hpos, rfl, rfl⟩))
  · have hdone' : r.done = j * size := by omega
    have hresult : r.readResult = if j * size = 0 then -5 else ((j * size : ℕ) : ℤ) := by
      rw [Progress.readResult, hending, hdone']
      rfl
    obtain ⟨hclean, hlate⟩ := condition_failed hj hlt hb hw
    rw [← hvolume] at hclean
    have hlaw : ∀ {a b : Prop}, ((a ∧ b) ↔ r.volume = v) → ((a ∧ b) ↔
        FailsClean fs m s size path p offset len ∧ ∀ k volume,
          LateFault fs m s size path p offset len k volume → volume = s.volume) := fun h =>
      h.trans (hclean.symm.trans (and_iff_left fun k w hfault => absurd hfault (hlate k w)).symm)
    rcases Nat.eq_zero_or_pos j with rfl | hpos
    · rw [Nat.zero_mul] at hdone'
      rw [Nat.zero_mul, if_pos rfl] at hresult
      obtain rfl := Option.some.inj hj
      exact ⟨hwithin, fun hpos => absurd hpos (by omega), iff_of_true (fun _ => hdone') hlate,
        hlaw ⟨fun h => h.2 (by omega), fun hsame => ⟨fun hpos => absurd hpos (by omega), fun _ => hsame⟩⟩⟩
    · have hpos := Nat.mul_pos hpos hsize
      rw [if_neg (by omega)] at hresult
      have hstores := stores_failed hj hsize hlt (w := r.volume)
      rw [← hresult] at hstores
      exact ⟨hwithin, fun _ => by omega, iff_of_true (fun hneg => absurd hneg (by omega)) hlate,
        hlaw ⟨fun h => hstores.mp (h.1 (by omega)),
          fun hsame => ⟨fun _ => hstores.mpr hsame, fun hneg => absurd hneg (by omega)⟩⟩⟩

theorem write_file_iff {p len : UInt64} (hp : ¬ (len ≠ 0 ∧ p = 0)) (hfd : 3 ≤ fd)
    (hd : usedFd s fd = some desc) (hk : desc.kind = .file) :
    WriteLaw fs m s fd p len ↔
      FailsClean fs m s 128 desc.path p desc.offset (min len serviceCallPayloadMax).toNat ∧
        ∀ k volume, ¬ LateFault fs m s 128 desc.path p desc.offset
          (min len serviceCallPayloadMax).toNat k volume := by
  have htarget : writeTarget s fd = some (desc.path, desc.offset) := by
    rw [writeTarget, if_pos hfd, hd, Option.bind_some, if_pos hk]
  have hlaw : WriteLaw fs m s fd p len ↔
      Stores fs m s 128 (some desc.path) p (min len serviceCallPayloadMax) desc.offset
          (linuxWriteUserBuffer fs m s fd p len) ∧
        Advances s fd (linuxWriteUserBuffer fs m s fd p len) ∧
        Refuses s fd (linuxWriteUserBuffer fs m s fd p len) := by
    constructor
    · intro h
      have hs := h.stores
      rw [htarget] at hs
      exact ⟨hs, h.advances, h.refuses⟩
    · intro h
      refine ⟨?_, fun hlt => absurd hlt (UInt64.not_lt.mpr hfd), h.2.1, h.2.2⟩
      rw [htarget]
      exact h.1
  rw [hlaw, write_file hp hfd hd hk]
  simp only
  generalize min len serviceCallPayloadMax = len
  have h : ChunksLaw fs m s 128 desc.path p desc.offset len.toNat _ :=
    chunks_law (by decide) desc.path p desc.offset len.toNat
  generalize writeChunks fs m 128 desc.path p desc.offset len.toNat len.toNat 0 s.volume = r at h ⊢
  have hused := setOffset_used hd (desc.offset + r.done.toUInt64) r.volume
  constructor
  · rintro ⟨hstores, -, hrefuses⟩
    refine ⟨(h.stores.mp ⟨hstores, fun hneg => (hrefuses hneg).1⟩).1, h.unmoved.mp fun hneg => ?_⟩
    have hfd' := (hrefuses hneg).2
    rw [hused, hd, Option.some.injEq] at hfd'
    exact small_done h.within (UInt64.add_eq_left.mp (congrArg Fd.offset hfd'))
  · rintro ⟨hclean, hnone⟩
    obtain ⟨hstores, hsame⟩ := h.stores.mpr ⟨hclean, fun k v hfault => absurd hfault (hnone k v)⟩
    refine ⟨hstores, fun hpos d hd' => ?_, fun hneg => ⟨hsame hneg, ?_⟩⟩
    · cases hd.symm.trans hd'
      rw [hused, h.counts hpos]
      rfl
    · rw [hused, hd, h.unmoved.mpr hnone hneg]
      exact congrArg some (congrArg (fun o => { desc with offset := o }) (UInt64.add_zero _))

theorem pwrite_file_iff {p len offset : UInt64} (hp : ¬ (p = 0 ∧ len ≠ 0))
    (hd : usedFd s fd = some desc) (hk : desc.kind = .file) :
    TransferLaw fs m s (.pwrite fd p len offset) ↔
      FailsClean fs m s 256 desc.path p offset (min len serviceCallPayloadMax).toNat ∧
        ∀ k volume, LateFault fs m s 256 desc.path p offset (min len serviceCallPayloadMax).toNat k
          volume → volume = s.volume := by
  rw [TransferLaw, fileOf_some hd hk, pwrite_file hp hd hk]
  simp only
  generalize min len serviceCallPayloadMax = len
  rw [← (chunks_law (by decide : 0 < 256) desc.path p offset len.toNat).stores]
  exact and_congr Iff.rfl ⟨fun h hneg => (h hneg).1, fun h hneg => ⟨h hneg, rfl⟩⟩

theorem readChunks_stops (hfs : fs.ReadsAtMost) (path : Str) (p offset : UInt64) (len n : ℕ)
    {before : Str} (hn : len ≤ min (k * 256) len + n)
    (hk : reached (deliverPiece fs m s path p offset len) [] k = some before) :
    let r := readChunks fs m s path p offset len n (min (k * 256) len)
    ∃ j whole, reached (deliverPiece fs m s path p offset len) [] j = some whole ∧
      ((len ≤ j * 256 ∧ r.ending = .complete ∧ r.done = len ∧ before ++ r.returned = whole) ∨
        (j * 256 < len ∧ filePiece fs s path offset len j = none ∧ r.ending = .failed ∧
          r.done = j * 256 ∧ before ++ r.returned = whole) ∨
        (j * 256 < len ∧ ∃ bytes, filePiece fs s path offset len j = some bytes ∧
          bytes.length < pieceLength 256 len j ∧
          (bytes = [] ∨ m.write (p + (j * 256).toUInt64) bytes = true) ∧ r.ending = .complete ∧
          r.done = j * 256 + bytes.length ∧ before ++ r.returned = whole ++ bytes) ∨
        (j * 256 < len ∧ ∃ bytes, filePiece fs s path offset len j = some bytes ∧ bytes ≠ [] ∧
          m.write (p + (j * 256).toUInt64) bytes = false ∧ r.ending = .fault ∧
          r.done = j * 256 ∧ before ++ r.returned = whole)) := by
  induction n generalizing k before with
  | zero =>
    exact ⟨k, before, hk, .inl ⟨by omega, rfl, by change min _ _ = _; omega, List.append_nil _⟩⟩
  | succ n ih =>
    by_cases hend : len ≤ k * 256
    · have hdone : min (k * 256) len = len := by omega
      unfold readChunks
      rw [if_pos (by omega)]
      exact ⟨k, before, hk, .inl ⟨hend, rfl, hdone, List.append_nil _⟩⟩
    · have hlt : k * 256 < len := Nat.not_le.mp hend
      have hdone : min (k * 256) len = k * 256 := by omega
      have hpos := pieceLength_pos (by decide) hlt
      rw [hdone] at hn ⊢
      unfold readChunks
      rw [if_neg hend]
      have hpiece : fs.readFileRange s.volume path (offset + (k * 256).toUInt64)
          (min (len - k * 256) 256) = filePiece fs s path offset len k := rfl
      simp only [hpiece]
      cases hb : filePiece fs s path offset len k with
      | none => exact ⟨k, before, hk, .inr (.inl ⟨hlt, hb, rfl, rfl, List.append_nil _⟩)⟩
      | some bytes =>
        have hmost : bytes.length ≤ pieceLength 256 len k := hfs _ _ _ _ _ hb
        simp only
        by_cases hempty : bytes = []
        · rw [if_pos hempty]
          subst hempty
          exact ⟨k, before, hk,
            .inr (.inr (.inl ⟨hlt, [], hb, hpos, .inl rfl, rfl, (Nat.add_zero _).symm, rfl⟩))⟩
        rw [if_neg hempty]
        by_cases hw : m.write (p + (k * 256).toUInt64) bytes = false
        · rw [if_pos hw]
          exact ⟨k, before, hk,
            .inr (.inr (.inr ⟨hlt, bytes, hb, hempty, hw, rfl, rfl, List.append_nil _⟩))⟩
        rw [if_neg hw]
        have hw : m.write (p + (k * 256).toUInt64) bytes = true := by simpa using hw
        by_cases hshort : bytes.length < min (len - k * 256) 256
        · rw [if_pos hshort]
          exact ⟨k, before, hk, .inr (.inr (.inl ⟨hlt, bytes, hb, hshort, .inr hw, rfl, rfl, rfl⟩))⟩
        · rw [if_neg hshort]
          have hfull : bytes.length = pieceLength 256 len k :=
            Nat.le_antisymm hmost (Nat.not_lt.mp hshort)
          have hnext : k * 256 + bytes.length = min ((k + 1) * 256) len := by
            rw [hfull]
            exact done_add_piece hlt
          have hreached : reached (deliverPiece fs m s path p offset len) [] (k + 1) =
              some (before ++ bytes) := by
            rw [reached_succ hk, deliverPiece, hb, Option.bind_some, if_pos ⟨hfull, hw⟩]
          rw [hnext]
          simp only [← List.append_assoc]
          exact ih (by omega) hreached

theorem delivered_reached {path : Str} {p offset : UInt64} {len : ℕ} {whole : Str}
    (h : reached (deliverPiece fs m s path p offset len) [] k = some whole) :
    whole.length = min (k * 256) len ∧ Delivered m p whole := by
  induction k generalizing whole with
  | zero =>
    cases h
    rw [Nat.zero_mul, Nat.zero_min]
    exact ⟨rfl, .nil⟩
  | succ k ih =>
    obtain ⟨before, hbefore, hpiece⟩ := Option.bind_eq_some_iff.mp h
    obtain ⟨bytes, hb, hdeliver⟩ := Option.bind_eq_some_iff.mp hpiece
    obtain ⟨hlength, hdelivered⟩ := ih hbefore
    split at hdeliver
    next hok =>
      cases hdeliver
      obtain ⟨hbytes, hw⟩ := hok
      by_cases hlt : k * 256 < len
      · have hat : before.length = k * 256 := by omega
        have hnext := done_add_piece hlt
        refine ⟨by rw [List.length_append, hat, hbytes, hnext], .snoc hdelivered ?_⟩
        rw [hat]
        exact hw
      · have hnone : bytes = [] := by
          rw [pieceLength] at hbytes
          exact List.eq_nil_of_length_eq_zero (by omega)
        rw [hnone, List.append_nil, hlength, Nat.add_mul, Nat.one_mul]
        exact ⟨by omega, hdelivered⟩
    · cases hdeliver

theorem deliver_fault {path : Str} {p offset : UInt64} {len : ℕ} {bytes : Str} (before : Str)
    (hb : filePiece fs s path offset len k = some bytes)
    (hw : m.write (p + (k * 256).toUInt64) bytes = false) :
    deliverPiece fs m s path p offset len k before = none := by
  rw [deliverPiece, hb, Option.bind_some, if_neg]
  exact fun h => Bool.noConfusion (hw.symm.trans h.2)

theorem no_fault_stopped {path : Str} {p offset : UInt64} {len j : ℕ} {whole : Str}
    (hj : reached (deliverPiece fs m s path p offset len) [] j = some whole)
    (hstop : deliverPiece fs m s path p offset len j whole = none)
    (hok : ∀ bytes, filePiece fs s path offset len j = some bytes → bytes ≠ [] →
      m.write (p + (j * 256).toUInt64) bytes = true) : NoLateFault fs m s path p offset len := by
  intro k before bytes _ hlt hk hb hne
  by_contra hw
  obtain ⟨rfl, rfl⟩ := stopped_unique hj hstop hk (deliver_fault before hb (by simpa using hw))
  exact hw (hok bytes hb hne)

theorem no_fault_complete {path : Str} {p offset : UInt64} {len j : ℕ} {whole : Str}
    (hj : reached (deliverPiece fs m s path p offset len) [] j = some whole) (hend : len ≤ j * 256) :
    NoLateFault fs m s path p offset len := by
  intro k before bytes _ hlt hk hb _
  have hkj : k + 1 ≤ j := by
    by_contra h
    have := Nat.mul_le_mul_right 256 (show j ≤ k by omega)
    omega
  obtain ⟨after, hafter⟩ := reached_earlier hkj hj
  by_contra hw
  rw [reached_succ hk, deliver_fault before hb (by simpa using hw)] at hafter
  cases hafter

theorem read_loop (hfs : fs.ReadsAtMost) (path : Str) (p offset : UInt64) (len : UInt64) :
    let r := readChunks fs m s path p offset len.toNat len.toNat 0
    (0 ≤ r.readResult → r.readResult = r.done ∧ Delivered m p r.returned ∧
      r.returned.length = r.done) ∧
      r.done ≤ len.toNat ∧
      ((r.readResult < 0 → r.done = 0) ↔ NoLateFault fs m s path p offset len.toNat) := by
  obtain ⟨j, whole, hj, hends⟩ := readChunks_stops hfs (m := m) (s := s) (k := 0) path p offset len.toNat
    len.toNat (Nat.le_add_left ..) rfl
  rw [Nat.zero_mul, Nat.zero_min] at hends
  intro r
  change (len.toNat ≤ j * 256 ∧ r.ending = .complete ∧ r.done = len.toNat ∧ [] ++ r.returned = whole) ∨
    (j * 256 < len.toNat ∧ _ ∧ r.ending = .failed ∧ r.done = j * 256 ∧ [] ++ r.returned = whole) ∨
    (j * 256 < len.toNat ∧ ∃ bytes, _ ∧ _ ∧ _ ∧ r.ending = .complete ∧
      r.done = j * 256 + bytes.length ∧ [] ++ r.returned = whole ++ bytes) ∨
    (j * 256 < len.toNat ∧ ∃ bytes, _ ∧ _ ∧ _ ∧ r.ending = .fault ∧ r.done = j * 256 ∧
      [] ++ r.returned = whole) at hends
  simp only [List.nil_append] at hends
  obtain ⟨hlength, hdelivered⟩ := delivered_reached hj
  rw [Progress.readResult]
  rcases hends with ⟨hend, hending, hdone, rfl⟩ | ⟨hlt, hb, hending, hdone, rfl⟩ |
    ⟨hlt, bytes, hb, hshort, hw, hending, hdone, hreturned⟩ |
    ⟨hlt, bytes, hb, hne, hw, hending, hdone, rfl⟩
  · rw [hending]
    refine ⟨fun _ => ⟨rfl, hdelivered, by omega⟩, by omega, ?_⟩
    exact iff_of_true (fun h => absurd h (by simp only; omega)) (no_fault_complete hj hend)
  · rw [hending]
    refine ⟨fun hpos => ⟨?_, hdelivered, by omega⟩, by omega, iff_of_true (fun hneg => ?_) ?_⟩
    · simp only at hpos ⊢
      split at hpos
      · cases hpos
      next hne => rw [if_neg hne]
    · simp only at hneg
      split at hneg
      next hzero => exact hzero
      · omega
    · refine no_fault_stopped hj (by rw [deliverPiece, hb, Option.bind_none]) fun bytes hbytes => ?_
      rw [hb] at hbytes
      cases hbytes
  · have hat : whole.length = j * 256 := by omega
    have hmore : Delivered m p (whole ++ bytes) := by
      rcases hw with rfl | hw
      · rw [List.append_nil]
        exact hdelivered
      · refine .snoc hdelivered ?_
        rw [hat]
        exact hw
    rw [hending, hreturned]
    have hle : j * 256 + pieceLength 256 len.toNat j ≤ len.toNat := by
      rw [pieceLength]
      omega
    refine ⟨fun _ => ⟨rfl, hmore, by rw [List.length_append, hat, hdone]⟩, by omega,
      iff_of_true (fun h => absurd h (by simp only; omega)) ?_⟩
    refine no_fault_stopped hj ?_ fun more hmore hne => ?_
    · rw [deliverPiece, hb, Option.bind_some, if_neg fun h => by omega]
    · cases hb.symm.trans hmore
      exact hw.resolve_left hne
  · have hneg : (-efault : ℤ) < 0 := by decide
    rw [hending]
    refine ⟨fun hpos => absurd hneg (Int.not_lt.mpr hpos), by omega, ?_⟩
    constructor
    · intro hzero k before more hk hlt' hkb hmore hne'
      have hj0 : j = 0 := by
        have := hzero hneg
        omega
      by_contra hw'
      obtain ⟨rfl, -⟩ := stopped_unique hj (deliver_fault _ hb hw) hkb
        (deliver_fault before hmore (by simpa using hw'))
      omega
    · intro hnone _
      by_contra hne'
      have hok := hnone j _ bytes (by omega) hlt hj hb hne
      rw [hw] at hok
      cases hok

theorem zeroChunks_pieces (p : UInt64) (len n done : ℕ) :
    zeroChunks m p len n done =
      if allPieces (fun done count => m.write (p + done.toUInt64) (List.replicate count 0)) 256 len n
        done then .complete else .fault := by
  induction n generalizing done with
  | zero => rfl
  | succ n ih =>
    unfold zeroChunks allPieces
    by_cases hend : len ≤ done
    · simp only [if_pos hend, if_true]
    · simp only [if_neg hend, ih]
      cases m.write (p + done.toUInt64) (List.replicate (min (len - done) 256) 0) <;> rfl

theorem terminalChunks_pieces (p : UInt64) (len n done : ℕ) :
    terminalChunks m p len n done =
      if allPieces (fun done count => (m.read (p + done.toUInt64) count).isSome) 128 len n done then
        .complete
      else .fault := by
  induction n generalizing done with
  | zero => rfl
  | succ n ih =>
    unfold terminalChunks allPieces
    by_cases hend : len ≤ done
    · simp only [if_pos hend, if_true]
    · simp only [if_neg hend, ih]
      cases (m.read (p + done.toUInt64) (min (len - done) 128)).isSome <;> rfl

theorem min_next (size len k : ℕ) :
    min (k * size) len + pieceLength size len k = min ((k + 1) * size) len := by
  rw [pieceLength, Nat.add_mul, Nat.one_mul]
  omega

theorem zeros_delivered {p : UInt64} {len : ℕ} (h : ∀ k, k * 256 < len →
    m.write (p + (k * 256).toUInt64) (List.replicate (pieceLength 256 len k) 0) = true) :
    Delivered m p (List.replicate len 0) := by
  have hsome : ∀ k, Delivered m p (List.replicate (min (k * 256) len) 0) := by
    intro k
    induction k with
    | zero =>
      rw [Nat.zero_mul, Nat.zero_min]
      exact .nil
    | succ k ih =>
      rw [← min_next, List.replicate_add]
      by_cases hlt : k * 256 < len
      · refine .snoc ih ?_
        rw [List.length_replicate, Nat.min_eq_left hlt.le]
        exact h k hlt
      · have hnone : pieceLength 256 len k = 0 := by
          rw [pieceLength]
          omega
        rw [hnone, List.replicate_zero, List.append_nil]
        exact ih
  have hall := hsome len
  rwa [Nat.min_eq_right (by omega)] at hall

theorem terminal_taken {p : UInt64} {len : ℕ} (h : ∀ k, k * 128 < len →
    (bufferPiece m 128 p len k).isSome = true) : Taken m p len := by
  have hsome : ∀ k, Taken m p (min (k * 128) len) := by
    intro k
    induction k with
    | zero =>
      rw [Nat.zero_mul, Nat.zero_min]
      exact .nil
    | succ k ih =>
      rw [← min_next]
      by_cases hlt : k * 128 < len
      · refine .snoc ih ?_
        rw [Nat.min_eq_left hlt.le]
        exact h k hlt
      · have hnone : pieceLength 128 len k = 0 := by
          rw [pieceLength]
          omega
        rw [hnone, Nat.add_zero]
        exact ih
  have hall := hsome len
  rwa [Nat.min_eq_right (by omega)] at hall

theorem readZeros_cases (p len : UInt64) :
    (readZeros m s p len = ⟨len.toNat, s, []⟩ ∧ ∀ k, k * 256 < len.toNat →
        m.write (p + (k * 256).toUInt64) (List.replicate (pieceLength 256 len.toNat k) 0) = true) ∨
      (readZeros m s p len = refuse s efault ∧ ∃ k, k * 256 < len.toNat ∧
        m.write (p + (k * 256).toUInt64) (List.replicate (pieceLength 256 len.toNat k) 0) = false) := by
  have hiff := allPieces_iff (fun done count => m.write (p + done.toUInt64) (List.replicate count 0))
    len.toNat (by decide : 0 < 256)
  rw [readZeros, zeroChunks_pieces]
  split
  next hall =>
    split at hall
    next hok => exact .inl ⟨rfl, hiff.mp hok⟩
    · cases hall
  next hnot =>
    refine .inr ⟨rfl, ?_⟩
    by_contra hnone
    refine hnot (if_pos (hiff.mpr fun k hk => ?_))
    by_contra hw
    exact hnone ⟨k, hk, by simpa using hw⟩

theorem refused_law (fd p : UInt64) {e : ℤ} (he : 0 < e) :
    Delivers m s fd p (refuse s e) ∧ Advances s fd (refuse s e) ∧ Refuses s fd (refuse s e) := by
  have hneg : (refuse s e).result < 0 := Int.neg_neg_of_pos he
  exact ⟨fun h => absurd hneg (Int.not_lt.mpr h), fun h => absurd hneg (Int.not_lt.mpr h),
    fun _ => ⟨rfl, rfl⟩⟩

theorem offset_kept {n : UInt64} (hd : usedFd s fd = some desc) :
    usedFd s fd = some { desc with offset := desc.offset + n } ↔ n = 0 := by
  rw [hd, Option.some.injEq]
  constructor
  · intro h
    exact UInt64.add_eq_left.mp (congrArg Fd.offset h).symm
  · rintro rfl
    rw [UInt64.add_zero]

theorem toNat_toUInt64 (n : UInt64) : n.toNat.toUInt64 = n := UInt64.ofNat_toNat

theorem read_iff (hfs : fs.ReadsAtMost) (fd p len : UInt64) :
    ReadLaw fs m s fd p len ↔ ReadCondition fs m s fd p len := by
  by_cases hp : p = 0 ∧ len ≠ 0
  · have hread : linuxFdRead fs m s fd p len = refuse s efault := if_pos hp
    have hpread : ∀ offset, linuxFdPread fs m s fd p len offset = refuse s efault :=
      fun _ => if_pos hp
    obtain ⟨h₁, h₂, h₃⟩ := refused_law (m := m) (s := s) fd p (by decide : 0 < efault)
    refine iff_of_true ⟨fun desc _ => ?_, hread ▸ h₁, hread ▸ h₂, hread ▸ h₃⟩ (.inl hp)
    rw [hread, hpread]
    exact ⟨rfl, rfl⟩
  rw [ReadCondition, or_iff_right hp]
  cases hd : usedFd s fd with
  | none =>
    have hread : linuxFdRead fs m s fd p len = refuse s ebadf := by
      rw [linuxFdRead, if_neg hp, hd]
    obtain ⟨h₁, h₂, h₃⟩ := refused_law (m := m) (s := s) fd p (by decide : 0 < ebadf)
    refine iff_of_true ⟨fun desc hdesc => ?_, hread ▸ h₁, hread ▸ h₂, hread ▸ h₃⟩ trivial
    rw [hd] at hdesc
    cases hdesc
  | some desc =>
    simp only
    cases hk : desc.kind with
    | stdin =>
      have hread : linuxFdRead fs m s fd p len = linuxStdinRead m s p len := by
        rw [linuxFdRead, if_neg hp, hd]
        simp only [hk]
      have hpread : ∀ offset, linuxFdPread fs m s fd p len offset = refuse s ebadf := by
        intro offset
        rw [linuxFdPread, if_neg hp, hd]
        simp only [hk]
      refine iff_of_false (fun h => ?_) not_false
      have hsame := (h.as_pread desc hd).1
      rw [hread, hpread, linuxStdinRead] at hsame
      split at hsame
      · cases hsame
      · split at hsame <;> cases hsame
    | stdout | stderr | dir =>
      have hread : linuxFdRead fs m s fd p len = refuse s ebadf := by
        rw [linuxFdRead, if_neg hp, hd]
        simp only [hk]
      have hpread : ∀ offset, linuxFdPread fs m s fd p len offset = refuse s ebadf := by
        intro offset
        rw [linuxFdPread, if_neg hp, hd]
        simp only [hk]
      obtain ⟨h₁, h₂, h₃⟩ := refused_law (m := m) (s := s) fd p (by decide : 0 < ebadf)
      refine iff_of_true ⟨fun _ _ => ?_, hread ▸ h₁, hread ▸ h₂, hread ▸ h₃⟩ trivial
      rw [hread, hpread]
      exact ⟨rfl, rfl⟩
    | devNull | devZero =>
      have hread : linuxFdRead fs m s fd p len = readZeros m s p len := by
        rw [linuxFdRead, if_neg hp, hd]
        simp only [hk]
      have hpread : ∀ offset, linuxFdPread fs m s fd p len offset = readZeros m s p len := by
        intro offset
        rw [linuxFdPread, if_neg hp, hd]
        simp only [hk]
      have hfile : ¬ fileOf s fd ≠ none := by rw [fileOf, hd, Option.bind_some, hk]; exact not_not.mpr rfl
      have hsame : ∀ d, usedFd s fd = some d →
          (linuxFdRead fs m s fd p len).result = (linuxFdPread fs m s fd p len d.offset).result ∧
          (linuxFdRead fs m s fd p len).returned = (linuxFdPread fs m s fd p len d.offset).returned := by
        intro d _
        rw [hread, hpread]
        exact ⟨rfl, rfl⟩
      rcases readZeros_cases (m := m) (s := s) p len with ⟨hzeros, hall⟩ | ⟨hzeros, k, hlt, hw⟩
      · rw [hzeros] at hread
        have hcond : (len = 0 ∨ ∃ k, k * 256 < len.toNat ∧ m.write (p + (k * 256).toUInt64)
            (List.replicate (pieceLength 256 len.toNat k) 0) = false) ↔ len = 0 := by
          refine or_iff_left ?_
          rintro ⟨k, hlt, hw⟩
          rw [hall k hlt] at hw
          cases hw
        rw [hcond]
        constructor
        · intro h
          have hmoved := h.advances (by rw [hread]; exact Int.natCast_nonneg _) desc hd
          rw [hread] at hmoved
          exact (toNat_toUInt64 len).symm.trans ((offset_kept hd).mp hmoved)
        · rintro rfl
          refine ⟨hsame, ?_, ?_, ?_⟩
          · exact fun _ => ⟨[], .nil, by rw [hread]; rfl, fun h => absurd h hfile⟩
          · rw [hread]
            exact fun _ d hd' => (offset_kept hd').mpr rfl
          · rw [hread]
            exact fun hneg => absurd hneg (Int.not_lt.mpr (Int.natCast_nonneg _))
      · rw [hzeros] at hread
        obtain ⟨h₁, h₂, h₃⟩ := refused_law (m := m) (s := s) fd p (by decide : 0 < efault)
        exact iff_of_true ⟨hsame, hread ▸ h₁, hread ▸ h₂, hread ▸ h₃⟩ (.inr ⟨k, hlt, hw⟩)
    | file =>
      have hread : linuxFdRead fs m s fd p len =
          let r := readChunks fs m s desc.path p desc.offset len.toNat len.toNat 0
          ⟨r.readResult, s.setOffset fd desc (desc.offset + r.done.toUInt64), r.returned⟩ := by
        rw [linuxFdRead, if_neg hp, hd]
        simp only [hk]
      have hpread : linuxFdPread fs m s fd p len desc.offset =
          let r := readChunks fs m s desc.path p desc.offset len.toNat len.toNat 0
          ⟨r.readResult, s, r.returned⟩ := by
        rw [linuxFdPread, if_neg hp, hd]
        simp only [hk]
      simp only at hread hpread
      obtain ⟨hpos, hle, hiff⟩ := read_loop hfs (m := m) (s := s) desc.path p desc.offset len
      have hused : usedFd (linuxFdRead fs m s fd p len).state fd = some { desc with offset :=
          desc.offset +
            (readChunks fs m s desc.path p desc.offset len.toNat len.toNat 0).done.toUInt64 } := by
        rw [hread]
        exact setOffset_used hd _ _
      rw [← hiff]
      generalize readChunks fs m s desc.path p desc.offset len.toNat len.toNat 0 = r
        at hread hpread hpos hle hused
      constructor
      · intro h hneg
        have hsame := (h.refuses (by rw [hread]; exact hneg)).2
        rw [hused, eq_comm, offset_kept hd] at hsame
        exact small_done hle hsame
      · intro hzero
        refine ⟨fun d hd' => ?_, fun hge => ?_, fun hge d hd' => ?_, fun hneg => ⟨?_, ?_⟩⟩
        · cases hd.symm.trans hd'
          rw [hread, hpread]
          exact ⟨rfl, rfl⟩
        · rw [hread] at hge ⊢
          obtain ⟨hresult, hdelivered, hlength⟩ := hpos hge
          exact ⟨r.returned, hdelivered, by rw [hlength]; exact hresult.symm, fun _ => rfl⟩
        · cases hd.symm.trans hd'
          rw [hread] at hge
          rw [hused, hread]
          simp only at hge ⊢
          rw [(hpos hge).1]
          rfl
        · rw [hread]
          rfl
        · rw [hread] at hneg
          rw [hused, hzero hneg, hd]
          exact congrArg some (congrArg (fun o => { desc with offset := o }) (UInt64.add_zero _))

theorem pread_law (hfs : fs.ReadsAtMost) (fd p len offset : UInt64) :
    Delivers m s fd p (linuxFdPread fs m s fd p len offset) ∧
      Refuses s fd (linuxFdPread fs m s fd p len offset) := by
  have hrefused : ∀ {e : ℤ}, 0 < e → Delivers m s fd p (refuse s e) ∧ Refuses s fd (refuse s e) :=
    fun he => ⟨(refused_law fd p he).1, (refused_law (m := m) fd p he).2.2⟩
  unfold linuxFdPread
  split
  · exact hrefused (by decide)
  · split
    · exact hrefused (by decide)
    next desc hd =>
      have hfile : desc.kind ≠ .file → ¬ fileOf s fd ≠ none := fun hne => by
        rw [fileOf, hd, Option.bind_some, if_neg hne]
        exact not_not.mpr rfl
      have hzeros : desc.kind ≠ .file →
          Delivers m s fd p (readZeros m s p len) ∧ Refuses s fd (readZeros m s p len) := by
        intro hne
        rcases readZeros_cases (m := m) (s := s) p len with ⟨hz, hall⟩ | ⟨hz, -⟩
        · rw [hz]
          exact ⟨fun _ => ⟨_, zeros_delivered hall, by rw [List.length_replicate],
            fun h => absurd h (hfile hne)⟩, fun _ => ⟨rfl, rfl⟩⟩
        · rw [hz]
          exact hrefused (by decide)
      split
      next hk => exact hzeros (by rw [hk]; decide)
      next hk => exact hzeros (by rw [hk]; decide)
      · obtain ⟨hpos, -, -⟩ := read_loop hfs (m := m) (s := s) desc.path p offset len
        refine ⟨fun hge => ?_, fun _ => ⟨rfl, rfl⟩⟩
        obtain ⟨hresult, hdelivered, hlength⟩ := hpos hge
        exact ⟨_, hdelivered, by rw [hlength]; exact hresult.symm, fun _ => rfl⟩
      · exact hrefused (by decide)

theorem refused_write {p len : UInt64} {e : ℤ} (he : 0 < e)
    (h : linuxWriteUserBuffer fs m s fd p len = refuse s e) : WriteLaw fs m s fd p len := by
  have hneg : (refuse s e).result < 0 := Int.neg_neg_of_pos he
  obtain ⟨-, h₂, h₃⟩ := refused_law (m := m) (s := s) fd p he
  refine ⟨?_, ?_, h ▸ h₂, h ▸ h₃⟩
  · rw [h]
    exact fun hge => absurd hneg (Int.not_lt.mpr hge)
  · rw [h]
    exact fun _ hge => absurd hneg (Int.not_lt.mpr hge)

theorem taken_write_iff {p len n : UInt64} (hn : (if 3 ≤ fd then fileOf s fd else none) = none)
    (h : linuxWriteUserBuffer fs m s fd p len = ⟨n.toNat, s, []⟩) (ht : fd < 3 → Taken m p n.toNat) :
    WriteLaw fs m s fd p len ↔ usedFd s fd = none ∨ n = 0 := by
  have htarget : writeTarget s fd = none := by
    unfold writeTarget
    split
    next hfd =>
      rw [if_pos hfd, fileOf] at hn
      cases hd : usedFd s fd with
      | none => rfl
      | some desc =>
        rw [hd, Option.bind_some] at hn
        rw [Option.bind_some]
        split at hn
        · cases hn
        next hk => exact if_neg hk
    · rfl
  constructor
  · intro hlaw
    by_contra hnot
    rw [not_or] at hnot
    obtain ⟨desc, hd⟩ := Option.ne_none_iff_exists'.mp hnot.1
    have hmoved := hlaw.advances (by rw [h]; exact Int.natCast_nonneg _) desc hd
    rw [h] at hmoved
    exact hnot.2 ((toNat_toUInt64 n).symm.trans ((offset_kept hd).mp hmoved))
  · intro hnone
    refine ⟨?_, ?_, ?_, ?_⟩
    · rw [h, htarget]
      exact fun _ => rfl
    · rw [h]
      exact fun hlt _ => ht hlt
    · rw [h]
      intro _ desc hd
      rcases hnone with hnone | rfl
      · rw [hnone] at hd
        cases hd
      · exact (offset_kept hd).mpr rfl
    · rw [h]
      exact fun hneg => absurd hneg (Int.not_lt.mpr (Int.natCast_nonneg _))

theorem write_iff (fd p len : UInt64) :
    WriteLaw fs m s fd p len ↔ WriteCondition fs m s fd p len := by
  by_cases hp : len ≠ 0 ∧ p = 0
  · exact iff_of_true (refused_write (by decide : 0 < efault) (if_pos hp)) (.inl hp)
  rw [WriteCondition, or_iff_right hp]
  simp only
  by_cases hfd : fd ≥ 3
  · rw [if_pos hfd]
    cases hd : usedFd s fd with
    | none =>
      refine iff_of_true (refused_write (by decide : 0 < ebadf) ?_) trivial
      rw [linuxWriteUserBuffer, if_neg hp]
      simp only
      rw [if_pos hfd, hd]
    | some desc =>
      simp only
      cases hk : desc.kind with
      | stdin | stdout | stderr | dir | devZero =>
        refine iff_of_true (refused_write (by decide : 0 < ebadf) ?_) trivial
        rw [linuxWriteUserBuffer, if_neg hp]
        simp only
        rw [if_pos hfd, hd]
        simp only [hk]
      | devNull =>
        have hwrite : linuxWriteUserBuffer fs m s fd p len =
            ⟨(min len serviceCallPayloadMax).toNat, s, []⟩ := by
          rw [linuxWriteUserBuffer, if_neg hp]
          simp only
          rw [if_pos hfd, hd]
          simp only [hk]
        have hfile : (if 3 ≤ fd then fileOf s fd else none) = none := by
          rw [if_pos hfd, fileOf, hd, Option.bind_some, hk]
          rfl
        rw [taken_write_iff hfile hwrite fun hlt => absurd hlt (UInt64.not_lt.mpr hfd)]
        exact or_iff_right (by rw [hd]; exact Option.some_ne_none desc)
      | file => exact write_file_iff hp hfd hd hk
  · rw [if_neg hfd]
    by_cases hzero : fd = 0
    · subst hzero
      refine iff_of_true (refused_write (by decide : 0 < ebadf) ?_) (.inl rfl)
      rw [linuxWriteUserBuffer, if_neg hp]
      simp only
      rw [if_neg hfd, if_pos (by decide)]
    have hout : ¬ (fd ≠ 1 ∧ fd ≠ 2) := by
      rintro ⟨h₁, h₂⟩
      have hlt := UInt64.not_le.mp hfd
      rw [UInt64.lt_iff_toNat_lt] at hlt
      have h₀ := mt UInt64.toNat_inj.mp hzero
      have h₁ := mt UInt64.toNat_inj.mp h₁
      have h₂ := mt UInt64.toNat_inj.mp h₂
      change fd.toNat < 3 at hlt
      change fd.toNat ≠ 0 at h₀
      change fd.toNat ≠ 1 at h₁
      change fd.toNat ≠ 2 at h₂
      omega
    have hwrite : ∀ ending, terminalChunks m p (min len serviceCallPayloadMax).toNat
          (min len serviceCallPayloadMax).toNat 0 = ending →
        (ending = .complete → linuxWriteUserBuffer fs m s fd p len =
          ⟨(min len serviceCallPayloadMax).toNat, s, []⟩) ∧
        (ending = .fault → linuxWriteUserBuffer fs m s fd p len = refuse s efault) := by
      rw [linuxWriteUserBuffer, if_neg hp]
      simp only
      rw [if_neg hfd, if_neg hout]
      rintro _ rfl
      constructor <;> intro hending <;> rw [hending]
    rw [or_iff_right hzero]
    generalize min len serviceCallPayloadMax = n at hwrite
    have hiff := allPieces_iff (fun done count => (m.read (p + done.toUInt64) count).isSome) n.toNat
      (by decide : 0 < 128)
    replace hwrite := hwrite _ (terminalChunks_pieces ..)
    cases hall : allPieces (fun done count => (m.read (p + done.toUInt64) count).isSome) 128 n.toNat
      n.toNat 0 with
    | true =>
      rw [hall, if_pos rfl] at hwrite
      replace hwrite := hwrite.1 rfl
      have hpieces : ∀ k, k * 128 < n.toNat → (bufferPiece m 128 p n.toNat k).isSome = true :=
        hiff.mp hall
      rw [taken_write_iff (if_neg hfd) hwrite fun _ => terminal_taken hpieces]
      refine or_congr_right (or_iff_left ?_).symm
      rintro ⟨k, hlt, hnone⟩
      have hsome := hpieces k hlt
      rw [hnone] at hsome
      cases hsome
    | false =>
      rw [hall, if_neg Bool.noConfusion] at hwrite
      replace hwrite := hwrite.2 rfl
      refine iff_of_true (refused_write (by decide : 0 < efault) hwrite) (.inr (.inr ?_))
      by_contra hnone
      rw [hiff.mpr fun k hk => ?_] at hall
      · cases hall
      · rw [Option.isSome_iff_ne_none]
        exact fun hpiece => hnone ⟨k, hk, hpiece⟩

theorem pwrite_iff (fd p len offset : UInt64) : TransferLaw fs m s (.pwrite fd p len offset) ↔
    PwriteCondition fs m s fd p len offset := by
  have hrefused : ∀ {e : ℤ}, 0 < e → linuxFdPwrite fs m s fd p len offset = refuse s e →
      TransferLaw fs m s (.pwrite fd p len offset) := by
    intro e he h
    have hneg : (refuse s e).result < 0 := Int.neg_neg_of_pos he
    rw [TransferLaw, h]
    exact ⟨fun hge => absurd hneg (Int.not_lt.mpr hge), fun _ => ⟨rfl, rfl⟩⟩
  by_cases hp : p = 0 ∧ len ≠ 0
  · exact iff_of_true (hrefused (by decide : 0 < efault) (if_pos hp)) (.inl hp)
  rw [PwriteCondition, or_iff_right hp]
  cases hd : usedFd s fd with
  | none =>
    have hfile : fileOf s fd = none := by rw [fileOf, hd, Option.bind_none]
    rw [hfile]
    exact iff_of_true (hrefused (by decide : 0 < ebadf) (by rw [linuxFdPwrite, if_neg hp, hd])) trivial
  | some desc =>
    cases hk : desc.kind with
    | file =>
      rw [fileOf_some hd hk]
      exact pwrite_file_iff hp hd hk
    | stdin | stdout | stderr | dir | devZero =>
      have hfile : fileOf s fd = none := by
        rw [fileOf, hd, Option.bind_some, hk]
        rfl
      rw [hfile]
      refine iff_of_true (hrefused (by decide : 0 < ebadf) ?_) trivial
      rw [linuxFdPwrite, if_neg hp, hd]
      simp only [hk]
    | devNull =>
      have hfile : fileOf s fd = none := by
        rw [fileOf, hd, Option.bind_some, hk]
        rfl
      have hwrite : linuxFdPwrite fs m s fd p len offset = ⟨len.toInt64.toInt, s, []⟩ := by
        rw [linuxFdPwrite, if_neg hp, hd]
        simp only [hk]
      rw [TransferLaw, hwrite, hfile]
      exact iff_of_true ⟨fun _ => rfl, fun _ => ⟨rfl, rfl⟩⟩ trivial

/-- The transfers move the offset by what they report, exactly if no fault or error of the file
system comes behind a part of the transfer that has been made. -/
theorem transfers_exact_iff (fs : FileSystem V) (hfs : fs.ReadsAtMost) (m : Memory) (s : State V)
    (t : Transfer) : TransferLaw fs m s t ↔ TransferCondition fs m s t := by
  cases t with
  | read fd p len => exact read_iff hfs fd p len
  | write fd p len => exact write_iff fd p len
  | pread fd p len offset => exact iff_of_true (pread_law hfs fd p len offset) trivial
  | pwrite fd p len offset => exact pwrite_iff fd p len offset

theorem oneFile_reads_at_most (mode : UInt32) : (oneFile mode).ReadsAtMost := by
  intro volume path offset n bytes h
  simp only [oneFile] at h
  split at h
  · cases h
    exact List.length_take_le ..
  · cases h

/-- An open file of 300 bytes, and a program of which 256 bytes at address 1 can be accessed. -/
def longFile : State Str :=
  { startState (List.replicate 300 7) with
    fds := Function.update (startState []).fds 3 (some ⟨.file, filePath, 0, 2⟩) }

def shortMemory : Memory where
  read p n := if 1 ≤ p.toNat ∧ p.toNat + n ≤ 257 then some (List.replicate n 0) else none
  write p bytes := 1 ≤ p.toNat && p.toNat + bytes.length ≤ 257
  typed := 0

theorem short_read_exact : TransferLaw (oneFile 0o644) shortMemory longFile (.read 3 1 256) ↔
    TransferCondition (oneFile 0o644) shortMemory longFile (.read 3 1 256) :=
  transfers_exact_iff _ (oneFile_reads_at_most _) shortMemory longFile (.read 3 1 256)

/-- A `read` of 300 bytes into a buffer of 256 answers `EFAULT` behind the first 256. -/
theorem fault_moves_offset : ¬ ∀ (V : Type) (fs : FileSystem V) (m : Memory) (s : State V) (t : Transfer),
    fs.ReadsAtMost → TransferLaw fs m s t := by
  intro h
  have hlaw : ReadLaw (oneFile 0o644) shortMemory longFile 3 1 300 :=
    h Str (oneFile 0o644) shortMemory longFile (.read 3 1 300) (oneFile_reads_at_most _)
  have hoffset := congrArg (Option.map Fd.offset) (hlaw.refuses (by decide +kernel)).2
  revert hoffset
  decide +kernel

end Klcs
