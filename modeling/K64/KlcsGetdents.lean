import K64.KlcsTransfers
import K64.FsDirectoryIteration
import K64.RunPrefixes

/-! # Directories of Linux programs

`linux_getdents64`: the position is an index, and every call goes through "." and ".." and the whole
directory again and skips what has been returned. -/
namespace Klcs

open ByteCodec XfsFormat XfsInode XfsDirectory XfsOperations XfsVolume XfsConsistency
  XfsDirectoryUpdate XfsListing XfsSystem XfsRuns XfsFileMap XfsTree XfsEmptyDirectories
open FsPaths (dot fsNormalize)
open FileTree (isPseudoPath procPath devPath)
open FsDirectoryIteration

def enotdir : ℤ := 20

structure DirRecord where
  ino : ℕ
  off : ℕ
  reclen : ℕ
  isDir : Bool
  name : List UInt8

/-- The packed fields in front of the name take 19 bytes. -/
def DirRecord.fixedBytes (r : DirRecord) : List UInt8 :=
  leBytes 8 r.ino ++ leBytes 8 r.off ++ leBytes 2 r.reclen ++ [if r.isDir then 4 else 8]

def recordLength (name : List UInt8) : ℕ := (19 + name.length + 1 + 7) / 8 * 8

/-- The record is written in pieces: the fields, the name, its terminator and the bytes behind. -/
def writeRecord (m : Memory) (pos : UInt64) (r : DirRecord) : Bool :=
  let named := 19 + r.name.length
  m.write pos r.fixedBytes && m.write (pos + (19 : ℕ).toUInt64) r.name &&
    m.write (pos + named.toUInt64) [0] &&
    (List.range (r.reclen - (named + 1))).all fun i => m.write (pos + (named + 1 + i).toUInt64) [0]

/-- The context of the iteration; `records` is what has been written to the buffer. -/
structure GetdentsCtx where
  index : ℕ
  written : ℕ
  records : List DirRecord

variable (m : Memory) (p : UInt64) (len skip : ℕ)

def linuxGetdentsEmit (name : List UInt8) (isDir : Bool) (ino : ℕ) (ctx : GetdentsCtx) :
    Bool × GetdentsCtx :=
  if name = [] then (true, ctx)
  else if ctx.index < skip then (true, { ctx with index := ctx.index + 1 })
  else
    let r : DirRecord :=
      ⟨if ino = 0 then ctx.index + 1 else ino, ctx.index + 1, recordLength name, isDir, name⟩
    if ctx.written + r.reclen > len then (false, ctx)
    else if writeRecord m (p + ctx.written.toUInt64) r then
      (true, ⟨ctx.index + 1, ctx.written + r.reclen, ctx.records ++ [r]⟩)
    else (false, ctx)

/-- `linux_getdents64` with the root volume as the volume of the state, and the records that it writes
to the buffer. -/
def linuxGetdents64 (s : State System) (cwd : CString) (fd p len : UInt64) :
    Outcome System × List DirRecord :=
  if p = 0 ∧ len ≠ 0 then (refuse s efault, [])
  else if len = 0 then (⟨0, s, []⟩, [])
  else
    match usedFd s fd with
    | none => (refuse s ebadf, [])
    | some desc =>
      if desc.kind ≠ .dir then (refuse s enotdir, [])
      else
        let emit := linuxGetdentsEmit m p len.toNat desc.offset.toNat
        let first := emit [dot] true 1 ⟨0, 0, []⟩
        let second := if first.1 then emit [dot, dot] true 1 first.2 else first
        if second.1 = false then
          (⟨if second.2.written = 0 then -einval else second.2.written,
            s.setOffset fd desc second.2.index.toUInt64, []⟩, second.2.records)
        else
          let r := k64FsIterDir s.volume cwd (terminated desc.path) (fun name isDir => emit name isDir 0)
            second.2
          if r.1 = false ∧ r.2.written = 0 then (refuse s enoent, [])
          else (⟨r.2.written, s.setOffset fd desc r.2.index.toUInt64, []⟩, r.2.records)

/-- An entry with the number that "." and ".." have, and 0 for the others. -/
abbrev Listed := Visit × ℕ

def dots : List Listed := [(([dot], true), 1), (([dot, dot], true), 1)]

/-- What a directory is read as: "." and "..", and what the iteration visits. -/
def dirOrder (u : System) (cwd path : CString) : List Listed :=
  dots ++ ((visits u cwd path).2.filter fun x => x.1 != []).map fun x => (x, 0)

/-- The record of the entry with index `i`. -/
def recordAt (x : Listed) (i : ℕ) : DirRecord :=
  ⟨if x.2 = 0 then i + 1 else x.2, i + 1, recordLength x.1.1, x.1.2, x.1.1⟩

/-- The records of entries from index `i` on. -/
def recordsFrom : ℕ → List Listed → List DirRecord
  | _, [] => []
  | i, x :: xs => recordAt x i :: recordsFrom (i + 1) xs

/-- "version" and "services", or "null", "console" and "tty0". -/
def pseudoEntries (full : List UInt8) : List Visit :=
  if full = procPath then
    [([118, 101, 114, 115, 105, 111, 110], false), ([115, 101, 114, 118, 105, 99, 101, 115], false)]
  else if full = devPath then
    [([110, 117, 108, 108], false), ([99, 111, 110, 115, 111, 108, 101], false),
      ([116, 116, 121, 48], false)]
  else []

def HasEntry (u : System) (full : List UInt8) (x : Visit) : Prop :=
  if isPseudoPath full then x ∈ pseudoEntries full
  else NameOk x.1 ∧ ∃ id inode, resolved u ((terminated full).bytes ++ slash :: x.1) = some (id, inode) ∧
    x.2 = (inode.type == typeDirectory)

/-- The records are ".", ".." and each entry once. -/
def WholeDirectory (u : System) (full : List UInt8) (records : List DirRecord) : Prop :=
  ∃ entries : List Visit, (entries.map Prod.fst).Nodup ∧ (∀ x, x ∈ entries ↔ HasEntry u full x) ∧
    records = recordsFrom 0 (dots ++ entries.map fun x => (x, 0))

/-- A reader with the records that it has got so far. -/
structure Reader where
  state : State System
  got : List DirRecord

/-- A call with the memory that it meets. -/
structure Getdents where
  m : Memory
  p : UInt64
  len : UInt64

def Getdents.run (s : State System) (cwd : CString) (fd : UInt64) (c : Getdents) :
    Outcome System × List DirRecord := linuxGetdents64 c.m s cwd fd c.p c.len

def Reader.step (cwd : CString) (fd : UInt64) (r : Reader) (c : Getdents) : Reader :=
  let o := c.run r.state cwd fd
  ⟨o.1.state, r.got ++ o.2⟩

def Reader.position (r : Reader) (fd : UInt64) : ℕ :=
  ((usedFd r.state fd).map fun d => d.offset.toNat).getD 0

def totalLength (records : List DirRecord) : ℕ := (records.map DirRecord.reclen).sum

/-- What a call in a sequence has to do, for a directory that is read as `order`. -/
structure ReadsDirectory (u : System) (cwd : CString) (fd : UInt64) (full : List UInt8)
    (order : List Listed) (r : Reader) (c : Getdents) : Prop where
  whole : 0 ≤ (c.run r.state cwd fd).1.result →
    (c.run r.state cwd fd).1.result = totalLength (c.run r.state cwd fd).2 ∧
      totalLength (c.run r.state cwd fd).2 ≤ c.len.toNat
  fixed_order : (r.step cwd fd c).got <+: recordsFrom 0 order
  small : ∀ x, order[r.position fd]? = some x → c.len.toNat < recordLength x.1.1 →
    (c.run r.state cwd fd).1.result = -einval ∧ (r.step cwd fd c).position fd = r.position fd
  complete : (c.run r.state cwd fd).1.result = 0 → WholeDirectory u full (r.step cwd fd c).got

def Getdents.Mapped (c : Getdents) : Prop :=
  (c.len ≠ 0 → c.p ≠ 0) ∧
    ∀ k bytes, k + bytes.length ≤ c.len.toNat → c.m.write (c.p + k.toUInt64) bytes = true

/-- The names of a directory survive their way through the text of the listing. -/
def NamesSurvive (u : System) (full : List UInt8) : Prop :=
  isPseudoPath full = true ∨ ∀ id dir, resolved u (terminated full).bytes = some (id, dir) →
    (∀ e ∈ dirEntries u dir, (10 : UInt8) ∉ nameOf e) ∧
      ∀ e ∈ dirEntries u dir, e.type = typeDirectory → (nameOf e).length ≤ 126

/-- The buffer of a call has room for the next record, unless that is "." or ".." and the buffer is not
empty; behind the last record the names of the directory must have survived. -/
def RoomForNext (u : System) (fd : UInt64) (full : List UInt8) (order : List Listed) (r : Reader)
    (c : Getdents) : Prop :=
  match order[r.position fd]? with
  | some x => c.len.toNat < recordLength x.1.1 → r.position fd < 2 ∧ c.len ≠ 0
  | none => NamesSurvive u full

/-- A directory of the volume whose listing fits, or one of the two that are made up. -/
inductive ListedDirectory (u : System) : List UInt8 → Prop
  | pseudo {full : List UInt8} : full = procPath ∨ full = devPath → ListedDirectory u full
  | volume {full : List UInt8} {id : UInt32} {dir : Inode} : isPseudoPath full = false →
      resolved u (terminated full).bytes = some (id, dir) → dir.type = typeDirectory →
      (listingText ((dirEntries u dir).map visit)).length ≤ 4095 → ListedDirectory u full

section Loops

variable {α σ : Type}

def stepUntil (f : α → σ → Bool × σ) : List α → σ → Bool × σ
  | [], s => (true, s)
  | x :: xs, s => if (f x s).1 then stepUntil f xs (f x s).2 else f x s

theorem stepUntil_append (f : α → σ → Bool × σ) (xs ys : List α) (s : σ) :
    stepUntil f (xs ++ ys) s =
      if (stepUntil f xs s).1 then stepUntil f ys (stepUntil f xs s).2 else stepUntil f xs s := by
  induction xs generalizing s with
  | nil => rfl
  | cons x xs ih =>
    simp only [List.cons_append, stepUntil]
    split
    · exact ih _
    · rfl

theorem stepUntil_filter {f : α → σ → Bool × σ} {keep : α → Bool}
    (h : ∀ x s, keep x = false → f x s = (true, s)) (xs : List α) (s : σ) :
    stepUntil f (xs.filter keep) s = stepUntil f xs s := by
  induction xs generalizing s with
  | nil => rfl
  | cons x xs ih =>
    cases hx : keep x with
    | true =>
      rw [List.filter_cons_of_pos hx, stepUntil, stepUntil]
      split
      · exact ih _
      · rfl
    | false =>
      rw [List.filter_cons_of_neg (by rw [hx]; exact Bool.noConfusion), stepUntil, h x s hx, ih]
      rfl

theorem stepUntil_map {β : Type} (f : β → σ → Bool × σ) (g : α → β) (xs : List α) (s : σ) :
    stepUntil f (xs.map g) s = stepUntil (fun x => f (g x)) xs s := by
  induction xs generalizing s with
  | nil => rfl
  | cons x xs ih =>
    simp only [List.map_cons, stepUntil]
    split
    · exact ih _
    · rfl

theorem record_appends (n : ℕ) (text : List UInt8) (calls : List Visit) :
    iterLines record n text calls = calls ++ iterLines record n text [] := by
  induction n generalizing text calls with
  | zero => exact (List.append_nil calls).symm
  | succ n ih =>
    unfold iterLines
    split
    · exact (List.append_nil calls).symm
    · simp only
      split
      · exact ih _ _
      next name isDir _ =>
        simp only [record, if_true]
        rw [ih, ih _ ([] ++ _), List.nil_append, List.append_assoc]

theorem iterLines_visits (fn : List UInt8 → Bool → σ → Bool × σ) (n : ℕ) (text : List UInt8) (s : σ) :
    iterLines fn n text s =
      (stepUntil (fun x : Visit => fn x.1 x.2) (iterLines record n text []) s).2 := by
  induction n generalizing text s with
  | zero => rfl
  | succ n ih =>
    unfold iterLines
    split
    · rfl
    · simp only
      split
      · exact ih _ _
      next name isDir _ =>
        simp only [record, if_true, List.nil_append]
        rw [record_appends, List.singleton_append, stepUntil]
        simp only
        split
        · exact ih _ _
        · rfl

theorem iterDir_visits (u : System) (cwd path : CString) (fn : List UInt8 → Bool → σ → Bool × σ)
    (s : σ) : k64FsIterDir u cwd path fn s =
      ((visits u cwd path).1, (stepUntil (fun x : Visit => fn x.1 x.2) (visits u cwd path).2 s).2) := by
  unfold visits k64FsIterDir
  cases k64FsLs u cwd path 4096 with
  | none => rfl
  | some listing => exact congrArg _ (iterLines_visits fn _ _ _)

end Loops

/-- The records that fit, from the entry with index `i` on and behind `written` bytes. -/
def fill (len : ℕ) : ℕ → ℕ → List Listed → List DirRecord
  | _, _, [] => []
  | written, i, x :: xs =>
    if written + recordLength x.1.1 > len then []
    else recordAt x i :: fill len (written + recordLength x.1.1) (i + 1) xs

theorem recordLength_ge (name : List UInt8) : 20 + name.length ≤ recordLength name := by
  rw [recordLength]
  omega

theorem totalLength_cons (r : DirRecord) (rs : List DirRecord) :
    totalLength (r :: rs) = r.reclen + totalLength rs := List.sum_cons

theorem fill_prefix (len : ℕ) (xs : List Listed) : ∀ written i,
    fill len written i xs = (recordsFrom i xs).take (fill len written i xs).length := by
  induction xs with
  | nil => exact fun _ _ => rfl
  | cons x xs ih =>
    intro written i
    unfold fill
    split
    · rfl
    · rw [List.length_cons, recordsFrom, List.take_succ_cons, ← ih]

theorem fill_fits (len : ℕ) (xs : List Listed) : ∀ written i, written ≤ len →
    written + totalLength (fill len written i xs) ≤ len := by
  induction xs with
  | nil => exact fun written _ h => h
  | cons x xs ih =>
    intro written i h
    unfold fill
    split
    · exact h
    next hfit =>
      have hrest := ih (written + recordLength x.1.1) (i + 1) (by omega)
      have hreclen : (recordAt x i).reclen = recordLength x.1.1 := rfl
      rw [totalLength_cons, hreclen]
      omega

theorem fill_length_le (len : ℕ) (xs : List Listed) : ∀ written i,
    (fill len written i xs).length ≤ xs.length := by
  induction xs with
  | nil => exact fun _ _ => Nat.le_refl 0
  | cons x xs ih =>
    intro written i
    unfold fill
    split
    · exact Nat.zero_le _
    · exact Nat.succ_le_succ (ih _ _)

theorem total_zero (len written i : ℕ) (xs : List Listed) :
    totalLength (fill len written i xs) = 0 ↔ fill len written i xs = [] := by
  constructor
  · intro h
    cases xs with
    | nil => rfl
    | cons x xs =>
      unfold fill at h ⊢
      split
      · rfl
      next hfit =>
        rw [if_neg hfit, totalLength_cons] at h
        have hpos := recordLength_ge x.1.1
        have hreclen : (recordAt x i).reclen = recordLength x.1.1 := rfl
        omega
  · intro h
    rw [h]
    rfl

theorem fill_append {len : ℕ} (xs ys : List Listed) : ∀ written i,
    ((fill len written i xs).length < xs.length ∧
      fill len written i (xs ++ ys) = fill len written i xs) ∨
    ((fill len written i xs).length = xs.length ∧
      xs.length ≤ (fill len written i (xs ++ ys)).length) := by
  induction xs with
  | nil => exact fun _ _ => .inr ⟨rfl, Nat.zero_le _⟩
  | cons x xs ih =>
    intro written i
    rw [List.cons_append]
    unfold fill
    split
    · exact .inl ⟨Nat.succ_pos _, rfl⟩
    · rcases ih (written + recordLength x.1.1) (i + 1) with ⟨hlt, heq⟩ | ⟨heq, hle⟩
      · exact .inl ⟨Nat.succ_lt_succ hlt, by rw [heq]⟩
      · exact .inr ⟨by rw [List.length_cons, List.length_cons, heq], Nat.succ_le_succ hle⟩

variable (xs : List Listed)

theorem recordsFrom_length : ∀ i, (recordsFrom i xs).length = xs.length := by
  induction xs with
  | nil => exact fun _ => rfl
  | cons x xs ih => exact fun i => congrArg Nat.succ (ih (i + 1))

theorem recordsFrom_drop (n : ℕ) : ∀ (i : ℕ) (xs : List Listed),
    (recordsFrom i xs).drop n = recordsFrom (i + n) (xs.drop n) := by
  induction n with
  | zero => exact fun _ _ => rfl
  | succ n ih =>
    intro i xs
    cases xs with
    | nil => rfl
    | cons x xs =>
      rw [recordsFrom, List.drop_succ_cons, List.drop_succ_cons, ih, Nat.add_right_comm, Nat.add_assoc]

variable {m p len skip}

def BufferMapped (m : Memory) (p : UInt64) (len : ℕ) : Prop :=
  ∀ k bytes, k + bytes.length ≤ len → m.write (p + k.toUInt64) bytes = true

theorem writeRecord_mapped (h : BufferMapped m p len) {written : ℕ} {r : DirRecord}
    (hname : 20 + r.name.length ≤ r.reclen) (hfit : written + r.reclen ≤ len) :
    writeRecord m (p + written.toUInt64) r = true := by
  have hat : ∀ k bytes, k + bytes.length ≤ r.reclen →
      m.write (p + written.toUInt64 + k.toUInt64) bytes = true := by
    intro k bytes hk
    have hsum : written.toUInt64 + k.toUInt64 = (written + k).toUInt64 := (UInt64.ofNat_add ..).symm
    rw [UInt64.add_assoc, hsum]
    exact h _ _ (by omega)
  have hfixed : r.fixedBytes.length = 19 := by
    simp only [DirRecord.fixedBytes, List.length_append, length_leBytes, List.length_singleton]
  simp only [writeRecord, Bool.and_eq_true, List.all_eq_true, List.mem_range]
  refine ⟨⟨⟨?_, hat _ _ (by omega)⟩, hat _ _ (by simp only [List.length_singleton]; omega)⟩,
    fun i hi => hat _ _ (by simp only [List.length_singleton]; omega)⟩
  have hfirst := hat 0 r.fixedBytes (by omega)
  have hzero : p + written.toUInt64 + (0 : ℕ).toUInt64 = p + written.toUInt64 := UInt64.add_zero _
  rwa [hzero] at hfirst

def emitListed (m : Memory) (p : UInt64) (len skip : ℕ) (x : Listed) (ctx : GetdentsCtx) :
    Bool × GetdentsCtx := linuxGetdentsEmit m p len skip x.1.1 x.1.2 x.2 ctx

theorem emit_skips (hnames : ∀ x ∈ xs, x.1.1 ≠ []) : ∀ i, i + xs.length ≤ skip →
    stepUntil (emitListed m p len skip) xs ⟨i, 0, []⟩ = (true, ⟨i + xs.length, 0, []⟩) := by
  induction xs with
  | nil => exact fun _ _ => rfl
  | cons x xs ih =>
    intro i hi
    rw [List.length_cons] at hi ⊢
    have hstep : emitListed m p len skip x ⟨i, 0, []⟩ = (true, ⟨i + 1, 0, []⟩) := by
      rw [emitListed, linuxGetdentsEmit, if_neg (hnames x List.mem_cons_self), if_pos]
      exact Nat.lt_of_lt_of_le (Nat.lt_add_of_pos_right (Nat.succ_pos _)) hi
    rw [stepUntil, hstep, if_pos rfl, ih (fun y hy => hnames y (List.mem_cons_of_mem x hy)) _ (by omega),
      Nat.add_right_comm, Nat.add_assoc]

theorem emit_fills (hm : BufferMapped m p len) (xs : List Listed) (hnames : ∀ x ∈ xs, x.1.1 ≠ []) :
    ∀ i written rs, skip ≤ i → written ≤ len →
      stepUntil (emitListed m p len skip) xs ⟨i, written, rs⟩ =
        (decide ((fill len written i xs).length = xs.length),
          ⟨i + (fill len written i xs).length, written + totalLength (fill len written i xs),
            rs ++ fill len written i xs⟩) := by
  induction xs with
  | nil =>
    intro i written rs _ _
    rw [fill, List.append_nil]
    rfl
  | cons x xs ih =>
    intro i written rs hi hw
    have hname := hnames x List.mem_cons_self
    have hrec : (⟨if x.2 = 0 then i + 1 else x.2, i + 1, recordLength x.1.1, x.1.2, x.1.1⟩ : DirRecord) =
        recordAt x i := rfl
    unfold fill
    by_cases hfit : written + recordLength x.1.1 > len
    · have hstep : emitListed m p len skip x ⟨i, written, rs⟩ = (false, ⟨i, written, rs⟩) := by
        rw [emitListed, linuxGetdentsEmit, if_neg hname, if_neg (Nat.not_lt.mpr hi)]
        exact if_pos hfit
      rw [stepUntil, hstep, if_neg Bool.noConfusion, if_pos hfit, List.append_nil]
      rfl
    · have hwrite : writeRecord m (p + written.toUInt64) (recordAt x i) = true :=
        writeRecord_mapped hm (recordLength_ge _) (Nat.not_lt.mp hfit)
      have hstep : emitListed m p len skip x ⟨i, written, rs⟩ =
          (true, ⟨i + 1, written + recordLength x.1.1, rs ++ [recordAt x i]⟩) := by
        rw [emitListed, linuxGetdentsEmit, if_neg hname, if_neg (Nat.not_lt.mpr hi)]
        simp only [hrec]
        exact (if_neg hfit).trans (if_pos hwrite)
      rw [stepUntil, hstep, if_pos rfl, if_neg hfit,
        ih (fun y hy => hnames y (List.mem_cons_of_mem x hy)) _ _ _ (by omega) (by omega)]
      have hreclen : (recordAt x i).reclen = recordLength x.1.1 := rfl
      simp only [List.length_cons, Nat.add_right_cancel_iff, totalLength_cons, hreclen,
        List.append_assoc, List.singleton_append, Nat.add_assoc, Nat.add_comm 1]

theorem order_names (u : System) (cwd path : CString) : ∀ x ∈ dirOrder u cwd path, x.1.1 ≠ [] := by
  intro x hx
  rcases List.mem_append.mp hx with hx | hx
  · simp only [dots, List.mem_cons, List.not_mem_nil, or_false] at hx
    rcases hx with rfl | rfl <;> exact List.cons_ne_nil _ _
  · obtain ⟨y, hy, rfl⟩ := List.mem_map.mp hx
    simpa using (List.mem_filter.mp hy).2

theorem emit_order {u : System} {cwd path : CString} (hm : BufferMapped m p len)
    (hskip : skip ≤ (dirOrder u cwd path).length) :
    (stepUntil (emitListed m p len skip) (dirOrder u cwd path) ⟨0, 0, []⟩).2 =
      let fits := fill len 0 skip ((dirOrder u cwd path).drop skip)
      ⟨skip + fits.length, totalLength fits, fits⟩ := by
  have hnames := order_names u cwd path
  have hlength : ((dirOrder u cwd path).take skip).length = skip := List.length_take_of_le hskip
  conv_lhs => rw [← List.take_append_drop skip (dirOrder u cwd path)]
  rw [stepUntil_append, emit_skips _ (fun x hx => hnames x (List.mem_of_mem_take hx)) 0
    (by omega), if_pos rfl, hlength, Nat.zero_add, emit_fills hm _
    (fun x hx => hnames x (List.mem_of_mem_drop hx)) skip 0 [] (Nat.le_refl _) (Nat.zero_le _)]
  simp only [Nat.zero_add, List.nil_append]

theorem dots_passed (u : System) (cwd path : CString) (skip : ℕ) (hm : BufferMapped m p len) :
    (stepUntil (emitListed m p len skip) dots ⟨0, 0, []⟩).1 =
      decide (2 ≤ skip + (fill len 0 skip ((dirOrder u cwd path).drop skip)).length) := by
  have hnames : ∀ x ∈ dots, x.1.1 ≠ [] := fun x hx =>
    order_names u cwd path x (List.mem_append_left _ hx)
  by_cases htwo : 2 ≤ skip
  · rw [emit_skips dots hnames 0 htwo, decide_eq_true (by omega)]
  · have hle : skip ≤ dots.length := Nat.le_of_not_le htwo
    have htake : (dots.take skip).length = skip := List.length_take_of_le hle
    have hdrop : (dots.drop skip).length = 2 - skip := List.length_drop
    have hparts : stepUntil (emitListed m p len skip) dots ⟨0, 0, []⟩ =
        stepUntil (emitListed m p len skip) (dots.drop skip) ⟨skip, 0, []⟩ := by
      conv_lhs => rw [← List.take_append_drop skip dots]
      rw [stepUntil_append, emit_skips _ (fun x hx => hnames x (List.mem_of_mem_take hx)) 0
        (by omega), if_pos rfl, htake, Nat.zero_add]
    rw [hparts, emit_fills hm _ (fun x hx => hnames x (List.mem_of_mem_drop hx)) skip 0 []
      (Nat.le_refl _) (Nat.zero_le _), dirOrder, List.drop_append_of_le_length hle]
    rcases fill_append (dots.drop skip) _ 0 skip with ⟨hlt, heq⟩ | ⟨heq, hle'⟩
    · rw [heq, decide_eq_false (by omega), decide_eq_false (by omega)]
    · rw [decide_eq_true heq, decide_eq_true]
      refine Nat.le_trans ?_ (Nat.add_le_add_left hle' skip)
      omega

theorem first_two (f : Listed → GetdentsCtx → Bool × GetdentsCtx) (s : GetdentsCtx) :
    (if (f dots[0] s).1 then f dots[1] (f dots[0] s).2 else f dots[0] s) = stepUntil f dots s := by
  unfold dots
  simp only [stepUntil, List.getElem_cons_zero, List.getElem_cons_succ]
  split
  · split
    next h => exact Prod.ext h rfl
    · rfl
  · rfl

theorem getdents_spec {s : State System} {cwd : CString} {fd p len : UInt64} {desc : Fd}
    (hp : p ≠ 0) (hlen : len ≠ 0) (hd : usedFd s fd = some desc) (hk : desc.kind = .dir)
    (hm : BufferMapped m p len.toNat)
    (hlisted : (visits s.volume cwd (terminated desc.path)).1 = true)
    (hat : desc.offset.toNat ≤ (dirOrder s.volume cwd (terminated desc.path)).length) :
    linuxGetdents64 m s cwd fd p len =
      let n := desc.offset.toNat
      let fits := fill len.toNat 0 n ((dirOrder s.volume cwd (terminated desc.path)).drop n)
      (⟨if fits = [] ∧ n < 2 then -einval else totalLength fits,
        s.setOffset fd desc (n + fits.length).toUInt64, []⟩, fits) := by
  have hpassed := dots_passed s.volume cwd (terminated desc.path) desc.offset.toNat hm
  have horder := emit_order hm hat
  have htotal := total_zero len.toNat 0 desc.offset.toNat
    ((dirOrder s.volume cwd (terminated desc.path)).drop desc.offset.toNat)
  simp only at horder ⊢
  have hfilter : (stepUntil (emitListed m p len.toNat desc.offset.toNat)
      (dirOrder s.volume cwd (terminated desc.path)) ⟨0, 0, []⟩) =
      if (stepUntil (emitListed m p len.toNat desc.offset.toNat) dots ⟨0, 0, []⟩).1 then
        stepUntil (fun x : Visit => linuxGetdentsEmit m p len.toNat desc.offset.toNat x.1 x.2 0)
          (visits s.volume cwd (terminated desc.path)).2
          (stepUntil (emitListed m p len.toNat desc.offset.toNat) dots ⟨0, 0, []⟩).2
      else stepUntil (emitListed m p len.toNat desc.offset.toNat) dots ⟨0, 0, []⟩ := by
    rw [dirOrder, stepUntil_append, stepUntil_map]
    refine if_congr Iff.rfl (stepUntil_filter (fun x s hx => ?_) _ _) rfl
    have hempty : x.1 = [] := by simpa using hx
    exact if_pos hempty
  generalize fill len.toNat 0 desc.offset.toNat
    ((dirOrder s.volume cwd (terminated desc.path)).drop desc.offset.toNat) = fits
    at hpassed horder htotal ⊢
  have hrun : linuxGetdents64 m s cwd fd p len =
      let second := stepUntil (emitListed m p len.toNat desc.offset.toNat) dots ⟨0, 0, []⟩
      if second.1 = false then
        (⟨if second.2.written = 0 then -einval else second.2.written,
          s.setOffset fd desc second.2.index.toUInt64, []⟩, second.2.records)
      else
        let r := k64FsIterDir s.volume cwd (terminated desc.path)
          (fun name isDir => linuxGetdentsEmit m p len.toNat desc.offset.toNat name isDir 0) second.2
        if r.1 = false ∧ r.2.written = 0 then (refuse s enoent, [])
        else (⟨r.2.written, s.setOffset fd desc r.2.index.toUInt64, []⟩, r.2.records) := by
    rw [← first_two]
    unfold linuxGetdents64
    rw [if_neg (fun h => hp h.1), if_neg hlen, hd]
    simp only
    rw [if_neg (by rw [hk]; exact not_not.mpr rfl)]
    rfl
  rw [hrun]
  simp only [iterDir_visits]
  by_cases htwo : 2 ≤ desc.offset.toNat + fits.length
  · rw [decide_eq_true htwo] at hpassed
    rw [hfilter, hpassed, if_pos rfl] at horder
    have hnot : ¬ (fits = [] ∧ desc.offset.toNat < 2) := by
      rintro ⟨rfl, hlt⟩
      exact absurd htwo (Nat.not_le.mpr hlt)
    rw [hpassed, if_neg Bool.noConfusion, horder, hlisted, if_neg fun h => Bool.noConfusion h.1,
      if_neg hnot]
  · rw [decide_eq_false htwo] at hpassed
    rw [hfilter, hpassed, if_neg Bool.noConfusion] at horder
    have hsame : totalLength fits = 0 ↔ fits = [] ∧ desc.offset.toNat < 2 :=
      htotal.trans ⟨fun h => ⟨h, by rw [h] at htwo; exact Nat.not_le.mp htwo⟩, And.left⟩
    rw [hpassed, if_pos rfl, horder]
    simp only [hsame]

theorem recordsFrom_names : ∀ i,
    (recordsFrom i xs).map (fun r => (r.name, r.isDir)) = xs.map Prod.fst := by
  induction xs with
  | nil => exact fun _ => rfl
  | cons x xs ih => exact fun i => congrArg (x.1 :: ·) (ih (i + 1))

def namedVisits (u : System) (cwd path : CString) : List Visit :=
  (visits u cwd path).2.filter fun x => x.1 != []

theorem whole_iff {u : System} {cwd path : CString} {full : List UInt8} :
    WholeDirectory u full (recordsFrom 0 (dirOrder u cwd path)) ↔
      ((namedVisits u cwd path).map Prod.fst).Nodup ∧
        ∀ x, x ∈ namedVisits u cwd path ↔ HasEntry u full x := by
  constructor
  · rintro ⟨entries, honce, hexact, hrecords⟩
    have hnames := congrArg (List.map fun r : DirRecord => (r.name, r.isDir)) hrecords
    rw [recordsFrom_names, recordsFrom_names, dirOrder, List.map_append, List.map_append,
      List.append_cancel_left_eq, List.map_map, List.map_map] at hnames
    have hsame : namedVisits u cwd path = entries := by
      have hid : (Prod.fst ∘ fun x : Visit => (x, 0)) = id := rfl
      rwa [hid, List.map_id, List.map_id] at hnames
    rw [hsame]
    exact ⟨honce, hexact⟩
  · rintro ⟨honce, hexact⟩
    exact ⟨namedVisits u cwd path, honce, hexact, rfl⟩

theorem orCurrent {cwd path : CString} {full : List UInt8}
    (hfull : fsNormalize cwd.bytes path.bytes 256 = some full) :
    fsNormalize cwd.bytes (if path.bytes = [] then [dot] else path.bytes) 256 = some full := by
  by_cases hnil : path.bytes = []
  · rw [if_pos hnil, ← hfull, hnil]
    rfl
  · rw [if_neg hnil, hfull]

theorem visits_pseudo {u : System} {cwd path : CString} {full : List UInt8}
    (hfull : fsNormalize cwd.bytes path.bytes 256 = some full)
    (h : full = procPath ∨ full = devPath) : visits u cwd path = (true, pseudoEntries full) := by
  have hpseudo : isPseudoPath full = true := by rcases h with rfl | rfl <;> decide
  have hls : k64FsLs u cwd path 4096 = (fsPseudoLs full 4096).map fun out =>
      if (terminated out).bytes = [] then FsPaths.fsCopy 4096 [dot, 10] else (terminated out).bytes := by
    rw [k64FsLs, orCurrent hfull, Option.bind_some, hpseudo, if_pos rfl]
  rw [visits, k64FsIterDir, hls]
  rcases h with rfl | rfl <;> decide +kernel

theorem visits_bounded {total : ℕ} {u : System} {V : Volume} (h : Steady total u V) {cwd path : CString}
    {full : List UInt8} {id : UInt32} {dir : Inode}
    (hfull : fsNormalize cwd.bytes path.bytes 256 = some full) (hreal : isPseudoPath full = false)
    (hres : resolved u (terminated full).bytes = some (id, dir)) (ht : dir.type = typeDirectory) :
    (visits u cwd path).1 = true ∧ (visits u cwd path).2.length ≤ 4095 ∧
      ∀ x ∈ (visits u cwd path).2, (10 : UInt8) ∉ x.1 ∧ (x.2 = true → x.1.length ≤ 126) := by
  rw [visits_listing h hfull hreal hres ht]
  have hresolve := hres
  rw [(steady_answers h (resolved_mounted h hres)).resolved] at hresolve
  obtain ⟨hu, rfl, -, -⟩ := resolve_used h.consistent (terminated full).noNul hresolve
  have hcut := listing_cut h hu ht
  obtain ⟨more, hmore, hlen, hgood⟩ := iterLines_within
    (listing u (V.content.inode id.toNat)).length _ [] hcut.ended
  rw [List.nil_append] at hmore
  rw [hmore]
  have hcount : more.length ≤ _ := length_le_listing more
  have hfits := hcut.fits
  exact ⟨rfl, hcount.trans (hlen.trans hfits), hgood⟩

section Fresh

variable {label : CString} {s t u : System} {calls : List (PublicCall × Bool)}
  (hfresh : FreshMount label s t) (hf : ∀ i, s.machine.dev.faults i = false)
  (hsmall : xfsFsBlocks (System.geometry s) ≤ 32768)
  (hrun : Run (System.geometry s) t calls u) (hok : ∀ c ∈ calls, c.2 = true)
  {cwd path : CString} {full : List UInt8}
  (hfull : fsNormalize cwd.bytes path.bytes 256 = some full) (hdir : ListedDirectory u full)
include hfresh hf hsmall hrun hok hfull hdir

theorem listed_visits : (visits u cwd path).1 = true ∧ (dirOrder u cwd path).length ≤ 4097 := by
  have hbound : (visits u cwd path).1 = true ∧ (visits u cwd path).2.length ≤ 4095 := by
    cases hdir with
    | pseudo h =>
      rw [visits_pseudo hfull h]
      rcases h with rfl | rfl <;> decide
    | volume hreal hres ht _ =>
      obtain ⟨V, hV⟩ := fresh_run_steady hfresh hf hsmall hrun hok
      have hvisits := visits_bounded hV hfull hreal hres ht
      exact ⟨hvisits.1, hvisits.2.1⟩
  refine ⟨hbound.1, ?_⟩
  have hdots : dots.length = 2 := rfl
  have hfilter := List.length_filter_le (fun x : Visit => x.1 != []) (visits u cwd path).2
  rw [dirOrder, List.length_append, List.length_map, hdots]
  omega

theorem whole_survives :
    WholeDirectory u full (recordsFrom 0 (dirOrder u cwd path)) ↔ NamesSurvive u full := by
  rw [whole_iff]
  cases hdir with
  | pseudo h =>
    have hpseudo : isPseudoPath full = true := by rcases h with rfl | rfl <;> decide
    have hnamed : namedVisits u cwd path = pseudoEntries full := by
      rw [namedVisits, visits_pseudo hfull h]
      rcases h with rfl | rfl <;> decide
    rw [hnamed]
    refine iff_of_true ⟨by rcases h with rfl | rfl <;> decide, fun x => ?_⟩ (.inl hpseudo)
    rw [HasEntry, if_pos hpseudo]
  | @volume id dir hreal hres ht hfits =>
    obtain ⟨V, hV⟩ := fresh_run_steady hfresh hf hsmall hrun hok
    have hentry : ∀ x, HasEntry u full x ↔ NameOk x.1 ∧ ∃ id inode,
        resolved u ((terminated full).bytes ++ slash :: x.1) = some (id, inode) ∧
          x.2 = (inode.type == typeDirectory) := by
      intro x
      rw [HasEntry, hreal, if_neg Bool.noConfusion]
    obtain ⟨-, -, hgood⟩ := visits_bounded hV hfull hreal hres ht
    constructor
    · rintro ⟨-, hexact⟩
      refine .inr fun id' dir' hres' => ?_
      cases hres.symm.trans hres'
      have hin : ∀ e ∈ dirEntries u dir, visit e ∈ (visits u cwd path).2 := by
        intro e he
        have hm := resolved_mounted hV hres
        have hresolve := hres
        rw [(steady_answers hV hm).resolved] at hresolve
        obtain ⟨hu, hinode, -, -⟩ := resolve_used hV.consistent (terminated full).noNul hresolve
        have hmem : visit e ∈ (entriesFrom V.content dir 0 (sizeBlocks dir.size)).map visit := by
          rw [hinode] at he ⊢
          rw [steady_dirEntries hV hu] at he
          exact List.mem_map_of_mem he
        have hhas := (hentry (visit e)).mpr ((mem_listed hV hm (terminated full).noNul hres ht).mp hmem)
        exact (List.mem_filter.mp ((hexact (visit e)).mpr hhas)).1
      exact ⟨fun e he => (hgood _ (hin e he)).1, fun e he hd => (hgood _ (hin e he)).2 (beq_iff_eq.mpr hd)⟩
    · intro hnames
      have hlistable : Listable u dir := by
        rcases hnames with hpseudo | hnames
        · rw [hreal] at hpseudo
          cases hpseudo
        · exact ⟨(hnames id dir hres).1, (hnames id dir hres).2, hfits⟩
      have hv := (visits_entries_iff hfresh hf hsmall hrun hok cwd path full hfull hreal id dir hres
        ht).mpr hlistable
      have hall : namedVisits u cwd path = (visits u cwd path).2 := by
        refine List.filter_eq_self.mpr fun x hx => ?_
        have hname := ((hv.exact x.1 x.2).mp hx).1
        have hpos := hname.length_pos
        have hne : x.1 ≠ [] := List.length_pos_iff.mp hpos
        simpa using hne
      rw [hall]
      exact ⟨hv.once, fun x => (hv.exact x.1 x.2).trans (hentry x).symm⟩

end Fresh

structure ReaderAt (u : System) (fd : UInt64) (path : List UInt8) (order : List Listed) (r : Reader) :
    Prop where
  volume : r.state.volume = u
  open_dir : ∃ desc, usedFd r.state fd = some desc ∧ desc.kind = .dir ∧ desc.path = path ∧
    r.position fd = desc.offset.toNat
  inside : r.position fd ≤ order.length
  got : r.got = (recordsFrom 0 order).take (r.position fd)

def Getdents.fits (c : Getdents) (order : List Listed) (n : ℕ) : List DirRecord :=
  fill c.len.toNat 0 n (order.drop n)

theorem fits_empty_buffer {c : Getdents} (h : c.len = 0) (order : List Listed) (n : ℕ) :
    c.fits order n = [] := by
  have hfit := fill_fits c.len.toNat (order.drop n) 0 n (Nat.zero_le _)
  rw [h] at hfit
  rw [Getdents.fits, ← total_zero, h]
  exact Nat.le_zero.mp (by simpa using hfit)

variable {u : System} {cwd : CString} {fd : UInt64} {path full : List UInt8} {r : Reader} {c : Getdents}

theorem reader_run (h : ReaderAt u fd path (dirOrder u cwd (terminated path)) r)
    (hvisits : (visits u cwd (terminated path)).1 = true)
    (hlength : (dirOrder u cwd (terminated path)).length ≤ 4097) (hm : c.Mapped) :
    let fits := c.fits (dirOrder u cwd (terminated path)) (r.position fd)
    (c.run r.state cwd fd).1.result =
        (if c.len = 0 then 0 else if fits = [] ∧ r.position fd < 2 then -einval else totalLength fits) ∧
      (c.run r.state cwd fd).2 = fits ∧ (r.step cwd fd c).position fd = r.position fd + fits.length ∧
      ReaderAt u fd path (dirOrder u cwd (terminated path)) (r.step cwd fd c) := by
  obtain ⟨desc, hd, hk, hpath, hat⟩ := h.open_dir
  intro fits
  by_cases hlen : c.len = 0
  · have hnone : fits = [] := fits_empty_buffer hlen _ _
    have hrun : c.run r.state cwd fd = (⟨0, r.state, []⟩, []) := by
      rw [Getdents.run, linuxGetdents64, if_neg fun hp => hp.2 hlen, if_pos hlen]
    have hstep : r.step cwd fd c = r := by
      rw [Reader.step, hrun, List.append_nil]
    rw [hstep, hrun, hnone, if_pos hlen]
    exact ⟨rfl, rfl, rfl, h⟩
  · have hinside := h.inside
    have hrun : c.run r.state cwd fd = _ := getdents_spec (hm.1 hlen) hlen hd hk hm.2
      (by rw [h.volume, hpath]; exact hvisits) (by rw [h.volume, hpath, ← hat]; exact hinside)
    rw [h.volume, hpath, ← hat] at hrun
    change c.run r.state cwd fd = (⟨if fits = [] ∧ r.position fd < 2 then -einval else totalLength fits,
      r.state.setOffset fd desc (r.position fd + fits.length).toUInt64, []⟩, fits) at hrun
    have hcount : r.position fd + fits.length ≤ (dirOrder u cwd (terminated path)).length := by
      have hle := fill_length_le c.len.toNat
        ((dirOrder u cwd (terminated path)).drop (r.position fd)) 0 (r.position fd)
      rw [List.length_drop] at hle
      change fits.length ≤ _ at hle
      omega
    have hnat : (r.position fd + fits.length).toUInt64.toNat = r.position fd + fits.length :=
      UInt64.toNat_ofNat_of_lt' (show _ < 2 ^ 64 by omega)
    have hused : usedFd (r.step cwd fd c).state fd =
        some { desc with offset := (r.position fd + fits.length).toUInt64 } := by
      rw [Reader.step, hrun]
      exact setOffset_used hd _ r.state.volume
    have hposition : (r.step cwd fd c).position fd = r.position fd + fits.length := by
      rw [Reader.position, hused]
      exact hnat
    have hgot : (r.step cwd fd c).got =
        (recordsFrom 0 (dirOrder u cwd (terminated path))).take (r.position fd + fits.length) := by
      have hdrop := recordsFrom_drop (r.position fd) 0 (dirOrder u cwd (terminated path))
      have hprefix : fits = _ := fill_prefix c.len.toNat
        ((dirOrder u cwd (terminated path)).drop (r.position fd)) 0 (r.position fd)
      rw [Nat.zero_add] at hdrop
      rw [← hdrop] at hprefix
      change r.got ++ (c.run r.state cwd fd).2 = _
      rw [hrun, h.got, List.take_add]
      exact congrArg _ hprefix
    refine ⟨?_, by rw [hrun], hposition, ?_, ⟨_, hused, hk, hpath, ?_⟩, ?_, ?_⟩
    · rw [hrun, if_neg hlen]
    · rw [Reader.step, hrun]
      exact h.volume
    · rw [hposition]
      exact hnat.symm
    · rw [hposition]
      exact hcount
    · rw [hposition]
      exact hgot

/-- The law of a call, in terms of the room in its buffer. -/
theorem reads_iff_room (h : ReaderAt u fd path (dirOrder u cwd (terminated path)) r)
    (hvisits : (visits u cwd (terminated path)).1 = true)
    (hlength : (dirOrder u cwd (terminated path)).length ≤ 4097) (hm : c.Mapped)
    (hwhole : WholeDirectory u full (recordsFrom 0 (dirOrder u cwd (terminated path))) ↔
      NamesSurvive u full) :
    ReadsDirectory u cwd fd full (dirOrder u cwd (terminated path)) r c ↔
      RoomForNext u fd full (dirOrder u cwd (terminated path)) r c := by
  obtain ⟨hresult, hrecords, hposition, hafter⟩ := reader_run h hvisits hlength hm
  have htwo : 2 ≤ (dirOrder u cwd (terminated path)).length := by
    rw [dirOrder, List.length_append]
    exact Nat.le_add_right ..
  have hfit := fill_fits c.len.toNat
    ((dirOrder u cwd (terminated path)).drop (r.position fd)) 0 (r.position fd) (Nat.zero_le _)
  have hzero := total_zero c.len.toNat 0 (r.position fd)
    ((dirOrder u cwd (terminated path)).drop (r.position fd))
  have hgot := hafter.got
  rw [hposition] at hgot
  change 0 + totalLength (c.fits _ (r.position fd)) ≤ _ at hfit
  change totalLength (c.fits _ (r.position fd)) = 0 ↔ c.fits _ (r.position fd) = [] at hzero
  have hfixed : (r.step cwd fd c).got <+: recordsFrom 0 (dirOrder u cwd (terminated path)) := by
    rw [hgot]
    exact List.take_prefix ..
  have hfits : c.fits (dirOrder u cwd (terminated path)) (r.position fd) =
      fill c.len.toNat 0 (r.position fd) ((dirOrder u cwd (terminated path)).drop (r.position fd)) := rfl
  have hlen0 : c.len = 0 → c.fits (dirOrder u cwd (terminated path)) (r.position fd) = [] :=
    fun hlen => fits_empty_buffer hlen _ _
  have hwholeCall : 0 ≤ (c.run r.state cwd fd).1.result →
      (c.run r.state cwd fd).1.result = totalLength (c.run r.state cwd fd).2 ∧
        totalLength (c.run r.state cwd fd).2 ≤ c.len.toNat := by
    intro hpos
    rw [hrecords]
    refine ⟨?_, by omega⟩
    rw [hresult] at hpos ⊢
    split
    next hlen => rw [hlen0 hlen]; rfl
    next hlen =>
      rw [if_neg hlen] at hpos
      split at hpos
      · exact absurd hpos (by decide)
      next hnot => rw [if_neg hnot]
  rw [RoomForNext]
  cases hx : (dirOrder u cwd (terminated path))[r.position fd]? with
  | none =>
    have hend : r.position fd = (dirOrder u cwd (terminated path)).length :=
      Nat.le_antisymm h.inside (List.getElem?_eq_none_iff.mp hx)
    have hnone : c.fits (dirOrder u cwd (terminated path)) (r.position fd) = [] := by
      rw [hfits, hend, List.drop_length]
      rfl
    have hanswer : (c.run r.state cwd fd).1.result = 0 := by
      have hbehind : ¬ (([] : List DirRecord) = [] ∧ r.position fd < 2) := fun hlt => by omega
      rw [hresult, hnone, if_neg hbehind]
      exact ite_self _
    have hall : (r.step cwd fd c).got = recordsFrom 0 (dirOrder u cwd (terminated path)) := by
      rw [hgot, hnone, List.length_nil, Nat.add_zero, hend,
        ← recordsFrom_length (dirOrder u cwd (terminated path)) 0, List.take_length]
    simp only
    rw [← hwhole, ← hall]
    constructor
    · exact fun hlaw => hlaw.complete hanswer
    · refine fun hnames => ⟨hwholeCall, hfixed, fun x hsome => ?_, fun _ => hnames⟩
      rw [hx] at hsome
      cases hsome
  | some x =>
    obtain ⟨hlt, hget⟩ := List.getElem?_eq_some_iff.mp hx
    have hdrop : (dirOrder u cwd (terminated path)).drop (r.position fd) =
        x :: (dirOrder u cwd (terminated path)).drop (r.position fd + 1) := by
      rw [List.drop_eq_getElem_cons hlt, hget]
    simp only
    by_cases hroom : c.len.toNat < recordLength x.1.1
    · have hnone : c.fits (dirOrder u cwd (terminated path)) (r.position fd) = [] := by
        rw [hfits, hdrop, fill, Nat.zero_add, if_pos hroom]
      rw [hnone] at hresult hposition
      constructor
      · intro hlaw _
        have hsmall := (hlaw.small x hx hroom).1
        rw [hresult] at hsmall
        split at hsmall
        · cases hsmall
        next hlen =>
          split at hsmall
          next hbefore => exact ⟨hbefore.2, hlen⟩
          · cases hsmall
      · intro hguard
        obtain ⟨hbefore, hlen⟩ := hguard hroom
        rw [if_neg hlen, if_pos ⟨rfl, hbefore⟩] at hresult
        refine ⟨hwholeCall, hfixed, fun _ _ _ => ⟨hresult, hposition⟩, fun hzero' => ?_⟩
        rw [hresult] at hzero'
        cases hzero'
    · have hsome : c.fits (dirOrder u cwd (terminated path)) (r.position fd) ≠ [] := by
        rw [hfits, hdrop, fill, Nat.zero_add, if_neg hroom]
        exact List.cons_ne_nil _ _
      have hlen : c.len ≠ 0 := fun hlen => hsome (hlen0 hlen)
      rw [if_neg hlen, if_neg fun hnot => hsome hnot.1] at hresult
      refine iff_of_true ⟨hwholeCall, hfixed, fun y hy hsmall => ?_, fun hzero' => ?_⟩
        fun hsmall => absurd hsmall hroom
      · cases hx.symm.trans hy
        exact absurd hsmall hroom
      · rw [hresult] at hzero'
        exact absurd (hzero.mp (by exact_mod_cast hzero')) hsome

/-- A directory is read in pieces without a loss exactly if each buffer has room for the next record. -/
theorem directory_read_iff {label : CString} {s₀ t u : System} {calls : List (PublicCall × Bool)}
    (hfresh : FreshMount label s₀ t) (hf : ∀ i, s₀.machine.dev.faults i = false)
    (hsmall : xfsFsBlocks (System.geometry s₀) ≤ 32768)
    (hrun : Run (System.geometry s₀) t calls u) (hok : ∀ c ∈ calls, c.2 = true)
    (cwd : CString) (full : List UInt8) (hdir : ListedDirectory u full)
    (s : State System) (hs : s.volume = u) (fd : UInt64) (desc : Fd) (hd : usedFd s fd = some desc)
    (hk : desc.kind = .dir) (hoffset : desc.offset = 0)
    (hfull : fsNormalize cwd.bytes (terminated desc.path).bytes 256 = some full)
    (events : List Getdents) (hm : ∀ c ∈ events, c.Mapped) :
    (∀ n c, events[n]? = some c → ReadsDirectory u cwd fd full (dirOrder u cwd (terminated desc.path))
        ((events.take n).foldl (Reader.step cwd fd) ⟨s, []⟩) c) ↔
      ∀ n c, events[n]? = some c → RoomForNext u fd full (dirOrder u cwd (terminated desc.path))
        ((events.take n).foldl (Reader.step cwd fd) ⟨s, []⟩) c := by
  obtain ⟨hvisits, hlength⟩ := listed_visits hfresh hf hsmall hrun hok hfull hdir
  have hwhole := whole_survives hfresh hf hsmall hrun hok hfull hdir
  have hposition : (⟨s, []⟩ : Reader).position fd = 0 := by
    rw [Reader.position, hd, Option.map_some, hoffset]
    rfl
  have hstart : ReaderAt u fd desc.path (dirOrder u cwd (terminated desc.path)) ⟨s, []⟩ := by
    refine ⟨hs, ⟨desc, hd, hk, rfl, by rw [hposition, hoffset]; rfl⟩, ?_, ?_⟩
    · rw [hposition]
      exact Nat.zero_le _
    · rw [hposition]
      rfl
  have hmapped : ∀ n c, events[n]? = some c → Getdents.Mapped c :=
    fun n c hc => hm c (List.mem_of_getElem? hc)
  have hlaw : ∀ r c, ReaderAt u fd desc.path (dirOrder u cwd (terminated desc.path)) r →
      ((Getdents.Mapped c ∧
          ReadsDirectory u cwd fd full (dirOrder u cwd (terminated desc.path)) r c) ↔
        Getdents.Mapped c ∧ RoomForNext u fd full (dirOrder u cwd (terminated desc.path)) r c) :=
    fun r c h => and_congr_right fun hc => reads_iff_room h hvisits hlength hc hwhole
  have hboth : (∀ n c, events[n]? = some c → Getdents.Mapped c ∧ ReadsDirectory u cwd fd full
        (dirOrder u cwd (terminated desc.path)) ((events.take n).foldl (Reader.step cwd fd) ⟨s, []⟩) c) ↔
      ∀ n c, events[n]? = some c → Getdents.Mapped c ∧ RoomForNext u fd full
        (dirOrder u cwd (terminated desc.path)) ((events.take n).foldl (Reader.step cwd fd) ⟨s, []⟩) c :=
    RunPrefixes.law_iff_guarded (Reader.step cwd fd) _ hstart
      (fun r c h hg => (reader_run h hvisits hlength hg.1).2.2.2) hlaw
  constructor
  · exact fun h n c hc => (hboth.mp (fun n c hc => ⟨hmapped n c hc, h n c hc⟩) n c hc).2
  · exact fun h n c hc => (hboth.mpr (fun n c hc => ⟨hmapped n c hc, h n c hc⟩) n c hc).2

/-- An open descriptor of "/proc". -/
def procDescriptor : Fd := ⟨.dir, procPath, 0, 0⟩

def procState : State System where
  volume := freshSystem smallDevice
  fds i := if i = 3 then some procDescriptor else none

def wholeMemory : Memory where
  read _ n := some (List.replicate n 0)
  write _ _ := true
  typed := 0

def procCall (len : UInt64) : Getdents := ⟨wholeMemory, 1, len⟩

theorem procCall_mapped (len : UInt64) : (procCall len).Mapped :=
  ⟨fun _ => (by decide : (1 : UInt64) ≠ 0), fun _ _ _ => rfl⟩

/-- The dots, then "version" and "services", then the end. -/
def procReads : List Getdents := [procCall 48, procCall 64, procCall 64]

def procReader (calls : List Getdents) : Reader :=
  calls.foldl (Reader.step FsDirectoryIteration.rootDir 3) ⟨procState, []⟩

theorem procReads_room : ∀ n c, procReads[n]? = some c →
    RoomForNext (freshSystem smallDevice) 3 procPath
      (dirOrder (freshSystem smallDevice) FsDirectoryIteration.rootDir (terminated procDescriptor.path))
      (procReader (procReads.take n)) c := by
  have hnext : ∀ n < 3, (dirOrder (freshSystem smallDevice) FsDirectoryIteration.rootDir
      (terminated procDescriptor.path))[(procReader (procReads.take n)).position 3]? =
        [(([dot], true), 1), (([118, 101, 114, 115, 105, 111, 110], false), 0)][n]? := by
    decide +kernel
  intro n c hc
  obtain ⟨hn, rfl⟩ := List.getElem?_eq_some_iff.mp hc
  rw [RoomForNext, hnext n hn]
  match n, hn with
  | 0, _ => exact fun hlt => absurd (show 48 < 24 from hlt) (by decide)
  | 1, _ => exact fun hlt => absurd (show 64 < 32 from hlt) (by decide)
  | 2, _ => exact .inl rfl

theorem proc_read_whole :
    WholeDirectory (freshSystem smallDevice) procPath (procReader procReads).got := by
  have hall := (directory_read_iff fresh_smallDevice (fun _ => rfl) (by decide) (Run.nil _)
    (fun _ h => absurd h List.not_mem_nil) FsDirectoryIteration.rootDir procPath (.pseudo (.inl rfl))
    procState rfl 3 procDescriptor rfl rfl rfl (by decide +kernel) procReads
    fun c hc => ?_).mpr procReads_room
  · exact (hall 2 _ rfl).complete (by decide +kernel)
  · simp only [procReads, List.mem_cons, List.not_mem_nil, or_false] at hc
    rcases hc with rfl | rfl | rfl <;> exact procCall_mapped _

/-- A buffer that is too small for the record of "version" gets the answer 0, as at the end. -/
theorem small_buffer_ends : ¬ ∀ (label : CString) (s₀ t u : System) (calls : List (PublicCall × Bool)),
    FreshMount label s₀ t → (∀ i, s₀.machine.dev.faults i = false) →
    xfsFsBlocks (System.geometry s₀) ≤ 32768 → Run (System.geometry s₀) t calls u →
    (∀ c ∈ calls, c.2 = true) → ∀ (cwd : CString) (full : List UInt8), ListedDirectory u full →
    ∀ (s : State System), s.volume = u → ∀ (fd : UInt64) (desc : Fd), usedFd s fd = some desc →
    desc.kind = .dir → desc.offset = 0 →
    fsNormalize cwd.bytes (terminated desc.path).bytes 256 = some full →
    ∀ events : List Getdents, (∀ c ∈ events, c.Mapped) → ∀ n c, events[n]? = some c →
      ReadsDirectory u cwd fd full (dirOrder u cwd (terminated desc.path))
        ((events.take n).foldl (Reader.step cwd fd) ⟨s, []⟩) c := by
  intro h
  have hlaw := h ⟨[], by simp⟩ _ _ (freshSystem smallDevice) [] fresh_smallDevice (fun _ => rfl) (by decide)
    (Run.nil _) (fun _ h => absurd h List.not_mem_nil) FsDirectoryIteration.rootDir procPath
    (.pseudo (.inl rfl)) procState rfl 3 procDescriptor rfl rfl rfl (by decide +kernel)
    [procCall 48, procCall 24]
    (fun c hc => by
      simp only [List.mem_cons, List.not_mem_nil, or_false] at hc
      rcases hc with rfl | rfl
      · exact procCall_mapped 48
      · exact procCall_mapped 24) 1 (procCall 24) rfl
  have hsmall := (hlaw.small (([118, 101, 114, 115, 105, 111, 110], false), 0) (by decide +kernel)
    (by decide)).1
  revert hsmall
  decide +kernel

end Klcs
