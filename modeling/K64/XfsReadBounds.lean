import K64.IoTrace
import K64.XfsFileMap

/-! # What the read path touches

The functions that look paths up, read files and list directories, with a log of the places they
touch in `xfs_tmp_block`, in the name field of an entry, in the token buffer and in the caller's
buffer. Each makes the requests of the function without a log, so that what is shown here holds for
every image. -/
namespace XfsReadBounds

open ByteCodec IoProgram IoTrace XfsFormat XfsJournal XfsInode XfsCalls XfsDirectory XfsOperations
  XfsSystem

inductive Access where
  | scratch (i : ℕ)
  | name (i : ℕ)
  | token (i : ℕ)
  | out (i : ℕ)

/-- The place lies inside of its buffer; the caller's has `size` bytes. -/
def Access.Inside (size : ℤ) : Access → Prop
  | .scratch i => i < 4096
  | .name i => i < 128
  | .token i => i < 128
  | .out i => (i : ℤ) < size

/-- Procedures over the calls of the block layer that log what they touch. -/
abbrev XfsT := Proc Call Ans (List Access)

def span (place : ℕ → Access) (start n : ℕ) : List Access := (List.range' start n).map place

def readInodeT (inodeId : UInt32) : XfsT Inode := do
  touch (if inodeId ≠ 0 ∧ inodeId.toNat ≤ 512 then span .scratch (inodeOffset inodeId) 372 else [])
  Proc.orFail (← Proc.request (.readInode inodeId))

def readDataBlockT (inode : Inode) (logical : ℕ) : XfsT XBlock := do
  touch (span .scratch 0 4096)
  Proc.orFail (← Proc.request (.readDataBlock inode logical))

/-- What `xfs_dir_find` looks at in slot `s`: a name is compared if it has the right length. -/
def slotAccesses (name : List UInt8) (tmp : XBlock) (s : ℕ) : List Access :=
  span .scratch (s * 160) 160 ++
    if (dirent tmp s).inodeId ≠ 0 ∧ (dirent tmp s).nameLen.toNat = name.length then
      span .name 0 name.length
    else []

def dirFindFromT (dir : Inode) (name : List UInt8) : ℕ → ℕ → XfsT (Dirent × ℕ × ℕ)
  | _, 0 => Proc.fail
  | b, n + 1 => do
    let tmp ← readDataBlockT dir b
    touch ((List.range 25).flatMap (slotAccesses name tmp))
    match slotNamed tmp name with
    | some s => return (dirent tmp s, b, s)
    | none => dirFindFromT dir name (b + 1) n

def xfsDirFindT (dir : Inode) (name : List UInt8) : XfsT (Dirent × ℕ × ℕ) := do
  Proc.guard (dir.type == typeDirectory)
  dirFindFromT dir name 0 (sizeBlocks dir.size)

def resolveFromT : UInt32 × Inode → List (List UInt8) → XfsT (UInt32 × Inode)
  | current, [] => pure current
  | current, token :: rest => do
    touch (span .token 0 (min token.length 127))
    Proc.guard (token.length < 128)
    touch [.token token.length]
    let (ent, _, _) ← xfsDirFindT current.2 token
    let inode ← readInodeT ent.inodeId
    resolveFromT (ent.inodeId, inode) rest

def xfsResolveT (path : List UInt8) : XfsT (UInt32 × Inode) := do
  let fs ← Proc.request Call.info
  Proc.guard (fs.mounted && path.head? == some slash)
  let root ← readInodeT fs.rootInode
  resolveFromT (fs.rootInode, root) (tokens path)

def k64XfsStatT (path : CString) : XfsT FsStat := do
  let (_, inode) ← xfsResolveT (orRoot path)
  return {
    isDir := inode.type == typeDirectory
    size := inode.size
    mode := inode.mode.toUInt32
    uid := inode.uid
    gid := inode.gid
    createdTick := inode.createdTick
    modifiedTick := inode.modifiedTick
    generation := inode.generation
    path := xfsCopy 256 (orRoot path) }

def readFromT (inode : Inode) (max : ℕ) (out : List UInt8) : XfsT (List UInt8) :=
  if _h : out.length < inode.size.toNat ∧ out.length < max then do
    let logical := out.length / 4096
    let inBlock := out.length % 4096
    let n := min (4096 - inBlock) (min (inode.size.toNat - out.length) (max - out.length))
    Proc.guard (logical < sizeBlocks inode.size)
    let tmp ← readDataBlockT inode logical
    touch (span .scratch inBlock n ++ span .out out.length n)
    readFromT inode max (out ++ tmp.read inBlock n)
  else pure out
termination_by inode.size.toNat - out.length
decreasing_by
  have := Nat.mod_lt out.length (show 4096 > 0 by decide)
  simp only [List.length_append, Block.length_read]
  omega

def k64XfsReadFileT (path : CString) (max : ℕ) : XfsT (List UInt8) := do
  let (_, inode) ← xfsResolveT path.bytes
  Proc.guard (inode.type == typeRegular)
  readFromT inode max []

variable {size : ℤ}

theorem span_inside {place : ℕ → Access} {start n : ℕ}
    (h : ∀ i, start ≤ i → i < start + n → (place i).Inside size) :
    ∀ a ∈ span place start n, a.Inside size := by
  intro a ha
  obtain ⟨i, hi, rfl⟩ := List.mem_map.mp ha
  obtain ⟨h1, h2⟩ := List.mem_range'_1.mp hi
  exact h i h1 h2

theorem append_inside {as bs : List Access} (ha : ∀ a ∈ as, a.Inside size)
    (hb : ∀ a ∈ bs, a.Inside size) : ∀ a ∈ as ++ bs, a.Inside size := by
  intro a h
  rcases List.mem_append.mp h with h | h
  · exact ha a h
  · exact hb a h

theorem readInode_mirrors (inodeId : UInt32) :
    Mirrors (Access.Inside size) (readInodeT inodeId) (readInode inodeId) := by
  refine Mirrors.touch ?_ ((Mirrors.request _).bind fun _ => Mirrors.orFail _)
  split
  · refine span_inside fun i _ hi => ?_
    unfold inodeOffset at hi
    have := Nat.mod_lt (inodeId.toNat - 1) (show 11 > 0 by decide)
    change i < 4096
    omega
  · exact fun a ha => absurd ha List.not_mem_nil

theorem readDataBlock_mirrors (inode : Inode) (logical : ℕ) :
    Mirrors (Access.Inside size) (readDataBlockT inode logical) (readDataBlock inode logical) := by
  refine Mirrors.touch (span_inside fun i _ hi => ?_)
    ((Mirrors.request _).bind fun _ => Mirrors.orFail _)
  change i < 4096
  omega

theorem slot_inside {s : ℕ} (hs : s < 25) :
    ∀ a ∈ span .scratch (s * 160) 160, a.Inside size := by
  refine span_inside fun i _ hi => ?_
  change i < 4096
  omega

variable {name : List UInt8}

theorem slots_inside (hname : name.length < 128) (tmp : XBlock) :
    ∀ a ∈ (List.range 25).flatMap (slotAccesses name tmp), a.Inside size := by
  intro a ha
  obtain ⟨s, hs, ha⟩ := List.mem_flatMap.mp ha
  refine append_inside (slot_inside (List.mem_range.mp hs)) ?_ a ha
  split
  · refine span_inside fun i _ hi => ?_
    change i < 128
    omega
  · exact fun a ha => absurd ha List.not_mem_nil

variable (dir : Inode)

theorem dirFindFrom_mirrors (hname : name.length < 128) :
    ∀ n b, Mirrors (Access.Inside size) (dirFindFromT dir name b n) (dirFindFrom dir name b n) := by
  intro n
  induction n with
  | zero => exact fun _ => Mirrors.fail
  | succ n ih =>
    intro b
    refine (readDataBlock_mirrors dir b).bind fun tmp => Mirrors.touch (slots_inside hname tmp) ?_
    cases slotNamed tmp name with
    | some s => exact Mirrors.pure _
    | none => exact ih (b + 1)

theorem dirFind_mirrors (hname : name.length < 128) :
    Mirrors (Access.Inside size) (xfsDirFindT dir name) (xfsDirFind dir name) :=
  (Mirrors.guard _).bind fun _ => dirFindFrom_mirrors dir hname _ _

theorem resolveFrom_mirrors (path : List (List UInt8)) : ∀ current,
    Mirrors (Access.Inside size) (resolveFromT current path) (resolveFrom current path) := by
  induction path with
  | nil => exact fun _ => Mirrors.pure _
  | cons token rest ih =>
    intro current
    refine Mirrors.touch (span_inside fun i _ hi => ?_) (Mirrors.guard_bind fun hlen => ?_)
    · change i < 128
      omega
    · have hlen : token.length < 128 := of_decide_eq_true hlen
      refine Mirrors.touch (fun a ha => ?_) ((dirFind_mirrors current.2 hlen).bind fun found => ?_)
      · obtain rfl := List.mem_singleton.mp ha
        exact hlen
      · exact (readInode_mirrors _).bind fun inode => ih _

theorem resolve_mirrors (path : List UInt8) :
    Mirrors (Access.Inside size) (xfsResolveT path) (xfsResolve path) :=
  (Mirrors.request _).bind fun _ => (Mirrors.guard _).bind fun _ =>
    (readInode_mirrors _).bind fun _ => resolveFrom_mirrors _ _

variable (path : CString)

theorem stat_mirrors :
    Mirrors (Access.Inside size) (k64XfsStatT path) (k64XfsStat path) :=
  (resolve_mirrors _).bind fun _ => Mirrors.pure _

theorem readFrom_mirrors (inode : Inode) (max : ℕ) (out : List UInt8) :
    Mirrors (Access.Inside max) (readFromT inode max out) (readFrom inode max out) := by
  rw [readFromT, readFrom]
  split
  case isTrue h =>
    refine (Mirrors.guard _).bind fun _ => (readDataBlock_mirrors inode _).bind fun tmp => ?_
    have hmod := Nat.mod_lt out.length (show 4096 > 0 by decide)
    refine Mirrors.touch (append_inside (span_inside fun i _ hi => ?_) (span_inside fun i _ hi => ?_))
      (readFrom_mirrors inode max _)
    · change i < 4096
      omega
    · change (i : ℤ) < max
      omega
  case isFalse => exact Mirrors.pure _
termination_by inode.size.toNat - out.length
decreasing_by
  have := Nat.mod_lt out.length (show 4096 > 0 by decide)
  simp only [List.length_append, Block.length_read]
  omega

theorem readFile_mirrors (max : ℕ) :
    Mirrors (Access.Inside max) (k64XfsReadFileT path max) (k64XfsReadFile path max) :=
  (resolve_mirrors _).bind fun _ => (Mirrors.guard _).bind fun _ => readFrom_mirrors _ _ _

/-- One turn of the name loop of `k64_xfs_list_dir`: where it writes next, and the log. -/
def nameStep (outSize : ℤ) (p : ℕ × List Access) (i : ℕ) : ℕ × List Access :=
  if (p.1 : ℤ) + 2 < outSize then (p.1 + 1, p.2 ++ [.name i, .out p.1]) else p

def entryTrace (outSize : ℤ) (p : ℕ × List Access) (e : Dirent) : ℕ × List Access :=
  if e.inodeId = 0 then p
  else
    let p := (List.range e.nameLen.toNat).foldl (nameStep outSize) p
    let p := if e.type = typeDirectory ∧ (p.1 : ℤ) + 2 < outSize then (p.1 + 1, p.2 ++ [.out p.1])
      else p
    let p := if (p.1 : ℤ) + 1 < outSize then (p.1 + 1, p.2 ++ [.out p.1]) else p
    (p.1, p.2 ++ [.out p.1])

/-- The slot loop, which looks at the entry before it writes the line. -/
def slotTrace (outSize : ℤ) (tmp : XBlock) (p : ℕ × List Access) (s : ℕ) : ℕ × List Access :=
  entryTrace outSize (p.1, p.2 ++ span .scratch (s * 160) 160) (dirent tmp s)

def listFromT (dir : Inode) (outSize : ℤ) : ℕ → ℕ → ℕ → XfsT Unit
  | _, 0, _ => pure ()
  | b, n + 1, pos => do
    let tmp ← readDataBlockT dir b
    touch ((List.range 25).foldl (slotTrace outSize tmp) (pos, [])).2
    listFromT dir outSize (b + 1) n ((List.range 25).foldl (slotTrace outSize tmp) (pos, [])).1

def k64XfsListDirT (path : CString) (outSize : ℤ) : XfsT Unit := do
  Proc.guard (0 < outSize)
  let (_, dir) ← xfsResolveT (orRoot path)
  Proc.guard (dir.type == typeDirectory)
  touch [.out 0]
  listFromT dir outSize 0 (sizeBlocks dir.size) 0

def entryEnd (outSize : ℤ) (pos : ℕ) (e : Dirent) : ℕ :=
  if e.inodeId = 0 then pos
  else
    let p := pos + min e.nameLen.toNat (outSize - 2 - pos).toNat
    let p := if e.type = typeDirectory ∧ (p : ℤ) + 2 < outSize then p + 1 else p
    if (p : ℤ) + 1 < outSize then p + 1 else p

def EntryFits (outSize : ℤ) (pos : ℕ) (e : Dirent) : Prop :=
  e.inodeId ≠ 0 → 128 < e.nameLen.toNat → outSize ≤ pos + 130

def FitsFrom (outSize : ℤ) : ℕ → List Dirent → Prop
  | _, [] => True
  | pos, e :: es => EntryFits outSize pos e ∧ FitsFrom outSize (entryEnd outSize pos e) es

def endOf (outSize : ℤ) (pos : ℕ) (es : List Dirent) : ℕ := es.foldl (entryEnd outSize) pos

theorem endOf_cons (outSize : ℤ) (pos : ℕ) (e : Dirent) (es : List Dirent) :
    endOf outSize pos (e :: es) = endOf outSize (entryEnd outSize pos e) es := rfl

def AllInside (size : ℤ) (log : List Access) : Prop := ∀ a ∈ log, a.Inside size

variable {outSize : ℤ} {p : ℕ × List Access}

theorem allInside_append {as bs : List Access} :
    AllInside size (as ++ bs) ↔ AllInside size as ∧ AllInside size bs := List.forall_mem_append

theorem name_loop (outSize : ℤ) (p : ℕ × List Access) (n : ℕ) :
    ((List.range n).foldl (nameStep outSize) p).1 =
      p.1 + min n (outSize - 2 - p.1).toNat ∧
    (AllInside outSize ((List.range n).foldl (nameStep outSize) p).2 ↔
      AllInside outSize p.2 ∧ ∀ i < n, (p.1 : ℤ) + i + 2 < outSize → i < 128) := by
  induction n with
  | zero => exact ⟨by simp, by simp⟩
  | succ n ih =>
    obtain ⟨hpos, hlog⟩ := ih
    rw [List.range_succ, List.foldl_append, List.foldl_cons, List.foldl_nil]
    rw [nameStep]
    split
    case isTrue hroom =>
      rw [hpos] at hroom
      have hlast : (p.1 : ℤ) + n + 2 < outSize := by omega
      refine ⟨by rw [hpos]; omega, ?_⟩
      rw [allInside_append, hlog, and_assoc]
      refine and_congr_right fun _ => ⟨fun ⟨hall, hnew⟩ i hi hroom => ?_, fun hall => ⟨fun i hi => ?_, ?_⟩⟩
      · rcases Nat.lt_succ_iff_lt_or_eq.mp hi with hi | rfl
        · exact hall i hi hroom
        · exact hnew (.name i) (by simp)
      · exact hall i (by omega)
      · intro a ha
        rcases List.mem_cons.mp ha with rfl | ha
        · exact hall n (by omega) hlast
        · obtain rfl := List.mem_singleton.mp ha
          change ((((List.range n).foldl (nameStep outSize) p).1 : ℕ) : ℤ) < outSize
          rw [hpos]
          omega
    case isFalse hroom =>
      rw [hpos] at hroom
      refine ⟨by rw [hpos]; omega, ?_⟩
      rw [hlog]
      refine and_congr_right fun _ => ⟨fun hall i hi hr => ?_, fun hall i hi => hall i (by omega)⟩
      exact hall i (by omega) hr

theorem allInside_out {pos : ℕ} (h : (pos : ℤ) < outSize) : AllInside outSize [.out pos] := by
  intro a ha
  obtain rfl := List.mem_singleton.mp ha
  exact h

theorem put_step (c : Prop) [Decidable c] {q : ℕ × List Access} (hq : (q.1 : ℤ) < outSize) :
    (if c then (q.1 + 1, q.2 ++ [.out q.1]) else q).1 = (if c then q.1 + 1 else q.1) ∧
      (AllInside outSize (if c then (q.1 + 1, q.2 ++ [.out q.1]) else q).2 ↔
        AllInside outSize q.2) := by
  split
  · refine ⟨rfl, ?_⟩
    rw [allInside_append]
    exact and_iff_left (allInside_out hq)
  · exact ⟨rfl, Iff.rfl⟩

theorem name_reach {n pos : ℕ} : (∀ i < n, (pos : ℤ) + i + 2 < outSize → i < 128) ↔
    (128 < n → outSize ≤ pos + 130) := by
  constructor
  · intro h hn
    by_contra hlt
    exact absurd (h 128 hn (by omega)) (Nat.lt_irrefl 128)
  · intro h i hi hroom
    by_contra hge
    have := h (by omega)
    omega

theorem entry_trace (e : Dirent) (hpos : (p.1 : ℤ) < outSize) :
    (entryTrace outSize p e).1 = entryEnd outSize p.1 e ∧
      (entryEnd outSize p.1 e : ℤ) < outSize ∧
      (AllInside outSize (entryTrace outSize p e).2 ↔
        AllInside outSize p.2 ∧ EntryFits outSize p.1 e) := by
  unfold entryTrace entryEnd EntryFits
  split
  case isTrue h0 => exact ⟨rfl, hpos, ⟨fun h => ⟨h, fun hne => absurd h0 hne⟩, fun h => h.1⟩⟩
  case isFalse h0 =>
    obtain ⟨hend, hlog⟩ := name_loop outSize p e.nameLen.toNat
    rw [name_reach] at hlog
    generalize (List.range e.nameLen.toNat).foldl (nameStep outSize) p = q at hend hlog
    dsimp only
    rw [← hend]
    have hq : (q.1 : ℤ) < outSize := by omega
    -- the slash of a directory
    obtain ⟨hslash, hslashLog⟩ := put_step (e.type = typeDirectory ∧ (q.1 : ℤ) + 2 < outSize) hq
    generalize hq₂ : (if e.type = typeDirectory ∧ (q.1 : ℤ) + 2 < outSize then
      (q.1 + 1, q.2 ++ [Access.out q.1]) else q) = q₂ at hslash hslashLog
    rw [← hslash]
    have hq₂ : (q₂.1 : ℤ) < outSize := by
      rw [hslash]
      split <;> omega
    -- the end of the line
    obtain ⟨hline, hlineLog⟩ := put_step ((q₂.1 : ℤ) + 1 < outSize) hq₂
    generalize hq₃ : (if (q₂.1 : ℤ) + 1 < outSize then
      (q₂.1 + 1, q₂.2 ++ [Access.out q₂.1]) else q₂) = q₃ at hline hlineLog
    rw [← hline]
    have hq₃ : (q₃.1 : ℤ) < outSize := by
      rw [hline]
      split <;> omega
    refine ⟨rfl, hq₃, ?_⟩
    rw [allInside_append, hlineLog, hslashLog, hlog, and_iff_left (allInside_out hq₃)]
    exact and_congr_right fun _ => ⟨fun h _ => h, fun h => h h0⟩

theorem slots_trace (outSize : ℤ) (tmp : XBlock) (slots : List ℕ) : ∀ p : ℕ × List Access,
    (p.1 : ℤ) < outSize → (∀ s ∈ slots, s < 25) →
    (slots.foldl (slotTrace outSize tmp) p).1 = endOf outSize p.1 (slots.map (dirent tmp)) ∧
      (endOf outSize p.1 (slots.map (dirent tmp)) : ℤ) < outSize ∧
      (AllInside outSize (slots.foldl (slotTrace outSize tmp) p).2 ↔
        AllInside outSize p.2 ∧ FitsFrom outSize p.1 (slots.map (dirent tmp))) := by
  induction slots with
  | nil => exact fun p hp _ => ⟨rfl, hp, by simp [FitsFrom]⟩
  | cons s rest ih =>
    intro p hp hs
    obtain ⟨hend, hlt, hlog⟩ := entry_trace (p := (p.1, p.2 ++ span .scratch (s * 160) 160))
      (dirent tmp s) hp
    have hslot : AllInside outSize (span .scratch (s * 160) 160) :=
      slot_inside (hs s List.mem_cons_self)
    rw [allInside_append, and_iff_left hslot] at hlog
    have hpos : (slotTrace outSize tmp p s).1 = entryEnd outSize p.1 (dirent tmp s) := hend
    have hentry : AllInside outSize (slotTrace outSize tmp p s).2 ↔
        AllInside outSize p.2 ∧ EntryFits outSize p.1 (dirent tmp s) := hlog
    obtain ⟨hend', hlt', hlog'⟩ := ih (slotTrace outSize tmp p s) (by rw [hpos]; exact hlt)
      fun k hk => hs k (List.mem_cons_of_mem s hk)
    rw [hpos] at hend' hlt' hlog'
    rw [List.foldl_cons, List.map_cons, endOf_cons, FitsFrom]
    refine ⟨hend', hlt', ?_⟩
    rw [hlog', hentry, and_assoc]

/-- The entries of a directory, up to a block that cannot be read. -/
def entriesFrom (dir : Inode) : ℕ → ℕ → List Dirent → XfsV (List Dirent)
  | _, 0, es => pure es
  | b, n + 1, es => do
    match ← (readDataBlock dir b).attempt with
    | none => pure es
    | some tmp => entriesFrom dir (b + 1) n (es ++ (List.range 25).map (dirent tmp))

def listedEntries (path : CString) : XfsV (List Dirent) := do
  let (_, dir) ← xfsResolve (orRoot path)
  Proc.guard (dir.type == typeDirectory)
  entriesFrom dir 0 (sizeBlocks dir.size) []

theorem fitsFrom_append (es es' : List Dirent) : ∀ pos, FitsFrom outSize pos (es ++ es') ↔
    FitsFrom outSize pos es ∧ FitsFrom outSize (endOf outSize pos es) es' := by
  induction es with
  | nil => exact fun pos => ⟨fun h => ⟨trivial, h⟩, fun h => h.2⟩
  | cons e rest ih =>
    intro pos
    rw [List.cons_append, FitsFrom, ih, FitsFrom, and_assoc]
    rfl

theorem listFrom_follows : ∀ (n b pos : ℕ) (log : List Access) (es : List Dirent),
    (pos : ℤ) < outSize →
    Follows (fun r r' => ∃ es', r'.1 = some (es ++ es') ∧
        (AllInside outSize r.2 ↔ AllInside outSize log ∧ FitsFrom outSize pos es'))
      (listFromT dir outSize b n pos log) (entriesFrom dir b n es ()) := by
  intro n
  induction n with
  | zero => exact fun b pos log es _ => .ret ⟨[], by rw [List.append_nil], by simp [FitsFrom]⟩
  | succ n ih =>
    intro b pos log es hpos
    have hblock : AllInside outSize (span .scratch 0 4096) :=
      span_inside fun i _ hi => show i < 4096 by omega
    refine .ask (Call.readDataBlock dir b) fun r => ?_
    cases r with
    | none =>
      refine .ret ⟨[], by rw [List.append_nil], ?_⟩
      change AllInside outSize (log ++ span .scratch 0 4096) ↔ _
      rw [allInside_append, and_iff_left hblock]
      simp [FitsFrom]
    | some tmp =>
      obtain ⟨hend, hlt, hlog⟩ := slots_trace outSize tmp (List.range 25) (pos, []) hpos
        fun s hs => List.mem_range.mp hs
      refine (ih (b + 1) _ (log ++ span .scratch 0 4096 ++ _) (es ++ _) ?_).mono ?_
      · rw [hend]
        exact hlt
      · rintro r r' ⟨es', hes, hiff⟩
        refine ⟨(List.range 25).map (dirent tmp) ++ es', by rw [hes, List.append_assoc], ?_⟩
        have hnil : AllInside outSize [] := fun a ha => absurd ha List.not_mem_nil
        rw [hiff, allInside_append, allInside_append, and_iff_left hblock, hlog, hend,
          fitsFrom_append, and_iff_right hnil, and_assoc]

/-- The bytes of a line that is not cut. -/
def lineLength (e : Dirent) : ℕ :=
  if e.inodeId = 0 then 0
  else e.nameLen.toNat + (if e.type = typeDirectory then 1 else 0) + 1

/-- A name that is longer than its field comes so late that the buffer is full before the field
ends. -/
def NamesFit (outSize : ℤ) (es : List Dirent) : Prop :=
  ∀ before e after, es = before ++ e :: after → e.inodeId ≠ 0 → 128 < e.nameLen.toNat →
    outSize ≤ ((before.map lineLength).sum : ℕ) + 130

theorem entryEnd_line (e : Dirent) {pos : ℕ} (hpos : (pos : ℤ) < outSize) :
    entryEnd outSize pos e = pos + lineLength e ∨
      entryEnd outSize pos e ≤ pos + lineLength e ∧ outSize ≤ (entryEnd outSize pos e : ℤ) + 2 := by
  unfold entryEnd lineLength
  split
  · exact Or.inl rfl
  · dsimp only
    by_cases hdir : e.type = typeDirectory
    · simp only [hdir, true_and, if_true]
      split <;> split <;> omega
    · simp only [hdir, false_and, if_false]
      split <;> omega

theorem fitsFrom_iff (es : List Dirent) : ∀ pos sum : ℕ, (pos : ℤ) < outSize →
    (pos = sum ∨ pos ≤ sum ∧ outSize ≤ (pos : ℤ) + 2) →
    (FitsFrom outSize pos es ↔ ∀ before e after, es = before ++ e :: after → e.inodeId ≠ 0 →
      128 < e.nameLen.toNat → outSize ≤ ((sum + (before.map lineLength).sum : ℕ) : ℤ) + 130) := by
  induction es with
  | nil => exact fun _ _ _ _ => ⟨fun _ before e after h => by simp at h, fun _ => trivial⟩
  | cons e es ih =>
    intro pos sum hpos hsum
    obtain ⟨-, hlt, -⟩ := entry_trace (p := (pos, [])) e hpos
    have hnext := ih (entryEnd outSize pos e) (sum + lineLength e) hlt (by
      have hline := entryEnd_line e hpos
      dsimp only at hlt
      omega)
    rw [FitsFrom, hnext, EntryFits]
    constructor
    · rintro ⟨hhead, htail⟩ before x after heq hne hlong
      cases before with
      | nil =>
        obtain ⟨rfl, rfl⟩ := List.cons.inj heq
        have := hhead hne hlong
        simp only [List.map_nil, List.sum_nil]
        omega
      | cons y before =>
        obtain ⟨rfl, hrest⟩ := List.cons.inj heq
        have := htail before x after hrest hne hlong
        simp only [List.map_cons, List.sum_cons]
        omega
    · intro hall
      refine ⟨fun hne hlong => ?_, fun before x after heq hne hlong => ?_⟩
      · have := hall [] e es rfl hne hlong
        simp only [List.map_nil, List.sum_nil] at this
        omega
      · have := hall (e :: before) x after (by rw [heq]; rfl) hne hlong
        simp only [List.map_cons, List.sum_cons] at this
        omega

theorem fits_iff_namesFit (es : List Dirent) (h : 0 < outSize) :
    FitsFrom outSize 0 es ↔ NamesFit outSize es := by
  rw [fitsFrom_iff es 0 0 h (Or.inl rfl)]
  simp only [Nat.zero_add]
  exact Iff.rfl

theorem namesFit_nil (outSize : ℤ) : NamesFit outSize [] := by
  intro before e after h
  simp at h

/-- What a procedure touches on a given system. -/
def accesses {α : Type} (s : System) (f : XfsT α) : List Access :=
  ((s.call (lowered (traced f))).1).getD []

def entriesOf (s : System) (path : CString) : List Dirent :=
  ((s.call (lowered (listedEntries path))).1).getD []

theorem accesses_inside {α : Type} {f : XfsT α} {g : XfsV α} (h : Mirrors (Access.Inside size) f g)
    (s : System) : AllInside size (accesses s f) := by
  have hnil : ∀ a ∈ ([] : List Access), a.Inside size := fun a ha => absurd ha List.not_mem_nil
  have hfollow : Follows (fun (r : Option α × List Access) (_ : Option α × Unit) =>
      AllInside size r.2) (f []) (g ()) := (h [] hnil).mono fun _ _ hs => hs.2
  rcases traced_lowered (S := fun log _ => AllInside size log) hfollow s.fs s.machine with
    ⟨hlog, -⟩ | ⟨log, hlog, hin⟩
  · rw [accesses, System.call, lowered, hlog]
    exact hnil
  · rw [accesses, System.call, lowered, hlog]
    exact hin

theorem listDir_follows (hpos : 0 < outSize) :
    Follows (fun r r' => AllInside outSize r.2 ↔ NamesFit outSize (r'.1.getD []))
      (k64XfsListDirT path outSize []) (listedEntries path ()) := by
  have hnil : ∀ a ∈ ([] : List Access), a.Inside outSize := fun a ha => absurd ha List.not_mem_nil
  rw [k64XfsListDirT, decide_eq_true hpos]
  refine (resolve_mirrors (orRoot path) [] hnil).bind ?_
  rintro ⟨r, log⟩ ⟨r', -⟩ ⟨rfl, hlog⟩
  have hstop : AllInside outSize log ↔ NamesFit outSize [] :=
    iff_of_true hlog (namesFit_nil outSize)
  cases r with
  | none => exact .ret hstop
  | some target =>
    obtain ⟨id, dir⟩ := target
    dsimp only
    cases hdir : dir.type == typeDirectory with
    | false => exact .ret hstop
    | true =>
      refine (listFrom_follows dir (sizeBlocks dir.size) 0 0 (log ++ [.out 0]) [] hpos).mono ?_
      rintro r r' ⟨es, hes, hiff⟩
      have hfirst : AllInside outSize (log ++ [.out 0]) :=
        allInside_append.mpr ⟨hlog, allInside_out hpos⟩
      rw [hes, hiff, and_iff_right hfirst, fits_iff_namesFit es hpos]
      rfl

theorem listDir_inside_iff (s : System) (path : CString) (outSize : ℤ) :
    AllInside outSize (accesses s (k64XfsListDirT path outSize)) ↔
      NamesFit outSize (entriesOf s path) := by
  by_cases hpos : 0 < outSize
  · rcases traced_lowered (S := fun log es => AllInside outSize log ↔
        NamesFit outSize (es.getD [])) (listDir_follows path hpos) s.fs s.machine with
      ⟨hlog, hes⟩ | ⟨log, hlog, hiff⟩
    · rw [accesses, entriesOf, System.call, System.call, lowered, lowered, hlog, hes]
      exact iff_of_true (fun a ha => absurd ha List.not_mem_nil) (namesFit_nil outSize)
    · rw [accesses, entriesOf, System.call, System.call, lowered, lowered, hlog]
      exact hiff
  · -- without a buffer nothing is listed
    refine iff_of_true ?_ fun before e after _ _ _ => by omega
    have hproc : k64XfsListDirT path outSize = Proc.fail := by
      rw [k64XfsListDirT, decide_eq_false hpos]
      rfl
    intro a ha
    rw [hproc] at ha
    exact absurd ha List.not_mem_nil

/-- Whatever the image holds, all that the read path touches lies inside of its buffers if and only if
no name that the listing copies is longer than its field. -/
theorem read_path_inside_iff (s : System) (path : CString) (max : ℕ) (outSize : ℤ) :
    (AllInside 0 (accesses s (xfsResolveT path.bytes)) ∧
      AllInside 0 (accesses s (k64XfsStatT path)) ∧
      AllInside max (accesses s (k64XfsReadFileT path max)) ∧
      AllInside outSize (accesses s (k64XfsListDirT path outSize))) ↔
    NamesFit outSize (entriesOf s path) := by
  have hresolve : AllInside 0 (accesses s (xfsResolveT path.bytes)) :=
    accesses_inside (resolve_mirrors path.bytes) s
  have hstat : AllInside 0 (accesses s (k64XfsStatT path)) := accesses_inside (stat_mirrors path) s
  have hread := accesses_inside (readFile_mirrors path max) s
  rw [and_iff_right hresolve, and_iff_right hstat, and_iff_right hread]
  exact listDir_inside_iff s path outSize

section Hostile

open XfsCache XfsCacheRefinement XfsLogicalDisk XfsVolume XfsVolumeRefinement XfsVolumeLifecycle
  XfsConsistency XfsLookup XfsMounting XfsFormatting XfsRuns XfsSmallVolume XfsPaths

variable {total : ℕ} {s : System} {data : ℕ → XBlock} {evil : XBlock}

theorem tampered_mount (evil : XBlock) (label : CString) (fs : Xfs)
    (hok : xfsDevOk (System.geometry s) = true) (hlow : 83 < xfsFsBlocks (System.geometry s))
    (hsmall : xfsFsBlocks (System.geometry s) ≤ 32768)
    (hf : ∀ i, s.machine.dev.faults i = false) {t : System}
    (ht : t = ⟨fs, ⟨k64XfsCacheInit,
      (s.call (k64XfsFormat (System.geometry s) label)).2.machine.dev.store 82 evil⟩⟩) :
    (t.call (k64XfsMount (System.geometry s))).1.isSome = true ∧
    XfsSystem.Holds (xfsFsBlocks (System.geometry s)) (t.call (k64XfsMount (System.geometry s))).2
      (mountedVolume ((formatted (xfsFsBlocks (System.geometry s)) s.machine.dev.block).setData 82
        evil) 1) := by
  obtain ⟨-, d₁, hr₁, hfb⟩ :=
    format_represents label hok hlow (Nat.le_trans hsmall (by decide)) hf
  have hclean := hfb.clean hok hlow hsmall rfl
  have hblk : ((s.call (k64XfsFormat (System.geometry s) label)).2.machine.dev.store 82 evil).block =
      Function.update d₁.blk 82 evil := by
    funext n
    rw [block_store, Function.update_apply, block_of_flushed hr₁ hfb.flushed]
    simp only [eq_comm]
  have hrep := represents_fresh (represents_blank (hr₁.working.store 82 evil)) rfl journalArea
  rw [hblk] at hrep
  have hsuper : Function.update d₁.blk 82 evil 0 = d₁.blk 0 := Function.update_of_ne (by decide) _ _
  have hdisk : CleanDisk (System.geometry s) ⟨d₁.size, Function.update d₁.blk 82 evil, true,
      rawLog journalArea
        ((s.call (k64XfsFormat (System.geometry s) label)).2.machine.dev.store 82 evil)⟩ _
      ((formatted (xfsFsBlocks (System.geometry s)) s.machine.dev.block).setData 82 evil) :=
    ⟨hclean.sector, hclean.total, rfl,
      (congrArg (Block.record · superblockCodec 0) hsuper).trans hclean.super, hclean.state,
      hclean.layout, hclean.stores.setData (Nat.le_refl 82) evil, hclean.totalBlocks, hclean.free⟩
  subst ht
  obtain ⟨d₂, hsize, hr₂, hsome, hs₂, -, -⟩ := call_of_wp
    (s := ⟨fs, ⟨k64XfsCacheInit, _⟩⟩) hrep (mount_disk hdisk fs)
  exact ⟨Option.isSome_iff_exists.mpr ⟨_, hsome⟩, d₂, hsize.trans hfb.size, hr₂, hs₂, nofun⟩

theorem entries_tampered {path : CString} (hpath : orRoot path = [slash]) (h84 : 84 ≤ total)
    (hsmall : total ≤ 32768) (h : XfsSystem.Holds total s
      (mountedVolume ((formatted total data).setData 82 evil) 1)) :
    entriesOf s path = (List.range 25).map (dirent evil) := by
  have hc := (formatted_consistent data h84 hsmall).toAllocated
  have hused : ∀ {id}, Used ((formatted total data).setData 82 evil) id →
      Used (formatted total data) id := fun h => ⟨h.pos, h.le, h.bit⟩
  have hbad : Allocated ((formatted total data).setData 82 evil) :=
    ⟨hc.large, hc.small, hc.free, hc.rootUsed, hc.rootDir, hc.fits, fun id h => hc.valid id (hused h),
      fun id h => hc.shape id (hused h), fun id h => hc.marked id (hused h),
      fun id id' h h' => hc.owner id id' (hused h) (hused h')⟩
  have hroot : ((formatted total data).setData 82 evil).inode 1 = Inode.sealed formatRoot :=
    inode_formatted total data
  have hrecord : ((formatted total data).setData 82 evil).record 1 =
      some (Inode.sealed formatRoot) := by
    rw [← hroot]
    exact record_used hbad (i := 1) ⟨by decide, by decide, hbad.rootUsed⟩
  have hresolve : resolve ((formatted total data).setData 82 evil) (orRoot path) =
      some (1, Inode.sealed formatRoot) := by
    rw [hpath, resolve, tokens_root, walk, hrecord]
    rfl
  have hblock : ((formatted total data).setData 82 evil).dataOf (Inode.sealed formatRoot) 0 =
      evil := by
    rw [Content.dataOf, lookup_formatRoot]
    simp [Content.setData]
  rw [entriesOf, XfsFileMap.answer_of_wp (o := some ((List.range 25).map (dirent evil))) h ?_]
  · rfl
  have hfits : Inode.Fits total (Inode.sealed formatRoot) := by
    rw [← hroot]
    exact hbad.fits 1 (by decide) (by decide)
  rw [listedEntries, Proc.wp_bind, wp_resolve hbad rfl]
  change Proc.wpNext _ _ _ _ (resolve ((formatted total data).setData 82 evil) (orRoot path)) _ _
  rw [hresolve, Proc.wpNext_some]
  dsimp only
  rw [Proc.wp_bind, Proc.wp_guard, sizeBlocks_formatRoot]
  rw [if_pos (by decide), Proc.wpNext_some, entriesFrom, Proc.wp_bind, Proc.wp_attempt,
    wp_readDataBlock]
  refine ⟨hfits, ?_⟩
  rw [Proc.wpNext_some]
  change Proc.wp _ _ (entriesFrom _ _ _ ([] ++ (List.range 25).map (dirent
    (((formatted total data).setData 82 evil).dataOf (Inode.sealed formatRoot) 0)))) _ _ _
  rw [hblock, List.nil_append, entriesFrom, Proc.wp_pure]

/-- A directory block whose first entry claims a name of 200 bytes. -/
def longNameBlock : XBlock :=
  setDirent Block.zero 0 { Dirent.zero with inodeId := 2, nameLen := 200, type := typeRegular }

/-- The image: a formatted volume whose root directory holds that block. -/
def hostileDevice : Device :=
  ((blankSystem smallDevice).call (k64XfsFormat smallDevice.toGeometry
    ⟨[], noNul_nil⟩)).2.machine.dev.store 82 longNameBlock

/-- The image mounts, and listing its root directory into 1000 bytes reads behind the name field. -/
theorem hostile_listing_leaves_field :
    ((blankSystem hostileDevice).call (k64XfsMount smallDevice.toGeometry)).1.isSome = true ∧
    ¬ AllInside 1000 (accesses
      ((blankSystem hostileDevice).call (k64XfsMount smallDevice.toGeometry)).2
      (k64XfsListDirT ⟨[slash], by decide⟩ 1000)) := by
  obtain ⟨hmount, hholds⟩ := tampered_mount (s := blankSystem smallDevice) longNameBlock
    ⟨[], by simp⟩ (blankSystem smallDevice).fs (by decide) (by decide) (by decide) (fun _ => rfl)
    (t := blankSystem hostileDevice) rfl
  refine ⟨hmount, fun hall => ?_⟩
  have hentries := entries_tampered (show orRoot ⟨[slash], by decide⟩ = [slash] by decide) (by decide)
    (by decide) hholds
  have hfit := (listDir_inside_iff _ _ _).mp hall
  have hfirst : (dirent longNameBlock 0) =
      { Dirent.zero with inodeId := 2, nameLen := 200, type := typeRegular } := by
    rw [longNameBlock, dirent_setDirent _ (by decide), if_pos rfl]
  have hroom := hfit [] (dirent longNameBlock 0) ((List.range' 1 24).map (dirent longNameBlock))
    hentries (by rw [hfirst]; decide) (by rw [hfirst]; decide)
  simp at hroom

end Hostile

end XfsReadBounds
