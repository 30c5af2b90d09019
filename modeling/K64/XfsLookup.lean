import K64.XfsConsistency
import Mathlib.Data.List.Find

/-! # Finding entries and resolving paths

Searching a directory and walking down a path read the volume and change nothing, so each is a
function of the content. On a consistent volume the search finds a name exactly when an entry of
the directory has it. -/
namespace XfsLookup

open IoProgram XfsFormat XfsInode XfsCalls XfsDirectory XfsVolume XfsConsistency

/-- The block loop of `xfs_dir_find` on the content. -/
def findFrom (c : Content) (dir : Inode) (name : List UInt8) : ℕ → ℕ → Option (Dirent × ℕ × ℕ)
  | _, 0 => none
  | b, n + 1 =>
    match slotNamed (c.dataOf dir b) name with
    | some s => some (dirent (c.dataOf dir b) s, b, s)
    | none => findFrom c dir name (b + 1) n

def dirFind (c : Content) (dir : Inode) (name : List UInt8) : Option (Dirent × ℕ × ℕ) :=
  if dir.type = typeDirectory then findFrom c dir name 0 (sizeBlocks dir.size) else none

/-- One component of a path. -/
def descend (c : Content) (current : UInt32 × Inode) (token : List UInt8) :
    Option (UInt32 × Inode) :=
  if token.length < 128 then
    (dirFind c current.2 token).bind fun found =>
      (c.record found.1.inodeId).map fun inode => (found.1.inodeId, inode)
  else none

/-- The inode a list of components leads to from the root. -/
def walk (c : Content) (path : List (List UInt8)) : Option (UInt32 × Inode) :=
  (c.record 1).bind fun root => path.foldlM (descend c) (1, root)

def resolve (c : Content) (path : List UInt8) : Option (UInt32 × Inode) :=
  if path.head? = some slash then walk c (tokens path) else none

abbrev vwp {α : Type} (f : XfsV α) (P : Option α → Volume → Prop) (V : Volume) : Prop :=
  Proc.wp volume volumeGuard f (fun r _ V' => P r V') () V

variable {V : Volume} {c : Content}

@[simp] theorem wp_readDataBlock {dir : Inode} {b : ℕ} {P : Option XBlock → Unit → Volume → Prop} :
    Proc.wp volume volumeGuard (readDataBlock dir b) P () V ↔
      Inode.Fits V.content.total dir ∧ P (some (V.content.dataOf dir b)) () V := by
  simp [readDataBlock, volume, volumeGuard]

@[simp] theorem wp_readInode {id : UInt32} {P : Option Inode → Unit → Volume → Prop} :
    Proc.wp volume volumeGuard (readInode id) P () V ↔ P (V.content.record id) () V := by
  simp [readInode, volume, volumeGuard]

@[simp] theorem wp_info {P : Option FsInfo → Unit → Volume → Prop} :
    Proc.wp volume volumeGuard info P () V ↔ P (some ⟨V.mounted, 1, V.generation⟩) () V := by
  simp [info, volume, volumeGuard]

@[simp] theorem wp_scratch {b : XBlock} {P : Option Unit → Unit → Volume → Prop} :
    Proc.wp volume volumeGuard (scratch b) P () V ↔ P (some ()) () V := by
  simp [scratch, volume, volumeGuard]

theorem wp_dirFindFrom {dir : Inode} (hf : Inode.Fits V.content.total dir) {name : List UInt8}
    {P : Option (Dirent × ℕ × ℕ) → Unit → Volume → Prop} : ∀ n b,
    Proc.wp volume volumeGuard (dirFindFrom dir name b n) P () V ↔
      P (findFrom V.content dir name b n) () V := by
  intro n
  induction n with
  | zero => intro b; simp [dirFindFrom, findFrom]
  | succ n ih =>
    intro b
    simp only [dirFindFrom, Proc.wp_bind, wp_readDataBlock, hf, true_and, Proc.wpNext_some,
      findFrom]
    cases slotNamed (V.content.dataOf dir b) name with
    | none => exact ih (b + 1)
    | some s => simp

theorem wp_dirFind {dir : Inode} (hf : Inode.Fits V.content.total dir) {name : List UInt8}
    {P : Option (Dirent × ℕ × ℕ) → Unit → Volume → Prop} :
    Proc.wp volume volumeGuard (xfsDirFind dir name) P () V ↔
      P (dirFind V.content dir name) () V := by
  simp only [xfsDirFind, Proc.wp_bind, Proc.wp_guard, dirFind, beq_iff_eq]
  by_cases hd : dir.type = typeDirectory
  · simp [hd, wp_dirFindFrom hf]
  · simp [hd]

theorem record_some {id : UInt32} {inode : Inode} (h : c.record id = some inode) :
    1 ≤ id.toNat ∧ id.toNat ≤ 512 ∧ inode = c.inode id.toNat ∧ inode.inodeId = id := by
  unfold Content.record at h
  split at h
  case isTrue hx =>
    obtain ⟨h0, h512, hv⟩ := hx
    have hpos : 1 ≤ id.toNat := Nat.pos_of_ne_zero fun h => h0 (UInt32.toNat_inj.mp h)
    simp only [inodeValid, Bool.and_eq_true, beq_iff_eq] at hv
    obtain rfl := Option.some.inj h
    exact ⟨hpos, h512, rfl, hv.1.2⟩
  case isFalse => cases h

theorem record_fits (h : Allocated c) {id : UInt32} {inode : Inode}
    (hr : c.record id = some inode) : Inode.Fits c.total inode := by
  obtain ⟨h1, h2, rfl, -⟩ := record_some hr
  exact h.fits _ h1 h2

theorem wp_resolveFrom (hc : Allocated V.content) {P : Option (UInt32 × Inode) → Unit → Volume → Prop}
    (path : List (List UInt8)) : ∀ current : UInt32 × Inode,
    Inode.Fits V.content.total current.2 →
    (Proc.wp volume volumeGuard (resolveFrom current path) P () V ↔
      P (path.foldlM (descend V.content) current) () V) := by
  induction path with
  | nil => intro current _; simp [resolveFrom]
  | cons token rest ih =>
    intro current hf
    simp only [resolveFrom, Proc.wp_bind, Proc.wp_guard, decide_eq_true_eq, List.foldlM_cons]
    rw [descend]
    by_cases hlen : token.length < 128
    · simp only [hlen, if_true, Proc.wpNext_some, Proc.wp_bind, wp_dirFind hf]
      cases hd : dirFind V.content current.2 token with
      | none => simp
      | some found =>
        simp only [Proc.wpNext_some, Proc.wp_bind, wp_readInode, Option.bind_some]
        cases hr : V.content.record found.1.inodeId with
        | none => simp
        | some inode => simpa using ih (found.1.inodeId, inode) (record_fits hc hr)
    · simp [hlen]

theorem wp_resolve (hc : Allocated V.content) (hm : V.mounted = true) {path : List UInt8}
    {P : Option (UInt32 × Inode) → Unit → Volume → Prop} :
    Proc.wp volume volumeGuard (xfsResolve path) P () V ↔ P (resolve V.content path) () V := by
  simp only [xfsResolve, Proc.wp_bind, wp_info, Proc.wpNext_some, Proc.wp_guard, hm, Bool.true_and,
    beq_iff_eq, resolve]
  by_cases hs : path.head? = some slash
  · simp only [hs, if_true, wp_readInode, walk]
    cases hr : V.content.record 1 with
    | none => simp
    | some root => simpa using wp_resolveFrom hc (tokens path) (1, root) (record_fits hc hr)
  · simp [hs]

theorem wp_resolve_unmounted (hm : V.mounted = false) {path : List UInt8}
    {P : Option (UInt32 × Inode) → Unit → Volume → Prop} :
    Proc.wp volume volumeGuard (xfsResolve path) P () V ↔ P none () V := by
  simp [xfsResolve, hm]

theorem findFrom_some {dir : Inode} {name : List UInt8} {e : Dirent} {b' s : ℕ} : ∀ n b,
    findFrom c dir name b n = some (e, b', s) → b' < b + n ∧ s < 25 ∧
      dirent (c.dataOf dir b') s = e ∧ direntMatches e name = true := by
  intro n
  induction n with
  | zero => intro b h; simp [findFrom] at h
  | succ n ih =>
    intro b h
    rw [findFrom] at h
    cases hs : slotNamed (c.dataOf dir b) name with
    | none =>
      rw [hs] at h
      obtain ⟨h1, h2⟩ := ih (b + 1) h
      exact ⟨by omega, h2⟩
    | some t =>
      rw [hs] at h
      simp only [Option.some.injEq, Prod.mk.injEq] at h
      obtain ⟨rfl, rfl, rfl⟩ := h
      have hm := List.find?_some (p := fun s => direntMatches (dirent (c.dataOf dir b) s) name) hs
      exact ⟨by omega, List.mem_range.mp (List.mem_of_find?_eq_some hs), rfl, hm⟩

theorem findFrom_none {dir : Inode} {name : List UInt8} : ∀ n b,
    findFrom c dir name b n = none → ∀ b', b ≤ b' → b' < b + n → ∀ s < 25,
      direntMatches (dirent (c.dataOf dir b') s) name = false := by
  intro n
  induction n with
  | zero => intro b _ b' h1 h2; omega
  | succ n ih =>
    intro b h b' h1 h2 s hs
    rw [findFrom] at h
    cases hn : slotNamed (c.dataOf dir b) name with
    | none =>
      rw [hn] at h
      by_cases hb : b' = b
      · have := List.find?_eq_none.mp hn s (List.mem_range.mpr hs)
        rw [hb]
        simpa using this
      · exact ih (b + 1) h b' (by omega) (by omega) s hs
    | some t => rw [hn] at h; cases h

theorem sizeBlocks_dir {i : Inode} (hs : InodeShape i) (hd : DirShape i) :
    sizeBlocks i.size = i.extentCount.toNat := by
  have hfew := hs.few
  have hsize := hd.size
  simp only [sizeBlocks, UInt64.toNat_div, UInt64.toNat_add, hsize]
  simp
  omega

variable {dir b s : ℕ} {e : Dirent} {name : List UInt8}

theorem dirFind_eq_some (h : Consistent c) (hu : Used c dir) (hn : (0 : UInt8) ∉ name) :
    dirFind c (c.inode dir) name = some (e, b, s) ↔ Live c dir b s e ∧ nameOf e = name := by
  have hmatch : ∀ {b s e}, Live c dir b s e → (direntMatches e name = true ↔ nameOf e = name) := by
    intro b s e hl
    obtain ⟨m, hm, he⟩ := (h.entries _ _ _ _ hl).made
    rw [he, dirent_matches hm hn hl.id, nameOf_makeDirent hm.length_lt]
  have hsound : ∀ {e b s}, dirFind c (c.inode dir) name = some (e, b, s) →
      Live c dir b s e ∧ nameOf e = name := by
    intro e b s hf
    unfold dirFind at hf
    split at hf
    case isFalse => cases hf
    case isTrue hd =>
      have hshape := h.shape dir hu
      rw [sizeBlocks_dir hshape (hshape.dir hd)] at hf
      obtain ⟨h1, h2, h3, h4⟩ := findFrom_some _ _ hf
      have hid : e.inodeId ≠ 0 := by
        intro h0
        simp [direntMatches, h0] at h4
      have hl : Live c dir b s e := ⟨hu, hd, by omega, h2, h3, hid⟩
      exact ⟨hl, (hmatch hl).mp h4⟩
  refine ⟨hsound, ?_⟩
  rintro ⟨hl, hname⟩
  cases hf : dirFind c (c.inode dir) name with
  | some found =>
    obtain ⟨e', b', s'⟩ := found
    obtain ⟨hl', hname'⟩ := hsound hf
    obtain ⟨rfl, rfl⟩ := h.names _ _ _ _ _ _ _ hl hl' (hname.trans hname'.symm)
    rw [← hl.entry, ← hl'.entry]
  | none =>
    rw [dirFind, if_pos hl.isDir] at hf
    have hshape := h.shape dir hu
    rw [sizeBlocks_dir hshape (hshape.dir hl.isDir)] at hf
    have hno := findFrom_none _ _ hf b (Nat.zero_le b) (by have := hl.block; omega) s hl.slot
    rw [hl.entry, Bool.eq_false_iff] at hno
    exact absurd ((hmatch hl).mpr hname) hno

theorem dirFind_eq_none (h : Consistent c) (hu : Used c dir) (hn : (0 : UInt8) ∉ name) :
    dirFind c (c.inode dir) name = none ↔ ∀ b s e, Live c dir b s e → nameOf e ≠ name := by
  constructor
  · intro hf b s e hl hname
    rw [(dirFind_eq_some h hu hn).mpr ⟨hl, hname⟩] at hf
    cases hf
  · intro hno
    cases hf : dirFind c (c.inode dir) name with
    | none => rfl
    | some found =>
      obtain ⟨hl, hname⟩ := (dirFind_eq_some h hu hn).mp hf
      exact absurd hname (hno _ _ _ hl)

theorem record_used (h : Allocated c) {i : UInt32} (hu : Used c i.toNat) :
    c.record i = some (c.inode i.toNat) := by
  have hv := h.valid _ hu
  rw [UInt32.ofNat_toNat] at hv
  have h0 : i ≠ 0 := by
    rintro rfl
    exact absurd hu.pos (by decide)
  rw [Content.record, if_pos ⟨h0, hu.le, hv⟩]

/-- The inode a name of a directory stands for. -/
def childOf (c : Content) (dir : ℕ) (name : List UInt8) : Option ℕ :=
  (dirFind c (c.inode dir) name).map fun found => found.1.inodeId.toNat

/-- Where a list of names leads to from the root. -/
def locate (c : Content) (path : List (List UInt8)) : Option ℕ := path.foldlM (childOf c) 1

section Entries

variable (h : Consistent c) (hu : Used c dir) (hn : (0 : UInt8) ∉ name)

include h hu hn

theorem childOf_eq_some {id : ℕ} :
    childOf c dir name = some id ↔
      ∃ b s e, Live c dir b s e ∧ nameOf e = name ∧ e.inodeId.toNat = id := by
  simp only [childOf, Option.map_eq_some_iff]
  constructor
  · rintro ⟨⟨e, b, s⟩, hf, rfl⟩
    obtain ⟨hl, hname⟩ := (dirFind_eq_some h hu hn).mp hf
    exact ⟨b, s, e, hl, hname, rfl⟩
  · rintro ⟨b, s, e, hl, hname, rfl⟩
    exact ⟨(e, b, s), (dirFind_eq_some h hu hn).mpr ⟨hl, hname⟩, rfl⟩

theorem childOf_used {id : ℕ} (hc : childOf c dir name = some id) : Used c id ∧ id ≠ 1 := by
  obtain ⟨b, s, e, hl, -, rfl⟩ := (childOf_eq_some h hu hn).mp hc
  exact ⟨(h.entries _ _ _ _ hl).used, (h.entries _ _ _ _ hl).notRoot⟩

theorem childOf_length {id : ℕ} (hc : childOf c dir name = some id) : name.length < 128 := by
  obtain ⟨b, s, e, hl, rfl, -⟩ := (childOf_eq_some h hu hn).mp hc
  obtain ⟨m, hm, he⟩ := (h.entries _ _ _ _ hl).made
  rw [he, nameOf_makeDirent hm.length_lt]
  exact hm.length_lt

theorem descend_eq (id : UInt32) :
    descend c (id, c.inode dir) name =
      (childOf c dir name).map fun k => (UInt32.ofNat k, c.inode k) := by
  unfold descend
  cases hf : dirFind c (c.inode dir) name with
  | none => simp [childOf, hf]
  | some found =>
    have hchild : childOf c dir name = some found.1.inodeId.toNat := by rw [childOf, hf]; rfl
    obtain ⟨hused, -⟩ := childOf_used h hu hn hchild
    rw [hchild, if_pos (childOf_length h hu hn hchild), Option.bind_some,
      record_used h.toAllocated hused]
    simp

end Entries

theorem foldlM_descend (h : Consistent c) (path : List (List UInt8)) :
    (∀ name ∈ path, (0 : UInt8) ∉ name) → ∀ dir, Used c dir →
    path.foldlM (descend c) (UInt32.ofNat dir, c.inode dir) =
      (path.foldlM (childOf c) dir).map fun k => (UInt32.ofNat k, c.inode k) := by
  induction path with
  | nil => intro _ dir _; rfl
  | cons name rest ih =>
    intro hn dir hu
    have hname := hn name (List.mem_cons_self ..)
    rw [List.foldlM_cons, List.foldlM_cons, descend_eq h hu hname]
    cases hc : childOf c dir name with
    | none => rfl
    | some k =>
      exact ih (fun m hm => hn m (List.mem_cons_of_mem _ hm)) k (childOf_used h hu hname hc).1

theorem walk_eq (h : Consistent c) {path : List (List UInt8)}
    (hn : ∀ name ∈ path, (0 : UInt8) ∉ name) :
    walk c path = (locate c path).map fun k => (UInt32.ofNat k, c.inode k) := by
  have hroot : c.record 1 = some (c.inode 1) := record_used h.toAllocated (i := 1) h.rootInUse
  rw [walk, hroot, locate]
  exact foldlM_descend h path hn 1 h.rootInUse

theorem locate_used (h : Consistent c) {path : List (List UInt8)}
    (hn : ∀ name ∈ path, (0 : UInt8) ∉ name) {id : ℕ} (hl : locate c path = some id) :
    Used c id := by
  have hgen : ∀ (path : List (List UInt8)) dir, (∀ name ∈ path, (0 : UInt8) ∉ name) → Used c dir →
      path.foldlM (childOf c) dir = some id → Used c id := by
    intro path
    induction path with
    | nil => intro dir _ hu hl; cases hl; exact hu
    | cons name rest ih =>
      intro dir hn hu hl
      rw [List.foldlM_cons] at hl
      obtain ⟨k, hk, hrest⟩ := Option.bind_eq_some_iff.mp hl
      exact ih k (fun m hm => hn m (List.mem_cons_of_mem _ hm))
        (childOf_used h hu (hn name (List.mem_cons_self ..)) hk).1 hrest
  exact hgen path 1 hn h.rootInUse hl

end XfsLookup
