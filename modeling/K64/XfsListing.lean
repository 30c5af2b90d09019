import K64.XfsLookup

/-! # Listing a directory

`k64_xfs_list_dir` writes one line for every entry, in the order of blocks and slots, and cuts the
text where the buffer ends. -/
namespace XfsListing

open IoProgram XfsFormat XfsInode XfsDirectory XfsOperations XfsVolume XfsConsistency XfsLookup

variable {V : Volume} {c : Content}

/-- The block loop of `k64_xfs_list_dir` on the content. -/
def listBytes (c : Content) (dir : Inode) (outSize : ℤ) : ℕ → ℕ → List UInt8 → List UInt8
  | _, 0, out => out
  | b, n + 1, out => listBytes c dir outSize (b + 1) n
      ((List.range 25).foldl (fun o s => listEntry outSize o (dirent (c.dataOf dir b) s)) out)

variable {outSize : ℤ}

theorem wp_listFrom {dir : Inode} (hf : Inode.Fits V.content.total dir)
    {P : Option (List UInt8) → Unit → Volume → Prop} : ∀ n b out,
    Proc.wp volume volumeGuard (listFrom dir outSize b n out) P () V ↔
      P (some (listBytes V.content dir outSize b n out)) () V := by
  intro n
  induction n with
  | zero => exact fun _ _ => Iff.rfl
  | succ n ih =>
    intro b out
    rw [listFrom, Proc.wp_bind, wp_readDataBlock, Proc.wpNext_some, ih]
    exact and_iff_right hf

def dirListing (c : Content) (path : CString) (outSize : ℤ) : Option (List UInt8) :=
  if 0 < outSize then
    (resolve c (orRoot path)).bind fun (_, dir) =>
      if dir.type = typeDirectory then
        some (listBytes c dir outSize 0 (sizeBlocks dir.size) [])
      else none
  else none

theorem wp_listDir (hc : Allocated V.content) (hm : V.mounted = true) {path : CString}
    {P : Option (List UInt8) → Unit → Volume → Prop}
    (hfit : ∀ id inode, resolve V.content (orRoot path) = some (id, inode) →
      Inode.Fits V.content.total inode) :
    Proc.wp volume volumeGuard (k64XfsListDir path outSize) P () V ↔
      P (dirListing V.content path outSize) () V := by
  rw [k64XfsListDir, Proc.wp_bind, Proc.wp_guard, dirListing]
  by_cases ho : 0 < outSize
  case neg => rw [if_neg (by simpa using ho), if_neg ho, Proc.wpNext_none]
  rw [if_pos (by simpa using ho), if_pos ho, Proc.wpNext_some, Proc.wp_bind, wp_resolve hc hm]
  cases hres : resolve V.content (orRoot path) with
  | none => rfl
  | some target =>
    obtain ⟨id, dir⟩ := target
    rw [Proc.wpNext_some, Proc.wp_bind, Proc.wp_guard, Option.bind_some]
    dsimp only
    by_cases hd : dir.type = typeDirectory
    · rw [if_pos (by simpa using hd), if_pos hd, Proc.wpNext_some, wp_listFrom (hfit id dir hres)]
    · rw [if_neg (by simpa using hd), if_neg hd, Proc.wpNext_none]

def line (e : Dirent) : List UInt8 :=
  nameOf e ++ (if e.type = typeDirectory then [slash] else []) ++ [10]

def blockEntries (b : XBlock) : List Dirent :=
  ((List.range 25).map (dirent b)).filter fun e => e.inodeId != 0

/-- The entries of the `n` blocks from `b` on. -/
def entriesFrom (c : Content) (dir : Inode) (b n : ℕ) : List Dirent :=
  (List.range' b n).flatMap fun k => blockEntries (c.dataOf dir k)

theorem foldl_push (outSize : ℤ) (bytes : List UInt8) : ∀ out : List UInt8,
    ((out ++ bytes).length : ℤ) + 1 < outSize →
    bytes.foldl (fun o c => if (o.length : ℤ) + 2 < outSize then o ++ [c] else o) out =
      out ++ bytes := by
  induction bytes with
  | nil => intro out _; simp
  | cons x rest ih =>
    intro out h
    have hlen : ((out ++ x :: rest).length : ℤ) = out.length + 1 + rest.length := by
      simp
      omega
    rw [List.foldl_cons, if_pos (by omega), ih (out ++ [x]) (by simp at h ⊢; omega)]
    simp

theorem listEntry_line {out : List UInt8} {e : Dirent} (he : e.inodeId ≠ 0)
    (h : ((out ++ line e).length : ℤ) < outSize) : listEntry outSize out e = out ++ line e := by
  have hlen : ((out ++ line e).length : ℤ) = (out ++ nameOf e).length +
      (if e.type = typeDirectory then [slash] else []).length + 1 := by
    simp [line]
    omega
  have hname : (e.name.toList.take e.nameLen.toNat).foldl
      (fun o c => if (o.length : ℤ) + 2 < outSize then o ++ [c] else o) out = out ++ nameOf e :=
    foldl_push outSize (nameOf e) out (by omega)
  simp only [listEntry, if_neg he, hname]
  by_cases ht : e.type = typeDirectory
  · simp only [if_pos ht, List.length_singleton] at hlen
    have hslash : ((out ++ nameOf e).length : ℤ) + 2 < outSize := by omega
    have hnewline : ((out ++ nameOf e ++ [slash]).length : ℤ) + 1 < outSize := by
      rw [List.length_append, List.length_singleton]
      omega
    rw [if_pos (And.intro ht hslash), if_pos hnewline, line, if_pos ht]
    simp only [List.append_assoc]
  · simp only [if_neg ht, List.length_nil] at hlen
    have hnewline : ((out ++ nameOf e).length : ℤ) + 1 < outSize := by omega
    simp only [ht, false_and, if_false, if_pos hnewline, line, List.append_nil, List.append_assoc]

theorem foldl_lines {b : XBlock} (slots : List ℕ) : ∀ out : List UInt8,
    ((out ++ ((slots.map (dirent b)).filter fun e => e.inodeId != 0).flatMap line).length : ℤ) <
      outSize →
    slots.foldl (fun o s => listEntry outSize o (dirent b s)) out =
      out ++ ((slots.map (dirent b)).filter fun e => e.inodeId != 0).flatMap line := by
  induction slots with
  | nil => intro out _; simp
  | cons s rest ih =>
    intro out h
    rw [List.foldl_cons]
    by_cases he : (dirent b s).inodeId = 0
    · have hskip : listEntry outSize out (dirent b s) = out := by
        unfold listEntry
        rw [if_pos he]
      rw [hskip, List.map_cons, List.filter_cons_of_neg (by simpa using he)] at *
      exact ih out h
    · rw [List.map_cons, List.filter_cons_of_pos (by simpa using he), List.flatMap_cons,
        ← List.append_assoc] at h ⊢
      have hone : ((out ++ line (dirent b s)).length : ℤ) < outSize := by
        rw [List.length_append] at h
        omega
      rw [listEntry_line he hone]
      exact ih _ h

theorem listBytes_lines {dir : Inode} : ∀ n b (out : List UInt8),
    ((out ++ (entriesFrom c dir b n).flatMap line).length : ℤ) < outSize →
    listBytes c dir outSize b n out = out ++ (entriesFrom c dir b n).flatMap line := by
  intro n
  induction n with
  | zero => intro b out _; simp [listBytes, entriesFrom]
  | succ n ih =>
    intro b out h
    have hsplit : (entriesFrom c dir b (n + 1)).flatMap line =
        (blockEntries (c.dataOf dir b)).flatMap line ++ (entriesFrom c dir (b + 1) n).flatMap line := by
      rw [entriesFrom, List.range'_succ, List.flatMap_cons, List.flatMap_append]
      rfl
    rw [hsplit, ← List.append_assoc] at h ⊢
    have hone : ((out ++ (blockEntries (c.dataOf dir b)).flatMap line).length : ℤ) < outSize := by
      rw [List.length_append] at h
      omega
    rw [listBytes, foldl_lines _ _ hone]
    exact ih (b + 1) _ h

end XfsListing
