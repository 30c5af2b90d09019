import K64.FsNormalForms
import K64.FsTruncation
import K64.XfsTransactions

/-! # Ranges of a file

The calls of `k64_fs.c` that read and write a part of a file. Each reads the whole file into a buffer
of 16 MiB and writes the whole buffer back; what a caller sees is an array of bytes. -/
namespace FsRanges

open ByteCodec IoProgram XfsFormat XfsCache XfsJournal XfsInode XfsCalls XfsDirectory XfsOperations
  XfsVolume XfsConsistency XfsLookup XfsPaths XfsDirectoryUpdate XfsContentChanges
  XfsOperationEffects XfsEffectsConsistent XfsRenameEffect XfsResolving XfsMounting XfsFormatting
  XfsSystem XfsRuns XfsFileMap XfsSmallVolume XfsFailures FsDirectoryIteration FsTruncation
open XfsRenaming (resolve_locate)
open XfsTransactions (Closed closed_of_steady holds_inactive small_closed written_settled settles_ready)
open FsPaths (dot dots fsNormalize fsNormalize_some fsNormalize_entries fsNormalize_text Rooted
  CurrentDir CanonicalName canonicalText bufferEntries bufferStep popEntries pathText roomFor
  tokens_canonicalText pathText_canonical fsNormalize_canonical head_canonicalText)
open Klcs (entriesText)
open FileTree (rawMax isPseudoPath pseudoFiles nullPath)

variable {c c' : Content} {total : ℕ} {s t u w : System} {V : Volume} {label : CString}

def versionText : List UInt8 := "K64 0.3\n".toUTF8.toList

def servicesText : List UInt8 := ("kernel running ring0\nfs running ring3-gated\n" ++
  "proc running ring3-gated\nio running ring3-gated\nterm running ring3-gated\n").toUTF8.toList

def fsPseudoReadAll (path : List UInt8) : Option (List UInt8) :=
  if pseudoFiles[0]? = some path then some versionText
  else if pseudoFiles[1]? = some path then some servicesText
  else if path = nullPath then some []
  else none

/-- Whether `k64_xfs_write_file` succeeds, and what it leaves. -/
def xfsWrite (u : System) (full : CString) (data : List UInt8) (uid gid : UInt32) : Bool × System :=
  let wrote := u.call (lowered (k64XfsWriteFile full data uid gid))
  (wrote.1.isSome, wrote.2)

def k64FsWriteFileRaw (u : System) (cwd path : CString) (data : List UInt8) : Bool × System :=
  match fsNormalize cwd.bytes path.bytes 256 with
  | none => (false, u)
  | some full =>
    if full = nullPath then (true, u)
    else if isPseudoPath full then (false, u)
    else xfsWrite u (terminated full) data 0 0

/-- The bytes of the file, when `k64_xfs_read_file` has all of them. -/
def wholeFile (u : System) (full : CString) (st : FsStat) : Option (List UInt8) × System :=
  let read := u.call (lowered (k64XfsReadFile full st.size.toNat))
  (read.1.filter fun bytes => bytes.length = st.size.toNat, read.2)

/-- `data` copied into a buffer at `offset`. -/
def copiedAt (buffer : List UInt8) (offset : ℕ) (data : List UInt8) : List UInt8 :=
  buffer.take offset ++ data ++ buffer.drop (offset + data.length)

/-- `k64_fs_write_file_range`; an empty file is not read. -/
def k64FsWriteFileRange (u : System) (cwd path : CString) (offset : UInt64) (data : List UInt8) :
    Bool × System :=
  match fsNormalize cwd.bytes path.bytes 256 with
  | none => (false, u)
  | some full =>
    let stat := u.call (lowered (k64XfsStat (terminated full)))
    match stat.1 with
    | none => if offset = 0 then xfsWrite stat.2 (terminated full) data 0 0 else (false, stat.2)
    | some st =>
      let newSize := max st.size.toNat (offset.toNat + data.length)
      if st.isDir ∨ rawMax < st.size.toNat ∨ rawMax < offset.toNat ∨ rawMax < data.length ∨
          2 ^ 64 ≤ offset.toNat + data.length ∨ rawMax < newSize then (false, stat.2)
      else
        let read := if st.size = 0 then (some [], stat.2) else wholeFile stat.2 (terminated full) st
        match read.1 with
        | none => (false, read.2)
        | some old =>
          xfsWrite read.2 (terminated full)
            (copiedAt (old ++ List.replicate (newSize - old.length) 0) offset.toNat data) st.uid st.gid

/-- `k64_fs_append_file`; the path is normalised once more in the call that writes. -/
def k64FsAppendFile (u : System) (cwd path : CString) (text : CString) : Bool × System :=
  match fsNormalize cwd.bytes path.bytes 256 with
  | none => (false, u)
  | some full =>
    let stat := u.call (lowered (k64XfsStat (terminated full)))
    match stat.1 with
    | none => k64FsWriteFileRaw stat.2 cwd path text.bytes
    | some st => k64FsWriteFileRange stat.2 cwd (terminated full) st.size text.bytes

/-- `k64_fs_read_file_range`: whether it succeeds, and what it has read. -/
def k64FsReadFileRange (u : System) (cwd path : CString) (offset size : ℕ) :
    (Bool × List UInt8) × System :=
  match fsNormalize cwd.bytes path.bytes 256 with
  | none => ((false, []), u)
  | some full =>
    match fsPseudoReadAll full with
    | some bytes => ((true, (bytes.drop offset).take size), u)
    | none =>
      let stat := u.call (lowered (k64XfsStat (terminated full)))
      match stat.1 with
      | none => ((false, []), stat.2)
      | some st =>
        if st.isDir ∨ rawMax < st.size.toNat then ((false, []), stat.2)
        else
          let read := wholeFile stat.2 (terminated full) st
          match read.1 with
          | none => ((false, []), read.2)
          | some bytes => ((true, (bytes.drop offset).take size), read.2)

theorem read_range_at_most (u : System) (cwd path : CString) (offset size : ℕ) :
    (k64FsReadFileRange u cwd path offset size).1.2.length ≤ size := by
  unfold k64FsReadFileRange
  dsimp only
  repeat' split
  all_goals first | exact Nat.zero_le size | exact List.length_take_le ..

inductive RangeCall where
  | write (offset : UInt64) (data : Buffer)
  | append (text : CString)
  | truncate (size : ℕ)
  | read (offset size : ℕ)

abbrev Answer := Bool × List UInt8

def RangeCall.run (u : System) (cwd path : CString) : RangeCall → Answer × System
  | .write offset data =>
    let r := k64FsWriteFileRange u cwd path offset data.bytes
    ((r.1, []), r.2)
  | .append text =>
    let r := k64FsAppendFile u cwd path text
    ((r.1, []), r.2)
  | .truncate size =>
    let r := k64FsTruncate u cwd path size
    ((r.1, []), r.2)
  | .read offset size => k64FsReadFileRange u cwd path offset size

abbrev Bytes := List UInt8

/-- `data` at `offset`, zeros in a gap before it, and the old bytes elsewhere. -/
def placed (old : Bytes) (offset : ℕ) (data : Bytes) : Bytes :=
  (List.range (max old.length (offset + data.length))).map fun i =>
    if offset ≤ i ∧ i < offset + data.length then data.getD (i - offset) 0 else old.getD i 0

def RangeCall.result (old : Bytes) : RangeCall → Bytes
  | .write offset data => placed old offset.toNat data.bytes
  | .append text => old ++ text.bytes
  | .truncate size => resized old size
  | .read _ _ => old

/-- The length the array would have; an offset and a size that wrap are beyond every limit. -/
def RangeCall.newLength (old : Bytes) : RangeCall → ℕ
  | .write offset data => max old.length (offset.toNat + data.bytes.length)
  | .append text => old.length + text.bytes.length
  | .truncate size => size
  | .read _ _ => 0

/-- The length of the file that the call makes at a path that leads nowhere. -/
def RangeCall.created : RangeCall → Option ℕ
  | .write offset data => if offset = 0 then some data.bytes.length else none
  | .append text => some text.bytes.length
  | _ => none

/-- The answer `r` and the array `after` are those of the array `before`; `none` is no file. -/
structure Refines (before : Option Bytes) (call : RangeCall) (r : Answer) (after : Option Bytes) :
    Prop where
  kept : r.1 = false → after = before
  done : r.1 = true → after = some (call.result (before.getD []))
  limit : rawMax < call.newLength (before.getD []) → r.1 = false
  read : ∀ offset size d, call = .read offset size → before = some d →
    r = (true, (d.drop offset).take size)

/-- A sequence of calls and answers takes the array from `a` to `b`. -/
def Follows : Option Bytes → List (RangeCall × Answer) → Option Bytes → Prop
  | a, [], b => a = b
  | a, (call, r) :: rest, b => ∃ a', Refines a call r a' ∧ Follows a' rest b

def fileAt (u : System) (full : CString) : Option Bytes :=
  (u.call (lowered (k64XfsStat full))).1.bind fun st =>
    if st.isDir then none else fileRead u full st.size.toNat

def fileOf (u : System) (cwd path : CString) : Option Bytes :=
  (fsNormalize cwd.bytes path.bytes 256).bind fun full => fileAt u (terminated full)

theorem copiedAt_placed (old : Bytes) (offset : ℕ) (data : Bytes) :
    copiedAt (old ++ List.replicate (max old.length (offset + data.length) - old.length) 0) offset
      data = placed old offset data := by
  set buffer := old ++ List.replicate (max old.length (offset + data.length) - old.length) 0
    with hbuffer
  have hlen : buffer.length = max old.length (offset + data.length) := by
    rw [hbuffer, List.length_append, List.length_replicate]
    omega
  have hget : ∀ i < buffer.length, buffer.getD i 0 = old.getD i 0 := by
    intro i hi
    rw [hbuffer]
    by_cases hold : i < old.length
    · rw [List.getD_append _ _ _ _ hold]
    · rw [List.getD_append_right _ _ _ _ (by omega), List.getD_replicate _ (by omega),
        List.getD_eq_default _ _ (by omega)]
  have htake : (buffer.take offset).length = offset := by
    rw [List.length_take]
    omega
  refine List.ext_getElem ?_ fun i h1 h2 => ?_
  · rw [copiedAt, placed, List.length_append, List.length_append, htake, List.length_drop,
      List.length_map, List.length_range]
    omega
  · have hi : i < buffer.length := by
      rw [placed, List.length_map, List.length_range] at h2
      omega
    simp only [placed, List.getElem_map, List.getElem_range]
    by_cases hbefore : i < offset
    · rw [if_neg (by omega), ← hget i hi]
      simp only [copiedAt, List.append_assoc]
      rw [List.getElem_append_left (by omega), List.getElem_take, List.getD_eq_getElem _ _ hi]
    · by_cases hin : i < offset + data.length
      · rw [if_pos ⟨by omega, hin⟩, List.getD_eq_getElem _ _ (by omega)]
        simp only [copiedAt]
        rw [List.getElem_append_left (by rw [List.length_append, htake]; exact hin),
          List.getElem_append_right (by omega)]
        simp only [htake]
      · rw [if_neg (by omega), ← hget i hi, List.getD_eq_getElem _ _ hi]
        simp only [copiedAt]
        rw [List.getElem_append_right (by rw [List.length_append, htake]; omega), List.getElem_drop]
        simp only [List.length_append, htake]
        congr 1
        omega

theorem length_placed (old : Bytes) (offset : ℕ) (data : Bytes) :
    (placed old offset data).length = max old.length (offset + data.length) := by
  rw [placed, List.length_map, List.length_range]

theorem placed_append (old data : Bytes) : placed old old.length data = old ++ data := by
  rw [← copiedAt_placed, copiedAt, Nat.max_eq_right (by omega), Nat.add_sub_cancel_left,
    List.take_left' rfl, List.drop_eq_nil_of_le (by rw [List.length_append, List.length_replicate]),
    List.append_nil]

theorem placed_nil (data : Bytes) : placed [] 0 data = data := placed_append [] data

variable {inode : Inode}

theorem bytesFrom_prefix {max : ℕ} {out bytes : Bytes}
    (h : bytesFrom c inode max out = some bytes) : out <+: bytes := by
  fun_induction bytesFrom c inode max out with
  | case1 out hlt hb ih => exact (List.prefix_append _ _).trans (ih h)
  | case2 => cases h
  | case3 => exact Option.some.inj h ▸ List.prefix_refl _

theorem read_take (b : XBlock) (off : ℕ) {m n : ℕ} (h : m ≤ n) :
    b.read off m = (b.read off n).take m := by
  rw [Block.read, Block.read, ← List.map_take, List.take_range, Nat.min_eq_left h]

theorem bytesFrom_take {max M : ℕ} {d : Bytes} (hM : max ≤ M) {out : Bytes}
    (hout : out.length ≤ max) (h : bytesFrom c inode M out = some d) :
    bytesFrom c inode max out = some (d.take max) := by
  have hstop : ∀ out' : Bytes, out'.length = max → out' <+: d →
      bytesFrom c inode max out' = some (d.take max) := by
    intro out' hlen hpre
    rw [bytesFrom, dif_neg (by omega), ← hlen, ← List.prefix_iff_eq_take.mp hpre]
  fun_induction bytesFrom c inode M out with
  | case1 out hlt hb ih =>
    have hpre := bytesFrom_prefix h
    by_cases hmax : out.length < max
    · rw [bytesFrom, dif_pos ⟨hlt.1, hmax⟩, if_pos hb]
      by_cases hsame : min (4096 - out.length % 4096)
          (min (inode.size.toNat - out.length) (max - out.length)) =
          min (4096 - out.length % 4096) (min (inode.size.toNat - out.length) (M - out.length))
      · rw [hsame]
        refine ih ?_ h
        rw [List.length_append, Block.length_read]
        omega
      · refine hstop _ ?_ ?_
        · rw [List.length_append, Block.length_read]
          omega
        · refine List.IsPrefix.trans ?_ hpre
          rw [read_take _ _ (show _ ≤ min (4096 - out.length % 4096)
            (min (inode.size.toNat - out.length) (M - out.length)) by omega)]
          exact (List.prefix_append_right_inj out).mpr (List.take_prefix _ _)
    · exact hstop out (by omega) ((List.prefix_append _ _).trans hpre)
  | case2 => cases h
  | case3 out hlt =>
    obtain rfl := Option.some.inj h
    rw [bytesFrom, dif_neg (by omega), List.take_of_length_le hout]

theorem bytesFrom_isSome (hsize : inode.size.toNat ≤ rawMax) (max : ℕ)
    (out : Bytes) : (bytesFrom c inode max out).isSome = true := by
  have hblocks : sizeBlocks inode.size = _ :=
    sizeBlocks_of_length rfl (Nat.lt_of_le_of_lt hsize (by decide))
  fun_induction bytesFrom c inode max out with
  | case1 out hlt hb ih => exact ih
  | case2 out hlt hb =>
    rw [hblocks] at hb
    omega
  | case3 => rfl

def bytesAt (c : Content) (full : CString) : Option Bytes :=
  (resolve c (orRoot full)).bind fun (_, inode) =>
    if inode.type = typeDirectory then none else fileBytes c full.bytes inode.size.toNat

inductive NodeAt (c : Content) (full : CString) : Prop
  | missing (stat : resolve c (orRoot full) = none) (target : resolve c full.bytes = none)
  | directory (id : UInt32) (inode : Inode) (stat : resolve c (orRoot full) = some (id, inode))
    (type : inode.type = typeDirectory)
  | file (id : UInt32) (inode : Inode) (path : orRoot full = full.bytes)
    (target : resolve c full.bytes = some (id, inode)) (type : inode.type = typeRegular)

theorem nodeAt (h : Consistent c) (full : CString) : NodeAt c full := by
  by_cases hnil : full.bytes = []
  · have hroot : orRoot full = [slash] := if_pos hnil
    exact .directory 1 (c.inode 1) (by rw [hroot, resolve_root h]) h.rootDir
  · have hpath : orRoot full = full.bytes := if_neg hnil
    cases hres : resolve c full.bytes with
    | none => exact .missing (hpath ▸ hres) hres
    | some found =>
      obtain ⟨id, inode⟩ := found
      obtain ⟨hu, rfl, -, -⟩ := resolve_used h full.noNul hres
      rcases (h.shape _ hu).kind with ht | ht
      · exact .file id _ hpath hres ht
      · exact .directory id _ (by rw [hpath, hres]) ht

theorem regular_not_dir (ht : inode.type = typeRegular) :
    inode.type ≠ typeDirectory := by
  rw [ht]
  decide

variable {id : UInt32}

section Resolved

variable {full : CString} (hpath : orRoot full = full.bytes)
  (hres : resolve c full.bytes = some (id, inode)) (ht : inode.type = typeRegular)

include hpath hres ht

theorem bytesAt_file : bytesAt c full = bytesFrom c inode inode.size.toNat [] := by
  rw [bytesAt, hpath, hres, Option.bind_some]
  dsimp only
  rw [if_neg (regular_not_dir ht), fileBytes, hres, Option.bind_some]
  dsimp only
  rw [if_pos ht]

theorem file_bytes (hsize : inode.size.toNat ≤ rawMax) :
    ∃ d, bytesAt c full = some d ∧ d.length = inode.size.toNat ∧
      ∀ max ≤ inode.size.toNat, fileBytes c full.bytes max = some (d.take max) := by
  obtain ⟨d, hd⟩ := Option.isSome_iff_exists.mp (bytesFrom_isSome (c := c) hsize inode.size.toNat [])
  obtain ⟨hle, hend⟩ := bytesFrom_ends (Nat.zero_le _) hd
  refine ⟨d, (bytesAt_file hpath hres ht).trans hd, by omega, fun max hmax => ?_⟩
  rw [fileBytes, hres, Option.bind_some]
  dsimp only
  rw [if_pos ht, bytesFrom_take hmax (Nat.zero_le _) hd]

theorem bytesAt_length {d : Bytes} (hd : bytesAt c full = some d) :
    d.length = inode.size.toNat := by
  rw [bytesAt_file hpath hres ht] at hd
  obtain ⟨hle, hend⟩ := bytesFrom_ends (Nat.zero_le _) hd
  omega

end Resolved

theorem bytesAt_wrote {full : CString} {data : Bytes} (h : WroteFile c c' full.bytes data)
    (hlen : data.length < 2 ^ 63) : bytesAt c' full = some data := by
  obtain ⟨id, hres, ht, hsize, hbytes⟩ := h.target
  have hpath : orRoot full = full.bytes := if_neg fun hnil => by
    have hhead := resolve_head hres
    rw [hnil] at hhead
    cases hhead
  have hn : (c'.inode id.toNat).size.toNat = data.length := by
    rw [hsize]
    exact UInt64.toNat_ofNat'.trans (Nat.mod_eq_of_lt (by omega))
  rw [bytesAt_file hpath hres ht, hbytes, hn, List.take_length]

theorem keeps_same (h : Consistent c) (hs : Same c c') : Keeps (fun _ => False) c c' where
  total := hs.total
  used id _ := by
    constructor
    · exact fun hu => ⟨hu.pos, hu.le, by rw [← hs.inodeUsed]; exact hu.bit⟩
    · exact fun hu => ⟨hu.pos, hu.le, by rw [hs.inodeUsed]; exact hu.bit⟩
  inode id _ hu := hs.inode id hu
  data id _ hu b := by
    have hsmall := h.small
    unfold Content.dataOf
    cases hl : Inode.lookup (c.inode id) b with
    | none => rfl
    | some n =>
      exact hs.data n (h.marked id hu n (lookup_mem_blocks (h.fits id hu.pos hu.le) (by omega) hl))

theorem bytesAt_same (h : Consistent c) (h' : Consistent c') (hs : Same c c') (full : CString) :
    bytesAt c' full = bytesAt c full := by
  have hk := keeps_same h hs
  have hchild : ∀ {dir : ℕ} {name : List UInt8}, Used c dir → (0 : UInt8) ∉ name →
      childOf c' dir name = childOf c dir name := fun hu h0 => childOf_keeps h h' hk id hu h0
  have hresolve : ∀ path : List UInt8, (0 : UInt8) ∉ path → resolve c' path = resolve c path := by
    intro path h0
    cases hres : resolve c path with
    | some found =>
      obtain ⟨id, inode⟩ := found
      obtain ⟨hu, rfl, -, -⟩ := resolve_used h h0 hres
      rw [resolve_mono h h' (fun dir name id hu h0 hc => (hchild hu h0).trans hc) h0 hres,
        hs.inode _ hu]
    | none =>
      by_contra hne
      obtain ⟨⟨id, inode⟩, hres'⟩ := Option.ne_none_iff_exists'.mp hne
      have hback := resolve_mono h' h (fun dir name id hu h0 hc =>
        (hchild ((hk.used dir not_false).mp hu) h0).symm.trans hc) h0 hres'
      rw [hres] at hback
      cases hback
  have hread : ∀ max, fileBytes c' full.bytes max = fileBytes c full.bytes max := by
    intro max
    rw [fileBytes, fileBytes, hresolve _ full.noNul]
    cases hres : resolve c full.bytes with
    | none => rfl
    | some found =>
      obtain ⟨id, inode⟩ := found
      obtain ⟨hu, rfl, -, -⟩ := resolve_used h full.noNul hres
      rw [Option.bind_some, Option.bind_some]
      exact if_congr Iff.rfl (bytesFrom_congr (hk.data _ not_false hu) max []) rfl
  rw [bytesAt, bytesAt, hresolve _ (noNul_orRoot full)]
  simp only [hread]

theorem tokens_entriesText (entries : List Bytes) (hslash : ∀ e ∈ entries, slash ∉ e) :
    tokens (entriesText entries) = entries.filter (· ≠ []) := by
  induction entries with
  | nil => rfl
  | cons e es ih =>
    have hword : tokens e = [e].filter (· ≠ []) := by
      by_cases hne : e = []
      · rw [hne]
        rfl
      · rw [tokens_word (hslash e List.mem_cons_self) hne]
        simp [hne]
    have hnext : tokens (e ++ entriesText es) = tokens e ++ tokens (entriesText es) := by
      cases es with
      | nil => simp [entriesText]
      | cons f fs =>
        have htext : entriesText (f :: fs) = slash :: (f ++ entriesText fs) := rfl
        rw [htext, tokens_slash, ← List.nil_append (slash :: (f ++ entriesText fs)), tokens_slash]
        rfl
    have htext : entriesText (e :: es) = [] ++ slash :: (e ++ entriesText es) := rfl
    rw [htext, tokens_slash, hnext, hword, ih fun f hf => hslash f (List.mem_cons_of_mem _ hf),
      tokens_nil, List.nil_append, ← List.filter_append, List.singleton_append]

theorem mem_bufferEntries {e : Bytes} (components : List Bytes) : e ∈ bufferEntries components →
    e = [] ∨ e ∈ components ∧ e ≠ [dot] ∧ e ≠ dots := by
  induction components using List.reverseRecOn with
  | nil => exact fun h => absurd h List.not_mem_nil
  | append_singleton components c ih =>
    intro h
    have hold : e ∈ bufferEntries components →
        e = [] ∨ e ∈ components ++ [c] ∧ e ≠ [dot] ∧ e ≠ dots :=
      fun he => (ih he).imp_right (And.imp_left (List.mem_append_left _))
    rw [bufferEntries, List.foldl_concat, ← bufferEntries, bufferStep] at h
    split_ifs at h with hdot hdots
    · exact hold h
    · simp only [popEntries] at h
      split_ifs at h
      · exact absurd h List.not_mem_nil
      · rcases List.mem_append.mp h with h | h
        · exact hold (List.dropLast_subset _ (List.dropLast_subset _ h))
        · exact Or.inl (List.mem_singleton.mp h)
      · exact absurd h List.not_mem_nil
      · rcases List.mem_append.mp h with h | h
        · exact hold (List.dropLast_subset _ h)
        · exact Or.inl (List.mem_singleton.mp h)
    · rcases List.mem_append.mp h with h | h
      · exact hold h
      · obtain rfl := List.mem_singleton.mp h
        exact Or.inr ⟨List.mem_append_right _ List.mem_cons_self, hdot, hdots⟩

theorem roomFor_filter (entries : List Bytes) :
    roomFor (entries.filter (· ≠ [])) ≤ roomFor entries := by
  induction entries with
  | nil => exact Nat.le_refl _
  | cons e es ih =>
    rw [List.filter_cons]
    simp only [roomFor] at ih ⊢
    split_ifs
    · rw [List.map_cons, List.map_cons, List.sum_cons, List.sum_cons]
      omega
    · rw [List.map_cons, List.sum_cons]
      omega

theorem terminated_bytes {out : Bytes} (h0 : (0 : UInt8) ∉ out) : (terminated out).bytes = out := by
  refine List.takeWhile_eq_self_iff.mpr fun x hx => bne_iff_ne.mpr ?_
  rintro rfl
  exact h0 hx

structure Again (out out' : Bytes) : Prop where
  head : out.head? = some slash
  head' : out'.head? = some slash
  noNul : (0 : UInt8) ∉ out
  noNul' : (0 : UInt8) ∉ out'
  names : tokens out' = tokens out

theorem noNul_canonicalText {entries : List Bytes} (h : ∀ e ∈ entries, (0 : UInt8) ∉ e) :
    (0 : UInt8) ∉ canonicalText entries := by
  have hslash : (0 : UInt8) ≠ slash := by decide
  rw [canonicalText]
  split_ifs
  · simp [hslash]
  · rw [entriesText, List.mem_flatMap]
    rintro ⟨e, he, h0⟩
    rcases List.mem_cons.mp h0 with h0 | h0
    · exact hslash h0
    · exact h e he h0

theorem noNul_pathText (cwd path : CString) : (0 : UInt8) ∉ pathText cwd.bytes path.bytes := by
  intro h0
  have hpath : (0 : UInt8) ∉ (if path.bytes = [] then [dot] else path.bytes) := by
    split_ifs
    · decide
    · exact path.noNul
  have hcwd : (0 : UInt8) ∉ (if cwd.bytes = [slash] then [slash] else cwd.bytes ++ [slash]) := by
    split_ifs
    · decide
    · rw [List.mem_append, not_or]
      exact ⟨cwd.noNul, by decide⟩
  simp only [pathText] at h0
  generalize (if path.bytes = [] then [dot] else path.bytes) = text at h0 hpath
  split at h0
  · exact hpath h0
  · rcases List.mem_append.mp h0 with h0 | h0
    · exact hcwd h0
    · exact hpath h0

theorem tokens_entries {entries : List Bytes} (h : FsPaths.Entries entries) :
    tokens (canonicalText entries) = entries.filter (· ≠ []) := by
  rw [canonicalText]
  split_ifs with hnil
  · rw [hnil, tokens_root]
    rfl
  · exact tokens_entriesText entries h.noSlash

theorem normalize_again {cwd path : CString} {out : Bytes} (h : Rooted cwd.bytes)
    (hout : fsNormalize cwd.bytes path.bytes 256 = some out) :
    ∃ out', fsNormalize cwd.bytes (terminated out).bytes 256 = some out' ∧ Again out out' := by
  obtain ⟨hshort, htext⟩ := fsNormalize_some h hout
  obtain ⟨-, hshape, hroom⟩ := fsNormalize_entries h path.bytes hshort
  set entries := bufferEntries (tokens ((pathText cwd.bytes path.bytes).take 255)) with hentries
  have hmem : ∀ e ∈ entries, e = [] ∨ e ∈ tokens ((pathText cwd.bytes path.bytes).take 255) ∧
      e ≠ [dot] ∧ e ≠ dots := fun _ => mem_bufferEntries _
  have hnoNul : ∀ e ∈ entries, (0 : UInt8) ∉ e := by
    intro e he
    rcases hmem e he with rfl | ⟨hin, -⟩
    · exact List.not_mem_nil
    · exact noNul_tokens (fun h0 => noNul_pathText cwd path (List.mem_of_mem_take h0)) hin
  obtain ⟨names, hfilter⟩ : ∃ names, names = entries.filter (· ≠ []) := ⟨_, rfl⟩
  have hkept : ∀ n ∈ names, n ∈ entries ∧ n ≠ [] := fun n hn => by
    simpa [hfilter] using hn
  have hnames : ∀ n ∈ names, CanonicalName n := by
    intro n hn
    obtain ⟨hin, hne⟩ := hkept n hn
    obtain ⟨-, hdot, hdots⟩ := (hmem n hin).resolve_left hne
    exact ⟨hne, hshape.noSlash n hin, hdot, hdots⟩
  have hlong : ∀ n ∈ names, n.length < 128 := by
    intro n hn
    obtain ⟨hin, hne⟩ := hkept n hn
    exact Nat.lt_of_not_le fun hlong => hshort ⟨n, ((hmem n hin).resolve_left hne).1, hlong⟩
  have hfewer : roomFor names ≤ 255 := by
    rw [hfilter]
    exact (roomFor_filter entries).trans hroom
  have htokens : tokens (canonicalText names) = tokens (canonicalText entries) := by
    rw [tokens_canonicalText hnames, hfilter, tokens_entries hshape]
  have hno := noNul_canonicalText hnoNul
  refine ⟨canonicalText names, ?_, ?_⟩
  · rw [htext, terminated_bytes hno, ← fsNormalize_canonical hnames hlong hfewer cwd.bytes,
      fsNormalize_text h, fsNormalize_text h, pathText_canonical _ hroom,
      pathText_canonical _ hfewer, htokens]
  · rw [htext]
    exact ⟨head_canonicalText _, head_canonicalText _, hno,
      noNul_canonicalText fun e he => hnoNul e (hkept e he).1, htokens⟩

variable {out' : Bytes}

theorem resolve_again (h : Consistent c) {out : Bytes} (ha : Again out out') :
    resolve c (terminated out').bytes = resolve c (terminated out).bytes := by
  rw [terminated_bytes ha.noNul, terminated_bytes ha.noNul', resolve_locate h ha.noNul ha.head,
    resolve_locate h ha.noNul' ha.head', ha.names]

theorem Again.path {out : Bytes} (ha : Again out out') :
    orRoot (terminated out) = (terminated out).bytes ∧
      orRoot (terminated out') = (terminated out').bytes := by
  have hne : ∀ text : Bytes, text.head? = some slash → text ≠ [] := fun text hhead hnil => by
    rw [hnil] at hhead
    cases hhead
  exact ⟨if_neg (by rw [terminated_bytes ha.noNul]; exact hne _ ha.head),
    if_neg (by rw [terminated_bytes ha.noNul']; exact hne _ ha.head')⟩

theorem bytesAt_again (h : Consistent c) {out : Bytes} (ha : Again out out') :
    bytesAt c (terminated out') = bytesAt c (terminated out) := by
  rw [bytesAt, bytesAt, ha.path.1, ha.path.2, resolve_again h ha]
  simp only [fileBytes, resolve_again h ha]

structure Sees (total : ℕ) (w : System) (V : Volume) : Prop where
  holds : XfsSystem.Holds total w V
  consistent : Consistent V.content
  mounted : V.mounted = true

theorem sees_of_sound (h : Sound total u) (hm : u.fs.mounted = true) : Sees total u (volumeOf u) :=
  ⟨h.holds, h.consistent, hm⟩

theorem reading_sees {α : Type} {f : XfsV α} {o : Option α} (h : Sees total w V)
    (hw : Proc.wp volume volumeGuard f (fun r _ V' => r = o ∧ V' = V) () V) :
    (w.call (lowered f)).1 = o ∧ Sees total (w.call (lowered f)).2 V := by
  obtain ⟨hr, hV⟩ := reading_holds h.holds h.mounted hw
  exact ⟨hr, hV, h.consistent, h.mounted⟩

theorem stat_sees (h : Sees total w V) (full : CString) :
    (w.call (lowered (k64XfsStat full))).1 = fileStat V.content full ∧
      Sees total (w.call (lowered (k64XfsStat full))).2 V :=
  reading_sees h ((wp_stat h.consistent.toAllocated h.mounted).mpr ⟨rfl, rfl⟩)

theorem read_sees (h : Sees total w V) (full : CString) (max : ℕ) :
    (w.call (lowered (k64XfsReadFile full max))).1 = fileBytes V.content full.bytes max ∧
      Sees total (w.call (lowered (k64XfsReadFile full max))).2 V :=
  reading_sees h ((wp_readFile h.consistent h.mounted max).mpr ⟨rfl, rfl⟩)

theorem fileAt_eq (h : Sees total w V) (full : CString) : fileAt w full = bytesAt V.content full := by
  have hread : ∀ max, fileRead w full max = fileBytes V.content full.bytes max :=
    fun max => (read_sees h full max).1
  rw [fileAt, (stat_sees h full).1, fileStat, bytesAt]
  simp only [hread]
  cases resolve V.content (orRoot full) with
  | none => rfl
  | some found =>
    rw [Option.map_some, Option.bind_some, Option.bind_some]
    simp only [beq_iff_eq]

section Steps

variable {dev : Geometry} {full cwd path : CString} {before : Option Bytes}

/-- Room for a file of `n` bytes at `full`: an open transaction is at its beginning, and a write of
so many bytes is provided for. -/
def RoomFor (V : Volume) (full : CString) (n : ℕ) : Prop :=
  (V.journalActive = true → V.journalRecords ≤ 4) ∧
    ∀ (data : Buffer) uid gid, data.bytes.length = n →
      Provided V.content (.writeFile full data uid gid)

theorem write_sees (h : Sees total w V)
    (hsector : WholeSectors dev)
    (hdev : total ≤ xfsFsBlocks dev) {n : ℕ} (hroom : RoomFor V full n) (data : Bytes)
    (hlen : data.length = n) (hbound : n < 2 ^ 63) (uid gid : UInt32) :
    ∃ V', Sees total (xfsWrite w full data uid gid).2 V' ∧
      bytesAt V'.content full =
        if (xfsWrite w full data uid gid).1 then some data else bytesAt V.content full := by
  have hready : V.mounted = true → XfsDirectoryUpdate.Room 12 V :=
    fun hm => ⟨hm, fun ha => Nat.add_le_add_right (hroom.1 ha) 12⟩
  set buffer : Buffer := ⟨data, hlen ▸ hbound⟩ with hbuffer
  obtain ⟨V', hV', hshown⟩ := call_shown (a := .operation (.writeFile full buffer uid gid)) h.holds
    h.consistent hready nofun hsector hdev
  have hprov := hroom.2 buffer uid gid hlen
  rw [PublicCall.Shown, if_pos h.mounted] at hshown
  obtain ⟨r, hr, hshown⟩ := hshown
  change (xfsWrite w full data uid gid).1 = r.isSome at hr
  change XfsSystem.Holds total (xfsWrite w full data uid gid).2 V' at hV'
  rw [hr]
  cases he : (Operation.writeFile full buffer uid gid).effect V.content V.generation with
  | failed begun c =>
    rw [he] at hshown
    obtain ⟨rfl, n, rfl⟩ := hshown
    obtain ⟨hcons, hsame⟩ := failed_same h.consistent he
    exact ⟨_, ⟨hV', hcons, h.mounted⟩, bytesAt_same h.consistent hcons hsame full⟩
  | broken => exact absurd he (effect_unbroken h.consistent hprov)
  | done k c =>
    rw [he] at hshown
    obtain ⟨rfl, n, rfl⟩ := hshown
    exact ⟨_, ⟨hV', done_consistent h.consistent he, h.mounted⟩, bytesAt_wrote
      (write_effect_file h.consistent full.noNul buffer.bounded he) buffer.bounded⟩

def Stepped (total : ℕ) (V : Volume) (full : CString) (call : RangeCall) (r : Answer × System) :
    Prop :=
  ∃ V', Sees total r.2 V' ∧ Refines (bytesAt V.content full) call r.1 (bytesAt V'.content full)

variable {call : RangeCall}

theorem refused_stepped {w : System} (h : Sees total w V)
    (hread : ∀ offset size d, call = .read offset size → bytesAt V.content full ≠ some d) :
    Stepped total V full call ((false, []), w) := by
  refine ⟨V, h, fun _ => rfl, nofun, fun _ => rfl, fun offset size d hcall hd => ?_⟩
  exact absurd hd (hread offset size d hcall)

theorem written_stepped (h : Sees total w V)
    (hsector : WholeSectors dev)
    (hdev : total ≤ xfsFsBlocks dev) {data : Bytes} (uid gid : UInt32)
    (hdata : data = call.result ((bytesAt V.content full).getD []))
    (hsize : data.length = call.newLength ((bytesAt V.content full).getD []))
    (hfits : data.length ≤ rawMax) (hroom : RoomFor V full data.length)
    (hread : ∀ offset size, call ≠ .read offset size) :
    Stepped total V full call
      (((xfsWrite w full data uid gid).1, []), (xfsWrite w full data uid gid).2) := by
  obtain ⟨V', hV', hbytes⟩ := write_sees h hsector hdev hroom data rfl
    (Nat.lt_of_le_of_lt hfits (by decide)) uid gid
  refine ⟨V', hV', fun hr => ?_, fun hr => ?_, fun hlimit => ?_, fun offset size _ hcall _ => ?_⟩
  · rw [hbytes, if_neg (by rw [show (xfsWrite w full data uid gid).1 = false from hr]; decide)]
  · rw [hbytes, if_pos (show (xfsWrite w full data uid gid).1 = true from hr), hdata]
  · omega
  · exact absurd hcall (hread offset size)

theorem stat_missing {w : System} (h : Sees total w V)
    (hstat : resolve V.content (orRoot full) = none) :
    (w.call (lowered (k64XfsStat full))).1 = none := by
  rw [(stat_sees h full).1, fileStat, hstat, Option.map_none]

theorem stat_found {w : System} {id : UInt32} {inode : Inode} (h : Sees total w V)
    (hstat : resolve V.content (orRoot full) = some (id, inode)) :
    ∃ st, (w.call (lowered (k64XfsStat full))).1 = some st ∧
      st.isDir = (inode.type == typeDirectory) ∧ st.size = inode.size := by
  rw [(stat_sees h full).1, fileStat, hstat, Option.map_some]
  exact ⟨_, rfl, rfl, rfl⟩

theorem wholeFile_sees (h : Sees total w V) (st : FsStat) {d : Bytes}
    (hbytes : fileBytes V.content full.bytes st.size.toNat = some d)
    (hlen : d.length = st.size.toNat) :
    (wholeFile w full st).1 = some d ∧ Sees total (wholeFile w full st).2 V := by
  obtain ⟨hread, hsees⟩ := read_sees h full st.size.toNat
  refine ⟨?_, hsees⟩
  rw [wholeFile]
  dsimp only
  rw [hread, hbytes, Option.filter_some, if_pos (by simpa using hlen)]

variable {out : List UInt8}

theorem range_refused (h : Sees total w V)
    (hfull : fsNormalize cwd.bytes path.bytes 256 = some out) {id : UInt32} {inode : Inode}
    (hstat : resolve V.content (orRoot (terminated out)) = some (id, inode)) (offset : UInt64)
    (data : Bytes) (hrefused : inode.type = typeDirectory ∨
      rawMax < max inode.size.toNat (offset.toNat + data.length)) :
    (k64FsWriteFileRange w cwd path offset data).1 = false ∧
      Sees total (k64FsWriteFileRange w cwd path offset data).2 V := by
  obtain ⟨st, hst, hdir, hsize⟩ := stat_found h hstat
  have hsees := (stat_sees h (terminated out)).2
  rw [k64FsWriteFileRange, hfull]
  dsimp only
  rw [hst]
  dsimp only
  rw [if_pos]
  · exact ⟨rfl, hsees⟩
  · rw [hdir, hsize]
    rcases hrefused with ht | hlong
    · exact Or.inl (by rw [ht]; rfl)
    · exact Or.inr (Or.inr (Or.inr (Or.inr (Or.inr hlong))))

theorem range_written (h : Sees total w V)
    (hfull : fsNormalize cwd.bytes path.bytes 256 = some out) {id : UInt32} {inode : Inode}
    (hpath : orRoot (terminated out) = (terminated out).bytes)
    (hres : resolve V.content (terminated out).bytes = some (id, inode))
    (ht : inode.type = typeRegular) (offset : UInt64) (data : Bytes) {d : Bytes}
    (hlen : d.length = inode.size.toNat)
    (hbytes : ∀ max ≤ inode.size.toNat,
      fileBytes V.content (terminated out).bytes max = some (d.take max))
    (hfits : max inode.size.toNat (offset.toNat + data.length) ≤ rawMax) :
    ∃ w' uid gid, Sees total w' V ∧ k64FsWriteFileRange w cwd path offset data =
      xfsWrite w' (terminated out) (placed d offset.toNat data) uid gid := by
  obtain ⟨st, hst, hdir, hsize⟩ := stat_found h (hpath ▸ hres)
  have hsees := (stat_sees h (terminated out)).2
  have hmax : rawMax < 2 ^ 64 := by decide
  rw [k64FsWriteFileRange, hfull]
  dsimp only
  rw [hst]
  dsimp only
  have hregular : st.isDir = false := by
    rw [hdir, ht]
    decide
  rw [if_neg (by rw [hregular, hsize]; simp; omega)]
  by_cases h0 : st.size = 0
  · have hnil : d = [] := List.length_eq_zero_iff.mp (by rw [hlen, ← hsize, h0]; rfl)
    refine ⟨_, st.uid, st.gid, hsees, ?_⟩
    rw [if_pos h0]
    dsimp only
    rw [← copiedAt_placed, hnil, h0]
    rfl
  · obtain ⟨hwhole, hsees'⟩ := wholeFile_sees hsees st
      (by rw [hsize, hbytes _ (Nat.le_refl _), ← hlen, List.take_length]) (by rw [hlen, hsize])
    refine ⟨_, st.uid, st.gid, hsees', ?_⟩
    rw [if_neg h0, hwhole]
    dsimp only
    rw [← copiedAt_placed, hsize, hlen]

/-- What a call needs: a file that is read is within the limit, a write that makes a file has no more
than that to put there, and there is room for what is stored. -/
structure Able (V : Volume) (full : CString) (call : RangeCall) : Prop where
  read : ∀ offset size d, call = .read offset size → bytesAt V.content full = some d →
    d.length ≤ rawMax
  new : resolve V.content (orRoot full) = none → ∀ n, call.created = some n →
    n ≤ rawMax ∧ RoomFor V full n
  old : (∀ offset size, call ≠ .read offset size) → ∀ d, bytesAt V.content full = some d →
    call.newLength d ≤ rawMax → RoomFor V full (call.newLength d)

theorem bytesAt_missing {c : Content} (hstat : resolve c (orRoot full) = none) :
    bytesAt c full = none := by
  rw [bytesAt, hstat, Option.bind_none]

theorem bytesAt_directory {c : Content} {id : UInt32} {inode : Inode}
    (hstat : resolve c (orRoot full) = some (id, inode)) (ht : inode.type = typeDirectory) :
    bytesAt c full = none := by
  rw [bytesAt, hstat, Option.bind_some]
  exact if_pos ht

theorem write_stepped (h : Sees total w V)
    (hsector : WholeSectors dev)
    (hdev : total ≤ xfsFsBlocks dev)
    (hfull : fsNormalize cwd.bytes path.bytes 256 = some out) {offset : UInt64} {data : Buffer}
    (hable : Able V (terminated out) (.write offset data)) :
    Stepped total V (terminated out) (.write offset data)
      ((RangeCall.write offset data).run w cwd path) := by
  rw [RangeCall.run]
  cases nodeAt h.consistent (terminated out) with
  | missing hstat htarget =>
    have hnone := bytesAt_missing hstat
    have hsees := (stat_sees h (terminated out)).2
    rw [k64FsWriteFileRange, hfull]
    dsimp only
    rw [stat_missing h hstat]
    dsimp only
    by_cases h0 : offset = 0
    · obtain ⟨hfits, hroom⟩ := hable.new hstat _ (if_pos h0)
      rw [if_pos h0]
      refine written_stepped hsees hsector hdev 0 0 ?_ ?_ hfits hroom nofun
      · rw [hnone, h0]
        exact (placed_nil data.bytes).symm
      · rw [hnone, h0, RangeCall.newLength]
        simp
    · rw [if_neg h0]
      exact refused_stepped hsees nofun
  | directory id inode hstat ht =>
    obtain ⟨hr, hsees⟩ := range_refused h hfull hstat offset data.bytes (Or.inl ht)
    rw [hr]
    exact refused_stepped hsees nofun
  | file id inode hpath hres ht =>
    by_cases hfits : max inode.size.toNat (offset.toNat + data.bytes.length) ≤ rawMax
    · obtain ⟨d, hd, hlen, hbytes⟩ := file_bytes hpath hres ht (by omega)
      obtain ⟨w', uid, gid, hsees, heq⟩ := range_written h hfull hpath hres ht offset data.bytes hlen
        hbytes hfits
      have hnew : (placed d offset.toNat data.bytes).length =
          (RangeCall.write offset data).newLength d := length_placed ..
      have hle : (RangeCall.write offset data).newLength d ≤ rawMax := by
        rw [RangeCall.newLength, hlen]
        exact hfits
      rw [heq]
      refine written_stepped hsees hsector hdev uid gid ?_ ?_ (hnew ▸ hle) ?_ nofun
      · rw [hd]
        rfl
      · rw [hd]
        exact hnew
      · rw [hnew]
        exact hable.old nofun d hd hle
    · obtain ⟨hr, hsees⟩ := range_refused h hfull (hpath ▸ hres) offset data.bytes
        (Or.inr (by omega))
      rw [hr]
      exact refused_stepped hsees nofun

theorem stepped_again (h : Sees total w V) {out out' : Bytes} (ha : Again out out')
    {r : Answer × System} (hs : Stepped total V (terminated out') call r) :
    Stepped total V (terminated out) call r := by
  obtain ⟨V', hV', href⟩ := hs
  refine ⟨V', hV', ?_⟩
  rwa [bytesAt_again h.consistent ha, bytesAt_again hV'.consistent ha] at href

theorem roomFor_again (h : Sees total w V) {out out' : Bytes} (ha : Again out out')
    {x : UInt32 × Inode} (hres : resolve V.content (terminated out').bytes = some x) {n : ℕ}
    (hroom : RoomFor V (terminated out) n) : RoomFor V (terminated out') n := by
  refine ⟨hroom.1, fun data uid gid hlen => ?_⟩
  have hold := hroom.2 data uid gid hlen
  rw [Provided, WriteRoom] at hold ⊢
  rw [← resolve_again h.consistent ha, hres] at hold
  rw [hres]
  exact hold

theorem append_stepped (h : Sees total w V)
    (hsector : WholeSectors dev)
    (hdev : total ≤ xfsFsBlocks dev) (hcwd : Rooted cwd.bytes)
    (hfull : fsNormalize cwd.bytes path.bytes 256 = some out) (hplain : isPseudoPath out = false)
    {text : CString} (hable : Able V (terminated out) (.append text)) :
    Stepped total V (terminated out) (.append text) ((RangeCall.append text).run w cwd path) := by
  obtain ⟨out', hfull', ha⟩ := normalize_again hcwd hfull
  have hsame : resolve V.content (orRoot (terminated out')) =
      resolve V.content (orRoot (terminated out)) := by
    rw [ha.path.1, ha.path.2, resolve_again h.consistent ha]
  have hsees := (stat_sees h (terminated out)).2
  rw [RangeCall.run, k64FsAppendFile, hfull]
  cases nodeAt h.consistent (terminated out') with
  | missing hstat htarget =>
    rw [hsame] at hstat
    obtain ⟨hfits, hroom⟩ := hable.new hstat _ rfl
    have hnull : out ≠ nullPath := by
      rintro rfl
      exact absurd hplain (by decide)
    dsimp only
    rw [stat_missing h hstat]
    dsimp only
    rw [k64FsWriteFileRaw, hfull]
    dsimp only
    rw [if_neg hnull, if_neg (by rw [hplain]; decide)]
    refine written_stepped hsees hsector hdev 0 0 ?_ ?_ hfits hroom nofun
    · rw [bytesAt_missing hstat]
      rfl
    · rw [bytesAt_missing hstat, RangeCall.newLength]
      simp
  | directory id inode hstat ht =>
    obtain ⟨st, hst, -, -⟩ := stat_found h (hsame ▸ hstat)
    dsimp only
    rw [hst]
    dsimp only
    obtain ⟨hr, hsees'⟩ := range_refused hsees hfull' hstat st.size text.bytes (Or.inl ht)
    rw [hr]
    exact refused_stepped hsees' nofun
  | file id inode hpath hres ht =>
    obtain ⟨st, hst, -, hsize⟩ := stat_found h (hsame ▸ hpath ▸ hres)
    dsimp only
    rw [hst]
    dsimp only
    by_cases hfits : st.size.toNat + text.bytes.length ≤ rawMax
    · rw [hsize] at hfits
      obtain ⟨d, hd, hlen, hbytes⟩ := file_bytes hpath hres ht (by omega)
      obtain ⟨w', uid, gid, hw, heq⟩ := range_written hsees hfull' hpath hres ht st.size text.bytes
        hlen hbytes (by rw [hsize]; omega)
      have hnew : placed d st.size.toNat text.bytes = d ++ text.bytes := by
        rw [hsize, ← hlen, placed_append]
      have hle : (RangeCall.append text).newLength d ≤ rawMax := by
        rw [RangeCall.newLength, hlen]
        exact hfits
      rw [heq, hnew]
      refine stepped_again h ha (written_stepped hw hsector hdev uid gid ?_ ?_ ?_ ?_ nofun)
      · rw [hd]
        rfl
      · rw [hd, List.length_append]
        rfl
      · rw [List.length_append]
        exact hle
      · rw [List.length_append]
        exact roomFor_again h ha hres (hable.old nofun d (bytesAt_again h.consistent ha ▸ hd) hle)
    · obtain ⟨hr, hsees'⟩ := range_refused hsees hfull' (hpath ▸ hres) st.size text.bytes
        (Or.inr (by omega))
      rw [hr]
      exact refused_stepped hsees' nofun

theorem pseudo_none {out : Bytes} (hplain : isPseudoPath out = false) :
    fsPseudoReadAll out = none := by
  have hne : ∀ name : Bytes, isPseudoPath name = true → name ≠ out := by
    rintro name hname rfl
    rw [hplain] at hname
    cases hname
  have hfirst : pseudoFiles[0]? ≠ some out :=
    fun he => hne (pseudoFiles.getD 0 []) (by decide) (Option.some.inj he)
  have hsecond : pseudoFiles[1]? ≠ some out :=
    fun he => hne (pseudoFiles.getD 1 []) (by decide) (Option.some.inj he)
  have hnull : out ≠ nullPath := (hne nullPath (by decide)).symm
  rw [fsPseudoReadAll, if_neg hfirst, if_neg hsecond, if_neg hnull]

theorem read_stepped (h : Sees total w V)
    (hfull : fsNormalize cwd.bytes path.bytes 256 = some out) (hplain : isPseudoPath out = false)
    {offset size : ℕ} (hable : Able V (terminated out) (.read offset size)) :
    Stepped total V (terminated out) (.read offset size)
      ((RangeCall.read offset size).run w cwd path) := by
  have hsees := (stat_sees h (terminated out)).2
  have hlimit : ∀ before : Option Bytes,
      rawMax < (RangeCall.read offset size).newLength (before.getD []) → False :=
    fun _ hlong => absurd hlong (Nat.not_lt_zero _)
  rw [RangeCall.run, k64FsReadFileRange, hfull]
  dsimp only
  rw [pseudo_none hplain]
  dsimp only
  cases nodeAt h.consistent (terminated out) with
  | missing hstat htarget =>
    rw [stat_missing h hstat]
    exact refused_stepped hsees fun _ _ d _ hd => by
      rw [bytesAt_missing hstat] at hd
      cases hd
  | directory id inode hstat ht =>
    obtain ⟨st, hst, hdir, -⟩ := stat_found h hstat
    rw [hst]
    dsimp only
    rw [if_pos (Or.inl (by rw [hdir, ht]; rfl))]
    exact refused_stepped hsees fun _ _ d _ hd => by
      rw [bytesAt_directory hstat ht] at hd
      cases hd
  | file id inode hpath hres ht =>
    obtain ⟨st, hst, hdir, hsize⟩ := stat_found h (hpath ▸ hres)
    have hregular : st.isDir = false := by
      rw [hdir, ht]
      decide
    rw [hst]
    dsimp only
    by_cases hfits : inode.size.toNat ≤ rawMax
    · obtain ⟨d, hd, hlen, hbytes⟩ := file_bytes hpath hres ht hfits
      obtain ⟨hwhole, hsees'⟩ := wholeFile_sees hsees st
        (by rw [hsize, hbytes _ (Nat.le_refl _), ← hlen, List.take_length]) (by rw [hlen, hsize])
      rw [if_neg (by rw [hregular, hsize]; simpa using hfits), hwhole]
      refine ⟨V, hsees', nofun, fun _ => ?_, fun hlong => (hlimit _ hlong).elim, ?_⟩
      · rw [hd]
        rfl
      · intro offset' size' d' hcall hd'
        obtain ⟨rfl, rfl⟩ := RangeCall.read.inj hcall
        obtain rfl := Option.some.inj (hd.symm.trans hd')
        rfl
    · rw [if_pos (Or.inr (by rw [hsize]; omega))]
      refine refused_stepped hsees fun _ _ d _ hd => ?_
      have hsmall := hable.read offset size d rfl hd
      rw [bytesAt_length hpath hres ht hd] at hsmall
      exact hfits hsmall

theorem truncate_stepped (h : Sees total w V)
    (hsector : WholeSectors dev)
    (hdev : total ≤ xfsFsBlocks dev)
    (hfull : fsNormalize cwd.bytes path.bytes 256 = some out) {size : ℕ}
    (hable : Able V (terminated out) (.truncate size)) :
    Stepped total V (terminated out) (.truncate size)
      ((RangeCall.truncate size).run w cwd path) := by
  have hsees := (stat_sees h (terminated out)).2
  rw [RangeCall.run, k64FsTruncate, hfull]
  dsimp only
  cases nodeAt h.consistent (terminated out) with
  | missing hstat htarget =>
    rw [stat_missing h hstat]
    exact refused_stepped hsees (by rintro _ _ _ ⟨⟩)
  | directory id inode hstat ht =>
    obtain ⟨st, hst, hdir, -⟩ := stat_found h hstat
    rw [hst]
    dsimp only
    rw [if_pos (Or.inl (by rw [hdir, ht]; rfl))]
    exact refused_stepped hsees (by rintro _ _ _ ⟨⟩)
  | file id inode hpath hres ht =>
    obtain ⟨st, hst, hdir, hsize⟩ := stat_found h (hpath ▸ hres)
    have hregular : st.isDir = false := by
      rw [hdir, ht]
      decide
    rw [hst]
    dsimp only
    by_cases hfits : size ≤ rawMax ∧ inode.size.toNat ≤ rawMax
    · obtain ⟨d, hd, hlen, hbytes⟩ := file_bytes hpath hres ht hfits.2
      obtain ⟨hkept, hsees'⟩ := kept_read (P := fun w => Sees total w V) (n := size) hsees
        (read_sees hsees _) (show d.length = st.size.toNat by rw [hlen, hsize])
        (by rw [hsize]; exact hbytes)
      have hdata : d.take size ++ List.replicate (size - (d.take size).length) 0 = resized d size := by
        rw [resized, List.length_take]
        congr 2
        omega
      rw [if_neg (by rw [hregular, hsize]; simp; omega), hkept]
      dsimp only
      rw [hdata]
      refine written_stepped hsees' hsector hdev st.uid st.gid ?_ ?_ ?_ ?_ (by rintro _ _ ⟨⟩)
      · rw [hd]
        rfl
      · exact length_resized d size
      · rw [length_resized]
        exact hfits.1
      · rw [length_resized]
        exact hable.old (by rintro _ _ ⟨⟩) d hd hfits.1
    · rw [if_pos (by rw [hsize]; omega)]
      exact refused_stepped hsees (by rintro _ _ _ ⟨⟩)

theorem call_stepped (h : Sees total w V)
    (hsector : WholeSectors dev)
    (hdev : total ≤ xfsFsBlocks dev) (hcwd : Rooted cwd.bytes)
    (hfull : fsNormalize cwd.bytes path.bytes 256 = some out) (hplain : isPseudoPath out = false)
    (hable : Able V (terminated out) call) :
    Stepped total V (terminated out) call (call.run w cwd path) := by
  cases call with
  | write offset data => exact write_stepped h hsector hdev hfull hable
  | append text => exact append_stepped h hsector hdev hcwd hfull hplain hable
  | truncate size => exact truncate_stepped h hsector hdev hfull hable
  | read offset size => exact read_stepped h hfull hplain hable

end Steps

/-- The state before a call has what the call needs. -/
def Meets (u : System) (cwd path : CString) (call : RangeCall) : Prop :=
  ∀ full, fsNormalize cwd.bytes path.bytes 256 = some full →
    Able (volumeOf u) (terminated full) call

/-- Calls on the file at a path, each of which meets the condition, and any other calls between them
that leave the file alone. -/
inductive RangeRun (dev : Geometry) (cwd path : CString) :
    System → List (RangeCall × Answer) → System → Prop where
  | nil (u : System) : RangeRun dev cwd path u [] u
  | call {u v : System} {rest : List (RangeCall × Answer)} (call : RangeCall)
      (met : Meets u cwd path call) (tail : RangeRun dev cwd path (call.run u cwd path).2 rest v) :
      RangeRun dev cwd path u ((call, (call.run u cwd path).1) :: rest) v
  | other {u w v : System} {trace : List (RangeCall × Answer)}
      (calls : RunWhere XfsFailures.Ready dev u w) (mounted : w.fs.mounted = true)
      (same : fileOf w cwd path = fileOf u cwd path) (tail : RangeRun dev cwd path w trace v) :
      RangeRun dev cwd path u trace v

section Runs

variable {dev : Geometry} {cwd path : CString}

theorem sees_mounted (h : Sees total w V) : w.fs.mounted = true := by
  obtain ⟨d, -, -, hs, -⟩ := h.holds
  exact hs.mounted.trans h.mounted

theorem sees_volumeOf (h : Sees total w V) : Sees total w (volumeOf w) :=
  sees_of_sound (sound_of_holds h.holds h.consistent) (sees_mounted h)

theorem unnamed_call (hnone : fsNormalize cwd.bytes path.bytes 256 = none) (w : System)
    (call : RangeCall) : call.run w cwd path = ((false, []), w) := by
  cases call with
  | write offset data => rw [RangeCall.run, k64FsWriteFileRange, hnone]
  | append text => rw [RangeCall.run, k64FsAppendFile, hnone]
  | truncate size => rw [RangeCall.run, k64FsTruncate, hnone]
  | read offset size => rw [RangeCall.run, k64FsReadFileRange, hnone]

theorem call_refines (h : Sees total w V)
    (hsector : WholeSectors dev)
    (hdev : total ≤ xfsFsBlocks dev) (hcwd : Rooted cwd.bytes)
    (hplain : ∀ full, fsNormalize cwd.bytes path.bytes 256 = some full → isPseudoPath full = false)
    {call : RangeCall} (hmet : Meets w cwd path call) :
    (∃ V', Sees total (call.run w cwd path).2 V') ∧
      Refines (fileOf w cwd path) call (call.run w cwd path).1
        (fileOf (call.run w cwd path).2 cwd path) := by
  cases hfull : fsNormalize cwd.bytes path.bytes 256 with
  | none =>
    rw [unnamed_call hfull, fileOf, hfull]
    exact ⟨⟨V, h⟩, fun _ => rfl, nofun, fun _ => rfl, fun _ _ _ _ hd => by cases hd⟩
  | some full =>
    obtain ⟨V', hV', href⟩ := call_stepped (sees_volumeOf h) hsector hdev hcwd hfull
      (hplain full hfull) (hmet full hfull)
    refine ⟨⟨V', hV'⟩, ?_⟩
    rw [fileOf, fileOf, hfull, Option.bind_some, Option.bind_some, fileAt_eq (sees_volumeOf h),
      fileAt_eq hV']
    exact href

theorem run_follows {trace : List (RangeCall × Answer)} (hrun : RangeRun dev cwd path u trace w)
    (hsector : WholeSectors dev)
    (hdev : total ≤ xfsFsBlocks dev) (hcwd : Rooted cwd.bytes)
    (hplain : ∀ full, fsNormalize cwd.bytes path.bytes 256 = some full → isPseudoPath full = false)
    (h : Sees total u V) : Follows (fileOf u cwd path) trace (fileOf w cwd path) := by
  induction hrun generalizing V with
  | nil => rfl
  | call call met tail ih =>
    obtain ⟨⟨V', hV'⟩, href⟩ := call_refines h hsector hdev hcwd hplain met
    exact ⟨_, href, ih hV'⟩
  | other calls mounted same tail ih =>
    rw [← same]
    exact ih (sees_of_sound (ready_run calls hsector hdev
      (sound_of_holds h.holds h.consistent)) mounted)

end Runs

/-- On every volume that calls have made of a formatted one, whatever is not under `/proc` or `/dev`
is an array of bytes to the range calls, as long as a new file gets no more than 16 MiB and there is
room for what is stored. -/
theorem range_calls_follow (hfresh : FreshMount label s t)
    (hf : ∀ i, s.machine.dev.faults i = false)
    (hsmall : xfsFsBlocks (System.geometry s) ≤ 32768)
    (hbefore : RunWhere XfsFailures.Ready (System.geometry s) t u) (hm : u.fs.mounted = true)
    (cwd path : CString) (hcwd : CurrentDir cwd.bytes)
    (hplain : ∀ full, fsNormalize cwd.bytes path.bytes 256 = some full → isPseudoPath full = false)
    (trace : List (RangeCall × Answer)) (hrun : RangeRun (System.geometry s) cwd path u trace w) :
    Follows (fileOf u cwd path) trace (fileOf w cwd path) := by
  obtain ⟨-, hdev, -⟩ := fresh_holds hfresh hf hsmall
  have hsector := sector_of_ok hdev
  have hu := ready_run hbefore hsector (Nat.le_refl _) (fresh_sound hfresh hf hsmall)
  exact run_follows hrun hsector (Nat.le_refl _) hcwd.rooted hplain (sees_of_sound hu hm)

theorem terminated_pathA : terminated pathA = fileA := rfl

theorem normalize_fileA : fsNormalize rootDir.bytes fileA.bytes 256 = some pathA := by decide

theorem fresh_fileOf {data : ℕ → XBlock} (h84 : 84 ≤ total) (hsmall : total ≤ 32768)
    (h : Sees total w (mountedVolume (formatted total data) 1)) :
    resolve (formatted total data) (orRoot fileA) = none ∧ fileOf w rootDir fileA = none := by
  have hres : resolve (formatted total data) (orRoot fileA) = none := resolve_pathA h84 hsmall
  refine ⟨hres, ?_⟩
  rw [fileOf, normalize_fileA, Option.bind_some, terminated_pathA, fileAt_eq h]
  exact bytesAt_missing hres

section Grown

variable {dev : Geometry}

theorem written_shows (h : Steady total w V) (hsector : WholeSectors dev) (hdev : total ≤ xfsFsBlocks dev)
    {full : CString} (data : Buffer) {uid gid : UInt32}
    (hok : (w.call (lowered (k64XfsWriteFile full data.bytes uid gid))).1.isSome = true) :
    ∃ V', Steady total (w.call (lowered (k64XfsWriteFile full data.bytes uid gid))).2 V' ∧
      Sees total (w.call (lowered (k64XfsWriteFile full data.bytes uid gid))).2 V' ∧
      bytesAt V'.content full = some data.bytes := by
  obtain ⟨V', hV', hshown⟩ := step_steady (a := .operation (.writeFile full data uid gid)) h nofun
    hsector hdev hok
  obtain ⟨hm, k, c, n, he, rfl⟩ := operation_done hshown
  exact ⟨_, hV', ⟨hV'.holds, hV'.consistent, hm⟩,
    bytesAt_wrote (write_effect_file h.consistent full.noNul data.bounded he) data.bounded⟩

/-- What is stored at the end of a file makes it longer by its bytes. -/
theorem write_at_end (h : Steady total w V) (hm : V.mounted = true) (hsector : WholeSectors dev)
    (hdev : total ≤ xfsFsBlocks dev) {cwd path : CString} {d : Bytes} (hd : fileOf w cwd path = some d)
    {offset : UInt64} (hoffset : offset.toNat = d.length) {data : Bytes}
    (hok : (k64FsWriteFileRange w cwd path offset data).1 = true) :
    fileOf (k64FsWriteFileRange w cwd path offset data).2 cwd path = some (d ++ data) := by
  obtain ⟨out, hfull, hat⟩ := Option.bind_eq_some_iff.mp hd
  have hsees : Sees total w V := ⟨h.holds, h.consistent, hm⟩
  rw [fileAt_eq hsees] at hat
  cases nodeAt h.consistent (terminated out) with
  | missing hstat =>
    rw [bytesAt_missing hstat] at hat
    cases hat
  | directory id inode hstat ht =>
    rw [bytesAt_directory hstat ht] at hat
    cases hat
  | file id inode hpath hres ht =>
    have hlen := bytesAt_length hpath hres ht hat
    have hfits : max inode.size.toNat (offset.toNat + data.length) ≤ rawMax := by
      by_contra hlong
      have hrefused := range_refused hsees hfull (hpath ▸ hres) offset data (.inr (by omega))
      rw [hok] at hrefused
      cases hrefused.1
    obtain ⟨d', hd', -, hbytes⟩ := file_bytes hpath hres ht (by omega)
    obtain rfl := Option.some.inj (hat.symm.trans hd')
    obtain ⟨w', uid, gid, hw, heq⟩ := range_written hsees hfull hpath hres ht offset data hlen hbytes hfits
    have hbound : (d ++ data).length < 2 ^ 63 := by
      have hmax : rawMax < 2 ^ 63 := by decide
      rw [List.length_append]
      omega
    rw [heq, hoffset, placed_append] at hok ⊢
    obtain ⟨V', -, hsees', hnew⟩ := written_shows ⟨hw.holds, hw.consistent, h.closed⟩ hsector hdev
      ⟨d ++ data, hbound⟩ hok
    rw [fileOf, hfull, Option.bind_some]
    exact (fileAt_eq hsees' _).trans hnew

end Grown

section SmallFile

/-- A volume at rest on which `/a` holds bytes of one block, the first of them not 0. -/
structure Filed (total : ℕ) (w : System) (d : Bytes) : Prop where
  closed : Closed total w
  mounted : w.fs.mounted = true
  bytes : fileAt w fileA = some d
  first : d.headD 0 ≠ 0
  small : d.length ≤ 4096

variable {d : Bytes} {dev : Geometry}

theorem extents_of_byte {x : UInt8} (h : bytesFrom c inode 1 [] = some [x]) (hx : x ≠ 0) :
    Inode.extents inode ≠ [] := by
  intro hnil
  have hzero : c.dataOf inode 0 = Block.zero := by rw [Content.dataOf, Inode.lookup, hnil]; rfl
  rw [bytesFrom] at h
  split at h
  next hlt =>
    rw [List.length_nil] at hlt
    split at h
    next =>
      have hread := bytesFrom_prefix h
      rw [List.length_nil, Nat.zero_div, Nat.zero_mod, hzero, Block.read_zero,
        show min (4096 - 0) (min (inode.size.toNat - 0) (1 - 0)) = 1 by omega] at hread
      have hmem : (0 : UInt8) ∈ [x] := hread.subset List.mem_cons_self
      exact hx (List.mem_singleton.mp hmem).symm
    next => cases h
  next => cases h

theorem headD_append (h : d.headD 0 ≠ 0) (text : Bytes) : (d ++ text).headD 0 = d.headD 0 := by
  cases d with
  | nil => exact absurd rfl h
  | cons x rest => rfl

theorem filed_of_write (h : Steady total w V) (hsector : WholeSectors dev)
    (hdev : total ≤ xfsFsBlocks dev) (data : Buffer) {uid gid : UInt32}
    (hok : (w.call (lowered (k64XfsWriteFile fileA data.bytes uid gid))).1.isSome = true)
    (hfirst : data.bytes.headD 0 ≠ 0) (hlen : data.bytes.length ≤ 4096) :
    Filed total (w.call (lowered (k64XfsWriteFile fileA data.bytes uid gid))).2 data.bytes := by
  obtain ⟨V', hV', hsees, hbytes⟩ := written_shows h hsector hdev data hok
  exact ⟨closed_of_steady hV', sees_mounted hsees, (fileAt_eq hsees fileA).trans hbytes, hfirst, hlen⟩

theorem Filed.sees (h : Filed total w d) : Sees total w (volumeOf w) :=
  sees_of_sound h.closed.toSound h.mounted

theorem Filed.node (h : Filed total w d) : ∃ id inode,
    resolve (volumeOf w).content pathA = some (id, inode) ∧ inode.type = typeRegular ∧
      inode = (volumeOf w).content.inode id.toNat ∧ Used (volumeOf w).content id.toNat ∧
      inode.size.toNat = d.length ∧ Inode.extents inode ≠ [] ∧
      ∀ max ≤ inode.size.toNat, fileBytes (volumeOf w).content pathA max = some (d.take max) := by
  have hd : bytesAt (volumeOf w).content fileA = some d := (fileAt_eq h.sees fileA).symm.trans h.bytes
  have hsmall : 4096 ≤ rawMax := by decide
  have hc : Consistent (volumeOf w).content := h.closed.consistent
  cases nodeAt hc fileA with
  | missing hstat => rw [bytesAt_missing hstat] at hd; cases hd
  | directory id inode hstat ht => rw [bytesAt_directory hstat ht] at hd; cases hd
  | file id inode hpath hres ht =>
    have hlen := bytesAt_length hpath hres ht hd
    obtain ⟨d', hd', -, hbytes⟩ := file_bytes hpath hres ht (by have := h.small; omega)
    obtain rfl := Option.some.inj (hd.symm.trans hd')
    obtain ⟨hu, hinode, -, -⟩ := resolve_used hc fileA.noNul hres
    refine ⟨id, inode, hres, ht, hinode, hu, hlen.symm, ?_, hbytes⟩
    have hfirst := h.first
    obtain _ | ⟨x, rest⟩ := d
    · exact absurd rfl hfirst
    · have hone := hbytes 1 (by rw [← hlen]; exact Nat.le_add_left 1 _)
      rw [fileBytes, hres, Option.bind_some] at hone
      dsimp only at hone
      rw [if_pos ht] at hone
      exact extents_of_byte hone hfirst

theorem Filed.freed (h : Filed total w d) (data : Bytes) (hlen : data.length ≤ 4096) :
    ∃ id inode, resolve (volumeOf w).content pathA = some (id, inode) ∧
      inode.type = typeRegular ∧ inode = (volumeOf w).content.inode id.toNat ∧
      Used (volumeOf w).content id.toNat ∧ (0 < blocksFor data →
        FreeRun (dropExtents (volumeOf w).content (Inode.extents inode)) (blocksFor data)) := by
  obtain ⟨id, inode, hres, ht, hinode, hu, -, hext, -⟩ := h.node
  refine ⟨id, inode, hres, ht, hinode, hu, fun hpos => ?_⟩
  rw [show blocksFor data = 1 by rw [blocksFor] at hpos ⊢; omega, hinode]
  exact freed_block h.closed.consistent hu (hinode ▸ hext)

theorem Filed.meets (h : Filed total w d) (call : RangeCall) (hlen : call.newLength d ≤ 4096) :
    Meets w rootDir fileA call := by
  intro full hfull
  obtain rfl := Option.some.inj (normalize_fileA.symm.trans hfull)
  have hd : bytesAt (volumeOf w).content fileA = some d := (fileAt_eq h.sees fileA).symm.trans h.bytes
  have hsmall : 4096 ≤ rawMax := by decide
  refine ⟨fun _ _ d' _ hd' => ?_, fun hnone => ?_, fun _ d' hd' _ => ⟨fun ha => ?_, ?_⟩⟩
  · obtain rfl := Option.some.inj (hd.symm.trans hd')
    exact h.small.trans hsmall
  · rw [terminated_pathA] at hnone
    rw [bytesAt_missing hnone] at hd
    cases hd
  · rw [show (volumeOf w).journalActive = false from h.closed.inactive] at ha
    cases ha
  · intro data uid gid hdata
    obtain rfl := Option.some.inj (hd.symm.trans hd')
    obtain ⟨id, inode, hres, ht, hinode, hu, hrun⟩ := h.freed data.bytes (hdata ▸ hlen)
    rw [Provided, WriteRoom, terminated_pathA, show fileA.bytes = pathA from rfl, hres]
    intro _ hpos _ _
    rw [hinode] at hrun ht ⊢
    exact Option.isSome_iff_ne_none.mp (freed_alloc h.closed.consistent hu ht hpos (hrun hpos))

theorem Filed.wrote (h : Filed total w d) {w' : System} (hsees : Sees total w' (volumeOf w))
    (hsector : WholeSectors dev) (hdev : total ≤ xfsFsBlocks dev) {data : Bytes}
    (hfirst : data.headD 0 ≠ 0) (hlen : data.length ≤ 4096) (uid gid : UInt32) :
    (xfsWrite w' fileA data uid gid).1 = true ∧ Filed total (xfsWrite w' fileA data uid gid).2 data := by
  have hsteady : Steady total w' (volumeOf w) := ⟨hsees.holds, hsees.consistent, h.closed.inactive⟩
  obtain ⟨id, inode, hres, ht, rfl, hu, hrun⟩ := h.freed data hlen
  obtain ⟨c, hover⟩ := overwrite_finds h.closed.consistent hu ht hrun (volumeOf w).generation uid gid
  have he : writeEffect (volumeOf w).content (volumeOf w).generation pathA data uid gid = .done 1 c := by
    rw [writeEffect, hres]
    exact hover
  have hbound : data.length < 2 ^ 63 := by omega
  have hok := operation_succeeds (o := .writeFile fileA ⟨data, hbound⟩ uid gid) hsteady h.mounted he
    hsector hdev
  exact ⟨hok, filed_of_write hsteady hsector hdev ⟨data, hbound⟩ hok hfirst hlen⟩

theorem Filed.write (h : Filed total w d) (hsector : WholeSectors dev) (hdev : total ≤ xfsFsBlocks dev)
    {w' : System} (hsees : Sees total w' (volumeOf w)) (offset : UInt64) (data : Bytes)
    (hfirst : (placed d offset.toNat data).headD 0 ≠ 0) (hlen : offset.toNat + data.length ≤ 4096) :
    (k64FsWriteFileRange w' rootDir fileA offset data).1 = true ∧
      Filed total (k64FsWriteFileRange w' rootDir fileA offset data).2 (placed d offset.toNat data) := by
  obtain ⟨id, inode, hres, ht, -, -, hsize, -, hbytes⟩ := h.node
  have hsmall := h.small
  obtain ⟨w'', uid, gid, hw, heq⟩ := range_written hsees normalize_fileA (by decide) hres ht offset data
    hsize.symm hbytes (Nat.le_trans (by omega) (show 4096 ≤ rawMax by decide))
  rw [heq]
  exact h.wrote hw hsector hdev hfirst (by rw [length_placed]; omega) uid gid

theorem Filed.append (h : Filed total w d) (hsector : WholeSectors dev) (hdev : total ≤ xfsFsBlocks dev)
    {text : CString} (hlen : d.length + text.bytes.length ≤ 4096) :
    (k64FsAppendFile w rootDir fileA text).1 = true ∧
      Filed total (k64FsAppendFile w rootDir fileA text).2 (d ++ text.bytes) := by
  obtain ⟨id, inode, hres, ht, -, -, hsize, -, -⟩ := h.node
  obtain ⟨st, hst, -, hsame⟩ := @stat_found _ _ fileA _ _ _ h.sees hres
  have hsees := (stat_sees h.sees fileA).2
  have hstart : st.size.toNat = d.length := by rw [hsame, hsize]
  have hplaced : placed d st.size.toNat text.bytes = d ++ text.bytes := by rw [hstart, placed_append]
  have hwrite := h.write hsector hdev hsees st.size text.bytes
    (by rw [hplaced, headD_append h.first]; exact h.first) (by omega)
  rw [hplaced] at hwrite
  rw [k64FsAppendFile, normalize_fileA]
  dsimp only
  rw [terminated_pathA, hst]
  exact hwrite

theorem small_filed : ∃ total, Filed total writtenSystem [7] ∧
    WholeSectors (System.geometry (blankSystem smallDevice)) ∧
    total ≤ xfsFsBlocks (System.geometry (blankSystem smallDevice)) := by
  obtain ⟨total, -, hcreated, -, hsector, hdev⟩ := small_closed
  exact ⟨total, filed_of_write hcreated.steady hsector hdev byteSeven created_written.2 (by decide)
    (by decide), hsector, hdev⟩

theorem small_ready : RunWhere XfsFailures.Ready (System.geometry (blankSystem smallDevice))
    (freshSystem smallDevice) writtenSystem := by
  obtain ⟨total, hfresh, -, -, hsector, hdev⟩ := small_closed
  exact settles_ready written_settled hsector hdev hfresh

def byteEight : Buffer := ⟨[8], by decide⟩

def textNine : CString := ⟨[9], by decide⟩

/-- A write behind the byte of `/a`, an append and a read. -/
def threeCalls : List (RangeCall × Answer) :=
  [(.write 1 byteEight, (true, [])), (.append textNine, (true, [])), (.read 0 3, (true, [7, 8, 9]))]

theorem RangeRun.cons {cwd path : CString} {call : RangeCall} {r : Answer}
    {rest : List (RangeCall × Answer)} (met : Meets u cwd path call) (hr : (call.run u cwd path).1 = r)
    (tail : RangeRun dev cwd path (call.run u cwd path).2 rest w) :
    RangeRun dev cwd path u ((call, r) :: rest) w := hr ▸ .call call met tail

theorem fileA_plain : ∀ full, fsNormalize rootDir.bytes fileA.bytes 256 = some full →
    isPseudoPath full = false := by
  intro full hfull
  obtain rfl := Option.some.inj (normalize_fileA.symm.trans hfull)
  decide

theorem Filed.write_run (h : Filed total w d) (hsector : WholeSectors dev)
    (hdev : total ≤ xfsFsBlocks dev) (offset : UInt64) (data : Buffer) {e : Bytes}
    (hnew : placed d offset.toNat data.bytes = e) (hfirst : e.headD 0 ≠ 0)
    (hlen : offset.toNat + data.bytes.length ≤ 4096) :
    ((RangeCall.write offset data).run w rootDir fileA).1 = (true, []) ∧
      Filed total ((RangeCall.write offset data).run w rootDir fileA).2 e := by
  subst hnew
  obtain ⟨hr, h'⟩ := h.write hsector hdev h.sees offset data.bytes hfirst hlen
  exact ⟨congrArg (·, []) hr, h'⟩

theorem Filed.append_run (h : Filed total w d) (hsector : WholeSectors dev)
    (hdev : total ≤ xfsFsBlocks dev) (text : CString) {e : Bytes} (hnew : d ++ text.bytes = e)
    (hlen : d.length + text.bytes.length ≤ 4096) :
    ((RangeCall.append text).run w rootDir fileA).1 = (true, []) ∧
      Filed total ((RangeCall.append text).run w rootDir fileA).2 e := by
  subst hnew
  obtain ⟨hr, h'⟩ := h.append hsector hdev hlen
  exact ⟨congrArg (·, []) hr, h'⟩

theorem Filed.read_run (h : Filed total w d) (hsector : WholeSectors dev)
    (hdev : total ≤ xfsFsBlocks dev) (offset size : ℕ) {out : Bytes}
    (hout : (d.drop offset).take size = out) :
    Meets w rootDir fileA (.read offset size) ∧
      ((RangeCall.read offset size).run w rootDir fileA).1 = (true, out) := by
  subst hout
  have hmeets := h.meets (.read offset size) (Nat.zero_le _)
  obtain ⟨-, href⟩ := call_refines h.sees hsector hdev CurrentDir.root.rooted fileA_plain hmeets
  refine ⟨hmeets, href.read offset size d rfl ?_⟩
  rw [fileOf, normalize_fileA]
  exact h.bytes

theorem Filed.three (h : Filed total w [7]) (hsector : WholeSectors dev)
    (hdev : total ≤ xfsFsBlocks dev) : ∃ w', RangeRun dev rootDir fileA w threeCalls w' := by
  obtain ⟨hr₁, h₁⟩ := h.write_run hsector hdev 1 byteEight (e := [7, 8]) (by decide) (by decide) (by decide)
  obtain ⟨hr₂, h₂⟩ := h₁.append_run hsector hdev textNine (e := [7, 8, 9]) rfl (by decide)
  obtain ⟨hmeets, hr₃⟩ := h₂.read_run hsector hdev 0 3 rfl
  exact ⟨_, .cons (h.meets _ (by decide)) hr₁ (.cons (h₁.meets _ (by decide)) hr₂
    (.cons hmeets hr₃ (.nil _)))⟩

theorem range_calls_follow_appended : ∃ w,
    RangeRun (System.geometry (blankSystem smallDevice)) rootDir fileA writtenSystem threeCalls w ∧
    Follows (fileOf writtenSystem rootDir fileA) threeCalls (fileOf w rootDir fileA) := by
  obtain ⟨total, h, hsector, hdev⟩ := small_filed
  obtain ⟨w, hrun⟩ := h.three hsector hdev
  exact ⟨w, hrun, range_calls_follow fresh_smallDevice (fun _ => rfl) (by decide) small_ready
    written_mounted rootDir fileA .root fileA_plain threeCalls hrun⟩

end SmallFile

/-- A device with room for a file of more than 16 MiB. -/
def roomyDevice : Device := { smallDevice with blockCount := 35200 }

theorem fresh_roomyDevice :
    FreshMount ⟨[], by simp⟩ (blankSystem roomyDevice) (freshSystem roomyDevice) :=
  (format_mount (s := blankSystem roomyDevice) ⟨[], by simp⟩ (by decide) (by decide) (by decide)
    fun _ => rfl).1

def zeros (n : ℕ) (h : n < 2 ^ 63) : Buffer := ⟨List.replicate n 0, by rwa [List.length_replicate]⟩

theorem length_zeros (n : ℕ) (h : n < 2 ^ 63) : (zeros n h).bytes.length = n := List.length_replicate

theorem write_new {generation : UInt64} {path data : List UInt8} {uid gid : UInt32} {j k : ℕ}
    {first last : Content} (hnone : resolve c path = none)
    (hcreate : createEffect c generation path typeRegular 0o644 uid gid = .done j first)
    (hres : resolve first path = some (id, inode))
    (hwrite : overwriteEffect first (generation + 1) inode data uid gid = .done k last) :
    writeEffect c generation path data uid gid = .done 2 last := by
  simp only [writeEffect, hnone, hcreate, hres, hwrite]

section FirstWrite

variable {dev : Geometry} {blocks : ℕ → XBlock}

theorem first_write (h84 : 84 ≤ total) (hsmall : total ≤ 32768) {data : List UInt8}
    (hroom : 83 + blocksFor data ≤ total) :
    ∃ c, writeEffect (formatted total blocks) 1 pathA data 0 0 = .done 2 c := by
  obtain ⟨hcons, hres, -⟩ := @resolve_first total blocks 0o644 0 0 1 h84 hsmall
  have hmarks : ∀ b, 83 ≤ b → (firstFile total blocks 1 0o644 0 0).blockUsed b = false :=
    fun b hb => decide_eq_false (show ¬ b < 83 by omega)
  have hcreate := @create_pathA total blocks h84 hsmall 1 0o644 0 0
  have htotal : (firstFile total blocks 1 0o644 0 0).total = total := rfl
  have ht : ((firstFile total blocks 1 0o644 0 0).inode 2).type = typeRegular := rfl
  generalize firstFile total blocks 1 0o644 0 0 = first at hcons hres hmarks hcreate htotal ht
  generalize first.inode 2 = inode at hres ht
  obtain ⟨hu, rfl, -, -⟩ := resolve_used hcons (by decide) hres
  obtain ⟨c, hc⟩ := overwrite_succeeds hcons hu ht
    (show FreeRun first (blocksFor data) from
      ⟨83, by decide, htotal ▸ hroom, fun b hb _ => hmarks b hb⟩) (1 + 1) 0 0
  exact ⟨c, write_new (resolve_pathA h84 hsmall) hcreate hres hc⟩

theorem first_range_write (h84 : 84 ≤ total) (hsmall : total ≤ 32768)
    (h : Sees total w (mountedVolume (formatted total blocks) 1))
    (hsector : WholeSectors dev)
    (hdev : total ≤ xfsFsBlocks dev) (data : Buffer) (hroom : 83 + blocksFor data.bytes ≤ total) :
    ((RangeCall.write 0 data).run w rootDir fileA).1.1 = true := by
  obtain ⟨hstat, -⟩ := fresh_fileOf h84 hsmall h
  have hafter := (stat_sees h fileA).2
  obtain ⟨c, he⟩ := @first_write total blocks h84 hsmall data.bytes hroom
  have hcall := operation_succeeds (k := 2) (c := c) (o := .writeFile fileA data 0 0)
    ⟨hafter.holds, hafter.consistent, rfl⟩ rfl (by rw [Operation.effect]; exact he) hsector hdev
  rw [RangeCall.run, k64FsWriteFileRange, normalize_fileA]
  dsimp only
  rw [terminated_pathA, stat_missing h hstat]
  dsimp only
  rw [Operation.call] at hcall
  rw [if_pos rfl, xfsWrite]
  dsimp only
  exact hcall

end FirstWrite

/-- Only what a file has already is kept within the limit: 16 MiB and a byte are put into a new one. -/
theorem new_file_beyond_limit :
    FreshMount ⟨[], by simp⟩ (blankSystem roomyDevice) (freshSystem roomyDevice) ∧
    ¬ Follows (fileOf (freshSystem roomyDevice) rootDir fileA)
      [(.write 0 (zeros 16777217 (by decide)), ((RangeCall.write 0 (zeros 16777217 (by decide))).run
        (freshSystem roomyDevice) rootDir fileA).1)]
      (fileOf ((RangeCall.write 0 (zeros 16777217 (by decide))).run (freshSystem roomyDevice) rootDir
        fileA).2 rootDir fileA) := by
  have hlen := length_zeros 16777217 (by decide)
  generalize zeros 16777217 _ = data at hlen ⊢
  have hsmall : xfsFsBlocks (System.geometry (blankSystem roomyDevice)) ≤ 32768 := by decide
  obtain ⟨h84, hdev, hholds⟩ := fresh_holds fresh_roomyDevice (fun _ => rfl) hsmall
  have hsees : Sees _ (freshSystem roomyDevice) _ :=
    ⟨hholds, formatted_consistent roomyDevice.block h84 hsmall, rfl⟩
  obtain ⟨-, hnone⟩ := fresh_fileOf h84 hsmall hsees
  have hcall := first_range_write h84 hsmall hsees (sector_of_ok hdev) (Nat.le_refl _) data (by
    rw [blocksFor, hlen]
    decide)
  refine ⟨fresh_roomyDevice, ?_⟩
  rintro ⟨after, href, -⟩
  rw [hnone] at href
  have hrefused := href.limit (by
    rw [RangeCall.newLength, hlen]
    decide)
  rw [hcall] at hrefused
  cases hrefused

end FsRanges
