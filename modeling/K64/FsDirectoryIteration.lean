import K64.FileTree
import K64.XfsEmptyDirectories

/-! # Iterating over a directory

`k64_fs_iter_dir` has a directory listed as text into a buffer of 4096 bytes and takes the names out
of the lines again. The text has no other mark for the end of a name than the line feed, and a slash
for a directory. -/
namespace FsDirectoryIteration

open XfsFormat XfsCache XfsJournal XfsInode XfsCalls XfsDirectory XfsOperations XfsVolume
  XfsConsistency XfsLookup XfsDirectoryUpdate XfsOperationEffects XfsResolving XfsMounting
  XfsFormatting XfsListing XfsSystem XfsRuns XfsFileMap XfsSmallVolume XfsTree XfsEmptyDirectories
open FsPaths (dot fsCopy fsNormalize)
open FileTree (isPseudoPath procPath devPath)

def terminated (buffer : List UInt8) : CString where
  bytes := buffer.takeWhile (· != 0)
  noNul h := by simpa using List.mem_takeWhile_imp h

/-- "version" and "services", one to a line. -/
def procListing : List UInt8 :=
  [118, 101, 114, 115, 105, 111, 110, 10, 115, 101, 114, 118, 105, 99, 101, 115, 10]

/-- "null", "console" and "tty0", one to a line. -/
def devListing : List UInt8 :=
  [110, 117, 108, 108, 10, 99, 111, 110, 115, 111, 108, 101, 10, 116, 116, 121, 48, 10]

def fsPseudoLs (path : List UInt8) (outSize : ℕ) : Option (List UInt8) :=
  if path = procPath then some (fsCopy outSize procListing)
  else if path = devPath then some (fsCopy outSize devListing)
  else none

/-- `k64_fs_ls` with the root volume of `u` and the current directory `cwd`. -/
def k64FsLs (u : System) (cwd path : CString) (outSize : ℕ) : Option (List UInt8) :=
  (fsNormalize cwd.bytes (if path.bytes = [] then [dot] else path.bytes) 256).bind fun full =>
    (if isPseudoPath full then fsPseudoLs full outSize
      else (u.call (lowered (k64XfsListDir (terminated full) outSize))).1).map fun out =>
        if (terminated out).bytes = [] then fsCopy outSize [dot, 10] else (terminated out).bytes

/-- What the loop of `k64_fs_iter_dir` makes of a line: it keeps 127 bytes, skips "." and takes a
slash at the end for the mark of a directory. -/
def entryOf (line : List UInt8) : Option (List UInt8 × Bool) :=
  let name := line.take 127
  if name = [] ∨ name = [dot] then none
  else if name.getLast? = some slash then some (name.dropLast, true)
  else some (name, false)

variable {σ : Type}

/-- The loop, with the lines still to come; it ends when the callback answers false. -/
def iterLines (fn : List UInt8 → Bool → σ → Bool × σ) : ℕ → List UInt8 → σ → σ
  | 0, _, s => s
  | n + 1, text, s =>
    if text = [] then s
    else
      let rest := (text.dropWhile (· != 10)).drop 1
      match entryOf (text.takeWhile (· != 10)) with
      | none => iterLines fn n rest s
      | some (name, isDir) =>
        let (go, s) := fn name isDir s
        if go then iterLines fn n rest s else s

/-- `k64_fs_iter_dir`; `s` is what the callback keeps in its context. -/
def k64FsIterDir (u : System) (cwd path : CString) (fn : List UInt8 → Bool → σ → Bool × σ) (s : σ) :
    Bool × σ :=
  match k64FsLs u cwd path 4096 with
  | none => (false, s)
  | some listing => (true, iterLines fn listing.length listing s)

abbrev Visit := List UInt8 × Bool

def record (name : List UInt8) (isDir : Bool) (calls : List Visit) : Bool × List Visit :=
  (true, calls ++ [(name, isDir)])

def visits (u : System) (cwd path : CString) : Bool × List Visit := k64FsIterDir u cwd path record []

/-- One call for every name below `full`, with the mark of a directory, and no other. -/
structure VisitsEntries (u : System) (cwd path : CString) (full : List UInt8) : Prop where
  done : (visits u cwd path).1 = true
  once : ((visits u cwd path).2.map Prod.fst).Nodup
  exact : ∀ name isDir, (name, isDir) ∈ (visits u cwd path).2 ↔ NameOk name ∧ ∃ id inode,
    resolved u (full ++ slash :: name) = some (id, inode) ∧ isDir = (inode.type == typeDirectory)

def visit (e : Dirent) : Visit := (nameOf e, e.type == typeDirectory)

/-- The names of a directory survive their way through the text. -/
structure Listable (u : System) (dir : Inode) : Prop where
  oneLine : ∀ e ∈ dirEntries u dir, (10 : UInt8) ∉ nameOf e
  marked : ∀ e ∈ dirEntries u dir, e.type = typeDirectory → (nameOf e).length ≤ 126
  fits : (listingText ((dirEntries u dir).map visit)).length ≤ 4095

def lineOf (x : Visit) : List UInt8 := x.1 ++ (if x.2 then [slash] else []) ++ [10]

theorem listingText_cons (x : Visit) (xs : List Visit) :
    listingText (x :: xs) = lineOf x ++ listingText xs := List.flatMap_cons

theorem listingText_append (xs ys : List Visit) :
    listingText (xs ++ ys) = listingText xs ++ listingText ys := List.flatMap_append

theorem length_lineOf (x : Visit) :
    (lineOf x).length = x.1.length + (if x.2 then 1 else 0) + 1 := by
  obtain ⟨name, isDir⟩ := x
  cases isDir <;> simp [lineOf]

theorem entryOf_some {line : List UInt8} {x : Visit} (h : entryOf line = some x) :
    (∀ b ∈ x.1, b ∈ line) ∧ x.1.length + (if x.2 then 1 else 0) ≤ line.length ∧
      x.1.length + (if x.2 then 1 else 0) ≤ 127 := by
  have htake : ∀ b ∈ line.take 127, b ∈ line := fun b => List.mem_of_mem_take
  have hlen : (line.take 127).length = min 127 line.length := List.length_take
  unfold entryOf at h
  dsimp only at h
  split_ifs at h with hskip hslash
  · obtain rfl := Option.some.inj h
    have hpos : 0 < (line.take 127).length :=
      List.length_pos_iff.mpr fun hnil => hskip (Or.inl hnil)
    have hdrop : ((line.take 127).dropLast).length = (line.take 127).length - 1 :=
      List.length_dropLast
    refine ⟨fun b hb => htake b (List.dropLast_subset _ hb), ?_, ?_⟩
    · simp only [if_true]
      omega
    · simp only [if_true]
      omega
  · obtain rfl := Option.some.inj h
    exact ⟨htake, by simp only [Bool.false_eq_true, if_false]; omega,
      by simp only [Bool.false_eq_true, if_false]; omega⟩

theorem entryOf_line {name : List UInt8} {isDir : Bool} (hname : NameOk name)
    (hfit : isDir = true → name.length ≤ 126) :
    entryOf (name ++ if isDir then [slash] else []) = some (name, isDir) := by
  have hpos := hname.length_pos
  have hlt := hname.length_lt
  have hne : name ≠ [] := List.length_pos_iff.mp hpos
  cases isDir with
  | true =>
    have hle := hfit rfl
    have htake : (name ++ [slash]).take 127 = name ++ [slash] :=
      List.take_of_length_le (by rw [List.length_append, List.length_singleton]; omega)
    have hskip : ¬ (name ++ [slash] = [] ∨ name ++ [slash] = [dot]) := by
      rintro (h | h)
      · exact absurd h (by simp)
      · exact absurd (congrArg List.getLast? h) (by rw [List.getLast?_concat]; decide)
    simp only [entryOf, if_true, htake, if_neg hskip, List.getLast?_concat, List.dropLast_concat]
  | false =>
    have htake : name.take 127 = name := List.take_of_length_le (by omega)
    have hskip : ¬ (name = [] ∨ name = [dot]) := by
      rintro (h | h)
      · exact hne h
      · have hvalid := hname.valid
        rw [h] at hvalid
        exact absurd hvalid (by decide)
    have hlast : name.getLast? ≠ some slash := fun h =>
      hname.noSlash (List.mem_of_getLast? h)
    simp only [entryOf, Bool.false_eq_true, if_false, List.append_nil, htake, if_neg hskip,
      if_neg hlast]

theorem iterLines_line {n : ℕ} {line rest : List UInt8} (h : (10 : UInt8) ∉ line)
    (calls : List Visit) : iterLines record (n + 1) (line ++ 10 :: rest) calls =
      iterLines record n rest (calls ++ (entryOf line).toList) := by
  have hline : ∀ b ∈ line, (b != 10) = true := fun b hb => by
    simpa using fun he : b = 10 => h (he ▸ hb)
  rw [iterLines, if_neg (by simp), List.takeWhile_append_of_pos hline,
    List.dropWhile_append_of_pos hline, List.takeWhile_cons_of_neg (by decide),
    List.dropWhile_cons_of_neg (by decide), List.append_nil]
  cases entryOf line with
  | none => simp
  | some x => simp [record]

def Ended (text : List UInt8) : Prop := text = [] ∨ text.getLast? = some 10

theorem Ended.split {text : List UInt8} (h : Ended text) (hne : text ≠ []) :
    ∃ line rest, text = line ++ 10 :: rest ∧ (10 : UInt8) ∉ line ∧ Ended rest := by
  have hlast := h.resolve_left hne
  have hmem : (10 : UInt8) ∈ text := List.mem_of_getLast? hlast
  obtain ⟨line, rest, hsplit, hline⟩ := List.eq_append_cons_of_mem hmem
  refine ⟨line, rest, hsplit, hline, ?_⟩
  by_cases hrest : rest = []
  · exact Or.inl hrest
  · right
    rw [hsplit, List.getLast?_append_of_ne_nil _ (by simp), List.getLast?_cons_of_ne_nil hrest]
      at hlast
    exact hlast

theorem iterLines_within (n : ℕ) : ∀ (text : List UInt8) (calls : List Visit), Ended text →
    ∃ more, iterLines record n text calls = calls ++ more ∧
      (listingText more).length ≤ text.length ∧
      ∀ x ∈ more, (10 : UInt8) ∉ x.1 ∧ (x.2 = true → x.1.length ≤ 126) := by
  induction n with
  | zero => exact fun text calls _ => ⟨[], (List.append_nil _).symm, Nat.zero_le _, by simp⟩
  | succ n ih =>
    intro text calls h
    by_cases hnil : text = []
    · rw [iterLines, if_pos hnil]
      exact ⟨[], (List.append_nil _).symm, Nat.zero_le _, by simp⟩
    obtain ⟨line, rest, rfl, hline, hrest⟩ := h.split hnil
    rw [iterLines_line hline]
    obtain ⟨more, hmore, hlen, hgood⟩ := ih rest (calls ++ (entryOf line).toList) hrest
    refine ⟨(entryOf line).toList ++ more, by rw [hmore, List.append_assoc], ?_, ?_⟩
    · rw [listingText_append, List.length_append, List.length_append, List.length_cons]
      cases hx : entryOf line with
      | none =>
        simp only [Option.toList_none]
        have : (listingText []).length = 0 := rfl
        omega
      | some x =>
        obtain ⟨-, hle, -⟩ := entryOf_some hx
        rw [Option.toList_some, listingText_cons, List.length_append, length_lineOf]
        have : (listingText []).length = 0 := rfl
        omega
    · intro x hx
      rcases List.mem_append.mp hx with hx | hx
      · obtain ⟨hsub, -, hle⟩ := entryOf_some (Option.mem_toList.mp hx)
        refine ⟨fun h10 => hline (hsub 10 h10), fun hd => ?_⟩
        rw [if_pos hd] at hle
        omega
      · exact hgood x hx

theorem iterLines_listing (xs : List Visit) : ∀ (n : ℕ) (calls : List Visit), xs.length ≤ n →
    (∀ x ∈ xs, NameOk x.1 ∧ (10 : UInt8) ∉ x.1 ∧ (x.2 = true → x.1.length ≤ 126)) →
    iterLines record n (listingText xs) calls = calls ++ xs := by
  induction xs with
  | nil =>
    intro n calls _ _
    cases n with
    | zero => exact (List.append_nil _).symm
    | succ n => exact (if_pos rfl).trans (List.append_nil _).symm
  | cons x xs ih =>
    intro n calls hn h
    obtain ⟨m, rfl⟩ : ∃ m, n = m + 1 := ⟨n - 1, by simp at hn; omega⟩
    obtain ⟨hname, h10, hfit⟩ := h x List.mem_cons_self
    have hline : (10 : UInt8) ∉ x.1 ++ if x.2 then [slash] else [] := by
      rw [List.mem_append, not_or]
      refine ⟨h10, ?_⟩
      split
      · decide
      · exact List.not_mem_nil
    rw [listingText_cons, lineOf, List.append_assoc, List.singleton_append, iterLines_line hline,
      entryOf_line hname hfit, ih m _ (by simp at hn; omega) fun y hy =>
        h y (List.mem_cons_of_mem _ hy), Option.toList_some, List.append_assoc,
      List.singleton_append]

variable {c : Content} {total : ℕ} {s t u : System} {V : Volume} {label : CString}

theorem listBytes_eq_foldl {dir : Inode} {outSize : ℤ} (n : ℕ) : ∀ (b : ℕ) (out : List UInt8),
    listBytes c dir outSize b n out = (entriesFrom c dir b n).foldl (listEntry outSize) out := by
  induction n with
  | zero => exact fun _ _ => rfl
  | succ n ih =>
    intro b out
    have hblock : (List.range 25).foldl (fun o s => listEntry outSize o (dirent (c.dataOf dir b) s))
        out = (blockEntries (c.dataOf dir b)).foldl (listEntry outSize) out := by
      rw [blockEntries, List.foldl_filter, List.foldl_map]
      refine List.foldl_ext _ _ _ fun o s _ => ?_
      by_cases he : (dirent (c.dataOf dir b) s).inodeId = 0
      · rw [if_neg (by simpa using he), listEntry, if_pos he]
      · rw [if_pos (by simpa using he)]
    rw [listBytes, hblock, ih, entriesFrom, entriesFrom, List.range'_succ, List.flatMap_cons,
      List.foldl_append]

structure Cut (out : List UInt8) : Prop where
  fits : out.length ≤ 4095
  ended : Ended out
  noNul : (0 : UInt8) ∉ out

theorem push_below (start bytes : List UInt8) : ∀ out : List UInt8,
    (0 : UInt8) ∉ bytes → (0 : UInt8) ∉ out → (out.length ≤ 4094 ∨ out = start) →
    (0 : UInt8) ∉ bytes.foldl (fun o c => if (o.length : ℤ) + 2 < 4096 then o ++ [c] else o) out ∧
      ((bytes.foldl (fun o c => if (o.length : ℤ) + 2 < 4096 then o ++ [c] else o) out).length ≤
        4094 ∨ bytes.foldl (fun o c => if (o.length : ℤ) + 2 < 4096 then o ++ [c] else o) out =
          start) := by
  induction bytes with
  | nil => exact fun out _ h0 h => ⟨h0, h⟩
  | cons x rest ih =>
    intro out hbytes h0 h
    rw [List.mem_cons, not_or] at hbytes
    rw [List.foldl_cons]
    by_cases hroom : (out.length : ℤ) + 2 < 4096
    · rw [if_pos hroom]
      refine ih _ hbytes.2 ?_ (Or.inl ?_)
      · rw [List.mem_append, List.mem_singleton, not_or]
        exact ⟨h0, hbytes.1⟩
      · rw [List.length_append, List.length_singleton]
        omega
    · rw [if_neg hroom]
      exact ih out hbytes.2 h0 h

theorem listEntry_cut {out : List UInt8} {e : Dirent} (h : Cut out) (he : (0 : UInt8) ∉ nameOf e) :
    Cut (listEntry 4096 out e) := by
  unfold listEntry
  split
  · exact h
  obtain ⟨h0, hlen⟩ := push_below out (nameOf e) out he h.noNul (Or.inr rfl)
  change (0 : UInt8) ∉ (e.name.toList.take e.nameLen.toNat).foldl _ out at h0
  change ((e.name.toList.take e.nameLen.toNat).foldl _ out).length ≤ 4094 ∨
    (e.name.toList.take e.nameLen.toNat).foldl _ out = out at hlen
  set name := (e.name.toList.take e.nameLen.toNat).foldl
    (fun o c => if (o.length : ℤ) + 2 < 4096 then o ++ [c] else o) out
  have hmark : (0 : UInt8) ∉ (if e.type = typeDirectory ∧ (name.length : ℤ) + 2 < 4096 then
      name ++ [slash] else name) ∧ ((if e.type = typeDirectory ∧ (name.length : ℤ) + 2 < 4096 then
        name ++ [slash] else name).length ≤ 4094 ∨ (if e.type = typeDirectory ∧
          (name.length : ℤ) + 2 < 4096 then name ++ [slash] else name) = out) := by
    split
    · next hroom =>
      refine ⟨?_, Or.inl ?_⟩
      · rw [List.mem_append, not_or]
        exact ⟨h0, by decide⟩
      · rw [List.length_append, List.length_singleton]
        omega
    · exact ⟨h0, hlen⟩
  dsimp only
  set marked := if e.type = typeDirectory ∧ (name.length : ℤ) + 2 < 4096 then name ++ [slash]
    else name
  obtain ⟨h0, hlen⟩ := hmark
  split
  · next hroom =>
    refine ⟨?_, Or.inr List.getLast?_concat, ?_⟩
    · rw [List.length_append, List.length_singleton]
      omega
    · rw [List.mem_append, not_or]
      exact ⟨h0, by decide⟩
  · next hfull =>
    rcases hlen with hlen | hlen
    · omega
    · rw [hlen]
      exact h

theorem foldl_cut (entries : List Dirent) : ∀ {out : List UInt8}, Cut out →
    (∀ e ∈ entries, (0 : UInt8) ∉ nameOf e) → Cut (entries.foldl (listEntry 4096) out) := by
  induction entries with
  | nil => exact fun h _ => h
  | cons e rest ih =>
    intro out h he
    exact ih (listEntry_cut h (he e List.mem_cons_self)) fun x hx => he x (List.mem_cons_of_mem _ hx)

theorem entries_named (h : Steady total u V) {id : ℕ} (hu : Used V.content id)
    (ht : (V.content.inode id).type = typeDirectory) :
    ∀ e ∈ dirEntries u (V.content.inode id), NameOk (nameOf e) := by
  intro e he
  rw [steady_dirEntries h hu] at he
  obtain ⟨b, s, hl⟩ := (mem_entries h.consistent hu ht).mp he
  obtain ⟨name, hname, hmade⟩ := (h.consistent.entries _ _ _ _ hl).made
  rw [hmade, nameOf_makeDirent hname.length_lt]
  exact hname

def listing (u : System) (dir : Inode) : List UInt8 := (dirEntries u dir).foldl (listEntry 4096) []

theorem terminated_of_noNul {bytes : List UInt8} (h : (0 : UInt8) ∉ bytes) :
    (terminated bytes).bytes = bytes :=
  List.takeWhile_eq_self_iff.mpr fun x hx => by simpa using fun h0 : x = 0 => h (h0 ▸ hx)

theorem listed_text (h : Steady total u V) (hm : V.mounted = true) {path : CString} {id : UInt32}
    {dir : Inode} (hres : resolved u path.bytes = some (id, dir)) (ht : dir.type = typeDirectory) :
    (u.call (lowered (k64XfsListDir path 4096))).1 = some (listing u dir) := by
  have hans := steady_answers h hm
  rw [hans.resolved] at hres
  obtain ⟨hu, rfl, -, -⟩ := resolve_used h.consistent path.noNul hres
  have hpath : orRoot path = path.bytes := if_neg fun hnil => by
    have hhead := resolve_head hres
    rw [hnil] at hhead
    cases hhead
  rw [hans.list, dirListing, if_pos (by decide), hpath, hres, Option.bind_some]
  dsimp only
  rw [if_pos ht, listBytes_eq_foldl, listing, steady_dirEntries h hu]

theorem listing_cut (h : Steady total u V) {id : ℕ} (hu : Used V.content id)
    (ht : (V.content.inode id).type = typeDirectory) : Cut (listing u (V.content.inode id)) :=
  foldl_cut _ ⟨by decide, Or.inl rfl, List.not_mem_nil⟩ fun e he => (entries_named h hu ht e he).noNul

theorem listing_full (h : Steady total u V) {id : ℕ} (hu : Used V.content id)
    (hfit : (listingText ((dirEntries u (V.content.inode id)).map visit)).length ≤ 4095) :
    listing u (V.content.inode id) = listingText ((dirEntries u (V.content.inode id)).map visit) := by
  have htext : listingText ((dirEntries u (V.content.inode id)).map visit) = _ :=
    listingText_lines (dirEntries u (V.content.inode id))
  rw [htext] at hfit ⊢
  rw [steady_dirEntries h hu] at hfit ⊢
  rw [listing, steady_dirEntries h hu, ← listBytes_eq_foldl,
    listBytes_lines _ _ _ (by rw [List.nil_append]; omega), List.nil_append]

theorem visits_listing (h : Steady total u V) {cwd path : CString} {full : List UInt8} {id : UInt32}
    {dir : Inode} (hfull : fsNormalize cwd.bytes path.bytes 256 = some full)
    (hreal : isPseudoPath full = false) (hres : resolved u (terminated full).bytes = some (id, dir))
    (ht : dir.type = typeDirectory) :
    visits u cwd path = (true, iterLines record (listing u dir).length (listing u dir) []) := by
  have hm := resolved_mounted h hres
  have htext := listed_text h hm hres ht
  rw [(steady_answers h hm).resolved] at hres
  obtain ⟨hu, hdir, -, -⟩ := resolve_used h.consistent (terminated full).noNul hres
  have hcut := hdir ▸ listing_cut h hu (hdir ▸ ht)
  have hpath : fsNormalize cwd.bytes (if path.bytes = [] then [dot] else path.bytes) 256 =
      some full := by
    by_cases hnil : path.bytes = []
    · rw [if_pos hnil, ← hfull, hnil]
      rfl
    · rw [if_neg hnil, hfull]
  have hls : k64FsLs u cwd path 4096 =
      some (if listing u dir = [] then [dot, 10] else listing u dir) := by
    rw [k64FsLs, hpath, Option.bind_some, hreal, if_neg (by decide)]
    rw [show ((4096 : ℕ) : ℤ) = 4096 from rfl, htext, Option.map_some,
      terminated_of_noNul hcut.noNul]
    rfl
  rw [visits, k64FsIterDir, hls]
  dsimp only
  by_cases hnil : listing u dir = []
  · rw [if_pos hnil, hnil]
    rfl
  · rw [if_neg hnil]

theorem visits_iff_perm (h : Steady total u V) {cwd path : CString} {full : List UInt8}
    {id : UInt32} {dir : Inode} {calls : List Visit}
    (hres : resolved u (terminated full).bytes = some (id, dir)) (ht : dir.type = typeDirectory)
    (hcalls : visits u cwd path = (true, calls)) :
    VisitsEntries u cwd path (terminated full).bytes ↔
      calls.Perm ((dirEntries u dir).map visit) := by
  have hm := resolved_mounted h hres
  have hresolve := hres
  rw [(steady_answers h hm).resolved] at hresolve
  obtain ⟨hu, hdir, -, -⟩ := resolve_used h.consistent (terminated full).noNul hresolve
  have hentries : dirEntries u dir = entriesFrom V.content dir 0 (sizeBlocks dir.size) := by
    rw [hdir]
    exact steady_dirEntries h hu
  have hmem := fun (name : List UInt8) (isDir : Bool) => @mem_listed _ _ _ h hm _
    (terminated full).noNul _ _ hres ht name isDir
  have hnodup : (((dirEntries u dir).map visit).map Prod.fst).Nodup := by
    rw [List.map_map, hentries, hdir]
    exact entries_nodup h.consistent hu (hdir ▸ ht)
  rw [← hentries] at hmem
  constructor
  · intro hv
    have honce := hv.once
    have hexact := hv.exact
    rw [hcalls] at honce hexact
    refine (List.perm_ext_iff_of_nodup honce.of_map hnodup.of_map).mpr fun x => ?_
    exact (hexact x.1 x.2).trans (hmem x.1 x.2).symm
  · intro hperm
    refine ⟨by rw [hcalls], ?_, fun name isDir => ?_⟩
    · rw [hcalls]
      exact (hperm.map Prod.fst).nodup_iff.mpr hnodup
    · rw [hcalls]
      exact hperm.mem_iff.trans (hmem name isDir)

theorem length_le_listing (xs : List Visit) : xs.length ≤ (listingText xs).length := by
  induction xs with
  | nil => exact Nat.zero_le _
  | cons x xs ih =>
    rw [listingText_cons, List.length_append, length_lineOf, List.length_cons]
    omega

theorem listable_of_visits (h : Steady total u V) {cwd path : CString} {full : List UInt8}
    {id : UInt32} {dir : Inode} (hfull : fsNormalize cwd.bytes path.bytes 256 = some full)
    (hreal : isPseudoPath full = false) (hres : resolved u (terminated full).bytes = some (id, dir))
    (ht : dir.type = typeDirectory) (hv : VisitsEntries u cwd path (terminated full).bytes) :
    Listable u dir := by
  have hperm := (visits_iff_perm h hres ht (visits_listing h hfull hreal hres ht)).mp hv
  rw [(steady_answers h (resolved_mounted h hres)).resolved] at hres
  obtain ⟨hu, rfl, -, -⟩ := resolve_used h.consistent (terminated full).noNul hres
  have hcut := listing_cut h hu ht
  obtain ⟨more, hmore, hlen, hgood⟩ := iterLines_within _ _ [] hcut.ended
  rw [hmore, List.nil_append] at hperm
  have hin : ∀ e ∈ dirEntries u (V.content.inode id.toNat), visit e ∈ more := fun e he =>
    hperm.mem_iff.mpr (List.mem_map_of_mem he)
  refine ⟨fun e he => (hgood _ (hin e he)).1, fun e he hd => ?_, ?_⟩
  · exact (hgood _ (hin e he)).2 (beq_iff_eq.mpr hd)
  · have hsame : (listingText more).length = _ := (hperm.flatMap_right _).length_eq
    have hfits := hcut.fits
    rw [listingText]
    omega

/-- On every volume that successful calls have made of a formatted one, the iteration visits every
entry of a directory once exactly when the names survive their way through the text. -/
theorem visits_entries_iff {calls : List (PublicCall × Bool)} (hfresh : FreshMount label s t)
    (hf : ∀ i, s.machine.dev.faults i = false)
    (hsmall : xfsFsBlocks (System.geometry s) ≤ 32768)
    (hrun : Run (System.geometry s) t calls u) (hok : ∀ c ∈ calls, c.2 = true)
    (cwd path : CString) (full : List UInt8)
    (hfull : fsNormalize cwd.bytes path.bytes 256 = some full) (hreal : isPseudoPath full = false)
    (id : UInt32) (dir : Inode) (hres : resolved u (terminated full).bytes = some (id, dir))
    (ht : dir.type = typeDirectory) :
    VisitsEntries u cwd path (terminated full).bytes ↔ Listable u dir := by
  obtain ⟨V, hV⟩ := fresh_run_steady hfresh hf hsmall hrun hok
  constructor
  · exact listable_of_visits hV hfull hreal hres ht
  · intro hl
    rw [visits_iff_perm hV hres ht (visits_listing hV hfull hreal hres ht)]
    rw [(steady_answers hV (resolved_mounted hV hres)).resolved] at hres
    obtain ⟨hu, rfl, -, -⟩ := resolve_used hV.consistent (terminated full).noNul hres
    rw [listing_full hV hu hl.fits, iterLines_listing _ _ _ (length_le_listing _), List.nil_append]
    intro x hx
    obtain ⟨e, he, rfl⟩ := List.mem_map.mp hx
    exact ⟨entries_named hV hu ht e he, hl.oneLine e he, fun hd => hl.marked e he (beq_iff_eq.mp hd)⟩

theorem slash_noNul : (0 : UInt8) ∉ [slash] := by decide

/-- The path "/". -/
def rootDir : CString := ⟨[slash], slash_noNul⟩

def pathFeed : CString := ⟨[slash, 10], by decide⟩

theorem resolved_rootDir (h : Steady total u V) (hm : V.mounted = true) :
    resolved u (terminated [slash]).bytes = some (1, V.content.inode 1) :=
  ((steady_answers h hm).resolved _).trans (resolve_root h.consistent)

/-- The root of a volume with a directory `/a` has an entry to visit. -/
theorem visits_directory : ∃ dir, resolved dirSystem (terminated [slash]).bytes = some (1, dir) ∧
    dirEntries dirSystem dir ≠ [] ∧
    (VisitsEntries dirSystem rootDir rootDir (terminated [slash]).bytes ↔ Listable dirSystem dir) := by
  obtain ⟨hrun, x, -, -, hres⟩ := dirSystem_reached
  obtain ⟨V, hV⟩ := fresh_run_steady fresh_smallDevice (fun _ => rfl) (by decide) hrun (by simp)
  have hm := resolved_mounted hV hres
  have hc := hV.consistent
  have hroot := resolved_rootDir hV hm
  refine ⟨_, hroot, fun hnone => ?_, visits_entries_iff fresh_smallDevice (fun _ => rfl) (by decide)
    hrun (by simp) rootDir rootDir [slash] (by decide) (by decide) 1 _ hroot hc.rootDir⟩
  rw [(steady_answers hV hm).resolved, XfsRenaming.resolve_locate hc noNul_pathSlashes head_pathSlashes,
    tokens_pathSlashes, locate, List.foldlM_cons] at hres
  obtain ⟨id, hid, -⟩ := Option.map_eq_some_iff.mp hres
  obtain ⟨k, hchild, -⟩ := Option.bind_eq_some_iff.mp hid
  obtain ⟨b, n, e, hlive, -⟩ := (childOf_eq_some hc hc.rootInUse (by decide)).mp hchild
  have hin := (mem_entries hc hc.rootInUse hc.rootDir).mpr ⟨b, n, hlive⟩
  rw [← steady_dirEntries hV hc.rootInUse, hnone] at hin
  cases hin

theorem tokens_pathFeed : tokens pathFeed.bytes = [[10]] := by decide

theorem created_feed {data : ℕ → XBlock} {dev : Geometry} (h84 : 84 ≤ total)
    (hsmall : total ≤ 32768) (hV : Steady total s (mountedVolume (formatted total data) 1))
    (hsector : WholeSectors dev)
    (ht : total ≤ xfsFsBlocks dev) :
    (s.call (lowered (k64XfsCreate pathFeed 0o644 0 0))).1.isSome = true ∧
    ∃ dir, resolved (s.call (lowered (k64XfsCreate pathFeed 0o644 0 0))).2
        (terminated [slash]).bytes = some (1, dir) ∧ dir.type = typeDirectory ∧
      ∃ e ∈ dirEntries (s.call (lowered (k64XfsCreate pathFeed 0o644 0 0))).2 dir,
        (10 : UInt8) ∈ nameOf e := by
  have heff : createEffect (formatted total data) _ pathFeed.bytes typeRegular _ _ _ = _ :=
    create_first h84 hsmall (show xfsSplitParent pathFeed.bytes = some ([slash], [10]) by decide)
      (by decide) 1 0o644 0 0
  have hcall := operation_succeeds (o := .create pathFeed 0o644 0 0) hV rfl
    (by rw [Operation.effect]; exact heff) hsector ht
  obtain ⟨hm, k, V', he, hW, hans⟩ := operation_stepped
    (o := .create pathFeed 0o644 0 0) hV hsector ht hcall
  rw [Operation.effect] at he
  obtain ⟨-, parent, id, names, leaf, hcr⟩ := create_done hV.consistent pathFeed.noNul (Or.inl rfl) he
  have htok := hcr.tokens
  rw [tokens_pathFeed] at htok
  obtain ⟨hnames, hleaf⟩ := List.append_inj' (show [] ++ [[10]] = names ++ [leaf] from htok) rfl
  have hparent := hcr.located
  rw [← hnames, locate, List.foldlM_nil] at hparent
  obtain rfl := Option.some.inj hparent
  obtain rfl := (List.cons.inj hleaf).1
  have hchild := hcr.child [10] (by decide)
  rw [if_pos rfl] at hchild
  obtain ⟨b, n, e, hlive, hname, -⟩ :=
    (childOf_eq_some hW.consistent hcr.parentUsed (by decide)).mp hchild
  refine ⟨hcall, V'.content.inode 1, (hans.resolved _).trans (resolve_root hW.consistent),
    hW.consistent.rootDir, e, ?_, ?_⟩
  · have hin := (mem_entries hW.consistent hcr.parentUsed hW.consistent.rootDir).mpr ⟨b, n, hlive⟩
    rw [← steady_dirEntries hW hcr.parentUsed] at hin
    exact hin
  · rw [hname]
    exact List.mem_singleton.mpr rfl

/-- The small volume with an empty file whose name is a line feed. -/
def feedSystem : System :=
  ((freshSystem smallDevice).call (lowered (k64XfsCreate pathFeed 0o644 0 0))).2

/-- The file is in the directory, but it is not visited. -/
theorem feed_not_visited :
    Run smallDevice.toGeometry (freshSystem smallDevice)
      [(.operation (.create pathFeed 0o644 0 0), true)] feedSystem ∧
    ∃ dir, resolved feedSystem (terminated [slash]).bytes = some (1, dir) ∧
      dir.type = typeDirectory ∧
      ¬ VisitsEntries feedSystem rootDir rootDir (terminated [slash]).bytes := by
  have hsmall : xfsFsBlocks (System.geometry (blankSystem smallDevice)) ≤ 32768 := by decide
  obtain ⟨h84, hdev, hholds⟩ := fresh_holds fresh_smallDevice (fun _ => rfl) hsmall
  obtain ⟨hok, dir, hres, ht, e, he, h10⟩ := created_feed h84 hsmall
    ⟨hholds, formatted_consistent smallDevice.block h84 hsmall, rfl⟩ (sector_of_ok hdev)
    (Nat.le_refl _)
  have hrun : Run smallDevice.toGeometry (freshSystem smallDevice)
      [(.operation (.create pathFeed 0o644 0 0), ((freshSystem smallDevice).call
        (lowered (k64XfsCreate pathFeed 0o644 0 0))).1.isSome)] feedSystem :=
    .cons nofun (.nil _)
  rw [hok] at hrun
  obtain ⟨V, hV⟩ := fresh_run_steady fresh_smallDevice (fun _ => rfl) hsmall hrun (by simp)
  refine ⟨hrun, dir, hres, ht, fun hv => ?_⟩
  exact (listable_of_visits hV (by decide) (by decide) hres ht hv).oneLine e he h10

end FsDirectoryIteration
