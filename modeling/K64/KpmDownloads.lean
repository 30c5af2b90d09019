import K64.KpmSourceList
import K64.FsRangeCalls

/-! # Where downloads are put

`kpm install` up to the file that it writes before the package is validated. What the servers send is
arbitrary. -/
namespace KpmDownloads

open XfsDirectory XfsPaths FsPaths FsRanges NetState KpmPackage
open KpmSources (kpmNextToken kpmSkipWs KpmSource)

abbrev Text := List UInt8

def quote : UInt8 := 34

def quoted (text : Text) : Text := quote :: text ++ [quote]

/-- The text between the quotes at `p`, if it is ended and shorter than `outSize`. -/
def stringAt (p : Text) (outSize : ℕ) : Option Text :=
  let value := (p.takeWhile (· != quote)).take (outSize - 1)
  if (p.drop value.length).head? = some quote then some value else none

/-- The loop of `kpm_json_get_string_after`. Each round takes at least one byte. -/
def stringAfter (key : Text) (outSize : ℕ) : ℕ → Text → Option Text
  | 0, _ => none
  | n + 1, p =>
    if p = [] then none
    else if quoted key <+: p then
      let p := kpmSkipWs (p.drop (key.length + 2))
      if p.head? ≠ some 58 then stringAfter key outSize n p
      else
        let p := kpmSkipWs p.tail
        if p.head? ≠ some quote then stringAfter key outSize n p else stringAt p.tail outSize
    else stringAfter key outSize n p.tail

def kpmJsonGetStringAfter (json key : Text) (outSize : ℕ) : Option Text :=
  stringAfter key outSize (json.length + 1) json

def k64KpmJsonLatestVersion (json package : Text) (outSize : ℕ) : Option Text :=
  match kpmJsonGetStringAfter json (ascii "latest") outSize with
  | none => none
  | some latest =>
    if package ≠ [] ∧ (kpmJsonGetStringAfter json (ascii "name") 64).any (· != package) then none
    else some latest

def k64KpmJsonVersionExists (json version : Text) : Bool :=
  version != [] && json.tails.any fun p => decide (quoted version <+: p)

/-- What the sources answer: the text of a file, and the bytes of a package. -/
structure Servers where
  fetchText : KpmSource → Text → Option Text
  fetchPackage : KpmSource → Text → Text → Option (List UInt8)

/-- A package that is about to be written. -/
structure Download where
  package : Text
  version : Text
  bytes : List UInt8
  deriving DecidableEq

/-- The loop over the sources. `given` is the version on the command line, empty if there is none. -/
def fromSources (servers : Servers) (package given : Text) : List KpmSource → Option Download
  | [] => none
  | s :: rest =>
    let suffix := kpmAppend 128 (kpmAppend 128 [] package) (ascii "/versions.json")
    match servers.fetchText s suffix with
    | none => fromSources servers package given rest
    | some json =>
      match (if given ≠ [] then some given else k64KpmJsonLatestVersion json package 32) with
      | none => fromSources servers package given rest
      | some version =>
        if !k64KpmJsonVersionExists json version then none
        else (servers.fetchPackage s package version).map fun bytes => ⟨package, version, bytes⟩

/-- `kpm_cmd_install` up to the file that it writes. -/
def kpmCmdInstall (args : Text) (sources : List KpmSource) (servers : Servers) : Option Download :=
  let (package, args) := kpmNextToken args 64
  let (opt, args) := kpmNextToken args 16
  let given := if opt = ascii "-v" then (kpmNextToken args 32).1 else []
  if package = [] then none else fromSources servers package given sources

def downloadPath (d : Download) : Text :=
  [d.package, ascii "-", d.version, ascii ".kpg"].foldl (kpmAppend 8192)
    (kpmCopy 8192 (ascii "/tmp/kpm/"))

def tmpKpm : List Text := [ascii "tmp", ascii "kpm"]

/-- The normal form of the path is that of an entry of `/tmp/kpm`. -/
def DirectChild (cwd path : Text) : Prop :=
  ∀ out, fsNormalize cwd path 256 = some out →
    ∃ leaf, PlainName leaf ∧ tokens out = tmpKpm ++ [leaf]

/-- The part of the path that follows the download directory. -/
def leafText (package version : Text) : Text := package ++ ascii "-" ++ version ++ ascii ".kpg"

/-- The components before the last one lead from `/tmp/kpm` back to it. -/
def LeadsBack (package version : Text) : Prop :=
  ((tokens (leafText package version)).dropLast.foldl bufferStep tmpKpm).filter (· ≠ []) = tmpKpm

variable {args json package given version key cwd : Text} {sources : List KpmSource}
  {servers : Servers} {d : Download}

theorem stringAt_short {outSize : ℕ} {p value : Text} (h : stringAt p outSize = some value) :
    value.length ≤ outSize - 1 := by
  unfold stringAt at h
  dsimp only at h
  split at h
  · rw [← Option.some.inj h]
    exact List.length_take_le _ _
  · cases h

theorem stringAfter_short {outSize : ℕ} {value : Text} : ∀ (n : ℕ) (p : Text),
    stringAfter key outSize n p = some value → value.length ≤ outSize - 1 := by
  intro n
  induction n with
  | zero =>
    intro p h
    cases h
  | succ n ih =>
    intro p h
    unfold stringAfter at h
    dsimp only at h
    split_ifs at h
    · exact ih _ h
    · exact ih _ h
    · exact stringAt_short h
    · exact ih _ h

theorem latestVersion_short {outSize : ℕ}
    (h : k64KpmJsonLatestVersion json package outSize = some version) :
    version.length ≤ outSize - 1 := by
  unfold k64KpmJsonLatestVersion at h
  split at h
  · cases h
  next latest hlatest =>
    split at h
    · cases h
    · rw [← Option.some.inj h]
      exact stringAfter_short _ _ hlatest

theorem token_short (args : Text) (size : ℕ) : (kpmNextToken args size).1.length ≤ size - 1 :=
  List.length_take_le _ _

theorem fromSources_short (hgiven : given.length ≤ 31)
    (h : fromSources servers package given sources = some d) :
    d.package = package ∧ d.version.length ≤ 31 := by
  induction sources with
  | nil => cases h
  | cons s rest ih =>
    unfold fromSources at h
    dsimp only at h
    split at h
    · exact ih h
    · split at h
      · exact ih h
      next version hversion =>
        split at h
        · cases h
        · obtain ⟨bytes, -, rfl⟩ := Option.map_eq_some_iff.mp h
          refine ⟨rfl, ?_⟩
          split at hversion
          · rw [← Option.some.inj hversion]
            exact hgiven
          · exact latestVersion_short hversion

theorem install_short (h : kpmCmdInstall args sources servers = some d) :
    d.package.length ≤ 63 ∧ d.version.length ≤ 31 := by
  unfold kpmCmdInstall at h
  dsimp only at h
  split at h
  · cases h
  · obtain ⟨hpackage, hversion⟩ := fromSources_short (by
      split
      · exact token_short _ _
      · exact Nat.zero_le _) h
    rw [hpackage]
    exact ⟨token_short _ _, hversion⟩

theorem downloadPath_eq (hpackage : d.package.length ≤ 63) (hversion : d.version.length ≤ 31) :
    downloadPath d = ascii "/tmp/kpm" ++ slash :: leafText d.package d.version ∧
      (downloadPath d).length ≤ 108 := by
  have hdir : (ascii "/tmp/kpm/").length = 9 := by decide
  have hdash : (ascii "-").length = 1 := by decide
  have hkpg : (ascii ".kpg").length = 4 := by decide
  have hsplit : ascii "/tmp/kpm/" = ascii "/tmp/kpm" ++ [slash] := by decide
  have hpath : downloadPath d = ascii "/tmp/kpm" ++ slash :: leafText d.package d.version := by
    rw [downloadPath, kpmCopy_eq (by omega), KpmInstall.append_pieces 8192 _ _ (by omega),
      List.take_of_length_le]
    · rw [hsplit]
      simp only [List.flatten_cons, List.flatten_nil, List.append_nil, leafText, List.append_assoc,
        List.singleton_append]
    · simp only [List.flatten_cons, List.flatten_nil, List.append_nil, List.length_append]
      omega
  refine ⟨hpath, ?_⟩
  have hdir' : (ascii "/tmp/kpm").length = 8 := by decide
  rw [hpath, List.length_append, List.length_cons, leafText, List.length_append, List.length_append,
    List.length_append]
  omega

theorem tokens_suffix (text : Text) : ∀ suffix : Text, slash ∉ suffix → suffix ≠ [] →
    ∃ init front, tokens (text ++ suffix) = init ++ [front ++ suffix] ∧ slash ∉ front ∧
      front.length ≤ text.length := by
  induction text using List.reverseRecOn with
  | nil =>
    intro suffix hslash hne
    exact ⟨[], [], by rw [List.nil_append, tokens_word hslash hne]; rfl, List.not_mem_nil,
      Nat.le_refl _⟩
  | append_singleton text c ih =>
    intro suffix hslash hne
    rw [List.append_assoc, List.singleton_append, List.length_append, List.length_singleton]
    by_cases hc : c = slash
    · refine ⟨tokens text, [], ?_, List.not_mem_nil, Nat.zero_le _⟩
      rw [hc, tokens_slash, tokens_word hslash hne, List.nil_append]
    · obtain ⟨init, front, htokens, hfront, hlen⟩ := ih (c :: suffix)
        (by rw [List.mem_cons, not_or]; exact ⟨fun h => hc h.symm, hslash⟩) (List.cons_ne_nil _ _)
      refine ⟨init, front ++ [c], ?_, ?_, ?_⟩
      · rw [htokens, List.append_assoc, List.singleton_append]
      · rw [List.mem_append, List.mem_singleton, not_or]
        exact ⟨hfront, fun h => hc h.symm⟩
      · rw [List.length_append, List.length_singleton]
        omega

theorem leaf_tokens (hpackage : package.length ≤ 63) (hversion : version.length ≤ 31) :
    ∃ init leaf, tokens (leafText package version) = init ++ [leaf] ∧ PlainName leaf := by
  have hkpg : (ascii ".kpg").length = 4 := by decide
  obtain ⟨init, front, htokens, hslash, hlen⟩ := tokens_suffix (package ++ ascii "-" ++ version)
    (ascii ".kpg") (by decide) (by decide)
  have hdash : (ascii "-").length = 1 := by decide
  rw [List.length_append, List.length_append] at hlen
  refine ⟨init, front ++ ascii ".kpg", htokens, ?_⟩
  exact plainName_suffix hslash (by decide) (by decide) (by omega)

theorem length_lt_roomFor {components : List Text} {c : Text} (hc : c ∈ components) :
    c.length < roomFor components := by
  induction components with
  | nil => cases hc
  | cons x rest ih =>
    have hcons : roomFor (x :: rest) = x.length + 1 + roomFor rest := by
      rw [roomFor, roomFor, List.map_cons, List.sum_cons]
    rcases List.mem_cons.mp hc with rfl | hc
    · omega
    · have := ih hc
      omega

theorem normal_tokens (cwd : Text) (hpackage : d.package.length ≤ 63)
    (hversion : d.version.length ≤ 31) : ∃ init leaf out,
    tokens (leafText d.package d.version) = init ++ [leaf] ∧ PlainName leaf ∧
      fsNormalize cwd (downloadPath d) 256 = some out ∧
      tokens out = (init.foldl bufferStep tmpKpm).filter (· ≠ []) ++ [leaf] := by
  obtain ⟨hpath, hlen⟩ := downloadPath_eq hpackage hversion
  obtain ⟨init, leaf, htokens, hleaf⟩ := leaf_tokens hpackage hversion
  have hhead : (downloadPath d).head? = some slash := by
    rw [hpath]
    rfl
  have htext : (pathText [slash] (downloadPath d)).take 255 = downloadPath d := by
    have hne : downloadPath d ≠ [] := fun hnil => by rw [hnil] at hhead; cases hhead
    rw [pathText]
    simp only [if_neg hne, if_pos hhead]
    exact List.take_of_length_le (by omega)
  have hall : tokens (downloadPath d) = tmpKpm ++ (init ++ [leaf]) := by
    have htmp : tokens (ascii "/tmp/kpm") = tmpKpm := by decide
    rw [hpath, tokens_slash, htmp, htokens]
  have hshort : ¬∃ c ∈ tokens ((pathText [slash] (downloadPath d)).take 255), 128 ≤ c.length := by
    rintro ⟨c, hc, hlong⟩
    rw [htext] at hc
    have hroom := roomFor_tokens hhead
    have hle := length_lt_roomFor hc
    omega
  obtain ⟨hnormal, hentries, -⟩ := fsNormalize_entries ⟨rfl, by decide⟩ (downloadPath d) hshort
  refine ⟨init, leaf, _, htokens, hleaf, (fsNormalize_absolute cwd [slash] hhead).trans hnormal, ?_⟩
  have hsteps : bufferEntries (tmpKpm ++ (init ++ [leaf])) = init.foldl bufferStep tmpKpm ++ [leaf] := by
    rw [bufferEntries, List.foldl_append, List.foldl_append]
    have htop : tmpKpm.foldl bufferStep [] = tmpKpm := by decide
    rw [htop, List.foldl_cons, List.foldl_nil, bufferStep, if_neg hleaf.not_dot]
    exact if_neg hleaf.not_dots
  rw [tokens_entries hentries, htext, hall, hsteps, List.filter_append,
    List.filter_singleton, decide_eq_true hleaf.nonempty]
  rfl

/-- The file is put into the download directory exactly when the slashes in its name lead back there. -/
theorem direct_child_iff (cwd args : Text) (sources : List KpmSource) (servers : Servers) :
    (∀ d, kpmCmdInstall args sources servers = some d → DirectChild cwd (downloadPath d)) ↔
      ∀ d, kpmCmdInstall args sources servers = some d → LeadsBack d.package d.version := by
  refine forall_congr' fun d => forall_congr' fun hd => ?_
  obtain ⟨hpackage, hversion⟩ := install_short hd
  obtain ⟨init, leaf, out, htokens, hleaf, hout, hnormal⟩ := normal_tokens cwd hpackage hversion
  have hback : LeadsBack d.package d.version ↔
      (init.foldl bufferStep tmpKpm).filter (· ≠ []) = tmpKpm := by
    rw [LeadsBack, htokens, List.dropLast_concat]
  rw [hback]
  constructor
  · intro hchild
    obtain ⟨leaf', -, hleaf'⟩ := hchild out hout
    rw [hnormal] at hleaf'
    exact (List.append_inj' hleaf' rfl).1
  · intro hdirs out' hout'
    rw [hout] at hout'
    obtain rfl := Option.some.inj hout'
    exact ⟨leaf, hleaf, by rw [hnormal, hdirs]⟩

/-- A source, and servers that have version 1 of whatever they are asked for. -/
def anySource : KpmSource := ⟨ascii "m", ascii "http://h", ⟨ascii "http", ascii "h", 80, []⟩⟩

def obliging : Servers where
  fetchText := fun _ _ => some (quoted (ascii "latest") ++ 58 :: quoted (ascii "1"))
  fetchPackage := fun _ _ _ => some []

/-- `kpm install ../../x` writes `/x-1.kpg`. -/
theorem download_escapes : ∃ d, kpmCmdInstall (ascii "../../x") [anySource] obliging = some d ∧
    fsNormalize [slash] (downloadPath d) 256 = some (ascii "/x-1.kpg") ∧
    ¬DirectChild [slash] (downloadPath d) := by
  refine ⟨⟨ascii "../../x", ascii "1", []⟩, by decide, by decide, fun hchild => ?_⟩
  obtain ⟨leaf, -, hleaf⟩ := hchild (ascii "/x-1.kpg") (by decide)
  have htokens : tokens (ascii "/x-1.kpg") = [ascii "x-1.kpg"] := by decide
  rw [htokens] at hleaf
  have hlen := congrArg List.length hleaf
  revert hlen
  exact nofun

end KpmDownloads
