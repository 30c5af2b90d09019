import K64.FsPaths
import K64.XfsRenaming

/-! # Paths of Linux programs

`klcs_translate_path` puts a Linux path below one of a few directories, and `fs_normalize` takes its
`..` components away afterwards. -/
namespace Klcs

open XfsDirectory XfsPaths FsPaths

abbrev Str := List UInt8

def klcsPathMax : ℕ := 256

/-- "/compat/linux". -/
def compatTop : Str := [47, 99, 111, 109, 112, 97, 116, 47, 108, 105, 110, 117, 120]

def rootDir : Str := [47, 114, 111, 111, 116]

def tmpTop : Str := [47, 116, 109, 112]

def homeTop : Str := [47, 104, 111, 109, 101]

/-- "/bin/", "/usr/bin/", "/lib/", "/lib64/", "/usr/lib/", "/usr/lib64/" and "/usr/share/". -/
def compatDirs : List Str :=
  [[47, 98, 105, 110, 47], [47, 117, 115, 114, 47, 98, 105, 110, 47], [47, 108, 105, 98, 47],
    [47, 108, 105, 98, 54, 52, 47], [47, 117, 115, 114, 47, 108, 105, 98, 47],
    [47, 117, 115, 114, 47, 108, 105, 98, 54, 52, 47],
    [47, 117, 115, 114, 47, 115, 104, 97, 114, 101, 47]]

/-- "/dev/null", "/dev/zero", "/dev/random", "/dev/urandom" and "/proc/self/exe". -/
def pseudoPaths : List Str :=
  [[47, 100, 101, 118, 47, 110, 117, 108, 108], [47, 100, 101, 118, 47, 122, 101, 114, 111],
    [47, 100, 101, 118, 47, 114, 97, 110, 100, 111, 109],
    [47, 100, 101, 118, 47, 117, 114, 97, 110, 100, 111, 109],
    [47, 112, 114, 111, 99, 47, 115, 101, 108, 102, 47, 101, 120, 101]]

def klcsCopy (size : ℕ) (src : Str) : Str := src.take (size - 1)

def klcsAppend (size : ℕ) (dst src : Str) : Str := dst ++ src.take (size - 1 - dst.length)

theorem lawfulStr : LawfulBEq Str := inferInstance

attribute [local instance] lawfulStr

/-- What `klcs_translate_path` writes for a path that is not empty. -/
def klcsOutput (path : Str) (outSize : ℕ) : Str :=
  if path = [dot] ∨ path = [dot, slash] then klcsCopy outSize (compatTop ++ rootDir)
  else if [dot, slash].isPrefixOf path then
    klcsAppend outSize (klcsCopy outSize (compatTop ++ rootDir ++ [slash])) (path.drop 2)
  else if path = [dot, dot] ∨ path = [dot, dot, slash] then
    klcsCopy outSize (compatTop ++ rootDir)
  else if (compatTop ++ [slash]).isPrefixOf path then klcsCopy outSize path
  else if path = [slash] then klcsCopy outSize (compatTop ++ rootDir)
  else if compatDirs.any fun dir => dir.isPrefixOf path then
    klcsAppend outSize (klcsCopy outSize compatTop) path
  else if path = tmpTop ∨ (tmpTop ++ [slash]).isPrefixOf path then klcsCopy outSize path
  else if homeTop.isPrefixOf path then klcsCopy outSize path
  else if path ∈ pseudoPaths then klcsCopy outSize path
  else if path.head? = some slash then
    klcsAppend outSize (klcsCopy outSize (compatTop ++ rootDir)) path
  else
    klcsAppend outSize (klcsAppend outSize (klcsCopy outSize (compatTop ++ rootDir)) [slash]) path

def klcsTranslatePath (path : Str) (outSize : ℕ) : Option Str :=
  if path = [] ∨ klcsOutput path outSize = [] then none else some (klcsOutput path outSize)

/-- A directory itself or something below it. -/
def Inside (top path : Str) : Prop := path = top ∨ top ++ [slash] <+: path

/-- The places that Linux programs are given. -/
def Confined (path : Str) : Prop :=
  Inside compatTop path ∨ Inside tmpTop path ∨ Inside homeTop path ∨ path ∈ pseudoPaths

/-- The directory that a path is put below, and what is put there. -/
structure Placement where
  top : Str
  below : Str

def placement (path : Str) : Placement :=
  if path = [dot] ∨ path = [dot, slash] then ⟨compatTop, rootDir⟩
  else if [dot, slash].isPrefixOf path then ⟨compatTop, rootDir ++ slash :: path.drop 2⟩
  else if path = [dot, dot] ∨ path = [dot, dot, slash] then ⟨compatTop, rootDir⟩
  else if (compatTop ++ [slash]).isPrefixOf path then ⟨compatTop, path.drop compatTop.length⟩
  else if path = [slash] then ⟨compatTop, rootDir⟩
  else if compatDirs.any fun dir => dir.isPrefixOf path then ⟨compatTop, path⟩
  else if path = tmpTop ∨ (tmpTop ++ [slash]).isPrefixOf path then ⟨tmpTop, path.drop tmpTop.length⟩
  else if homeTop.isPrefixOf path then ⟨homeTop, path.drop homeTop.length⟩
  else if path ∈ pseudoPaths then ⟨path, []⟩
  else if path.head? = some slash then ⟨compatTop, rootDir ++ path⟩
  else ⟨compatTop, rootDir ++ slash :: path⟩

/-- What of it fits in the buffer. -/
def Placement.kept (p : Placement) : Str := p.below.take (klcsPathMax - 1 - p.top.length)

/-- The entries that the output has behind the directory, and whether the last one is empty: a `..`
takes a name away but not the slash before it, and the next name gets a slash of its own. -/
structure Depth where
  entries : ℕ
  emptied : Bool

/-- The way of one component; none when it leads out of the directory. -/
def descend (d : Depth) (token : Str) : Option Depth :=
  if token = [dot] then some d
  else if token = [dot, dot] then
    match d with
    | ⟨n + 1, false⟩ => some ⟨n + 1, true⟩
    | ⟨n + 2, true⟩ => some ⟨n + 1, true⟩
    | _ => none
  else some ⟨d.entries + 1, false⟩

def staysBelow (components : List Str) : Option Depth := components.foldlM descend ⟨0, false⟩

/-- No `..` of the path leads out of the directory that the path is put below, and a path that
begins with "/home" goes to that directory. -/
structure NeverClimbs (path : Str) : Prop where
  below : (staysBelow (tokens (placement path).kept)).isSome = true
  boundary : (placement path).below = [] ∨ (placement path).below.head? = some slash

def tops : List Str := compatTop :: tmpTop :: homeTop :: pseudoPaths

theorem append_copied {a : Str} (b : Str) (h : a.length ≤ 255) :
    klcsAppend klcsPathMax (klcsCopy klcsPathMax a) b = (a ++ b).take 255 := by
  have hcopy : klcsCopy klcsPathMax a = a := List.take_of_length_le h
  rw [hcopy, List.take_append, List.take_of_length_le h]
  rfl

variable {path : Str}

theorem drop_prefix {top : Str} (h : top.isPrefixOf path = true) :
    top ++ path.drop top.length = path := by
  obtain ⟨rest, rfl⟩ := List.isPrefixOf_iff_prefix.mp h
  rw [List.drop_left]

theorem of_ite {α : Type} {P : α → Prop} {c : Prop} [Decidable c] {a b : α} (ha : c → P a)
    (hb : ¬c → P b) : P (if c then a else b) := by
  by_cases hc : c
  · rw [if_pos hc]
    exact ha hc
  · rw [if_neg hc]
    exact hb hc

theorem placement_cases (path : Str) : (placement path).top ∈ [compatTop, tmpTop, homeTop] ∨
    (placement path).top ∈ pseudoPaths ∧ (placement path).below = [] := by
  let Placed (p : Placement) : Prop :=
    p.top ∈ [compatTop, tmpTop, homeTop] ∨ p.top ∈ pseudoPaths ∧ p.below = []
  have hcompat : ∀ below, Placed ⟨compatTop, below⟩ := fun _ => .inl (List.mem_cons_self ..)
  have htmp : ∀ below, Placed ⟨tmpTop, below⟩ :=
    fun _ => .inl (List.mem_cons_of_mem _ (List.mem_cons_self ..))
  have hhome : ∀ below, Placed ⟨homeTop, below⟩ :=
    fun _ => .inl (List.mem_cons_of_mem _ (List.mem_cons_of_mem _ (List.mem_cons_self ..)))
  change Placed (placement path)
  unfold placement
  refine of_ite (fun _ => hcompat _) fun _ => of_ite (fun _ => hcompat _) fun _ => ?_
  refine of_ite (fun _ => hcompat _) fun _ => of_ite (fun _ => hcompat _) fun _ => ?_
  refine of_ite (fun _ => hcompat _) fun _ => of_ite (fun _ => hcompat _) fun _ => ?_
  refine of_ite (fun _ => htmp _) fun _ => of_ite (fun _ => hhome _) fun _ => ?_
  refine of_ite (fun hpseudo => .inr ⟨hpseudo, rfl⟩) fun _ => ?_
  exact of_ite (fun _ => hcompat _) fun _ => hcompat _

theorem placement_top (path : Str) : (placement path).top ∈ tops := by
  change (placement path).top ∈ [compatTop, tmpTop, homeTop] ++ pseudoPaths
  rw [List.mem_append]
  exact (placement_cases path).imp_right And.left

theorem output_placement (path : Str) :
    klcsOutput path klcsPathMax = ((placement path).top ++ (placement path).below).take 255 := by
  have hroot : klcsCopy klcsPathMax (compatTop ++ rootDir) = (compatTop ++ rootDir).take 255 := rfl
  -- the two chains of conditions are the same, and are taken off one by one
  unfold klcsOutput placement
  by_cases h1 : path = [dot] ∨ path = [dot, slash]
  · rw [if_pos h1, if_pos h1, hroot]
  rw [if_neg h1, if_neg h1]
  clear h1
  by_cases h2 : [dot, slash].isPrefixOf path = true
  · rw [if_pos h2, if_pos h2, append_copied _ (by decide)]
    simp only [List.append_assoc, List.singleton_append]
  rw [if_neg h2, if_neg h2]
  clear h2
  by_cases h3 : path = [dot, dot] ∨ path = [dot, dot, slash]
  · rw [if_pos h3, if_pos h3, hroot]
  rw [if_neg h3, if_neg h3]
  clear h3
  by_cases h4 : (compatTop ++ [slash]).isPrefixOf path = true
  · have hpre : compatTop.isPrefixOf path = true :=
      List.isPrefixOf_iff_prefix.mpr
        ((List.prefix_append _ _).trans (List.isPrefixOf_iff_prefix.mp h4))
    rw [if_pos h4, if_pos h4, drop_prefix hpre]
    rfl
  rw [if_neg h4, if_neg h4]
  clear h4
  by_cases h5 : path = [slash]
  · rw [if_pos h5, if_pos h5, hroot]
  rw [if_neg h5, if_neg h5]
  clear h5
  by_cases h6 : (compatDirs.any fun dir => dir.isPrefixOf path) = true
  · rw [if_pos h6, if_pos h6]
    exact append_copied _ (by decide)
  rw [if_neg h6, if_neg h6]
  clear h6
  by_cases h7 : path = tmpTop ∨ (tmpTop ++ [slash]).isPrefixOf path = true
  · have hpre : tmpTop.isPrefixOf path = true := by
      rcases h7 with rfl | h7
      · rfl
      · exact List.isPrefixOf_iff_prefix.mpr
          ((List.prefix_append _ _).trans (List.isPrefixOf_iff_prefix.mp h7))
    rw [if_pos h7, if_pos h7, drop_prefix hpre]
    rfl
  rw [if_neg h7, if_neg h7]
  clear h7
  by_cases h8 : homeTop.isPrefixOf path = true
  · rw [if_pos h8, if_pos h8, drop_prefix h8]
    rfl
  rw [if_neg h8, if_neg h8]
  clear h8
  by_cases h9 : path ∈ pseudoPaths
  · rw [if_pos h9, if_pos h9, List.append_nil]
    rfl
  rw [if_neg h9, if_neg h9]
  clear h9
  by_cases h10 : path.head? = some slash
  · rw [if_pos h10, if_pos h10, append_copied _ (by decide), List.append_assoc]
  · have hslash : klcsAppend klcsPathMax (klcsCopy klcsPathMax (compatTop ++ rootDir)) [slash] =
        klcsCopy klcsPathMax (compatTop ++ rootDir ++ [slash]) := rfl
    rw [if_neg h10, if_neg h10, hslash, append_copied _ (by decide)]
    simp only [List.append_assoc, List.singleton_append]

theorem translate_kept {t : Str} (h : klcsTranslatePath path klcsPathMax = some t) :
    t = (placement path).top ++ (placement path).kept := by
  have hlen : ∀ top ∈ tops, top.length ≤ 255 := by decide
  unfold klcsTranslatePath at h
  split at h
  · cases h
  · cases h
    rw [output_placement, List.take_append, List.take_of_length_le (hlen _ (placement_top path))]
    rfl

def entriesText (entries : List Str) : Str := entries.flatMap (slash :: ·)

structure Below (top : Str) (d : Depth) (out : Str) (entries : List Str) : Prop where
  text : out = top ++ entriesText entries
  plain : ∀ e ∈ entries, slash ∉ e
  count : entries.length = d.entries
  last : d.emptied = true ↔ entries.getLast? = some []

variable {pre name : Str}

theorem rdrop_name (h : slash ∉ name) :
    (pre ++ slash :: name).rdropWhile (· != slash) = pre ++ [slash] := by
  induction name using List.reverseRecOn with
  | nil => exact List.rdropWhile_concat_neg (· != slash) pre slash (by simp)
  | append_singleton name c ih =>
    simp only [List.mem_append, List.mem_singleton, not_or] at h
    rw [← List.cons_append, ← List.append_assoc,
      List.rdropWhile_concat_pos (· != slash) _ c (bne_iff_ne.mpr (Ne.symm h.2))]
    exact ih h.1

theorem drop_last_entry {rest : Str} {c : UInt8} (h : slash ∉ name)
    (hrest : rest ++ [c] = pre ++ slash :: name ++ [c]) :
    dropComponent (rest ++ [c]) = pre ++ [slash] := by
  have hcut : rest = pre ++ slash :: name := List.append_cancel_right hrest
  rw [hcut, dropComponent, List.dropLast_concat, if_pos, rdrop_name h]
  simp only [List.length_append, List.length_cons, List.length_nil]
  omega

theorem drop_name (h : slash ∉ name) (hne : name ≠ []) :
    dropComponent (pre ++ slash :: name) = pre ++ [slash] := by
  obtain ⟨name, c, rfl⟩ := (List.eq_nil_or_concat' name).resolve_left hne
  have hcut : slash ∉ name := fun hm => h (List.mem_append_left _ hm)
  have heq : pre ++ slash :: (name ++ [c]) = (pre ++ slash :: name) ++ [c] := by simp
  rw [heq]
  exact drop_last_entry hcut rfl

theorem drop_slash (h : slash ∉ name) :
    dropComponent (pre ++ slash :: name ++ [slash]) = pre ++ [slash] := drop_last_entry h rfl

theorem entriesText_concat (entries : List Str) (e : Str) :
    entriesText (entries ++ [e]) = entriesText entries ++ slash :: e := by
  simp [entriesText]

variable {top out out' token : Str} {entries : List Str} {d d' : Depth}

theorem descend_dot (h : token = [dot]) : descend d token = some d := if_pos h

theorem descend_name (hdot : token ≠ [dot]) (hdots : token ≠ [dot, dot]) :
    descend d token = some ⟨d.entries + 1, false⟩ := by
  unfold descend
  rw [if_neg hdot, if_neg hdots]

theorem below_push (h : Below top d out entries) (hslash : slash ∉ token) (hne : token ≠ []) :
    Below top ⟨d.entries + 1, false⟩ (out ++ slash :: token) (entries ++ [token]) where
  text := by rw [h.text, entriesText_concat, List.append_assoc]
  plain := by
    intro e he
    rcases List.mem_append.mp he with he | he
    · exact h.plain e he
    · rwa [List.mem_singleton.mp he]
  count := by rw [List.length_append, h.count]; rfl
  last := by simp [hne]

theorem below_pop (h : Below top d out entries) (hd : descend d [dot, dot] = some d') :
    ∃ entries', Below top d' (dropComponent out) entries' := by
  unfold descend at hd
  rw [if_neg (by decide), if_pos rfl] at hd
  have hempty : ∀ entries : List Str, (∀ e ∈ entries, slash ∉ e) →
      Below top ⟨entries.length + 1, true⟩ (top ++ entriesText entries ++ [slash])
        (entries ++ [[]]) := fun entries hplain =>
    { text := by rw [entriesText_concat, List.append_assoc]
      plain := by
        intro e he
        rcases List.mem_append.mp he with he | he
        · exact hplain e he
        · rw [List.mem_singleton.mp he]
          exact List.not_mem_nil
      count := by simp
      last := by simp }
  obtain ⟨n, emptied⟩ := d
  have hcount := h.count
  rcases List.eq_nil_or_concat' entries with rfl | ⟨init, e, rfl⟩
  · cases hcount
    cases hd
  have hlast : emptied = true ↔ e = [] := by simpa using h.last
  have hplain : ∀ x ∈ init, slash ∉ x := fun x hx => h.plain x (List.mem_append_left _ hx)
  rw [List.length_append] at hcount
  rw [h.text, entriesText_concat, ← List.append_assoc]
  cases emptied with
  | false =>
    cases hcount
    cases hd
    have hne : e ≠ [] := fun he => Bool.noConfusion (hlast.mpr he)
    rw [drop_name (h.plain e (List.mem_append_right _ (List.mem_singleton_self e))) hne]
    exact ⟨_, hempty init hplain⟩
  | true =>
    rw [hlast.mp rfl]
    rcases List.eq_nil_or_concat' init with rfl | ⟨init, y, rfl⟩
    · cases hcount
      cases hd
    · rw [List.length_append] at hcount
      cases hcount
      cases hd
      have hy := hplain y (List.mem_append_right _ (List.mem_singleton_self y))
      rw [entriesText_concat, ← List.append_assoc, drop_slash hy]
      exact ⟨_, hempty init fun x hx => hplain x (List.mem_append_left _ hx)⟩

theorem below_step (htop : 1 < top.length) (h : Below top d out entries) (hslash : slash ∉ token)
    (hne : token ≠ []) (hadd : addComponent 256 out token = some out')
    (hd : descend d token = some d') : ∃ entries', Below top d' out' entries' := by
  have hout : 1 < out.length := by
    rw [h.text, List.length_append]
    omega
  unfold addComponent at hadd
  split at hadd
  · cases hadd
  split at hadd
  next hdot =>
    cases hadd
    rw [descend_dot hdot] at hd
    cases hd
    exact ⟨entries, h⟩
  next hdot =>
    split at hadd
    next hdots =>
      cases hadd
      rw [hdots] at hd
      exact below_pop h hd
    next hdots =>
      rw [descend_name hdot hdots] at hd
      cases hd
      split at hadd
      · cases hadd
      · split at hadd
        · cases hadd
        · cases hadd
          exact ⟨_, below_push h hslash hne⟩

theorem below_run {components : List Str} (htop : 1 < top.length)
    (hwords : ∀ t ∈ components, t ≠ [] ∧ slash ∉ t) (h : Below top d out entries)
    (hadd : components.foldlM (addComponent 256) out = some out')
    (hd : components.foldlM descend d = some d') : ∃ entries', Below top d' out' entries' := by
  induction components generalizing out d entries with
  | nil =>
    cases hadd
    cases hd
    exact ⟨entries, h⟩
  | cons token rest ih =>
    rw [List.foldlM_cons] at hadd hd
    obtain ⟨next, hnext, hadd⟩ := Option.bind_eq_some_iff.mp hadd
    obtain ⟨depth, hdepth, hd⟩ := Option.bind_eq_some_iff.mp hd
    obtain ⟨hne, hslash⟩ := hwords token (List.mem_cons_self ..)
    obtain ⟨entries', h'⟩ := below_step htop h hslash hne hnext hdepth
    exact ih (fun t ht => hwords t (List.mem_cons_of_mem _ ht)) h' hadd hd

theorem below_inside (h : Below top d out entries) : Inside top out := by
  cases entries with
  | nil => exact .inl (h.text.trans (List.append_nil _))
  | cons e entries =>
    refine .inr ⟨e ++ entriesText entries, ?_⟩
    rw [h.text, List.append_assoc]
    rfl

theorem top_normal : ∀ top ∈ tops, 1 < top.length ∧ top.head? = some slash ∧
    (tokens top).foldlM (addComponent 256) [slash] = some top := by
  decide +kernel

theorem kept_boundary {p : Placement} (h : p.below = [] ∨ p.below.head? = some slash) :
    p.kept = [] ∨ ∃ rest, p.kept = slash :: rest := by
  unfold Placement.kept
  rcases h with hnil | hslash
  · rw [hnil]
    exact .inl List.take_nil
  · obtain ⟨rest, hrest⟩ := List.head?_eq_some_iff.mp hslash
    rw [hrest]
    cases klcsPathMax - 1 - p.top.length with
    | zero => exact .inl rfl
    | succ n => exact .inr ⟨rest.take n, rfl⟩

theorem tokens_placed {top kept : Str} (h : kept = [] ∨ ∃ rest, kept = slash :: rest) :
    tokens (top ++ kept) = tokens top ++ tokens kept := by
  rcases h with rfl | ⟨rest, rfl⟩
  · rw [List.append_nil, tokens_nil, List.append_nil]
  · have hkept : tokens (slash :: rest) = tokens rest := tokens_slash [] rest
    rw [tokens_slash, hkept]

theorem normalize_translated {cwd t n : Str} (ht : klcsTranslatePath path klcsPathMax = some t)
    (hboundary : (placement path).below = [] ∨ (placement path).below.head? = some slash)
    (hn : fsNormalize cwd t 256 = some n) :
    (tokens (placement path).kept).foldlM (addComponent 256) (placement path).top = some n := by
  obtain ⟨hlen, hhead, htop⟩ := top_normal _ (placement_top path)
  have hkept := translate_kept ht
  have hfits : t.length ≤ 255 := by
    unfold klcsTranslatePath at ht
    split at ht
    · cases ht
    · cases ht
      rw [output_placement]
      exact List.length_take_le _ _
  have htslash : t.head? = some slash := by
    rw [hkept, List.head?_append, hhead]
    rfl
  have hne : t ≠ [] := by
    rintro rfl
    cases htslash
  have hcopy : fsCopy 256 t = t := List.take_of_length_le hfits
  simp only [fsNormalize, if_neg hne, if_pos htslash, hcopy] at hn
  rwa [hkept, tokens_placed (kept_boundary hboundary), List.foldlM_append, htop,
    Option.bind_eq_bind, Option.bind_some] at hn

theorem placement_pseudo (h : (placement path).top ∈ pseudoPaths) :
    (placement path).below = [] := by
  have hdirs : ∀ top ∈ [compatTop, tmpTop, homeTop], top ∉ pseudoPaths := by decide
  rcases placement_cases path with hdir | hpseudo
  · exact absurd h (hdirs _ hdir)
  · exact hpseudo.2

theorem starts_below (top : Str) : Below top ⟨0, false⟩ top [] where
  text := (List.append_nil _).symm
  plain := fun _ he => nomatch he
  count := rfl
  last := iff_of_false Bool.false_ne_true nofun

theorem stays_confined {cwd t n : Str} (ht : klcsTranslatePath path klcsPathMax = some t)
    (hn : fsNormalize cwd t 256 = some n) (h : NeverClimbs path) : Confined n := by
  obtain ⟨hlen, -, -⟩ := top_normal _ (placement_top path)
  have hrun := normalize_translated ht h.boundary hn
  obtain ⟨d, hd⟩ := Option.isSome_iff_exists.mp h.below
  obtain ⟨entries, hbelow⟩ :=
    below_run hlen (fun _ ht => XfsRenaming.tokens_words ht) (starts_below _) hrun hd
  have hinside := below_inside hbelow
  have htop := placement_top path
  simp only [tops, List.mem_cons] at htop
  rcases htop with he | he | he | hpseudo
  · exact .inl (he ▸ hinside)
  · exact .inr (.inl (he ▸ hinside))
  · exact .inr (.inr (.inl (he ▸ hinside)))
  · have hkept : (placement path).kept = [] := by
      rw [Placement.kept, placement_pseudo hpseudo, List.take_nil]
    rw [hkept] at hrun
    cases hrun
    exact .inr (.inr (.inr hpseudo))

/-- The last component that fits is a `..` that leads out, and none before it does. -/
structure ClimbsAtEnd (path : Str) : Prop where
  boundary : (placement path).below = [] ∨ (placement path).below.head? = some slash
  last : ∃ before d, tokens (placement path).kept = before ++ [[dot, dot]] ∧
    staysBelow before = some d ∧ descend d [dot, dot] = none

instance (top path : Str) : Decidable (Inside top path) :=
  inferInstanceAs (Decidable (_ ∨ _))

instance (path : Str) : Decidable (Confined path) :=
  inferInstanceAs (Decidable (_ ∨ _ ∨ _ ∨ _))

theorem above_unconfined : ∀ top ∈ tops, ¬ Confined (dropComponent top) ∧
    ¬ Confined (dropComponent (top ++ [slash])) := by
  decide +kernel

theorem climb_unconfined {cwd t n : Str} (ht : klcsTranslatePath path klcsPathMax = some t)
    (hn : fsNormalize cwd t 256 = some n) (h : ClimbsAtEnd path) : ¬ Confined n := by
  obtain ⟨hlen, -, -⟩ := top_normal _ (placement_top path)
  obtain ⟨before, d, htokens, hd, hout⟩ := h.last
  have hwords : ∀ t ∈ before, t ≠ [] ∧ slash ∉ t := fun t ht =>
    XfsRenaming.tokens_words (htokens ▸ List.mem_append_left _ ht)
  have hrun := normalize_translated ht h.boundary hn
  rw [htokens, List.foldlM_append] at hrun
  obtain ⟨mid, hmid, hlast⟩ := Option.bind_eq_some_iff.mp hrun
  obtain ⟨entries, hbelow⟩ := below_run hlen hwords (starts_below _) hmid hd
  obtain rfl : dropComponent mid = n := by
    rw [List.foldlM_cons] at hlast
    exact Option.some.inj hlast
  have habove := above_unconfined _ (placement_top path)
  obtain ⟨entriesCount, emptied⟩ := d
  have hcount := hbelow.count
  unfold descend at hout
  rw [if_neg (by decide), if_pos rfl] at hout
  rcases entries with - | ⟨e, - | ⟨e', rest⟩⟩
  · rw [hbelow.text, entriesText, List.flatMap_nil, List.append_nil]
    exact habove.1
  · cases hcount
    cases emptied with
    | false => cases hout
    | true =>
      have he : e = [] := by simpa using hbelow.last
      rw [hbelow.text, he]
      exact habove.2
  · cases hcount
    cases emptied <;> cases hout

/-- What a Linux program names is found in one of its places as long as no `..` leads out of the
directory that the path is put below, and not when the last `..` does. -/
theorem confined_unless_climbing (cwd path t n : Str)
    (ht : klcsTranslatePath path klcsPathMax = some t) (hn : fsNormalize cwd t 256 = some n) :
    (NeverClimbs path → Confined n) ∧ (ClimbsAtEnd path → ¬ Confined n) :=
  ⟨stays_confined ht hn, climb_unconfined ht hn⟩

/-- "/tmp/a/../b". -/
def insideTmp : Str := tmpTop ++ [47, 97, 47, 46, 46, 47, 98]

theorem inside_tmp_confined : Confined (tmpTop ++ [47, 47, 98]) :=
  (confined_unless_climbing [slash] insideTmp insideTmp (tmpTop ++ [47, 47, 98]) (by decide)
    (by decide +kernel)).1
    ⟨by decide +kernel, by decide +kernel⟩

/-- "/etc/users.k64". -/
def accountFile : Str := [47, 101, 116, 99, 47, 117, 115, 101, 114, 115, 46, 107, 54, 52]

/-- The path "/tmp/../etc/users.k64" is the account file of K64. -/
theorem dots_lead_out : ¬ ∀ cwd path t n : Str, path.length < klcsPathMax - 1 → 0 ∉ path →
    klcsTranslatePath path klcsPathMax = some t → fsNormalize cwd t 256 = some n →
      Confined n := by
  intro h
  have hout := h [slash] (tmpTop ++ [47, 46, 46] ++ accountFile) (tmpTop ++ [47, 46, 46] ++ accountFile)
    accountFile (by decide) (by decide) (by decide) (by decide +kernel)
  revert hout
  decide

end Klcs
