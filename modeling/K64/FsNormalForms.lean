import K64.KlcsPaths

/-! # What `fs_normalize` makes of a path

The purpose of `fs_normalize` is lexical resolution: a stack of names on which `..` takes one off. The
code keeps the stack in a flat buffer of 256 bytes, behind a text of 256 bytes. -/
namespace FsPaths
open XfsDirectory XfsPaths
open Klcs (entriesText entriesText_concat drop_name drop_slash)

abbrev Text := List UInt8

def dots : Text := [dot, dot]

def pathText (cwd path : Text) : Text :=
  let path := if path = [] then [dot] else path
  if path.head? = some slash then path
  else (if cwd = [slash] then [slash] else cwd ++ [slash]) ++ path

/-- `.` stays, `..` goes up, and stays at the top. -/
def lexicalStep (names : List Text) (component : Text) : List Text :=
  if component = [dot] then names
  else if component = dots then names.dropLast
  else names ++ [component]

def lexicalNames (components : List Text) : List Text := components.foldl lexicalStep []

def canonicalText (names : List Text) : Text := if names = [] then [slash] else entriesText names

structure CanonicalName (name : Text) : Prop where
  nonempty : name ≠ []
  noSlash : slash ∉ name
  not_dot : name ≠ [dot]
  not_dots : name ≠ dots

/-- The text or one of its components does not fit. -/
def TooLong (text : Text) : Prop := 256 ≤ text.length ∨ ∃ c ∈ tokens text, 128 ≤ c.length

structure ResolvesLexically (cwd path : Text) : Prop where
  refused : TooLong (pathText cwd path) → fsNormalize cwd path 256 = none
  resolved : ∀ out, fsNormalize cwd path 256 = some out →
    out = canonicalText (lexicalNames (tokens (pathText cwd path)))
  canonical : ∀ out, fsNormalize cwd path 256 = some out →
    ∃ names, out = canonicalText names ∧ ∀ n ∈ names, CanonicalName n
  again : ∀ out, fsNormalize cwd path 256 = some out → ∀ cwd', fsNormalize cwd' out 256 = some out

/-- `k64_fs_cd`, with what `k64_xfs_stat` says about directories. -/
def k64FsCd (isDir : Text → Bool) (cwd path : Text) : Bool × Text :=
  match fsNormalize cwd path 256 with
  | none => (false, cwd)
  | some full => if isDir full then (true, fsCopy 256 full) else (false, cwd)

/-- The directories that calls of `k64_fs_cd` lead to. -/
inductive CurrentDir : Text → Prop
  | root : CurrentDir [slash]
  | cd {cwd : Text} (isDir : Text → Bool) (path : Text) :
    CurrentDir cwd → CurrentDir (k64FsCd isDir cwd path).2

/-- How far it is back to the root: the entries of the buffer, and whether the last one is empty. A
`..` that does not reach the root leaves the slash in front of what it takes. -/
structure Distance where
  entries : ℕ
  emptied : Bool
  deriving DecidableEq

def wayBack (d : Distance) (component : Text) : Distance :=
  if component = [dot] then d
  else if component = dots then
    match d with
    | ⟨n + 2, false⟩ => ⟨n + 2, true⟩
    | ⟨n + 3, true⟩ => ⟨n + 2, true⟩
    | _ => ⟨0, false⟩
  else ⟨d.entries + 1, false⟩

/-- After the last point at which the path is back at the root there is no `..`. -/
def Straight (components : List Text) : Prop :=
  ∃ before behind, components = before ++ behind ∧ before.foldl wayBack ⟨0, false⟩ = ⟨0, false⟩ ∧
    dots ∉ behind

/-- `..` on the entries: an empty last entry goes first. -/
def popEntries (entries : List Text) : List Text :=
  let rest := if entries.getLast? = some [] then entries.dropLast else entries
  if rest.length ≤ 1 then [] else rest.dropLast ++ [[]]

def bufferStep (entries : List Text) (component : Text) : List Text :=
  if component = [dot] then entries
  else if component = dots then popEntries entries
  else entries ++ [component]

def bufferEntries (components : List Text) : List Text := components.foldl bufferStep []

structure Entries (entries : List Text) : Prop where
  noSlash : ∀ e ∈ entries, slash ∉ e
  first : entries.head? ≠ some []

variable {entries : List Text} {component : Text}

theorem Entries.nil : Entries [] := ⟨nofun, nofun⟩

theorem Entries.push (h : Entries entries) (hslash : slash ∉ component) (hne : component ≠ []) :
    Entries (entries ++ [component]) where
  noSlash := by
    intro e he
    rcases List.mem_append.mp he with he | he
    · exact h.noSlash e he
    · rwa [List.mem_singleton.mp he]
  first := by
    cases entries with
    | nil => simpa using hne
    | cons e rest => simpa using h.first

theorem pop_cases (entries : List Text) :
    entries = [] ∨ entries = [[]] ∨
    (∃ init e, e ≠ [] ∧ entries = init ++ [e] ∧
      popEntries entries = if init = [] then [] else init ++ [[]]) ∨
    ∃ init e, entries = init ++ [e] ++ [[]] ∧
      popEntries entries = if init = [] then [] else init ++ [[]] := by
  have hshort : ∀ (init : List Text) (e : Text), (if (init ++ [e]).length ≤ 1 then []
      else (init ++ [e]).dropLast ++ [[]]) = if init = [] then ([] : List Text) else init ++ [[]] := by
    intro init e
    cases init with
    | nil => rfl
    | cons a init =>
      rw [if_neg (by simp), if_neg (List.cons_ne_nil a init), List.dropLast_concat]
  rcases List.eq_nil_or_concat' entries with rfl | ⟨init, e, rfl⟩
  · exact .inl rfl
  by_cases he : e = []
  · subst he
    rcases List.eq_nil_or_concat' init with rfl | ⟨init, e, rfl⟩
    · exact .inr (.inl rfl)
    · refine .inr (.inr (.inr ⟨init, e, rfl, ?_⟩))
      unfold popEntries
      rw [List.getLast?_concat, if_pos rfl, List.dropLast_concat]
      exact hshort init e
  · refine .inr (.inr (.inl ⟨init, e, he, rfl, ?_⟩))
    unfold popEntries
    rw [List.getLast?_concat, if_neg fun h => he (Option.some.inj h)]
    exact hshort init e

theorem Entries.emptied (h : Entries entries) (hne : entries ≠ []) :
    Entries (entries ++ [[]]) where
  noSlash := by
    intro e he
    rcases List.mem_append.mp he with he | he
    · exact h.noSlash e he
    · rw [List.mem_singleton.mp he]
      exact List.not_mem_nil
  first := by
    obtain ⟨e, rest, rfl⟩ := List.exists_cons_of_ne_nil hne
    simpa using h.first

theorem Entries.init {init : List Text} {rest : List Text} (h : Entries (init ++ rest)) :
    Entries init where
  noSlash := fun e he => h.noSlash e (List.mem_append_left _ he)
  first := by
    cases init with
    | nil => simp
    | cons e init => simpa using h.first

theorem Entries.pop (h : Entries entries) : Entries (popEntries entries) := by
  have hleft : ∀ init : List Text, Entries init →
      Entries (if init = [] then [] else init ++ [[]]) := by
    intro init hinit
    split
    · exact .nil
    next hne => exact hinit.emptied hne
  rcases pop_cases entries with rfl | rfl | ⟨init, e, -, rfl, hpop⟩ | ⟨init, e, rfl, hpop⟩
  · exact .nil
  · exact absurd rfl h.first
  · rw [hpop]
    exact hleft init h.init
  · rw [hpop]
    rw [List.append_assoc] at h
    exact hleft init h.init

theorem drop_canonicalText (h : Entries entries) :
    dropComponent (canonicalText entries) = canonicalText (popEntries entries) := by
  have htext : ∀ init : List Text, entriesText init ++ [slash] =
      canonicalText (if init = [] then [] else init ++ [[]]) := by
    intro init
    split
    next hnil => simp [hnil, entriesText, canonicalText]
    · simp [canonicalText, entriesText_concat]
  rcases pop_cases entries with rfl | rfl | ⟨init, e, he, rfl, hpop⟩ | ⟨init, e, rfl, hpop⟩
  · rfl
  · exact absurd rfl h.first
  · have hslash : slash ∉ e := h.noSlash e (by simp)
    rw [hpop, ← htext, canonicalText, if_neg (by simp), entriesText_concat]
    exact drop_name hslash he
  · have hslash : slash ∉ e := h.noSlash e (by simp)
    rw [hpop, ← htext, canonicalText, if_neg (by simp), entriesText_concat,
      entriesText_concat]
    exact drop_slash hslash

def roomFor (components : List Text) : ℕ := (components.map fun c => c.length + 1).sum

theorem roomFor_tokensFrom (xs : Text) : ∀ cur,
    roomFor (tokensFrom cur xs) ≤ cur.length + xs.length + 1 := by
  induction xs with
  | nil =>
    intro cur
    by_cases hcur : cur = []
    · simp [tokensFrom, hcur, roomFor]
    · simp [tokensFrom, hcur, roomFor]
  | cons x xs ih =>
    intro cur
    have hrest := ih []
    have hword := ih (cur ++ [x])
    rw [tokensFrom]
    simp only [List.length_nil, List.length_append, List.length_cons] at *
    split
    · split
      · omega
      · simp only [roomFor, List.map_cons, List.sum_cons] at *
        omega
    · omega

theorem roomFor_tokens {text : Text} (h : text.head? = some slash) :
    roomFor (tokens text) ≤ text.length := by
  cases text with
  | nil => simp at h
  | cons x rest =>
    obtain rfl : x = slash := by simpa using h
    have hrest := roomFor_tokensFrom rest []
    have htokens : tokens (slash :: rest) = tokens rest := by
      simpa using tokens_slash [] rest
    rw [htokens]
    simpa [tokens, Nat.add_comm] using hrest

theorem length_canonicalText (entries : List Text) :
    (canonicalText entries).length = max 1 (roomFor entries) := by
  unfold canonicalText roomFor
  split
  next hnil => simp [hnil]
  next hne =>
    obtain ⟨e, rest, rfl⟩ := List.exists_cons_of_ne_nil hne
    have hsum : ∀ es : List Text, (entriesText es).length = (es.map fun c => c.length + 1).sum := by
      intro es
      simp [entriesText, List.length_flatMap]
    rw [hsum, List.map_cons, List.sum_cons]
    omega

theorem roomFor_concat (entries : List Text) (e : Text) :
    roomFor (entries ++ [e]) = roomFor entries + (e.length + 1) := by
  simp [roomFor]

theorem roomFor_pop (entries : List Text) : roomFor (popEntries entries) ≤ roomFor entries := by
  have hleft : ∀ (init : List Text) (e : Text),
      roomFor (if init = [] then [] else init ++ [[]]) ≤ roomFor (init ++ [e]) := by
    intro init e
    rw [roomFor_concat]
    split
    · simp [roomFor]
    · rw [roomFor_concat]
      simp
  rcases pop_cases entries with rfl | rfl | ⟨init, e, -, rfl, hpop⟩ | ⟨init, e, rfl, hpop⟩
  · simp [popEntries, roomFor]
  · simp [popEntries, roomFor]
  · rw [hpop]
    exact hleft init e
  · rw [hpop, roomFor_concat]
    exact Nat.le_add_right_of_le (hleft init e)

theorem addComponent_entries (h : Entries entries) (hne : component ≠ [])
    (hshort : component.length < 128) (hroom : roomFor entries + (component.length + 1) < 256) :
    addComponent 256 (canonicalText entries) component =
      some (canonicalText (bufferStep entries component)) := by
  unfold addComponent bufferStep
  rw [if_neg (by omega)]
  split
  · rfl
  · split
    next hdots =>
      rw [if_pos (show component = dots from hdots), drop_canonicalText h]
    next hdots =>
      rw [if_neg (show component ≠ dots from hdots)]
      have hlength := length_canonicalText entries
      have hpos := List.length_pos_iff.mpr hne
      by_cases hnil : entries = []
      · subst hnil
        have hroot : canonicalText [] = [slash] := rfl
        rw [hroot, if_neg (by simp), if_neg (by simp only [List.length_singleton]; omega)]
        simp [canonicalText, entriesText]
      · have hsome : 1 < roomFor entries := by
          obtain ⟨e, rest, rfl⟩ := List.exists_cons_of_ne_nil hnil
          have hfirst : 0 < e.length := List.length_pos_iff.mpr fun he => h.first (by simp [he])
          simp only [roomFor, List.map_cons, List.sum_cons]
          omega
        rw [if_pos (by omega), if_neg (by omega), if_neg (by omega)]
        rw [canonicalText, if_neg hnil, canonicalText, if_neg (by simp), entriesText_concat]

theorem foldlM_entries (components : List Text) : ∀ entries, Entries entries →
    (∀ c ∈ components, slash ∉ c ∧ c ≠ [] ∧ c.length < 128) →
    roomFor entries + roomFor components < 256 →
    components.foldlM (addComponent 256) (canonicalText entries) =
        some (canonicalText (components.foldl bufferStep entries)) ∧
      Entries (components.foldl bufferStep entries) ∧
      roomFor (components.foldl bufferStep entries) ≤ roomFor entries + roomFor components := by
  induction components with
  | nil => exact fun entries h _ _ => ⟨rfl, h, Nat.le_add_right ..⟩
  | cons c rest ih =>
    intro entries h hplain hroom
    obtain ⟨hslash, hne, hshort⟩ := hplain c List.mem_cons_self
    have hcons : roomFor (c :: rest) = c.length + 1 + roomFor rest := by simp [roomFor]
    have hnext : Entries (bufferStep entries c) ∧
        roomFor (bufferStep entries c) ≤ roomFor entries + (c.length + 1) := by
      unfold bufferStep
      split
      · exact ⟨h, Nat.le_add_right ..⟩
      · split
        · exact ⟨h.pop, Nat.le_add_right_of_le (roomFor_pop entries)⟩
        · exact ⟨h.push hslash hne, by rw [roomFor_concat]⟩
    rw [List.foldlM_cons, addComponent_entries h hne hshort (by omega), List.foldl_cons]
    obtain ⟨hrun, hshape, hless⟩ :=
      ih _ hnext.1 (fun c' hc' => hplain c' (List.mem_cons_of_mem c hc')) (by omega)
    exact ⟨hrun, hshape, by omega⟩

theorem foldlM_long {components : List Text} (h : ∃ c ∈ components, 128 ≤ c.length) : ∀ out,
    components.foldlM (addComponent 256) out = none := by
  induction components with
  | nil => simp at h
  | cons c rest ih =>
    intro out
    rw [List.foldlM_cons]
    by_cases hlong : 128 ≤ c.length
    · rw [addComponent, if_pos hlong]
      rfl
    · obtain ⟨c', hc', hlong'⟩ := h
      rcases List.mem_cons.mp hc' with rfl | hc'
      · exact absurd hlong' hlong
      cases addComponent 256 out c with
      | none => rfl
      | some out' => exact ih ⟨c', hc', hlong'⟩ out'

theorem head_canonicalText (entries : List Text) : (canonicalText entries).head? = some slash := by
  unfold canonicalText
  split
  · rfl
  next hne =>
    obtain ⟨e, rest, rfl⟩ := List.exists_cons_of_ne_nil hne
    rfl

structure Rooted (cwd : Text) : Prop where
  absolute : cwd.head? = some slash
  fits : cwd.length ≤ 255

variable {cwd path : Text}

theorem head_pathText (h : Rooted cwd) (path : Text) : (pathText cwd path).head? = some slash := by
  obtain ⟨x, rest, rfl⟩ : ∃ x rest, cwd = x :: rest :=
    List.exists_cons_of_ne_nil fun hnil => by
      have habsolute := h.absolute
      rw [hnil] at habsolute
      cases habsolute
  obtain rfl : x = slash := by simpa using h.absolute
  unfold pathText
  generalize (if path = [] then [dot] else path) = path
  simp only
  split
  next habsolute => exact habsolute
  · split
    · rfl
    · rfl

theorem fsAppend_eq {dst : Text} (h : dst.length ≤ 255) (src : Text) :
    fsAppend 256 dst src = (dst ++ src).take 255 := by
  rw [fsAppend, List.take_append, List.take_of_length_le h]

theorem fsNormalize_text (h : Rooted cwd) (path : Text) : fsNormalize cwd path 256 =
    (tokens ((pathText cwd path).take 255)).foldlM (addComponent 256) [slash] := by
  have hcwd : fsCopy 256 cwd = cwd := List.take_of_length_le h.fits
  unfold fsNormalize pathText
  simp only [hcwd]
  generalize (if path = [] then [dot] else path) = path
  split
  · rfl
  · split
    next hroot =>
      rw [hroot, fsAppend_eq (by simp)]
    · rw [fsAppend_eq h.fits, fsAppend_eq (List.length_take_le ..)]
      have htwice : ((cwd ++ [slash]).take 255 ++ path).take 255 =
          (cwd ++ [slash] ++ path).take 255 := by
        have hright : (cwd ++ [slash] ++ path).take 255 = (cwd ++ [slash]).take 255 ++
          path.take (255 - (cwd ++ [slash]).length) := List.take_append
        have hfits := h.fits
        rw [hright, List.take_append, List.take_take, Nat.min_self, List.length_take]
        congr 2
        simp only [List.length_append, List.length_singleton]
        omega
      rw [htwice]

theorem plain_tokens {text : Text} (hshort : ¬∃ c ∈ tokens text, 128 ≤ c.length) :
    ∀ c ∈ tokens text, slash ∉ c ∧ c ≠ [] ∧ c.length < 128 := by
  intro c hc
  obtain ⟨hne, hslash⟩ := XfsRenaming.tokens_words hc
  exact ⟨hslash, hne, Nat.lt_of_not_le fun hlong => hshort ⟨c, hc, hlong⟩⟩

theorem fsNormalize_entries (h : Rooted cwd) (path : Text)
    (hshort : ¬∃ c ∈ tokens ((pathText cwd path).take 255), 128 ≤ c.length) :
    fsNormalize cwd path 256 =
        some (canonicalText (bufferEntries (tokens ((pathText cwd path).take 255)))) ∧
      Entries (bufferEntries (tokens ((pathText cwd path).take 255))) ∧
      roomFor (bufferEntries (tokens ((pathText cwd path).take 255))) ≤ 255 := by
  have hhead : ((pathText cwd path).take 255).head? = some slash := by
    rw [List.head?_take, if_neg (by decide)]
    exact head_pathText h path
  have hroom := (roomFor_tokens hhead).trans (List.length_take_le ..)
  have hnil : roomFor [] = 0 := rfl
  rw [fsNormalize_text h]
  obtain ⟨hrun, hshape, hless⟩ :=
    foldlM_entries _ [] .nil (plain_tokens hshort) (by rw [hnil]; omega)
  exact ⟨hrun, hshape, hless.trans (by rw [hnil]; omega)⟩

theorem fsNormalize_some (h : Rooted cwd) {out : Text} (hout : fsNormalize cwd path 256 = some out) :
    (¬∃ c ∈ tokens ((pathText cwd path).take 255), 128 ≤ c.length) ∧
      out = canonicalText (bufferEntries (tokens ((pathText cwd path).take 255))) := by
  have hshort : ¬∃ c ∈ tokens ((pathText cwd path).take 255), 128 ≤ c.length := by
    intro hlong
    rw [fsNormalize_text h, foldlM_long hlong] at hout
    cases hout
  rw [(fsNormalize_entries h path hshort).1] at hout
  exact ⟨hshort, (Option.some.inj hout).symm⟩

theorem CurrentDir.rooted (h : CurrentDir cwd) : Rooted cwd := by
  induction h with
  | root => exact ⟨rfl, by decide⟩
  | cd isDir path _ ih =>
    unfold k64FsCd
    split
    · exact ih
    next full hfull =>
      split
      · obtain ⟨-, rfl⟩ := fsNormalize_some ih hfull
        constructor
        · rw [fsCopy, List.head?_take, if_neg (by decide), head_canonicalText]
        · exact List.length_take_le ..
      · exact ih

theorem straight_concat (ts : List Text) (c : Text) : Straight (ts ++ [c]) ↔
    (Straight ts ∧ c ≠ dots) ∨ (ts ++ [c]).foldl wayBack ⟨0, false⟩ = ⟨0, false⟩ := by
  constructor
  · rintro ⟨before, behind, hsplit, hback, hnone⟩
    rcases List.eq_nil_or_concat' behind with rfl | ⟨init, last, rfl⟩
    · rw [List.append_nil] at hsplit
      exact .inr (hsplit ▸ hback)
    · rw [← List.append_assoc] at hsplit
      obtain ⟨rfl, hlast⟩ := List.append_inj' hsplit rfl
      obtain rfl : c = last := by simpa using hlast
      rw [List.mem_append, not_or, List.mem_singleton] at hnone
      exact .inl ⟨⟨before, init, rfl, hback, hnone.1⟩, fun hc => hnone.2 hc.symm⟩
  · rintro (⟨⟨before, behind, rfl, hback, hnone⟩, hc⟩ | hback)
    · refine ⟨before, behind ++ [c], List.append_assoc .., hback, ?_⟩
      rw [List.mem_append, not_or, List.mem_singleton]
      exact ⟨hnone, fun hdots => hc hdots.symm⟩
    · exact ⟨ts ++ [c], [], (List.append_nil _).symm, hback, List.not_mem_nil⟩

structure Followed (components entries names : List Text) (d : Distance) : Prop where
  shape : Entries entries
  distance : d = ⟨entries.length, decide (entries.getLast? = some [])⟩
  straight : Straight components ↔ [] ∉ entries
  same : [] ∉ entries → entries = names
  fewer : names.length ≤ (entries.filter (· ≠ [])).length

namespace Followed

variable {components names : List Text} {d : Distance}

theorem dot (h : Followed components entries names d)
    (hd : components.foldl wayBack ⟨0, false⟩ = d) :
    Followed (components ++ [[FsPaths.dot]]) entries names d where
  shape := h.shape
  distance := h.distance
  straight := by
    have hne : [FsPaths.dot] ≠ dots := by decide
    rw [straight_concat, ← h.straight, and_iff_left hne, List.foldl_concat, hd]
    refine ⟨fun hs => hs.elim id fun hroot => ?_, .inl⟩
    exact ⟨components, [], (List.append_nil _).symm, hd.trans hroot, List.not_mem_nil⟩
  same := h.same
  fewer := h.fewer

theorem name {c : Text} (h : Followed components entries names d) (hslash : slash ∉ c) (hc : c ≠ [])
    (hdot : c ≠ [FsPaths.dot]) (hdots : c ≠ dots) :
    Followed (components ++ [c]) (entries ++ [c]) (names ++ [c]) ⟨d.entries + 1, false⟩ where
  shape := h.shape.push hslash hc
  distance := by
    rw [h.distance, List.length_append, List.getLast?_concat]
    simp [hc]
  straight := by
    have haway : (components ++ [c]).foldl wayBack ⟨0, false⟩ ≠ ⟨0, false⟩ := by
      unfold wayBack
      rw [List.foldl_concat, if_neg hdot, if_neg hdots]
      simp
    rw [straight_concat, or_iff_left haway, and_iff_left hdots, h.straight, List.mem_append,
      not_or, and_iff_left]
    simpa using hc.symm
  same := by
    intro hnone
    rw [List.mem_append, not_or] at hnone
    rw [h.same hnone.1]
  fewer := by
    have := h.fewer
    rw [List.filter_append, List.length_append, List.length_append]
    simpa [hc] using this

theorem up {init : List Text} (h : Followed components entries names d)
    (hshape : Entries (if init = [] then [] else init ++ [[]]))
    (hway : (components ++ [dots]).foldl wayBack ⟨0, false⟩ =
      if init = [] then ⟨0, false⟩ else ⟨init.length + 1, true⟩)
    (hfewer : (entries.filter (· ≠ [])).length ≤ (init.filter (· ≠ [])).length + 1) :
    Followed (components ++ [dots]) (if init = [] then [] else init ++ [[]]) names.dropLast
      ((components ++ [dots]).foldl wayBack ⟨0, false⟩) where
  shape := hshape
  distance := by
    rw [hway]
    split
    · rfl
    · simp
  straight := by
    rw [straight_concat, hway]
    split
    · simp
    · simp
  same := by
    have := h.fewer
    split
    next hinit =>
      intro _
      rw [hinit, List.filter_nil, List.length_nil] at hfewer
      exact (List.length_eq_zero_iff.mp (by rw [List.length_dropLast]; omega)).symm
    · intro hnone
      exact absurd (by simp) hnone
  fewer := by
    have := h.fewer
    rw [List.length_dropLast]
    split
    next hinit =>
      rw [hinit, List.filter_nil, List.length_nil] at hfewer
      omega
    · rw [List.filter_append, List.length_append]
      omega

theorem dots (h : Followed components entries names d)
    (hd : components.foldl wayBack ⟨0, false⟩ = d) :
    Followed (components ++ [FsPaths.dots]) (popEntries entries) names.dropLast
      ((components ++ [FsPaths.dots]).foldl wayBack ⟨0, false⟩) := by
  have hshape := h.shape.pop
  have hdistance := h.distance
  have hway : (components ++ [FsPaths.dots]).foldl wayBack ⟨0, false⟩ = wayBack d FsPaths.dots := by
    rw [List.foldl_concat, hd]
  rcases pop_cases entries with rfl | rfl | ⟨init, e, he, rfl, hpop⟩ | ⟨init, e, rfl, hpop⟩
  · have hnil : popEntries [] = if ([] : List Text) = [] then [] else [] ++ [[]] := rfl
    rw [hnil]
    refine h.up .nil ?_ (Nat.le_add_right ..)
    rw [hway, hdistance]
    rfl
  · exact absurd rfl h.shape.first
  · rw [hpop] at hshape ⊢
    refine h.up hshape ?_ ?_
    · rw [hway, hdistance, List.getLast?_concat]
      simp only [Option.some.injEq, he, decide_false, List.length_append, List.length_singleton]
      cases init with
      | nil => rfl
      | cons a init => simp [wayBack, FsPaths.dots, FsPaths.dot]
    · rw [List.filter_append, List.length_append]
      exact Nat.add_le_add_left (List.length_filter_le ..) _
  · rw [hpop] at hshape ⊢
    refine h.up hshape ?_ ?_
    · rw [hway, hdistance, List.getLast?_concat]
      simp only [decide_true, List.length_append, List.length_singleton]
      cases init with
      | nil => rfl
      | cons a init => simp [wayBack, FsPaths.dots, FsPaths.dot]
    · rw [List.append_assoc, List.filter_append, List.length_append]
      refine Nat.add_le_add_left ?_ _
      rw [List.singleton_append, List.filter_cons, List.filter_cons]
      split
      · simp
      · simp

end Followed

theorem followed (components : List Text) : (∀ c ∈ components, slash ∉ c ∧ c ≠ []) →
    Followed components (bufferEntries components) (lexicalNames components)
      (components.foldl wayBack ⟨0, false⟩) := by
  induction components using List.reverseRecOn with
  | nil =>
    intro _
    exact ⟨.nil, rfl, iff_of_true ⟨[], [], rfl, rfl, List.not_mem_nil⟩ List.not_mem_nil,
      fun _ => rfl, Nat.le_refl 0⟩
  | append_singleton components c ih =>
    intro hplain
    have hbefore := ih fun c' hc' => hplain c' (List.mem_append_left _ hc')
    obtain ⟨hslash, hne⟩ := hplain c (List.mem_append_right _ List.mem_cons_self)
    have hentries : bufferEntries (components ++ [c]) = bufferStep (bufferEntries components) c :=
      List.foldl_concat ..
    have hnames : lexicalNames (components ++ [c]) = lexicalStep (lexicalNames components) c :=
      List.foldl_concat ..
    rw [hentries, hnames, bufferStep, lexicalStep]
    by_cases hdot : c = [dot]
    · rw [if_pos hdot, if_pos hdot, hdot, List.foldl_concat]
      exact hbefore.dot rfl
    rw [if_neg hdot, if_neg hdot]
    by_cases hdots : c = dots
    · rw [if_pos hdots, if_pos hdots, hdots]
      exact hbefore.dots rfl
    · have hway : (components ++ [c]).foldl wayBack ⟨0, false⟩ =
          ⟨(components.foldl wayBack ⟨0, false⟩).entries + 1, false⟩ := by
        unfold wayBack
        rw [List.foldl_concat, if_neg hdot, if_neg hdots]
      rw [if_neg hdots, if_neg hdots, hway]
      exact hbefore.name hslash hne hdot hdots

theorem mem_lexicalNames {name : Text} (components : List Text) : name ∈ lexicalNames components →
    name ∈ components ∧ name ≠ [dot] ∧ name ≠ dots := by
  induction components using List.reverseRecOn with
  | nil => exact fun h => absurd h List.not_mem_nil
  | append_singleton components c ih =>
    intro h
    have hold : name ∈ lexicalNames components →
        name ∈ components ++ [c] ∧ name ≠ [dot] ∧ name ≠ dots :=
      fun hn => (ih hn).imp_left (List.mem_append_left _)
    have hlast : name ∈ lexicalStep (lexicalNames components) c := by
      rwa [lexicalNames, List.foldl_concat] at h
    unfold lexicalStep at hlast
    split at hlast
    · exact hold hlast
    next hdot =>
      split at hlast
      · exact hold ((List.dropLast_subset _) hlast)
      next hdots =>
        rcases List.mem_append.mp hlast with hlast | hlast
        · exact hold hlast
        · obtain rfl := List.mem_singleton.mp hlast
          exact ⟨List.mem_append_right _ List.mem_cons_self, hdot, hdots⟩

theorem entriesText_injective {es : List Text} : ∀ {fs : List Text}, (∀ e ∈ es, slash ∉ e) →
    (∀ f ∈ fs, slash ∉ f) → entriesText es = entriesText fs → es = fs := by
  -- an entry goes up to the next slash
  have hword : ∀ (e : Text) (rest : List Text), slash ∉ e →
      (e ++ entriesText rest).takeWhile (· != slash) = e := by
    intro e rest he
    have hno : (entriesText rest).takeWhile (· != slash) = [] := by
      cases rest with
      | nil => rfl
      | cons r rest => simp [entriesText]
    rw [List.takeWhile_append_of_pos, hno, List.append_nil]
    exact fun x hx => bne_iff_ne.mpr fun hs => he (hs ▸ hx)
  induction es with
  | nil =>
    intro fs _ _ h
    cases fs with
    | nil => rfl
    | cons f fs => simp [entriesText] at h
  | cons e es ih =>
    intro fs hes hfs h
    cases fs with
    | nil => simp [entriesText] at h
    | cons f fs =>
      have htail : e ++ entriesText es = f ++ entriesText fs := by
        simpa [entriesText] using h
      have hhead : e = f := by
        have := congrArg (List.takeWhile (· != slash)) htail
        rwa [hword e es (hes e List.mem_cons_self), hword f fs (hfs f List.mem_cons_self)] at this
      subst hhead
      rw [ih (fun x hx => hes x (List.mem_cons_of_mem _ hx))
        (fun x hx => hfs x (List.mem_cons_of_mem _ hx)) (List.append_cancel_left htail)]

theorem not_canonical (h : Entries entries) (hempty : [] ∈ entries) {names : List Text}
    (hnames : ∀ n ∈ names, CanonicalName n) : canonicalText entries ≠ canonicalText names := by
  intro heq
  rw [canonicalText, if_neg (List.ne_nil_of_mem hempty), canonicalText] at heq
  split at heq
  · have hone : entries = [[]] :=
      entriesText_injective h.noSlash (by simp) (heq.trans (by simp [entriesText]))
    exact h.first (by rw [hone]; rfl)
  · have hsame : entries = names :=
      entriesText_injective h.noSlash (fun n hn => (hnames n hn).noSlash) heq
    exact (hnames [] (hsame ▸ hempty)).nonempty rfl

theorem tokens_canonicalText {names : List Text} (hnames : ∀ n ∈ names, CanonicalName n) :
    tokens (canonicalText names) = names := by
  unfold canonicalText
  split
  next hnil => rw [hnil, tokens_root]
  · exact XfsRenaming.tokens_pathOf names
      (fun n hn => ⟨(hnames n hn).nonempty, (hnames n hn).noSlash⟩) []

theorem bufferEntries_canonical {names : List Text} (hnames : ∀ n ∈ names, CanonicalName n) :
    bufferEntries names = names := by
  induction names using List.reverseRecOn with
  | nil => rfl
  | append_singleton names n ih =>
    have hn := hnames n (List.mem_append_right _ List.mem_cons_self)
    rw [bufferEntries, List.foldl_concat, bufferStep, if_neg hn.not_dot, if_neg hn.not_dots]
    rw [← bufferEntries, ih fun n' hn' => hnames n' (List.mem_append_left _ hn')]

theorem fsNormalize_absolute (cwd cwd' : Text) {path : Text} (h : path.head? = some slash) :
    fsNormalize cwd path 256 = fsNormalize cwd' path 256 := by
  have hne : path ≠ [] := fun hnil => by rw [hnil] at h; cases h
  unfold fsNormalize
  simp only [if_neg hne, if_pos h]

theorem pathText_canonical (cwd : Text) (hroom : roomFor entries ≤ 255) :
    (pathText cwd (canonicalText entries)).take 255 = canonicalText entries := by
  have hhead := head_canonicalText entries
  have hne : canonicalText entries ≠ [] := fun hnil => by rw [hnil] at hhead; cases hhead
  unfold pathText
  rw [if_neg hne]
  simp only [if_pos hhead]
  apply List.take_of_length_le
  rw [length_canonicalText]
  omega

theorem fsNormalize_canonical {names : List Text} (hnames : ∀ n ∈ names, CanonicalName n)
    (hshort : ∀ n ∈ names, n.length < 128) (hroom : roomFor names ≤ 255) (cwd : Text) :
    fsNormalize cwd (canonicalText names) 256 = some (canonicalText names) := by
  have hhead := head_canonicalText names
  have htext := pathText_canonical [slash] hroom
  have hroot : Rooted [slash] := ⟨rfl, by decide⟩
  have hrun := (fsNormalize_entries hroot (canonicalText names) (by
    rw [htext, tokens_canonicalText hnames]
    rintro ⟨n, hn, hlong⟩
    exact absurd hlong (Nat.not_le_of_lt (hshort n hn)))).1
  rw [fsNormalize_absolute cwd [slash] hhead, hrun, htext, tokens_canonicalText hnames,
    bufferEntries_canonical hnames]

theorem resolves_straight (h : Rooted cwd)
    (hshort : ¬∃ c ∈ tokens ((pathText cwd path).take 255), 128 ≤ c.length)
    (hfits : (pathText cwd path).length < 256) (hstraight : Straight (tokens (pathText cwd path))) :
    ResolvesLexically cwd path := by
  obtain ⟨hrun, hshape, hroom⟩ := fsNormalize_entries h path hshort
  have hall : (pathText cwd path).take 255 = pathText cwd path :=
    List.take_of_length_le (Nat.le_of_lt_succ hfits)
  rw [hall] at hrun hshape hroom hshort
  have hfollowed := followed (tokens (pathText cwd path)) fun c hc =>
    (XfsRenaming.tokens_words hc).symm
  have hfull := hfollowed.straight.mp hstraight
  have hsame := hfollowed.same hfull
  have hmem := fun n => @mem_lexicalNames n (tokens (pathText cwd path))
  have hnames : ∀ n ∈ bufferEntries (tokens (pathText cwd path)), CanonicalName n := by
    intro n hn
    exact ⟨fun hnil => hfull (hnil ▸ hn), hshape.noSlash n hn, (hmem n (hsame ▸ hn)).2.1,
      (hmem n (hsame ▸ hn)).2.2⟩
  have hout : ∀ out, fsNormalize cwd path 256 = some out →
      out = canonicalText (bufferEntries (tokens (pathText cwd path))) :=
    fun out hout => (Option.some.inj (hrun.symm.trans hout)).symm
  constructor
  · rintro (hlong | hlong)
    · exact absurd hlong (Nat.not_le_of_lt hfits)
    · exact absurd hlong hshort
  · exact fun out ho => (hout out ho).trans (congrArg canonicalText hsame)
  · exact fun out ho => ⟨_, hout out ho, hnames⟩
  · intro out ho cwd'
    rw [hout out ho]
    refine fsNormalize_canonical hnames (fun n hn => ?_) hroom cwd'
    exact Nat.lt_of_not_le fun hlong => hshort ⟨n, (hmem n (hsame ▸ hn)).1, hlong⟩

/-- A path is resolved lexically just when a component of it is refused, or all of it fits and every
`..` in it comes before the path is back at the root. -/
theorem resolves_lexically_iff (hcwd : CurrentDir cwd) (path : Text) : ResolvesLexically cwd path ↔
    (∃ c ∈ tokens ((pathText cwd path).take 255), 128 ≤ c.length) ∨
      (pathText cwd path).length < 256 ∧ Straight (tokens (pathText cwd path)) := by
  have h := hcwd.rooted
  by_cases hshort : ∃ c ∈ tokens ((pathText cwd path).take 255), 128 ≤ c.length
  · have hnone : ∀ out, fsNormalize cwd path 256 ≠ some out :=
      fun out hout => (fsNormalize_some h hout).1 hshort
    refine iff_of_true ⟨fun _ => Option.eq_none_iff_forall_ne_some.mpr hnone, ?_, ?_, ?_⟩
      (.inl hshort)
    · exact fun out hout => absurd hout (hnone out)
    · exact fun out hout => absurd hout (hnone out)
    · exact fun out hout => absurd hout (hnone out)
  rw [or_iff_right hshort]
  refine ⟨fun hres => ?_, fun hfit => resolves_straight h hshort hfit.1 hfit.2⟩
  obtain ⟨hrun, hshape, -⟩ := fsNormalize_entries h path hshort
  have hfits : (pathText cwd path).length < 256 := by
    by_contra hlong
    rw [hres.refused (.inl (Nat.le_of_not_lt hlong))] at hrun
    cases hrun
  refine ⟨hfits, ?_⟩
  rw [List.take_of_length_le (Nat.le_of_lt_succ hfits)] at hrun hshape
  have hfollowed := followed (tokens (pathText cwd path)) fun c hc =>
    (XfsRenaming.tokens_words hc).symm
  by_contra hcrooked
  have hempty : [] ∈ bufferEntries (tokens (pathText cwd path)) :=
    Classical.not_not.mp fun hnone => hcrooked (hfollowed.straight.mpr hnone)
  obtain ⟨names, htext, hnames⟩ := hres.canonical _ hrun
  exact not_canonical hshape hempty hnames htext

/-- "/a/..". -/
def upAgain : Text := [slash, 97, slash, dot, dot]

theorem resolves_lexically_iff_up : ResolvesLexically [slash] upAgain ↔
    (∃ c ∈ tokens ((pathText [slash] upAgain).take 255), 128 ≤ c.length) ∨
      (pathText [slash] upAgain).length < 256 ∧ Straight (tokens (pathText [slash] upAgain)) :=
  resolves_lexically_iff .root upAgain

/-- "/a/b/.." becomes "/a/". -/
theorem normalize_keeps_slash : ¬∀ cwd path, CurrentDir cwd → ResolvesLexically cwd path := by
  intro h
  have hres := h [slash] [slash, 97, slash, 98, slash, dot, dot] .root
  have hout := hres.resolved [slash, 97, slash] (by decide)
  exact absurd hout (by decide)

end FsPaths
