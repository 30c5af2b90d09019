import K64.KpmSources
import Mathlib.Data.List.Nodup
import Mathlib.Data.List.Induction

/-! # The source list

The list is kept as text, one source a line. Each command loads it, changes it and saves it. -/
namespace KpmSources

open NetState KpmPackage Scanning

def isSpace (c : UInt8) : Bool := c == 32 || c == 9 || c == 13 || c == 10

def inWord (c : UInt8) : Bool := c != 0 && !isSpace c

def kpmSkipWs (s : List UInt8) : List UInt8 := s.dropWhile isSpace

/-- A token of less than `size` bytes, and what follows it; a longer word is split. -/
def kpmNextToken (s : List UInt8) (size : ℕ) : List UInt8 × List UInt8 :=
  let s := kpmSkipWs s
  let token := (s.takeWhile inWord).take (size - 1)
  (token, kpmSkipWs (s.drop token.length))

def firstWord (s : List UInt8) : List UInt8 := (kpmSkipWs s).takeWhile inWord

structure KpmSource where
  name : List UInt8
  baseUrl : List UInt8
  url : KpmUrl
  deriving DecidableEq

def kpmMaxSources : ℕ := 8

/-- `/etc/kpm/sources.cfg`, if it exists. -/
abbrev SourcesFile := Option (List UInt8)

def isLineEnd (c : UInt8) : Bool := c == 10 || c == 13

/-- The source in the two tokens at `p`. -/
def sourceAt (p : List UInt8) : Option KpmSource :=
  let (name, q) := kpmNextToken p 32
  let (url, _) := kpmNextToken q 160
  if name = [] ∨ url = [] then none
  else (k64KpmParseUrl url).map fun parsed => ⟨kpmCopy 32 name, kpmCopy 160 url, parsed⟩

/-- The loop over the lines. Each of them takes at least one byte. -/
def loadLines : ℕ → List UInt8 → List KpmSource → List KpmSource
  | 0, _, sources => sources
  | n + 1, p, sources =>
    if p = [] ∨ kpmMaxSources ≤ sources.length then sources
    else loadLines n ((p.dropWhile fun c => !isLineEnd c).dropWhile isLineEnd)
      (sources ++ (sourceAt p).toList)

/-- The file is read into a buffer of 8192 bytes. -/
def kpmLoadSources (file : SourcesFile) : List KpmSource :=
  match file with
  | none => []
  | some bytes =>
    let text := cstr (bytes.take 8191)
    loadLines text.length text []

def sourcePieces (s : KpmSource) : List (List UInt8) := [s.name, ascii " ", s.baseUrl, ascii "\n"]

def kpmSaveSources (sources : List KpmSource) : SourcesFile :=
  some ((sources.flatMap sourcePieces).foldl (kpmAppend 8192) [])

def kpmCmdSourceAdd (args : List UInt8) (file : SourcesFile) : SourcesFile :=
  let (name, args) := kpmNextToken args 32
  let (url, _) := kpmNextToken args 160
  if name = [] ∨ url = [] then file
  else
    match k64KpmParseUrl url with
    | none => file
    | some parsed =>
      let sources := kpmLoadSources file
      if sources.any fun s => s.name == name || s.baseUrl == url then file
      else if kpmMaxSources ≤ sources.length then file
      else kpmSaveSources (sources ++ [⟨kpmCopy 32 name, kpmCopy 160 url, parsed⟩])

/-- The loop that deletes in place: from the named entry on, each takes the value of the next one. -/
def shiftDown (name : List UInt8) : Bool → List KpmSource → Bool × List KpmSource
  | found, [] => (found, [])
  | found, [s] => (found || s.name == name, [s])
  | found, s :: t :: rest =>
    let found := found || s.name == name
    let (any, shifted) := shiftDown name found (t :: rest)
    (any, (if found then t else s) :: shifted)

def kpmCmdSourceDel (args : List UInt8) (file : SourcesFile) : SourcesFile :=
  let (name, _) := kpmNextToken args 32
  if name = [] then file
  else
    let sources := kpmLoadSources file
    let (found, shifted) := shiftDown name false sources
    if !found then file else kpmSaveSources (shifted.take (sources.length - 1))

inductive Command where
  | add (args : List UInt8)
  | del (args : List UInt8)
  deriving DecidableEq

def runCommand (file : SourcesFile) : Command → SourcesFile
  | .add args => kpmCmdSourceAdd args file
  | .del args => kpmCmdSourceDel args file

def afterCommands (commands : List Command) : SourcesFile := commands.foldl runCommand none

variable {s : KpmSource} {sources : List KpmSource} {file : SourcesFile} {args token rest : List UInt8}
  {size : ℕ}

structure IsToken (token : List UInt8) (size : ℕ) : Prop where
  nonempty : token ≠ []
  short : token.length < size
  word : ∀ c ∈ token, inWord c = true

theorem inWord_not_space {c : UInt8} (h : inWord c = true) : isSpace c = false := by
  rw [inWord, Bool.and_eq_true, Bool.not_eq_true'] at h
  exact h.2

theorem IsToken.head (h : IsToken token size) (rest : List UInt8) :
    ∀ x ∈ (token ++ rest).head?, inWord x = true := by
  intro x hx
  cases token with
  | nil => exact absurd rfl h.nonempty
  | cons c token =>
    obtain rfl := Option.mem_some.mp hx
    exact h.word c List.mem_cons_self

theorem IsToken.skip (h : IsToken token size) (rest : List UInt8) :
    kpmSkipWs (token ++ rest) = token ++ rest :=
  dropWhile_none fun x hx => inWord_not_space (h.head rest x hx)

theorem token_isToken (hsize : 0 < size) (h : (kpmNextToken args size).1 ≠ []) :
    IsToken (kpmNextToken args size).1 size where
  nonempty := h
  short := by
    change (List.take _ _).length < size
    rw [List.length_take]
    omega
  word := fun _ hc => mem_takeWhile (List.mem_of_mem_take hc)

theorem nextToken_front (h : IsToken token size) (hrest : ∀ x ∈ rest.head?, inWord x = false) :
    kpmNextToken (token ++ rest) size = (token, kpmSkipWs rest) := by
  have := h.short
  unfold kpmNextToken
  dsimp only
  rw [h.skip, takeWhile_front h.word hrest, List.take_of_length_le (by omega), List.drop_left]

structure Valid (s : KpmSource) : Prop where
  name : IsToken s.name 32
  baseUrl : IsToken s.baseUrl 160
  parsed : k64KpmParseUrl s.baseUrl = some s.url

def lineOf (s : KpmSource) : List UInt8 := s.name ++ 32 :: (s.baseUrl ++ [10])

def listText (sources : List KpmSource) : List UInt8 := sources.flatMap lineOf

theorem listText_cons (s : KpmSource) (sources : List KpmSource) :
    listText (s :: sources) = lineOf s ++ listText sources := List.flatMap_cons

theorem Valid.read (h : Valid s) (rest : List UInt8) : sourceAt (lineOf s ++ rest) = some s := by
  have hline : lineOf s ++ rest = s.name ++ 32 :: (s.baseUrl ++ 10 :: rest) := by simp [lineOf]
  have hspace : kpmSkipWs (32 :: (s.baseUrl ++ 10 :: rest)) = s.baseUrl ++ 10 :: rest :=
    h.baseUrl.skip _
  have hname := h.name.short
  have hurl := h.baseUrl.short
  have hword : ∀ c : UInt8, inWord c = false → ∀ tail : List UInt8,
      ∀ x ∈ (c :: tail).head?, inWord x = false := by
    intro c hc tail x hx
    rwa [← Option.mem_some.mp hx]
  unfold sourceAt
  rw [hline, nextToken_front h.name (hword 32 rfl _)]
  dsimp only
  rw [hspace, nextToken_front h.baseUrl (hword 10 rfl _), if_neg, h.parsed, Option.map_some,
    kpmCopy_eq hname, kpmCopy_eq hurl]
  rintro (hnil | hnil)
  · exact h.name.nonempty hnil
  · exact h.baseUrl.nonempty hnil

theorem inWord_not_lineEnd {c : UInt8} (h : inWord c = true) : isLineEnd c = false := by
  have hspace := inWord_not_space h
  rw [isSpace, Bool.or_eq_false_iff, Bool.or_eq_false_iff] at hspace
  rw [isLineEnd, hspace.2, hspace.1.2]
  rfl

theorem Valid.skip (h : Valid s) (hrest : ∀ x ∈ rest.head?, isLineEnd x = false) :
    ((lineOf s ++ rest).dropWhile fun c => !isLineEnd c).dropWhile isLineEnd = rest := by
  have hline : lineOf s ++ rest = (s.name ++ 32 :: s.baseUrl) ++ 10 :: rest := by simp [lineOf]
  have hfront : ∀ c ∈ s.name ++ 32 :: s.baseUrl, (!isLineEnd c) = true := by
    intro c hc
    rw [Bool.not_eq_true']
    rcases List.mem_append.mp hc with hc | hc
    · exact inWord_not_lineEnd (h.name.word c hc)
    · rcases List.mem_cons.mp hc with rfl | hc
      · rfl
      · exact inWord_not_lineEnd (h.baseUrl.word c hc)
  rw [hline, dropWhile_front hfront (fun x hx => by rw [← Option.mem_some.mp hx]; rfl)]
  rw [List.dropWhile_cons_of_pos rfl, dropWhile_none hrest]

theorem length_lineOf (s : KpmSource) :
    (lineOf s).length = s.name.length + s.baseUrl.length + 2 := by
  simp only [lineOf, List.length_append, List.length_cons, List.length_nil]
  omega

theorem head_listText (h : ∀ s ∈ sources, Valid s) :
    ∀ x ∈ (listText sources).head?, isLineEnd x = false := by
  intro x hx
  cases sources with
  | nil => cases hx
  | cons s sources =>
    rw [listText_cons, lineOf, List.append_assoc] at hx
    exact inWord_not_lineEnd ((h s List.mem_cons_self).name.head _ x hx)

theorem loadLines_text : ∀ (sources : List KpmSource) (n : ℕ) (loaded : List KpmSource),
    (∀ s ∈ sources, Valid s) → (listText sources).length ≤ n →
    loaded.length + sources.length ≤ kpmMaxSources →
    loadLines n (listText sources) loaded = loaded ++ sources := by
  intro sources
  induction sources with
  | nil =>
    intro n loaded _ _ _
    rw [List.append_nil]
    cases n with
    | zero => rfl
    | succ n => exact if_pos (.inl rfl)
  | cons s sources ih =>
    intro n loaded hvalid hn hcount
    have hs := hvalid s List.mem_cons_self
    have hrest : ∀ t ∈ sources, Valid t := fun t ht => hvalid t (List.mem_cons_of_mem _ ht)
    rw [listText_cons, List.length_append, length_lineOf] at hn
    rw [List.length_cons] at hcount
    obtain ⟨n, rfl⟩ : ∃ m, n = m + 1 := ⟨n - 1, by omega⟩
    rw [listText_cons, loadLines, if_neg, hs.read, hs.skip (head_listText hrest),
      Option.toList_some, ih n _ hrest (by omega), List.append_assoc]
    · rfl
    · rw [List.length_append, List.length_singleton]
      omega
    · rintro (hnil | hfull)
      · have := congrArg List.length hnil
        rw [List.length_append, length_lineOf, List.length_nil] at this
        omega
      · omega

/-- What every saved list is like. -/
structure Listed (sources : List KpmSource) : Prop where
  valid : ∀ s ∈ sources, Valid s
  bounded : sources.length ≤ kpmMaxSources
  names : (sources.map KpmSource.name).Nodup
  urls : (sources.map KpmSource.baseUrl).Nodup

theorem length_listText (h : ∀ s ∈ sources, Valid s) :
    (listText sources).length ≤ 192 * sources.length := by
  induction sources with
  | nil => exact Nat.zero_le _
  | cons s sources ih =>
    have hs := h s List.mem_cons_self
    have hname := hs.name.short
    have hurl := hs.baseUrl.short
    have := ih fun t ht => h t (List.mem_cons_of_mem _ ht)
    rw [listText_cons, List.length_append, length_lineOf, List.length_cons]
    omega

theorem flatten_pieces (sources : List KpmSource) :
    (sources.flatMap sourcePieces).flatten = listText sources := by
  induction sources with
  | nil => rfl
  | cons s sources ih =>
    rw [List.flatMap_cons, List.flatten_append, ih, listText_cons, List.append_cancel_right_eq]
    change s.name ++ ([32] ++ (s.baseUrl ++ ([10] ++ []))) = _
    rw [lineOf, List.append_nil, List.singleton_append]

theorem Listed.save (h : Listed sources) : kpmSaveSources sources = some (listText sources) := by
  have hlen := length_listText h.valid
  have hmax : sources.length ≤ 8 := h.bounded
  rw [kpmSaveSources, KpmInstall.append_pieces 8192 _ _ (Nat.zero_le _), List.nil_append,
    flatten_pieces, List.take_of_length_le (by omega)]

theorem listText_no_zero (h : ∀ s ∈ sources, Valid s) :
    ∀ c ∈ listText sources, decide (c ≠ 0) = true := by
  intro c hc
  have hword : ∀ c : UInt8, inWord c = true → decide (c ≠ 0) = true := by
    intro c hc
    rw [inWord, Bool.and_eq_true, bne_iff_ne] at hc
    exact decide_eq_true hc.1
  obtain ⟨s, hs, hc⟩ := List.mem_flatMap.mp hc
  rw [lineOf] at hc
  rcases List.mem_append.mp hc with hc | hc
  · exact hword c ((h s hs).name.word c hc)
  · rcases List.mem_cons.mp hc with rfl | hc
    · rfl
    · rcases List.mem_append.mp hc with hc | hc
      · exact hword c ((h s hs).baseUrl.word c hc)
      · rw [List.mem_singleton.mp hc]
        rfl

theorem Listed.load (h : Listed sources) : kpmLoadSources (kpmSaveSources sources) = sources := by
  have hlen := length_listText h.valid
  have hmax : sources.length ≤ 8 := h.bounded
  have hcstr : cstr (listText sources) = listText sources :=
    takeWhile_all (listText_no_zero h.valid)
  rw [h.save, kpmLoadSources, List.take_of_length_le (by omega), hcstr,
    loadLines_text sources _ [] h.valid (Nat.le_refl _) (by
      rw [List.length_nil, Nat.zero_add]
      exact h.bounded)]
  rfl

variable (name : List UInt8)

theorem shiftDown_found : ∀ sources : List KpmSource,
    (shiftDown name true sources).1 = true ∧
      (shiftDown name true sources).2.take (sources.length - 1) = sources.tail := by
  intro sources
  induction sources with
  | nil => exact ⟨rfl, rfl⟩
  | cons s rest ih =>
    cases rest with
    | nil => exact ⟨rfl, rfl⟩
    | cons t rest =>
      refine ⟨ih.1, ?_⟩
      change (t :: (shiftDown name true (t :: rest)).2).take (rest.length + 1) = t :: rest
      rw [List.take_succ_cons]
      exact congrArg (t :: ·) ih.2

theorem shiftDown_any : ∀ sources : List KpmSource,
    (shiftDown name false sources).1 = sources.any fun s => s.name == name := by
  intro sources
  induction sources with
  | nil => rfl
  | cons s rest ih =>
    rw [List.any_cons]
    cases hs : s.name == name with
    | false =>
      cases rest with
      | nil => simp [shiftDown, hs]
      | cons t rest =>
        rw [Bool.false_or, ← ih]
        simp [shiftDown, hs]
    | true =>
      cases rest with
      | nil => simp [shiftDown, hs]
      | cons t rest => simp [shiftDown, hs, (shiftDown_found name (t :: rest)).1]

theorem shiftDown_filter : ∀ sources : List KpmSource,
    (sources.map KpmSource.name).Nodup → (sources.any fun s => s.name == name) = true →
    (shiftDown name false sources).2.take (sources.length - 1) =
      sources.filter fun s => s.name != name := by
  intro sources
  induction sources with
  | nil => exact fun _ _ => rfl
  | cons s rest ih =>
    intro hnodup hany
    rw [List.map_cons, List.nodup_cons] at hnodup
    rw [List.any_cons] at hany
    cases hs : s.name == name with
    | true =>
      -- no later entry has the name of this one
      have hkeep : rest.filter (fun s => s.name != name) = rest := by
        apply List.filter_eq_self.mpr
        intro t ht
        rw [bne_iff_ne]
        intro heq
        exact hnodup.1 (List.mem_map.mpr ⟨t, ht, heq.trans (eq_of_beq hs).symm⟩)
      rw [List.filter_cons, if_neg (by simp [bne, hs]), hkeep]
      cases rest with
      | nil => rfl
      | cons t rest =>
        have := (shiftDown_found name (t :: rest)).2
        simp only [shiftDown, hs, Bool.false_or, if_true]
        exact congrArg (t :: ·) this
    | false =>
      rw [hs, Bool.false_or] at hany
      rw [List.filter_cons, if_pos (by simp [bne, hs]), ← ih hnodup.2 hany]
      cases rest with
      | nil => cases hany
      | cons t rest =>
        simp only [shiftDown, hs, Bool.false_or, Bool.false_eq_true, if_false]
        exact List.take_succ_cons

def Stored (file : SourcesFile) (sources : List KpmSource) : Prop :=
  Listed sources ∧ (file = kpmSaveSources sources ∨ file = none ∧ sources = [])

theorem Stored.load (h : Stored file sources) : kpmLoadSources file = sources := by
  obtain ⟨hlisted, rfl | ⟨rfl, rfl⟩⟩ := h
  · exact hlisted.load
  · rfl

theorem Listed.sublist {kept : List KpmSource} (h : Listed sources) (hsub : kept.Sublist sources) :
    Listed kept where
  valid := fun s hs => h.valid s (hsub.subset hs)
  bounded := hsub.length_le.trans h.bounded
  names := h.names.sublist (hsub.map _)
  urls := h.urls.sublist (hsub.map _)

theorem Listed.snoc (h : Listed sources) (hs : Valid s)
    (hnew : ¬(sources.any fun t => t.name == s.name || t.baseUrl == s.baseUrl) = true)
    (hroom : sources.length < kpmMaxSources) : Listed (sources ++ [s]) := by
  have hdiff : ∀ t ∈ sources, t.name ≠ s.name ∧ t.baseUrl ≠ s.baseUrl := by
    intro t ht
    by_contra hsame
    apply hnew
    rw [List.any_eq_true]
    refine ⟨t, ht, ?_⟩
    rw [Bool.or_eq_true, beq_iff_eq, beq_iff_eq]
    by_contra hno
    rw [not_or] at hno
    exact hsame hno
  have hsnoc : ∀ f : KpmSource → List UInt8, (sources.map f).Nodup →
      (∀ t ∈ sources, f t ≠ f s) → ((sources ++ [s]).map f).Nodup := by
    intro f hf hne
    rw [List.map_append, List.map_singleton, List.nodup_append]
    refine ⟨hf, List.nodup_singleton _, ?_⟩
    rintro a ha b hb rfl
    obtain ⟨t, ht, rfl⟩ := List.mem_map.mp ha
    exact hne t ht (List.mem_singleton.mp hb)
  refine ⟨fun t ht => ?_, ?_, hsnoc _ h.names fun t ht => (hdiff t ht).1,
    hsnoc _ h.urls fun t ht => (hdiff t ht).2⟩
  · rcases List.mem_append.mp ht with ht | ht
    · exact h.valid t ht
    · exact List.mem_singleton.mp ht ▸ hs
  · rw [List.length_append, List.length_singleton]
    omega

theorem add_stored (h : Stored file sources) (args : List UInt8) :
    ∃ sources', Stored (kpmCmdSourceAdd args file) sources' := by
  unfold kpmCmdSourceAdd
  dsimp only
  split
  · exact ⟨sources, h⟩
  next hne =>
    rw [not_or] at hne
    have hname := token_isToken (by decide : 0 < 32) hne.1
    have hurl := token_isToken (by decide : 0 < 160) hne.2
    split
    · exact ⟨sources, h⟩
    next parsed hparsed =>
      rw [h.load]
      split_ifs with hsame hfull
      · exact ⟨sources, h⟩
      · exact ⟨sources, h⟩
      · rw [kpmCopy_eq hname.short, kpmCopy_eq hurl.short]
        exact ⟨_, h.1.snoc ⟨hname, hurl, hparsed⟩ hsame (Nat.not_le.mp hfull), .inl rfl⟩

theorem del_stored (h : Stored file sources) (args : List UInt8) :
    Stored (kpmCmdSourceDel args file)
      (sources.filter fun s => s.name != (kpmNextToken args 32).1) := by
  have hkeep : (sources.any fun s => s.name == (kpmNextToken args 32).1) = false →
      sources.filter (fun s => s.name != (kpmNextToken args 32).1) = sources := by
    intro hnone
    apply List.filter_eq_self.mpr
    intro t ht
    have := List.any_eq_false.mp hnone t ht
    rwa [bne, Bool.not_eq_true', ← Bool.not_eq_true]
  unfold kpmCmdSourceDel
  dsimp only
  rw [h.load, shiftDown_any]
  split
  next hnil =>
    rw [hkeep]
    · exact h
    · rw [hnil, List.any_eq_false]
      exact fun t ht hbeq => (h.1.valid t ht).name.nonempty (eq_of_beq hbeq)
  next =>
    split
    next hnone =>
      rw [hkeep (by simpa using hnone)]
      exact h
    next hany =>
      rw [shiftDown_filter _ _ h.1.names (by simpa using hany)]
      exact ⟨h.1.sublist List.filter_sublist, .inl rfl⟩

theorem afterCommands_stored (commands : List Command) :
    ∃ sources, Stored (afterCommands commands) sources := by
  induction commands using List.reverseRecOn with
  | nil => exact ⟨[], ⟨by simp, Nat.zero_le _, List.nodup_nil, List.nodup_nil⟩, .inr ⟨rfl, rfl⟩⟩
  | append_singleton commands c ih =>
    obtain ⟨sources, h⟩ := ih
    rw [afterCommands, List.foldl_append]
    cases c with
    | add args => exact add_stored h args
    | del args => exact ⟨_, del_stored h args⟩

/-- The list survives saving, has no more entries than there is room for, no name and no URL twice,
and `source del` deletes exactly the entry that it names. -/
structure ListKept (file : SourcesFile) (args : List UInt8) : Prop where
  saved : kpmLoadSources (kpmSaveSources (kpmLoadSources file)) = kpmLoadSources file
  bounded : (kpmLoadSources file).length ≤ kpmMaxSources
  names : ((kpmLoadSources file).map KpmSource.name).Nodup
  urls : ((kpmLoadSources file).map KpmSource.baseUrl).Nodup
  deleted : kpmLoadSources (kpmCmdSourceDel args file) =
    (kpmLoadSources file).filter fun s => s.name != firstWord args

/-- After any commands the list is kept, but a name that is too long for a token deletes the entry
that its first 31 bytes name. -/
theorem list_kept_iff (commands : List Command) (args : List UInt8) :
    ListKept (afterCommands commands) args ↔ (firstWord args).length ≤ 31 ∨
      ∀ s ∈ kpmLoadSources (afterCommands commands), s.name ≠ (firstWord args).take 31 := by
  obtain ⟨sources, h⟩ := afterCommands_stored commands
  have hdel := (del_stored h args).load
  have htoken : (kpmNextToken args 32).1 = (firstWord args).take 31 := rfl
  rw [htoken] at hdel
  have hlong : 31 < (firstWord args).length → sources.filter (fun s => s.name != firstWord args) =
      sources := by
    intro hlen
    apply List.filter_eq_self.mpr
    intro s hs
    rw [bne_iff_ne]
    intro heq
    have := (h.1.valid s hs).name.short
    rw [heq] at this
    omega
  constructor
  · intro hkept
    by_contra hno
    rw [not_or] at hno
    apply hno.2
    intro s hs heq
    have hdeleted := hkept.deleted
    rw [hdel, h.load, hlong (by omega)] at hdeleted
    rw [h.load] at hs
    have := List.filter_eq_self.mp hdeleted s hs
    rw [heq, bne_self_eq_false] at this
    cases this
  · intro hword
    refine ⟨by rw [h.load, h.1.load], by rw [h.load]; exact h.1.bounded,
      by rw [h.load]; exact h.1.names, by rw [h.load]; exact h.1.urls, ?_⟩
    rw [hdel, h.load]
    rcases Nat.lt_or_ge 31 (firstWord args).length with hlen | hlen
    · rw [hlong hlen]
      apply List.filter_eq_self.mpr
      intro s hs
      rw [bne_iff_ne]
      rw [h.load] at hword
      exact hword.resolve_left (by omega) s hs
    · rw [List.take_of_length_le hlen]

/-- The entry with a name of 31 letters is deleted under a name of 32. -/
theorem longer_name_deletes : ¬ListKept
    (afterCommands [.add (List.replicate 31 97 ++ ascii " http://h")]) (List.replicate 32 97) := by
  intro hkept
  have hdeleted := hkept.deleted
  revert hdeleted
  decide

end KpmSources
