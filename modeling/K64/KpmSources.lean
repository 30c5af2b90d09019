import K64.KpmAtomicity
import K64.Scanning

/-! # Package sources

A source is a name and a URL. Strings are the bytes before their terminator. -/
namespace KpmSources

open NetState KpmPackage Scanning

structure KpmUrl where
  scheme : List UInt8
  host : List UInt8
  port : UInt16
  basePath : List UInt8
  deriving DecidableEq

def colon : UInt8 := 58

def slash : UInt8 := 47

def isDigit (c : UInt8) : Bool := 48 ≤ c && c ≤ 57

def inHost (c : UInt8) : Bool := c != colon && c != slash

/-- The digits of the port, which is checked after each of them, and what follows them. -/
def readPort : ℕ → List UInt8 → Option (ℕ × List UInt8)
  | port, [] => some (port, [])
  | port, c :: rest =>
    if isDigit c then
      let port := port * 10 + (c.toNat - 48)
      if 65535 < port then none else readPort port rest
    else some (port, c :: rest)

def portPart (p : List UInt8) : Option (ℕ × List UInt8) :=
  if p.head? = some colon then
    if p.tail.head?.any isDigit then readPort 0 p.tail else none
  else some (80, p)

def k64KpmParseUrl (url : List UInt8) : Option KpmUrl :=
  if ascii "https://" <+: url then none
  else if ¬ ascii "http://" <+: url then none
  else
    let p := url.drop 7
    let host := (p.takeWhile inHost).take 63
    if host = [] then none
    else
      match portPart (p.drop host.length) with
      | none => none
      | some (port, p) =>
        if p ≠ [] ∧ p.head? ≠ some slash then none
        else some ⟨ascii "http", host, UInt16.ofNat port, p.take 127⟩

def portValue (digits : List UInt8) : ℕ := digits.foldl (fun n d => n * 10 + (d.toNat - 48)) 0

/-- A port as it is written: nothing stands for 80. -/
inductive PortText : List UInt8 → ℕ → Prop where
  | absent : PortText [] 80
  | digits {ds : List UInt8} : ds ≠ [] → (∀ d ∈ ds, isDigit d = true) → portValue ds ≤ 65535 →
    PortText (colon :: ds) (portValue ds)

/-- `http://host[:port][/path]`. -/
structure UrlForm (url host port path : List UInt8) (n : ℕ) : Prop where
  whole : url = ascii "http://" ++ (host ++ (port ++ path))
  hostNonempty : host ≠ []
  hostLength : host.length ≤ 63
  hostText : ∀ c ∈ host, inHost c = true
  portText : PortText port n
  pathStart : path = [] ∨ path.head? = some slash

def Accepted (url : List UInt8) : Prop :=
  ∃ host port path n, UrlForm url host port path n ∧ path.length ≤ 127

/-- The parts of the URL, written one after the other. -/
def Renders (u : KpmUrl) (url : List UInt8) : Prop :=
  ∃ port, PortText port u.port.toNat ∧
    url = u.scheme ++ ascii "://" ++ (u.host ++ (port ++ u.basePath))

def ParsedExactly (url : List UInt8) : Prop :=
  ((k64KpmParseUrl url).isSome ↔ Accepted url) ∧
    ∀ u, k64KpmParseUrl url = some u → Renders u url

def LongPath (url : List UInt8) : Prop :=
  ∃ host port path n, UrlForm url host port path n ∧ 128 ≤ path.length

variable {url host port path digits rest : List UInt8} {n m : ℕ}

theorem portFrom_ge (digits : List UInt8) : ∀ n : ℕ,
    n ≤ digits.foldl (fun n d => n * 10 + (d.toNat - 48)) n := by
  induction digits with
  | nil => exact fun n => Nat.le_refl n
  | cons d digits ih =>
    intro n
    have := ih (n * 10 + (d.toNat - 48))
    rw [List.foldl_cons]
    omega

theorem readPort_digits (hrest : ∀ x ∈ rest.head?, isDigit x = false) :
    ∀ (digits : List UInt8) (n : ℕ), (∀ d ∈ digits, isDigit d = true) → n ≤ 65535 →
    readPort n (digits ++ rest) =
      if digits.foldl (fun n d => n * 10 + (d.toNat - 48)) n ≤ 65535 then
        some (digits.foldl (fun n d => n * 10 + (d.toNat - 48)) n, rest)
      else none := by
  intro digits
  induction digits with
  | nil =>
    intro n _ hn
    rw [List.nil_append, List.foldl_nil, if_pos hn]
    cases rest with
    | nil => rfl
    | cons c rest =>
      rw [readPort, if_neg (by rw [hrest c rfl]; exact Bool.false_ne_true)]
  | cons d digits ih =>
    intro n hdigits hn
    have hd := hdigits d List.mem_cons_self
    rw [List.cons_append, readPort, if_pos hd, List.foldl_cons]
    dsimp only
    split
    next hlarge =>
      have := portFrom_ge digits (n * 10 + (d.toNat - 48))
      rw [if_neg (by omega)]
    next hsmall =>
      exact ih _ (fun x hx => hdigits x (List.mem_cons_of_mem _ hx)) (by omega)

theorem path_not_digit (h : path = [] ∨ path.head? = some slash) :
    ∀ x ∈ path.head?, isDigit x = false := by
  rintro x hx
  rcases h with rfl | h
  · cases hx
  · rw [h] at hx
    obtain rfl := Option.mem_some.mp hx
    rfl

theorem portPart_text (hport : PortText port n) (hpath : path = [] ∨ path.head? = some slash) :
    portPart (port ++ path) = some (n, path) := by
  cases hport with
  | absent =>
    rw [List.nil_append, portPart, if_neg]
    rcases hpath with rfl | h
    · simp
    · rw [h]
      decide
  | @digits ds hne hdigits hle =>
    have hhead : (ds ++ path).head?.any isDigit = true := by
      cases ds with
      | nil => exact absurd rfl hne
      | cons d ds => exact hdigits d List.mem_cons_self
    rw [portPart, List.cons_append, List.head?_cons, if_pos rfl, List.tail_cons, if_pos hhead,
      readPort_digits (path_not_digit hpath) ds 0 hdigits (Nat.zero_le _)]
    exact if_pos hle

theorem portPart_some {p : List UInt8} (h : portPart p = some (n, path)) :
    ∃ port, p = port ++ path ∧ PortText port n := by
  unfold portPart at h
  split at h
  next hcolon =>
    obtain ⟨tail, rfl⟩ : ∃ tail, p = colon :: tail := by
      cases p with
      | nil => cases hcolon
      | cons c tail => exact ⟨tail, by rw [Option.some.inj hcolon]⟩
    rw [List.tail_cons] at h
    split at h
    next hdigit =>
      have hread := readPort_digits (head_dropWhile isDigit tail) (tail.takeWhile isDigit) 0
        (fun d hd => mem_takeWhile hd) (Nat.zero_le _)
      rw [List.takeWhile_append_dropWhile, h] at hread
      split at hread
      next hle =>
        obtain ⟨rfl, rfl⟩ := Prod.mk.inj (Option.some.inj hread)
        refine ⟨colon :: tail.takeWhile isDigit, ?_, .digits ?_ (fun d hd => mem_takeWhile hd) hle⟩
        · rw [List.cons_append, List.takeWhile_append_dropWhile]
        · cases tail with
          | nil => cases hdigit
          | cons c tail =>
            rw [List.takeWhile_cons, if_pos (by simpa using hdigit)]
            exact List.cons_ne_nil _ _
      next => cases hread
    next => cases h
  next =>
    obtain ⟨rfl, rfl⟩ := Prod.mk.inj (Option.some.inj h)
    exact ⟨[], rfl, .absent⟩

theorem PortText.small (h : PortText port n) : n ≤ 65535 := by
  cases h with
  | absent => decide
  | digits _ _ hle => exact hle

theorem PortText.behind_host (h : PortText port n) (hpath : path = [] ∨ path.head? = some slash) :
    ∀ x ∈ (port ++ path).head?, inHost x = false := by
  intro x hx
  cases h with
  | absent =>
    rcases hpath with rfl | hpath
    · cases hx
    · rw [List.nil_append, hpath] at hx
      obtain rfl := Option.mem_some.mp hx
      rfl
  | digits =>
    obtain rfl := Option.mem_some.mp hx
    rfl

theorem parse_iff {u : KpmUrl} : k64KpmParseUrl url = some u ↔ ∃ host port path n,
    UrlForm url host port path n ∧
      u = ⟨ascii "http", host, UInt16.ofNat n, path.take 127⟩ := by
  constructor
  · intro h
    unfold k64KpmParseUrl at h
    dsimp only at h
    split_ifs at h with hs hp hhost
    obtain ⟨p, rfl⟩ := hp
    rw [List.drop_left' (by rfl : (ascii "http://").length = 7)] at h hhost
    split at h
    · cases h
    next n path hport =>
      split_ifs at h with hslash
      have hpath : path = [] ∨ path.head? = some slash := by
        by_contra hno
        rw [not_or] at hno
        exact hslash hno
      obtain ⟨port, hsplit, htext⟩ := portPart_some hport
      have hhostAll : (p.takeWhile inHost).take 63 = p.takeWhile inHost := by
        apply take_scan
        rw [hsplit]
        exact htext.behind_host hpath
      refine ⟨_, port, path, n, ⟨?_, hhost, List.length_take_le _ _, ?_, htext, hpath⟩,
        (Option.some.inj h).symm⟩
      · rw [← hsplit, List.append_cancel_left_eq]
        exact (List.prefix_iff_eq_append.mp
          ((List.take_prefix _ _).trans (List.takeWhile_prefix _))).symm
      · exact fun c hc => mem_takeWhile (List.mem_of_mem_take hc)
  · rintro ⟨host, port, path, n, ⟨rfl, hne, hlen, htext, hport, hpath⟩, rfl⟩
    have hs : ¬ ascii "https://" <+: ascii "http://" ++ (host ++ (port ++ path)) := by
      rintro ⟨t, ht⟩
      have := congrArg (fun l : List UInt8 => l[4]?) ht
      revert this
      simp [ascii]
    have hhost : ((host ++ (port ++ path)).takeWhile inHost).take 63 = host := by
      rw [takeWhile_front htext (hport.behind_host hpath), List.take_of_length_le hlen]
    unfold k64KpmParseUrl
    dsimp only
    rw [if_neg hs, if_neg (not_not.mpr (List.prefix_append _ _)),
      List.drop_left' (by rfl : (ascii "http://").length = 7), hhost, if_neg hne,
      List.drop_left, portPart_text hport hpath]
    dsimp only
    rw [if_neg]
    rintro ⟨hne, hslash⟩
    rcases hpath with rfl | hpath
    · exact hne rfl
    · exact hslash hpath

theorem ofNat_port (h : PortText port n) : (UInt16.ofNat n).toNat = n := by
  have hsmall := h.small
  exact UInt16.toNat_ofNat_of_lt' (show n < 65536 by omega)

theorem PortText.no_slash (h : PortText port n) : ∀ c ∈ port, (c != slash) = true := by
  intro c hc
  cases h with
  | absent => cases hc
  | @digits ds _ hdigits _ =>
    rcases List.mem_cons.mp hc with rfl | hc
    · rfl
    · have hd := hdigits c hc
      rw [bne_iff_ne]
      rintro rfl
      cases hd

theorem UrlForm.not_rendered (h : UrlForm url host port path n) (hlong : 128 ≤ path.length) :
    ¬Renders ⟨ascii "http", host, UInt16.ofNat n, path.take 127⟩ url := by
  rintro ⟨port', hport', hurl⟩
  have hpre : ascii "http" ++ ascii "://" = ascii "http://" := by decide
  rw [h.whole, hpre, List.append_cancel_left_eq, List.append_cancel_left_eq] at hurl
  have hslash : ∀ {l : List UInt8}, l = [] ∨ l.head? = some slash →
      ∀ x ∈ l.head?, (x != slash) = false := by
    rintro l (rfl | hl) x hx
    · cases hx
    · rw [hl] at hx
      obtain rfl := Option.mem_some.mp hx
      rfl
  have hcut : path.take 127 = [] ∨ (path.take 127).head? = some slash := by
    rcases h.pathStart with rfl | hp
    · exact .inl List.take_nil
    · exact .inr (by rw [List.head?_take, if_neg (by decide), hp])
  have hpath := (front_unique hurl h.portText.no_slash (hslash h.pathStart) hport'.no_slash
    (hslash hcut)).2
  have hlen := congrArg List.length hpath
  rw [List.length_take] at hlen
  omega

/-- Up to the size of `base_path` a URL is parsed exactly; a longer path is cut off. -/
theorem parsed_exactly_iff (url : List UInt8) : ParsedExactly url ↔ ¬LongPath url := by
  constructor
  · rintro ⟨-, hrender⟩ ⟨host, port, path, n, hform, hlong⟩
    exact hform.not_rendered hlong
      (hrender _ (parse_iff.mpr ⟨host, port, path, n, hform, rfl⟩))
  · intro hshort
    have hfits : ∀ {host port path n}, UrlForm url host port path n → path.length ≤ 127 := by
      intro host port path n hform
      by_contra hlong
      exact hshort ⟨host, port, path, n, hform, by omega⟩
    refine ⟨⟨fun hsome => ?_, ?_⟩, fun u hu => ?_⟩
    · obtain ⟨u, hu⟩ := Option.isSome_iff_exists.mp hsome
      obtain ⟨host, port, path, n, hform, -⟩ := parse_iff.mp hu
      exact ⟨host, port, path, n, hform, hfits hform⟩
    · rintro ⟨host, port, path, n, hform, -⟩
      exact Option.isSome_iff_exists.mpr ⟨_, parse_iff.mpr ⟨host, port, path, n, hform, rfl⟩⟩
    · obtain ⟨host, port, path, n, hform, rfl⟩ := parse_iff.mp hu
      refine ⟨port, ?_, ?_⟩
      · rw [ofNat_port hform.portText]
        exact hform.portText
      · rw [List.take_of_length_le (hfits hform)]
        exact hform.whole

def longUrl : List UInt8 := ascii "http://h" ++ slash :: List.replicate 127 97

theorem longUrl_form : UrlForm longUrl [104] [] (slash :: List.replicate 127 97) 80 where
  whole := by simp [longUrl, ascii]
  hostNonempty := List.cons_ne_nil _ _
  hostLength := by decide
  hostText := by decide +kernel
  portText := .absent
  pathStart := .inr rfl

/-- It is accepted, with a path of 127 bytes. -/
theorem long_path_cut : ¬ParsedExactly longUrl := by
  rintro ⟨-, hrender⟩
  exact longUrl_form.not_rendered (by simp)
    (hrender _ (parse_iff.mpr ⟨_, _, _, _, longUrl_form, rfl⟩))

end KpmSources
