import K64.NetDownload
import K64.Scanning
import Mathlib.Data.List.Induction
import Mathlib.Data.Nat.Find

/-! # The size that a response announces

A header is a sequence of lines that end with CR LF, and a `Content-Length` among them announces the
size of the body. `http_find_body` goes by line feeds and fixed offsets instead. -/
namespace NetContentLength

open NetHttp NetDownload Scanning

abbrev Text := List UInt8

def crlf : Text := [13, 10]

def colon : UInt8 := 58

/-- "content-length". -/
def lengthName : Text := [99, 111, 110, 116, 101, 110, 116, 45, 108, 101, 110, 103, 116, 104]

def lowerCase (ch : UInt8) : UInt8 := if 65 ≤ ch ∧ ch ≤ 90 then ch + 32 else ch

def decimal (digits : Text) : ℕ := digits.foldl (fun n d => n * 10 + (d.toNat - 48)) 0

/-- The first blank line is at `i`. -/
structure HeaderEnds (r : Text) (i : ℕ) : Prop where
  blank : crlf ++ crlf <+: r.drop i
  first : ∀ j < i, ¬crlf ++ crlf <+: r.drop j

/-- A line behind the status line. -/
structure HeaderLine (header before line after : Text) : Prop where
  text : header = before ++ crlf ++ line ++ after
  ended : after = [] ∨ crlf <+: after
  one : ¬crlf <:+: line

structure LengthField (line : Text) (v : ℕ) : Prop where
  shape : ∃ name blanks digits, line = name ++ colon :: (blanks ++ digits) ∧
    name.map lowerCase = lengthName ∧ (∀ b ∈ blanks, isBlank b = true) ∧
    digits ≠ [] ∧ (∀ d ∈ digits, isDigit d = true) ∧ v = decimal digits
  fits : v < 2 ^ 64

def Announces (header : Text) (v : ℕ) : Prop :=
  ∃ before line after, HeaderLine header before line after ∧ LengthField line v

structure LengthExact (r : Text) (i : ℕ) (body : Body) : Prop where
  headerSize : body.headerSize = i + 4
  length : ∀ v, body.contentLength.map UInt64.toNat = some v ↔ Announces (r.take i) v

def Recognised (r : Text) : Prop :=
  ∃ i body, HeaderEnds r i ∧ httpFindBody r = some body ∧ LengthExact r i body

/-- The header that ends at `i` from a position on. -/
def rest (r : Text) (i pos : ℕ) : Text := (r.take i).drop pos

/-- A line, the first one included, that begins as `Content-Length` does, more than 16 bytes before
the end, and has a colon somewhere behind. -/
structure Candidate (r : Text) (i pos : ℕ) : Prop where
  starts : atContentL r pos = true
  early : pos + 16 < i
  named : colon ∈ rest r i pos

/-- The first colon has blanks and digits behind it, which are a number in 64 bits. No digits are 0. -/
structure Reads (text : Text) (v : ℕ) : Prop where
  shape : ∃ name blanks digits behind, text = name ++ colon :: (blanks ++ (digits ++ behind)) ∧
    colon ∉ name ∧ (∀ b ∈ blanks, isBlank b = true) ∧
    (∀ x ∈ (digits ++ behind).head?, isBlank x = false) ∧ (∀ d ∈ digits, isDigit d = true) ∧
    (∀ x ∈ behind.head?, isDigit x = false) ∧ v = decimal digits % 2 ^ 64

structure LastCandidate (r : Text) (i pos : ℕ) : Prop extends Candidate r i pos where
  last : ∀ q, Candidate r i q → q ≤ pos

/-- The last candidate reads what all `Content-Length` lines announce, or there is none of both. -/
def LastAgrees (r : Text) (i : ℕ) : Prop :=
  ((∀ q, ¬Candidate r i q) ∧ ∀ v, ¬Announces (r.take i) v) ∨
  ∃ q v, LastCandidate r i q ∧ Reads (rest r i q) v ∧ Announces (r.take i) v ∧
    ∀ w, Announces (r.take i) w → w = v

def digitStep (value : UInt64) (d : UInt8) : UInt64 := value * 10 + (d - 48).toUInt64

def numberBehind (text : Text) : UInt64 :=
  ((((text.dropWhile (· != colon)).drop 1).dropWhile isBlank).takeWhile isDigit).foldl digitStep 0

variable {r : Text} {i pos : ℕ}

theorem rest_cons (hi : i ≤ r.length) (h : pos < i) :
    rest r i pos = byteAt r pos :: rest r i (pos + 1) := by
  have hlt : pos < (r.take i).length := by rw [List.length_take]; omega
  have hbyte : (r.take i)[pos] = byteAt r pos := by
    rw [List.getElem_take, byteAt, List.getD_eq_getElem?_getD, List.getElem?_eq_getElem (by omega)]
    rfl
  rw [rest, List.drop_eq_getElem_cons hlt, hbyte, rest]

theorem rest_end : rest r i i = [] :=
  List.drop_eq_nil_of_le (List.length_take_le ..)

theorem advance_rest (hi : i ≤ r.length) (p : UInt8 → Bool) : ∀ n pos, pos + n = i →
    rest r i (advance r p pos n) = (rest r i pos).dropWhile p := by
  intro n
  induction n with
  | zero =>
    intro pos hpos
    obtain rfl : pos = i := hpos
    rw [advance, rest_end]
    rfl
  | succ n ih =>
    intro pos hpos
    have hcons := rest_cons hi (show pos < i by omega)
    rw [advance, hcons, List.dropWhile_cons]
    split
    · exact ih (pos + 1) (by omega)
    · exact hcons

theorem readNumber_rest (hi : i ≤ r.length) : ∀ n value pos, pos + n = i →
    (readNumber r value pos n).1 = ((rest r i pos).takeWhile isDigit).foldl digitStep value := by
  intro n
  induction n with
  | zero =>
    intro value pos hpos
    obtain rfl : pos = i := hpos
    rw [readNumber, rest_end]
    rfl
  | succ n ih =>
    intro value pos hpos
    rw [readNumber, rest_cons hi (by omega), List.takeWhile_cons]
    split
    · exact ih _ (pos + 1) (by omega)
    · rfl

theorem advance_skipped (p : UInt8 → Bool) : ∀ n pos j, pos ≤ j → j < advance r p pos n →
    p (byteAt r j) = true := by
  intro n
  induction n with
  | zero => exact fun pos j hle hlt => absurd hlt (Nat.not_lt_of_le hle)
  | succ n ih =>
    intro pos j hle hlt
    rw [advance] at hlt
    split at hlt
    next hp =>
      rcases Nat.eq_or_lt_of_le hle with rfl | hle
      · exact hp
      · exact ih (pos + 1) j hle hlt
    · exact absurd hlt (Nat.not_lt_of_le hle)

theorem advance_stopped (p : UInt8 → Bool) : ∀ n pos, advance r p pos n < pos + n →
    p (byteAt r (advance r p pos n)) = false := by
  intro n
  induction n with
  | zero => exact fun pos hlt => absurd hlt (Nat.lt_irrefl _)
  | succ n ih =>
    intro pos hlt
    rw [advance] at hlt ⊢
    split at hlt
    next hp =>
      rw [if_pos hp]
      exact ih (pos + 1) (by omega)
    next hp =>
      rw [if_neg hp]
      simpa using hp

theorem readNumber_skipped : ∀ n value pos j, pos ≤ j → j < (readNumber r value pos n).2 →
    isDigit (byteAt r j) = true := by
  intro n
  induction n with
  | zero => exact fun value pos j hle hlt => absurd hlt (Nat.not_lt_of_le hle)
  | succ n ih =>
    intro value pos j hle hlt
    rw [readNumber] at hlt
    split at hlt
    next hp =>
      rcases Nat.eq_or_lt_of_le hle with rfl | hle
      · exact hp
      · exact ih _ (pos + 1) j hle hlt
    · exact absurd hlt (Nat.not_lt_of_le hle)

theorem readNumber_ge (r : Text) : ∀ n value pos, pos ≤ (readNumber r value pos n).2 := by
  intro n
  induction n with
  | zero => exact fun _ pos => Nat.le_refl pos
  | succ n ih =>
    intro value pos
    rw [readNumber]
    split
    · exact (Nat.le_succ pos).trans (ih _ (pos + 1))
    · exact Nat.le_refl pos

theorem advance_lt_iff (hi : i ≤ r.length) (hpos : pos ≤ i) (p : UInt8 → Bool) :
    advance r p pos (i - pos) < i ↔ ∃ x ∈ rest r i pos, p x = false := by
  have hrest := advance_rest hi p (i - pos) pos (by omega)
  have hle := (advance_le r p (i - pos) pos).2
  have hend : (rest r i pos).dropWhile p = [] ↔ ¬advance r p pos (i - pos) < i := by
    rw [← hrest]
    constructor
    · intro hnil hlt
      rw [rest_cons hi hlt] at hnil
      cases hnil
    · intro hge
      rw [show advance r p pos (i - pos) = i by omega, rest_end]
  rw [← not_iff_not, ← hend, List.dropWhile_eq_nil_iff]
  simp

theorem colon_lt_iff (hi : i ≤ r.length) (hpos : pos ≤ i) :
    advance r (fun ch => ch != 58) pos (i - pos) < i ↔ colon ∈ rest r i pos := by
  rw [advance_lt_iff hi hpos]
  simp [colon]

theorem starts_behind {q : ℕ} (h : atContentL r q = true) (hq : 0 < q) : byteAt r (q - 1) = 10 := by
  unfold atContentL at h
  simp only [Bool.and_eq_true, Bool.or_eq_true, beq_iff_eq] at h
  obtain ⟨⟨⟨⟨⟨⟨⟨⟨⟨h, -⟩, -⟩, -⟩, -⟩, -⟩, -⟩, -⟩, -⟩, -⟩ := h
  exact h.resolve_left (Nat.pos_iff_ne_zero.mp hq)

structure LineRead (r : Text) (i pos : ℕ) (found : Option UInt64) (e : ℕ)
    (found' : Option UInt64) : Prop where
  forward : pos ≤ e
  inside : e ≤ i
  found : Candidate r i pos ∧ found' = some (numberBehind (rest r i pos)) ∨
    ¬Candidate r i pos ∧ found' = found
  others : ∀ q, pos < q → q ≤ e → Candidate r i q →
    Candidate r i pos ∧ numberBehind (rest r i q) = numberBehind (rest r i pos)

theorem dropWhile_drop {α : Type} (p : α → Bool) (l : List α) : ∀ k, k ≤ (l.takeWhile p).length →
    (l.drop k).dropWhile p = l.dropWhile p := by
  induction l with
  | nil => simp
  | cons x l ih =>
    intro k hk
    cases k with
    | zero => rfl
    | succ k =>
      rw [List.takeWhile_cons] at hk
      split at hk
      next hx =>
        rw [List.drop_succ_cons, List.dropWhile_cons, if_pos hx]
        exact ih k (Nat.le_of_succ_le_succ hk)
      · exact absurd hk (by simp)

theorem rest_drop (r : Text) (i : ℕ) {pos q : ℕ} (h : pos ≤ q) :
    rest r i q = (rest r i pos).drop (q - pos) := by
  rw [rest, rest, List.drop_drop, Nat.add_sub_cancel' h]

theorem length_rest (hi : i ≤ r.length) : (rest r i pos).length = i - pos := by
  rw [rest, List.length_drop, List.length_take, Nat.min_eq_left hi]

theorem numberBehind_same (hi : i ≤ r.length) (hpos : pos ≤ i) {q : ℕ} (hle : pos ≤ q)
    (hq : q ≤ advance r (fun ch => ch != 58) pos (i - pos)) :
    numberBehind (rest r i q) = numberBehind (rest r i pos) := by
  have hafter := advance_rest hi (fun ch => ch != 58) (i - pos) pos (by omega)
  have hend := (advance_le r (fun ch => ch != 58) (i - pos) pos).2
  have hlength : (rest r i pos).length = ((rest r i pos).takeWhile (· != 58)).length +
      ((rest r i pos).dropWhile (· != 58)).length := by
    rw [← List.length_append, List.takeWhile_append_dropWhile]
  rw [← hafter, length_rest hi, length_rest hi] at hlength
  have hdrop : (rest r i q).dropWhile (· != colon) = (rest r i pos).dropWhile (· != colon) := by
    rw [rest_drop r i hle]
    exact dropWhile_drop (· != 58) _ _ (by omega)
  rw [numberBehind, numberBehind, hdrop]

theorem headerLine_read (hi : i ≤ r.length) (hpos : pos + 16 < i) (found : Option UInt64) :
    LineRead r i pos found (headerLine r i pos found).1 (headerLine r i pos found).2 := by
  have hcolon := colon_lt_iff hi (show pos ≤ i by omega)
  have hforward := advance_le r (fun ch => ch != 58) (i - pos) pos
  have hstopped := advance_stopped (r := r) (fun ch => ch != 58) (i - pos) pos
  have hsame := fun q => @numberBehind_same r i pos hi (by omega) q
  have hafter := advance_rest hi (fun ch => ch != 58) (i - pos) pos (by omega)
  unfold headerLine
  split
  next hstarts =>
    dsimp only
    generalize advance r (fun ch => ch != 58) pos (i - pos) = c at *
    split
    next hc =>
      have hcand : Candidate r i pos := ⟨hstarts, hpos, hcolon.mp hc⟩
      have hblankle := advance_le r isBlank (i - (c + 1)) (c + 1)
      have hblank := advance_skipped (r := r) isBlank (i - (c + 1)) (c + 1)
      have hblankrest := advance_rest hi isBlank (i - (c + 1)) (c + 1) (by omega)
      generalize advance r isBlank (c + 1) (i - (c + 1)) = digits at *
      have hdigit := readNumber_skipped (r := r) (i - digits) 0 digits
      have hnumber := readNumber_rest hi (i - digits) 0 digits (by omega)
      have hinside := readNumber_le r (i - digits) 0 digits
      have hover := readNumber_ge r (i - digits) 0 digits
      refine ⟨by omega, by omega, .inl ⟨hcand, ?_⟩, fun q hlt hle hq => ⟨hcand, ?_⟩⟩
      · have hbehind : rest r i (c + 1) = (rest r i c).drop 1 := by
          rw [rest_drop r i (Nat.le_succ c), Nat.succ_sub (Nat.le_refl c), Nat.sub_self]
        rw [hnumber, hblankrest, hbehind, hafter]
        rfl
      · refine hsame q (by omega) ?_
        by_contra hgt
        have hfeed := starts_behind hq.starts (by omega)
        -- no line starts behind the colon, a blank or a digit
        rcases Nat.lt_trichotomy (q - 1) c with hltc | heq | hgtc
        · omega
        · have := hstopped (by omega)
          rw [← heq, hfeed] at this
          cases this
        · by_cases hd : q - 1 < digits
          · have := hblank (q - 1) (by omega) hd
            rw [hfeed] at this
            cases this
          · have := hdigit (q - 1) (by omega) (by omega)
            rw [hfeed] at this
            cases this
    next hc =>
      have hnone : ∀ q, pos ≤ q → ¬Candidate r i q := by
        intro q hle hq
        refine hc (hcolon.mpr ?_)
        have hmem := hq.named
        rw [rest_drop r i hle] at hmem
        exact List.mem_of_mem_drop hmem
      refine ⟨hforward.1, by omega, .inr ⟨hnone pos (Nat.le_refl _), rfl⟩, ?_⟩
      exact fun q hlt _ hq => absurd hq (hnone q (Nat.le_of_lt hlt))
  next hstarts =>
    refine ⟨Nat.le_refl _, by omega, .inr ⟨fun h => hstarts h.starts, rfl⟩, ?_⟩
    exact fun q hlt hle => absurd hlt (Nat.not_lt_of_le hle)

def Scanned (r : Text) (i pos : ℕ) (found found' : Option UInt64) : Prop :=
  (∀ q, pos ≤ q → ¬Candidate r i q) ∧ found' = found ∨
  ∃ q, pos ≤ q ∧ Candidate r i q ∧ found' = some (numberBehind (rest r i q)) ∧
    ∀ q', q ≤ q' → Candidate r i q' → numberBehind (rest r i q') = numberBehind (rest r i q)

theorem scanLines_scanned (hi : i ≤ r.length) : ∀ n pos found, pos ≤ i → i - pos < n →
    Scanned r i pos found (scanLines r i n pos found) := by
  intro n
  induction n with
  | zero => exact fun _ _ _ h => absurd h (Nat.not_lt_zero _)
  | succ n ih =>
    intro pos found hpos hfuel
    rw [scanLines]
    split
    next hearly =>
      have hline := headerLine_read hi hearly found
      dsimp only
      generalize headerLine r i pos found = line at hline ⊢
      have hforward := hline.forward
      have hinside := hline.inside
      have heol := advance_le r (fun ch => ch != 10) (i - line.1) line.1
      have hskip := advance_skipped (r := r) (fun ch => ch != 10) (i - line.1) line.1
      generalize advance r (fun ch => ch != 10) line.1 (i - line.1) = eol at *
      have hnext : pos < (if eol < i then eol + 1 else eol) ∧
          (if eol < i then eol + 1 else eol) ≤ i ∧
          (if eol < i then eol + 1 else eol) ≤ eol + 1 := by
        split
        · omega
        · omega
      generalize (if eol < i then eol + 1 else eol) = pos' at hnext ⊢
      -- between the two positions there is no other line
      have hbetween : ∀ q, pos < q → q < pos' → Candidate r i q →
          Candidate r i pos ∧ numberBehind (rest r i q) = numberBehind (rest r i pos) := by
        intro q hlt hlt' hq
        refine hline.others q hlt ?_ hq
        by_contra hgt
        have hfeed := starts_behind hq.starts (by omega)
        have := hskip (q - 1) (by omega) (by omega)
        rw [hfeed] at this
        cases this
      rcases ih pos' line.2 hnext.2.1 (by omega) with ⟨hnone, hsame⟩ | ⟨q, hle, hq⟩
      · rw [hsame]
        rcases hline.found with ⟨hcand, hfound⟩ | ⟨hcand, hfound⟩
        · refine .inr ⟨pos, Nat.le_refl _, hcand, hfound, fun q hle hq => ?_⟩
          rcases Nat.eq_or_lt_of_le hle with rfl | hlt
          · rfl
          · exact (hbetween q hlt (Nat.lt_of_not_le fun h => hnone q h hq) hq).2
        · refine .inl ⟨fun q hle hq => ?_, hfound⟩
          rcases Nat.eq_or_lt_of_le hle with rfl | hlt
          · exact hcand hq
          · exact hcand (hbetween q hlt (Nat.lt_of_not_le fun h => hnone q h hq) hq).1
      · exact .inr ⟨q, by omega, hq⟩
    next hlate =>
      refine .inl ⟨fun q hle hq => ?_, rfl⟩
      have := hq.early
      omega

theorem exists_last {P : ℕ → Prop} {n : ℕ} (hbound : ∀ q, P q → q ≤ n) {q : ℕ} (hq : P q) :
    ∃ m, q ≤ m ∧ P m ∧ ∀ q', P q' → q' ≤ m := by
  classical
  refine ⟨Nat.findGreatest P n, Nat.le_findGreatest (hbound q hq) hq,
    Nat.findGreatest_spec (hbound q hq) hq, fun q' hq' => Nat.le_findGreatest (hbound q' hq') hq'⟩

theorem contentLength_last (hi : i ≤ r.length) :
    (∀ q, ¬Candidate r i q) ∧ contentLength r i = none ∨
    ∃ q, LastCandidate r i q ∧ contentLength r i = some (numberBehind (rest r i q)) := by
  rcases scanLines_scanned hi (i + 1) 0 none (Nat.zero_le i) (Nat.lt_succ_self i) with
    ⟨hnone, hsame⟩ | ⟨q, -, hq, hfound, hlater⟩
  · exact .inl ⟨fun q => hnone q (Nat.zero_le q), hsame⟩
  · have hbound : ∀ q, Candidate r i q → q ≤ i := fun q hq => by have := hq.early; omega
    obtain ⟨m, hqm, hm, hlast⟩ := exists_last hbound hq
    exact .inr ⟨m, ⟨hm, hlast⟩, by rw [hlater m hqm hm]; exact hfound⟩

theorem digitStep_toNat {d : UInt8} (h : isDigit d = true) (value : UInt64) :
    (digitStep value d).toNat = (value.toNat * 10 + (d.toNat - 48)) % 2 ^ 64 := by
  have hle : (48 : UInt8) ≤ d := by
    unfold isDigit at h
    simp only [Bool.and_eq_true, decide_eq_true_eq] at h
    exact h.1
  have hsub : (d - 48).toNat = d.toNat - 48 := UInt8.toNat_sub_of_le d 48 hle
  unfold digitStep
  rw [UInt64.toNat_add, UInt64.toNat_mul, UInt8.toNat_toUInt64, hsub]
  simp

theorem digits_toNat (digits : Text) : (∀ d ∈ digits, isDigit d = true) →
    (digits.foldl digitStep 0).toNat = decimal digits % 2 ^ 64 := by
  induction digits using List.reverseRecOn with
  | nil => exact fun _ => rfl
  | append_singleton digits d ih =>
    intro h
    have hfront := ih fun d' hd' => h d' (List.mem_append_left _ hd')
    rw [List.foldl_append, List.foldl_cons, List.foldl_nil, digitStep_toNat (h d (by simp)), hfront,
      decimal, decimal,
      List.foldl_append, List.foldl_cons, List.foldl_nil]
    omega

theorem Reads.eq {text : Text} {v : ℕ} (h : Reads text v) : v = (numberBehind text).toNat := by
  obtain ⟨name, blanks, digits, behind, rfl, hname, hblanks, hdigits, hdigit, hbehind, hv⟩ := h.shape
  have hcolon : (name ++ colon :: (blanks ++ (digits ++ behind))).dropWhile (· != colon) =
      colon :: (blanks ++ (digits ++ behind)) := by
    apply dropWhile_front
    · exact fun x hx => bne_iff_ne.mpr fun heq => hname (heq ▸ hx)
    · rintro x ⟨⟩
      exact bne_self_eq_false colon
  rw [hv, numberBehind, hcolon, List.drop_succ_cons, List.drop_zero,
    dropWhile_front hblanks hdigits, takeWhile_front hdigit hbehind, digits_toNat digits hdigit]

theorem reads_numberBehind {text : Text} (h : colon ∈ text) :
    Reads text (numberBehind text).toNat := by
  obtain ⟨name, behind, rfl, hname⟩ := List.eq_append_cons_of_mem h
  have hcolon : (name ++ colon :: behind).dropWhile (· != colon) = colon :: behind := by
    apply dropWhile_front
    · exact fun x hx => bne_iff_ne.mpr fun heq => hname (heq ▸ hx)
    · rintro x ⟨⟩
      exact bne_self_eq_false colon
  have hdigit : ∀ d ∈ (behind.dropWhile isBlank).takeWhile isDigit, isDigit d = true :=
    fun d hd => List.mem_takeWhile_imp hd
  refine ⟨name, behind.takeWhile isBlank, (behind.dropWhile isBlank).takeWhile isDigit,
    (behind.dropWhile isBlank).dropWhile isDigit, ?_, hname, fun b hb => List.mem_takeWhile_imp hb,
    ?_, hdigit, head_dropWhile _ _, ?_⟩
  · rw [List.takeWhile_append_dropWhile, List.takeWhile_append_dropWhile]
  · rw [List.takeWhile_append_dropWhile]
    exact head_dropWhile _ _
  · rw [numberBehind, hcolon, List.drop_succ_cons, List.drop_zero, digits_toNat _ hdigit]

theorem drop_byteAt (h : pos < r.length) : r.drop pos = byteAt r pos :: r.drop (pos + 1) := by
  have := rest_cons (Nat.le_refl r.length) h
  rwa [rest, rest, List.take_length] at this

theorem blank_iff (r : Text) (j : ℕ) :
    crlf ++ crlf <+: r.drop j ↔ blankLine r j = true ∧ j + 3 < r.length := by
  by_cases hj : j + 3 < r.length
  · rw [drop_byteAt (show j < r.length by omega), drop_byteAt (show j + 1 < r.length by omega),
      drop_byteAt (show j + 1 + 1 < r.length by omega),
      drop_byteAt (show j + 1 + 1 + 1 < r.length by omega)]
    simp only [crlf, List.cons_append, List.nil_append, List.cons_prefix_cons, List.nil_prefix,
      and_true, blankLine, Bool.and_eq_true, beq_iff_eq, hj, and_assoc]
    constructor
    · rintro ⟨h0, h1, h2, h3⟩
      exact ⟨h0.symm, h1.symm, h2.symm, h3.symm⟩
    · rintro ⟨h0, h1, h2, h3⟩
      exact ⟨h0.symm, h1.symm, h2.symm, h3.symm⟩
  · refine iff_of_false (fun h => hj ?_) fun h => hj h.2
    have := h.length_le
    simp only [crlf, List.length_drop, List.length_append, List.length_cons, List.length_nil] at this
    omega

theorem HeaderEnds.find (h : HeaderEnds r i) : headerEnd r = some i := by
  obtain ⟨hblank, hlength⟩ := (blank_iff r i).mp h.blank
  refine headerEnd_some.mpr ⟨hblank, hlength, fun k hk => ?_⟩
  rw [← Bool.not_eq_true]
  exact fun hk' => h.first k hk ((blank_iff r k).mpr ⟨hk', by omega⟩)

theorem HeaderEnds.unique {j : ℕ} (h : HeaderEnds r i) (h' : HeaderEnds r j) : i = j :=
  Option.some.inj (h.find.symm.trans h'.find)

theorem exists_headerEnds (h : crlf ++ crlf <:+: r) : ∃ i, HeaderEnds r i := by
  classical
  obtain ⟨front, behind, rfl⟩ := h
  have hsome : ∃ i, crlf ++ crlf <+: (front ++ (crlf ++ crlf) ++ behind).drop i :=
    ⟨front.length, by rw [List.append_assoc, List.drop_left]; exact List.prefix_append _ _⟩
  exact ⟨Nat.find hsome, Nat.find_spec hsome, fun j hj => Nat.find_min hsome hj⟩

/-- The announced size of a response is recognised just when the last line that the scanner takes for
a `Content-Length` reads what all such lines hold, or it takes none and there is none. -/
theorem recognised_iff (h : crlf ++ crlf <:+: r) :
    Recognised r ↔ ∃ i, HeaderEnds r i ∧ LastAgrees r i := by
  obtain ⟨i, hends⟩ := exists_headerEnds h
  have hi : i ≤ r.length := by
    have := ((blank_iff r i).mp hends.blank).2
    omega
  have hbody : httpFindBody r = some ⟨i + 4, statusCode r i, contentLength r i⟩ := by
    rw [httpFindBody, hends.find]
    rfl
  have hexact : Recognised r ↔
      ∀ v, (contentLength r i).map UInt64.toNat = some v ↔ Announces (r.take i) v := by
    constructor
    · rintro ⟨j, body, hj, hfound, hlength⟩
      obtain rfl := hends.unique hj
      obtain rfl := Option.some.inj (hbody.symm.trans hfound)
      exact hlength.length
    · exact fun hlength => ⟨i, _, hends, hbody, rfl, hlength⟩
  have hagrees : (∃ j, HeaderEnds r j ∧ LastAgrees r j) ↔ LastAgrees r i := by
    refine ⟨?_, fun hlast => ⟨i, hends, hlast⟩⟩
    rintro ⟨j, hj, hlast⟩
    rwa [hends.unique hj]
  rw [hexact, hagrees]
  rcases contentLength_last hi with ⟨hnone, hfound⟩ | ⟨q, hq, hfound⟩
  · rw [hfound]
    constructor
    · exact fun hlength => .inl ⟨hnone, fun v hv => by cases (hlength v).mpr hv⟩
    · rintro (⟨-, hno⟩ | ⟨q, v, hq, -⟩)
      · exact fun v => iff_of_false (by simp) (hno v)
      · exact absurd hq.toCandidate (hnone q)
  · rw [hfound]
    constructor
    · intro hlength
      refine .inr ⟨q, _, hq, reads_numberBehind hq.named, (hlength _).mp rfl, fun w hw => ?_⟩
      exact (Option.some.inj ((hlength w).mpr hw)).symm
    · rintro (⟨hno, -⟩ | ⟨q', v, hq', hreads, hsome, hsame⟩)
      · exact absurd hq.toCandidate (hno q)
      · obtain rfl : q = q' := Nat.le_antisymm (hq'.last q hq.toCandidate) (hq.last q' hq'.toCandidate)
        have hv := hreads.eq
        intro w
        rw [Option.map_some, Option.some.injEq, ← hv]
        constructor
        · rintro rfl
          exact hsome
        · exact fun hw => (hsame w hw).symm

/-- "HTTP/1.1 200 OK", "Content-Length:5" and "hello". -/
def helloResponse : Text :=
  [72, 84, 84, 80, 47, 49, 46, 49, 32, 50, 48, 48, 32, 79, 75, 13, 10,
    67, 111, 110, 116, 101, 110, 116, 45, 76, 101, 110, 103, 116, 104, 58, 53, 13, 10, 13, 10,
    104, 101, 108, 108, 111]

theorem recognised_iff_hello :
    Recognised helloResponse ↔ ∃ i, HeaderEnds helloResponse i ∧ LastAgrees helloResponse i :=
  recognised_iff ⟨helloResponse.take 33, helloResponse.drop 37, rfl⟩

/-- The shortest last line is passed over. -/
theorem last_line_missed : ¬∀ r, crlf ++ crlf <:+: r → Recognised r := by
  intro h
  obtain ⟨i, body, hends, hbody, hexact⟩ :=
    h helloResponse ⟨helloResponse.take 33, helloResponse.drop 37, rfl⟩
  obtain rfl : i = 33 :=
    Option.some.inj (hends.find.symm.trans (by decide : headerEnd helloResponse = some 33))
  obtain rfl : (⟨37, statusCode helloResponse 33, contentLength helloResponse 33⟩ : Body) = body :=
    Option.some.inj ((by rw [httpFindBody, hends.find]; rfl :
      some _ = httpFindBody helloResponse).trans hbody)
  have hline : HeaderLine (helloResponse.take 33) (helloResponse.take 15)
      ((helloResponse.drop 17).take 16) [] := ⟨by decide, .inl rfl, by decide⟩
  have hfield : LengthField ((helloResponse.drop 17).take 16) 5 :=
    ⟨⟨(helloResponse.drop 17).take 14, [], [53], by decide, by decide, by simp, by simp,
      fun d hd => List.mem_singleton.mp hd ▸ rfl, by decide⟩, by decide⟩
  have hfive : Announces (helloResponse.take 33) 5 := ⟨_, _, _, hline, hfield⟩
  have hnone : contentLength helloResponse 33 = none := by decide
  have := (hexact.length 5).mpr hfive
  rw [hnone] at this
  cases this

end NetContentLength
