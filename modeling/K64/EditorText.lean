import K64.EditorFiles

/-! # The text in the editor

The rows read as lines joined by newlines, split at the cursor. Every operation is followed on that pair. -/
namespace TextEditor

open ZeroText

def rowText (r : Cells) : List UInt8 := (List.range (strlen r)).map r

def text (e : Editor) : List UInt8 :=
  List.intercalate [10] ((List.range e.lineCount).map fun y => rowText (e.lines y))

def before (e : Editor) : List UInt8 :=
  ((List.range e.cy).flatMap fun y => rowText (e.lines y) ++ [10]) ++ (rowText (e.lines e.cy)).take e.cx

def after (e : Editor) : List UInt8 :=
  (rowText (e.lines e.cy)).drop e.cx ++
    (List.range (e.lineCount - (e.cy + 1))).flatMap fun k => 10 :: rowText (e.lines (e.cy + 1 + k))

structure Wf (e : Editor) : Prop where
  one_le : 1 ≤ e.lineCount
  le_max : e.lineCount ≤ 256
  ended : ∀ y < e.lineCount, ∃ n ≤ 191, e.lines y n = 0
  row : e.cy < e.lineCount
  col : e.cx ≤ strlen (e.lines e.cy)

/-- The rows hold the lines above the cursor, the two parts of its own line, and the lines below. -/
structure Shows (e : Editor) (above : List (List UInt8)) (left right : List UInt8)
    (below : List (List UInt8)) :
    Prop where
  rows : Rows e.lines 0 (above ++ (left ++ right) :: below)
  short : ∀ l ∈ above ++ (left ++ right) :: below, l.length < editMaxCols
  count : e.lineCount = above.length + (1 + below.length)
  le_max : e.lineCount ≤ editMaxLines
  row : e.cy = above.length
  col : e.cx = left.length

variable {e : Editor} {above below : List (List UInt8)} {left right l : List UInt8} {lines : ℕ → Cells}
    {r : Cells}
  {ls : List (List UInt8)} {y n : ℕ} {c : UInt8}

theorem rows_iff : Rows lines y ls ↔ ∀ i (h : i < ls.length), Holds (lines (y + i)) ls[i] := by
  induction ls generalizing y with
  | nil => simp [Rows]
  | cons l ls ih =>
    rw [Rows, ih]
    constructor
    · rintro ⟨hl, hls⟩ i hi
      cases i with
      | zero => exact hl
      | succ i =>
        have hy : y + (i + 1) = y + 1 + i := by omega
        rw [hy]
        exact hls i (Nat.lt_of_succ_lt_succ hi)
    · intro h
      refine ⟨h 0 (Nat.succ_pos _), fun i hi => ?_⟩
      have hy : y + 1 + i = y + (i + 1) := by omega
      rw [hy]
      exact h (i + 1) (Nat.succ_lt_succ hi)

theorem strlen_of_holds (h : Holds r l) (hl : l.length < editMaxCols) : strlen r = l.length :=
  h.strlenFrom (Nat.zero_le _) (by omega)

theorem rowText_of_holds (h : Holds r l) (hl : l.length < editMaxCols) : rowText r = l := by
  rw [rowText, strlen_of_holds h hl, h.map_range]

theorem lineLen_row (h : Holds (e.lines y) l) (hl : l.length < editMaxCols) (hy : y < e.lineCount) :
    lineLen e y = l.length := by
  rw [lineLen, if_neg (by omega), Int.toNat_natCast, strlen_of_holds h hl]

theorem flatMap_rows (f : List UInt8 → List UInt8) (h : Rows lines y ls)
    (hls : ∀ l ∈ ls, l.length < editMaxCols) :
    ((List.range ls.length).flatMap fun k => f (rowText (lines (y + k)))) = ls.flatMap f := by
  have hmap : (List.range ls.length).map (fun k => rowText (lines (y + k))) = ls := by
    apply List.ext_getElem (by simp)
    intro i hi hi'
    simp only [List.getElem_map, List.getElem_range]
    exact rowText_of_holds (rows_iff.mp h i hi') (hls _ (List.getElem_mem hi'))
  conv => rhs; rw [← hmap]
  rw [List.flatMap_map]

namespace Shows

variable (h : Shows e above left right below)

include h

theorem own : Holds (e.lines e.cy) (left ++ right) := by
  have hrows := (rows_append.mp h.rows).2
  rw [h.row]
  simpa using hrows.1

theorem own_short : (left ++ right).length < editMaxCols :=
  h.short _ (List.mem_append_right _ (List.mem_cons_self ..))

theorem above_rows : Rows e.lines 0 above :=
  (rows_append.mp h.rows).1

theorem below_rows : Rows e.lines (e.cy + 1) below := by
  have hrows := (rows_append.mp h.rows).2
  rw [h.row]
  simpa using hrows.2

theorem above_short : ∀ l ∈ above, l.length < editMaxCols :=
  fun l hl => h.short l (List.mem_append_left _ hl)

theorem below_short : ∀ l ∈ below, l.length < editMaxCols :=
  fun l hl => h.short l (List.mem_append_right _ (List.mem_cons_of_mem _ hl))

theorem lineLen_own : lineLen e e.cy = left.length + right.length := by
  rw [lineLen_row h.own h.own_short (by have hc := h.count; have hr := h.row; omega),
    List.length_append]

theorem before_eq : before e = ended above ++ left := by
  have hrows := flatMap_rows (· ++ [10]) h.above_rows h.above_short
  simp only [Nat.zero_add] at hrows
  rw [before, rowText_of_holds h.own h.own_short, h.row, hrows, h.col, List.take_left']
  · rfl
  · rfl

theorem after_eq : after e = right ++ below.flatMap (10 :: ·) := by
  have hcount : e.lineCount - (e.cy + 1) = below.length := by rw [h.count, h.row]; omega
  rw [after, rowText_of_holds h.own h.own_short, hcount,
    flatMap_rows (10 :: ·) h.below_rows h.below_short,
    h.col, List.drop_left']
  rfl

theorem text_eq : text e = List.intercalate [10] (above ++ (left ++ right) :: below) := by
  have hcount : e.lineCount = (above ++ (left ++ right) :: below).length := by
    rw [h.count, List.length_append, List.length_cons]
    omega
  rw [text, hcount]
  congr 1
  apply List.ext_getElem (by simp)
  intro i hi hi'
  simp only [List.getElem_map, List.getElem_range]
  have hrow := rows_iff.mp h.rows i hi'
  rw [Nat.zero_add] at hrow
  exact rowText_of_holds hrow (h.short _ (List.getElem_mem hi'))

theorem wf : Wf e where
  one_le := by rw [h.count]; omega
  le_max := h.le_max
  ended := by
    intro y hy
    have hy' : y < (above ++ (left ++ right) :: below).length := by
      rw [List.length_append, List.length_cons]
      have hc := h.count
      omega
    have hrow := rows_iff.mp h.rows y hy'
    rw [Nat.zero_add] at hrow
    exact ⟨_, Nat.le_of_lt_succ (h.short _ (List.getElem_mem hy')), hrow.zero⟩
  row := by rw [h.count, h.row]; omega
  col := by rw [h.col, strlen_of_holds h.own h.own_short, List.length_append]; omega

end Shows

theorem intercalate_split (above below : List (List UInt8)) (left right : List UInt8) :
    List.intercalate [10] (above ++ (left ++ right) :: below) =
      ended above ++ left ++ (right ++ below.flatMap (10 :: ·)) := by
  have hbelow : ∀ (ls : List (List UInt8)) (l : List UInt8),
      List.intercalate [10] (l :: ls) = l ++ ls.flatMap (10 :: ·) := by
    intro ls
    induction ls with
    | nil => simp
    | cons m ls ih =>
      intro l
      rw [List.intercalate_cons_cons, ih, List.flatMap_cons]
      simp
  induction above with
  | nil => simp [hbelow, ended]
  | cons l above ih =>
    rw [List.cons_append, hbelow]
    cases above with
    | nil => simp [ended]
    | cons m above =>
      rw [List.cons_append, hbelow] at ih
      rw [List.cons_append, List.flatMap_cons]
      simp only [ended, List.flatMap_cons, List.append_assoc, List.cons_append, List.nil_append] at ih ⊢
      rw [ih]

theorem Wf.shows (h : Wf e) : ∃ above left right below, Shows e above left right below := by
  have hrows : ∀ n ≤ e.lineCount, ∃ ls, ls.length = n ∧ Rows e.lines 0 ls ∧ ∀ l ∈ ls,
    l.length < editMaxCols := by
    intro n
    induction n with
    | zero => exact fun _ => ⟨[], rfl, trivial, by simp⟩
    | succ n ih =>
      intro hn
      obtain ⟨ls, rfl, hls, hshort⟩ := ih (by omega)
      obtain ⟨k, hk, hzero⟩ := h.ended ls.length hn
      obtain ⟨l, hl, hlength⟩ := exists_holds hzero
      refine ⟨ls ++ [l], by simp, rows_append.mpr ⟨hls, by simpa using hl, trivial⟩, fun m hm => ?_⟩
      rcases List.mem_append.mp hm with hm | hm
      · exact hshort m hm
      · rw [List.mem_singleton.mp hm]
        exact Nat.lt_succ_of_le (hlength.trans hk)
  obtain ⟨ls, hlength, hls, hshort⟩ := hrows e.lineCount le_rfl
  have hrow : e.cy < ls.length := hlength ▸ h.row
  have hown := rows_iff.mp hls e.cy hrow
  rw [Nat.zero_add] at hown
  have hcol := h.col
  rw [strlen_of_holds hown (hshort _ (List.getElem_mem hrow))] at hcol
  have hsplit : ls.take e.cy ++ (ls[e.cy].take e.cx ++ ls[e.cy].drop e.cx) :: ls.drop
    (e.cy + 1) = ls := by
    rw [List.take_append_drop, ← List.drop_eq_getElem_cons hrow, List.take_append_drop]
  refine ⟨ls.take e.cy, ls[e.cy].take e.cx, ls[e.cy].drop e.cx, ls.drop (e.cy + 1), ?_⟩
  constructor
  · rwa [hsplit]
  · rwa [hsplit]
  · rw [List.length_take, List.length_drop]
    omega
  · exact h.le_max
  · rw [List.length_take]
    omega
  · rw [List.length_take]
    omega

theorem Wf.text_eq (h : Wf e) : text e = before e ++ after e := by
  obtain ⟨above, left, right, below, hshows⟩ := h.shows
  rw [hshows.text_eq, hshows.before_eq, hshows.after_eq, intercalate_split]

end TextEditor
