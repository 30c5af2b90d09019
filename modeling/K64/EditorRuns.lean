import K64.EditorEdits

/-! # Sessions of the text editor

From a loaded file on, the editor keeps lines with a cursor, and its operations edit the text around it. -/
namespace TextEditor

open ZeroText

inductive Op where
  | insertChar (ch : UInt8)
  | insertNewline
  | deleteChar
  | backspace
  | moveCursor (key : Key)

def Op.run (e : Editor) : Op → Editor
  | .insertChar ch => TextEditor.insertChar e ch
  | .insertNewline => TextEditor.insertNewline e
  | .deleteChar => TextEditor.deleteChar e
  | .backspace => TextEditor.backspace e
  | .moveCursor key => TextEditor.moveCursor e key

def Op.Printable : Op → Prop
  | .insertChar ch => 32 ≤ ch ∧ ch < 127
  | _ => True

inductive Edited : Editor → Prop
  | loaded {e : Editor} (hx : e.cx = 0) (hy : e.cy = 0) (file : Opened) : Edited (loadFile e file)
  | step {e : Editor} {op : Op} (h : Edited e) (hop : op.Printable) : Edited (op.run e)

/-- The text in front of the cursor and behind it. -/
def sides (e : Editor) : List UInt8 × List UInt8 := (before e, after e)

/-- The text around the cursor's column on another row. -/
def sidesAt (e : Editor) (row : ℕ) : List UInt8 × List UInt8 :=
  sides { e with cy := row, cx := min e.cx (strlen (e.lines row)) }

/-- What the operation makes of the text by its name. -/
def Op.edit (e : Editor) : Op → List UInt8 × List UInt8
  | .insertChar ch => (before e ++ [ch], after e)
  | .insertNewline => (before e ++ [10], after e)
  | .deleteChar => (before e, (after e).tail)
  | .backspace => ((before e).dropLast, after e)
  | .moveCursor .left => ((before e).dropLast, (before e).drop ((before e).length - 1) ++ after e)
  | .moveCursor .right => (before e ++ (after e).take 1, (after e).tail)
  | .moveCursor .up => sidesAt e (e.cy - 1)
  | .moveCursor .down => sidesAt e (min (e.cy + 1) (e.lineCount - 1))

/-- The line that the operation makes has at most 191 characters, the file at most 256 lines. -/
def Op.Room (e : Editor) : Op → Prop
  | .insertChar _ => strlen (e.lines e.cy) + 1 ≤ 191
  | .insertNewline => e.lineCount + 1 ≤ 256
  | .deleteChar => e.cx = strlen (e.lines e.cy) → e.cy + 1 < e.lineCount →
      strlen (e.lines e.cy) + strlen (e.lines (e.cy + 1)) ≤ 191
  | .backspace => e.cx = 0 → 0 < e.cy → strlen (e.lines (e.cy - 1)) + strlen (e.lines e.cy) ≤ 191
  | .moveCursor _ => True

variable {e : Editor} {above below : List (List UInt8)} {left right l : List UInt8} {y : ℕ} {c : UInt8}

theorem Shows.sides_eq (h : Shows e above left right below) :
    sides e = (ended above ++ left, right ++ below.flatMap (10 :: ·)) :=
  Prod.ext h.before_eq h.after_eq

theorem Shows.strlen_own (h : Shows e above left right below) :
    strlen (e.lines e.cy) = left.length + right.length := by
  rw [strlen_of_holds h.own h.own_short, List.length_append]

theorem Shows.strlen_below (h : Shows e above left right (l :: below)) :
    strlen (e.lines (e.cy + 1)) = l.length :=
  strlen_of_holds h.below_rows.1 (h.below_short l (List.mem_cons_self ..))

theorem Shows.strlen_above (h : Shows e (above ++ [l]) left right below) :
    strlen (e.lines (e.cy - 1)) = l.length := by
  have hrow := (rows_append.mp h.above_rows).2.1
  have hcy := h.row
  rw [List.length_append, List.length_singleton] at hcy
  rw [Nat.zero_add] at hrow
  rw [hcy, Nat.add_sub_cancel]
  exact strlen_of_holds hrow (h.above_short l (by simp))

theorem Wf.setStatus (h : Wf e) (s : String) : Wf (setStatus e s) := ⟨h.1, h.2, h.3, h.4, h.5⟩

section Shown

variable (h : Shows e above left right below)

include h

theorem insertChar_spec (hc : c ≠ 0) :
    ((Op.insertChar c).Room e → Shows (insertChar e c) above (left ++ [c]) right below) ∧
      (¬ (Op.insertChar c).Room e → insertChar e c = setStatus e "Line too long") := by
  have hlen := h.lineLen_own
  simp only [Op.Room, h.strlen_own]
  constructor
  · intro hroom
    exact h.insertChar hc (Nat.lt_succ_of_le hroom)
  · intro hfull
    rw [insertChar, hlen, if_pos (by rw [editMaxCols]; omega)]

theorem insertNewline_spec :
    (Op.insertNewline.Room e → Shows (insertNewline e) (above ++ [left]) [] right below) ∧
      (¬ Op.insertNewline.Room e → insertNewline e = setStatus e "File line limit reached") := by
  simp only [Op.Room]
  constructor
  · exact fun hroom => h.insertNewline hroom
  · intro hfull
    rw [insertNewline, if_pos (by rw [editMaxLines]; omega)]

theorem deleteChar_spec :
    (Op.deleteChar.Room e → Wf (deleteChar e) ∧ sides (deleteChar e) = Op.deleteChar.edit e) ∧
      (¬ Op.deleteChar.Room e → deleteChar e = setStatus e "Cannot join: line too long") := by
  have hlen := h.lineLen_own
  have hcol := h.col
  simp only [Op.Room, Op.edit, h.strlen_own]
  cases right with
  | cons c right =>
    have hdeleted := h.deleteChar
    refine ⟨fun _ => ⟨hdeleted.wf, ?_⟩, fun hfull => absurd (fun hend => ?_) hfull⟩
    · rw [hdeleted.sides_eq, h.before_eq, h.after_eq]
      rfl
    · rw [List.length_cons] at hend
      omega
  | nil =>
    have hcount := h.count
    have hrow := h.row
    rw [List.length_nil, Nat.add_zero] at hlen ⊢
    cases below with
    | nil =>
      rw [List.length_nil] at hcount
      have hsame : deleteChar e = e := by
        rw [deleteChar, hlen, if_neg (by omega), if_neg (by omega)]
      rw [hsame]
      refine ⟨fun _ => ⟨h.wf, ?_⟩, fun hfull => absurd (fun _ hlt => ?_) hfull⟩
      · rw [sides, h.after_eq]
        rfl
      · omega
    | cons l below =>
      rw [List.length_cons] at hcount
      rw [h.strlen_below]
      by_cases hfit : left.length + l.length ≤ 191
      · have hjoined := h.deleteChar_join (Nat.lt_succ_of_le hfit)
        refine ⟨fun _ => ⟨hjoined.wf, ?_⟩, fun hfull => absurd (fun _ _ => hfit) hfull⟩
        rw [hjoined.sides_eq, h.before_eq, h.after_eq]
        rfl
      · refine ⟨fun hroom => absurd (hroom hcol (by omega)) hfit, fun _ => ?_⟩
        have hnext : lineLen e (e.cy + 1) = l.length := by
          have hcast : (e.cy : ℤ) + 1 = (e.cy + 1 : ℕ) := by omega
          rw [hcast]
          exact lineLen_row h.below_rows.1 (h.below_short l (List.mem_cons_self ..)) (by omega)
        rw [deleteChar, hlen, if_neg (by omega), if_pos (by omega), hnext,
          if_pos (by rw [editMaxCols]; omega)]

end Shown

theorem Shows.move (h : Shows e above left right below) {above' below' : List (List UInt8)}
    {left' right' : List UInt8}
    (heq : above' ++ (left' ++ right') :: below' = above ++ (left ++ right) :: below) :
    Shows { e with cx := left'.length, cy := above'.length } above' left' right' below' := by
  have hlength := congrArg List.length heq
  simp only [List.length_append, List.length_cons] at hlength
  have hcount := h.count
  constructor
  · rw [heq]
    exact h.rows
  · rw [heq]
    exact h.short
  · dsimp only
    omega
  · exact h.le_max
  · rfl
  · rfl

theorem backspace_spec (h : Shows e above left right below) :
    (Op.backspace.Room e → Wf (backspace e) ∧ sides (backspace e) = Op.backspace.edit e) ∧
      (¬ Op.backspace.Room e → backspace e = setStatus e "Cannot join: line too long") := by
  have hcol := h.col
  have hrow := h.row
  simp only [Op.Room, Op.edit, h.strlen_own]
  rcases List.eq_nil_or_concat' left with rfl | ⟨front, c, rfl⟩
  · rw [List.length_nil] at hcol
    rcases List.eq_nil_or_concat' above with rfl | ⟨front, l, rfl⟩
    · rw [List.length_nil] at hrow
      have hsame : backspace e = e := by
        rw [backspace, if_neg (by omega), if_neg (by omega)]
      rw [hsame]
      refine ⟨fun _ => ⟨h.wf, ?_⟩, fun hfull => absurd (fun _ hlt => ?_) hfull⟩
      · rw [sides, h.before_eq]
        rfl
      · omega
    · rw [List.length_append, List.length_singleton] at hrow
      rw [h.strlen_above, List.length_nil, Nat.zero_add]
      by_cases hfit : l.length + right.length ≤ 191
      · have hjoined := h.backspace_join (Nat.lt_succ_of_le hfit)
        refine ⟨fun _ => ⟨hjoined.wf, ?_⟩, fun hfull => absurd (fun _ _ => hfit) hfull⟩
        rw [hjoined.sides_eq, h.before_eq, h.after_eq]
        simp [ended]
      · refine ⟨fun hroom => absurd (hroom hcol (by omega)) hfit, fun _ => ?_⟩
        have hlen := h.lineLen_own
        rw [List.length_nil, Nat.zero_add] at hlen
        have hprev : lineLen e (e.cy - 1) = l.length := by
          have hprevRow := (rows_append.mp h.above_rows).2.1
          rw [Nat.zero_add] at hprevRow
          have hcount := h.count
          rw [List.length_append, List.length_singleton] at hcount
          have hcast : (e.cy : ℤ) - 1 = (front.length : ℕ) := by omega
          rw [hcast]
          exact lineLen_row hprevRow (h.above_short l (by simp)) (by omega)
        rw [backspace, if_neg (by omega), if_pos (by omega)]
        simp only [hprev, hlen]
        rw [if_pos (by rw [editMaxCols]; omega)]
  · rw [List.length_append, List.length_singleton] at hcol
    have hmoved : Shows { e with cx := e.cx - 1 } above front (c :: right) below := by
      have hmove : Shows { e with cx := front.length, cy := above.length } above front
        (c :: right) below :=
        h.move (by simp)
      have hfront : front.length = e.cx - 1 := by omega
      rwa [← hrow, hfront] at hmove
    have hdeleted := hmoved.deleteChar
    have heq : backspace e = deleteChar
      { e with cx := e.cx - 1 } := by rw [backspace, if_pos (by omega)]
    rw [heq]
    refine ⟨fun _ => ⟨hdeleted.wf, ?_⟩, fun hfull => absurd (fun hzero => ?_) hfull⟩
    · rw [hdeleted.sides_eq, h.before_eq, h.after_eq]
      simp
    · omega

theorem Wf.row_holds (h : Wf e) (hy : y < e.lineCount) :
    ∃ l, Holds (e.lines y) l ∧ l.length < editMaxCols := by
  obtain ⟨n, hn, hzero⟩ := h.ended y hy
  obtain ⟨l, hl, hlength⟩ := exists_holds hzero
  exact ⟨l, hl, Nat.lt_succ_of_le (hlength.trans hn)⟩

theorem lineLen_wf (h : Wf e) (hy : y < e.lineCount) : lineLen e y = strlen (e.lines y) := by
  obtain ⟨l, hl, hlength⟩ := h.row_holds hy
  rw [lineLen_row hl hlength hy, strlen_of_holds hl hlength]

theorem clampCursor_row (h : Wf e) (hy : y < e.lineCount) (x : ℕ) :
    clampCursor e x y = { e with cx := min x (strlen (e.lines y)), cy := y } := by
  have hlow : (if (y : ℤ) < 0 then 0 else (y : ℤ)) = y := if_neg (by omega)
  have hhigh : (if (e.lineCount : ℤ) ≤ y then (e.lineCount : ℤ) - 1 else y) = y := if_neg (by omega)
  have hleft : (if (x : ℤ) < 0 then 0 else (x : ℤ)) = x := if_neg (by omega)
  simp only [clampCursor, hlow, hhigh, hleft, lineLen_wf h hy, Int.toNat_natCast]
  congr 1
  by_cases hle : strlen (e.lines y) < x
  · rw [if_pos (by omega), Int.toNat_natCast, min_eq_right hle.le]
  · rw [if_neg (by omega), Int.toNat_natCast, min_eq_left (by omega)]

theorem clampCursor_above (x : ℤ) : clampCursor e x (-1) = clampCursor e x 0 := rfl

theorem clampCursor_below (h : Wf e) (x : ℤ) :
    clampCursor e x e.lineCount = clampCursor e x (e.lineCount - 1 : ℕ) := by
  have hone := h.one_le
  have hcast : ((e.lineCount - 1 : ℕ) : ℤ) = (e.lineCount : ℤ) - 1 := by omega
  have hlow : (if (e.lineCount : ℤ) < 0 then 0 else (e.lineCount : ℤ)) = e.lineCount :=
    if_neg (by omega)
  have hlow' : (if (e.lineCount : ℤ) - 1 < 0 then 0 else (e.lineCount : ℤ) - 1) = e.lineCount - 1 :=
    if_neg (by omega)
  have hhigh : (if (e.lineCount : ℤ) ≤ e.lineCount - 1 then
    (e.lineCount : ℤ) - 1 else e.lineCount - 1) =
      e.lineCount - 1 := if_neg (by omega)
  have hlast : (if (e.lineCount : ℤ) ≤ e.lineCount then (e.lineCount : ℤ) - 1 else e.lineCount) =
      e.lineCount - 1 := if_pos (Int.le_refl _)
  simp only [clampCursor, hcast, hlow, hlow', hhigh, hlast]

theorem Wf.at_row (h : Wf e) (hy : y < e.lineCount) (x : ℕ) :
    Wf { e with cx := min x (strlen (e.lines y)), cy := y, quitConfirm := false } :=
  ⟨h.one_le, h.le_max, h.ended, hy, min_le_right _ _⟩

theorem moveCursor_up (h : Wf e) : moveCursor e .up =
    { e with cx := min e.cx (strlen (e.lines (e.cy - 1))), cy := e.cy - 1, quitConfirm := false } := by
  have hrow := h.row
  rw [moveCursor]
  by_cases hzero : e.cy = 0
  · have hcast : (e.cy : ℤ) - 1 = -1 := by omega
    simp only [hcast, clampCursor_above]
    have hclamp := clampCursor_row h (y := 0) (by omega) e.cx
    rw [Int.natCast_zero] at hclamp
    rw [hclamp, hzero]
  · have hcast : (e.cy : ℤ) - 1 = (e.cy - 1 : ℕ) := by omega
    simp only [hcast]
    rw [clampCursor_row h (by omega)]

theorem moveCursor_down (h : Wf e) : moveCursor e .down =
    { e with
      cx := min e.cx (strlen (e.lines (min (e.cy + 1) (e.lineCount - 1))))
      cy := min (e.cy + 1) (e.lineCount - 1)
      quitConfirm := false } := by
  have hrow := h.row
  rw [moveCursor]
  have hcast : (e.cy : ℤ) + 1 = (e.cy + 1 : ℕ) := by omega
  simp only [hcast]
  by_cases hlast : e.cy + 1 = e.lineCount
  · have hmin : min e.lineCount (e.lineCount - 1) = e.lineCount - 1 := min_eq_right (by omega)
    rw [hlast, clampCursor_below h, clampCursor_row h (by omega), hmin]
  · have hmin : min (e.cy + 1) (e.lineCount - 1) = e.cy + 1 := min_eq_left (by omega)
    rw [clampCursor_row h (by omega), hmin]

section Moved

variable (h : Shows e above left right below)

include h

theorem Shows.clamp :
    { clampCursor e e.cx e.cy with quitConfirm := false } = { e with quitConfirm := false } := by
  have hwf := h.wf
  rw [clampCursor_row hwf hwf.row, min_eq_left hwf.col]

theorem Shows.quitConfirm : Shows { e with quitConfirm := false } above left right below :=
  ⟨h.rows, h.short, h.count, h.le_max, h.row, h.col⟩

theorem Shows.clamp_move {above' below' : List (List UInt8)} {left' right' : List UInt8}
    (heq : above' ++ (left' ++ right') :: below' = above ++ (left ++ right) :: below) :
    Shows { clampCursor e left'.length above'.length with quitConfirm := false } above' left' right'
      below' := by
  have hmoved := h.move heq
  have hrow : above'.length < e.lineCount := hmoved.wf.row
  have hcol : left'.length ≤ strlen (e.lines above'.length) := hmoved.wf.col
  rw [clampCursor_row h.wf hrow, min_eq_left hcol]
  exact hmoved.quitConfirm

theorem moveCursor_left :
    Wf (moveCursor e .left) ∧ sides (moveCursor e .left) = (Op.moveCursor .left).edit e := by
  have hcol := h.col
  have hrow := h.row
  simp only [Op.edit, h.before_eq, h.after_eq]
  rw [moveCursor]
  rcases List.eq_nil_or_concat' left with rfl | ⟨front, c, rfl⟩
  · rw [List.length_nil] at hcol
    rcases List.eq_nil_or_concat' above with rfl | ⟨front, l, rfl⟩
    · rw [List.length_nil] at hrow
      rw [if_neg (by omega), if_neg (by omega), h.clamp]
      refine ⟨h.quitConfirm.wf, ?_⟩
      rw [h.quitConfirm.sides_eq]
      simp [ended]
    · rw [List.length_append, List.length_singleton] at hrow
      have hcount := h.count
      have hcy : (e.cy : ℤ) - 1 = front.length := by omega
      have hprev : lineLen e (e.cy - 1) = l.length := by
        have hprevRow := (rows_append.mp h.above_rows).2.1
        rw [Nat.zero_add] at hprevRow
        rw [List.length_append, List.length_singleton] at hcount
        rw [hcy]
        exact lineLen_row hprevRow (h.above_short l (by simp)) (by omega)
      have hmoved : Shows { clampCursor e l.length front.length with quitConfirm := false } front l []
          (([] ++ right) :: below) := h.clamp_move (by simp)
      have hnewline : ended (front ++ [l]) ++ [] = ended front ++ l ++ [10] := by simp [ended]
      rw [if_neg (by omega), if_pos (by omega), hprev, hcy]
      refine ⟨hmoved.wf, ?_⟩
      rw [hmoved.sides_eq, hnewline]
      simp
  · rw [List.length_append, List.length_singleton] at hcol
    have hmoved : Shows { clampCursor e front.length above.length with quitConfirm := false } above
      front
        (c :: right) below := h.clamp_move (by simp)
    have hcx : (e.cx : ℤ) - 1 = front.length := by omega
    rw [if_pos (by omega), hcx, hrow]
    refine ⟨hmoved.wf, ?_⟩
    rw [hmoved.sides_eq]
    simp

theorem moveCursor_right :
    Wf (moveCursor e .right) ∧ sides (moveCursor e .right) = (Op.moveCursor .right).edit e := by
  have hcol := h.col
  have hrow := h.row
  have hlen := h.lineLen_own
  simp only [Op.edit, h.before_eq, h.after_eq]
  rw [moveCursor]
  cases right with
  | cons c right =>
    rw [List.length_cons] at hlen
    have hmoved : Shows { clampCursor e (left ++ [c]).length above.length with quitConfirm := false }
      above
        (left ++ [c]) right below := h.clamp_move (by simp)
    have hcx : (e.cx : ℤ) + 1 = (left ++ [c]).length := by simp [hcol]
    rw [hlen, if_pos (by omega), hcx, hrow]
    refine ⟨hmoved.wf, ?_⟩
    rw [hmoved.sides_eq]
    simp
  | nil =>
    have hcount := h.count
    rw [List.length_nil, Nat.add_zero] at hlen
    cases below with
    | nil =>
      rw [List.length_nil] at hcount
      rw [hlen, if_neg (by omega), if_neg (by omega), h.clamp]
      refine ⟨h.quitConfirm.wf, ?_⟩
      rw [h.quitConfirm.sides_eq]
      simp
    | cons l below =>
      rw [List.length_cons] at hcount
      have hmoved : Shows { clampCursor e ([] : List UInt8).length
        (above ++ [left]).length with quitConfirm := false }
          (above ++ [left]) [] l below := h.clamp_move (by simp)
      have hcy : (e.cy : ℤ) + 1 = (above ++ [left]).length := by simp [hrow]
      rw [hlen, if_neg (by omega), if_pos (by omega), hcy]
      refine ⟨hmoved.wf, ?_⟩
      rw [List.length_nil, Int.natCast_zero] at hmoved
      rw [hmoved.sides_eq]
      simp [ended]

end Moved

theorem Op.run_spec (h : Wf e) {op : Op} (hop : op.Printable) :
    (op.Room e → Wf (op.run e) ∧ sides (op.run e) = op.edit e) ∧
      (¬ op.Room e → ∃ message, op.run e = setStatus e message) := by
  obtain ⟨above, left, right, below, hshows⟩ := h.shows
  cases op with
  | insertChar ch =>
    have hch : ch ≠ 0 := by
      rintro rfl
      exact absurd hop.1 (by decide)
    obtain ⟨hroom, hfull⟩ := insertChar_spec hshows hch
    refine ⟨fun hr => ⟨(hroom hr).wf, ?_⟩, fun hr => ⟨_, hfull hr⟩⟩
    rw [Op.run, (hroom hr).sides_eq, Op.edit, hshows.before_eq, hshows.after_eq, List.append_assoc]
  | insertNewline =>
    obtain ⟨hroom, hfull⟩ := insertNewline_spec hshows
    refine ⟨fun hr => ⟨(hroom hr).wf, ?_⟩, fun hr => ⟨_, hfull hr⟩⟩
    rw [Op.run, (hroom hr).sides_eq, Op.edit, hshows.before_eq, hshows.after_eq]
    simp [ended]
  | deleteChar =>
    obtain ⟨hroom, hfull⟩ := deleteChar_spec hshows
    exact ⟨hroom, fun hr => ⟨_, hfull hr⟩⟩
  | backspace =>
    obtain ⟨hroom, hfull⟩ := backspace_spec hshows
    exact ⟨hroom, fun hr => ⟨_, hfull hr⟩⟩
  | moveCursor key =>
    refine ⟨fun _ => ?_, fun hr => absurd trivial hr⟩
    cases key with
    | left => exact moveCursor_left hshows
    | right => exact moveCursor_right hshows
    | up =>
      have hcy : e.cy - 1 < e.lineCount := by
        have hrow := h.row
        omega
      simp only [Op.run, moveCursor_up h]
      exact ⟨h.at_row hcy _, rfl⟩
    | down =>
      have hcy : min (e.cy + 1) (e.lineCount - 1) < e.lineCount := by
        have hrow := h.row
        omega
      simp only [Op.run, moveCursor_down h]
      exact ⟨h.at_row hcy _, rfl⟩

theorem newline_backspace (h : Wf e) (hroom : Op.insertNewline.Room e) :
    sides (backspace (insertNewline e)) = sides e ∧ (backspace (insertNewline e)).cx = e.cx ∧
      (backspace (insertNewline e)).cy = e.cy := by
  obtain ⟨above, left, right, below, hshows⟩ := h.shows
  have hsplit := (insertNewline_spec hshows).1 hroom
  have hfit := hshows.own_short
  rw [List.length_append] at hfit
  have hjoined := hsplit.backspace_join hfit
  exact ⟨by rw [hjoined.sides_eq, hshows.sides_eq], by rw [hjoined.col,
    hshows.col], by rw [hjoined.row, hshows.row]⟩

end TextEditor
