import K64.EditorRuns

/-! # Sessions of the text editor

What holds from a loaded file on, whatever was in it. -/
namespace TextEditor

open ZeroText

variable {e : Editor}

def Ended (r : Cells) : Prop := ∃ n ≤ 191, r n = 0

theorem ended_setRow {lines : ℕ → Cells} {r : Cells} {i y : ℕ} (hr : Ended r)
    (h : y ≠ i → Ended (lines y)) :
    Ended (setRow lines i r y) := by
  by_cases heq : y = i
  · rw [heq, setRow_same]
    exact hr
  · rw [setRow_other heq]
    exact h heq

theorem loadBytes_ended (bytes : List UInt8) : ∀ {lines : ℕ → Cells} {r c : ℕ}, r < editMaxLines →
    c < editMaxCols →
    lines r c = 0 → (∀ y < r, Ended (lines y)) →
    (loadBytes bytes lines r c).2 < editMaxLines ∧
      ∀ y ≤ (loadBytes bytes lines r c).2, Ended ((loadBytes bytes lines r c).1 y) := by
  induction bytes with
  | nil =>
    intro lines r c hr hc hzero hrows
    refine ⟨hr, fun y hy => ?_⟩
    rcases Nat.lt_or_eq_of_le hy with hlt | rfl
    · exact hrows y hlt
    · exact ⟨c, Nat.le_of_lt_succ hc, hzero⟩
  | cons ch bytes ih =>
    intro lines r c hr hc hzero hrows
    unfold loadBytes
    rw [if_neg (by omega)]
    by_cases hreturn : ch = 13
    · rw [if_pos hreturn]
      exact ih hr hc hzero hrows
    rw [if_neg hreturn]
    by_cases hnewline : ch = 10
    · rw [if_pos hnewline]
      have hcut : ∀ y ≤ r, Ended (setRow lines r (put (lines r) c 0) y) := fun y hy =>
        ended_setRow ⟨c, Nat.le_of_lt_succ hc, put_same⟩ fun hne => hrows y (by omega)
      by_cases hlast : editMaxLines ≤ r + 1
      · simp only
        rw [if_pos hlast]
        exact ⟨hr, hcut⟩
      · simp only
        rw [if_neg hlast]
        refine ih (by omega) (by decide) ?_ fun y hy => ?_
        · rw [setRow_same, put_same]
        · rw [setRow_other (by omega)]
          exact hcut y (by omega)
    · rw [if_neg hnewline]
      by_cases hfit : c + 1 < editMaxCols
      · rw [if_pos hfit]
        refine ih hr hfit ?_ fun y hy => ?_
        · rw [setRow_same, put_same]
        · rw [setRow_other (by omega)]
          exact hrows y hy
      · rw [if_neg hfit]
        exact ih hr hc hzero hrows

theorem loadFile_wf (hx : e.cx = 0) (hy : e.cy = 0) (file : Opened) : Wf (loadFile e file) := by
  have hempty : ∀ s, Wf (setStatus
    { e with lineCount := 1, lines := setRow e.lines 0 (put (e.lines 0) 0 0) } s) := by
    intro s
    refine ⟨le_rfl, by simp [setStatus], fun y hlt => ?_, by simp [setStatus, hy], by simp
      [setStatus, hx]⟩
    obtain rfl : y = 0 := Nat.lt_one_iff.mp hlt
    exact ⟨0, Nat.zero_le _, by simp [setStatus]⟩
  rcases file with _ | (_ | ⟨ch, bytes⟩)
  · exact hempty _
  · exact hempty _
  · obtain ⟨hlast, hrows⟩ :=
      loadBytes_ended (r := 0) (c := 0) (ch :: bytes) (by decide) (by decide)
        (show setRow e.lines 0 (put (e.lines 0) 0 0) 0 0 = 0 by simp) (by simp)
    refine ⟨Nat.succ_pos _, hlast, fun y hlt => hrows y (Nat.le_of_lt_succ hlt), ?_, ?_⟩
    · change e.cy < _
      rw [hy]
      exact Nat.succ_pos _
    · change e.cx ≤ _
      rw [hx]
      exact Nat.zero_le _

theorem Edited.wf (h : Edited e) : Wf e := by
  induction h with
  | loaded hx hy file => exact loadFile_wf hx hy file
  | @step e op _ hop ih =>
    obtain ⟨hroom, hfull⟩ := Op.run_spec ih hop
    by_cases hr : op.Room e
    · exact (hroom hr).1
    · obtain ⟨message, hsame⟩ := hfull hr
      rw [hsame]
      exact ih.setStatus message

theorem moveCursor_text (e : Editor) (key : Key) : text (moveCursor e key) = text e := by
  cases key <;> rw [moveCursor] <;> (try split_ifs) <;> rfl

/-- In every session the editor keeps its lines and the cursor on them, an operation edits the text at the
cursor or leaves both when there is no room, and a newline that was put in is taken out by a backspace. -/
theorem session_refines (h : Edited e) :
    Wf e ∧ text e = before e ++ after e ∧
      (∀ op : Op, op.Printable →
        (op.Room e → sides (op.run e) = op.edit e) ∧
        (¬ op.Room e → sides (op.run e) = sides e ∧ (op.run e).cx = e.cx ∧ (op.run e).cy = e.cy)) ∧
      (∀ key, text (moveCursor e key) = text e) ∧
      (Op.insertNewline.Room e → sides (backspace (insertNewline e)) = sides e ∧
        (backspace (insertNewline e)).cx = e.cx ∧ (backspace (insertNewline e)).cy = e.cy) := by
  have hwf := h.wf
  refine ⟨hwf, hwf.text_eq, fun op hop => ?_, moveCursor_text e, newline_backspace hwf⟩
  obtain ⟨hroom, hfull⟩ := Op.run_spec hwf hop
  refine ⟨fun hr => (hroom hr).2, fun hr => ?_⟩
  obtain ⟨message, hsame⟩ := hfull hr
  rw [hsame]
  exact ⟨rfl, rfl, rfl⟩

/-- In a file with a line "a" a new line is put in front, and "b" on it. -/
def twoLinesEditor : Editor :=
  (Op.insertChar 98).run (Op.run (Op.run (loadFile emptyEditor (some [97])) .insertNewline)
    (.moveCursor .up))

theorem edited_session : Wf twoLinesEditor ∧ text twoLinesEditor = [98, 10, 97] ∧
    sides twoLinesEditor = ([98], [10, 97]) ∧
    sides (deleteChar twoLinesEditor) = ([98], [97]) ∧
    sides (backspace (insertNewline twoLinesEditor)) = sides twoLinesEditor := by
  have hedited : Edited twoLinesEditor :=
    @Edited.step _ (.insertChar 98) (@Edited.step _ (.moveCursor .up) (@Edited.step _ .insertNewline
      (.loaded rfl rfl (some [97])) trivial) trivial) ⟨by decide, by decide⟩
  have hsides : sides twoLinesEditor = ([98], [10, 97]) := by decide +kernel
  obtain ⟨hwf, htext, hops, -, hback⟩ := session_refines hedited
  obtain ⟨hbefore, hafter⟩ := Prod.mk.inj hsides
  have hroom : twoLinesEditor.lineCount + 1 ≤ 256 := by decide +kernel
  refine ⟨hwf, ?_, hsides, ?_, (hback hroom).1⟩
  · rw [htext, hbefore, hafter]
    rfl
  · have hjoin := (hops .deleteChar trivial).1 fun _ _ => by decide +kernel
    rwa [Op.edit, hbefore, hafter] at hjoin

theorem deleteChar_cx (e : Editor) : (deleteChar e).cx = e.cx := by
  rw [deleteChar]
  split_ifs <;> rfl

theorem loadBytes_newlines (n : ℕ) : ∀ (lines : ℕ → Cells) (r c : ℕ), r + n < editMaxLines →
    (loadBytes (List.replicate n 10) lines r c).2 = r + n := by
  induction n with
  | zero => exact fun _ _ _ _ => rfl
  | succ n ih =>
    intro lines r c h
    rw [List.replicate_succ, loadBytes, if_neg (by omega), if_neg (by decide), if_pos rfl]
    simp only
    rw [if_neg (by omega), ih _ _ _ (by omega)]
    omega

theorem loadBytes_before (bytes : List UInt8) : ∀ (lines : ℕ → Cells) (r c : ℕ), ∀ y < r,
    (loadBytes bytes lines r c).1 y = lines y := by
  induction bytes with
  | nil => exact fun _ _ _ _ _ => rfl
  | cons ch bytes ih =>
    intro lines r c y hy
    unfold loadBytes
    split_ifs
    · rfl
    · exact ih _ _ _ y hy
    · exact setRow_other (by omega)
    · rw [ih _ _ _ y (by omega), setRow_other (by omega), setRow_other (by omega)]
    · rw [ih _ _ _ y hy, setRow_other (by omega)]
    · exact ih _ _ _ y hy

theorem le_strlenFrom (fuel : ℕ) : ∀ (r : Cells) (i : ℕ), i ≤ strlenFrom fuel r i := by
  induction fuel with
  | zero => exact fun _ _ => le_rfl
  | succ fuel ih =>
    intro r i
    rw [strlenFrom]
    split_ifs
    · exact le_rfl
    · exact (Nat.le_succ i).trans (ih r (i + 1))

/-- A character and so many newlines, opened, with the cursor behind the character. -/
def newlinesEditor (n : ℕ) : Editor :=
  moveCursor (loadFile emptyEditor (some (98 :: List.replicate n 10))) .right

theorem newlinesEditor_edited (n : ℕ) : Edited (newlinesEditor n) :=
  have hright : (Op.moveCursor .right).Printable := trivial
  .step (.loaded rfl rfl _) hright

theorem newlinesEditor_place {n : ℕ} (h : n + 2 ≤ editMaxLines) :
    (newlinesEditor (n + 1)).cx = 1 ∧ (newlinesEditor (n + 1)).lineCount = n + 2 := by
  rw [newlinesEditor]
  have hwf : Wf (loadFile emptyEditor (some (98 :: List.replicate (n + 1) 10))) := loadFile_wf rfl rfl _
  have hcx : (loadFile emptyEditor (some (98 :: List.replicate (n + 1) 10))).cx = 0 := rfl
  have hcy : (loadFile emptyEditor (some (98 :: List.replicate (n + 1) 10))).cy = 0 := rfl
  have hcount : (loadFile emptyEditor (some (98 :: List.replicate (n + 1) 10))).lineCount = n + 2 := by
    have hrows := loadBytes_newlines (n + 1)
      (setRow (setRow emptyEditor.lines 0 (put (emptyEditor.lines 0) 0 0)) 0
      (put (put (setRow emptyEditor.lines 0 (put (emptyEditor.lines 0) 0 0) 0) 0 98) 1 0)) 0 1
        (by omega)
    rw [Nat.zero_add] at hrows
    exact congrArg Nat.succ hrows
  have hrow : (loadFile emptyEditor (some (98 :: List.replicate (n + 1) 10))).lines 0 0 = 98 := by
    change (loadBytes (List.replicate (n + 1) 10) _ 0 1).1 0 0 = 98
    rw [List.replicate_succ, loadBytes, if_neg (by decide), if_neg (by decide), if_pos rfl]
    simp only
    rw [if_neg (by decide), loadBytes_before _ _ _ _ 0 Nat.one_pos]
    rfl
  generalize loadFile emptyEditor (some (98 :: List.replicate (n + 1) 10)) = e at *
  have hlen : 1 ≤ strlen (e.lines 0) := by
    have hstep : strlen (e.lines 0) = strlenFrom 191 (e.lines 0) 1 := by
      rw [strlen, editMaxCols, strlenFrom, if_neg (by rw [hrow]; decide)]
    rw [hstep]
    exact le_strlenFrom 191 _ 1
  have hown : lineLen e e.cy = strlen (e.lines e.cy) := lineLen_wf hwf hwf.row
  have hcast : (e.cx : ℤ) + 1 = (1 : ℕ) := by omega
  rw [moveCursor, if_pos (by rw [hown, hcx, hcy]; exact hlen), hcast, clampCursor_row hwf hwf.row, hcy]
  exact ⟨min_eq_left hlen, hcount⟩

/-- In a full file the newline is refused, and the backspace moves the cursor. -/
theorem refused_newline_backspace : Edited (newlinesEditor 255) ∧
    (backspace (insertNewline (newlinesEditor 255))).cx ≠ (newlinesEditor 255).cx := by
  have hedited := newlinesEditor_edited 255
  obtain ⟨hcx, hcount⟩ := newlinesEditor_place (n := 254) (by decide)
  generalize newlinesEditor 255 = e at *
  have hrefused : insertNewline e = setStatus e "File line limit reached" := by
    rw [insertNewline, if_pos (by rw [hcount, editMaxLines])]
  have hone : (setStatus e "File line limit reached").cx = 1 := hcx
  refine ⟨hedited, ?_⟩
  rw [hrefused, backspace, if_pos (by omega), deleteChar_cx, hcx]
  change (setStatus e "File line limit reached").cx - 1 ≠ 1
  rw [hone]
  exact Nat.zero_ne_one

end TextEditor
