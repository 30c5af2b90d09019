import K64.EditorText

/-! # Edits in the text editor

What each operation does to the lines and the cursor, and from that to the text on both sides of it. -/
namespace TextEditor

open ZeroText

variable {e : Editor} {above below : List (List UInt8)} {left right l : List UInt8} {lines : ℕ → Cells}
    {r : Cells}
  {ls : List (List UInt8)} {y n : ℕ} {c : UInt8}

theorem rowsDown_apply (n : ℕ) : ∀ (lines : ℕ → Cells) (a j : ℕ), rowsDown n lines a j =
    if a < j ∧ j ≤ a + n then strcpy (lines j) (lines (j - 1)) 0 else lines j := by
  induction n with
  | zero =>
    intro lines a j
    rw [rowsDown, if_neg (by omega)]
  | succ n ih =>
    intro lines a j
    rw [rowsDown, ih]
    by_cases hlast : j = a + n + 1
    · subst hlast
      rw [if_neg (by omega), if_pos (by omega), setRow_same]
      rfl
    · by_cases hin : a < j ∧ j ≤ a + n
      · rw [if_pos hin, if_pos (by omega), setRow_other hlast, setRow_other (by omega)]
      · rw [if_neg hin, if_neg (by omega), setRow_other hlast]

theorem rowsUp_apply (n : ℕ) : ∀ (lines : ℕ → Cells) (a j : ℕ), rowsUp n lines a j =
    if a ≤ j ∧ j < a + n then strcpy (lines j) (lines (j + 1)) 0 else lines j := by
  induction n with
  | zero =>
    intro lines a j
    rw [rowsUp, if_neg (by omega)]
  | succ n ih =>
    intro lines a j
    rw [rowsUp, ih]
    by_cases hfirst : j = a
    · subst hfirst
      rw [if_neg (by omega), if_pos (by omega), setRow_same]
    · by_cases hin : a + 1 ≤ j ∧ j < a + 1 + n
      · rw [if_pos hin, if_pos (by omega), setRow_other hfirst, setRow_other (by omega)]
      · rw [if_neg hin, if_neg (by omega), setRow_other hfirst]

theorem Rows.down (h : Rows lines y ls) (hls : ∀ l ∈ ls, l.length < editMaxCols) :
    Rows (rowsDown ls.length lines y) (y + 1) ls := by
  refine rows_iff.mpr fun i hi => ?_
  have hrow := rows_iff.mp h i hi
  have hprev : y + 1 + i - 1 = y + i := by omega
  rw [rowsDown_apply, if_pos (by omega), hprev]
  exact hrow.copy (hls _ (List.getElem_mem hi)).le _

theorem Rows.up (h : Rows lines (y + 1) ls) (hls : ∀ l ∈ ls, l.length < editMaxCols) :
    Rows (rowsUp ls.length lines y) y ls := by
  refine rows_iff.mpr fun i hi => ?_
  have hrow := rows_iff.mp h i hi
  have hnext : y + 1 + i = y + i + 1 := by omega
  rw [hnext] at hrow
  rw [rowsUp_apply, if_pos (by omega)]
  exact hrow.copy (hls _ (List.getElem_mem hi)).le _

theorem Rows.replace {l' : List UInt8} (h : Rows lines 0 (above ++ l :: below)) (hr : Holds r l') :
    Rows (setRow lines above.length r) 0 (above ++ l' :: below) := by
  obtain ⟨habove, -, hbelow⟩ := rows_append.mp h
  refine rows_append.mpr ⟨habove.setRow_outside (by omega), ?_, hbelow.setRow_outside (by omega)⟩
  rw [Nat.zero_add, setRow_same]
  exact hr

theorem Rows.join {m : List UInt8} (h : Rows lines 0 (above ++ l :: m :: below))
    (hl : l.length < editMaxCols) (hm : m.length < editMaxCols)
    (hls : ∀ l ∈ below, l.length < editMaxCols) :
    Rows (rowsUp below.length (setRow lines above.length
      (strcat (lines above.length) (lines (above.length + 1)))) (above.length + 1)) 0
        (above ++ (l ++ m) :: below) := by
  obtain ⟨habove, hown, hnext, hbelow⟩ := rows_append.mp h
  simp only [Nat.zero_add] at hown hnext hbelow
  have hjoin : Holds (strcat (lines above.length) (lines (above.length + 1))) (l ++ m) := by
    rw [strcat, strlen_of_holds hown hl]
    exact hown.copy_behind hnext hm.le
  have hmoved := (hbelow.setRow_outside (i := above.length)
    (r := strcat (lines above.length) (lines (above.length + 1))) (by omega)).up hls
  refine rows_append.mpr ⟨habove.congr fun i _ hi => ?_, ?_, ?_⟩
  · rw [rowsUp_apply, if_neg (by omega), setRow_other (by omega)]
  · rw [Nat.zero_add, rowsUp_apply, if_neg (by omega), setRow_same]
    exact hjoin
  · rw [Nat.zero_add]
    exact hmoved

theorem Shows.insertChar (h : Shows e above left right below) (hc : c ≠ 0)
    (hroom : left.length + right.length + 1 < editMaxCols) :
    Shows (insertChar e c) above (left ++ [c]) right below := by
  have hrow : Holds (put (openGap (right.length + 1) (e.lines e.cy) left.length) left.length c)
      (left ++ [c] ++ right) := by
    rw [List.append_assoc]
    exact h.own.insert hc
  have hgap : left.length + right.length + 1 - e.cx = right.length + 1 := by rw [h.col]; omega
  unfold TextEditor.insertChar
  rw [h.lineLen_own, if_neg (by omega), hgap, h.col]
  constructor
  · have hrows := h.rows.replace hrow
    rwa [← h.row] at hrows
  · intro m hm
    rcases List.mem_append.mp hm with hm | hm
    · exact h.above_short m hm
    rcases List.mem_cons.mp hm with rfl | hm
    · simp only [List.length_append, List.length_singleton]
      omega
    · exact h.below_short m hm
  · exact h.count
  · exact h.le_max
  · exact h.row
  · simp [setStatus]

theorem Shows.insertNewline (h : Shows e above left right below) (hroom : e.lineCount < editMaxLines) :
    Shows (insertNewline e) (above ++ [left]) [] right below := by
  have hcount := h.count
  have hrow := h.row
  have hn : e.lineCount - (e.cy + 1) = below.length := by omega
  have hlines : ∀ j ≤ e.cy + 1, rowsDown below.length e.lines (e.cy + 1) j = e.lines j := by
    intro j hj
    rw [rowsDown_apply, if_neg (by omega)]
  have hown := h.own
  have hright : right.length ≤ editMaxCols := by
    have hshort := h.own_short
    rw [List.length_append] at hshort
    omega
  have hdown := h.below_rows.down h.below_short
  unfold TextEditor.insertNewline
  rw [if_neg (by omega), hn]
  simp only [hlines (e.cy + 1) le_rfl, hlines e.cy (Nat.le_succ _)]
  have hlast : setRow (rowsDown below.length e.lines (e.cy + 1)) (e.cy + 1)
      (strcpy (e.lines (e.cy + 1)) (e.lines e.cy) e.cx) e.cy = e.lines e.cy := by
    rw [setRow_other (by omega), hlines e.cy (Nat.le_succ _)]
  rw [hlast]
  constructor
  · rw [List.append_assoc]
    refine rows_append.mpr ⟨h.above_rows.congr fun i _ hi => ?_, ?_, ?_, ?_⟩
    · rw [Nat.zero_add] at hi
      simp only [setStatus]
      rw [setRow_other (by omega), setRow_other (by omega), hlines i (by omega)]
    · rw [Nat.zero_add, ← hrow]
      simp only [setStatus, setRow_same, h.col]
      exact hown.cut
    · rw [Nat.zero_add, ← hrow]
      simp only [setStatus]
      rw [setRow_other (by omega), setRow_same, h.col]
      exact hown.copy_end hright _
    · rw [Nat.zero_add, ← hrow]
      exact (hdown.setRow_outside (by omega)).setRow_outside (by omega)
  · have hshort := h.own_short
    rw [List.length_append] at hshort
    intro m hm
    simp only [List.mem_append, List.mem_cons, List.nil_append, List.not_mem_nil, or_false] at hm
    rcases hm with (hm | rfl) | rfl | hm
    · exact h.above_short m hm
    · omega
    · omega
    · exact h.below_short m hm
  · simp only [setStatus, List.length_append, List.length_singleton]
    omega
  · simp only [setStatus]
    omega
  · simp [setStatus, hrow]
  · rfl

theorem Shows.deleteChar (h : Shows e above left (c :: right) below) :
    Shows (deleteChar e) above left right below := by
  have hlen := h.lineLen_own
  rw [List.length_cons] at hlen
  have hgap : lineLen e e.cy - e.cx = right.length + 1 := by rw [hlen, h.col]; omega
  unfold TextEditor.deleteChar
  rw [if_pos (by rw [hlen, h.col]; omega), hgap, h.col]
  constructor
  · have hrows := h.rows.replace h.own.remove
    rwa [← h.row] at hrows
  · have hshort := h.own_short
    intro m hm
    rcases List.mem_append.mp hm with hm | hm
    · exact h.above_short m hm
    rcases List.mem_cons.mp hm with rfl | hm
    · simp only [List.length_append, List.length_cons] at hshort ⊢
      omega
    · exact h.below_short m hm
  · exact h.count
  · exact h.le_max
  · exact h.row
  · rfl

theorem Shows.deleteChar_join (h : Shows e above left [] (l :: below))
    (hroom : left.length + l.length < editMaxCols) :
    Shows (TextEditor.deleteChar e) above left l below := by
  have hcount := h.count
  rw [List.length_cons] at hcount
  have hrow := h.row
  have hlen := h.lineLen_own
  have hshort := h.own_short
  rw [List.append_nil] at hshort
  have hl := h.below_short l (List.mem_cons_self ..)
  have hnext : lineLen e (e.cy + 1) = l.length := by
    have hcast : (e.cy : ℤ) + 1 = (e.cy + 1 : ℕ) := by omega
    rw [hcast]
    exact lineLen_row h.below_rows.1 hl (by omega)
  have hn : e.lineCount - (e.cy + 1) - 1 = below.length := by omega
  unfold TextEditor.deleteChar
  rw [if_neg (by rw [hlen, h.col]; simp), if_pos (by omega), hnext, hlen, List.length_nil, Nat.add_zero,
    if_neg (by omega), hn]
  have hbelow := fun m hm => h.below_short m (List.mem_cons_of_mem _ hm)
  constructor
  · have hrows := h.rows
    rw [List.append_nil] at hrows
    have hjoin := hrows.join hshort hl hbelow
    rwa [← hrow] at hjoin
  · intro m hm
    rcases List.mem_append.mp hm with hm | hm
    · exact h.above_short m hm
    rcases List.mem_cons.mp hm with rfl | hm
    · rwa [List.length_append]
    · exact hbelow m hm
  · dsimp only
    omega
  · have hmax := h.le_max
    dsimp only
    omega
  · exact hrow
  · exact h.col

theorem Shows.backspace_join (h : Shows e (above ++ [l]) [] right below)
    (hroom : l.length + right.length < editMaxCols) :
    Shows (backspace e) above l right below := by
  have hcount := h.count
  have hrow := h.row
  rw [List.length_append, List.length_singleton] at hcount hrow
  have hlen := h.lineLen_own
  rw [List.length_nil, Nat.zero_add] at hlen
  have hshort := h.own_short
  rw [List.nil_append] at hshort
  have hl := h.above_short l (by simp)
  have hrows := h.rows
  rw [List.append_assoc, List.nil_append] at hrows
  have hprevRow := (rows_append.mp hrows).2.1
  rw [Nat.zero_add] at hprevRow
  have hprev : lineLen e (e.cy - 1) = l.length := by
    have hcast : (e.cy : ℤ) - 1 = (above.length : ℕ) := by omega
    rw [hcast]
    exact lineLen_row hprevRow hl (by omega)
  have hn : e.lineCount - e.cy - 1 = below.length := by omega
  have hcy : e.cy - 1 = above.length := by omega
  unfold TextEditor.backspace
  rw [if_neg (by rw [h.col]; simp), if_pos (by omega)]
  simp only [hprev, hlen]
  rw [if_neg (by omega), hn, hcy]
  constructor
  · have hjoin := hrows.join hl hshort h.below_short
    rwa [← hrow] at hjoin
  · intro m hm
    rcases List.mem_append.mp hm with hm | hm
    · exact h.above_short m (List.mem_append_left _ hm)
    rcases List.mem_cons.mp hm with rfl | hm
    · rwa [List.length_append]
    · exact h.below_short m hm
  · dsimp only
    omega
  · have hmax := h.le_max
    dsimp only
    omega
  · rfl
  · rfl

end TextEditor
