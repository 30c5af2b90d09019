import K64.ShellEditor

/-! # The line of the shell

The line as the text in front of the cursor and the text behind it, and what the editing keys make of it. -/
namespace ShellEditor

open ZeroText Keyboard

def lineText (r : Cells) : List UInt8 := (List.range (shellLineLen r)).map r

/-- The text in front of the cursor and behind it. -/
def sides (ed : LineEditor) : List UInt8 × List UInt8 :=
  ((List.range ed.cursor).map ed.line, (List.range (ed.len - ed.cursor)).map fun k => ed.line
    (ed.cursor + k))

/-- The editing keys on a text in front of the cursor and one behind it. -/
def edit (event : KeyEvent) (text : List UInt8 × List UInt8) : List UInt8 × List UInt8 :=
  match event.type with
  | .char => if text.1.length + text.2.length < 127 then (text.1 ++ [event.ch], text.2) else text
  | .backspace => (text.1.dropLast, text.2)
  | .delete => (text.1, text.2.tail)
  | .left => (text.1.dropLast, text.1.drop (text.1.length - 1) ++ text.2)
  | .right => (text.1 ++ text.2.take 1, text.2.tail)
  | _ => text

def Editing (event : KeyEvent) : Prop :=
  (event.type = .char ∧ event.ch ≠ 0) ∨ event.type = .backspace ∨ event.type = .delete ∨
    event.type = .left ∨
    event.type = .right

structure Edits (ed : LineEditor) (left right : List UInt8) : Prop where
  line : Holds ed.line (left ++ right)
  len : ed.len = left.length + right.length
  cursor : ed.cursor = left.length
  max : ed.len ≤ 127

variable {ed : LineEditor} {left right t : List UInt8} {c : UInt8} {r : Cells} {s : Shell}

theorem lineText_of_holds (h : Holds r t) (ht : t.length ≤ 127) : lineText r = t := by
  rw [lineText, shellLineLen, h.strlenFrom (Nat.zero_le _) (by rw [shellMaxLine]; omega), h.map_range]

theorem copyLine_holds (h : Holds r t) (ht : t.length ≤ 127) (dst : Cells) :
    Holds (shellCopyLine dst r) t :=
  h.copy ht dst

theorem streq_iff {r' : Cells} {t' : List UInt8} (h : Holds r t) (h' : Holds r' t')
    (ht : t.length ≤ 127) :
    streq r r' = true ↔ t = t' :=
  h.sameText h' (Nat.zero_le _) (Nat.zero_le _) (fun _ hj => absurd hj (Nat.not_lt_zero _))
    (by rw [shellMaxLine]; omega)

namespace Edits

theorem sides_eq (h : Edits ed left right) : sides ed = (left, right) := by
  rw [sides, h.cursor, h.len, Nat.add_sub_cancel_left]
  congr 1
  · apply List.ext_getElem (by simp)
    intro i hi hi'
    simp only [List.getElem_map, List.getElem_range]
    rw [h.line.get (by rw [List.length_append]; omega), List.getElem_append_left hi']
  · exact h.line.drop.map_range

theorem text_eq (h : Edits ed left right) : lineText ed.line = left ++ right :=
  lineText_of_holds h.line (by rw [List.length_append, ← h.len]; exact h.max)

theorem insert (h : Edits ed left right) (hc : c ≠ 0) (hroom : ed.len < 127) :
    Edits (shellEditorInsert ed c) (left ++ [c]) right := by
  have hlen := h.len
  have hshift : ∀ j ≤ left.length + right.length + 1,
      put (put (openGap right.length ed.line left.length) left.length c)
        (left.length + right.length + 1) 0 j =
        put (openGap (right.length + 1) ed.line left.length) left.length c j := by
    intro j hj
    simp only [put_apply, openGap_apply]
    by_cases hlast : j = left.length + right.length + 1
    · have hzero := h.line.zero
      rw [List.length_append] at hzero
      rw [if_pos hlast, if_neg (by omega), if_pos (by omega), hlast, Nat.add_sub_cancel, hzero]
    · rw [if_neg hlast]
      by_cases hcur : j = left.length
      · rw [if_pos hcur, if_pos hcur]
      · rw [if_neg hcur, if_neg hcur]
        by_cases hin : left.length < j ∧ j ≤ left.length + right.length
        · rw [if_pos hin, if_pos (by omega)]
        · rw [if_neg hin, if_neg (by omega)]
  unfold shellEditorInsert
  rw [if_neg (by rw [shellMaxLine]; omega)]
  constructor
  · simp only [h.cursor, hlen, Nat.add_sub_cancel_left]
    rw [List.append_assoc]
    refine (h.line.insert hc).of_cells fun i hi => hshift i ?_
    simp only [List.length_append, List.length_cons] at hi
    omega
  · simp only [List.length_append, List.length_singleton]
    omega
  · simp [h.cursor]
  · exact hroom

theorem insert_full (hfull : ¬ ed.len < 127) : shellEditorInsert ed c = ed := by
  rw [shellEditorInsert, if_pos (by rw [shellMaxLine]; omega)]

theorem backspace (h : Edits ed (left ++ [c]) right) : Edits (shellEditorBackspace ed) left right := by
  have hlen := h.len
  have hcursor := h.cursor
  have hmax := h.max
  rw [List.length_append, List.length_singleton] at hlen hcursor
  have hgap : ed.len - (ed.cursor - 1) = right.length + 1 := by omega
  have hprev : ed.cursor - 1 = left.length := by omega
  have hline := h.line
  rw [List.append_assoc] at hline
  unfold shellEditorBackspace
  rw [if_neg (by omega), hgap, hprev]
  exact ⟨hline.remove, by dsimp only; omega, rfl, by dsimp only; omega⟩

theorem backspace_start (h : Edits ed [] right) : shellEditorBackspace ed = ed := by
  have hcursor : ed.cursor = 0 := h.cursor
  rw [shellEditorBackspace, if_pos hcursor]

theorem delete (h : Edits ed left (c :: right)) : Edits (shellEditorDelete ed) left right := by
  have hlen := h.len
  have hmax := h.max
  rw [List.length_cons] at hlen
  have hgap : ed.len - ed.cursor = right.length + 1 := by rw [hlen, h.cursor]; omega
  unfold shellEditorDelete
  rw [if_neg (by rw [hlen, h.cursor]; omega), hgap, h.cursor]
  exact ⟨h.line.remove, by dsimp only; omega, rfl, by dsimp only; omega⟩

theorem delete_end (h : Edits ed left []) : shellEditorDelete ed = ed := by
  rw [shellEditorDelete, if_pos (by rw [h.len, h.cursor]; exact le_rfl)]

theorem set (ed : LineEditor) (h : Holds r t) (ht : t.length ≤ 127) :
    Edits (shellEditorSet ed r) t [] := by
  have hcopy := copyLine_holds h ht ed.line
  have hlen : shellLineLen (shellCopyLine ed.line r) = t.length :=
    hcopy.strlenFrom (Nat.zero_le _) (by rw [shellMaxLine]; omega)
  unfold shellEditorSet
  simp only [hlen]
  refine ⟨?_, rfl, rfl, ht⟩
  rw [List.append_nil]
  exact hcopy

theorem reset (ed : LineEditor) : Edits (shellEditorReset ed) [] [] :=
  have hzero : (shellEditorReset ed).line 0 = 0 := by simp [shellEditorReset]
  ⟨holds_nil hzero, rfl, rfl, Nat.zero_le _⟩

theorem move (h : Edits ed left right) {left' right' : List UInt8}
    (heq : left' ++ right' = left ++ right) :
    Edits { ed with cursor := left'.length } left' right' := by
  have hlength := congrArg List.length heq
  simp only [List.length_append] at hlength
  refine ⟨?_, ?_, rfl, h.max⟩
  · rw [heq]
    exact h.line
  · rw [hlength]
    exact h.len

theorem rendered (h : Edits ed left right) (n : ℕ) : Edits { ed with renderedLen := n } left right :=
  ⟨h.line, h.len, h.cursor, h.max⟩

theorem render (h : Edits s.editor left right) : Edits (shellEditorRender s).editor left right := by
  rw [shellEditorRender]
  split_ifs
  · exact h.rendered _
  · exact h

end Edits

theorem editing_spec (h : Edits s.editor left right) {event : KeyEvent} (hevent : Editing event)
    (command : List ServiceCall) :
    Edits (shellProcessEvent s event command).editor (edit event (left, right)).1
      (edit event (left, right)).2 ∧
      ∃ ed, shellProcessEvent s event command = { s with editor := ed } := by
  have hrender : ∀ ed : LineEditor, ∃ ed',
    shellEditorRender { s with editor := ed } = { s with editor := ed' } := by
    intro ed
    rw [shellEditorRender]
    split_ifs
    · exact ⟨_, rfl⟩
    · exact ⟨_, rfl⟩
  obtain ⟨type, ch⟩ := event
  rcases hevent with ⟨htype, hch⟩ | htype | htype | htype | htype <;> simp only at htype <;>
    subst htype <;>
    simp only [shellProcessEvent, edit]
  · refine ⟨?_, hrender _⟩
    have hlen := h.len
    by_cases hroom : left.length + right.length < 127
    · rw [if_pos hroom]
      exact Edits.render (h.insert hch (by omega))
    · rw [if_neg hroom, Edits.insert_full (by omega)]
      exact Edits.render h
  · refine ⟨?_, hrender _⟩
    rcases List.eq_nil_or_concat' left with rfl | ⟨front, c, rfl⟩
    · rw [h.backspace_start]
      exact Edits.render h
    · rw [List.dropLast_concat]
      exact Edits.render h.backspace
  · refine ⟨?_, hrender _⟩
    cases right with
    | nil =>
      rw [h.delete_end]
      exact Edits.render h
    | cons c right => exact Edits.render h.delete
  · rcases List.eq_nil_or_concat' left with rfl | ⟨front, c, rfl⟩
    · rw [if_neg (by rw [h.cursor]; exact Nat.lt_irrefl 0)]
      exact ⟨h, s.editor, rfl⟩
    · have hcursor := h.cursor
      rw [List.length_append, List.length_singleton] at hcursor
      have hmoved : Edits { s.editor with cursor := front.length } front (c :: right) :=
        h.move (by simp)
      have hprev : s.editor.cursor - 1 = front.length := by omega
      rw [if_pos (by omega), hprev]
      refine ⟨?_, hrender _⟩
      simpa using Edits.render hmoved
  · cases right with
    | nil =>
      rw [if_neg (by rw [h.cursor, h.len]; simp)]
      refine ⟨?_, s.editor, rfl⟩
      simpa using h
    | cons c right =>
      have hmoved : Edits { s.editor with cursor := (left ++ [c]).length } (left ++ [c]) right :=
        h.move (by simp)
      have hnext : s.editor.cursor + 1 = (left ++ [c]).length := by simp [h.cursor]
      rw [if_pos (by rw [h.cursor, h.len, List.length_cons]; omega), hnext]
      exact ⟨Edits.render hmoved, hrender _⟩

end ShellEditor
