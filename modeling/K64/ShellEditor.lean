import K64.ZeroText
import K64.Keyboard

/-! # The line editor of the shell

`k64_shell.c`: a line with a cursor in an array of characters, a ring of entered lines, and the keys that
edit the one and walk through the other. The drawing of the line is left out but for its length. -/
namespace ShellEditor

open ZeroText Keyboard

def shellMaxLine : ℕ := 128

def shellHistoryMax : ℕ := 16

/-- `shell_editor_t`. -/
structure LineEditor where
  line : Cells
  len : ℕ
  cursor : ℕ
  renderedLen : ℕ

/-- `shell_runtime` and the history. No index is the -1 of the source. -/
structure Shell where
  active : Bool
  editor : LineEditor
  history : ℕ → Cells
  historyCount : ℕ
  historyNext : ℕ
  historyIndex : Option ℕ
  savedLine : Cells
  savedLineValid : Bool

def initial : Shell := ⟨false, ⟨fun _ => 0, 0, 0, 0⟩, fun _ _ => 0, 0, 0, none, fun _ => 0, false⟩

/-- `shell_line_len` of an array of the size of a line. -/
def shellLineLen (s : Cells) : ℕ := strlenFrom shellMaxLine s 0

def shellCopyLine (dst src : Cells) : Cells := copyText (shellMaxLine - 1) dst 0 src 0

/-- `k64_streq` of two lines. -/
def streq (a b : Cells) : Bool := sameText shellMaxLine a b 0

def Shell.last (s : Shell) : ℕ := (s.historyNext + shellHistoryMax - 1) % shellHistoryMax

def Shell.oldest (s : Shell) : ℕ := (s.historyNext + shellHistoryMax - s.historyCount) % shellHistoryMax

def shellHistoryAdd (s : Shell) (line : Cells) : Shell :=
  if line 0 = 0 then s
  else if 0 < s.historyCount ∧ streq (s.history s.last) line = true then s
  else { s with
    history := Function.update s.history s.historyNext (shellCopyLine (s.history s.historyNext) line)
    historyNext := (s.historyNext + 1) % shellHistoryMax
    historyCount := if s.historyCount < shellHistoryMax then s.historyCount + 1 else s.historyCount }

def shellEditorSet (editor : LineEditor) (line : Cells) : LineEditor :=
  let copied := shellCopyLine editor.line line
  { editor with line := copied, len := shellLineLen copied, cursor := shellLineLen copied }

def shellEditorReset (editor : LineEditor) : LineEditor :=
  { line := put editor.line 0 0, len := 0, cursor := 0, renderedLen := 0 }

def shellEditorInsert (editor : LineEditor) (ch : UInt8) : LineEditor :=
  if shellMaxLine - 1 ≤ editor.len then editor
  else
    let shifted := put (openGap (editor.len - editor.cursor) editor.line editor.cursor) editor.cursor ch
    { editor with
      line := put shifted (editor.len + 1) 0
      len := editor.len + 1
      cursor := editor.cursor + 1 }

def shellEditorBackspace (editor : LineEditor) : LineEditor :=
  if editor.cursor = 0 then editor
  else
    { editor with
      line := closeGap (editor.len - (editor.cursor - 1)) editor.line (editor.cursor - 1)
      cursor := editor.cursor - 1
      len := editor.len - 1 }

def shellEditorDelete (editor : LineEditor) : LineEditor :=
  if editor.len ≤ editor.cursor then editor
  else
    { editor with
      line := closeGap (editor.len - editor.cursor) editor.line editor.cursor
      len := editor.len - 1 }

/-- `shell_history_step` with direction -1. -/
def shellHistoryUp (s : Shell) : Shell :=
  if s.historyCount = 0 then s
  else
    match s.historyIndex with
    | none =>
      { s with
        savedLine := shellCopyLine s.savedLine s.editor.line
        savedLineValid := true
        historyIndex := some s.last
        editor := shellEditorSet s.editor (s.history s.last) }
    | some i =>
      let i := if i ≠ s.oldest then (i + shellHistoryMax - 1) % shellHistoryMax else i
      { s with historyIndex := some i, editor := shellEditorSet s.editor (s.history i) }

/-- `shell_history_step` with direction 1. -/
def shellHistoryDown (s : Shell) : Shell :=
  if s.historyCount = 0 then s
  else
    match s.historyIndex with
    | none => s
    | some i =>
      if i = s.last then
        if s.savedLineValid then
          { s with historyIndex := none, editor := shellEditorSet s.editor s.savedLine }
        else { s with historyIndex := none, editor := shellEditorReset s.editor }
      else
        let i := (i + 1) % shellHistoryMax
        { s with historyIndex := some i, editor := shellEditorSet s.editor (s.history i) }

/-- `shell_editor_render`, whose characters are left out. -/
def shellEditorRender (s : Shell) : Shell :=
  if s.active then { s with editor := { s.editor with renderedLen := s.editor.len } } else s

def shellServiceStart (s : Shell) : Shell :=
  { s with
    active := true
    editor := shellEditorReset s.editor
    historyIndex := none
    savedLineValid := false }

def shellServiceStop (s : Shell) : Shell := { s with active := false }

/-- A command does not touch the editor but by starting and stopping the service. -/
inductive ServiceCall where
  | start
  | stop

def ServiceCall.run (s : Shell) : ServiceCall → Shell
  | .start => shellServiceStart s
  | .stop => shellServiceStop s

/-- `shell_process_event`, with what the command of an entered line does to the service. -/
def shellProcessEvent (s : Shell) (event : KeyEvent) (command : List ServiceCall) : Shell :=
  match event.type with
  | .enter =>
    let s := command.foldl ServiceCall.run (shellHistoryAdd s s.editor.line)
    if s.active then
      shellEditorRender
        { s with editor := shellEditorReset s.editor, historyIndex := none, savedLineValid := false }
    else s
  | .backspace => shellEditorRender { s with editor := shellEditorBackspace s.editor }
  | .delete => shellEditorRender { s with editor := shellEditorDelete s.editor }
  | .left =>
    if 0 < s.editor.cursor then
      shellEditorRender { s with editor := { s.editor with cursor := s.editor.cursor - 1 } }
    else s
  | .right =>
    if s.editor.cursor < s.editor.len then
      shellEditorRender { s with editor := { s.editor with cursor := s.editor.cursor + 1 } }
    else s
  | .up => shellEditorRender (shellHistoryUp s)
  | .down => shellEditorRender (shellHistoryDown s)
  | .char => shellEditorRender { s with editor := shellEditorInsert s.editor event.ch }
  | _ => s

end ShellEditor
