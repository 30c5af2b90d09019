import K64.ZeroText
import Mathlib.Data.Int.Basic

/-! # The text editor

The buffer of `userland/bin/edit.c`: an array of lines, each a row of characters ended by a zero, with a
cursor. Drawing and its scrolling offsets are left out. -/
namespace TextEditor

open ZeroText

def editMaxLines : ℕ := 256

def editMaxCols : ℕ := 192

def bufferSize : ℕ := editMaxLines * editMaxCols

structure Editor where
  lines : ℕ → Cells
  lineCount : ℕ
  cx : ℕ
  cy : ℕ
  dirty : Bool
  quitConfirm : Bool
  status : String

inductive Key where
  | left
  | right
  | up
  | down
deriving DecidableEq

def setStatus (e : Editor) (text : String) : Editor := { e with status := text }

def setRow (lines : ℕ → Cells) (row : ℕ) (r : Cells) : ℕ → Cells := Function.update lines row r

/-- `k64_strlen` on a row, which has a zero. -/
def strlen (r : Cells) : ℕ := strlenFrom editMaxCols r 0

/-- `k64_strcpy` of a row that is read from `i` on. -/
def strcpy (dst src : Cells) (i : ℕ) : Cells := copyText editMaxCols dst 0 src i

/-- `k64_strcat` of two rows. -/
def strcat (dst src : Cells) : Cells := copyText editMaxCols dst (strlen dst) src 0

def lineLen (e : Editor) (row : ℤ) : ℕ :=
  if row < 0 ∨ (e.lineCount : ℤ) ≤ row then 0 else strlen (e.lines row.toNat)

/-- `clamp_cursor`, on the cursor that was moved to a place. -/
def clampCursor (e : Editor) (cx cy : ℤ) : Editor :=
  let cy := if cy < 0 then 0 else cy
  let cy := if (e.lineCount : ℤ) ≤ cy then (e.lineCount : ℤ) - 1 else cy
  let len : ℤ := lineLen e cy
  let cx := if cx < 0 then 0 else cx
  let cx := if len < cx then len else cx
  { e with cx := cx.toNat, cy := cy.toNat }

/-- The loop of `load_file` over the bytes that were read, at row `r` and column `c`: the rows and the
last one of them. -/
def loadBytes : List UInt8 → (ℕ → Cells) → ℕ → ℕ → (ℕ → Cells) × ℕ
  | [], lines, r, _ => (lines, r)
  | ch :: rest, lines, r, c =>
    if editMaxLines ≤ r then (lines, r)
    else if ch = 13 then loadBytes rest lines r c
    else if ch = 10 then
      let lines := setRow lines r (put (lines r) c 0)
      if editMaxLines ≤ r + 1 then (lines, r)
      else loadBytes rest (setRow lines (r + 1) (put (lines (r + 1)) 0 0)) (r + 1) 0
    else if c + 1 < editMaxCols then
      loadBytes rest (setRow lines r (put (put (lines r) c ch) (c + 1) 0)) r (c + 1)
    else loadBytes rest lines r c

/-- What `k64_open` and `k64_read` made of the path: no descriptor, or the bytes read (none on an error). -/
abbrev Opened := Option (List UInt8)

/-- `k64_read` of a file into the buffer: at most its size less one byte. -/
def readFile (contents : List UInt8) : Opened := some (contents.take (bufferSize - 1))

def loadFile (e : Editor) (file : Opened) : Editor :=
  let e := { e with lineCount := 1, lines := setRow e.lines 0 (put (e.lines 0) 0 0) }
  match file with
  | none => setStatus e "New file. Ctrl-S saves, Ctrl-Q quits."
  | some [] => setStatus e "Empty file"
  | some bytes =>
    let (lines, r) := loadBytes bytes e.lines 0 0
    setStatus { e with lines := lines, lineCount := r + 1 } "Loaded"

/-- The inner loop of `save_file`: a row is appended, from `x` on. -/
def saveRow : ℕ → Cells → ℕ → List UInt8 → List UInt8
  | 0, _, _, out => out
  | fuel + 1, r, x, out =>
    if r x ≠ 0 ∧ out.length + 1 < bufferSize then saveRow fuel r (x + 1) (out ++ [r x]) else out

/-- The loop of `save_file` over so many rows from `y` on. -/
def saveRows (lines : ℕ → Cells) : ℕ → ℕ → List UInt8 → List UInt8
  | 0, _, out => out
  | n + 1, y, out =>
    let out := saveRow editMaxCols (lines y) 0 out
    saveRows lines n (y + 1) (if out.length + 1 < bufferSize then out ++ [10] else out)

/-- The bytes that `save_file` hands to `k64_write_file`. -/
def savedBytes (e : Editor) : List UInt8 := saveRows e.lines e.lineCount 0 []

/-- `save_file`, with the answer of `k64_write_file`: what is written, and the editor. -/
def saveFile (e : Editor) (written : Bool) : List UInt8 × Bool × Editor :=
  if written then
    (savedBytes e, true, setStatus { e with dirty := false, quitConfirm := false } "Saved")
  else (savedBytes e, false, setStatus e "Save failed")

def insertChar (e : Editor) (ch : UInt8) : Editor :=
  let len := lineLen e e.cy
  if editMaxCols ≤ len + 1 then setStatus e "Line too long"
  else
    let row := put (openGap (len + 1 - e.cx) (e.lines e.cy) e.cx) e.cx ch
    setStatus { e with
      lines := setRow e.lines e.cy row
      cx := e.cx + 1
      dirty := true
      quitConfirm := false } ""

/-- Rows `a + 1`, …, `a + n` take the row above them, the last one first. -/
def rowsDown : ℕ → (ℕ → Cells) → ℕ → (ℕ → Cells)
  | 0, lines, _ => lines
  | n + 1, lines, a => rowsDown n
        (setRow lines (a + n + 1) (strcpy (lines (a + n + 1)) (lines (a + n)) 0)) a

/-- The `n` rows from `y` on take the row below them, the first one first. -/
def rowsUp : ℕ → (ℕ → Cells) → ℕ → (ℕ → Cells)
  | 0, lines, _ => lines
  | n + 1, lines, y => rowsUp n (setRow lines y (strcpy (lines y) (lines (y + 1)) 0)) (y + 1)

def insertNewline (e : Editor) : Editor :=
  if editMaxLines ≤ e.lineCount then setStatus e "File line limit reached"
  else
    let lines := rowsDown (e.lineCount - (e.cy + 1)) e.lines (e.cy + 1)
    let lines := setRow lines (e.cy + 1) (strcpy (lines (e.cy + 1)) (lines e.cy) e.cx)
    let lines := setRow lines e.cy (put (lines e.cy) e.cx 0)
    setStatus { e with
      lines := lines
      cy := e.cy + 1
      cx := 0
      lineCount := e.lineCount + 1
      dirty := true
      quitConfirm := false } ""

def deleteChar (e : Editor) : Editor :=
  let len := lineLen e e.cy
  if e.cx < len then
    let row := closeGap (len - e.cx) (e.lines e.cy) e.cx
    { e with lines := setRow e.lines e.cy row, dirty := true, quitConfirm := false }
  else if e.cy + 1 < e.lineCount then
    if editMaxCols ≤ len + lineLen e (e.cy + 1) then setStatus e "Cannot join: line too long"
    else
      let lines := setRow e.lines e.cy (strcat (e.lines e.cy) (e.lines (e.cy + 1)))
      { e with
        lines := rowsUp (e.lineCount - (e.cy + 1) - 1) lines (e.cy + 1)
        lineCount := e.lineCount - 1
        dirty := true
        quitConfirm := false }
  else e

def backspace (e : Editor) : Editor :=
  if 0 < e.cx then deleteChar { e with cx := e.cx - 1 }
  else if 0 < e.cy then
    let prevLen := lineLen e (e.cy - 1)
    if editMaxCols ≤ prevLen + lineLen e e.cy then setStatus e "Cannot join: line too long"
    else
      let lines := setRow e.lines (e.cy - 1) (strcat (e.lines (e.cy - 1)) (e.lines e.cy))
      { e with
        lines := rowsUp (e.lineCount - e.cy - 1) lines e.cy
        cy := e.cy - 1
        cx := prevLen
        lineCount := e.lineCount - 1
        dirty := true
        quitConfirm := false }
  else e

def moveCursor (e : Editor) (key : Key) : Editor :=
  let moved :=
    match key with
    | .left =>
      if 0 < e.cx then clampCursor e (e.cx - 1) e.cy
      else if 0 < e.cy then clampCursor e (lineLen e (e.cy - 1)) (e.cy - 1)
      else clampCursor e e.cx e.cy
    | .right =>
      if e.cx < lineLen e e.cy then clampCursor e (e.cx + 1) e.cy
      else if e.cy + 1 < e.lineCount then clampCursor e 0 (e.cy + 1)
      else clampCursor e e.cx e.cy
    | .up => clampCursor e e.cx (e.cy - 1)
    | .down => clampCursor e e.cx (e.cy + 1)
  { moved with quitConfirm := false }

end TextEditor
