import Mathlib.Algebra.Group.Int.Defs
import Mathlib.Algebra.Group.Nat.Defs
import Mathlib.Data.Nat.Notation
import Mathlib.Data.Int.Notation
import Mathlib.Logic.Function.Basic
import Mathlib.Tactic.Common

/-! # The terminal

`k64_terminal.c`: characters and escape sequences on a screen of 80 columns and 25 rows. Every index at
which the screen buffer is used is noted. -/
namespace Terminal

def k64Cols : ℤ := 80
def k64Rows : ℤ := 25

def toInt (i : ℤ) : ℤ := (i + 2 ^ 31) % 2 ^ 32 - 2 ^ 31

def code (c : Char) : UInt8 := c.val.toUInt8

inductive EscapeState where
  | normal | esc | csi | charset
  deriving DecidableEq, Repr

/-- `params` holds the parameters that are complete, at most eight. -/
structure AnsiState where
  state : EscapeState
  params : List ℤ
  current : ℤ
  haveCurrent : Bool
  privateMode : Bool
  deriving DecidableEq, Repr

/-- `used` are the indices at which the buffer was read or written, `position` is the cursor of the
hardware, and `serial` what was mirrored. -/
structure Term where
  vga : ℤ → UInt16
  used : List ℤ
  cursorX : ℤ
  cursorY : ℤ
  position : UInt16
  currentColor : UInt8
  mirrorSerial : Bool
  serial : List UInt8
  screenEnabled : Bool
  cursorVisible : Bool
  ansi : AnsiState

/-- A `char` is signed. -/
def vgaEntry (c color : UInt8) : UInt16 :=
  (if c < 0x80 then c.toUInt16 else 0xFF00 ||| c.toUInt16) ||| (color.toUInt16 <<< 8)

def Term.put (t : Term) (i : ℤ) (entry : UInt16) : Term :=
  { t with vga := Function.update t.vga i entry, used := i :: t.used }

def Term.copyCell (t : Term) (dst src : ℤ) : Term :=
  { t with vga := Function.update t.vga dst (t.vga src), used := dst :: src :: t.used }

def Term.blank (t : Term) (i : ℤ) : Term := t.put i (vgaEntry (code ' ') t.currentColor)

/-- The loop from `lo` up to `hi`. -/
def forRange (lo hi : ℤ) (body : ℤ → Term → Term) (t : Term) : Term :=
  (List.range (hi - lo).toNat).foldl (fun t (k : ℕ) => body (lo + k) t) t

def termClearLineFrom (y x0 x1 : ℤ) (t : Term) : Term :=
  if !t.screenEnabled ∨ y < 0 ∨ k64Rows ≤ y then t
  else
    let x0 := if x0 < 0 then 0 else x0
    let x1 := if k64Cols ≤ x1 then k64Cols - 1 else x1
    forRange x0 (x1 + 1) (fun x t => t.blank (y * k64Cols + x)) t

def termClearScreenRegion (y0 x0 y1 x1 : ℤ) (t : Term) : Term :=
  forRange y0 (y1 + 1) (fun y t =>
    termClearLineFrom y (if y = y0 then x0 else 0) (if y = y1 then x1 else k64Cols - 1) t) t

def termDeleteChars (count : ℤ) (t : Term) : Term :=
  if !t.screenEnabled ∨ count ≤ 0 ∨ t.cursorY < 0 ∨ k64Rows ≤ t.cursorY then t
  else
    let count := if k64Cols - t.cursorX < count then k64Cols - t.cursorX else count
    let row := t.cursorY * k64Cols
    let t := forRange t.cursorX (k64Cols - count) (fun x t => t.copyCell (row + x) (row + x + count)) t
    forRange (k64Cols - count) k64Cols (fun x t => t.blank (row + x)) t

def termSyncCursor (t : Term) : Term :=
  if !t.screenEnabled ∨ !t.cursorVisible then t
  else { t with position := UInt16.ofNat ((t.cursorY * k64Cols + t.cursorX) % 65536).toNat }

def termEnableCursor (t : Term) : Term :=
  if !t.screenEnabled then t else termSyncCursor { t with cursorVisible := true }

def termSetCursorVisible (visible : Bool) (t : Term) : Term :=
  let t := { t with cursorVisible := visible }
  if !t.screenEnabled ∨ !visible then t else termEnableCursor t

def termSetCursor (x y : ℤ) (t : Term) : Term :=
  let x := if x < 0 then 0 else x
  let x := if k64Cols ≤ x then k64Cols - 1 else x
  let y := if y < 0 then 0 else y
  let y := if k64Rows ≤ y then k64Rows - 1 else y
  termSyncCursor { t with cursorX := x, cursorY := y }

def termScroll (t : Term) : Term :=
  if !t.screenEnabled then { t with cursorY := k64Rows - 1 }
  else
    let t := forRange 1 k64Rows (fun y => forRange 0 k64Cols fun x t =>
      t.copyCell ((y - 1) * k64Cols + x) (y * k64Cols + x)) t
    let t := forRange 0 k64Cols (fun x t => t.blank ((k64Rows - 1) * k64Cols + x)) t
    termSyncCursor { t with cursorY := k64Rows - 1 }

def termClear (t : Term) : Term :=
  if !t.screenEnabled then { t with cursorX := 0, cursorY := 0 }
  else
    let t := forRange 0 k64Rows (fun y => forRange 0 k64Cols fun x t => t.blank (y * k64Cols + x)) t
    termSyncCursor { t with cursorX := 0, cursorY := 0 }

def termNewline (t : Term) : Term :=
  let y := toInt (t.cursorY + 1)
  let t := { t with cursorX := 0, cursorY := y }
  if k64Rows ≤ y then termScroll t else termSyncCursor t

def Term.mirror (t : Term) (c : UInt8) : Term :=
  if t.mirrorSerial then { t with serial := t.serial ++ (if c = 10 then [13] else []) ++ [c] } else t

/-- One column on; `shown` follows where the line goes on. -/
def advance (shown : Term → Term) (t : Term) : Term :=
  let x := toInt (t.cursorX + 1)
  let t := { t with cursorX := x }
  if k64Cols ≤ x then termNewline t else shown t

/-- A character that stands on the screen. -/
def putGlyph (c : UInt8) (t : Term) : Term :=
  if !t.screenEnabled then advance id t
  else
    advance termSyncCursor
      (t.put (toInt (t.cursorY * k64Cols + t.cursorX)) (vgaEntry c t.currentColor))

/-- `k64_term_putc` for all but the tab. -/
def putPlain (c : UInt8) (t : Term) : Term :=
  let t := t.mirror c
  if c = 7 then t
  else if c = 8 then
    termSyncCursor (if 0 < t.cursorX then { t with cursorX := t.cursorX - 1 } else t)
  else if c = 10 then termNewline t
  else if c = 13 then termSyncCursor { t with cursorX := 0 }
  else putGlyph c t

/-- The loop of a tab. Where the fuel ends it is still running, and the error is the state it is in. -/
def tabLoop : ℕ → ℤ → Term → Except Term Term
  | 0, next, t => if t.cursorX < next then .error t else .ok t
  | fuel + 1, next, t =>
    if t.cursorX < next then tabLoop fuel next (putPlain (code ' ') t) else .ok t

def k64TermPutc (fuel : ℕ) (c : UInt8) (t : Term) : Except Term Term :=
  if c = 9 then
    let t := t.mirror c
    tabLoop fuel (toInt (t.cursorX + 8) / 8 * 8) t
  else .ok (putPlain c t)

def k64TermWrite (fuel : ℕ) (s : List UInt8) (t : Term) : Except Term Term :=
  s.foldlM (fun t c => k64TermPutc fuel c t) t

def termAnsiReset (st : AnsiState) : AnsiState := { st with
  state := .normal, params := [], current := 0, haveCurrent := false, privateMode := false }

def termAnsiFinishParam (st : AnsiState) : AnsiState :=
  if 8 ≤ st.params.length then st
  else { st with
    params := st.params ++ [if st.haveCurrent then st.current else 0]
    current := 0
    haveCurrent := false }

def termAnsiParam (st : AnsiState) (idx : ℕ) (fallback : ℤ) : ℤ :=
  match st.params[idx]? with
  | none => fallback
  | some p => if p = 0 then fallback else p

def termColor (fg bg : UInt8) : UInt8 := (bg <<< 4) ||| (fg &&& 0x0F)

def ansiColors : List UInt8 := [0, 4, 2, 6, 1, 5, 3, 7]

def sgrColor (t : Term) (p : ℤ) : Term :=
  if p = 0 then { t with currentColor := termColor 7 0 }
  else if 30 ≤ p ∧ p ≤ 37 then
    { t with currentColor := termColor (ansiColors.getD (p - 30).toNat 0) (t.currentColor >>> 4) }
  else if 40 ≤ p ∧ p ≤ 47 then
    { t with currentColor := termColor (t.currentColor &&& 0x0F) (ansiColors.getD (p - 40).toNat 0) }
  else t

def termAnsiSgr (st : AnsiState) (t : Term) : Term :=
  if st.params = [] then { t with currentColor := termColor 7 0 } else st.params.foldl sgrColor t

def eraseDisplay (n : ℤ) (t : Term) : Term :=
  if n = 2 ∨ n = 3 then termClear t
  else if n = 1 then termClearScreenRegion 0 0 t.cursorY t.cursorX t
  else termClearScreenRegion t.cursorY t.cursorX (k64Rows - 1) (k64Cols - 1) t

def eraseLine (n : ℤ) (t : Term) : Term :=
  if n = 2 then termClearLineFrom t.cursorY 0 (k64Cols - 1) t
  else if n = 1 then termClearLineFrom t.cursorY 0 t.cursorX t
  else termClearLineFrom t.cursorY t.cursorX (k64Cols - 1) t

def setMode (st : AnsiState) (on : Bool) (t : Term) : Term :=
  let n := termAnsiParam st 0 0
  if st.privateMode ∧ n = 25 then termSetCursorVisible on t
  else if st.privateMode ∧ n = 1049 then termClear t
  else t

/-- The sequences that do not move the cursor by a number. -/
def csiOther (st : AnsiState) (final : UInt8) (t : Term) : Term :=
  if final = code 'G' then termSetCursor (toInt (termAnsiParam st 0 1 - 1)) t.cursorY t
  else if final = code 'H' ∨ final = code 'f' then
    termSetCursor (toInt (termAnsiParam st 1 1 - 1)) (toInt (termAnsiParam st 0 1 - 1)) t
  else if final = code 'd' then termSetCursor t.cursorX (toInt (termAnsiParam st 0 1 - 1)) t
  else if final = code 'J' then eraseDisplay (termAnsiParam st 0 0) t
  else if final = code 'K' then eraseLine (termAnsiParam st 0 0) t
  else if final = code 'P' then termDeleteChars (termAnsiParam st 0 1) t
  else if final = code 'h' ∨ final = code 'l' then setMode st (final == code 'h') t
  else if final = code 'm' then termAnsiSgr st t
  else t

/-- What a complete sequence does, by its last character. -/
def csiAction (st : AnsiState) (final : UInt8) (t : Term) : Term :=
  if final = code 'A' then
    let y := toInt (t.cursorY - termAnsiParam st 0 1)
    termSyncCursor { t with cursorY := if y < 0 then 0 else y }
  else if final = code 'B' then
    let y := toInt (t.cursorY + termAnsiParam st 0 1)
    termSyncCursor { t with cursorY := if k64Rows ≤ y then k64Rows - 1 else y }
  else if final = code 'C' then
    let x := toInt (t.cursorX + termAnsiParam st 0 1)
    termSyncCursor { t with cursorX := if k64Cols ≤ x then k64Cols - 1 else x }
  else if final = code 'D' then
    let x := toInt (t.cursorX - termAnsiParam st 0 1)
    termSyncCursor { t with cursorX := if x < 0 then 0 else x }
  else csiOther st final t

/-- The last number is complete in front of the last character, whichever it is. -/
def termAnsiHandleCsi (final : UInt8) (t : Term) : Term :=
  let st := termAnsiFinishParam t.ansi
  { csiAction st final t with ansi := termAnsiReset st }

def termAnsiPutc (fuel : ℕ) (c : UInt8) (t : Term) : Except Term Term :=
  match t.ansi.state with
  | .normal =>
    if c = 0x1B then .ok { t with ansi := { t.ansi with state := .esc } } else k64TermPutc fuel c t
  | .esc =>
    if c = code '[' then .ok { t with ansi := { termAnsiReset t.ansi with state := .csi } }
    else if c = code '(' ∨ c = code ')' then
      .ok { t with ansi := { t.ansi with state := .charset } }
    else if c = code 'c' then .ok { termClear t with ansi := termAnsiReset t.ansi }
    else .ok { t with ansi := termAnsiReset t.ansi }
  | .charset => .ok { t with ansi := termAnsiReset t.ansi }
  | .csi =>
    if c = code '?' then .ok { t with ansi := { t.ansi with privateMode := true } }
    else if code '0' ≤ c ∧ c ≤ code '9' then
      .ok { t with ansi := { t.ansi with
        current := toInt (t.ansi.current * 10 + (c.toNat - 48))
        haveCurrent := true } }
    else if c = code ';' then .ok { t with ansi := termAnsiFinishParam t.ansi }
    else .ok (termAnsiHandleCsi c t)

def k64TermWriteAnsi (fuel : ℕ) (data : List UInt8) (t : Term) : Except Term Term :=
  data.foldlM (fun t c => termAnsiPutc fuel c t) t

end Terminal
