import K64.ShellHistory
import Mathlib.Logic.Function.Iterate

/-! # Sessions of the shell

Over every sequence of keys the line and the history keep their shape. -/
namespace ShellEditor

open Keyboard

variable {s : Shell} {h entered : List (List UInt8)} {saved left right : List UInt8} {p : ℕ}

theorem Ring.render (hring : Ring s h) : Ring (shellEditorRender s) h := by
  rw [shellEditorRender]
  split_ifs
  · exact hring.of_eq rfl rfl rfl
  · exact hring

theorem Walk.of_eq (hwalk : Walk s h saved p) {s' : Shell} (hindex : s'.historyIndex = s.historyIndex)
    (hcount : s'.historyCount = s.historyCount) (hnext : s'.historyNext = s.historyNext)
    (hsaved : s'.savedLine = s.savedLine) (hvalid : s'.savedLineValid = s.savedLineValid) :
    Walk s' h saved p := by
  refine ⟨hcount ▸ hwalk.le, ?_, fun hp => ?_, hwalk.short⟩
  · rw [hindex, hnext]
    exact hwalk.index
  · rw [hsaved, hvalid]
    exact hwalk.valid hp

theorem Walk.render (hwalk : Walk s h saved p) : Walk (shellEditorRender s) h saved p := by
  rw [shellEditorRender]
  split_ifs
  · exact hwalk.of_eq rfl rfl rfl rfl rfl
  · exact hwalk

theorem Walk.fresh (hindex : s.historyIndex = none) (hsaved : saved.length ≤ 127) : Walk s h saved 0 :=
  ⟨Nat.zero_le _, hindex, fun hne => absurd rfl hne, hsaved⟩

theorem Walk.typed (hwalk : Walk s h saved p) (hedits : Edits s.editor left right) :
    ∃ saved', Walk s h saved' p ∧ (p = 0 → saved' = left ++ right) := by
  by_cases hp : p = 0
  · subst hp
    refine ⟨left ++ right, Walk.fresh hwalk.index ?_, fun _ => rfl⟩
    rw [List.length_append, ← hedits.len]
    exact hedits.max
  · exact ⟨saved, hwalk, fun hzero => absurd hzero hp⟩

theorem service_inv (hinv : (∃ left right, Edits s.editor left right) ∧ Ring s h)
    (calls : List ServiceCall) :
    (∃ left right, Edits (calls.foldl ServiceCall.run s).editor left right) ∧
      Ring (calls.foldl ServiceCall.run s) h := by
  induction calls generalizing s with
  | nil => exact hinv
  | cons call calls ih =>
    refine ih ?_
    cases call with
    | start => exact ⟨⟨[], [], Edits.reset _⟩, hinv.2.of_eq rfl rfl rfl⟩
    | stop => exact ⟨hinv.1, hinv.2.of_eq rfl rfl rfl⟩

theorem Inv.service (hinv : Inv s h) (call : ServiceCall) : Inv (call.run s) h := by
  obtain ⟨hedits, hring⟩ := service_inv ⟨hinv.edits, hinv.ring⟩ [call]
  refine ⟨hedits, hring, fun hactive => ?_⟩
  cases call with
  | start => exact ⟨[], 0, Walk.fresh rfl (Nat.zero_le _)⟩
  | stop => exact absurd hactive Bool.false_ne_true

theorem Inv.enter (hinv : Inv s h) (ch : UInt8) (command : List ServiceCall) :
    Inv (shellProcessEvent s ⟨.enter, ch⟩ command) (remember (lineText s.editor.line) h) := by
  obtain ⟨left, right, hedits⟩ := hinv.edits
  have hshort : (left ++ right).length ≤ 127 := by
    rw [List.length_append, ← hedits.len]
    exact hedits.max
  have hadded := historyAdd_ring hinv.ring hedits.line hshort
  have hedited : (shellHistoryAdd s s.editor.line).editor = s.editor := by
    rw [shellHistoryAdd]
    split_ifs <;> rfl
  rw [hedits.text_eq]
  obtain ⟨hedits', hring⟩ := service_inv ⟨⟨left, right, by rw [hedited]; exact hedits⟩, hadded⟩ command
  simp only [shellProcessEvent]
  split_ifs with hactive
  · have hreset := Edits.reset (command.foldl ServiceCall.run (shellHistoryAdd s s.editor.line)).editor
    refine ⟨⟨[], [], Edits.render hreset⟩, ?_, fun _ => ⟨[], 0, ?_⟩⟩
    · exact Ring.render (hring.of_eq rfl rfl rfl)
    · exact Walk.render (Walk.fresh rfl (Nat.zero_le _))
  · exact ⟨hedits', hring, fun htrue => absurd htrue hactive⟩

theorem Inv.key (hinv : Inv s h) (hactive : s.active = true) {event : KeyEvent}
    (command : List ServiceCall)
    (hchar : event.type = .char → event.ch ≠ 0) (henter : event.type ≠ .enter) :
    Inv (shellProcessEvent s event command) h := by
  obtain ⟨left, right, hedits⟩ := hinv.edits
  obtain ⟨saved₀, p, hwalk₀⟩ := hinv.walk hactive
  obtain ⟨saved, hwalk, hsaved⟩ := hwalk₀.typed hedits
  have hediting : Editing event → Inv (shellProcessEvent s event command) h := by
    intro hevent
    obtain ⟨hedits', ed, heq⟩ := editing_spec hedits hevent command
    refine ⟨⟨_, _, hedits'⟩, ?_, fun _ => ⟨saved, p, ?_⟩⟩
    · rw [heq]
      exact hinv.ring.of_eq rfl rfl rfl
    · rw [heq]
      exact hwalk.of_eq rfl rfl rfl rfl rfl
  obtain ⟨type, ch⟩ := event
  cases type with
  | none => exact hinv
  | tab => exact hinv
  | escape => exact hinv
  | enter => exact absurd rfl henter
  | char => exact hediting (Or.inl ⟨rfl, hchar rfl⟩)
  | backspace => exact hediting (Or.inr (Or.inl rfl))
  | delete => exact hediting (Or.inr (Or.inr (Or.inl rfl)))
  | left => exact hediting (Or.inr (Or.inr (Or.inr (Or.inl rfl))))
  | right => exact hediting (Or.inr (Or.inr (Or.inr (Or.inr rfl))))
  | up =>
    obtain ⟨hwalk', hstep, hshown⟩ := historyUp_walk hinv.ring hwalk hedits hsaved
    have hring := hinv.ring.of_eq hstep.history hstep.count hstep.next
    refine ⟨?_, hring.render, fun _ => ⟨saved, _, hwalk'.render⟩⟩
    by_cases hnone : s.historyCount = 0
    · have hsame : shellHistoryUp s = s := by rw [shellHistoryUp, if_pos hnone]
      simp only [shellProcessEvent, hsame]
      exact ⟨_, _, Edits.render hedits⟩
    · exact ⟨_, _, Edits.render (hshown hnone)⟩
  | down =>
    obtain ⟨hwalk', hstep, hshown, hsame⟩ := historyDown_walk hinv.ring hwalk
    have hring := hinv.ring.of_eq hstep.history hstep.count hstep.next
    refine ⟨?_, hring.render, fun _ => ⟨saved, _, hwalk'.render⟩⟩
    by_cases hp : p = 0
    · simp only [shellProcessEvent, hsame hp]
      exact ⟨_, _, Edits.render hedits⟩
    · exact ⟨_, _, Edits.render (hshown hp)⟩

theorem Session.inv (hsession : Session s entered) : Inv s (remembered entered) := by
  induction hsession with
  | start =>
    refine ⟨⟨[], [], Edits.reset _⟩, ⟨?_, rfl, ?_, ?_⟩,
      fun _ => ⟨[], 0, Walk.fresh rfl (Nat.zero_le _)⟩⟩
    · exact Nat.succ_pos _
    · exact fun i hi => absurd hi (Nat.not_lt_zero i)
    · exact fun l hl => absurd hl List.not_mem_nil
  | service _ call ih => exact ih.service call
  | enter _ _ ch command ih => exact ih.enter ch command
  | key _ hactive event command hchar henter ih => exact ih.key hactive command hchar henter

def press (type : KeyType) (s : Shell) : Shell := shellProcessEvent s ⟨type, 0⟩ []

structure Browsing (s : Shell) (h : List (List UInt8)) (saved : List UInt8) (p : ℕ) : Prop where
  ring : Ring s h
  walk : Walk s h saved p
  edits : ∃ left right, Edits s.editor left right ∧ left ++ right = shown h saved p

theorem Browsing.up (hb : Browsing s h saved p) :
    Browsing (press .up s) h saved (min (p + 1) (min h.length 16)) := by
  obtain ⟨left, right, hedits, htext⟩ := hb.edits
  have hcount := hb.ring.count
  have hle := hb.walk.le
  have hsaved : p = 0 → saved = left ++ right := by
    intro hp
    rw [htext, shown, if_pos hp]
  obtain ⟨hwalk, hstep, hshown⟩ := historyUp_walk hb.ring hb.walk hedits hsaved
  rw [hcount] at hwalk hshown
  refine ⟨(hb.ring.of_eq hstep.history hstep.count hstep.next).render, hwalk.render, ?_⟩
  by_cases hnone : s.historyCount = 0
  · have hsame : shellHistoryUp s = s := by rw [shellHistoryUp, if_pos hnone]
    have hp : min (p + 1) (min h.length 16) = p := by omega
    rw [hp]
    refine ⟨left, right, ?_, htext⟩
    simp only [press, shellProcessEvent, hsame]
    exact Edits.render hedits
  · exact ⟨_, _, Edits.render (hshown (by omega)), List.append_nil _⟩

theorem Browsing.down (hb : Browsing s h saved p) : Browsing (press .down s) h saved (p - 1) := by
  obtain ⟨left, right, hedits, htext⟩ := hb.edits
  obtain ⟨hwalk, hstep, hshown, hsame⟩ := historyDown_walk hb.ring hb.walk
  refine ⟨(hb.ring.of_eq hstep.history hstep.count hstep.next).render, hwalk.render, ?_⟩
  by_cases hp : p = 0
  · subst hp
    refine ⟨left, right, ?_, htext⟩
    simp only [press, shellProcessEvent, hsame rfl]
    exact Edits.render hedits
  · exact ⟨_, _, Edits.render (hshown hp), List.append_nil _⟩

theorem Browsing.ups (k : ℕ) : ∀ {s : Shell} {p : ℕ}, p ≤ min h.length 16 → Browsing s h saved p →
    Browsing ((press .up)^[k] s) h saved (min (p + k) (min h.length 16)) := by
  induction k with
  | zero =>
    intro s p hp hb
    rw [Nat.add_zero, min_eq_left hp]
    exact hb
  | succ k ih =>
    intro s p hp hb
    have hnext := ih (min_le_right _ _) hb.up
    have hmin : min (min (p + 1) (min h.length 16) + k) (min h.length 16) = min (p + (k + 1))
      (min h.length 16) := by
      omega
    rw [hmin] at hnext
    exact hnext

theorem Browsing.downs (j : ℕ) : ∀ {s : Shell} {p : ℕ}, Browsing s h saved p →
    Browsing ((press .down)^[j] s) h saved (p - j) := by
  induction j with
  | zero => exact fun hb => hb
  | succ j ih =>
    intro s p hb
    have hnext := ih hb.down
    rw [Nat.sub_sub, Nat.add_comm 1 j] at hnext
    exact hnext

theorem Inv.browse (hinv : Inv s h) (hindex : s.historyIndex = none) (k j : ℕ) :
    lineText ((press .down)^[j] ((press .up)^[k] s)).editor.line =
      if min k (storedLines s).length ≤ j then lineText s.editor.line
      else (storedLines s).getD (min k (storedLines s).length - j - 1) [] := by
  obtain ⟨left, right, hedits⟩ := hinv.edits
  have hshort : (left ++ right).length ≤ 127 := by
    rw [List.length_append, ← hedits.len]
    exact hedits.max
  have hstart : Browsing s h (left ++ right) 0 :=
    ⟨hinv.ring, Walk.fresh hindex hshort, left, right, hedits, rfl⟩
  have hend := Browsing.downs j (Browsing.ups k (Nat.zero_le _) hstart)
  obtain ⟨left', right', hedits', htext⟩ := hend.edits
  have hlength : (storedLines s).length = min h.length 16 := by
    rw [hinv.ring.stored, List.length_take, Nat.min_comm]
  rw [hedits'.text_eq, htext, hedits.text_eq, hlength, hinv.ring.stored, Nat.zero_add, shown]
  by_cases hback : min k (min h.length 16) ≤ j
  · rw [if_pos (by omega), if_pos hback]
  · rw [if_neg (by omega), if_neg hback]

/-- Over every sequence of keys the line is a text with a cursor, edited as the keys say, the ring holds
the last sixteen remembered lines, and Up and Down walk through them. -/
theorem line_editor_refines (hsession : Session s entered) :
    (s.editor.cursor ≤ s.editor.len ∧ s.editor.len ≤ 127 ∧ s.editor.line s.editor.len = 0 ∧
      ∀ i < s.editor.len, s.editor.line i ≠ 0) ∧
    (∀ event command, Editing event → sides (shellProcessEvent s event command).editor = edit event
      (sides s.editor)) ∧
    storedLines s = (remembered entered).take 16 ∧
    (s.historyIndex = none → ∀ k j, lineText ((press .down)^[j] ((press .up)^[k] s)).editor.line =
      if min k (storedLines s).length ≤ j then lineText s.editor.line
      else (storedLines s).getD (min k (storedLines s).length - j - 1) []) := by
  have hinv := hsession.inv
  obtain ⟨left, right, hedits⟩ := hinv.edits
  have hlen : s.editor.len = (left ++ right).length := by rw [hedits.len, List.length_append]
  refine ⟨⟨?_, hedits.max, ?_, fun i hi => ?_⟩, fun event command hevent => ?_, hinv.ring.stored,
    hinv.browse⟩
  · rw [hedits.cursor, hedits.len]
    exact Nat.le_add_right _ _
  · rw [hlen]
    exact hedits.line.zero
  · exact hedits.line.ne_zero (hlen ▸ hi)
  · rw [(editing_spec hedits hevent command).1.sides_eq, hedits.sides_eq]

def typed (s : Shell) (ch : UInt8) : Shell := shellProcessEvent s ⟨.char, ch⟩ []

/-- "ls" is entered, and "x" typed behind it. -/
def enteredShell : Shell :=
  typed (shellProcessEvent (typed (typed (shellServiceStart initial) 108) 115) ⟨.enter, 10⟩ []) 120

theorem up_and_down : storedLines enteredShell = [[108, 115]] ∧
    lineText (press .up enteredShell).editor.line = [108, 115] ∧
    lineText (press .down (press .up enteredShell)).editor.line = [120] := by
  have htyped : ∀ {s entered} (ch : UInt8), Session s entered → s.active = true → ch ≠ 0 →
      Session (typed s ch) entered :=
    fun ch h hactive hne => .key h hactive ⟨.char, ch⟩ [] (fun _ => hne) nofun
  have hsession : Session enteredShell [lineText (typed (typed (shellServiceStart initial) 108)
      115).editor.line] :=
    htyped 120 (.enter (htyped 115 (htyped 108 .start rfl (by decide)) (by decide +kernel) (by decide))
      (by decide +kernel) 10 []) (by decide +kernel) (by decide)
  obtain ⟨-, -, hstored, hbrowse⟩ := line_editor_refines hsession
  have hentered :
      lineText (typed (typed (shellServiceStart initial) 108) 115).editor.line = [108, 115] := by
    decide +kernel
  have hline : lineText enteredShell.editor.line = [120] := by decide +kernel
  have hindex : enteredShell.historyIndex = none := by decide +kernel
  rw [hentered] at hstored
  have hup := hbrowse hindex 1 0
  have hdown := hbrowse hindex 1 1
  rw [hstored] at hup hdown
  exact ⟨hstored, hup, hdown.trans hline⟩

end ShellEditor
