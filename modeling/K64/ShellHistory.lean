import K64.ShellLines

/-! # The history of the shell

The ring of entered lines, newest first, and the walk through it. -/
namespace ShellEditor

open ZeroText Keyboard

/-- The lines in the ring, the newest first. -/
def storedLines (s : Shell) : List (List UInt8) :=
  (List.range s.historyCount).map fun i =>
    lineText (s.history ((s.historyNext + shellHistoryMax - 1 - i) % shellHistoryMax))

/-- An entered line is put in front of the others, unless it is empty or equal to the one before it. -/
def remember (line : List UInt8) (h : List (List UInt8)) : List (List UInt8) :=
  if line = [] ∨ h.head? = some line then h else line :: h

/-- Entered lines, the newest first, without those that are not remembered. -/
def remembered (entered : List (List UInt8)) : List (List UInt8) := entered.foldr remember []

/-- The states of the shell, with the lines entered so far, the newest first. Keys are handled while the
service is active; it may be started and stopped by others at any time. -/
inductive Session : Shell → List (List UInt8) → Prop
  | start : Session (shellServiceStart initial) []
  | service {s : Shell} {entered : List (List UInt8)} (h : Session s entered) (call : ServiceCall) :
      Session (call.run s) entered
  | enter {s : Shell} {entered : List (List UInt8)} (h : Session s entered) (hactive : s.active = true)
        (ch : UInt8)
      (command : List ServiceCall) :
      Session (shellProcessEvent s ⟨.enter, ch⟩ command) (lineText s.editor.line :: entered)
  | key {s : Shell} {entered : List (List UInt8)} (h : Session s entered) (hactive : s.active = true)
      (event : KeyEvent) (command : List ServiceCall) (hchar : event.type = .char → event.ch ≠ 0)
      (henter : event.type ≠ .enter) : Session (shellProcessEvent s event command) entered

structure Ring (s : Shell) (h : List (List UInt8)) : Prop where
  next : s.historyNext < 16
  count : s.historyCount = min h.length 16
  slots : ∀ i (hi : i < h.length), i < 16 → Holds (s.history ((s.historyNext + 15 - i) % 16)) h[i]
  short : ∀ l ∈ h, l.length ≤ 127

/-- The walk is at the `p`-th newest line, or on the line that is typed. -/
structure Walk (s : Shell) (h : List (List UInt8)) (saved : List UInt8) (p : ℕ) : Prop where
  le : p ≤ s.historyCount
  index : s.historyIndex = if p = 0 then none else some ((s.historyNext + 16 - p) % 16)
  valid : p ≠ 0 → s.savedLineValid = true ∧ Holds s.savedLine saved
  short : saved.length ≤ 127

structure Inv (s : Shell) (h : List (List UInt8)) : Prop where
  edits : ∃ left right, Edits s.editor left right
  ring : Ring s h
  walk : s.active = true → ∃ saved p, Walk s h saved p

variable {s : Shell} {h entered : List (List UInt8)} {saved t : List UInt8} {p : ℕ}

theorem Ring.of_eq (hring : Ring s h) {s' : Shell} (hhistory : s'.history = s.history)
    (hcount : s'.historyCount = s.historyCount) (hnext : s'.historyNext = s.historyNext) :
    Ring s' h := by
  refine ⟨hnext ▸ hring.next, hcount ▸ hring.count, fun i hi hlt => ?_, hring.short⟩
  rw [hhistory, hnext]
  exact hring.slots i hi hlt

theorem Ring.last (hring : Ring s h) (hne : h ≠ []) : Holds (s.history s.last) (h.head hne) := by
  have hslot := hring.slots 0 (List.length_pos_iff.mpr hne) (by decide)
  rw [Nat.sub_zero] at hslot
  rw [List.head_eq_getElem]
  exact hslot

theorem Ring.stored (hring : Ring s h) : storedLines s = h.take 16 := by
  have hcount := hring.count
  apply List.ext_getElem
  · simp only [storedLines, List.length_map, List.length_range, List.length_take]
    omega
  · intro i hi hi'
    rw [List.length_take] at hi'
    simp only [storedLines, List.getElem_map, List.getElem_range, List.getElem_take]
    exact lineText_of_holds (hring.slots i (by omega) (by omega)) (hring.short _ (List.getElem_mem _))

theorem historyAdd_ring (hring : Ring s h) {line : Cells} (hline : Holds line t) (ht : t.length ≤ 127) :
    Ring (shellHistoryAdd s line) (remember t h) := by
  have hnext := hring.next
  have hcount := hring.count
  have hzero : line 0 = 0 ↔ t = [] := by
    rw [hline.cell 0 (Nat.zero_le _)]
    cases t with
    | nil => simp
    | cons c t =>
      refine iff_of_false (fun hc => hline.free ?_) (List.cons_ne_nil _ _)
      rw [List.getD_cons_zero] at hc
      rw [hc]
      exact List.mem_cons_self ..
  have hsame : 0 < s.historyCount ∧ streq (s.history s.last) line = true ↔ h.head? = some t := by
    cases h with
    | nil => simp [hcount]
    | cons l h =>
      have hlast : Holds (s.history s.last) l := hring.last (List.cons_ne_nil _ _)
      rw [streq_iff hlast hline (hring.short l (List.mem_cons_self ..)), hcount, List.head?_cons,
        Option.some_inj,
        List.length_cons]
      exact ⟨fun hand => hand.2, fun heq => ⟨by omega, heq⟩⟩
  by_cases hempty : t = []
  · have hsame : remember t h = h := if_pos (Or.inl hempty)
    rw [shellHistoryAdd, if_pos (hzero.mpr hempty), hsame]
    exact hring
  by_cases hhead : h.head? = some t
  · have hkept : remember t h = h := if_pos (Or.inr hhead)
    rw [shellHistoryAdd, if_neg (fun hz => hempty (hzero.mp hz)), if_pos (hsame.mpr hhead), hkept]
    exact hring
  have hnew : remember t h = t :: h := if_neg fun hor => hor.elim hempty hhead
  rw [shellHistoryAdd, if_neg (fun hz => hempty (hzero.mp hz)), if_neg (fun hs => hhead (hsame.mp hs)),
    hnew]
  constructor
  · exact Nat.mod_lt _ (by decide)
  · have hmax : shellHistoryMax = 16 := rfl
    rw [List.length_cons]
    simp only
    by_cases hroom : s.historyCount < shellHistoryMax
    · rw [if_pos hroom]
      omega
    · rw [if_neg hroom]
      omega
  · intro i hi hlt
    simp only [shellHistoryMax]
    cases i with
    | zero =>
      have hslot : ((s.historyNext + 1) % 16 + 15 - 0) % 16 = s.historyNext := by omega
      rw [hslot, Function.update_self]
      exact copyLine_holds hline ht _
    | succ i =>
      rw [List.length_cons] at hi
      have hslot : ((s.historyNext + 1) % 16 + 15 - (i + 1)) % 16 =
        (s.historyNext + 15 - i) % 16 := by omega
      rw [hslot, Function.update_of_ne (by omega)]
      exact hring.slots i (by omega) (by omega)
  · intro l hl
    rcases List.mem_cons.mp hl with rfl | hl
    · exact ht
    · exact hring.short l hl

def shown (h : List (List UInt8)) (saved : List UInt8) (p : ℕ) : List UInt8 :=
  if p = 0 then saved else (h.take 16).getD (p - 1) []

theorem Ring.shown (hring : Ring s h) (saved : List UInt8) (hp : p ≠ 0) (hle : p ≤ s.historyCount) :
    Holds (s.history ((s.historyNext + 16 - p) % 16)) (shown h saved p) ∧
      (shown h saved p).length ≤ 127 := by
  have hcount := hring.count
  have hlt : p - 1 < h.length := by omega
  have heq : ShellEditor.shown h saved p = h[p - 1] := by
    rw [ShellEditor.shown, if_neg hp, List.getD_eq_getElem _ _ (by rw [List.length_take]; omega),
      List.getElem_take]
  have hslot : s.historyNext + 15 - (p - 1) = s.historyNext + 16 - p := by omega
  have hholds := hring.slots (p - 1) hlt (by omega)
  rw [hslot] at hholds
  rw [heq]
  exact ⟨hholds, hring.short _ (List.getElem_mem _)⟩

structure Stepped (s s' : Shell) : Prop where
  active : s'.active = s.active
  history : s'.history = s.history
  count : s'.historyCount = s.historyCount
  next : s'.historyNext = s.historyNext

theorem historyUp_walk (hring : Ring s h) (hwalk : Walk s h saved p) {left right : List UInt8}
    (hedits : Edits s.editor left right) (hsaved : p = 0 → saved = left ++ right) :
    Walk (shellHistoryUp s) h saved (min (p + 1) s.historyCount) ∧ Stepped s (shellHistoryUp s) ∧
      (s.historyCount ≠ 0 → Edits (shellHistoryUp s).editor
        (shown h saved (min (p + 1) s.historyCount)) []) := by
  have hle := hwalk.le
  have hcount := hring.count
  have hnext := hring.next
  unfold shellHistoryUp
  by_cases hnone : s.historyCount = 0
  · have hp : p = 0 := by omega
    rw [if_pos hnone, hnone, Nat.min_zero]
    exact ⟨hp ▸ hwalk, ⟨rfl, rfl, rfl, rfl⟩, fun hne => absurd rfl hne⟩
  rw [if_neg hnone]
  by_cases hp : p = 0
  · have hindex : s.historyIndex = none := by rw [hwalk.index, if_pos hp]
    have hmin : min (p + 1) s.historyCount = 1 := by omega
    obtain ⟨hholds, hshort⟩ := hring.shown (p := 1) saved Nat.one_ne_zero (by omega)
    have hlast : s.last = (s.historyNext + 16 - 1) % 16 := rfl
    rw [hindex, hmin]
    refine ⟨⟨?_, ?_, fun _ => ⟨rfl, ?_⟩, hwalk.short⟩, ⟨rfl, rfl, rfl, rfl⟩, fun _ => ?_⟩
    · simp only
      omega
    · simp only [if_neg Nat.one_ne_zero, hlast]
    · have hline := copyLine_holds hedits.line
        (by rw [List.length_append, ← hedits.len]; exact hedits.max) s.savedLine
      rw [hsaved hp]
      exact hline
    · exact Edits.set s.editor hholds hshort
  · have hindex : s.historyIndex = some
      ((s.historyNext + 16 - p) % 16) := by rw [hwalk.index, if_neg hp]
    have hstep : (if (s.historyNext + 16 - p) % 16 ≠ s.oldest then
        ((s.historyNext + 16 - p) % 16 + shellHistoryMax - 1) % shellHistoryMax
        else (s.historyNext + 16 - p) % 16) = (s.historyNext + 16 - min (p + 1) s.historyCount) %
          16 := by
      have holdest : s.oldest = (s.historyNext + 16 - s.historyCount) % 16 := rfl
      have hmax : shellHistoryMax = 16 := rfl
      by_cases hend : p = s.historyCount
      · have hmin : min (p + 1) s.historyCount = p := by omega
        rw [if_neg (by rw [holdest, hend]; exact not_not.mpr rfl), hmin]
      · have hmin : min (p + 1) s.historyCount = p + 1 := by omega
        rw [if_pos (by rw [holdest]; omega), hmin, hmax]
        omega
    obtain ⟨hholds, hshort⟩ := hring.shown (p := min (p + 1) s.historyCount) saved (by omega) (by omega)
    rw [hindex]
    simp only [hstep]
    refine ⟨⟨by simp only; omega, ?_, fun _ => hwalk.valid hp, hwalk.short⟩, ⟨rfl, rfl, rfl, rfl⟩,
      fun _ => ?_⟩
    · rw [if_neg (by omega)]
    · exact Edits.set s.editor hholds hshort

theorem historyDown_none (hindex : s.historyIndex = none) : shellHistoryDown s = s := by
  rw [shellHistoryDown, hindex]
  exact ite_self _

theorem historyDown_walk (hring : Ring s h) (hwalk : Walk s h saved p) :
    Walk (shellHistoryDown s) h saved (p - 1) ∧ Stepped s (shellHistoryDown s) ∧
      (p ≠ 0 → Edits (shellHistoryDown s).editor (shown h saved (p - 1)) []) ∧
      (p = 0 → shellHistoryDown s = s) := by
  have hle := hwalk.le
  have hcount := hring.count
  have hnext := hring.next
  by_cases hp : p = 0
  · have hindex : s.historyIndex = none := by rw [hwalk.index, if_pos hp]
    have hsame := historyDown_none hindex
    rw [hsame]
    subst hp
    exact ⟨hwalk, ⟨rfl, rfl, rfl, rfl⟩, fun hne => absurd rfl hne, fun _ => rfl⟩
  have hindex : s.historyIndex = some ((s.historyNext + 16 - p) % 16) := by rw [hwalk.index, if_neg hp]
  obtain ⟨hvalid, hholds⟩ := hwalk.valid hp
  unfold shellHistoryDown
  rw [if_neg (by omega), hindex]
  by_cases hone : p = 1
  · subst hone
    have hlast : (s.historyNext + 16 - 1) % 16 = s.last := rfl
    simp only [hlast, if_true, hvalid]
    refine ⟨⟨Nat.zero_le _, rfl, fun hne => absurd rfl hne, hwalk.short⟩, ⟨rfl, rfl, rfl, rfl⟩,
      fun _ => ?_,
      fun hne => absurd hne Nat.one_ne_zero⟩
    exact Edits.set s.editor hholds hwalk.short
  · have hlast : (s.historyNext + 16 - p) % 16 ≠ s.last := by
      simp only [Shell.last, shellHistoryMax]
      omega
    have hstep : ((s.historyNext + 16 - p) % 16 + 1) % shellHistoryMax =
      (s.historyNext + 16 - (p - 1)) % 16 := by
      simp only [shellHistoryMax]
      omega
    obtain ⟨hslot, hshort⟩ := hring.shown (p := p - 1) saved (by omega) (by omega)
    simp only [if_neg hlast, hstep]
    refine ⟨⟨by simp only; omega, ?_, fun _ => ⟨hvalid, hholds⟩, hwalk.short⟩, ⟨rfl, rfl, rfl, rfl⟩,
      fun _ => ?_,
      fun hzero => absurd hzero hp⟩
    · rw [if_neg (by omega)]
    · exact Edits.set s.editor hslot hshort

end ShellEditor
