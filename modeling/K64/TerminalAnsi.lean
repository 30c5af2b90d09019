import K64.TerminalCursor

/-! # Escape sequences on the screen

Four sequences move the cursor by a number and look at one side of the screen only. The cursor stays on
the screen exactly if none of them takes it past the other side. -/
namespace Terminal

def moveCount (t : Term) : ℤ := termAnsiParam (termAnsiFinishParam t.ansi) 0 1

/-- Where a character ends a sequence that moves the cursor, the side that is not looked at is not
passed. -/
def SidesKept (t : Term) (c : UInt8) : Prop :=
  t.ansi.state = .csi →
    (c = code 'A' → toInt (t.cursorY - moveCount t) < 25) ∧
    (c = code 'B' → 0 ≤ toInt (t.cursorY + moveCount t)) ∧
    (c = code 'C' → 0 ≤ toInt (t.cursorX + moveCount t)) ∧
    (c = code 'D' → toInt (t.cursorX - moveCount t) < 80)

variable {t : Term} {x y : ℤ}

theorem Inside.congr (h : Inside t) {u : Term} (hused : u.used = t.used) (hx : u.cursorX = t.cursorX)
    (hy : u.cursorY = t.cursorY) : Inside u := by
  refine ⟨?_, ?_, ?_, ?_, ?_⟩
  · exact fun i hi => h.used i (hused ▸ hi)
  · exact hx ▸ h.left
  · exact hx ▸ h.right
  · exact hy ▸ h.top
  · exact hy ▸ h.bottom

theorem sync_inside (t : Term) : Inside (termSyncCursor t) ↔ Inside t := by
  have hsame : (termSyncCursor t).used = t.used ∧ (termSyncCursor t).cursorX = t.cursorX ∧
      (termSyncCursor t).cursorY = t.cursorY := by
    unfold termSyncCursor
    split
    · exact ⟨rfl, rfl, rfl⟩
    · exact ⟨rfl, rfl, rfl⟩
  constructor
  · exact fun h => h.congr hsame.1.symm hsame.2.1.symm hsame.2.2.symm
  · exact fun h => h.congr hsame.1 hsame.2.1 hsame.2.2

theorem row_inside (h : Inside t) (y : ℤ) : Inside { t with cursorY := y } ↔ 0 ≤ y ∧ y < 25 := by
  constructor
  · exact fun h' => ⟨h'.top, h'.bottom⟩
  · exact fun hy => ⟨h.used, h.left, h.right, hy.1, hy.2⟩

theorem column_inside (h : Inside t) (x : ℤ) : Inside { t with cursorX := x } ↔ 0 ≤ x ∧ x < 80 := by
  constructor
  · exact fun h' => ⟨h'.left, h'.right⟩
  · exact fun hx => ⟨h.used, hx.1, hx.2, h.top, h.bottom⟩

theorem sgr_inside (h : Inside t) (st : AnsiState) : Inside (termAnsiSgr st t) := by
  have hone : ∀ t p, Inside t → Inside (sgrColor t p) := by
    intro t p h
    unfold sgrColor
    split
    · exact h.congr rfl rfl rfl
    split
    · exact h.congr rfl rfl rfl
    split
    · exact h.congr rfl rfl rfl
    · exact h
  have hall : ∀ (params : List ℤ) (t : Term), Inside t → Inside (params.foldl sgrColor t) := by
    intro params
    induction params with
    | nil => exact fun t h => h
    | cons p params ih => exact fun t h => ih _ (hone t p h)
  unfold termAnsiSgr
  split
  · exact h.congr rfl rfl rfl
  · exact hall _ _ h

theorem At.keeps (h : Inside t) {u : Term} (hu : At t.cursorX t.cursorY u) : Inside u :=
  hu.inside ⟨h.left, h.right⟩ ⟨h.top, h.bottom⟩

theorem clear_inside (h : Inside t) : Inside (termClear t) :=
  h.at.clear.inside (by decide) (by decide)

theorem erase_inside (h : Inside t) (n : ℤ) : Inside (eraseDisplay n t) ∧ Inside (eraseLine n t) := by
  constructor
  · unfold eraseDisplay
    split
    · exact clear_inside h
    split
    · exact (h.at.clearScreenRegion _ _ _ _).keeps h
    · exact (h.at.clearScreenRegion _ _ _ _).keeps h
  · unfold eraseLine
    split
    · exact (h.at.clearLineFrom _ _ _).keeps h
    split
    · exact (h.at.clearLineFrom _ _ _).keeps h
    · exact (h.at.clearLineFrom _ _ _).keeps h

theorem setMode_inside (h : Inside t) (st : AnsiState) (on : Bool) : Inside (setMode st on t) := by
  unfold setMode
  dsimp only
  split
  · exact (h.at.setCursorVisible on).keeps h
  split
  · exact clear_inside h
  · exact h

theorem clamp_low (v m : ℤ) (hm : 0 < m) :
    (0 ≤ (if v < 0 then 0 else v) ∧ (if v < 0 then 0 else v) < m) ↔ v < m := by
  split <;> omega

theorem clamp_high (v m : ℤ) (hm : 0 < m) :
    (0 ≤ (if m ≤ v then m - 1 else v) ∧ (if m ≤ v then m - 1 else v) < m) ↔ 0 ≤ v := by
  split <;> omega

theorem csiOther_inside (h : Inside t) (st : AnsiState) (c : UInt8) : Inside (csiOther st c t) := by
  unfold csiOther
  split
  · exact setCursor_inside h.used _ _
  split
  · exact setCursor_inside h.used _ _
  split
  · exact setCursor_inside h.used _ _
  split
  · exact (erase_inside h _).1
  split
  · exact (erase_inside h _).2
  split
  · exact (h.deleteChars _).keeps h
  split
  · exact setMode_inside h st _
  split
  · exact sgr_inside h st
  · exact h

theorem csi_inside (h : Inside t) (st : AnsiState) (c : UInt8) : Inside (csiAction st c t) ↔
    (c = code 'A' → toInt (t.cursorY - termAnsiParam st 0 1) < 25) ∧
    (c = code 'B' → 0 ≤ toInt (t.cursorY + termAnsiParam st 0 1)) ∧
    (c = code 'C' → 0 ≤ toInt (t.cursorX + termAnsiParam st 0 1)) ∧
    (c = code 'D' → toInt (t.cursorX - termAnsiParam st 0 1) < 80) := by
  have hdistinct : code 'A' ≠ code 'B' ∧ code 'A' ≠ code 'C' ∧ code 'A' ≠ code 'D' ∧
      code 'B' ≠ code 'C' ∧ code 'B' ≠ code 'D' ∧ code 'C' ≠ code 'D' := by decide
  obtain ⟨hAB, hAC, hAD, hBC, hBD, hCD⟩ := hdistinct
  unfold csiAction
  generalize termAnsiParam st 0 1 = n
  by_cases hA : c = code 'A'
  · subst hA
    rw [if_pos rfl, sync_inside, row_inside h]
    have hbound : (0 ≤ (if toInt (t.cursorY - n) < 0 then 0 else toInt (t.cursorY - n)) ∧
        (if toInt (t.cursorY - n) < 0 then 0 else toInt (t.cursorY - n)) < 25) ↔
          toInt (t.cursorY - n) < 25 := clamp_low _ 25 (by decide)
    simp only [hbound, hAB, hAC, hAD, false_imp_iff, true_imp_iff, and_true]
  by_cases hB : c = code 'B'
  · subst hB
    rw [if_neg hA, if_pos rfl, sync_inside, row_inside h]
    have hbound : (0 ≤ (if k64Rows ≤ toInt (t.cursorY + n) then k64Rows - 1 else toInt
      (t.cursorY + n)) ∧
        (if k64Rows ≤ toInt (t.cursorY + n) then k64Rows - 1 else toInt (t.cursorY + n)) < 25) ↔
          0 ≤ toInt (t.cursorY + n) := clamp_high _ k64Rows (by decide)
    simp only [hbound, hA, hBC, hBD, false_imp_iff, true_imp_iff, and_true, true_and]
  by_cases hC : c = code 'C'
  · subst hC
    rw [if_neg hA, if_neg hB, if_pos rfl, sync_inside, column_inside h]
    have hbound : (0 ≤ (if k64Cols ≤ toInt (t.cursorX + n) then k64Cols - 1 else toInt
      (t.cursorX + n)) ∧
        (if k64Cols ≤ toInt (t.cursorX + n) then k64Cols - 1 else toInt (t.cursorX + n)) < 80) ↔
          0 ≤ toInt (t.cursorX + n) := clamp_high _ k64Cols (by decide)
    simp only [hbound, hA, hB, hCD, false_imp_iff, true_imp_iff, and_true, true_and]
  by_cases hD : c = code 'D'
  · subst hD
    rw [if_neg hA, if_neg hB, if_neg hC, if_pos rfl, sync_inside, column_inside h]
    have hbound : (0 ≤ (if toInt (t.cursorX - n) < 0 then 0 else toInt (t.cursorX - n)) ∧
        (if toInt (t.cursorX - n) < 0 then 0 else toInt (t.cursorX - n)) < 80) ↔
          toInt (t.cursorX - n) < 80 := clamp_low _ 80 (by decide)
    simp only [hbound, hA, hB, hC, false_imp_iff, true_imp_iff, true_and]
  · rw [if_neg hA, if_neg hB, if_neg hC, if_neg hD]
    simp only [hA, hB, hC, hD, false_imp_iff, and_true, iff_true]
    exact csiOther_inside h st c

theorem ansiPutc_inside (fuel : ℕ) (c : UInt8) (h : Inside t) :
    Inside (reached (termAnsiPutc fuel c t)) ↔ SidesKept t c := by
  have hother : t.ansi.state ≠ .csi → SidesKept t c := fun hstate hcsi => absurd hcsi hstate
  cases hstate : t.ansi.state with
  | normal =>
    refine iff_of_true ?_ (hother (by rw [hstate]; exact EscapeState.noConfusion))
    simp only [termAnsiPutc, hstate]
    split
    · exact h.congr rfl rfl rfl
    · exact putc_inside fuel c h
  | esc =>
    refine iff_of_true ?_ (hother (by rw [hstate]; exact EscapeState.noConfusion))
    simp only [termAnsiPutc, hstate]
    split
    · exact h.congr rfl rfl rfl
    split
    · exact h.congr rfl rfl rfl
    split
    · exact (clear_inside h).congr rfl rfl rfl
    · exact h.congr rfl rfl rfl
  | charset =>
    refine iff_of_true ?_ (hother (by rw [hstate]; exact EscapeState.noConfusion))
    simp only [termAnsiPutc, hstate]
    exact h.congr rfl rfl rfl
  | csi =>
    -- neither a digit nor a separator ends a sequence with a letter
    have hletters : ∀ l ∈ [code 'A', code 'B', code 'C', code 'D'], l ≠ code '?' ∧
        ¬ (code '0' ≤ l ∧ l ≤ code '9') ∧ l ≠ code ';' := by
      intro l hl
      simp only [List.mem_cons, List.not_mem_nil, or_false] at hl
      rcases hl with rfl | rfl | rfl | rfl <;> decide
    have hnone : c ∉ [code 'A', code 'B', code 'C', code 'D'] → SidesKept t c := by
      intro hc _
      simp only [List.mem_cons, List.not_mem_nil, or_false, not_or] at hc
      simp only [hc, false_imp_iff, and_self]
    simp only [termAnsiPutc, hstate]
    split
    next hmark =>
      exact ⟨fun _ => hnone fun hc => (hletters c hc).1 hmark, fun _ => h.congr rfl rfl rfl⟩
    split
    next hdigit =>
      exact ⟨fun _ => hnone fun hc => (hletters c hc).2.1 hdigit, fun _ => h.congr rfl rfl rfl⟩
    split
    next hnext =>
      exact ⟨fun _ => hnone fun hc => (hletters c hc).2.2 hnext, fun _ => h.congr rfl rfl rfl⟩
    · have hcsi := csi_inside h (termAnsiFinishParam t.ansi) c
      constructor
      · exact fun hin _ => hcsi.mp (hin.congr rfl rfl rfl)
      · exact fun hsides => (hcsi.mpr (hsides hstate)).congr rfl rfl rfl

/-- Behind every byte the cursor is on the screen, and the buffer was used inside. A tab that goes on and
on is looked at in the state it is in when the fuel ends. -/
def AllInside (fuel : ℕ) : Term → List UInt8 → Prop
  | _, [] => True
  | t, c :: data => Inside (reached (termAnsiPutc fuel c t)) ∧
      ∀ u, termAnsiPutc fuel c t = .ok u → AllInside fuel u data

/-- No byte of a run passes a side that is not looked at. -/
def AllSidesKept (fuel : ℕ) : Term → List UInt8 → Prop
  | _, [] => True
  | t, c :: data => SidesKept t c ∧ ∀ u, termAnsiPutc fuel c t = .ok u → AllSidesKept fuel u data

/-- The output stays on the screen behind every byte exactly if no sequence that moves the cursor takes it
past the side that it does not look at: up or left by a negative number, down or right past the largest
`int` or by a negative number. -/
theorem output_inside_iff (fuel : ℕ) (data : List UInt8) : ∀ {t : Term}, Inside t →
    (AllInside fuel t data ↔ AllSidesKept fuel t data) := by
  induction data with
  | nil => exact fun _ => Iff.rfl
  | cons c data ih =>
    intro t h
    have hstep := ansiPutc_inside fuel c h
    have hnext : ∀ u, SidesKept t c → termAnsiPutc fuel c t = .ok u → Inside u := by
      intro u hkept hu
      have hin := hstep.mpr hkept
      rw [hu] at hin
      exact hin
    constructor
    · rintro ⟨hin, hrest⟩
      exact ⟨hstep.mp hin, fun u hu => (ih (hnext u (hstep.mp hin) hu)).mp (hrest u hu)⟩
    · rintro ⟨hkept, hrest⟩
      exact ⟨hstep.mpr hkept, fun u hu => (ih (hnext u hkept hu)).mpr (hrest u hu)⟩

theorem output_inside {fuel : ℕ} (data : List UInt8) : ∀ {t u : Term}, Inside t →
    AllInside fuel t data →
    k64TermWriteAnsi fuel data t = .ok u → Inside u := by
  induction data with
  | nil =>
    intro t u h _ hu
    obtain rfl : t = u := Except.ok.inj hu
    exact h
  | cons c data ih =>
    intro t u _ hall hu
    cases hc : termAnsiPutc fuel c t with
    | error v =>
      have hstop : k64TermWriteAnsi fuel (c :: data) t = .error v := by
        rw [k64TermWriteAnsi, List.foldlM_cons, hc]
        rfl
      exact nomatch hstop.symm.trans hu
    | ok v =>
      have hgo : k64TermWriteAnsi fuel (c :: data) t = k64TermWriteAnsi fuel data v := by
        rw [k64TermWriteAnsi, List.foldlM_cons, hc]
        rfl
      have hin := hall.1
      rw [hc] at hin
      exact ih hin (hall.2 v hc) (hgo.symm.trans hu)

def startTerm (screenEnabled : Bool) : Term where
  vga := fun _ => 0
  used := []
  cursorX := 0
  cursorY := 0
  position := 0
  currentColor := 0
  mirrorSerial := true
  serial := []
  screenEnabled := screenEnabled
  cursorVisible := true
  ansi := ⟨.normal, [], 0, false, false⟩

theorem startTerm_inside (screenEnabled : Bool) : Inside (startTerm screenEnabled) :=
  ⟨fun _ hi => absurd hi List.not_mem_nil, Int.le_refl 0, show (0 : ℤ) < 80 by decide, Int.le_refl 0,
    show (0 : ℤ) < 25 by decide⟩

/-- `ESC [ 5 B` and a letter: the cursor moves down, and the letter stands in the sixth row. -/
theorem down_inside : AllInside 0 (startTerm true) [27, 91, 53, 66, 97] ∧
    ∃ u, k64TermWriteAnsi 0 [27, 91, 53, 66, 97] (startTerm true) = .ok u ∧ u.cursorX = 1 ∧
      u.cursorY = 5 ∧ u.used = [400] := by
  refine ⟨(output_inside_iff 0 _ (startTerm_inside true)).mpr ?_, _, rfl,
    by decide, by decide, by decide⟩
  refine ⟨nofun, ?_⟩
  rintro _ ⟨⟩
  refine ⟨nofun, ?_⟩
  rintro _ ⟨⟩
  refine ⟨by unfold SidesKept; decide, ?_⟩
  rintro _ ⟨⟩
  refine ⟨by unfold SidesKept; decide, ?_⟩
  rintro _ ⟨⟩
  exact ⟨nofun, fun _ _ => trivial⟩

/-- `ESC [ 4294967266 A` moves the cursor up by -30. -/
theorem negative_move_outside : ¬ AllInside 0 (startTerm true)
    [27, 91, 52, 50, 57, 52, 57, 54, 55, 50, 54, 54, 65] := by
  intro h
  obtain ⟨u, hu, hrow⟩ : ∃ u, k64TermWriteAnsi 0
      [27, 91, 52, 50, 57, 52, 57, 54, 55, 50, 54, 54, 65] (startTerm true) = .ok u ∧ u.cursorY = 30 :=
    ⟨_, rfl, by decide⟩
  have hbottom := (output_inside _ (startTerm_inside true) h hu).bottom
  omega

end Terminal
