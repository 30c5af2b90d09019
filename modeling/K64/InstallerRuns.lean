import K64.Installer

/-! # Runs of the installer wizard

Where the wizard can be, what it calls, and which characters typed into a field it takes for its own. -/
namespace Installer

open Keyboard

/-- The step, the focus and the selected disk are in their ranges. -/
structure InRange (w : Wizard) : Prop where
  step : 0 ≤ w.step ∧ w.step ≤ 2
  focus : 0 ≤ w.focus ∧ w.focus ≤ maxFocus w
  disk : 0 < w.diskCount → w.diskIndex < w.diskCount

/-- Every call that writes a disk comes with the box set, for the disk on the screen drawn last. -/
def Shown : Option Screen → List Action → Prop
  | _, [] => True
  | _, .draw screen :: rest => Shown (some screen) rest
  | last, .install name confirm :: rest =>
    confirm = true ∧ (∃ screen, last = some screen ∧ screen.selected = some name) ∧ Shown last rest

/-- A printable character typed into a field is appended while there is room, and does nothing else. -/
def Typed (w : Wizard) (e : KeyEvent) (out : Wizard × List Action) : Prop :=
  e.type = .char → 32 ≤ e.ch → e.ch ≤ 126 → w.step = 1 →
    (w.focus = 0 → out = ({ w with
      username := if w.username.length + 1 < usernameSize then w.username ++ [e.ch] else w.username },
        [])) ∧
    (w.focus = 1 → out = ({ w with
      password := if w.password.length + 1 < passwordSize then w.password ++ [e.ch] else w.password },
        []))

def RoundObeys (w : Wizard) (r : Round) : Prop :=
  InRange (installerRefreshDisks w r.devices) ∧ Shown none (wizardRound w r).2 ∧
    Typed (installerRefreshDisks w r.devices) r.event
      (installerHandleEvent (installerRefreshDisks w r.devices) r.event r.answers)

/-- The wizard does what the screen says, until it is left. -/
def Obeys (w : Wizard) : List Round → Prop
  | [] => InRange w
  | r :: rest => InRange w ∧ (w.quit = false → RoundObeys w r ∧ Obeys (wizardRound w r).1 rest)

def Shortcut (w : Wizard) (e : KeyEvent) : Prop :=
  e.type = .char ∧ (e.ch = 110 ∨ e.ch = 78 ∨ e.ch = 98 ∨ e.ch = 66) ∧ w.step = 1 ∧
    (w.focus = 0 ∨ w.focus = 1)

def NoShortcuts (w : Wizard) : List Round → Prop
  | [] => True
  | r :: rest =>
    w.quit = false → ¬ Shortcut (installerRefreshDisks w r.devices) r.event ∧ NoShortcuts
      (wizardRound w r).1 rest

variable {w : Wizard} {e : KeyEvent} {a : Answers} {r : Round}

theorem InRange.congr (h : InRange w) {w' : Wizard} (hstep : w'.step = w.step)
    (hfocus : w'.focus = w.focus)
    (hindex : w'.diskIndex = w.diskIndex) (hcount : w'.diskCount = w.diskCount) : InRange w' := by
  have hmax : maxFocus w' = maxFocus w := by rw [maxFocus, maxFocus, hstep]
  refine ⟨hstep ▸ h.step, ?_, ?_⟩
  · rw [hfocus, hmax]
    exact h.focus
  · rw [hindex, hcount]
    exact h.disk

theorem listDisks_place (devices : List (Option BlockDevice)) : ∀ w : Wizard,
    (listDisks devices w).step = w.step ∧ (listDisks devices w).focus = w.focus := by
  induction devices with
  | nil => exact fun w => ⟨rfl, rfl⟩
  | cons dev rest ih =>
    intro w
    unfold listDisks
    by_cases hfull : maxDisks ≤ w.diskCount
    · rw [if_pos hfull]
      exact ⟨rfl, rfl⟩
    rw [if_neg hfull]
    cases dev with
    | none => exact ih w
    | some dev =>
      dsimp only
      split_ifs
      · exact ih _
      · exact ih w

theorem refresh_inRange (h : InRange w) (devices : List (Option BlockDevice)) :
    InRange (installerRefreshDisks w devices) := by
  obtain ⟨hstep, hfocus⟩ := listDisks_place devices { w with diskCount := 0 }
  have hmax : maxFocus (listDisks devices { w with diskCount := 0 }) = maxFocus w := by
    rw [maxFocus, maxFocus, hstep]
  have hplace : ∀ i, (0 < (listDisks devices { w with diskCount := 0 }).diskCount →
      i < (listDisks devices { w with diskCount := 0 }).diskCount) →
      InRange { listDisks devices { w with diskCount := 0 } with diskIndex := i } := by
    intro i hi
    refine ⟨?_, ?_, hi⟩
    · simp only [hstep]
      exact h.step
    · change 0 ≤ (listDisks devices { w with diskCount := 0 }).focus ∧
        (listDisks devices { w with diskCount := 0 }).focus ≤ maxFocus
          (listDisks devices { w with diskCount := 0 })
      rw [hfocus, hmax]
      exact h.focus
  rw [installerRefreshDisks]
  split_ifs with hpast hsome
  · exact hplace _ fun hpos => by omega
  · exact hplace _ fun hpos => by omega
  · exact hplace (listDisks devices { w with diskCount := 0 }).diskIndex fun _ => by omega

theorem focusNext_inRange (h : InRange w) (dir : ℤ) : InRange (installerFocusNext w dir) := by
  have hmax : 0 ≤ maxFocus w := Int.le_trans h.focus.1 h.focus.2
  refine ⟨h.step, ?_, h.disk⟩
  change 0 ≤ (installerFocusNext w dir).focus ∧ (installerFocusNext w dir).focus ≤ maxFocus w
  rw [installerFocusNext]
  dsimp only
  split_ifs <;> omega

theorem maxFocus_nonneg (w : Wizard) : 0 ≤ maxFocus w := by
  rw [maxFocus]
  split_ifs <;> decide

theorem InRange.newStep (h : InRange w) {w' : Wizard} (hstep : 0 ≤ w'.step ∧ w'.step ≤ 2)
    (hfocus : w'.focus = 0)
    (hindex : w'.diskIndex = w.diskIndex) (hcount : w'.diskCount = w.diskCount) : InRange w' := by
  refine ⟨hstep, ?_, ?_⟩
  · rw [hfocus]
    exact ⟨Int.le_refl 0, maxFocus_nonneg w'⟩
  · rw [hindex, hcount]
    exact h.disk

theorem nextStep_inRange (h : InRange w) : InRange (installerNextStep w) := by
  have hstep := h.step
  rw [installerNextStep]
  dsimp only
  split_ifs with hnone hlt
  · exact h.congr rfl rfl rfl rfl
  · refine h.newStep ?_ rfl rfl rfl
    dsimp only
    omega
  · exact h.congr rfl rfl rfl rfl

theorem prevStep_inRange (h : InRange w) : InRange (installerPrevStep w) := by
  have hstep := h.step
  rw [installerPrevStep]
  dsimp only
  split_ifs with hlt
  · refine h.newStep ?_ rfl rfl rfl
    dsimp only
    omega
  · exact h.congr rfl rfl rfl rfl

theorem runInstall_inRange (h : InRange w) (a : Answers) : InRange (installerRunInstall w a).1 := by
  rw [installerRunInstall]
  dsimp only
  split_ifs <;> exact h.congr rfl rfl rfl rfl

theorem handleChar_inRange (h : InRange w) (ch : UInt8) : InRange (handleChar w ch) := by
  rw [handleChar]
  split_ifs
  · exact nextStep_inRange h
  · exact prevStep_inRange h
  all_goals exact h.congr rfl rfl rfl rfl

theorem handleEnter_inRange (h : InRange w) (a : Answers) : InRange (handleEnter w a).1 := by
  rw [handleEnter]
  split_ifs
  · exact h.congr rfl rfl rfl rfl
  · exact nextStep_inRange h
  · exact h.congr rfl rfl rfl rfl
  · exact prevStep_inRange h
  · exact nextStep_inRange h
  · exact h.congr rfl rfl rfl rfl
  · exact prevStep_inRange h
  · exact runInstall_inRange h a
  · exact h

theorem handleEvent_inRange (h : InRange w) (e : KeyEvent) (a : Answers) :
    InRange (installerHandleEvent w e a).1 := by
  obtain ⟨type, ch⟩ := e
  cases type with
  | none => exact h
  | escape => exact h.congr rfl rfl rfl rfl
  | enter => exact handleEnter_inRange h a
  | char => exact handleChar_inRange h ch
  | left => exact prevStep_inRange h
  | right => exact nextStep_inRange h
  | delete => exact h
  | tab =>
    simp only [installerHandleEvent]
    split_ifs
    · exact nextStep_inRange h
    · exact runInstall_inRange h a
    · exact focusNext_inRange h 1
  | up =>
    simp only [installerHandleEvent]
    split_ifs
    · refine ⟨h.step, h.focus, fun hpos => ?_⟩
      have hdisk := h.disk hpos
      dsimp only
      omega
    · exact focusNext_inRange h (-1)
  | down =>
    simp only [installerHandleEvent]
    split_ifs with hnext
    · exact ⟨h.step, h.focus, fun _ => hnext.2.2⟩
    · exact focusNext_inRange h 1
  | backspace =>
    simp only [installerHandleEvent]
    split_ifs <;> exact h.congr rfl rfl rfl rfl

theorem shown_nil (last : Option Screen) : Shown last [] := trivial

theorem runInstall_shown (hstep : w.step = 2) (a : Answers) (last : Option Screen) :
    Shown last (installerRunInstall w a).2 := by
  rw [installerRunInstall]
  dsimp only
  split_ifs with hconfirm hnone huser hfailed
  · exact shown_nil last
  · exact shown_nil last
  · exact shown_nil last
  all_goals
    refine ⟨by simpa using hconfirm, ⟨_, rfl, ?_⟩, shown_nil _⟩
    simp only [installerDraw]
    rw [if_neg (by omega), if_neg (by omega), if_pos hnone]

theorem handleEnter_shown (a : Answers) (last : Option Screen) : Shown last (handleEnter w a).2 := by
  by_cases hrun : w.step = 2
  · rw [handleEnter]
    split_ifs <;> first | exact shown_nil last | exact runInstall_shown hrun a last
  · rw [handleEnter]
    split_ifs <;> exact shown_nil last

theorem handleEvent_shown (h : InRange w) (e : KeyEvent) (a : Answers) (last : Option Screen) :
    Shown last (installerHandleEvent w e a).2 := by
  obtain ⟨type, ch⟩ := e
  cases type with
  | enter => exact handleEnter_shown a last
  | tab =>
    have hstep := h.step
    simp only [installerHandleEvent]
    split_ifs
    · exact shown_nil last
    · exact runInstall_shown (by omega) a last
    · exact shown_nil last
  | up =>
    simp only [installerHandleEvent]
    split_ifs <;> exact shown_nil last
  | down =>
    simp only [installerHandleEvent]
    split_ifs <;> exact shown_nil last
  | _ => exact shown_nil last

theorem typed_field (hno : ¬ Shortcut w e) (a : Answers) : Typed w e (installerHandleEvent w e a) := by
  obtain ⟨type, ch⟩ := e
  intro htype hlow hhigh hstep
  simp only at htype hlow hhigh
  subst htype
  have hchar : ∀ (dst : Str) (size : ℕ), installerAppendChar dst size ch =
      if dst.length + 1 < size then dst ++ [ch] else dst := by
    intro dst size
    rw [installerAppendChar]
    by_cases hroom : dst.length + 1 < size
    · rw [if_pos hroom, if_neg]
      rintro (hfull | hctrl | hdel)
      · omega
      · exact absurd hlow (UInt8.not_le.mpr hctrl)
      · exact absurd hhigh (UInt8.not_le.mpr hdel)
    · rw [if_neg hroom, if_pos (Or.inl (by omega))]
  have hletters : w.focus = 0 ∨ w.focus = 1 → ¬ (ch = 110 ∨ ch = 78) ∧ ¬ (ch = 98 ∨ ch = 66) := by
    intro hfocus
    constructor
    · exact fun hch => hno ⟨rfl, hch.elim Or.inl fun h => Or.inr (Or.inl h), hstep, hfocus⟩
    · exact fun hch => hno ⟨rfl, hch.elim (fun h => Or.inr (Or.inr (Or.inl h))) fun h => Or.inr
        (Or.inr (Or.inr h)),
        hstep, hfocus⟩
  constructor
  · intro hfocus
    obtain ⟨hnext, hprev⟩ := hletters (Or.inl hfocus)
    simp only [installerHandleEvent, handleChar]
    rw [if_neg hnext, if_neg hprev, if_neg (by omega), if_neg (by omega), if_neg (by omega),
      if_neg (by omega),
      if_pos ⟨hstep, hfocus⟩, hchar]
  · intro hfocus
    obtain ⟨hnext, hprev⟩ := hletters (Or.inr hfocus)
    simp only [installerHandleEvent, handleChar]
    rw [if_neg hnext, if_neg hprev, if_neg (by omega), if_neg (by omega), if_neg (by omega),
      if_neg (by omega),
      if_neg (by omega), if_pos ⟨hstep, hfocus⟩, hchar]

theorem nextStep_step (hstep : w.step = 1) : (installerNextStep w).step = 2 := by
  simp [installerNextStep, hstep]

theorem prevStep_step (hstep : w.step = 1) : (installerPrevStep w).step = 0 := by
  simp [installerPrevStep, hstep]

theorem shortcut_not_typed (hshort : Shortcut w e) (a : Answers) :
    ¬ Typed w e (installerHandleEvent w e a) := by
  obtain ⟨type, ch⟩ := e
  obtain ⟨htype, hch, hstep, hfocus⟩ := hshort
  simp only at htype hch
  subst htype
  intro htyped
  have hprint : 32 ≤ ch ∧ ch ≤ 126 := by
    rcases hch with rfl | rfl | rfl | rfl <;> decide
  have hsame : (handleChar w ch).step = 1 := by
    obtain ⟨hname, hpass⟩ := htyped rfl hprint.1 hprint.2 hstep
    rcases hfocus with hfocus | hfocus
    · have heq := congrArg (fun out : Wizard × List Action => out.1.step) (hname hfocus)
      exact heq.trans hstep
    · have heq := congrArg (fun out : Wizard × List Action => out.1.step) (hpass hfocus)
      exact heq.trans hstep
  have hmoved : (handleChar w ch).step = 2 ∨ (handleChar w ch).step = 0 := by
    rw [handleChar]
    by_cases hnext : ch = 110 ∨ ch = 78
    · rw [if_pos hnext]
      exact Or.inl (nextStep_step hstep)
    · have hprev : ch = 98 ∨ ch = 66 := by
        rcases hch with h | h | h | h
        · exact absurd (Or.inl h) hnext
        · exact absurd (Or.inr h) hnext
        · exact Or.inl h
        · exact Or.inr h
      rw [if_neg hnext, if_pos hprev]
      exact Or.inr (prevStep_step hstep)
  omega

theorem roundObeys_iff (h : InRange w) (r : Round) :
    RoundObeys w r ↔ ¬ Shortcut (installerRefreshDisks w r.devices) r.event := by
  have hrange := refresh_inRange h r.devices
  constructor
  · exact fun hround hshort => shortcut_not_typed hshort r.answers hround.2.2
  · exact fun hno => ⟨hrange, handleEvent_shown hrange r.event r.answers _, typed_field hno r.answers⟩

theorem obeys_iff (rounds : List Round) : ∀ {w : Wizard}, InRange w →
    (Obeys w rounds ↔ NoShortcuts w rounds) := by
  induction rounds with
  | nil => exact fun h => iff_of_true h trivial
  | cons r rest ih =>
    intro w h
    have hnext : InRange (wizardRound w r).1 :=
      handleEvent_inRange (refresh_inRange h r.devices) r.event r.answers
    rw [Obeys, NoShortcuts, roundObeys_iff h r, ih hnext]
    exact ⟨fun hand => hand.2, fun hno => ⟨h, hno⟩⟩

theorem start_inRange (devices : List (Option BlockDevice)) : InRange (wizardStart devices) :=
  refresh_inRange ⟨by decide, by decide, fun hpos => absurd hpos (Nat.lt_irrefl 0)⟩ devices

/-- The wizard does what the screen says in exactly the runs in which no letter of a shortcut is typed into
a field. -/
theorem wizard_obeys_iff (devices : List (Option BlockDevice)) (rounds : List Round) :
    Obeys (wizardStart devices) rounds ↔ NoShortcuts (wizardStart devices) rounds :=
  obeys_iff rounds (start_inRange devices)

/-- A disk, the right key to the account, and an n for the name of the user. -/
def letterRounds : List Round :=
  [⟨[some ⟨[115, 100, 97], [97, 104, 99, 105], false, true, true, 1, 512⟩], ⟨.right, 0⟩, ⟨true, true⟩⟩,
    ⟨[some ⟨[115, 100, 97], [97, 104, 99, 105], false, true, true, 1, 512⟩], ⟨.char, 110⟩,
      ⟨true, true⟩⟩]

theorem letter_leaves_field : ¬ Obeys (wizardStart []) letterRounds := by
  intro hobeys
  have hsecond := (hobeys.2 rfl).2.2 rfl
  exact shortcut_not_typed ⟨rfl, Or.inl rfl, rfl, Or.inl rfl⟩ _ hsecond.1.2.2

end Installer
