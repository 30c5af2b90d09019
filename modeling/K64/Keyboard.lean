import Mathlib.Data.Nat.Notation
import Mathlib.Logic.Function.Basic
import Mathlib.Tactic.Common

/-! # The keyboard

`k64_keyboard.c`: scan codes of set 1 become key events. The flags for shift, control and right Alt are
compared with the keys that are down. -/
namespace Keyboard

inductive KeyType where
  | none | char | enter | backspace | delete | left | right | up | down | tab | escape
  deriving DecidableEq, Repr

structure KeyEvent where
  type : KeyType
  ch : UInt8
  deriving DecidableEq, Repr

def noEvent : KeyEvent := ⟨.none, 0⟩

inductive KeyboardLayout where
  | us | de
  deriving DecidableEq, Repr

def usNormal : List UInt8 :=
  [0, 27, 49, 50, 51, 52, 53, 54, 55, 56, 57, 48, 45, 61, 8, 9, 113, 119, 101, 114, 116, 121,
    117, 105, 111, 112, 91, 93, 10, 0, 97, 115, 100, 102, 103, 104, 106, 107, 108, 59, 39, 96, 0,
    92, 122, 120, 99, 118, 98, 110, 109, 44, 46, 47, 0, 42, 0, 32]

def usShifted : List UInt8 :=
  [0, 27, 33, 64, 35, 36, 37, 94, 38, 42, 40, 41, 95, 43, 8, 9, 81, 87, 69, 82, 84, 89, 85, 73,
    79, 80, 123, 125, 10, 0, 65, 83, 68, 70, 71, 72, 74, 75, 76, 58, 34, 126, 0, 124, 90, 88, 67,
    86, 66, 78, 77, 60, 62, 63, 0, 42, 0, 32]

def deNormal : List UInt8 :=
  [0, 27, 49, 50, 51, 52, 53, 54, 55, 56, 57, 48, 39, 0, 8, 9, 113, 119, 101, 114, 116, 122, 117,
    105, 111, 112, 0, 43, 10, 0, 97, 115, 100, 102, 103, 104, 106, 107, 108, 0, 0, 94, 0, 35,
    121, 120, 99, 118, 98, 110, 109, 44, 46, 45, 0, 42, 0, 32]

def deShifted : List UInt8 :=
  [0, 27, 33, 34, 21, 36, 37, 38, 47, 40, 41, 61, 63, 96, 8, 9, 81, 87, 69, 82, 84, 90, 85, 73,
    79, 80, 0, 42, 10, 0, 65, 83, 68, 70, 71, 72, 74, 75, 76, 0, 0, 0, 0, 39, 89, 88, 67, 86, 66,
    78, 77, 59, 58, 95, 0, 42, 0, 32]

def deAltgr : List UInt8 :=
  [0, 0, 0, 0, 0, 0, 0, 0, 123, 91, 93, 125, 92, 0, 0, 0, 64, 0, 0, 0, 0, 0, 0, 0, 0, 0, 0, 126,
    0, 0, 0, 0, 0, 0, 0, 0, 0, 0, 0, 0, 0, 0, 0, 39, 0, 0, 0, 0, 0, 0, 0, 124]

/-- An entry that is not listed is 0. -/
def entryAt (row : List UInt8) (sc : UInt8) : UInt8 := row.getD sc.toNat 0

def normalMap : KeyboardLayout → List UInt8
  | .us => usNormal
  | .de => deNormal

def shiftedMap : KeyboardLayout → List UInt8
  | .us => usShifted
  | .de => deShifted

def altgrMap : KeyboardLayout → List UInt8
  | .us => []
  | .de => deAltgr

structure Modifiers where
  shiftPressed : Bool
  ctrlPressed : Bool
  altgrPressed : Bool
  extendedScancode : Bool
  deriving DecidableEq, Repr

def controlChar (ch : UInt8) : UInt8 :=
  if 97 ≤ ch ∧ ch ≤ 122 then ch - 97 + 1
  else if 65 ≤ ch ∧ ch ≤ 90 then ch - 65 + 1
  else if ch = 91 then 27
  else if ch = 92 then 28
  else if ch = 93 then 29
  else ch

def extendedEvent (sc : UInt8) : KeyEvent :=
  if sc = 0x48 then ⟨.up, 0⟩
  else if sc = 0x50 then ⟨.down, 0⟩
  else if sc = 0x4B then ⟨.left, 0⟩
  else if sc = 0x4D then ⟨.right, 0⟩
  else if sc = 0x53 then ⟨.delete, 0⟩
  else noEvent

def mappedChar (layout : KeyboardLayout) (sc : UInt8) (m : Modifiers) : UInt8 :=
  if m.altgrPressed ∧ entryAt (altgrMap layout) sc ≠ 0 then entryAt (altgrMap layout) sc
  else if m.shiftPressed then entryAt (shiftedMap layout) sc
  else entryAt (normalMap layout) sc

def plainEvent (layout : KeyboardLayout) (sc : UInt8) (m : Modifiers) : KeyEvent :=
  if sc = 1 then ⟨.escape, 27⟩
  else if sc = 14 then ⟨.backspace, 8⟩
  else if sc = 15 then ⟨.tab, 9⟩
  else if sc = 28 then ⟨.enter, 10⟩
  else
    let ch := mappedChar layout sc m
    if ch = 0 then noEvent
    else ⟨.char, if m.ctrlPressed then controlChar ch else ch⟩

def translateScancode (layout : KeyboardLayout) (sc : UInt8) (m : Modifiers) : KeyEvent × Modifiers :=
  if sc = 0xE0 then (noEvent, { m with extendedScancode := true })
  else if sc &&& 0x80 ≠ 0 then
    let make := sc &&& 0x7F
    (noEvent,
      { shiftPressed := if make = 42 ∨ make = 54 then false else m.shiftPressed
        ctrlPressed := if make = 29 then false else m.ctrlPressed
        altgrPressed := if make = 56 ∧ m.extendedScancode then false else m.altgrPressed
        extendedScancode := false })
  -- a prefix in front of these two stays pending
  else if sc = 42 ∨ sc = 54 then (noEvent, { m with shiftPressed := true })
  else if sc = 29 then (noEvent, { m with ctrlPressed := true, extendedScancode := false })
  else if sc = 56 then
    (noEvent, { m with
      altgrPressed := if m.extendedScancode then true else m.altgrPressed
      extendedScancode := false })
  else if m.extendedScancode then (extendedEvent sc, { m with extendedScancode := false })
  else (plainEvent layout sc m, m)

def kbdBufSize : ℕ := 128

structure KeyboardState where
  mods : Modifiers
  currentLayout : KeyboardLayout
  keyboardEnabled : Bool
  kbdBuf : List KeyEvent

/-- The ring keeps one place free. -/
def queueEvent (event : KeyEvent) (k : KeyboardState) : KeyboardState :=
  if k.kbdBuf.length + 1 < kbdBufSize then { k with kbdBuf := k.kbdBuf ++ [event] } else k

def k64KeyboardOnInterrupt (k : KeyboardState) (sc : UInt8) : KeyboardState :=
  if k.keyboardEnabled = false then k
  else
    let (event, mods) := translateScancode k.currentLayout sc k.mods
    let k := { k with mods := mods }
    if event.type = .none then k else queueEvent event k

/-- A key with its make code. The codes of the shift keys behind a prefix belong to no key, and no break
code looks like the prefix. -/
structure Key where
  extended : Bool
  code : UInt8
  valid : code < 0x80 ∧ code ≠ 0x60 ∧ (extended = true → code ≠ 42 ∧ code ≠ 54)
  deriving DecidableEq

def leftShift : Key := ⟨false, 42, by decide⟩
def rightShift : Key := ⟨false, 54, by decide⟩
def leftCtrl : Key := ⟨false, 29, by decide⟩
def rightCtrl : Key := ⟨true, 29, by decide⟩
def rightAlt : Key := ⟨true, 56, by decide⟩

/-- What a keyboard sends one complete code for; a key that is held is pressed again and again. -/
inductive Action where
  | press (k : Key)
  | release (k : Key)
  | fakeMake
  | fakeBreak
  deriving DecidableEq

def Key.codes (k : Key) (last : UInt8) : List UInt8 := if k.extended then [0xE0, last] else [last]

def Action.codes : Action → List UInt8
  | .press k => k.codes k.code
  | .release k => k.codes (k.code ||| 0x80)
  | .fakeMake => [0xE0, 0x2A]
  | .fakeBreak => [0xE0, 0xAA]

def Action.keys (d : Key → Bool) : Action → Key → Bool
  | .press k => Function.update d k true
  | .release k => Function.update d k false
  | .fakeMake => d
  | .fakeBreak => d

/-- Codes without a prefix. -/
def Action.plain : Action → Bool
  | .press k => !k.extended
  | .release k => !k.extended
  | .fakeMake => false
  | .fakeBreak => false

def KeyboardState.feed (k : KeyboardState) (a : Action) : KeyboardState :=
  a.codes.foldl k64KeyboardOnInterrupt k

structure Follows (m : Modifiers) (d : Key → Bool) : Prop where
  shift : m.shiftPressed = (d leftShift || d rightShift)
  ctrl : m.ctrlPressed = (d leftCtrl || d rightCtrl)
  altgr : m.altgrPressed = d rightAlt

/-- The flags follow the keys behind every code, and no code without a prefix is read with one. -/
def AllFollow : KeyboardState → (Key → Bool) → List Action → Prop
  | _, _, [] => True
  | k, d, a :: actions => (a.plain = true → k.mods.extendedScancode = false) ∧
      Follows (k.feed a).mods (a.keys d) ∧ AllFollow (k.feed a) (a.keys d) actions

/-- What one flag for two keys, and a prefix that stays, ask of a code. -/
def Action.Fine (faked : Bool) (d : Key → Bool) : Action → Prop
  | .press k => k.extended = false → faked = false
  | .release k => (k.extended = false → faked = false) ∧
      (k = leftShift → d rightShift = false) ∧ (k = rightShift → d leftShift = false) ∧
      (k = leftCtrl → d rightCtrl = false) ∧ (k = rightCtrl → d leftCtrl = false)
  | .fakeMake => (d leftShift || d rightShift) = true
  | .fakeBreak => (d leftShift || d rightShift) = false

/-- Every code is fine; `faked` says whether the one before was a fake make code. -/
def AllFine : Bool → (Key → Bool) → List Action → Prop
  | _, _, [] => True
  | faked, d, a :: actions => a.Fine faked d ∧ AllFine (a == .fakeMake) (a.keys d) actions

variable {k : Key} {m : Modifiers} {d : Key → Bool} {layout : KeyboardLayout}

theorem byte_cases {P : UInt8 → Prop} (h : ∀ n : Fin 256, P (UInt8.ofNat n.val)) (sc : UInt8) :
    P sc := by
  have hsc : UInt8.ofNat sc.toNat = sc := UInt8.ofNat_toNat
  exact hsc ▸ h ⟨sc.toNat, sc.toNat_lt⟩

theorem break_code (h : k.code < 0x80 ∧ k.code ≠ 0x60) : (k.code ||| 0x80) ≠ 0xE0 ∧
    (k.code ||| 0x80) &&& 0x80 ≠ 0 ∧ (k.code ||| 0x80) &&& 0x7F = k.code := by
  have hall : ∀ n : Fin 256, UInt8.ofNat n.val < 0x80 ∧ UInt8.ofNat n.val ≠ 0x60 →
      (UInt8.ofNat n.val ||| 0x80) ≠ 0xE0 ∧ (UInt8.ofNat n.val ||| 0x80) &&& 0x80 ≠ 0 ∧
        (UInt8.ofNat n.val ||| 0x80) &&& 0x7F = UInt8.ofNat n.val := by
    decide +kernel
  exact byte_cases (P := fun sc => sc < 0x80 ∧ sc ≠ 0x60 → (sc ||| 0x80) ≠ 0xE0 ∧
    (sc ||| 0x80) &&& 0x80 ≠ 0 ∧ (sc ||| 0x80) &&& 0x7F = sc) hall k.code h

theorem make_code (h : k.code < 0x80) : k.code ≠ 0xE0 ∧ k.code &&& 0x80 = 0 := by
  have hall : ∀ n : Fin 256, UInt8.ofNat n.val < 0x80 →
      UInt8.ofNat n.val ≠ 0xE0 ∧ UInt8.ofNat n.val &&& 0x80 = 0 := by
    decide +kernel
  exact byte_cases (P := fun sc => sc < 0x80 → sc ≠ 0xE0 ∧ sc &&& 0x80 = 0) hall k.code h

theorem interrupt_mods {k : KeyboardState} (h : k.keyboardEnabled = true) (sc : UInt8) :
    (k64KeyboardOnInterrupt k sc).mods = (translateScancode k.currentLayout sc k.mods).2 ∧
      (k64KeyboardOnInterrupt k sc).keyboardEnabled = true ∧
      (k64KeyboardOnInterrupt k sc).currentLayout = k.currentLayout := by
  rw [k64KeyboardOnInterrupt, if_neg (by rw [h]; exact Bool.noConfusion)]
  dsimp only
  split
  · exact ⟨rfl, h, rfl⟩
  · rw [queueEvent]
    split
    · exact ⟨rfl, h, rfl⟩
    · exact ⟨rfl, h, rfl⟩

theorem feed_mods {k : KeyboardState} (h : k.keyboardEnabled = true) (a : Action) :
    (k.feed a).mods = a.codes.foldl (fun m sc => (translateScancode k.currentLayout sc m).2) k.mods ∧
      (k.feed a).keyboardEnabled = true := by
  have hall : ∀ (codes : List UInt8) (k : KeyboardState), k.keyboardEnabled = true →
      (codes.foldl k64KeyboardOnInterrupt k).mods =
        codes.foldl (fun m sc => (translateScancode k.currentLayout sc m).2) k.mods ∧
      (codes.foldl k64KeyboardOnInterrupt k).keyboardEnabled = true := by
    intro codes
    induction codes with
    | nil => exact fun k hk => ⟨rfl, hk⟩
    | cons sc codes ih =>
      intro k hk
      obtain ⟨hmods, hon, hlayout⟩ := interrupt_mods hk sc
      obtain ⟨hrest, hon'⟩ := ih _ hon
      rw [List.foldl_cons, List.foldl_cons, ← hmods, ← hlayout]
      exact ⟨hrest, hon'⟩
  exact hall a.codes k h

theorem translate_prefix : (translateScancode layout 0xE0 m).2 = { m with extendedScancode := true } :=
  rfl

theorem translate_make (hk : k.code < 0x80) : (translateScancode layout k.code m).2 =
    { shiftPressed := if k.code = 42 ∨ k.code = 54 then true else m.shiftPressed
      ctrlPressed := if k.code = 29 then true else m.ctrlPressed
      altgrPressed := if k.code = 56 ∧ m.extendedScancode then true else m.altgrPressed
      extendedScancode := if k.code = 42 ∨ k.code = 54 then m.extendedScancode else false } := by
  obtain ⟨hcode, hmake⟩ := make_code hk
  rw [translateScancode, if_neg hcode, if_neg (fun h => h hmake)]
  split
  next hshift =>
    rcases hshift with h | h
    all_goals rw [h]; simp
  next hshift =>
    split
    next hctrl => rw [hctrl]; simp
    next hctrl =>
      split
      next halt => rw [halt]; cases m.extendedScancode <;> simp
      next halt =>
        obtain ⟨shift, ctrl, altgr, pending⟩ := m
        cases pending <;> simp_all

theorem translate_break (hk : k.code < 0x80 ∧ k.code ≠ 0x60) :
    (translateScancode layout (k.code ||| 0x80) m).2 =
      { shiftPressed := if k.code = 42 ∨ k.code = 54 then false else m.shiftPressed
        ctrlPressed := if k.code = 29 then false else m.ctrlPressed
        altgrPressed := if k.code = 56 ∧ m.extendedScancode then false else m.altgrPressed
        extendedScancode := false } := by
  obtain ⟨hcode, hbreak, hmake⟩ := break_code hk
  rw [translateScancode, if_neg hcode, if_pos hbreak]
  dsimp only
  rw [hmake]

theorem key_eq_iff {e : Bool} {c : UInt8} {h} : k = ⟨e, c, h⟩ ↔ k.extended = e ∧ k.code = c := by
  obtain ⟨extended, code, valid⟩ := k
  exact Key.mk.injEq ..▸ Iff.rfl

theorem press_mods (hpending : k.extended = false → m.extendedScancode = false) :
    (Action.press k).codes.foldl (fun m sc => (translateScancode layout sc m).2) m =
      { shiftPressed := if k = leftShift ∨ k = rightShift then true else m.shiftPressed
        ctrlPressed := if k = leftCtrl ∨ k = rightCtrl then true else m.ctrlPressed
        altgrPressed := if k = rightAlt then true else m.altgrPressed
        extendedScancode := false } := by
  simp only [leftShift, rightShift, leftCtrl, rightCtrl, rightAlt, key_eq_iff]
  cases hext : k.extended with
  | false =>
    have hm := hpending hext
    rw [Action.codes, Key.codes, hext, if_neg Bool.false_ne_true, List.foldl_cons, List.foldl_nil,
      translate_make k.valid.1, hm]
    simp
  | true =>
    obtain ⟨hleft, hright⟩ := k.valid.2.2 hext
    rw [Action.codes, Key.codes, hext, if_pos rfl, List.foldl_cons, List.foldl_cons, List.foldl_nil,
      translate_prefix, translate_make k.valid.1]
    simp [hleft, hright]

theorem release_mods (hpending : k.extended = false → m.extendedScancode = false) :
    (Action.release k).codes.foldl (fun m sc => (translateScancode layout sc m).2) m =
      { shiftPressed := if k = leftShift ∨ k = rightShift then false else m.shiftPressed
        ctrlPressed := if k = leftCtrl ∨ k = rightCtrl then false else m.ctrlPressed
        altgrPressed := if k = rightAlt then false else m.altgrPressed
        extendedScancode := false } := by
  simp only [leftShift, rightShift, leftCtrl, rightCtrl, rightAlt, key_eq_iff]
  have hk : k.code < 0x80 ∧ k.code ≠ 0x60 := ⟨k.valid.1, k.valid.2.1⟩
  cases hext : k.extended with
  | false =>
    have hm := hpending hext
    rw [Action.codes, Key.codes, hext, if_neg Bool.false_ne_true, List.foldl_cons, List.foldl_nil,
      translate_break hk, hm]
    simp
  | true =>
    obtain ⟨hleft, hright⟩ := k.valid.2.2 hext
    rw [Action.codes, Key.codes, hext, if_pos rfl, List.foldl_cons, List.foldl_cons, List.foldl_nil,
      translate_prefix, translate_break hk]
    simp [hleft, hright]

theorem press_keys (k j : Key) : (Action.press k).keys d j = (decide (k = j) || d j) := by
  by_cases h : k = j
  · subst h
    simp [Action.keys]
  · rw [Action.keys, Function.update_of_ne (Ne.symm h), decide_eq_false h, Bool.false_or]

theorem release_keys (k j : Key) : (Action.release k).keys d j = (!decide (k = j) && d j) := by
  by_cases h : k = j
  · subst h
    simp [Action.keys]
  · rw [Action.keys, Function.update_of_ne (Ne.symm h), decide_eq_false h, Bool.not_false,
      Bool.true_and]

theorem follow_step (layout : KeyboardLayout) (hm : Follows m d) (a : Action) :
    ((a.plain = true → m.extendedScancode = false) ∧
      Follows (a.codes.foldl (fun m sc => (translateScancode layout sc m).2) m) (a.keys d)) ↔
    a.Fine m.extendedScancode d := by
  have hshift : leftShift ≠ rightShift := by decide
  have hctrl : leftCtrl ≠ rightCtrl := by decide
  cases a with
  | press k =>
    constructor
    · exact fun ⟨hpending, _⟩ hplain => hpending (by rw [Action.plain, hplain]; rfl)
    · intro hfine
      refine ⟨fun hplain => hfine (by simpa [Action.plain] using hplain), ?_⟩
      rw [press_mods hfine]
      constructor
      · rw [press_keys, press_keys, hm.shift]
        by_cases hleft : k = leftShift
        · simp [hleft]
        · by_cases hright : k = rightShift <;> simp [hleft, hright]
      · rw [press_keys, press_keys, hm.ctrl]
        by_cases hleft : k = leftCtrl
        · simp [hleft]
        · by_cases hright : k = rightCtrl <;> simp [hleft, hright]
      · rw [press_keys, hm.altgr]
        by_cases halt : k = rightAlt <;> simp [halt]
  | release k =>
    have hplain : ((Action.release k).plain = true → m.extendedScancode = false) ↔
        (k.extended = false → m.extendedScancode = false) := by simp [Action.plain]
    rw [hplain, Action.Fine]
    refine and_congr_right fun hpending => ?_
    rw [release_mods hpending]
    constructor
    · intro h
      have hs := h.shift
      have hc := h.ctrl
      rw [release_keys, release_keys] at hs hc
      refine ⟨?_, ?_, ?_, ?_⟩
      · rintro rfl
        simpa [hshift] using hs
      · rintro rfl
        simpa [hshift.symm] using hs
      · rintro rfl
        simpa [hctrl] using hc
      · rintro rfl
        simpa [hctrl.symm] using hc
    · rintro ⟨hleft, hright, hleft', hright'⟩
      constructor
      · rw [release_keys, release_keys, hm.shift]
        by_cases h : k = leftShift
        · simp [h, hshift, hleft h]
        · by_cases h' : k = rightShift
          · simp [h', hshift.symm, hright h']
          · simp [h, h']
      · rw [release_keys, release_keys, hm.ctrl]
        by_cases h : k = leftCtrl
        · simp [h, hctrl, hleft' h]
        · by_cases h' : k = rightCtrl
          · simp [h', hctrl.symm, hright' h']
          · simp [h, h']
      · rw [release_keys, hm.altgr]
        by_cases halt : k = rightAlt <;> simp [halt]
  | fakeMake =>
    constructor
    · exact fun ⟨_, h⟩ => h.shift.symm
    · exact fun h => ⟨(fun hplain => nomatch hplain), h.symm, hm.ctrl, hm.altgr⟩
  | fakeBreak =>
    constructor
    · exact fun ⟨_, h⟩ => h.shift.symm
    · exact fun h => ⟨(fun hplain => nomatch hplain), h.symm, hm.ctrl, hm.altgr⟩

theorem pending_step (layout : KeyboardLayout) (a : Action)
    (hplain : a.plain = true → m.extendedScancode = false) :
    (a.codes.foldl (fun m sc => (translateScancode layout sc m).2) m).extendedScancode =
      (a == .fakeMake) := by
  cases a with
  | press k =>
    rw [press_mods fun h => hplain (by rw [Action.plain, h]; rfl)]
    rfl
  | release k =>
    rw [release_mods fun h => hplain (by rw [Action.plain, h]; rfl)]
    rfl
  | fakeMake => rfl
  | fakeBreak => rfl

theorem follow_run (actions : List Action) : ∀ {k : KeyboardState} {d : Key → Bool},
    k.keyboardEnabled = true → Follows k.mods d →
      (AllFollow k d actions ↔ AllFine k.mods.extendedScancode d actions) := by
  induction actions with
  | nil => exact fun _ _ => Iff.rfl
  | cons a actions ih =>
    intro k d hon hm
    obtain ⟨hmods, hon'⟩ := feed_mods hon a
    have hstep := follow_step k.currentLayout hm a
    rw [AllFollow, AllFine, ← and_assoc]
    rw [← hmods] at hstep
    constructor
    · rintro ⟨hright, hrest⟩
      have hpending := pending_step k.currentLayout a hright.1
      rw [← hmods] at hpending
      refine ⟨hstep.mp hright, ?_⟩
      rw [← hpending]
      exact (ih hon' hright.2).mp hrest
    · rintro ⟨hfine, hrest⟩
      have hright := hstep.mpr hfine
      have hpending := pending_step k.currentLayout a hright.1
      rw [← hmods] at hpending
      refine ⟨hright, (ih hon' hright.2).mpr ?_⟩
      rw [hpending]
      exact hrest

/-- From all keys up, the flags follow the keys behind every code and no prefix is read with a later code
exactly if no fake make code comes while the shift keys are up or in front of a code without a prefix, no
fake break code while one is down, and of two shift or control keys none is released while the other is
down. -/
theorem modifiers_follow_iff (layout : KeyboardLayout) (events : List KeyEvent)
    (actions : List Action) :
    AllFollow ⟨⟨false, false, false, false⟩, layout, true, events⟩ (fun _ => false) actions ↔
      AllFine false (fun _ => false) actions :=
  follow_run actions rfl ⟨rfl, rfl, rfl⟩

/-- Both shift keys are pressed and one is released. -/
theorem one_shift_released : ¬ AllFollow ⟨⟨false, false, false, false⟩, .us, true, []⟩ (fun _ => false)
    [.press leftShift, .press rightShift, .release leftShift] := by
  intro h
  have hshift := h.2.2.2.2.2.1.shift
  exact absurd hshift (by decide)

end Keyboard
