import K64.TerminalAnsi

/-! # Printing ends

The loop of a tab prints blanks until a column is reached. Behind column 71 that column is the one past
the end of the line, which no cursor reaches. -/
namespace Terminal

variable {t u : Term} {x y next : ℤ}

theorem blank_place (x y : ℤ) : placeAfter (code ' ') x y = if x + 1 < 80 then (x + 1, y) else
    (0, rowBelow y) := rfl

theorem tabLoop_spec (fuel : ℕ) (hnext : next < 80) : ∀ {t : Term} {x : ℤ}, At x y t → 0 ≤ x →
    x ≤ next →
    0 ≤ y ∧ y < 25 → (next - x ≤ fuel → ∃ u, tabLoop fuel next t = .ok u) ∧
      ∀ u, tabLoop fuel next t = .ok u → At next y u := by
  induction fuel with
  | zero =>
    intro t x h hx hle hy
    unfold tabLoop
    rw [h.cursorX]
    split
    next hlt => exact ⟨fun hfuel => absurd hlt (by omega), by rintro u ⟨⟩⟩
    next hge =>
      refine ⟨fun _ => ⟨t, rfl⟩, fun u hu => ?_⟩
      obtain rfl : t = u := Except.ok.inj hu
      obtain rfl : x = next := by omega
      exact h
  | succ fuel ih =>
    intro t x h hx hle hy
    unfold tabLoop
    rw [h.cursorX]
    split
    next hlt =>
      have hplace := h.plain (by omega) hy (code ' ')
      rw [blank_place, if_pos (by omega)] at hplace
      obtain ⟨hends, hat⟩ := ih hplace (by omega) (by omega) hy
      exact ⟨fun hfuel => hends (by omega), hat⟩
    next hge =>
      refine ⟨fun _ => ⟨t, rfl⟩, fun u hu => ?_⟩
      obtain rfl : t = u := Except.ok.inj hu
      obtain rfl : x = next := by omega
      exact h

theorem tabLoop_endless (fuel : ℕ) : ∀ {t : Term}, Inside t → ∃ u, tabLoop fuel 80 t = .error u := by
  induction fuel with
  | zero =>
    intro t h
    exact ⟨t, if_pos h.right⟩
  | succ fuel ih =>
    intro t h
    obtain ⟨hx, hy⟩ := placeAfter_inside (code ' ') ⟨h.left, h.right⟩ ⟨h.top, h.bottom⟩
    obtain ⟨u, hu⟩ := ih ((h.at.plain ⟨h.left, h.right⟩ ⟨h.top, h.bottom⟩ _).inside hx hy)
    exact ⟨u, (if_pos h.right).trans hu⟩

/-- The next multiple of eight columns, or the start of the next line. -/
def tabTarget (x y : ℤ) : ℤ × ℤ := if x < 72 then ((x / 8 + 1) * 8, y) else (0, rowBelow y)

theorem tab_target (hx : 0 ≤ x ∧ x < 80) : toInt (x + 8) / 8 * 8 = (x / 8 + 1) * 8 := by
  rw [toInt_eq (by omega)]
  omega

theorem tab_spec (h : At x y t) (hx : 0 ≤ x ∧ x < 72) (hy : 0 ≤ y ∧ y < 25) (fuel : ℕ) :
    (8 ≤ fuel → ∃ u, k64TermPutc fuel 9 t = .ok u) ∧
      ∀ u, k64TermPutc fuel 9 t = .ok u → At ((x / 8 + 1) * 8) y u := by
  have hm := h.mirror 9
  have hloop := tabLoop_spec fuel (show (x / 8 + 1) * 8 < 80 by omega) hm hx.1 (by omega) hy
  unfold k64TermPutc
  rw [if_pos rfl]
  dsimp only
  rw [hm.cursorX, tab_target ⟨hx.1, by omega⟩]
  exact ⟨fun hfuel => hloop.1 (by omega), hloop.2⟩

theorem tab_endless (h : Inside t) (hx : 72 ≤ t.cursorX) (fuel : ℕ) :
    ∃ u, k64TermPutc fuel 9 t = .error u := by
  have hm := h.at.mirror 9
  have hright := h.right
  unfold k64TermPutc
  rw [if_pos rfl]
  dsimp only
  rw [hm.cursorX, tab_target ⟨h.left, h.right⟩, show (t.cursorX / 8 + 1) * 8 = 80 by omega]
  exact tabLoop_endless fuel (hm.inside ⟨h.left, h.right⟩ ⟨h.top, h.bottom⟩)

def columnAfter (c : UInt8) (x : ℤ) : ℤ := if c = 9 then (x / 8 + 1) * 8 else (placeAfter c x 0).1

/-- No tab of a string comes behind column 71. -/
def TabsFit : ℤ → List UInt8 → Prop
  | _, [] => True
  | x, c :: s => (c = 9 → x < 72) ∧ TabsFit (columnAfter c x) s

theorem placeAfter_column (c : UInt8) (x y y' : ℤ) : (placeAfter c x y).1 = (placeAfter c x y').1 := by
  unfold placeAfter
  split_ifs
  all_goals rfl

theorem putc_spec (h : Inside t) (c : UInt8) (fuel : ℕ) :
    (8 ≤ fuel → (c = 9 → t.cursorX < 72) → ∃ u, k64TermPutc fuel c t = .ok u) ∧
      ∀ u, k64TermPutc fuel c t = .ok u →
        (c = 9 → t.cursorX < 72) ∧ Inside u ∧ u.cursorX = columnAfter c t.cursorX := by
  have hinside := putc_inside fuel c h
  unfold columnAfter
  by_cases hc : c = 9
  · subst hc
    rw [if_pos rfl]
    by_cases hx : t.cursorX < 72
    · obtain ⟨hends, hat⟩ := tab_spec h.at ⟨h.left, hx⟩ ⟨h.top, h.bottom⟩ fuel
      refine ⟨fun hfuel _ => hends hfuel, fun u hu => ⟨fun _ => hx, ?_, (hat u hu).cursorX⟩⟩
      rw [hu] at hinside
      exact hinside
    · obtain ⟨v, hv⟩ := tab_endless h (Int.not_lt.mp hx) fuel
      exact ⟨fun _ hfit => absurd (hfit rfl) hx, fun u hu => nomatch hv.symm.trans hu⟩
  · have hplain : k64TermPutc fuel c t = .ok (putPlain c t) := if_neg hc
    rw [hplain] at hinside ⊢
    refine ⟨fun _ _ => ⟨_, rfl⟩, fun u hu => ?_⟩
    obtain rfl : putPlain c t = u := Except.ok.inj hu
    refine ⟨fun he => absurd he hc, hinside, ?_⟩
    rw [if_neg hc, placeAfter_column c _ 0 t.cursorY]
    exact (h.at.plain ⟨h.left, h.right⟩ ⟨h.top, h.bottom⟩ c).cursorX

theorem write_cons (fuel : ℕ) (c : UInt8) (s : List UInt8) (t : Term) :
    k64TermWrite fuel (c :: s) t = (k64TermPutc fuel c t >>= k64TermWrite fuel s) := List.foldlM_cons ..

theorem write_ends (s : List UInt8) : ∀ {t : Term}, Inside t → TabsFit t.cursorX s →
    ∃ u, k64TermWrite 8 s t = .ok u := by
  induction s with
  | nil => exact fun {t} _ _ => ⟨t, rfl⟩
  | cons c s ih =>
    intro t h hfit
    obtain ⟨hends, hat⟩ := putc_spec h c 8
    obtain ⟨u, hu⟩ := hends (Nat.le_refl 8) hfit.1
    obtain ⟨-, hinside, hcolumn⟩ := hat u hu
    rw [write_cons, hu]
    exact ih hinside (hcolumn ▸ hfit.2)

theorem write_fits {fuel : ℕ} (s : List UInt8) : ∀ {t u : Term}, Inside t →
    k64TermWrite fuel s t = .ok u → TabsFit t.cursorX s := by
  induction s with
  | nil => exact fun _ _ => trivial
  | cons c s ih =>
    intro t u h hu
    rw [write_cons] at hu
    cases hc : k64TermPutc fuel c t with
    | error v =>
      rw [hc] at hu
      exact nomatch hu
    | ok v =>
      rw [hc] at hu
      obtain ⟨hfit, hinside, hcolumn⟩ := (putc_spec h c fuel).2 v hc
      exact ⟨hfit, hcolumn ▸ ih hinside hu⟩

/-- From a place on the screen, printing a string ends exactly if no tab of it comes behind column 71, and
a tab ends where it should exactly if it does not stand there; every other character ends at once. -/
theorem printing_ends_iff (h : Inside t) :
    (∀ s, (∃ fuel u, k64TermWrite fuel s t = .ok u) ↔ TabsFit t.cursorX s) ∧
    ((∃ fuel u, k64TermPutc fuel 9 t = .ok u ∧ (u.cursorX, u.cursorY) = tabTarget t.cursorX t.cursorY) ↔
      t.cursorX < 72) ∧
    ∀ c, c ≠ 9 → ∃ u, k64TermPutc 0 c t = .ok u := by
  refine ⟨fun s => ⟨?_, ?_⟩, ⟨?_, ?_⟩, fun c hc => ⟨_, if_neg hc⟩⟩
  · rintro ⟨fuel, u, hu⟩
    exact write_fits s h hu
  · exact fun hfit => ⟨8, write_ends s h hfit⟩
  · rintro ⟨fuel, u, hu, -⟩
    exact ((putc_spec h 9 fuel).2 u hu).1 rfl
  · intro hx
    obtain ⟨hends, hat⟩ := tab_spec h.at ⟨h.left, hx⟩ ⟨h.top, h.bottom⟩ 8
    obtain ⟨u, hu⟩ := hends (Nat.le_refl 8)
    refine ⟨8, u, hu, ?_⟩
    rw [(hat u hu).cursorX, (hat u hu).cursorY, tabTarget, if_pos hx]

/-- A tab at the start of the screen. -/
theorem first_tab_ends : ∃ fuel u, k64TermWrite fuel [9] (startTerm true) = .ok u :=
  ((printing_ends_iff (startTerm_inside true)).1 [9]).mpr
    ⟨fun _ => show (0 : ℤ) < 72 by decide, trivial⟩

/-- A tab at column 72 prints blanks for ever. -/
theorem late_tab_endless :
    ¬ ∃ fuel u, k64TermWrite fuel [9] { startTerm true with cursorX := 72 } = .ok u := by
  have hinside : Inside { startTerm true with cursorX := 72 } :=
    ⟨fun _ hi => absurd hi List.not_mem_nil, show (0 : ℤ) ≤ 72 by decide, show (72 : ℤ) < 80 by decide,
      Int.le_refl 0, show (0 : ℤ) < 25 by decide⟩
  rintro ⟨fuel, u, hu⟩
  exact absurd ((write_fits [9] hinside hu).1 rfl) (Int.lt_irrefl 72)

end Terminal
