import K64.Terminal

/-! # The cursor of the terminal

Where characters and escape sequences take the cursor, and which indices of the screen buffer they use. -/
namespace Terminal

def InBuffer (t : Term) : Prop := ∀ i ∈ t.used, 0 ≤ i ∧ i < 2000

structure At (x y : ℤ) (t : Term) : Prop where
  used : InBuffer t
  cursorX : t.cursorX = x
  cursorY : t.cursorY = y

structure Inside (t : Term) : Prop where
  used : InBuffer t
  left : 0 ≤ t.cursorX
  right : t.cursorX < 80
  top : 0 ≤ t.cursorY
  bottom : t.cursorY < 25

variable {t u : Term} {x y : ℤ}

theorem At.inside (h : At x y t) (hx : 0 ≤ x ∧ x < 80) (hy : 0 ≤ y ∧ y < 25) : Inside t := by
  obtain ⟨hused, rfl, rfl⟩ := h
  exact ⟨hused, hx.1, hx.2, hy.1, hy.2⟩

theorem Inside.at (h : Inside t) : At t.cursorX t.cursorY t := ⟨h.used, rfl, rfl⟩

theorem At.put (h : At x y t) {i : ℤ} (hi : 0 ≤ i ∧ i < 2000) (entry : UInt16) :
    At x y (t.put i entry) := by
  refine ⟨fun j hj => ?_, h.cursorX, h.cursorY⟩
  rcases List.mem_cons.mp hj with rfl | hj
  · exact hi
  · exact h.used j hj

theorem At.blank (h : At x y t) {i : ℤ} (hi : 0 ≤ i ∧ i < 2000) : At x y (t.blank i) := h.put hi _

theorem At.copyCell (h : At x y t) {i j : ℤ} (hi : 0 ≤ i ∧ i < 2000) (hj : 0 ≤ j ∧ j < 2000) :
    At x y (t.copyCell i j) := by
  refine ⟨fun k hk => ?_, h.cursorX, h.cursorY⟩
  rcases List.mem_cons.mp hk with rfl | hk
  · exact hi
  rcases List.mem_cons.mp hk with rfl | hk
  · exact hj
  · exact h.used k hk

theorem At.loop {lo hi : ℤ} {body : ℤ → Term → Term}
    (hbody : ∀ k t, lo ≤ k → k < hi → At x y t → At x y (body k t)) (h : At x y t) :
    At x y (forRange lo hi body t) := by
  have hall : ∀ (l : List ℕ) (t : Term), (∀ k ∈ l, lo + (k : ℤ) < hi) → At x y t →
      At x y (l.foldl (fun t (k : ℕ) => body (lo + k) t) t) := by
    intro l
    induction l with
    | nil => exact fun t _ ht => ht
    | cons k l ih =>
      intro t hl ht
      obtain ⟨hk, hl⟩ := List.forall_mem_cons.mp hl
      exact ih _ hl (hbody _ t (by omega) hk ht)
  refine hall _ t (fun k hk => ?_) h
  have := List.mem_range.mp hk
  omega

theorem At.clearLineFrom (h : At x y t) (row x0 x1 : ℤ) : At x y (termClearLineFrom row x0 x1 t) := by
  unfold termClearLineFrom
  split
  · exact h
  next hrow =>
    simp only [not_or, Int.not_lt, Int.not_le, k64Rows, k64Cols] at hrow ⊢
    apply At.loop ?_ h
    intro k t hlow hhigh ht
    refine ht.put ?_ _
    split at hlow <;> split at hhigh <;> omega

theorem At.clearScreenRegion (h : At x y t) (y0 x0 y1 x1 : ℤ) :
    At x y (termClearScreenRegion y0 x0 y1 x1 t) :=
  At.loop (fun _ _ _ _ ht => ht.clearLineFrom _ _ _) h

theorem Inside.deleteChars (h : Inside t) (count : ℤ) :
    At t.cursorX t.cursorY (termDeleteChars count t) := by
  obtain ⟨hused, hleft, hright, htop, hbottom⟩ := h
  have hat : At t.cursorX t.cursorY t := ⟨hused, rfl, rfl⟩
  unfold termDeleteChars
  split
  · exact hat
  next hgo =>
    simp only [not_or, Int.not_le, k64Cols] at hgo ⊢
    generalize hcount : (if 80 - t.cursorX < count then 80 - t.cursorX else count) = n
    have hn : 0 < n ∧ n ≤ 80 - t.cursorX := by
      split at hcount <;> omega
    apply At.loop
    · intro k u hlow hhigh hu
      exact hu.put (by omega) _
    · apply At.loop ?_ hat
      intro k u hlow hhigh hu
      exact hu.copyCell (by omega) (by omega)

theorem At.sync (h : At x y t) : At x y (termSyncCursor t) := by
  unfold termSyncCursor
  split
  · exact h
  · exact ⟨h.used, h.cursorX, h.cursorY⟩

theorem At.setCursorVisible (h : At x y t) (visible : Bool) :
    At x y (termSetCursorVisible visible t) := by
  have hset : ∀ v, At x y { t with cursorVisible := v } := fun _ => ⟨h.used, h.cursorX, h.cursorY⟩
  unfold termSetCursorVisible
  dsimp only
  split
  · exact hset visible
  unfold termEnableCursor
  split
  · exact hset visible
  · exact (hset true).sync

theorem place_at (h : InBuffer t) (x y : ℤ) : At x y { t with cursorX := x, cursorY := y } :=
  ⟨h, rfl, rfl⟩

theorem setCursor_inside (h : InBuffer t) (x y : ℤ) : Inside (termSetCursor x y t) := by
  unfold termSetCursor
  refine (place_at h _ _).sync.inside ?_ ?_
  · simp only [k64Cols]
    split <;> split <;> omega
  · simp only [k64Rows]
    split <;> split <;> omega

theorem At.rows {lo hi : ℤ} {body : ℤ → ℤ → Term → Term}
    (hbody : ∀ k j u, lo ≤ k → k < hi → 0 ≤ j → j < 80 → At x y u → At x y (body k j u))
    (h : At x y t) : At x y (forRange lo hi (fun k => forRange 0 k64Cols (body k)) t) :=
  At.loop (fun k _ hlow hhigh hu =>
    At.loop (fun j v hlow' hhigh' hv => hbody k j v hlow hhigh hlow' hhigh' hv) hu) h

theorem At.scroll (h : At x y t) : At x 24 (termScroll t) := by
  unfold termScroll
  split
  · exact ⟨h.used, h.cursorX, rfl⟩
  dsimp only
  have hmoved : At x y (forRange 1 k64Rows (fun k => forRange 0 k64Cols fun j u =>
      u.copyCell ((k - 1) * k64Cols + j) (k * k64Cols + j)) t) := by
    apply At.rows ?_ h
    intro k j u hlow hhigh hlow' hhigh' hu
    simp only [k64Rows, k64Cols] at hhigh ⊢
    exact hu.copyCell (by omega) (by omega)
  generalize forRange 1 k64Rows _ t = u at hmoved
  have hcleared : At x y (forRange 0 k64Cols (fun j v => v.blank ((k64Rows - 1) * k64Cols + j)) u) := by
    apply At.loop ?_ hmoved
    intro j v hlow hhigh hv
    simp only [k64Rows, k64Cols] at hhigh ⊢
    exact hv.blank (by omega)
  generalize forRange 0 k64Cols _ u = v at hcleared
  exact At.sync ⟨hcleared.used, hcleared.cursorX, rfl⟩

theorem At.clear (h : At x y t) : At 0 0 (termClear t) := by
  unfold termClear
  split
  · exact ⟨h.used, rfl, rfl⟩
  dsimp only
  have hcleared : At x y
      (forRange 0 k64Rows (fun k => forRange 0 k64Cols fun j u => u.blank (k * k64Cols + j)) t) := by
    apply At.rows ?_ h
    intro k j u hlow hhigh hlow' hhigh' hu
    simp only [k64Rows, k64Cols] at hhigh ⊢
    exact hu.blank (by omega)
  generalize forRange 0 k64Rows _ t = u at hcleared
  exact At.sync ⟨hcleared.used, rfl, rfl⟩

theorem toInt_eq {i : ℤ} (h : -2 ^ 31 ≤ i ∧ i < 2 ^ 31) : toInt i = i := by
  unfold toInt
  omega

def rowBelow (y : ℤ) : ℤ := if y + 1 < 25 then y + 1 else 24

theorem At.newline (h : At x y t) (hy : 0 ≤ y ∧ y < 25) : At 0 (rowBelow y) (termNewline t) := by
  have hnext : toInt (t.cursorY + 1) = y + 1 := by
    rw [h.cursorY]
    exact toInt_eq (by omega)
  unfold termNewline rowBelow
  simp only [hnext, k64Rows]
  have hplace := place_at h.used 0 (y + 1)
  by_cases hbelow : y + 1 < 25
  · rw [if_pos hbelow, if_neg (by omega)]
    exact hplace.sync
  · rw [if_neg hbelow, if_pos (by omega)]
    exact hplace.scroll

theorem At.mirror (h : At x y t) (c : UInt8) : At x y (t.mirror c) := by
  unfold Term.mirror
  split
  · exact ⟨h.used, h.cursorX, h.cursorY⟩
  · exact h

/-- Where a character takes the cursor that is no tab. -/
def placeAfter (c : UInt8) (x y : ℤ) : ℤ × ℤ :=
  if c = 7 then (x, y)
  else if c = 8 then (if 0 < x then x - 1 else x, y)
  else if c = 10 then (0, rowBelow y)
  else if c = 13 then (0, y)
  else if x + 1 < 80 then (x + 1, y)
  else (0, rowBelow y)

theorem placeAfter_inside (c : UInt8) (hx : 0 ≤ x ∧ x < 80) (hy : 0 ≤ y ∧ y < 25) :
    (0 ≤ (placeAfter c x y).1 ∧ (placeAfter c x y).1 < 80) ∧
      0 ≤ (placeAfter c x y).2 ∧ (placeAfter c x y).2 < 25 := by
  have hbelow : 0 ≤ rowBelow y ∧ rowBelow y < 25 := by
    unfold rowBelow
    split <;> omega
  unfold placeAfter
  split_ifs
  all_goals
    dsimp only
    omega

theorem At.advance (h : At x y t) (hx : 0 ≤ x ∧ x < 80) (hy : 0 ≤ y ∧ y < 25) {shown : Term → Term}
    (hshown : ∀ u, At (x + 1) y u → At (x + 1) y (shown u)) :
    At (if x + 1 < 80 then x + 1 else 0) (if x + 1 < 80 then y else rowBelow y)
      (Terminal.advance shown t) := by
  have hnext : toInt (t.cursorX + 1) = x + 1 := by
    rw [h.cursorX]
    exact toInt_eq (by omega)
  have hplace : At (x + 1) y { t with cursorX := x + 1 } := ⟨h.used, rfl, h.cursorY⟩
  have hwrap : k64Cols ≤ x + 1 ↔ ¬ x + 1 < 80 := by
    simp only [k64Cols]
    omega
  unfold Terminal.advance
  dsimp only
  rw [hnext]
  by_cases hroom : x + 1 < 80
  · rw [if_pos hroom, if_pos hroom, if_neg fun h => hwrap.mp h hroom]
    exact hshown _ hplace
  · rw [if_neg hroom, if_neg hroom, if_pos (hwrap.mpr hroom)]
    exact hplace.newline hy

theorem At.glyph (h : At x y t) (hx : 0 ≤ x ∧ x < 80) (hy : 0 ≤ y ∧ y < 25) (c : UInt8) :
    At (if x + 1 < 80 then x + 1 else 0) (if x + 1 < 80 then y else rowBelow y) (putGlyph c t) := by
  unfold putGlyph
  by_cases hoff : (!t.screenEnabled) = true
  · rw [if_pos hoff]
    have hkeep : ∀ u, At (x + 1) y u → At (x + 1) y (id u) := fun _ hu => hu
    exact h.advance hx hy hkeep
  · have hindex : toInt (t.cursorY * k64Cols + t.cursorX) = y * 80 + x := by
      rw [h.cursorX, h.cursorY]
      exact toInt_eq (by simp only [k64Cols]; omega)
    rw [if_neg hoff, hindex]
    exact (h.put (by omega) _).advance hx hy fun _ hu => hu.sync

theorem At.plain (h : At x y t) (hx : 0 ≤ x ∧ x < 80) (hy : 0 ≤ y ∧ y < 25) (c : UInt8) :
    At (placeAfter c x y).1 (placeAfter c x y).2 (putPlain c t) := by
  have hm := h.mirror c
  unfold putPlain placeAfter
  dsimp only
  generalize t.mirror c = u at hm
  split
  · exact hm
  split
  · rw [hm.cursorX]
    split
    · exact At.sync ⟨hm.used, rfl, hm.cursorY⟩
    · exact hm.sync
  split
  · exact hm.newline hy
  split
  · exact At.sync ⟨hm.used, rfl, hm.cursorY⟩
  · have hglyph := hm.glyph hx hy c
    split
    next hroom => simpa only [if_pos hroom] using hglyph
    next hroom => simpa only [if_neg hroom] using hglyph

/-- The state in which a call returns, or is still running. -/
def reached : Except Term Term → Term
  | .ok t => t
  | .error t => t

theorem tabLoop_inside (fuel : ℕ) (next : ℤ) :
    ∀ {t : Term}, Inside t → Inside (reached (tabLoop fuel next t)) := by
  induction fuel with
  | zero =>
    intro t h
    unfold tabLoop
    split
    · exact h
    · exact h
  | succ fuel ih =>
    intro t h
    unfold tabLoop
    split
    · obtain ⟨hx, hy⟩ := placeAfter_inside (code ' ') ⟨h.left, h.right⟩ ⟨h.top, h.bottom⟩
      exact ih ((h.at.plain ⟨h.left, h.right⟩ ⟨h.top, h.bottom⟩ _).inside hx hy)
    · exact h

theorem putc_inside (fuel : ℕ) (c : UInt8) (h : Inside t) :
    Inside (reached (k64TermPutc fuel c t)) := by
  unfold k64TermPutc
  split
  · exact tabLoop_inside fuel _
      ((h.at.mirror c).inside ⟨h.left, h.right⟩ ⟨h.top, h.bottom⟩)
  · obtain ⟨hx, hy⟩ := placeAfter_inside c ⟨h.left, h.right⟩ ⟨h.top, h.bottom⟩
    exact (h.at.plain ⟨h.left, h.right⟩ ⟨h.top, h.bottom⟩ c).inside hx hy

end Terminal
