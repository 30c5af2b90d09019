import K64.TextEditor

/-! # Files in the text editor

What `load_file` puts into the rows, and what `save_file` makes of them: every row with a newline behind
it, as far as the buffer goes. -/
namespace TextEditor

open ZeroText

/-- The rows from `y` on hold the lines. -/
def Rows (lines : ℕ → Cells) : ℕ → List (List UInt8) → Prop
  | _, [] => True
  | y, l :: ls => Holds (lines y) l ∧ Rows lines (y + 1) ls

def ended (ls : List (List UInt8)) : List UInt8 := ls.flatMap (· ++ [10])

variable {lines lines' : ℕ → Cells} {ls ls' above : List (List UInt8)} {l cur : List UInt8} {r : Cells}
  {y n : ℕ} {e : Editor}

theorem rows_append : Rows lines y (ls ++ ls') ↔ Rows lines y ls ∧ Rows lines (y + ls.length) ls' := by
  induction ls generalizing y with
  | nil => simp [Rows]
  | cons l ls ih =>
    rw [List.cons_append, Rows, Rows, ih, List.length_cons, and_assoc]
    have hy : y + 1 + ls.length = y + (ls.length + 1) := by omega
    rw [hy]

theorem Rows.congr (h : Rows lines y ls) (heq : ∀ i, y ≤ i → i < y + ls.length → lines' i = lines i) :
    Rows lines' y ls := by
  induction ls generalizing y with
  | nil => trivial
  | cons l ls ih =>
    rw [List.length_cons] at heq
    constructor
    · rw [heq y le_rfl (by omega)]
      exact h.1
    · exact ih h.2 fun i hi hlt => heq i (by omega) (by omega)

@[simp] theorem setRow_same : setRow lines y r y = r := by simp [setRow]

theorem setRow_other {i : ℕ} (h : i ≠ y) : setRow lines y r i = lines i := by simp [setRow, h]

theorem Rows.setRow_outside {i : ℕ} (h : Rows lines y ls) (hi : i < y ∨ y + ls.length ≤ i) :
    Rows (setRow lines i r) y ls :=
  h.congr fun j hj hlt => setRow_other (by omega)

theorem Rows.setRow_last (h : Rows lines 0 above) (hr : Holds r l) :
    Rows (setRow lines above.length r) 0 (above ++ [l]) := by
  rw [rows_append]
  refine ⟨h.setRow_outside (by omega), ?_, trivial⟩
  rw [Nat.zero_add, setRow_same]
  exact hr

theorem saveRow_holds (hr : Holds r l) (fuel : ℕ) : ∀ (x : ℕ) (out : List UInt8), x ≤ l.length →
    l.length ≤ x + fuel → out.length + 1 ≤ bufferSize →
    saveRow fuel r x out = (out ++ l.drop x).take (bufferSize - 1) := by
  induction fuel with
  | zero =>
    intro x out hx hfuel hout
    rw [saveRow, List.drop_eq_nil_of_le (by omega), List.append_nil, List.take_of_length_le (by omega)]
  | succ fuel ih =>
    intro x out hx hfuel hout
    unfold saveRow
    rcases hx.lt_or_eq with hlt | rfl
    · rw [List.drop_eq_getElem_cons hlt, ← hr.get hlt]
      by_cases hroom : out.length + 1 < bufferSize
      · rw [if_pos ⟨hr.ne_zero hlt, hroom⟩, ih (x + 1) _ hlt (by omega) (by simp; omega),
          List.append_assoc]
        rfl
      · rw [if_neg (fun h => hroom h.2), List.take_append_of_le_length (by omega),
          List.take_of_length_le (by omega)]
    · rw [if_neg (fun h => h.1 hr.zero), List.drop_length, List.append_nil, List.take_of_length_le
        (by omega)]

theorem append_bounded {out : List UInt8} {c : UInt8} {size : ℕ} (h : out.length + 1 ≤ size) :
    (if out.length + 1 < size then out ++ [c] else out) = (out ++ [c]).take (size - 1) := by
  by_cases hroom : out.length + 1 < size
  · rw [if_pos hroom, List.take_of_length_le (by simp; omega)]
  · rw [if_neg hroom, List.take_append_of_le_length (by omega), List.take_of_length_le (by omega)]

theorem take_append_take (n : ℕ) (s t : List UInt8) : (s.take n ++ t).take n = (s ++ t).take n := by
  by_cases h : s.length ≤ n
  · rw [List.take_of_length_le h]
  · rw [List.take_append_of_le_length (by rw [List.length_take]; omega), List.take_take, min_self,
      List.take_append_of_le_length (by omega)]

theorem saveRows_rows (ls : List (List UInt8)) : ∀ {y : ℕ} {out : List UInt8}, Rows lines y ls →
    (∀ l ∈ ls, l.length < editMaxCols) → out.length + 1 ≤ bufferSize →
    saveRows lines ls.length y out = (out ++ ended ls).take (bufferSize - 1) := by
  induction ls with
  | nil =>
    intro y out _ _ hout
    rw [List.length_nil, saveRows, ended, List.flatMap_nil, List.append_nil, List.take_of_length_le
      (by omega)]
  | cons l ls ih =>
    intro y out hrows hshort hout
    have hl := hshort l (List.mem_cons_self ..)
    have hrow := saveRow_holds hrows.1 editMaxCols 0 out (Nat.zero_le _) (by omega) hout
    have hlength : (saveRow editMaxCols (lines y) 0 out).length + 1 ≤ bufferSize := by
      rw [hrow, List.length_take]
      omega
    rw [List.length_cons, saveRows]
    rw [append_bounded hlength, hrow, List.drop_zero, take_append_take,
      ih hrows.2 (fun m hm => hshort m (List.mem_cons_of_mem _ hm)) (by rw [List.length_take]; omega),
      take_append_take]
    simp [ended]

theorem exists_line (h : 10 ∉ cur) (rest : List UInt8) : ∃ l ∈ (cur ++ rest).splitOn 10,
    cur.length ≤ l.length := by
  by_cases hmem : 10 ∈ rest
  · obtain ⟨before, after, rfl, hbefore⟩ := List.eq_append_cons_of_mem hmem
    refine ⟨cur ++ before, ?_, by simp⟩
    rw [← List.append_assoc, List.splitOn_append_cons_self_of_not_mem (by simp [h, hbefore])]
    exact List.mem_cons_self ..
  · refine ⟨cur ++ rest, ?_, by simp⟩
    rw [List.splitOn_eq_singleton (by simp [h, hmem])]
    exact List.mem_cons_self ..

theorem loadBytes_rows (rest : List UInt8) : ∀ {lines : ℕ → Cells} {above : List (List UInt8)}
    {cur : List UInt8},
    Rows lines 0 (above ++ [cur]) → 10 ∉ cur → (∀ l ∈ above, l.length < editMaxCols) →
      cur.length < editMaxCols →
    0 ∉ rest → 13 ∉ rest →
    above.length + rest.count 10 < editMaxLines →
      (∀ l ∈ (cur ++ rest).splitOn 10, l.length < editMaxCols) →
    ∃ ls, Rows (loadBytes rest lines above.length cur.length).1 0 ls ∧
      (loadBytes rest lines above.length cur.length).2 + 1 = ls.length ∧
        (∀ l ∈ ls, l.length < editMaxCols) ∧
      ended ls = ended above ++ cur ++ rest ++ [10] := by
  induction rest with
  | nil =>
    intro lines above cur hrows _ habove hcur _ _ _ _
    refine ⟨above ++ [cur], hrows, by simp [loadBytes], fun l hl => ?_, by simp [ended]⟩
    rcases List.mem_append.mp hl with hl | hl
    · exact habove l hl
    · rwa [List.mem_singleton.mp hl]
  | cons ch rest ih =>
    intro lines above cur hrows hno habove hcur hzero hreturn hcount hshort
    obtain ⟨hrows, hlast, -⟩ := rows_append.mp hrows
    rw [Nat.zero_add] at hlast
    simp only [List.mem_cons, not_or] at hzero hreturn
    unfold loadBytes
    rw [if_neg (by omega), if_neg (Ne.symm hreturn.1)]
    by_cases hnl : ch = 10
    · subst hnl
      rw [List.count_cons_self] at hcount
      rw [List.splitOn_append_cons_self_of_not_mem hno] at hshort
      rw [if_pos rfl]
      dsimp only
      rw [if_neg (by omega)]
      have hcut : Holds (put (lines above.length) cur.length 0) cur :=
        Holds.cut (t := []) (by simpa using hlast)
      have hdone := hrows.setRow_last hcut
      have hnew : Holds (put (setRow lines above.length (put (lines above.length) cur.length 0)
          (above.length + 1)) 0 0) [] := holds_nil put_same
      have hrows' := hdone.setRow_last (by simpa using hnew)
      simp only [List.length_append, List.length_singleton] at hrows'
      have hstep := ih hrows' List.not_mem_nil
        (fun l hl => (List.mem_append.mp hl).elim (habove l) fun h => by rwa [List.mem_singleton.mp h])
        (by decide) hzero.2 hreturn.2 (by simp; omega)
          (fun l hl => hshort l (List.mem_cons_of_mem _ hl))
      simpa [ended] using hstep
    · have hno' : 10 ∉ cur ++ [ch] := by simp [hno, Ne.symm hnl]
      have happend : cur ++ ch :: rest = cur ++ [ch] ++ rest := by simp
      rw [happend] at hshort
      obtain ⟨l, hl, hlong⟩ := exists_line hno' rest
      have hfit := hshort l hl
      rw [List.length_append, List.length_singleton] at hlong
      rw [List.count_cons_of_ne hnl] at hcount
      rw [if_neg hnl, if_pos (by omega)]
      have hrows' := hrows.setRow_last (hlast.append_one (Ne.symm hzero.1))
      have hstep := ih hrows' hno' habove (by simp; omega) hzero.2 hreturn.2 hcount hshort
      simpa using hstep

theorem loadFile_rows {contents : List UInt8} (hzero : 0 ∉ contents) (hreturn : 13 ∉ contents)
    (hcount : contents.count 10 < editMaxLines)
    (hshort : ∀ l ∈ contents.splitOn 10, l.length < editMaxCols) :
    ∃ ls, Rows (loadFile e (some contents)).lines 0 ls ∧
      (loadFile e (some contents)).lineCount = ls.length ∧
      (∀ l ∈ ls, l.length < editMaxCols) ∧ ended ls = contents ++ [10] := by
  have hstart : Rows (setRow e.lines 0 (put (e.lines 0) 0 0)) 0 ([] ++ [[]]) := by
    have hnone : Rows e.lines 0 [] := trivial
    exact hnone.setRow_last (holds_nil put_same)
  cases contents with
  | nil => exact ⟨[[]], hstart, rfl, by simp [editMaxCols], rfl⟩
  | cons ch rest =>
    exact loadBytes_rows (ch :: rest) hstart List.not_mem_nil (by simp) (by decide) hzero hreturn
      (by simpa using hcount) hshort

theorem ended_length_le (h : ∀ l ∈ ls, l.length < editMaxCols) :
    (ended ls).length ≤ ls.length * editMaxCols := by
  induction ls with
  | nil => simp [ended]
  | cons l ls ih =>
    have hl := h l (List.mem_cons_self ..)
    have hrest := ih fun m hm => h m (List.mem_cons_of_mem _ hm)
    simp only [ended, List.flatMap_cons, List.length_append, List.length_cons, List.length_nil]
      at hrest ⊢
    rw [Nat.add_mul]
    omega

theorem length_le_count_ended (ls : List (List UInt8)) : ls.length ≤ (ended ls).count 10 := by
  induction ls with
  | nil => exact Nat.zero_le _
  | cons l ls ih =>
    simp only [ended, List.flatMap_cons, List.count_append, List.count_cons_self, List.length_cons]
      at ih ⊢
    omega

/-- The bytes that `save_file` writes when the file was just opened. -/
def openSave (e : Editor) (contents : List UInt8) : List UInt8 :=
  (saveFile (loadFile e (readFile contents)) true).1

theorem openSave_eq {contents : List UInt8} (hzero : 0 ∉ contents) (hreturn : 13 ∉ contents)
    (hcount : contents.count 10 < editMaxLines)
    (hshort : ∀ l ∈ contents.splitOn 10, l.length < editMaxCols) :
    contents.length < bufferSize ∧ openSave e contents = (contents ++ [10]).take (bufferSize - 1) := by
  obtain ⟨ls, hrows, hlength, hls, hended⟩ := loadFile_rows (e := e) hzero hreturn hcount hshort
  have hlines := length_le_count_ended ls
  have hsize := ended_length_le hls
  rw [hended, List.count_append, List.count_singleton_self] at hlines
  rw [hended, List.length_append, List.length_singleton] at hsize
  have hle : ls.length * editMaxCols ≤ bufferSize := Nat.mul_le_mul_right _ (by omega)
  refine ⟨by omega, ?_⟩
  change savedBytes _ = _
  rw [readFile, List.take_of_length_le (by omega), savedBytes, hlength,
    saveRows_rows ls hrows hls (by decide), hended, List.nil_append]

/-- Opening and saving leaves a file as it is exactly if the file fills the buffer, and then it does so
again. -/
theorem open_save_iff (e : Editor) (contents : List UInt8) (hzero : 0 ∉ contents)
    (hreturn : 13 ∉ contents)
    (hcount : contents.count 10 ≤ 255) (hshort : ∀ l ∈ contents.splitOn 10, l.length ≤ 191) :
    (openSave e contents = contents ∧ openSave e (openSave e contents) = openSave e contents) ↔
      contents.length = bufferSize - 1 := by
  have hshort' : ∀ l ∈ contents.splitOn 10, l.length < editMaxCols :=
    fun l hl => Nat.lt_succ_of_le (hshort l hl)
  obtain ⟨hlength, heq⟩ := openSave_eq (e := e) hzero hreturn (Nat.lt_succ_of_le hcount) hshort'
  constructor
  · rintro ⟨hsame, -⟩
    by_contra hne
    rw [heq, List.take_of_length_le (by simp; omega)] at hsame
    simpa using congrArg List.length hsame
  · intro hfull
    have hsame : openSave e contents = contents := by
      rw [heq, ← hfull, List.take_append_of_le_length le_rfl, List.take_length]
    exact ⟨hsame, by rw [hsame, hsame]⟩

def emptyEditor : Editor := ⟨fun _ _ => 0, 1, 0, 0, false, false, ""⟩

/-- So many lines of so many letters, with newlines between them. -/
def equalLines (count length : ℕ) : List UInt8 :=
  (List.replicate count (List.replicate length 97 ++ [10])).flatten ++ List.replicate length 97

variable (count length : ℕ)

theorem mem_equalLines {x : UInt8} (h : x ∈ equalLines count length) : x = 97 ∨ x = 10 := by
  simp only [equalLines, List.mem_append, List.mem_flatten, List.mem_replicate] at h
  rcases h with ⟨l, ⟨-, rfl⟩, hx⟩ | h
  · exact (List.mem_append.mp hx).imp List.eq_of_mem_replicate List.mem_singleton.mp
  · exact .inl h.2

theorem count_equalLines : (equalLines count length).count 10 = count := by
  simp [equalLines, List.count_flatten, List.count_replicate]

theorem length_equalLines : (equalLines count length).length = count * (length + 1) + length := by
  simp [equalLines]

theorem splitOn_equalLines :
    (equalLines count length).splitOn 10 = List.replicate (count + 1) (List.replicate length 97) := by
  have hletters : (10 : UInt8) ∉ List.replicate length 97 := fun h =>
    absurd (List.eq_of_mem_replicate h) (by decide)
  induction count with
  | zero => exact List.splitOn_eq_singleton hletters
  | succ count ih =>
    rw [equalLines, List.replicate_succ, List.flatten_cons, List.append_assoc, List.append_assoc,
      List.singleton_append, List.splitOn_append_cons_self_of_not_mem hletters, ← equalLines, ih,
      ← List.replicate_succ]

/-- The largest file is saved as it was. -/
theorem full_file_kept : openSave emptyEditor (equalLines 255 191) = equalLines 255 191 ∧
    openSave emptyEditor (openSave emptyEditor (equalLines 255 191)) =
      openSave emptyEditor (equalLines 255 191) := by
  refine (open_save_iff emptyEditor _ (fun h => ?_) (fun h => ?_) (count_equalLines 255 191).le
    fun l hl => ?_).mpr (length_equalLines 255 191)
  · exact absurd (mem_equalLines 255 191 h) (by decide)
  · exact absurd (mem_equalLines 255 191 h) (by decide)
  · rw [splitOn_equalLines] at hl
    rw [List.eq_of_mem_replicate hl, List.length_replicate]

/-- A file that ends with a newline gets a second one, and a third one the next time. -/
theorem saved_newline_doubled : openSave emptyEditor [97, 10] = [97, 10, 10] ∧
    openSave emptyEditor (openSave emptyEditor [97, 10]) = [97, 10, 10, 10] := by
  have hone : openSave emptyEditor [97, 10] = [97, 10, 10] :=
    (openSave_eq (by decide) (by decide) (by decide) (by decide)).2.trans rfl
  rw [hone]
  exact ⟨rfl, (openSave_eq (by decide) (by decide) (by decide) (by decide)).2.trans rfl⟩

end TextEditor
