import Mathlib.Data.List.Basic
import Mathlib.Data.List.GetD
import Mathlib.Data.Nat.Find
import Mathlib.Order.Basic
import Mathlib.Logic.Function.Basic
import Mathlib.Tactic.Common

/-! # Texts in arrays of characters

An array of characters holds the text in front of its first zero. The operations are the loops of a C
program over such arrays: they move characters by one place and copy up to the zero, cell by cell. -/
namespace ZeroText

/-- The cells of an array, by index. -/
abbrev Cells := ℕ → UInt8

def put (r : Cells) (i : ℕ) (c : UInt8) : Cells := Function.update r i c

/-- The place of the first zero from `i` on, looked for in so many cells. -/
def strlenFrom : ℕ → Cells → ℕ → ℕ
  | 0, _, i => i
  | fuel + 1, r, i => if r i = 0 then i else strlenFrom fuel r (i + 1)

/-- The cells `a`, …, `a + n - 1` move up by one place, the last one first. -/
def openGap : ℕ → Cells → ℕ → Cells
  | 0, r, _ => r
  | n + 1, r, a => openGap n (put r (a + n + 1) (r (a + n))) a

/-- The `n` cells from `i` on take what follows them, the first one first. -/
def closeGap : ℕ → Cells → ℕ → Cells
  | 0, r, _ => r
  | n + 1, r, i => closeGap n (put r i (r (i + 1))) (i + 1)

/-- Copies `src` from `i` on to `dst` from `d` on, up to the zero or so many characters, and ends the
copy. -/
def copyText : ℕ → Cells → ℕ → Cells → ℕ → Cells
  | 0, dst, d, _, _ => put dst d 0
  | fuel + 1, dst, d, src, i =>
    if src i = 0 then put dst d 0 else copyText fuel (put dst d (src i)) (d + 1) src (i + 1)

/-- Whether two arrays have the same characters from `i` on, up to the zero. -/
def sameText : ℕ → Cells → Cells → ℕ → Bool
  | 0, _, _, _ => true
  | fuel + 1, a, b, i => if a i ≠ b i then false else if a i = 0 then true else sameText fuel a b
        (i + 1)

structure Holds (r : Cells) (s : List UInt8) : Prop where
  cell : ∀ i ≤ s.length, r i = s.getD i 0
  free : 0 ∉ s

variable {r dst src : Cells} {s t : List UInt8} {a c : UInt8} {i j n d fuel : ℕ}

@[simp] theorem put_same : put r i c i = c := by simp [put]

theorem put_other (h : j ≠ i) : put r i c j = r j := by simp [put, h]

theorem put_apply (r : Cells) (i : ℕ) (c : UInt8) (j : ℕ) : put r i c j = if j = i then c else r j := by
  simp [put, Function.update_apply]

theorem Holds.zero (h : Holds r s) : r s.length = 0 := by
  rw [h.cell _ le_rfl]
  exact List.getD_eq_default _ _ le_rfl

theorem Holds.get (h : Holds r s) (hi : i < s.length) : r i = s[i] := by
  rw [h.cell i hi.le, List.getD_eq_getElem _ _ hi]

theorem Holds.ne_zero (h : Holds r s) (hi : i < s.length) : r i ≠ 0 := by
  rw [h.get hi]
  exact fun hzero => h.free (hzero ▸ List.getElem_mem hi)

theorem Holds.of_cells (h : Holds r s) {r' : Cells} (heq : ∀ i ≤ s.length, r' i = r i) : Holds r' s :=
  ⟨fun i hi => (heq i hi).trans (h.cell i hi), h.free⟩

theorem holds_nil (h : r 0 = 0) : Holds r [] := by
  refine ⟨fun i hi => ?_, List.not_mem_nil⟩
  rw [Nat.le_zero.mp hi, h]
  rfl

theorem Holds.strlenFrom (h : Holds r s) : ∀ {fuel i : ℕ}, i ≤ s.length → s.length < i + fuel →
    strlenFrom fuel r i = s.length := by
  intro fuel
  induction fuel with
  | zero => intro i hi hfuel; omega
  | succ fuel ih =>
    intro i hi hfuel
    unfold ZeroText.strlenFrom
    by_cases hend : i = s.length
    · rw [if_pos (hend ▸ h.zero), hend]
    · rw [if_neg (h.ne_zero (by omega)), ih (by omega) (by omega)]

theorem Holds.map_range (h : Holds r s) : (List.range s.length).map r = s := by
  apply List.ext_getElem (by simp)
  intro i hi hi'
  simp only [List.getElem_map, List.getElem_range]
  exact h.get hi'

theorem exists_holds (h : r n = 0) : ∃ s, Holds r s ∧ s.length ≤ n := by
  have hex : ∃ i, r i = 0 := ⟨n, h⟩
  classical
  refine ⟨(List.range (Nat.find hex)).map r, ⟨fun i hi => ?_, fun hmem => ?_⟩, ?_⟩
  · rw [List.length_map, List.length_range] at hi
    rcases hi.lt_or_eq with hlt | rfl
    · rw [List.getD_eq_getElem _ _ (by simpa using hlt)]
      simp
    · rw [List.getD_eq_default _ _ (by simp)]
      exact Nat.find_spec hex
  · obtain ⟨i, hi, hzero⟩ := List.mem_map.mp hmem
    exact Nat.find_min hex (List.mem_range.mp hi) hzero
  · rw [List.length_map, List.length_range]
    exact Nat.find_min' hex h

theorem Holds.sameText (h : Holds r s) (h' : Holds src t) : ∀ {fuel i : ℕ}, i ≤ s.length →
    i ≤ t.length →
    (∀ j < i, r j = src j) → s.length < i + fuel → (sameText fuel r src i = true ↔ s = t) := by
  intro fuel
  induction fuel with
  | zero => intro i hi _ _ hfuel; omega
  | succ fuel ih =>
    intro i hi hi' hbefore hfuel
    unfold ZeroText.sameText
    by_cases heq : r i = src i
    · rw [if_neg (not_not.mpr heq)]
      by_cases hzero : r i = 0
      · have hs : i = s.length := hi.lt_or_eq.resolve_left fun hlt => h.ne_zero hlt hzero
        have ht : i = t.length := hi'.lt_or_eq.resolve_left fun hlt => h'.ne_zero hlt (heq ▸ hzero)
        rw [if_pos hzero, eq_self_iff_true, true_iff]
        apply List.ext_getElem (hs.symm.trans ht)
        intro j hj hj'
        rw [← h.get hj, ← h'.get hj', hbefore j (by omega)]
      · have hs : i < s.length := hi.lt_of_ne fun hend => hzero (hend ▸ h.zero)
        have ht : i < t.length := hi'.lt_of_ne fun hend => hzero (heq ▸ hend ▸ h'.zero)
        rw [if_neg hzero]
        refine ih hs ht (fun j hj => ?_) (by omega)
        rcases Nat.lt_or_eq_of_le (Nat.le_of_lt_succ hj) with hlt | rfl
        · exact hbefore j hlt
        · exact heq
    · rw [if_pos heq]
      refine ⟨fun hfalse => absurd hfalse Bool.false_ne_true, ?_⟩
      rintro rfl
      exact absurd ((h.cell i hi).trans (h'.cell i hi').symm) heq

theorem openGap_apply (n : ℕ) : ∀ (r : Cells) (a j : ℕ),
    openGap n r a j = if a < j ∧ j ≤ a + n then r (j - 1) else r j := by
  induction n with
  | zero =>
    intro r a j
    rw [openGap, if_neg (by omega)]
  | succ n ih =>
    intro r a j
    rw [openGap, ih]
    by_cases hlast : j = a + n + 1
    · subst hlast
      rw [if_neg (by omega), if_pos (by omega), put_same]
      rfl
    · by_cases hin : a < j ∧ j ≤ a + n
      · rw [if_pos hin, if_pos (by omega), put_other (by omega)]
      · rw [if_neg hin, if_neg (by omega), put_other hlast]

theorem closeGap_apply (n : ℕ) : ∀ (r : Cells) (a j : ℕ),
    closeGap n r a j = if a ≤ j ∧ j < a + n then r (j + 1) else r j := by
  induction n with
  | zero =>
    intro r a j
    rw [closeGap, if_neg (by omega)]
  | succ n ih =>
    intro r a j
    rw [closeGap, ih]
    by_cases hfirst : j = a
    · subst hfirst
      rw [if_neg (by omega), if_pos (by omega), put_same]
    · by_cases hin : a + 1 ≤ j ∧ j < a + 1 + n
      · rw [if_pos hin, if_pos (by omega), put_other (by omega)]
      · rw [if_neg hin, if_neg (by omega), put_other hfirst]

theorem getD_insert (s t : List UInt8) (c : UInt8) (i : ℕ) : (s ++ c :: t).getD i 0 =
    if i < s.length then (s ++ t).getD i 0 else if i = s.length then c else (s ++ t).getD
      (i - 1) 0 := by
  by_cases hlt : i < s.length
  · rw [if_pos hlt, List.getD_append _ _ _ _ hlt, List.getD_append _ _ _ _ hlt]
  · rw [if_neg hlt, List.getD_append_right _ _ _ _ (by omega)]
    by_cases heq : i = s.length
    · rw [if_pos heq, heq, Nat.sub_self, List.getD_cons_zero]
    · obtain ⟨k, rfl⟩ : ∃ k, i = s.length + k + 1 := ⟨i - s.length - 1, by omega⟩
      rw [if_neg heq, List.getD_append_right _ _ _ _ (by omega)]
      have h1 : s.length + k + 1 - s.length = k + 1 := by omega
      have h2 : s.length + k + 1 - 1 - s.length = k := by omega
      rw [h1, h2, List.getD_cons_succ]

theorem free_insert (h : 0 ∉ s ++ t) (hc : c ≠ 0) : 0 ∉ s ++ c :: t := by
  simp only [List.mem_append, List.mem_cons, not_or] at h ⊢
  exact ⟨h.1, hc.symm, h.2⟩

theorem Holds.insert (h : Holds r (s ++ t)) (hc : c ≠ 0) :
    Holds (put (openGap (t.length + 1) r s.length) s.length c) (s ++ c :: t) := by
  refine ⟨fun i hi => ?_, free_insert h.free hc⟩
  simp only [List.length_append, List.length_cons] at hi
  rw [getD_insert, put_apply, openGap_apply]
  have hcell := h.cell
  simp only [List.length_append] at hcell
  by_cases heq : i = s.length
  · rw [if_pos heq, if_neg (by omega), if_pos heq]
  rw [if_neg heq]
  by_cases hlt : i < s.length
  · rw [if_neg (by omega), if_pos hlt, hcell i (by omega)]
  · rw [if_pos (by omega), if_neg hlt, if_neg heq, hcell (i - 1) (by omega)]

theorem Holds.remove (h : Holds r (s ++ c :: t)) : Holds (closeGap (t.length + 1) r s.length)
    (s ++ t) := by
  refine ⟨fun i hi => ?_, fun hmem => h.free ?_⟩
  · simp only [List.length_append] at hi
    have hcell := h.cell
    simp only [List.length_append, List.length_cons] at hcell
    rw [closeGap_apply]
    by_cases hlt : i < s.length
    · rw [if_neg (by omega), hcell i (by omega), getD_insert, if_pos hlt]
    · rw [if_pos (by omega), hcell (i + 1) (by omega), getD_insert, if_neg (by omega),
        if_neg (by omega),
        Nat.add_sub_cancel]
  · simp only [List.mem_append, List.mem_cons] at hmem ⊢
    exact hmem.imp id Or.inr

theorem Holds.cut (h : Holds r (s ++ t)) : Holds (put r s.length 0) s := by
  refine ⟨fun i hi => ?_, fun hmem => h.free (List.mem_append_left _ hmem)⟩
  rw [put_apply]
  by_cases heq : i = s.length
  · rw [if_pos heq, heq, List.getD_eq_default _ _ le_rfl]
  · rw [if_neg heq, h.cell i (by rw [List.length_append]; omega), List.getD_append _ _ _ _ (by omega)]

theorem Holds.append_one (h : Holds r s) (hc : c ≠ 0) :
    Holds (put (put r s.length c) (s.length + 1) 0) (s ++ [c]) := by
  have hold : Holds r (s ++ []) := by simpa using h
  refine ⟨fun i hi => ?_, free_insert hold.free hc⟩
  simp only [List.length_append, List.length_singleton] at hi
  rw [getD_insert, put_apply, put_apply]
  by_cases hlast : i = s.length + 1
  · rw [if_pos hlast, if_neg (by omega), if_neg (by omega), List.getD_eq_default _ _ (by simp; omega)]
  rw [if_neg hlast]
  by_cases heq : i = s.length
  · rw [if_pos heq, if_neg (by omega), if_pos heq]
  · rw [if_neg heq, if_pos (by omega), hold.cell i (by simp; omega)]

theorem Holds.drop (h : Holds r (s ++ t)) : Holds (fun i => r (s.length + i)) t := by
  refine ⟨fun i hi => ?_, fun hmem => h.free (List.mem_append_right _ hmem)⟩
  rw [h.cell _ (by rw [List.length_append]; omega), List.getD_append_right _ _ _ _ (by omega),
    Nat.add_sub_cancel_left]

theorem copyText_apply (hsrc : Holds src s) (d₀ : ℕ) : ∀ (fuel i : ℕ) (dst : Cells), i ≤ s.length →
    s.length ≤ i + fuel → ∀ j, j ≤ d₀ + s.length → copyText fuel dst (d₀ + i) src i j =
      if d₀ + i ≤ j then s.getD (j - d₀) 0 else dst j := by
  have hend : ∀ (dst : Cells) (j : ℕ), j ≤ d₀ + s.length → put dst (d₀ + s.length) 0 j =
      if d₀ + s.length ≤ j then s.getD (j - d₀) 0 else dst j := by
    intro dst j hj
    rw [put_apply]
    by_cases heq : j = d₀ + s.length
    · rw [if_pos heq, if_pos heq.ge, List.getD_eq_default _ _ (by omega)]
    · rw [if_neg heq, if_neg (by omega)]
  intro fuel
  induction fuel with
  | zero =>
    intro i dst hi hfuel j hj
    obtain rfl : i = s.length := by omega
    exact hend dst j hj
  | succ fuel ih =>
    intro i dst hi hfuel j hj
    unfold copyText
    by_cases hlast : i = s.length
    · subst hlast
      rw [if_pos hsrc.zero]
      exact hend dst j hj
    · have hlt : i < s.length := by omega
      rw [if_neg (hsrc.ne_zero hlt), Nat.add_assoc, ih _ _ (by omega) (by omega) j hj, put_apply]
      by_cases heq : j = d₀ + i
      · subst heq
        rw [if_neg (by omega), if_pos rfl, if_pos le_rfl, Nat.add_sub_cancel_left, hsrc.cell i hlt.le]
      · rw [if_neg heq]
        by_cases hle : d₀ + i ≤ j
        · rw [if_pos hle, if_pos (by omega)]
        · rw [if_neg hle, if_neg (by omega)]

theorem copyText_shift (src : Cells) (fuel : ℕ) : ∀ (dst : Cells) (d k i : ℕ),
    copyText fuel dst d src (k + i) = copyText fuel dst d (fun j => src (k + j)) i := by
  induction fuel with
  | zero => exact fun _ _ _ _ => rfl
  | succ fuel ih =>
    intro dst d k i
    unfold copyText
    rw [Nat.add_assoc, ih]

theorem Holds.copy_behind (hdst : Holds dst s) (hsrc : Holds src t) (hfuel : t.length ≤ fuel) :
    Holds (copyText fuel dst s.length src 0) (s ++ t) := by
  refine ⟨fun j hj => ?_, fun hmem => ?_⟩
  · rw [List.length_append] at hj
    have hcopy := copyText_apply hsrc s.length fuel 0 dst (Nat.zero_le _) (by omega) j hj
    rw [Nat.add_zero] at hcopy
    rw [hcopy]
    by_cases hle : s.length ≤ j
    · rw [if_pos hle, List.getD_append_right _ _ _ _ hle]
    · rw [if_neg hle, hdst.cell j (by omega), List.getD_append _ _ _ _ (by omega)]
  · exact (List.mem_append.mp hmem).elim hdst.free hsrc.free

theorem Holds.copy (hsrc : Holds src t) (hfuel : t.length ≤ fuel) (dst : Cells) :
    Holds (copyText fuel dst 0 src 0) t := by
  refine ⟨fun j hj => ?_, hsrc.free⟩
  have hcopy := copyText_apply hsrc 0 fuel 0 dst (Nat.zero_le _) (by omega) j (by omega)
  rw [Nat.add_zero] at hcopy
  rw [hcopy, if_pos (Nat.zero_le _), Nat.sub_zero]

theorem Holds.copy_end (hsrc : Holds src (s ++ t)) (hfuel : t.length ≤ fuel) (dst : Cells) :
    Holds (copyText fuel dst 0 src s.length) t := by
  have hshift := copyText_shift src fuel dst 0 s.length 0
  rw [Nat.add_zero] at hshift
  rw [hshift]
  exact hsrc.drop.copy hfuel dst

end ZeroText
