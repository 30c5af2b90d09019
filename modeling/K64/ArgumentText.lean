import K64.ElfLoader
import Mathlib.Data.List.TakeWhile

/-! # The text of the arguments

`elf_parse_args` byte by byte: a buffer that is filled from the front, and slots that point into it.
What is kept of the path and the arguments are their words, if they all fit. -/
namespace ElfLoader

/-- The bytes that have been written to the text, and where in it the arguments start. -/
structure ArgText where
  text : List UInt8
  argv : List ℕ

def ArgText.put (t : ArgText) (c : UInt8) : ArgText := { t with text := t.text ++ [c] }

def ArgText.start (t : ArgText) : ArgText := { t with argv := t.argv ++ [t.text.length] }

/-- Copies up to a blank, the end or the last byte of the buffer. -/
def copyWord : List UInt8 → ArgText → ArgText × List UInt8
  | [], t => (t, [])
  | c :: s, t =>
    if c != 0 && !isBlank c && decide (t.text.length + 1 < elfArgTextMax) then copyWord s (t.put c)
    else (t, c :: s)

def ArgText.strings (t : ArgText) : List (List UInt8) :=
  t.argv.map fun o => (t.text.drop o).takeWhile (· != 0)

def firstWord (path : List UInt8) : List UInt8 := path.takeWhile fun c => c != 0 && !isBlank c

/-- The bytes that words take with their terminators. -/
def textSize (words : List (List UInt8)) : ℕ := (words.map fun w => w.length + 1).sum

variable {t : ArgText} {c : UInt8} {s w rest : List UInt8} {n pos : ℕ}

theorem firstWord_cons (h : (c != 0 && !isBlank c) = true) : firstWord (c :: s) = c :: firstWord s :=
  List.takeWhile_cons_of_pos (p := fun c => c != 0 && !isBlank c) h

theorem firstWord_stop (h : ¬ (c != 0 && !isBlank c) = true) : firstWord (c :: s) = [] :=
  List.takeWhile_cons_of_neg (p := fun c => c != 0 && !isBlank c) h

theorem textSize_cons (w : List UInt8) (words : List (List UInt8)) :
    textSize (w :: words) = w.length + 1 + textSize words := rfl

theorem copyWord_eq (s : List UInt8) : ∀ {t : ArgText}, t.text.length < elfArgTextMax →
    copyWord s t = ({ t with text := t.text ++ tokenOf (elfArgTextMax - 1 - t.text.length) s },
      s.drop (tokenOf (elfArgTextMax - 1 - t.text.length) s).length) := by
  induction s with
  | nil =>
    intro t _
    simp [copyWord, tokenOf]
  | cons c s ih =>
    intro t ht
    rw [copyWord]
    by_cases hgood : (c != 0 && !isBlank c) = true
    · by_cases hroom : t.text.length + 1 < elfArgTextMax
      · have hput : (t.put c).text.length = t.text.length + 1 := List.length_append
        have htoken : tokenOf (elfArgTextMax - 1 - t.text.length) (c :: s) =
            c :: tokenOf (elfArgTextMax - 1 - (t.text.length + 1)) s := by
          change ((firstWord (c :: s)).take _) = _
          rw [firstWord_cons hgood, show elfArgTextMax - 1 - t.text.length =
            elfArgTextMax - 1 - (t.text.length + 1) + 1 by omega, List.take_succ_cons]
          rfl
        rw [hgood, decide_eq_true hroom, if_pos (Bool.and_true _ ▸ rfl),
          ih (by rw [hput]; exact hroom), hput, htoken]
        simp [ArgText.put]
      · have hzero : elfArgTextMax - 1 - t.text.length = 0 := by omega
        rw [decide_eq_false hroom, Bool.and_false, if_neg Bool.false_ne_true, hzero]
        simp [tokenOf]
    · have htoken : ∀ room, tokenOf room (c :: s) = [] := fun room => by
        change ((firstWord (c :: s)).take room) = []
        rw [firstWord_stop hgood, List.take_nil]
      rw [Bool.eq_false_of_not_eq_true hgood, Bool.false_and, if_neg Bool.false_ne_true, htoken]
      simp

structure Terminated (t : ArgText) : Prop where
  text : t.text.length ≤ elfArgTextMax
  strings : ∀ o ∈ t.argv, 0 ∈ t.text.drop o

theorem takeWhile_terminated {l : List UInt8} (h : 0 ∈ l) (more : List UInt8) :
    (l ++ more).takeWhile (· != 0) = l.takeWhile (· != 0) := by
  rw [List.takeWhile_append, if_neg]
  intro hlength
  have hall : l.takeWhile (· != 0) = l := (List.takeWhile_prefix _).eq_of_length hlength
  have := List.mem_takeWhile_imp (hall.symm ▸ h : (0 : UInt8) ∈ l.takeWhile (· != 0))
  exact absurd this (by decide)

theorem Terminated.word (h : Terminated t) (hzero : 0 ∉ w)
    (hroom : t.text.length + w.length + 1 ≤ elfArgTextMax) :
    Terminated ⟨t.text ++ w ++ [0], t.argv ++ [t.text.length]⟩ ∧
      ArgText.strings ⟨t.text ++ w ++ [0], t.argv ++ [t.text.length]⟩ = t.strings ++ [w] := by
  have hwithin : ∀ o ∈ t.argv, o ≤ t.text.length := fun o ho =>
    Nat.le_of_not_lt fun hlt => by
      have := h.strings o ho
      rw [List.drop_eq_nil_of_le (by omega)] at this
      cases this
  have hold : ∀ o ∈ t.argv, (t.text ++ w ++ [0]).drop o = t.text.drop o ++ (w ++ [0]) := by
    intro o ho
    rw [List.append_assoc, List.drop_append_of_le_length (hwithin o ho)]
  have hnew : (t.text ++ w ++ [0]).drop t.text.length = w ++ [0] := by
    rw [List.append_assoc, List.drop_left]
  refine ⟨⟨?_, fun o ho => ?_⟩, ?_⟩
  · simp only [List.length_append, List.length_singleton]
    omega
  · rcases List.mem_append.mp ho with ho | ho
    · rw [hold o ho]
      exact List.mem_append_left _ (h.strings o ho)
    · rw [List.mem_singleton.mp ho, hnew]
      exact List.mem_append_right _ List.mem_cons_self
  · rw [ArgText.strings, List.map_append, ArgText.strings]
    refine congrArg₂ _ (List.map_congr_left fun o ho => ?_) ?_
    · rw [hold o ho, takeWhile_terminated (h.strings o ho)]
    · rw [List.map_singleton, hnew, List.takeWhile_append_of_pos fun c hc => ?_]
      · simp
      · rw [bne_iff_ne]
        rintro rfl
        exact hzero hc

theorem tokenOf_zero (room : ℕ) (s : List UInt8) : 0 ∉ tokenOf room s := by
  intro h
  have := List.mem_takeWhile_imp (List.mem_of_mem_take h)
  exact absurd this (by decide)

theorem length_tokenOf (room : ℕ) (s : List UInt8) : (tokenOf room s).length ≤ room :=
  List.length_take_le _ _

theorem Terminated.copy (h : Terminated t) (hroom : t.text.length < elfArgTextMax) (s : List UInt8) :
    Terminated ((copyWord s t.start).1.put 0) ∧
      ((copyWord s t.start).1.put 0).text.length =
        t.text.length + (tokenOf (elfArgTextMax - 1 - t.text.length) s).length + 1 ∧
      ((copyWord s t.start).1.put 0).strings =
        t.strings ++ [tokenOf (elfArgTextMax - 1 - t.text.length) s] ∧
      (copyWord s t.start).2 = s.drop (tokenOf (elfArgTextMax - 1 - t.text.length) s).length := by
  have hcopy := copyWord_eq s (t := t.start) hroom
  have hlength := length_tokenOf (elfArgTextMax - 1 - t.text.length) s
  have hword := h.word (tokenOf_zero (elfArgTextMax - 1 - t.text.length) s) (by omega)
  rw [hcopy]
  refine ⟨hword.1, ?_, hword.2, rfl⟩
  simp only [ArgText.put, ArgText.start, List.length_append, List.length_singleton]

end ElfLoader
