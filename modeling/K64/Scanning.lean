import Mathlib.Tactic.Common
import Mathlib.Data.List.TakeWhile

/-! # Scanning lists

A scan takes the elements of a list while they satisfy a predicate. A front of such elements, with
something else or nothing behind it, is what the scan takes. -/
namespace Scanning

variable {α : Type} {p : α → Bool} {front behind front' behind' : List α}

theorem head_dropWhile (p : α → Bool) (l : List α) : ∀ x ∈ (l.dropWhile p).head?, p x = false := by
  intro x hx
  have := List.head?_dropWhile_not p l
  rw [Option.mem_def.mp hx] at this
  simpa using this

theorem mem_takeWhile {l : List α} {x : α} (h : x ∈ l.takeWhile p) : p x = true :=
  List.mem_takeWhile_imp h

theorem dropWhile_front (hfront : ∀ x ∈ front, p x = true)
    (hbehind : ∀ x ∈ behind.head?, p x = false) : (front ++ behind).dropWhile p = behind := by
  rw [List.dropWhile_append_of_pos hfront]
  cases behind with
  | nil => rfl
  | cons x behind =>
    rw [List.dropWhile_cons, if_neg (by rw [hbehind x rfl]; exact Bool.false_ne_true)]

theorem takeWhile_front (hfront : ∀ x ∈ front, p x = true)
    (hbehind : ∀ x ∈ behind.head?, p x = false) : (front ++ behind).takeWhile p = front := by
  rw [List.takeWhile_append_of_pos hfront]
  cases behind with
  | nil => simp
  | cons x behind =>
    rw [List.takeWhile_cons, if_neg (by rw [hbehind x rfl]; exact Bool.false_ne_true),
      List.append_nil]

theorem takeWhile_all {l : List α} (h : ∀ x ∈ l, p x = true) : l.takeWhile p = l := by
  have := takeWhile_front h (fun (x : α) (hx : x ∈ [].head?) => by cases hx)
  rwa [List.append_nil] at this

theorem dropWhile_none {l : List α} (h : ∀ x ∈ l.head?, p x = false) : l.dropWhile p = l := by
  cases l with
  | nil => rfl
  | cons x l => rw [List.dropWhile_cons, if_neg (by rw [h x rfl]; exact Bool.false_ne_true)]

theorem front_unique (h : front ++ behind = front' ++ behind')
    (hfront : ∀ x ∈ front, p x = true) (hbehind : ∀ x ∈ behind.head?, p x = false)
    (hfront' : ∀ x ∈ front', p x = true) (hbehind' : ∀ x ∈ behind'.head?, p x = false) :
    front = front' ∧ behind = behind' := by
  constructor
  · rw [← takeWhile_front hfront hbehind, h, takeWhile_front hfront' hbehind']
  · rw [← dropWhile_front hfront hbehind, h, dropWhile_front hfront' hbehind']

theorem take_scan (p : α → Bool) (l : List α) {n : ℕ}
    (hstop : ∀ x ∈ (l.drop ((l.takeWhile p).take n).length).head?, p x = false) :
    (l.takeWhile p).take n = l.takeWhile p := by
  apply List.take_of_length_le
  by_contra hlong
  have hn : n < (l.takeWhile p).length := Nat.not_le.mp hlong
  have hlen : ((l.takeWhile p).take n).length = n := by
    rw [List.length_take]
    omega
  have hle : n < l.length := Nat.lt_of_lt_of_le hn (List.takeWhile_prefix p).length_le
  have hget : l[n] = (l.takeWhile p)[n] := (List.takeWhile_prefix p).getElem hn |>.symm
  have hfalse := hstop l[n] (by rw [hlen, List.head?_drop, List.getElem?_eq_getElem hle]; rfl)
  rw [hget, mem_takeWhile (List.getElem_mem hn)] at hfalse
  cases hfalse

end Scanning
