import K64.ArgumentText
import K64.UserMemory
import Mathlib.Data.List.Pairwise

/-! # The initial stack

`elf_write_initial_stack` pushes strings and tables downwards, and corrects the alignment before it
pushes the tables. A program that decodes its stack finds what was pushed. -/
namespace ElfLoader

open ByteCodec Attempts Attempt VirtualMemory

section Decoding

variable (read : UInt64 → Option UInt8)

def wordAt (a : UInt64) : Option UInt64 :=
  ((List.range 8).mapM fun i => read (a + UInt64.ofNat i)).map fun bytes => UInt64.ofNat (leNat bytes)

def stringAt : ℕ → UInt64 → Option (List UInt8)
  | 0, _ => none
  | fuel + 1, a => do
    let c ← read a
    if c = 0 then return []
    else return c :: (← stringAt fuel (a + 1))

end Decoding

def tableWords (argvUser envUser : List UInt64) (auxv : List (UInt64 × UInt64)) : List UInt64 :=
  [UInt64.ofNat argvUser.length] ++ argvUser ++ [0] ++ envUser ++ [0] ++
    auxv.flatMap fun (key, value) => [key, value]

def wordBytes (words : List UInt64) : List UInt8 := words.flatMap fun word => leBytes 8 word.toNat

def stringBytes (strings : List (List UInt8)) : List UInt8 := strings.flatMap (· ++ [0])

def stringAddrs : UInt64 → List (List UInt8) → List UInt64
  | _, [] => []
  | a, s :: strings => a :: stringAddrs (a + UInt64.ofNat (s.length + 1)) strings

/-- The user finds an image at an address; some of its bytes may be anything. -/
def Holds (w : Access) (base : UInt64) (image : List (Option UInt8)) : Prop :=
  ∀ i b, image[i]? = some (some b) → userByte w (base + UInt64.ofNat i) = some b

variable {w w' : Access} {base sp : UInt64} {image image' : List (Option UInt8)} {data : List UInt8}

theorem Holds.left (h : Holds w base (image ++ image')) : Holds w base image := by
  intro i b hi
  refine h i b ?_
  rw [List.getElem?_append_left (List.getElem?_eq_some_iff.mp hi).1]
  exact hi

theorem Holds.right (h : Holds w base (image ++ image')) :
    Holds w (base + UInt64.ofNat image.length) image' := by
  intro i b hi
  rw [UInt64.add_assoc, ← UInt64.ofNat_add]
  refine h _ b ?_
  rw [List.getElem?_append_right (Nat.le_add_right _ _), Nat.add_sub_cancel_left]
  exact hi

theorem Holds.byte {b : UInt8} (h : Holds w base (some b :: image)) : userByte w base = some b := by
  have := h 0 b rfl
  rwa [show UInt64.ofNat 0 = 0 from rfl, UInt64.add_zero] at this

theorem Holds.tail {b : Option UInt8} (h : Holds w base (b :: image)) : Holds w (base + 1) image := by
  have hcons : Holds w base ([b] ++ image) := h
  exact hcons.right

theorem below (base : UInt64) (n j : ℕ) :
    base - UInt64.ofNat n + UInt64.ofNat (n + j) = base + UInt64.ofNat j := by
  rw [UInt64.ofNat_add, ← UInt64.add_assoc, UInt64.sub_add_cancel]

theorem Holds.push (h : Holds w base image)
    (hwrote : Wrote w w' (base - UInt64.ofNat data.length) data)
    (hsize : data.length + image.length ≤ 2 ^ 48) :
    Holds w' (base - UInt64.ofNat data.length) (data.map some ++ image) := by
  intro i b hi
  by_cases hfirst : i < data.length
  · rw [List.getElem?_append_left (by rwa [List.length_map]), List.getElem?_map,
      List.getElem?_eq_getElem hfirst] at hi
    rw [hwrote.inside i hfirst]
    exact Option.some.inj hi
  · obtain ⟨j, rfl⟩ := Nat.exists_eq_add_of_le (Nat.le_of_not_lt hfirst)
    rw [List.getElem?_append_right (by rw [List.length_map]; omega), List.length_map,
      Nat.add_sub_cancel_left] at hi
    have hj := (List.getElem?_eq_some_iff.mp hi).1
    rw [hwrote.outside _ fun k hk => sameAddress_offset (by omega) (by omega) (by omega), below]
    exact h j b hi

theorem Holds.skip (h : Holds w base image) (n : ℕ) :
    Holds w (base - UInt64.ofNat n) (List.replicate n none ++ image) := by
  intro i b hi
  by_cases hfirst : i < n
  · rw [List.getElem?_append_left (by rwa [List.length_replicate]), List.getElem?_replicate,
      if_pos hfirst] at hi
    cases hi
  · obtain ⟨j, rfl⟩ := Nat.exists_eq_add_of_le (Nat.le_of_not_lt hfirst)
    rw [List.getElem?_append_right (by rw [List.length_replicate]; omega), List.length_replicate,
      Nat.add_sub_cancel_left] at hi
    rw [below]
    exact h j b hi

variable (strings : List (List UInt8))

/-- Where strings lie, with their lengths. -/
def stringPieces (addrs : List UInt64) (strings : List (List UInt8)) : List (ℕ × ℕ) :=
  List.zipWith (fun a s => (a.toNat, s.length + 1)) addrs strings

/-- One piece of memory ends before another one starts. -/
def Before (p q : ℕ × ℕ) : Prop := p.1 + p.2 ≤ q.1

theorem stringPieces_between : ∀ (base : UInt64),
    base.toNat + textSize strings < 2 ^ 64 →
    (stringPieces (stringAddrs base strings) strings).Pairwise Before ∧
      (∀ p ∈ stringPieces (stringAddrs base strings) strings,
        base.toNat ≤ p.1 ∧ p.1 + p.2 ≤ base.toNat + textSize strings) ∧
      ∀ a ∈ stringAddrs base strings, base.toNat ≤ a.toNat := by
  induction strings with
  | nil => exact fun _ _ => ⟨.nil, fun _ hp => absurd hp List.not_mem_nil,
      fun _ ha => absurd ha List.not_mem_nil⟩
  | cons s strings ih =>
    intro base hsize
    rw [textSize_cons] at hsize ⊢
    have hnext : (base + UInt64.ofNat (s.length + 1)).toNat = base.toNat + (s.length + 1) := by
      rw [UInt64.toNat_add, UInt64.toNat_ofNat']
      omega
    obtain ⟨hpairs, hpieces, haddrs⟩ := ih (base + UInt64.ofNat (s.length + 1))
      (by rw [hnext]; omega)
    rw [hnext] at hpieces haddrs
    refine ⟨List.pairwise_cons.mpr ⟨fun p hp => (hpieces p hp).1, hpairs⟩, ?_, ?_⟩
    · refine List.forall_mem_cons.mpr ⟨⟨le_rfl, ?_⟩, fun p hp => ?_⟩
      · dsimp only
        omega
      · have := hpieces p hp
        omega
    · refine List.forall_mem_cons.mpr ⟨le_rfl, fun a ha => ?_⟩
      have := haddrs a ha
      omega

structure StackLaid (w : Access) (sp : UInt64) (argv : List (List UInt8))
    (entries : UInt64 → UInt64 → List (UInt64 × UInt64)) (argvBase envBase randomUser : UInt64) :
    Prop where
  aligned : sp.toNat % 16 = 0
  tables_end : sp.toNat + 8 * (argv.length + 38) ≤ randomUser.toNat
  random_end : randomUser.toNat + 16 = envBase.toNat
  env_end : envBase.toNat + textSize elfEnv = argvBase.toNat
  argv_end : argvBase.toNat + textSize argv < 2 ^ 64
  argv_holds : Holds w argvBase ((stringBytes argv).map some)
  env_holds : Holds w envBase ((stringBytes elfEnv).map some)
  tables_hold : Holds w sp ((wordBytes (tableWords (stringAddrs argvBase argv)
    (stringAddrs envBase elfEnv)
    (entries randomUser ((stringAddrs argvBase argv).headD 0) ++ [(0, 0)]))).map some)

variable {who : Identity} {stackTop entry phdr phnum phentsize atBase : UInt64}
  {argv : List (List UInt8)}

end ElfLoader
