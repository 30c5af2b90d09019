import K64.VirtualMemory

/-! # The memory of a user program

What a user program finds at its addresses, and what a write through its page tables changes of
that. -/
namespace VirtualMemory

open Attempts Attempt

def userByte (w : Access) (a : UInt64) : Option UInt8 :=
  (vmmTranslate w.vmm.mem w.space a true).map w.vmm.mem

/-- A walk does not look at the bits of an address from 48 on. -/
def SameAddress (a b : UInt64) : Prop := a.toNat % 2 ^ 48 = b.toNat % 2 ^ 48

/-- Different addresses are different bytes, and no table is within reach of the user. The spaces that the
loader fills are shown to be such in `ElfLoader.loaded_isolated`. -/
structure Isolated (w : Access) : Prop where
  distinct : ∀ {a b p}, vmmTranslate w.vmm.mem w.space a true = some p →
    vmmTranslate w.vmm.mem w.space b true = some p → SameAddress a b
  tables : ∀ m : Memory,
    (∀ p, (∀ a, vmmTranslate w.vmm.mem w.space a true ≠ some p) → m p = w.vmm.mem p) →
    ∀ a, vmmTranslate m w.space a true = vmmTranslate w.vmm.mem w.space a true

/-- The user's bytes from an address on were replaced by others, and nothing else that the user
sees. -/
structure Wrote (w w' : Access) (virt : UInt64) (data : List UInt8) : Prop where
  isolated : Isolated w'
  inside : ∀ i, (h : i < data.length) → userByte w' (virt + UInt64.ofNat i) = some data[i]
  outside : ∀ a, (∀ i < data.length, ¬ SameAddress a (virt + UInt64.ofNat i)) →
    userByte w' a = userByte w a

variable {w w' w₁ w₂ : Access} {virt phys : UInt64} {data data' : List UInt8} {k : ℕ}

theorem toNat_within (h : virt.toNat % 4096 + k < 4096) :
    (virt + UInt64.ofNat k).toNat = virt.toNat + k := by
  have hlt := virt.toNat_lt
  rw [UInt64.toNat_add, UInt64.toNat_ofNat']
  omega

theorem index_within (h : virt.toNat % 4096 + k < 4096) (shift : UInt64) (n : ℕ)
    (hshift : shift.toNat % 64 = n) (hn : 12 ≤ n) :
    (virt + UInt64.ofNat k) >>> shift = virt >>> shift := by
  refine UInt64.toNat_inj.mp ?_
  obtain ⟨q, hq⟩ : 2 ^ 12 ∣ 2 ^ n := Nat.pow_dvd_pow 2 hn
  rw [UInt64.toNat_shiftRight, UInt64.toNat_shiftRight, hshift, toNat_within h,
    Nat.shiftRight_eq_div_pow, Nat.shiftRight_eq_div_pow, hq, ← Nat.div_div_eq_div_mul,
    ← Nat.div_div_eq_div_mul]
  congr 1
  omega

theorem offset_within (h : virt.toNat % 4096 + k < 4096) (mask : UInt64) (n : ℕ)
    (hmask : mask.toNat = 2 ^ n - 1) (hn : 12 ≤ n) :
    (virt + UInt64.ofNat k) &&& mask = (virt &&& mask) + UInt64.ofNat k := by
  refine UInt64.toNat_inj.mp ?_
  have hlt := virt.toNat_lt
  have hle := Nat.mod_le virt.toNat (2 ^ n)
  obtain ⟨q, hq⟩ : 2 ^ 12 ∣ 2 ^ n := Nat.pow_dvd_pow 2 hn
  have hmod : (virt.toNat + k) % 2 ^ n = virt.toNat % 2 ^ n + k := by
    rw [hq, Nat.mod_mul, Nat.mod_mul,
      show (virt.toNat + k) / 2 ^ 12 = virt.toNat / 2 ^ 12 by omega]
    omega
  rw [UInt64.toNat_and, toNat_within h, hmask, Nat.and_two_pow_sub_one_eq_mod, hmod,
    UInt64.toNat_add, UInt64.toNat_and, hmask, Nat.and_two_pow_sub_one_eq_mod, UInt64.toNat_ofNat',
    Nat.mod_eq_of_lt (show k < 2 ^ 64 by omega),
    Nat.mod_eq_of_lt (show virt.toNat % 2 ^ n + k < 2 ^ 64 by omega)]

theorem translate_within (m : Memory) (space : VmSpace) (requireUser : Bool)
    (h : virt.toNat % 4096 + k < 4096) :
    vmmTranslate m space (virt + UInt64.ofNat k) requireUser =
      (vmmTranslate m space virt requireUser).map (· + UInt64.ofNat k) := by
  have h4 : pml4Index (virt + UInt64.ofNat k) = pml4Index virt := by
    rw [pml4Index, pml4Index, index_within h 39 39 rfl (by omega)]
  have h3 : pdptIndex (virt + UInt64.ofNat k) = pdptIndex virt := by
    rw [pdptIndex, pdptIndex, index_within h 30 30 rfl (by omega)]
  have h2 : pdtIndex (virt + UInt64.ofNat k) = pdtIndex virt := by
    rw [pdtIndex, pdtIndex, index_within h 21 21 rfl (by omega)]
  have h1 : ptIndex (virt + UInt64.ofNat k) = ptIndex virt := by
    rw [ptIndex, ptIndex, index_within h 12 12 rfl (by omega)]
  simp only [vmmTranslate, h4, h3, h2, h1, offset_within h 0x3FFFFFFF 30 (by decide) (by omega),
    offset_within h 0x1FFFFF 21 (by decide) (by omega),
    offset_within h (pageSize - 1) 12 (by decide) (by omega), ← UInt64.add_assoc]
  repeat' split
  all_goals rfl

theorem Isolated.same_tables (h : Isolated w) (m : Memory)
    (hm : ∀ p, (∀ a, vmmTranslate w.vmm.mem w.space a true ≠ some p) → m p = w.vmm.mem p) :
    Isolated { w with vmm := { w.vmm with mem := m } } := by
  have hsame := h.tables m hm
  refine ⟨fun {a b p} ha hb => ?_, fun m' hm' a => ?_⟩
  · exact h.distinct ((hsame a).symm.trans ha) ((hsame b).symm.trans hb)
  · refine (h.tables m' (fun p hp => ?_) a).trans (hsame a).symm
    refine (hm' p fun b hb => hp b ((hsame b).symm.trans hb)).trans (hm p hp)

theorem Isolated.store (h : Isolated w) (hphys : vmmTranslate w.vmm.mem w.space virt true = some phys)
    (hpage : virt.toNat % 4096 + data.length ≤ 4096) :
    Wrote w { w with vmm := { w.vmm with mem := storeBytes w.vmm.mem phys data } } virt data := by
  have hwithin : ∀ i < data.length, vmmTranslate w.vmm.mem w.space (virt + UInt64.ofNat i) true =
      some (phys + UInt64.ofNat i) := by
    intro i hi
    rw [translate_within _ _ _ (by omega), hphys]
    rfl
  have hoffset : ∀ i < data.length, (phys + UInt64.ofNat i - phys).toNat = i := by
    intro i hi
    rw [UInt64.add_comm, UInt64.add_sub_cancel, UInt64.toNat_ofNat']
    exact Nat.mod_eq_of_lt (by omega)
  have hback : ∀ p : UInt64, p = phys + UInt64.ofNat (p - phys).toNat := by
    intro p
    rw [UInt64.ofNat_toNat, UInt64.add_comm, UInt64.sub_add_cancel]
  have hstore : ∀ p, (∀ i < data.length, p ≠ phys + UInt64.ofNat i) →
      storeBytes w.vmm.mem phys data p = w.vmm.mem p := by
    intro p hp
    refine List.getD_eq_default _ _ (Nat.le_of_not_lt fun hlt => ?_)
    exact hp _ hlt (hback p)
  have htables : ∀ p, (∀ a, vmmTranslate w.vmm.mem w.space a true ≠ some p) →
      storeBytes w.vmm.mem phys data p = w.vmm.mem p := fun p hp =>
    hstore p fun i hi he => hp _ (he ▸ hwithin i hi)
  have hsame := h.tables _ htables
  refine ⟨h.same_tables _ htables, fun i hi => ?_, fun a ha => ?_⟩
  · rw [userByte, hsame, hwithin i hi, Option.map_some]
    change some (data.getD (phys + UInt64.ofNat i - phys).toNat _) = _
    rw [hoffset i hi, List.getD_eq_getElem _ _ hi]
  · rw [userByte, userByte, hsame]
    cases htranslate : vmmTranslate w.vmm.mem w.space a true with
    | none => rfl
    | some p =>
      refine congrArg some (hstore p fun i hi he => ha i hi ?_)
      exact h.distinct htranslate (he ▸ hwithin i hi)

theorem sameAddress_offset {a : UInt64} {i j : ℕ} (hi : i < 2 ^ 48) (hj : j < 2 ^ 48) (hne : i ≠ j) :
    ¬ SameAddress (a + UInt64.ofNat i) (a + UInt64.ofNat j) := by
  have hlt := a.toNat_lt
  rw [SameAddress, UInt64.toNat_add, UInt64.toNat_add, UInt64.toNat_ofNat', UInt64.toNat_ofNat']
  omega

theorem Wrote.nil (h : Isolated w) : Wrote w w virt [] :=
  ⟨h, fun _ hi => absurd hi (Nat.not_lt_zero _), fun _ _ => rfl⟩

theorem Wrote.append (h : Wrote w w₁ virt data)
    (h' : Wrote w₁ w₂ (virt + UInt64.ofNat data.length) data')
    (hsize : data.length + data'.length ≤ 2 ^ 48) : Wrote w w₂ virt (data ++ data') := by
  have hnext : ∀ j, virt + UInt64.ofNat data.length + UInt64.ofNat j =
      virt + UInt64.ofNat (data.length + j) := fun j => by rw [UInt64.ofNat_add, UInt64.add_assoc]
  refine ⟨h'.isolated, fun i hi => ?_, fun a ha => ?_⟩
  · rw [List.length_append] at hi
    by_cases hfirst : i < data.length
    · rw [List.getElem_append_left hfirst, ← h.inside i hfirst]
      refine h'.outside _ fun j hj => ?_
      rw [hnext]
      exact sameAddress_offset (by omega) (by omega) (by omega)
    · obtain ⟨j, rfl⟩ := Nat.exists_eq_add_of_le (Nat.le_of_not_lt hfirst)
      rw [List.getElem_append_right (Nat.le_add_right _ _), ← hnext, h'.inside j (by omega)]
      simp only [Nat.add_sub_cancel_left]
  · rw [List.length_append] at ha
    rw [h'.outside a fun j hj => ?_, h.outside a fun i hi => ha i (by omega)]
    rw [hnext]
    exact ha _ (by omega)

end VirtualMemory
