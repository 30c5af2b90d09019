import K64.VirtualMemory

/-! # Tables in memory

Page tables as words of memory: what a store changes of a table, and the entries that the manager
writes. -/
namespace VirtualMemory

open ByteCodec

/-- The address of a frame. -/
def Aligned (a : UInt64) : Prop := a.toNat % 4096 = 0

/-- The number of the frame that an address lies in. -/
def frameOf (a : UInt64) : ℕ := a.toNat / 4096

def entryOf (m : Memory) (t : UInt64) (i : Fin 512) : UInt64 := tableEntry m t (UInt64.ofNat i.val)

variable {m m' : Memory} {t t' a : UInt64} {i i' : Fin 512} {bytes : List UInt8}

theorem storeBytes_inside {p : UInt64} (h : (a - p).toNat < bytes.length) :
    storeBytes m p bytes a = bytes[(a - p).toNat] := by
  rw [storeBytes, List.getD_eq_getElem _ _ h]

theorem storeBytes_outside {p : UInt64} (h : bytes.length ≤ (a - p).toNat) :
    storeBytes m p bytes a = m a := by
  rw [storeBytes, List.getD_eq_default _ _ h]

theorem entry_address (ht : Aligned t) (i : Fin 512) {k : ℕ} (hk : k < 8) :
    (t + 8 * UInt64.ofNat i.val + UInt64.ofNat k).toNat = t.toNat + 8 * i.val + k := by
  have hlt := t.toNat_lt
  have hi := i.isLt
  rw [Aligned] at ht
  rw [UInt64.toNat_add, UInt64.toNat_add, UInt64.toNat_mul, UInt64.toNat_ofNat', UInt64.toNat_ofNat']
  change ((t.toNat + 8 * (i.val % 2 ^ 64) % 2 ^ 64) % 2 ^ 64 + k % 2 ^ 64) % 2 ^ 64 = _
  omega

theorem entry_start (ht : Aligned t) (i : Fin 512) :
    (t + 8 * UInt64.ofNat i.val).toNat = t.toNat + 8 * i.val := by
  have h := entry_address ht i (k := 0) (by decide)
  rwa [show UInt64.ofNat 0 = 0 from rfl, UInt64.add_zero, Nat.add_zero] at h

theorem loadWord_congr {p : UInt64}
    (h : ∀ k < 8, m' (p + UInt64.ofNat k) = m (p + UInt64.ofNat k)) : loadWord m' p = loadWord m p := by
  have hmap : ((List.range 8).map fun k => m' (p + UInt64.ofNat k)) =
      (List.range 8).map fun k => m (p + UInt64.ofNat k) :=
    List.map_congr_left fun k hk => h k (List.mem_range.mp hk)
  rw [loadWord, loadWord, hmap]

theorem entryOf_congr (ht : Aligned t) (h : ∀ a, frameOf a = frameOf t → m' a = m a) (i : Fin 512) :
    entryOf m' t i = entryOf m t i := by
  refine loadWord_congr fun k hk => h _ ?_
  have hi := i.isLt
  rw [Aligned] at ht
  rw [frameOf, frameOf, entry_address ht i hk]
  omega

theorem loadWord_storeWord (m : Memory) (p value : UInt64) :
    loadWord (storeWord m p value) p = value := by
  have hmap : ((List.range 8).map fun k => storeWord m p value (p + UInt64.ofNat k)) =
      leBytes 8 value.toNat := by
    refine List.ext_getElem (by simp) fun k hk _ => ?_
    have hk : k < 8 := by simpa using hk
    have hoff : (p + UInt64.ofNat k - p).toNat = k := by
      rw [UInt64.add_comm, UInt64.add_sub_cancel, UInt64.toNat_ofNat']
      exact Nat.mod_eq_of_lt (by omega)
    rw [List.getElem_map, List.getElem_range, storeWord,
      storeBytes_inside (by rw [hoff, length_leBytes]; exact hk)]
    simp only [hoff]
  rw [loadWord, hmap, leNat_leBytes]
  have hlt := value.toNat_lt
  rw [Nat.mod_eq_of_lt (by simpa using hlt), UInt64.ofNat_toNat]

theorem entryOf_storeWord (ht : Aligned t) (ht' : Aligned t') (value : UInt64) :
    entryOf (storeWord m (t + 8 * UInt64.ofNat i.val) value) t' i' =
      if t' = t ∧ i' = i then value else entryOf m t' i' := by
  split
  next h =>
    rw [h.1, h.2]
    exact loadWord_storeWord m _ value
  next h =>
    refine loadWord_congr fun k hk => storeBytes_outside ?_
    have hne : t'.toNat + 8 * i'.val ≠ t.toNat + 8 * i.val := by
      intro he
      have hi := i.isLt
      have hi' := i'.isLt
      rw [Aligned] at ht ht'
      exact h ⟨UInt64.toNat_inj.mp (by omega), Fin.ext (by omega)⟩
    have hq := entry_address ht' i' hk
    have hp := entry_start ht i
    have hlt := t.toNat_lt
    have hlt' := t'.toNat_lt
    have hi := i.isLt
    have hi' := i'.isLt
    change (leBytes 8 value.toNat).length ≤ (t' + 8 * UInt64.ofNat i'.val + UInt64.ofNat k -
      (t + 8 * UInt64.ofNat i.val)).toNat
    rw [length_leBytes, UInt64.toNat_sub, hq, hp]
    rw [Aligned] at ht ht'
    omega

theorem storeBytes_frame {f offset : UInt64} (hf : Aligned f)
    (hlen : offset.toNat + bytes.length ≤ 4096) (ha : frameOf a ≠ frameOf f) :
    storeBytes m (f + offset) bytes a = m a := by
  rcases Nat.eq_zero_or_pos bytes.length with hnil | hpos
  · exact storeBytes_outside (by omega)
  have hlt := f.toNat_lt
  have halt := a.toNat_lt
  rw [Aligned] at hf
  rw [frameOf, frameOf] at ha
  have hp : (f + offset).toNat = f.toNat + offset.toNat := by
    rw [UInt64.toNat_add]
    omega
  refine storeBytes_outside ?_
  rw [UInt64.toNat_sub, hp]
  omega

theorem storeWord_frame (ht : Aligned t) (i : Fin 512) (value : UInt64)
    (ha : frameOf a ≠ frameOf t) : storeWord m (t + 8 * UInt64.ofNat i.val) value a = m a := by
  refine storeBytes_frame ht ?_ ha
  have hi := i.isLt
  rw [length_leBytes, UInt64.toNat_mul, UInt64.toNat_ofNat']
  change 8 * (i.val % 2 ^ 64) % 2 ^ 64 + 8 ≤ 4096
  omega

theorem frameOf_inj (ht : Aligned t) (ht' : Aligned t') (h : frameOf t = frameOf t') : t = t' := by
  rw [Aligned] at ht ht'
  rw [frameOf, frameOf] at h
  exact UInt64.toNat_inj.mp (by omega)

theorem cleared_entry {f : UInt64} (hf : Aligned f) (i : Fin 512) :
    entryOf (storeBytes m f (List.replicate 4096 0)) f i = 0 := by
  have hbyte : ∀ k ∈ List.range 8, storeBytes m f (List.replicate 4096 0)
      (f + 8 * UInt64.ofNat i.val + UInt64.ofNat k) = 0 := by
    intro k hk
    have hi := i.isLt
    have hk := List.mem_range.mp hk
    have hlt : (f + 8 * UInt64.ofNat i.val + UInt64.ofNat k - f).toNat < 4096 := by
      have := f.toNat_lt
      rw [UInt64.toNat_sub, entry_address hf i hk]
      omega
    rw [storeBytes_inside (by rwa [List.length_replicate]), List.getElem_replicate]
  change UInt64.ofNat (leNat ((List.range 8).map _)) = 0
  rw [List.map_congr_left hbyte]
  rfl

theorem or_and (a b c : UInt64) : (a ||| b) &&& c = (a &&& c) ||| (b &&& c) := by
  refine UInt64.toBitVec_inj.mp ?_
  ext k hk
  simp [Bool.and_or_distrib_right]

theorem Aligned.and_low (h : Aligned t) {c : UInt64} (hc : 0xFFF &&& c = c) : t &&& c = 0 := by
  have hlow : t &&& 0xFFF = 0 := by
    refine UInt64.toNat_inj.mp ?_
    rw [UInt64.toNat_and]
    exact (Nat.and_two_pow_sub_one_eq_mod t.toNat 12).trans h
  rw [← hc, ← UInt64.and_assoc, hlow, UInt64.zero_and]

theorem Aligned.and_mask (h : Aligned t) : t &&& pageMask = t := by
  have hall : t &&& (0xFFF ||| pageMask) = t := by
    rw [show (0xFFF : UInt64) ||| pageMask = -1 from rfl, UInt64.and_neg_one]
  rw [UInt64.and_comm, or_and, UInt64.and_comm 0xFFF, h.and_low rfl, UInt64.zero_or,
    UInt64.and_comm] at hall
  exact hall

theorem aligned_and {c : UInt64} (hc : Aligned c) (a : UInt64) : Aligned (a &&& c) := by
  rw [Aligned] at hc ⊢
  have hmod : (a.toNat &&& c.toNat) % 2 ^ 12 = a.toNat % 2 ^ 12 &&& c.toNat % 2 ^ 12 :=
    Nat.and_mod_two_pow
  rw [show c.toNat % 2 ^ 12 = 0 from hc, Nat.and_zero] at hmod
  rw [UInt64.toNat_and]
  exact hmod

/-- The entry that gives the user the frame `t`, a table or a page. -/
def userEntry (t : UInt64) : UInt64 := t ||| pageTableFlags ||| pageUser

theorem userEntry_leads (ht : Aligned t) :
    userEntry t &&& pageLarge = 0 ∧ userEntry t &&& pageMask = t := by
  constructor
  · rw [userEntry, UInt64.or_assoc, or_and, ht.and_low rfl]
    rfl
  · rw [userEntry, UInt64.or_assoc, or_and, ht.and_mask]
    exact UInt64.or_zero

end VirtualMemory
