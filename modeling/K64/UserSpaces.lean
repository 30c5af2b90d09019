import K64.ElfLoader
import K64.FramePlans
import K64.UserMemory

/-! # The spaces of user programs

A space that was allocated for a program has a plan from its first table on. With one, no two pages of the
user share a frame and no frame of a table is a page, so the spaces that the loader fills are isolated. -/
namespace VirtualMemory

open Attempts Attempt

variable {w : Access} {plan : UInt64 → Option Place} {t u f v : UInt64} {n k : ℕ} {q : Option ℕ}
  {m : Memory}

/-- The tables of the kernel, with the frames they lie in. -/
def KernelTables (v : Vmm) : Prop :=
  ∃ plan, Laid ⟨v, kernelSpace v.kernelCr3⟩ plan ∧
    plan (tableEntry v.mem v.kernelCr3 0 &&& pageMask) = some ⟨3, some 0⟩

/-- The body of the loop of `vmm_clone_kernel_root`. -/
def copyEntry (a b c d i : UInt64) : VmmOp Unit := do
  writeEntry a i (← readEntry c i)
  writeEntry b i (← readEntry d i)

def copiedEntry (m : Memory) (a b c d i : UInt64) : Memory :=
  storeWord (storeWord m (a + 8 * i) (tableEntry m c i)) (b + 8 * i)
    (tableEntry (storeWord m (a + 8 * i) (tableEntry m c i)) d i)

theorem copyEntry_run (a b c d i : UInt64) (w : Access) (m : Memory) :
    copyEntry a b c d i (w.withMem m) = (some (), w.withMem (copiedEntry m a b c d i)) := rfl

theorem copyTables_run {a b c d : UInt64} (ha : Aligned a) (hb : Aligned b) (hc : Aligned c)
    (hd : Aligned d) (hca : c ≠ a) (hcb : c ≠ b) (hda : d ≠ a) (hdb : d ≠ b) (hab : a ≠ b)
    (w : Access) (k : ℕ) : k ≤ 512 → ∃ m,
      ((List.range k).forM fun i => copyEntry a b c d (UInt64.ofNat i)) w =
        (some (), w.withMem m) ∧
      (∀ j : Fin 512, j.val < k → entryOf m a j = entryOf w.vmm.mem c j ∧
        entryOf m b j = entryOf w.vmm.mem d j) ∧
      ∀ t j, Aligned t → t ≠ a → t ≠ b → entryOf m t j = entryOf w.vmm.mem t j := by
  induction k with
  | zero => exact fun _ => ⟨w.vmm.mem, rfl, fun j hj => absurd hj (Nat.not_lt_zero _), fun _ _ _ _ _ => rfl⟩
  | succ k ih =>
    intro hk
    obtain ⟨m, hrun, hcopied, hothers⟩ := ih (by omega)
    let i : Fin 512 := ⟨k, hk⟩
    let m₁ := storeWord m (a + 8 * UInt64.ofNat k) (entryOf m c i)
    have hfirst : ∀ t j, Aligned t → entryOf m₁ t j = if t = a ∧ j = i then entryOf m c i
        else entryOf m t j := fun t j ht => entryOf_storeWord (i := i) ha ht _
    have hsecond : ∀ t j, Aligned t → entryOf (copiedEntry m a b c d (UInt64.ofNat k)) t j =
        if t = b ∧ j = i then entryOf m₁ d i else entryOf m₁ t j :=
      fun t j ht => entryOf_storeWord (i := i) hb ht _
    have hkernel : entryOf m c i = entryOf w.vmm.mem c i ∧ entryOf m₁ d i = entryOf w.vmm.mem d i := by
      rw [hfirst d i hd, if_neg fun he => hda he.1]
      exact ⟨hothers c i hc hca hcb, hothers d i hd hda hdb⟩
    refine ⟨copiedEntry m a b c d (UInt64.ofNat k), ?_, fun j hj => ?_, fun t j ht hta htb => ?_⟩
    · rw [List.range_succ]
      exact (forM_append_of_some hrun).trans (bind_of_some (copyEntry_run a b c d _ w m))
    · have hleft : entryOf (copiedEntry m a b c d (UInt64.ofNat k)) a j =
          if j = i then entryOf m c i else entryOf m a j := by
        rw [hsecond a j ha, if_neg fun he => hab he.1, hfirst a j ha]
        simp only [true_and]
      have hright : entryOf (copiedEntry m a b c d (UInt64.ofNat k)) b j =
          if j = i then entryOf m₁ d i else entryOf m b j := by
        have hkept : entryOf m₁ b j = entryOf m b j := by
          rw [hfirst b j hb, if_neg fun he => hab he.1.symm]
        rw [hsecond b j hb, hkept]
        simp only [true_and]
      rw [hleft, hright]
      split
      next he =>
        rw [he]
        exact hkernel
      next hne =>
        refine hcopied j (lt_of_le_of_ne (Nat.le_of_lt_succ hj) fun he => hne (Fin.ext he))
    · rw [hsecond t j ht, if_neg fun he => htb he.1, hfirst t j ht, if_neg fun he => hta he.1]
      exact hothers t j ht hta htb

theorem Laid.copied (h : Laid w plan) (hu : plan u = none) (haligned : Aligned u)
    (hbusy : Busy w.vmm.pmm u) (ht : plan t = some ⟨n + 1, q⟩)
    (hsame : ∀ i, entryOf w.vmm.mem u i = entryOf w.vmm.mem t i) :
    Laid w (Function.update plan u (some ⟨n + 1, q⟩)) := by
  refine h.place hu haligned hbusy _ fun k q' hx i => ?_
  cases hx
  rw [hsame i]
  exact h.entries ht i

theorem tried_cases (h : Laid w plan) :
    ∃ r w', vmmAllocTableFrame.tried w = (some r, w') ∧ Grown w w' plan plan ∧
      ∀ f, r = some f → Took w w' f := by
  rcases takeFrame_cases h .table with ⟨w', hrun, hfail⟩ | ⟨f, w', hrun, htook⟩
  · refine ⟨none, w', ?_, hfail, fun _ hf => nomatch hf⟩
    rw [Attempt.tried, show vmmAllocTableFrame w = (none, w') from hrun]
  · refine ⟨some f, w', ?_, h.took htook, fun f' hf => ?_⟩
    · rw [Attempt.tried, show vmmAllocTableFrame w = (some f, w') from hrun]
    · cases hf
      exact htook

/-- What `vmm_clone_kernel_root` does with its two tables for a space of the user. -/
def fillRoot (a b c d : UInt64) : VmmOp Unit := do
  (List.range 512).forM fun i => copyEntry a b c d (UInt64.ofNat i)
  writeEntry a 0 (userEntry b)
  change fun w => { w with space := { w.space with cr3 := a } }

theorem fillRoot_tidy (h : Laid w plan) {a b c d : UInt64} (ha : plan a = none) (hb : plan b = none)
    (haligned : Aligned a ∧ Aligned b) (hbusy : Busy w.vmm.pmm a ∧ Busy w.vmm.pmm b) (hab : a ≠ b)
    (hc : plan c = some ⟨4, some 0⟩) (hd : plan d = some ⟨3, some 0⟩) :
    Tidy (fillRoot a b c d w).2 := by
  have hother : ∀ {t u x}, plan t = some x → plan u = none → t ≠ u := by
    rintro t u x ht hu rfl
    exact nomatch hu.symm.trans ht
  obtain ⟨m, hloop, hcopied, hothers⟩ := copyTables_run haligned.1 haligned.2 (h.aligned hc)
    (h.aligned hd) (hother hc ha) (hother hc hb) (hother hd ha) (hother hd hb) hab w 512 le_rfl
  rw [fillRoot, bind_of_some hloop]
  have hsame : ∀ {t x}, plan t = some x → ∀ j, entryOf m t j = entryOf w.vmm.mem t j :=
    fun ht j => hothers _ j (h.aligned ht) (hother ht ha) (hother ht hb)
  have hmem : Laid (w.withMem m) plan := h.memory fun ht i => hsame ht i
  have hpdpt := hmem.copied hb haligned.2 hbusy.2 hd fun i =>
    ((hcopied i i.isLt).2).trans (hsame hd i).symm
  have hpml4 := hpdpt.copied (by rw [Function.update_of_ne hab]; exact ha) haligned.1 hbusy.1
    (update_plan hb _ hc) fun i => ((hcopied i i.isLt).1).trans (hsame hc i).symm
  have hroot := Function.update_self a (some (Place.mk 4 (some 0)))
    (Function.update plan b (some ⟨3, some 0⟩))
  have hbelow : Function.update (Function.update plan b (some ⟨3, some 0⟩)) a
      (some (Place.mk 4 (some 0))) b = some ⟨3, some 0⟩ := by
    rw [Function.update_of_ne hab.symm]
    exact Function.update_self ..
  have hleads := userEntry_leads haligned.2
  have hlink := (congrArg _ hleads.2).trans hbelow
  have hall := hpml4.write (i := 0) (e := userEntry b) hroot ⟨fun _ _ _ => ⟨some 0, hlink⟩, fun k hk _ =>
    ⟨by rw [hleads.1]; rfl, by cases hk; exact hlink⟩⟩
  exact ⟨_, hall.null, hall.aligned, hall.busy, fun _ => hroot, hall.entries⟩

theorem cloneRoot_tidy (h : Laid w plan) (hmode : w.space.userMode = true)
    (hroot : w.vmm.kernelCr3 ≠ 0 → plan w.vmm.kernelCr3 = some ⟨4, some 0⟩)
    (hnext : plan (tableEntry w.vmm.mem w.vmm.kernelCr3 0 &&& pageMask) = some ⟨3, some 0⟩) :
    Tidy (vmmCloneKernelRoot w).2 := by
  rw [vmmCloneKernelRoot, bind_of_some (show (state : VmmOp Access) w = (some w, w) from rfl)]
  by_cases hkernel : (w.vmm.kernelCr3 != 0) = true
  swap
  · rw [Bool.eq_false_of_not_eq_true hkernel]
    exact ⟨plan, h⟩
  rw [hkernel, bind_of_some (show (require true : VmmOp Unit) w = (some (), w) from rfl),
    bind_of_some (show readEntry w.vmm.kernelCr3 0 w =
      (some (tableEntry w.vmm.mem w.vmm.kernelCr3 0), w) from rfl)]
  generalize tableEntry w.vmm.mem w.vmm.kernelCr3 0 = first at hnext ⊢
  by_cases hpresent : (first &&& pagePresent != 0) = true
  swap
  · rw [Bool.eq_false_of_not_eq_true hpresent]
    exact ⟨plan, h⟩
  rw [hpresent, bind_of_some (show (require true : VmmOp Unit) w = (some (), w) from rfl)]
  obtain ⟨r, w₁, hrun, hgrown, htook⟩ := tried_cases h
  rw [bind_of_some hrun]
  obtain ⟨r', w₂, hrun', hgrown', htook'⟩ := tried_cases hgrown.laid
  rw [bind_of_some hrun', hmode]
  cases r with
  | none => exact ⟨plan, hgrown'.laid⟩
  | some a =>
    cases r' with
    | none => exact ⟨plan, hgrown'.laid⟩
    | some b =>
      have ha := htook a rfl
      have hb := htook' b rfl
      have hab : a ≠ b := by
        rintro rfl
        exact hb.free ha.taken
      have hfilled := fillRoot_tidy hgrown'.laid (h.fresh ha) (hgrown.laid.fresh hb)
        ⟨ha.aligned, hb.aligned⟩ ⟨hb.busy a ha.taken, hb.taken⟩ hab
        (hroot (bne_iff_ne.mp hkernel)) hnext
      simp only [fillRoot, copyEntry, userEntry] at hfilled
      simp only [if_true]
      exact hfilled

/-- The walk of the user from a table `n` levels above the pages. -/
def userWalk (m : Memory) : ℕ → UInt64 → UInt64 → Option UInt64
  | 0, t, _ => some t
  | n + 1, t, v =>
    if entryAllows true (entryOf m t (tableIndex n v)) then
      userWalk m n (entryOf m t (tableIndex n v) &&& pageMask) v
    else none

/-- The path of the page that a walk ends at. -/
def pagePath : ℕ → ℕ → UInt64 → ℕ
  | 0, k, _ => k
  | n + 1, k, v => pagePath n (512 * k + (tableIndex n v).val) v

theorem walk_planned (h : Laid w plan) (ht : plan t = some ⟨n, some k⟩)
    (hwalk : userWalk w.vmm.mem n t v = some f) : plan f = some ⟨0, some (pagePath n k v)⟩ := by
  induction n generalizing t k with
  | zero =>
    obtain rfl := Option.some.inj hwalk
    exact ht
  | succ n ih =>
    rw [userWalk] at hwalk
    split at hwalk
    next ha => exact ih ((h.entries ht _).user k rfl ha).2 hwalk
    · cases hwalk

theorem walk_congr (h : Laid w plan) (ht : plan t = some ⟨n, some k⟩)
    (hm : ∀ {t n q}, plan t = some ⟨n + 1, q⟩ → ∀ i, entryOf m t i = entryOf w.vmm.mem t i) :
    userWalk m n t v = userWalk w.vmm.mem n t v := by
  induction n generalizing t k with
  | zero => rfl
  | succ n ih =>
    rw [userWalk, userWalk, hm ht]
    split
    next ha => exact ih ((h.entries ht _).user k rfl ha).2
    · rfl

theorem pagePath_eq (v : UInt64) : pagePath 4 0 v = v.toNat / 4096 % 2 ^ 36 := by
  have hindex : ∀ n < 4, (tableIndex n v).val = v.toNat / 2 ^ (12 + 9 * n) % 512 := by
    intro n hn
    have hshift : (UInt64.ofNat (12 + 9 * n)).toNat % 64 = 12 + 9 * n := by
      rw [UInt64.toNat_ofNat']
      omega
    change ((v >>> UInt64.ofNat (12 + 9 * n)) &&& 0x1FF).toNat = _
    rw [UInt64.toNat_and, UInt64.toNat_shiftRight, hshift, Nat.shiftRight_eq_div_pow]
    exact Nat.and_two_pow_sub_one_eq_mod _ 9
  simp only [pagePath, hindex 3 (by decide), hindex 2 (by decide), hindex 1 (by decide),
    hindex 0 (by decide)]
  omega

theorem translate_walk (h : Laid w plan) (v : UInt64) : vmmTranslate w.vmm.mem w.space v true =
    if w.space.present && w.space.cr3 != 0 then
      (userWalk w.vmm.mem 4 w.space.cr3 v).map (· + (v &&& (pageSize - 1)))
    else none := by
  obtain ⟨h3, h2, h1, h0⟩ := index_eq v
  have hentry : ∀ t i, tableEntry w.vmm.mem t (UInt64.ofNat i.val) = entryOf w.vmm.mem t i :=
    fun _ _ => rfl
  rw [vmmTranslate, h3, h2, h1, h0]
  simp only [hentry, userWalk]
  cases hpresent : w.space.present with
  | false => rfl
  | true =>
    by_cases hcr3 : w.space.cr3 = 0
    · rw [hcr3]
      rfl
    have hroot := h.root hcr3
    rw [bne_iff_ne.mpr hcr3, beq_eq_false_iff_ne.mpr hcr3]
    by_cases ha : entryAllows true (entryOf w.vmm.mem w.space.cr3 (tableIndex 3 v)) = true
    swap
    · simp [ha]
    have hpdpt := ((h.entries hroot (tableIndex 3 v)).user 0 rfl ha).2
    generalize entryOf w.vmm.mem w.space.cr3 (tableIndex 3 v) = e3 at ha hpdpt ⊢
    by_cases hb : entryAllows true (entryOf w.vmm.mem (e3 &&& pageMask) (tableIndex 2 v)) = true
    swap
    · simp [ha, hb]
    obtain ⟨hlarge2, hpdt⟩ := (h.entries hpdpt (tableIndex 2 v)).user _ rfl hb
    generalize entryOf w.vmm.mem (e3 &&& pageMask) (tableIndex 2 v) = e2 at hb hlarge2 hpdt ⊢
    by_cases hc : entryAllows true (entryOf w.vmm.mem (e2 &&& pageMask) (tableIndex 1 v)) = true
    swap
    · simp [ha, hb, hc, hlarge2]
    obtain ⟨hlarge1, -⟩ := (h.entries hpdt (tableIndex 1 v)).user _ rfl hc
    generalize entryOf w.vmm.mem (e2 &&& pageMask) (tableIndex 1 v) = e1 at hc hlarge1 ⊢
    by_cases hd : entryAllows true (entryOf w.vmm.mem (e1 &&& pageMask) (tableIndex 0 v)) = true
    · simp [ha, hb, hc, hd, hlarge2, hlarge1]
    · simp [ha, hb, hc, hd, hlarge2, hlarge1]

theorem Laid.translated (h : Laid w plan) {p : UInt64}
    (hp : vmmTranslate w.vmm.mem w.space v true = some p) :
    ∃ f, plan f = some ⟨0, some (v.toNat / 4096 % 2 ^ 36)⟩ ∧ p = f + (v &&& (pageSize - 1)) ∧
      p.toNat = f.toNat + v.toNat % 4096 := by
  rw [translate_walk h] at hp
  split at hp
  next hready =>
    obtain ⟨f, hf, rfl⟩ := Option.map_eq_some_iff.mp hp
    have hplan := walk_planned h (h.root (bne_iff_ne.mp (Bool.and_eq_true _ _ ▸ hready).2)) hf
    rw [pagePath_eq] at hplan
    refine ⟨f, hplan, rfl, ?_⟩
    have haligned := h.aligned hplan
    have hlt := f.toNat_lt
    rw [Aligned] at haligned
    rw [UInt64.toNat_add, UInt64.toNat_and,
      show (pageSize - 1).toNat = 2 ^ 12 - 1 from rfl, Nat.and_two_pow_sub_one_eq_mod]
    omega
  · cases hp

/-- No two pages of the user are one frame, and no frame that the user reaches holds a table. -/
theorem Laid.isolated (h : Laid w plan) : Isolated w := by
  refine ⟨fun {a b p} ha hb => ?_, fun m hm a => ?_⟩
  · obtain ⟨f, hf, -, hp⟩ := h.translated ha
    obtain ⟨g, hg, -, hp'⟩ := h.translated hb
    have hfa := h.aligned hf
    have hga := h.aligned hg
    rw [Aligned] at hfa hga
    obtain rfl : f = g := UInt64.toNat_inj.mp (by omega)
    have hpath : a.toNat / 4096 % 2 ^ 36 = b.toNat / 4096 % 2 ^ 36 := by
      have hplace := Option.some.inj (hf.symm.trans hg)
      rw [Place.mk.injEq, Option.some.injEq] at hplace
      exact hplace.2
    rw [SameAddress]
    omega
  · have htables : ∀ {t n q}, plan t = some ⟨n + 1, q⟩ → ∀ i,
        entryOf m t i = entryOf w.vmm.mem t i := by
      intro t n q ht
      refine entryOf_congr (h.aligned ht) fun p hp => hm p fun v hv => ?_
      obtain ⟨f, hf, -, hpf⟩ := h.translated hv
      have hfa := h.aligned hf
      have hta := h.aligned ht
      rw [Aligned] at hfa hta
      rw [frameOf, frameOf] at hp
      obtain rfl : f = t := UInt64.toNat_inj.mp (by omega)
      cases hf.symm.trans ht
    rw [translate_walk h, show vmmTranslate m w.space a true = _ from translate_walk (h.memory htables) a]
    change (if w.space.present && w.space.cr3 != 0 then
      (userWalk m 4 w.space.cr3 a).map (· + (a &&& (pageSize - 1))) else none) = _
    split
    next hready =>
      rw [walk_congr h (h.root (bne_iff_ne.mp (Bool.and_eq_true _ _ ▸ hready).2)) htables]
    · rfl

theorem tidy_writeUserFrom (fuel : ℕ) :
    ∀ (virt : UInt64) (data : List UInt8), Keeps Tidy (writeUserFrom fuel virt data) := by
  induction fuel with
  | zero => exact fun _ _ => keeps_pure ()
  | succ fuel ih =>
    intro virt data
    rw [writeUserFrom]
    split
    · exact keeps_pure ()
    rintro w ⟨plan, h⟩
    rw [bind_of_some (show (state : VmmOp Access) w = (some w, w) from rfl)]
    cases hphys : vmmTranslate w.vmm.mem w.space virt true with
    | none => exact ⟨plan, h⟩
    | some phys =>
      obtain ⟨f, hf, rfl, -⟩ := h.translated hphys
      refine ih _ _ _ ⟨plan, h.outside (h.aligned hf) (fun n q hn => by cases hf.symm.trans hn) ?_⟩
      refine fun a ha => storeBytes_frame (h.aligned hf) ?_ ha
      have hoff : (virt &&& (pageSize - 1)).toNat < 4096 := by
        rw [UInt64.toNat_and]
        exact Nat.lt_of_le_of_lt Nat.and_le_right (by decide)
      rw [List.length_take]
      omega

theorem tidy_writeUser (virt : UInt64) (data : List UInt8) :
    Keeps Tidy (k64VmmWriteUser virt data) :=
  (keeps_require _).bind fun _ => tidy_writeUserFrom _ _ _

theorem furnish_tidy (h : Laid w plan) (hmode : w.space.userMode = true)
    (hroot : w.vmm.kernelCr3 ≠ 0 → plan w.vmm.kernelCr3 = some ⟨4, some 0⟩)
    (hnext : plan (tableEntry w.vmm.mem w.vmm.kernelCr3 0 &&& pageMask) = some ⟨3, some 0⟩)
    (stackBase : UInt64) : Tidy (furnishSpace stackBase userFlags w).2 := by
  have hclone := cloneRoot_tidy h hmode hroot hnext
  rw [furnishSpace]
  rcases hrun : vmmCloneKernelRoot w with ⟨_ | _, w₁⟩
  · rw [bind_of_none hrun]
    rwa [hrun] at hclone
  · rw [bind_of_some hrun]
    rw [hrun] at hclone
    exact keeps_forM (fun i _ => tidy_zeroedPage _) w₁ hclone

theorem tidy_allocUserSpace {kernel : Vmm} (hkernel : KernelTables kernel) {pid : UInt64}
    (hrun : k64VmmAllocUserSpace pid kernel = (true, w)) : Tidy w := by
  obtain ⟨plan, h, hnext⟩ := hkernel
  rw [k64VmmAllocUserSpace, vmmAllocSpace] at hrun
  split at hrun
  · cases hrun
    exact ⟨plan, h⟩
  split at hrun
  · cases hrun
  next slot hslot =>
    have hstart : Laid ⟨{ kernel with serviceSlotUsed := Function.update kernel.serviceSlotUsed slot true },
        slotSpace slot true⟩ plan := ⟨h.null, h.aligned, h.busy, fun hcr3 => absurd rfl hcr3, h.entries⟩
    have htidy := furnish_tidy hstart rfl h.root hnext (slotSpace slot true).stackBase
    dsimp only at hrun
    split at hrun
    next w' hfurnished =>
      cases hrun
      rwa [show furnishSpace _ userFlags _ = _ from hfurnished] at htidy
    · cases hrun

/-- The tables that the boot code sets up: the first GiB, for the kernel alone. -/
theorem boot_tables {kernel : Vmm} {pdpt : UInt64} (hnull : NullReserved kernel.pmm)
    (haligned : Aligned kernel.kernelCr3 ∧ Aligned pdpt)
    (hbusy : Busy kernel.pmm kernel.kernelCr3 ∧ Busy kernel.pmm pdpt) (hne : kernel.kernelCr3 ≠ pdpt)
    (hroot : ∀ i, entryOf kernel.mem kernel.kernelCr3 i = if i = 0 then pdpt ||| pageTableFlags else 0)
    (hgib : ∀ i, entryOf kernel.mem pdpt i = if i = 0 then pageTableFlags ||| pageLarge else 0) :
    KernelTables kernel := by
  have hlink : (pdpt ||| pageTableFlags) &&& pageMask = pdpt ∧
      entryAllows true (pdpt ||| pageTableFlags) = false := by
    constructor
    · rw [or_and, haligned.2.and_mask]
      exact UInt64.or_zero
    · change ((pdpt ||| pageTableFlags) &&& (pagePresent ||| pageUser) == pagePresent ||| pageUser) = false
      rw [or_and, haligned.2.and_low rfl]
      rfl
  have hnone : Laid ⟨kernel, { kernelSpace kernel.kernelCr3 with cr3 := 0 }⟩ (fun _ => none) :=
    ⟨hnull, fun ht => absurd ht (Option.some_ne_none _).symm,
      fun ht => absurd ht (Option.some_ne_none _).symm, fun hcr3 => absurd rfl hcr3,
      fun ht => absurd ht (Option.some_ne_none _).symm⟩
  have hsecond := hnone.place (u := pdpt) rfl haligned.2 hbusy.2 ⟨3, some 0⟩ (by
    rintro n q hx i
    cases hx
    change Fits _ 2 (some 0) i (entryOf kernel.mem pdpt i)
    rw [hgib i]
    split
    · exact ⟨fun _ _ hl => (nomatch hl), fun _ _ ha => nomatch ha⟩
    · exact ⟨fun _ hp => (nomatch hp), fun _ _ ha => nomatch ha⟩)
  have hplaced := hsecond.place (u := kernel.kernelCr3) (Function.update_of_ne hne _ _) haligned.1
    hbusy.1 ⟨4, some 0⟩ (by
    rintro n q hx i
    cases hx
    change Fits _ 3 (some 0) i (entryOf kernel.mem kernel.kernelCr3 i)
    rw [hroot i]
    split
    · refine ⟨fun _ _ _ => ⟨some 0, ?_⟩, fun _ _ ha => nomatch hlink.2.symm.trans ha⟩
      rw [hlink.1]
      exact Function.update_self ..
    · exact ⟨fun _ hp => (nomatch hp), fun _ _ ha => nomatch ha⟩)
  refine ⟨_, ⟨hplaced.null, hplaced.aligned, hplaced.busy, fun _ => Function.update_self ..,
    hplaced.entries⟩, ?_⟩
  have hfirst : tableEntry kernel.mem kernel.kernelCr3 0 = pdpt ||| pageTableFlags := hroot 0
  rw [hfirst, hlink.1, Function.update_of_ne hne.symm]
  exact Function.update_self ..

end VirtualMemory

namespace ElfLoader

open Attempts Attempt VirtualMemory

theorem tidy_mapSegments (file : File) (phdrs : List Phdr) (loadBias : UInt64) :
    Keeps Tidy (mapSegments true file phdrs loadBias) := by
  refine keeps_forM fun ph _ => ?_
  split
  · exact keeps_pure ()
  · rw [if_pos rfl]
    exact tidy_mapRange _ _ _ _

theorem tidy_mapPageOnce (mapped : List UInt64) (page : UInt64) : Keeps Tidy (mapPageOnce mapped page) := by
  rw [mapPageOnce]
  split
  · exact keeps_pure _
  · refine (keeps_require _).bind fun _ => ?_
    exact (tidy_mapRange page none 0 elfPage).bind fun _ => keeps_pure _

theorem tidy_mapLoads (file : File) (phdrs : List Phdr) (loadBias : UInt64) :
    Keeps Tidy (elfMapLoads true file phdrs loadBias) := by
  refine keeps_foldlM (fun mapped ph _ => ?_) []
  dsimp only
  split
  · exact keeps_pure _
  · refine (keeps_foldlM (fun pages page _ => tidy_mapPageOnce pages page) mapped).bind fun pages => ?_
    split
    · exact (tidy_writeUser _ _).bind fun _ => keeps_pure _
    · exact keeps_pure _

theorem tidy_writeInitialStack (who : Identity) (stackTop : UInt64) (argv : List (List UInt8))
    (entry phdr phnum phentsize atBase : UInt64) :
    Keeps Tidy (elfWriteInitialStack who stackTop argv entry phdr phnum phentsize atBase) := by
  have hstrings : ∀ sp strings, Keeps Tidy (pushStrings sp strings) := fun _ _ =>
    keeps_foldlM (fun _ _ _ => (tidy_writeUser _ _).bind fun _ => keeps_pure _) _
  have hwords : ∀ sp words, Keeps Tidy (pushWords sp words) := fun _ _ =>
    keeps_foldlM (fun _ _ _ => (tidy_writeUser _ _).bind fun _ => keeps_pure _) _
  refine (keeps_require _).bind fun _ => (hstrings _ _).bind fun _ => (hstrings _ _).bind fun _ => ?_
  exact (tidy_writeUser _ _).bind fun _ => hwords _ _

theorem tidy_prepareImage {r : Request} (hmode : r.userMode = true) (file : File) (ehdr : Ehdr)
    (phdrs : List Phdr) (loadBias : UInt64) :
    Keeps Tidy (prepareImage r file ehdr phdrs loadBias) := by
  rw [prepareImage, hmode]
  refine (tidy_mapSegments file phdrs loadBias).bind fun _ => ?_
  rw [if_pos rfl]
  refine keeps_state.bind fun w => (keeps_require _).bind fun _ => ?_
  exact (tidy_writeInitialStack _ _ _ _ _ _ _ _).bind fun _ => keeps_pure _

/-- Every space that a program is started in is isolated, and it was so when its stack was written. -/
theorem loaded_isolated {kernel : Vmm} (hkernel : KernelTables kernel) {pid : UInt64} {w : Access}
    (hrun : k64VmmAllocUserSpace pid kernel = (true, w)) {r : Request} (hmode : r.userMode = true)
    (file interpFile : File) (ehdr : Ehdr) (phdrs interpPhdrs : List Phdr)
    (loadBias interpBias mainEntry entry : UInt64) (who : Identity) (argv : List (List UInt8)) :
    Isolated (mapSegments true file phdrs loadBias w).2 ∧
      Isolated (prepareImage r file ehdr phdrs loadBias w).2 ∧
      Isolated (prepareDynamic who argv file interpFile ehdr phdrs interpPhdrs loadBias interpBias
        mainEntry entry w).2 := by
  have h := tidy_allocUserSpace hkernel hrun
  obtain ⟨plan, hsegments⟩ := tidy_mapSegments file phdrs loadBias w h
  obtain ⟨plan', himage⟩ := tidy_prepareImage hmode file ehdr phdrs loadBias w h
  obtain ⟨plan'', hdynamic⟩ : Tidy (prepareDynamic who argv file interpFile ehdr phdrs interpPhdrs
      loadBias interpBias mainEntry entry w).2 := by
    refine ((tidy_mapLoads _ _ _).bind fun _ => (tidy_mapLoads _ _ _).bind fun _ => ?_) w h
    refine keeps_state.bind fun w => ?_
    exact (tidy_writeInitialStack _ _ _ _ _ _ _ _).bind fun _ => keeps_pure _
  exact ⟨hsegments.isolated, himage.isolated, hdynamic.isolated⟩

end ElfLoader
