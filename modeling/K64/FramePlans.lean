import K64.FrameOwnership
import K64.TableMemory

/-! # The frames of a space

A plan says what every frame of a space is for: the tables of each level, and the pages with the address
that leads to each. Mapping a page puts frames that were free to a use and takes none from another. -/
namespace VirtualMemory

open Attempts Attempt
open PhysicalMemory (Pmm testFrame frameSize testFrame_takeFrame)

def Busy (p : Pmm) (a : UInt64) : Prop := testFrame p (frameOf a) = true

def Access.withMem (w : Access) (m : Memory) : Access := { w with vmm := { w.vmm with mem := m } }

def userFlags : UInt64 := pageRw ||| pageUser

/-- The bits of an address that choose the entry `n` levels above the lowest. -/
def tableIndex (n : ℕ) (virt : UInt64) : Fin 512 :=
  ⟨((virt >>> UInt64.ofNat (12 + 9 * n)) &&& 0x1FF).toNat, by
    rw [UInt64.toNat_and]
    exact Nat.lt_of_le_of_lt Nat.and_le_right (by decide)⟩

/-- What a frame is to a space: a table so many levels above the pages, or a page, and the bits of an
address that lead the user to it, where the user may get there at all. -/
structure Place where
  level : ℕ
  path : Option ℕ

def Place.below (x : Place) (i : Fin 512) : Option ℕ := x.path.map fun k => 512 * k + i.val

/-- Entry `i` of a table at a path leads where the plan says. -/
structure Fits (plan : UInt64 → Option Place) (level : ℕ) (path : Option ℕ) (i : Fin 512)
    (e : UInt64) : Prop where
  table : level ≠ 0 → (e &&& pagePresent != 0) = true → (e &&& pageLarge != 0) = false →
    ∃ q, plan (e &&& pageMask) = some ⟨level, q⟩
  user : ∀ k, path = some k → entryAllows true e = true →
    (e &&& pageLarge != 0) = false ∧ plan (e &&& pageMask) = some ⟨level, some (512 * k + i.val)⟩

/-- The frames of a space are in use, each for what the plan says, and every table leads there. -/
structure Laid (w : Access) (plan : UInt64 → Option Place) : Prop where
  null : NullReserved w.vmm.pmm
  aligned : ∀ {t x}, plan t = some x → Aligned t
  busy : ∀ {t x}, plan t = some x → Busy w.vmm.pmm t
  root : w.space.cr3 ≠ 0 → plan w.space.cr3 = some ⟨4, some 0⟩
  entries : ∀ {t n q}, plan t = some ⟨n + 1, q⟩ → ∀ i, Fits plan n q i (entryOf w.vmm.mem t i)

/-- What a step may do: put frames that were free to a use. -/
structure Grown (w w' : Access) (plan plan' : UInt64 → Option Place) : Prop where
  laid : Laid w' plan'
  busy : ∀ a, Busy w.vmm.pmm a → Busy w'.vmm.pmm a
  same : ∀ t, Busy w.vmm.pmm t → plan' t = plan t

variable {w w' w₁ w₂ : Access} {plan plan' plan₁ plan₂ : UInt64 → Option Place} {t u f virt : UInt64}
  {i : Fin 512} {n : ℕ} {q : Option ℕ} {e : UInt64} {m : Memory}

theorem Fits.mono (h : Fits plan n q i e) (hsub : ∀ t x, plan t = some x → plan' t = some x) :
    Fits plan' n q i e := by
  refine ⟨fun hn hp hl => ?_, fun k hk ha => ?_⟩
  · obtain ⟨q', hq⟩ := h.table hn hp hl
    exact ⟨q', hsub _ _ hq⟩
  · exact (h.user k hk ha).imp_right (hsub _ _)

theorem Grown.refl (h : Laid w plan) : Grown w w plan plan := ⟨h, fun _ ha => ha, fun _ _ => rfl⟩

theorem Grown.trans (h : Grown w w₁ plan plan₁) (k : Grown w₁ w₂ plan₁ plan₂) :
    Grown w w₂ plan plan₂ := by
  refine ⟨k.laid, fun a ha => k.busy a (h.busy a ha), fun t ht => ?_⟩
  rw [k.same t (h.busy t ht), h.same t ht]

theorem Laid.memory (h : Laid w plan)
    (hm : ∀ {t n q}, plan t = some ⟨n + 1, q⟩ → ∀ i, entryOf m t i = entryOf w.vmm.mem t i) :
    Laid (w.withMem m) plan := by
  refine ⟨h.null, h.aligned, h.busy, h.root, fun {t n q} ht i => ?_⟩
  change Fits plan n q i (entryOf m t i)
  rw [hm ht i]
  exact h.entries ht i

/-- Bytes of a frame that is no table may be anything. -/
theorem Laid.outside (h : Laid w plan) (hf : Aligned f) (hplan : ∀ n q, plan f ≠ some ⟨n + 1, q⟩)
    (hm : ∀ a, frameOf a ≠ frameOf f → m a = w.vmm.mem a) : Laid (w.withMem m) plan := by
  refine h.memory fun {t n q} ht => entryOf_congr (h.aligned ht) fun a ha => hm a fun he => ?_
  exact hplan n q (frameOf_inj hf (h.aligned ht) (he.symm.trans ha) ▸ ht)

theorem update_plan (hu : plan u = none) (x : Place) {y : Place} (ht : plan t = some y) :
    Function.update plan u (some x) t = some y := by
  rw [Function.update_of_ne, ht]
  rintro rfl
  exact nomatch hu.symm.trans ht

/-- A frame without a use gets one. -/
theorem Laid.place (h : Laid w plan) (hu : plan u = none) (haligned : Aligned u)
    (hbusy : Busy w.vmm.pmm u) (x : Place)
    (hentries : ∀ n q, x = ⟨n + 1, q⟩ → ∀ i, Fits plan n q i (entryOf w.vmm.mem u i)) :
    Laid w (Function.update plan u (some x)) := by
  have hsub : ∀ t y, plan t = some y → Function.update plan u (some x) t = some y :=
    fun _ _ ht => update_plan hu x ht
  have hcases : ∀ {t y}, Function.update plan u (some x) t = some y → t = u ∧ x = y ∨ plan t = some y := by
    intro t y ht
    by_cases he : t = u
    · rw [he, Function.update_self] at ht
      exact .inl ⟨he, Option.some.inj ht⟩
    · rw [Function.update_of_ne he] at ht
      exact .inr ht
  refine ⟨h.null, fun {t y} ht => ?_, fun {t y} ht => ?_, fun hcr3 => hsub _ _ (h.root hcr3),
    fun {t n q} ht i => ?_⟩
  · rcases hcases ht with ⟨rfl, -⟩ | ht
    · exact haligned
    · exact h.aligned ht
  · rcases hcases ht with ⟨rfl, -⟩ | ht
    · exact hbusy
    · exact h.busy ht
  · rcases hcases ht with ⟨rfl, rfl⟩ | ht
    · exact (hentries n q rfl i).mono hsub
    · exact (h.entries ht i).mono hsub

theorem Laid.write (h : Laid w plan) (ht : plan t = some ⟨n + 1, q⟩) (he : Fits plan n q i e) :
    Laid (w.withMem (storeWord w.vmm.mem (t + 8 * UInt64.ofNat i.val) e)) plan := by
  refine ⟨h.null, h.aligned, h.busy, h.root, fun {t' n' q'} ht' i' => ?_⟩
  change Fits plan n' q' i' (entryOf (storeWord _ _ e) t' i')
  rw [entryOf_storeWord (h.aligned ht) (h.aligned ht')]
  split
  next hat =>
    obtain ⟨rfl, rfl⟩ := hat
    cases ht.symm.trans ht'
    exact he
  next => exact h.entries ht' i'

/-- A frame without a use is linked for the user below an entry of a table. -/
theorem Laid.link (h : Laid w plan) (ht : plan t = some ⟨n + 1, q⟩) (hu : plan u = none)
    (haligned : Aligned u) (hbusy : Busy w.vmm.pmm u)
    (hentries : ∀ k, n = k + 1 → ∀ j, Fits plan k (Place.below ⟨n + 1, q⟩ i) j (entryOf w.vmm.mem u j)) :
    Laid (w.withMem (storeWord w.vmm.mem (t + 8 * UInt64.ofNat i.val) (userEntry u)))
      (Function.update plan u (some ⟨n, Place.below ⟨n + 1, q⟩ i⟩)) := by
  have hplaced := h.place hu haligned hbusy ⟨n, Place.below ⟨n + 1, q⟩ i⟩ (by
    rintro k q' hx
    cases hx
    exact hentries k rfl)
  refine hplaced.write (update_plan hu _ ht) ⟨fun _ _ _ => ?_, fun k hk _ => ⟨?_, ?_⟩⟩
  · rw [(userEntry_leads haligned).2]
    exact ⟨_, Function.update_self ..⟩
  · rw [(userEntry_leads haligned).1]
    rfl
  · rw [(userEntry_leads haligned).2, Function.update_self, hk]
    rfl

structure Took (w w' : Access) (f : UInt64) : Prop where
  aligned : Aligned f
  free : ¬ Busy w.vmm.pmm f
  taken : Busy w'.vmm.pmm f
  null : NullReserved w'.vmm.pmm
  cr3 : w'.space.cr3 = w.space.cr3
  busy : ∀ a, Busy w.vmm.pmm a → Busy w'.vmm.pmm a
  mem : w'.vmm.mem = storeBytes w.vmm.mem f (List.replicate 4096 0)

theorem nullReserved_take {p : Pmm} (h : NullReserved p) (f : ℕ) :
    NullReserved (PhysicalMemory.takeFrame p f) := by
  rcases h with h | h
  · refine .inl ?_
    rw [testFrame_takeFrame, h, Bool.or_true]
  · exact .inr h

theorem record_cr3 {space space' : VmSpace} {a : UInt64} {kind : FrameKind}
    (h : space.record a kind = some space') : space'.cr3 = space.cr3 := by
  cases kind <;>
  · obtain ⟨l, -, rfl⟩ := Option.map_eq_some_iff.mp h
    rfl

theorem takeFrame_cases (h : Laid w plan) (kind : FrameKind) :
    (∃ w', takeFrame kind w = (none, w') ∧ Grown w w' plan plan) ∨
    ∃ f w', takeFrame kind w = (some f, w') ∧ Took w w' f := by
  rcases allocFrame_cases h.null with hnone | ⟨f, hpos, hsmall, hfree, hsome⟩
  · exact .inl ⟨w, bind_of_none hnone, .refl h⟩
  have hframe : frameOf (UInt64.ofNat (f * frameSize)) = f := frame_of_address hsmall
  obtain ⟨x, hx⟩ : ∃ x, takeFrame kind w = x := ⟨_, rfl⟩
  have hrun := hx
  rw [takeFrame, bind_of_some hsome, bind_of_some (show state _ = (some _, _) from rfl)] at hrun
  dsimp only at hrun
  cases hrecord : w.space.record (UInt64.ofNat (f * frameSize)) kind with
  | none =>
    obtain ⟨hbits, htotal⟩ := free_taken hsmall hfree
    rw [hrecord] at hrun
    refine .inl ⟨_, hx.trans hrun.symm, ⟨?_, h.aligned, fun ht => (hbits _).trans (h.busy ht), h.root,
      h.entries⟩, fun a ha => (hbits _).trans ha, fun _ _ => rfl⟩
    rcases h.null with hzero | hnone
    · exact .inl ((hbits 0).trans hzero)
    · exact .inr (htotal.trans hnone)
  | some space =>
    rw [hrecord] at hrun
    refine .inr ⟨_, _, hx.trans hrun.symm, ?_, ?_, ?_, nullReserved_take h.null f, record_cr3 hrecord,
      fun a ha => ?_, rfl⟩
    · rw [Aligned, frame_address hsmall]
      exact Nat.mul_mod_left f 4096
    · rw [Busy, hframe, hfree]
      exact Bool.false_ne_true
    · change testFrame (PhysicalMemory.takeFrame _ f) _ = true
      rw [hframe, testFrame_takeFrame, decide_eq_true rfl]
      rfl
    · change testFrame (PhysicalMemory.takeFrame _ f) _ = true
      rw [testFrame_takeFrame, show testFrame _ _ = true from ha, Bool.or_true]

theorem Laid.fresh (h : Laid w plan) (ht : Took w w' f) : plan f = none := by
  cases hf : plan f with
  | none => rfl
  | some x => exact absurd (h.busy hf) ht.free

theorem Laid.took (h : Laid w plan) (ht : Took w w' f) : Grown w w' plan plan := by
  have hm : ∀ a, frameOf a ≠ frameOf f → w'.vmm.mem a = w.vmm.mem a := by
    intro a ha
    have hstore : storeBytes w.vmm.mem (f + 0) (List.replicate 4096 0) a = w.vmm.mem a :=
      storeBytes_frame ht.aligned (by rw [List.length_replicate]; decide) ha
    rwa [UInt64.add_zero, ← ht.mem] at hstore
  have hfresh : ∀ n q, plan f ≠ some ⟨n + 1, q⟩ := fun n q hf => nomatch (h.fresh ht).symm.trans hf
  have hmem := h.outside ht.aligned hfresh hm
  refine ⟨⟨ht.null, h.aligned, fun hp => ht.busy _ (h.busy hp), ?_, hmem.entries⟩, ht.busy,
    fun _ _ => rfl⟩
  rw [ht.cr3]
  exact h.root

/-- A table behind an entry of another one, or a failure. -/
def Led (w : Access) (plan : UInt64 → Option Place) (n : ℕ) (r : Option UInt64 × Access) : Prop :=
  ∃ plan', Grown w r.2 plan plan' ∧ ∀ u, r.1 = some u → ∃ q, plan' u = some ⟨n, q⟩

theorem Grown.led (h : Grown w w' plan plan') : Led w plan n (none, w') :=
  ⟨plan', h, fun _ hu => nomatch hu⟩

/-- A new table, whatever its entries are as long as the user gets nowhere by them. -/
theorem Laid.linked (h : Laid w plan) (ht : plan t = some ⟨n + 2, q⟩) (htook : Took w w₁ u)
    (hm : ∀ a, frameOf a ≠ frameOf u → m a = w₁.vmm.mem a)
    (hclosed : ∀ j, entryAllows true (entryOf m u j) = false ∨ q = none)
    (hlarge : n ≠ 0 → ∀ j, (entryOf m u j &&& pagePresent != 0) = true →
      (entryOf m u j &&& pageLarge != 0) = true) :
    Led w plan (n + 1)
      (some u, w₁.withMem (storeWord m (t + 8 * UInt64.ofNat i.val) (userEntry u))) := by
  have hgrown := h.took htook
  have hfresh := h.fresh htook
  have hmem : Laid (w₁.withMem m) plan :=
    hgrown.laid.outside htook.aligned (fun k q' hf => nomatch hfresh.symm.trans hf) hm
  have hlinked := hmem.link (i := i) ht hfresh htook.aligned htook.taken (fun k hk j => by
    obtain rfl : n = k := Nat.succ.inj hk
    refine ⟨fun hn hp hl => ?_, fun k' hk' ha => ?_⟩
    · exact nomatch (hlarge hn j hp).symm.trans hl
    · rcases hclosed j with hno | rfl
      · exact nomatch hno.symm.trans ha
      · cases hk')
  refine ⟨_, ⟨hlinked, htook.busy, fun a ha => Function.update_of_ne ?_ _ _⟩, fun v hv => ?_⟩
  · rintro rfl
    exact htook.free ha
  · cases hv
    exact ⟨_, Function.update_self ..⟩

/-- A table filled entry by entry up to `k`. -/
def fillTable (m : Memory) (u : UInt64) (f : ℕ → UInt64) (k : ℕ) : Memory :=
  (List.range k).foldl (fun m i => storeWord m (u + 8 * UInt64.ofNat i) (f i)) m

theorem fillTable_succ (m : Memory) (u : UInt64) (f : ℕ → UInt64) (k : ℕ) : fillTable m u f (k + 1) =
    storeWord (fillTable m u f k) (u + 8 * UInt64.ofNat k) (f k) := by
  rw [fillTable, List.range_succ, List.foldl_append]
  rfl

theorem fillTable_run (u : UInt64) (f : ℕ → UInt64) {body : ℕ → VmmOp Unit} (w : Access) (k : ℕ)
    (hbody : ∀ i w, body i w =
      (some (), w.withMem (storeWord w.vmm.mem (u + 8 * UInt64.ofNat i) (f i)))) :
    (List.range k).forM body w = (some (), w.withMem (fillTable w.vmm.mem u f k)) := by
  induction k with
  | zero => rfl
  | succ k ih =>
    rw [List.range_succ, fillTable_succ]
    exact (forM_append_of_some ih).trans (bind_of_some (hbody k _))

theorem fillTable_spec (hu : Aligned u) (m : Memory) (f : ℕ → UInt64) (k : ℕ) : k ≤ 512 →
    (∀ j : Fin 512, j.val < k → entryOf (fillTable m u f k) u j = f j.val) ∧
      ∀ a, frameOf a ≠ frameOf u → fillTable m u f k a = m a := by
  induction k with
  | zero => exact fun _ => ⟨fun j hj => absurd hj (Nat.not_lt_zero _), fun _ _ => rfl⟩
  | succ k ih =>
    intro hk
    obtain ⟨hentries, hframe⟩ := ih (by omega)
    rw [fillTable_succ]
    refine ⟨fun j hj => ?_, fun a ha => (storeWord_frame hu ⟨k, hk⟩ (f k) ha).trans (hframe a ha)⟩
    refine (entryOf_storeWord (i := ⟨k, hk⟩) hu hu (f k)).trans ?_
    split
    next he => rw [he.2]
    next hne =>
      exact hentries j (lt_of_le_of_ne (Nat.le_of_lt_succ hj) fun he => hne ⟨rfl, Fin.ext he⟩)

/-- The entry `j` of the table that a large page is split into. -/
def splitEntry (level : ℕ) (e : UInt64) (j : ℕ) : UInt64 :=
  if level = 2 then ((e &&& 0xFFFFFC0000000) + UInt64.ofNat j * 0x200000) ||| (e &&& 0xFFF)
  else ((e &&& 0xFFFFFFE00000) + UInt64.ofNat j * pageSize) ||| (e &&& 0xFFF &&& ~~~pageLarge)

theorem split_aligned {c d : UInt64} (hc : Aligned c) (hd : Aligned d) (e : UInt64) (j : ℕ) :
    Aligned ((e &&& c) + UInt64.ofNat j * d) := by
  have hand := aligned_and hc e
  obtain ⟨k, hk⟩ : 4096 ∣ d.toNat := Nat.dvd_of_mod_eq_zero hd
  have hdvd : 4096 ∣ (UInt64.ofNat j).toNat * d.toNat :=
    ⟨(UInt64.ofNat j).toNat * k, hk ▸ Nat.mul_left_comm _ _ _⟩
  rw [Aligned] at hand ⊢
  rw [UInt64.toNat_add, UInt64.toNat_mul]
  omega

/-- The flags of a large page go to its parts, and its size to parts of 2 MiB. -/
theorem splitEntry_flags (level : ℕ) (e : UInt64) (j : ℕ) {c : UInt64} (hc : 0xFFF &&& c = c)
    (hlarge : level = 2 ∨ ~~~pageLarge &&& c = c) : splitEntry level e j &&& c = e &&& c := by
  have hbig : Aligned 0xFFFFFC0000000 ∧ Aligned 0x200000 := ⟨rfl, rfl⟩
  have hsmall : Aligned 0xFFFFFFE00000 ∧ Aligned pageSize := ⟨rfl, rfl⟩
  rw [splitEntry]
  split
  · rw [or_and, (split_aligned hbig.1 hbig.2 e j).and_low hc, UInt64.zero_or, UInt64.and_assoc, hc]
  next hne =>
    rw [or_and, (split_aligned hsmall.1 hsmall.2 e j).and_low hc, UInt64.zero_or, UInt64.and_assoc,
      UInt64.and_assoc, hlarge.resolve_left hne, hc]

theorem allows_of_rights {e e' : UInt64}
    (h : e' &&& (pagePresent ||| pageUser) = e &&& (pagePresent ||| pageUser)) :
    entryAllows true e' = entryAllows true e := by
  change (e' &&& (pagePresent ||| pageUser) == _) = (e &&& (pagePresent ||| pageUser) == _)
  rw [h]

theorem userFlags_kept (e : UInt64) : (e ||| userFlags) &&& pageUser = pageUser := by
  have hor : (e &&& pageUser) ||| pageUser = pageUser := by
    refine UInt64.toBitVec_inj.mp ?_
    ext k hk
    simp
  rw [or_and]
  exact hor

theorem split_led (h : Laid w plan) (ht : plan t = some ⟨n + 2, q⟩)
    (hlarge : (entryOf w.vmm.mem t i &&& pageLarge != 0) = true) :
    Led w plan (n + 1) (vmmSplitLargePage t (UInt64.ofNat i.val) userFlags (n + 1) w) := by
  have hread : readEntry t (UInt64.ofNat i.val) w = (some (entryOf w.vmm.mem t i), w) := rfl
  rw [vmmSplitLargePage, bind_of_some hread]
  have hclosed : entryAllows true (entryOf w.vmm.mem t i) = false ∨ q = none := by
    cases q with
    | none => exact .inr rfl
    | some k =>
      refine .inl (Bool.eq_false_of_not_eq_true fun ha => ?_)
      exact nomatch hlarge.symm.trans ((h.entries ht i).user k rfl ha).1
  generalize entryOf w.vmm.mem t i = e at hlarge hclosed ⊢
  rw [hlarge, Bool.true_and]
  by_cases hn : 1 ≤ n + 1 ∧ n + 1 ≤ 2
  · rw [decide_eq_true hn, bind_of_some (show require true w = (some (), w) from rfl)]
    rcases takeFrame_cases h .table with ⟨w₁, hrun, hfail⟩ | ⟨u, w₁, hrun, htook⟩
    · rw [bind_of_none (show vmmAllocTableFrame w = (none, w₁) from hrun)]
      exact hfail.led
    rw [bind_of_some (show vmmAllocTableFrame w = (some u, w₁) from hrun)]
    rw [bind_of_some (fillTable_run u (splitEntry (n + 1) e) w₁ 512 fun i w => by
      rw [splitEntry]
      split
      · rfl
      · rfl), userFlags_kept]
    obtain ⟨hentries, hframe⟩ := fillTable_spec htook.aligned w₁.vmm.mem (splitEntry (n + 1) e) 512 le_rfl
    generalize fillTable w₁.vmm.mem u (splitEntry (n + 1) e) 512 = m at hentries hframe ⊢
    have hrights : ∀ j, entryAllows true (entryOf m u j) = false ∨ q = none := by
      intro j
      rw [hentries j j.isLt, allows_of_rights (splitEntry_flags (n + 1) e j rfl (.inr rfl))]
      exact hclosed
    have hparts : n ≠ 0 → ∀ j, (entryOf m u j &&& pagePresent != 0) = true →
        (entryOf m u j &&& pageLarge != 0) = true := by
      intro hn0 j _
      rw [hentries j j.isLt, splitEntry_flags (n + 1) e j rfl (.inl (by omega))]
      exact hlarge
    have hlinked := h.linked (i := i) ht htook hframe hrights hparts
    exact hlinked
  · rw [decide_eq_false hn]
    exact (Grown.refl h).led

theorem nextTable_led (h : Laid w plan) (ht : plan t = some ⟨n + 2, q⟩) :
    Led w plan (n + 1) (vmmNextTable t (UInt64.ofNat i.val) userFlags (n + 1) w) := by
  have hread : readEntry t (UInt64.ofNat i.val) w = (some (entryOf w.vmm.mem t i), w) := rfl
  rw [vmmNextTable, bind_of_some hread]
  by_cases hpresent : (entryOf w.vmm.mem t i &&& pagePresent != 0) = true
  · rw [if_pos hpresent]
    by_cases hlarge : (entryOf w.vmm.mem t i &&& pageLarge != 0) = true
    · rw [if_pos hlarge]
      exact split_led h ht hlarge
    · rw [if_neg hlarge]
      refine ⟨plan, .refl h, fun u hu => ?_⟩
      obtain rfl := Option.some.inj hu
      exact (h.entries ht i).table (Nat.succ_ne_zero n) hpresent (Bool.eq_false_of_not_eq_true hlarge)
  · rw [if_neg hpresent]
    rcases takeFrame_cases h .table with ⟨w₁, hrun, hfail⟩ | ⟨u, w₁, hrun, htook⟩
    · rw [bind_of_none (show vmmAllocTableFrame w = (none, w₁) from hrun)]
      exact hfail.led
    · rw [bind_of_some (show vmmAllocTableFrame w = (some u, w₁) from hrun)]
      have hzero : ∀ j, entryOf w₁.vmm.mem u j = 0 := by
        intro j
        rw [htook.mem]
        exact cleared_entry htook.aligned j
      refine h.linked ht htook (fun _ _ => rfl) (fun j => .inl (by rw [hzero]; rfl)) fun _ j hp => ?_
      rw [hzero] at hp
      cases hp

/-- The steps of `vmm_map_page` from one table to the next. -/
theorem Led.next {x : VmmOp UInt64} {k : UInt64 → VmmOp Unit} {Q : Access → Prop}
    (hled : Led w plan n (x w)) (hstop : ∀ w' plan', Grown w w' plan plan' → Q w')
    (hnext : ∀ u w' plan' q, Grown w w' plan plan' → plan' u = some ⟨n, q⟩ → Q (k u w').2) :
    Q ((x >>= k) w).2 := by
  obtain ⟨plan', hgrown, hfound⟩ := hled
  rcases hrun : x w with ⟨_ | u, w'⟩
  · rw [hrun] at hgrown
    rw [bind_of_none hrun]
    exact hstop w' plan' hgrown
  · rw [hrun] at hgrown hfound
    rw [bind_of_some hrun]
    obtain ⟨q, hq⟩ := hfound u rfl
    exact hnext u w' plan' q hgrown hq

theorem index_eq (virt : UInt64) : pml4Index virt = UInt64.ofNat (tableIndex 3 virt).val ∧
    pdptIndex virt = UInt64.ofNat (tableIndex 2 virt).val ∧
    pdtIndex virt = UInt64.ofNat (tableIndex 1 virt).val ∧
    ptIndex virt = UInt64.ofNat (tableIndex 0 virt).val :=
  ⟨UInt64.ofNat_toNat.symm, UInt64.ofNat_toNat.symm, UInt64.ofNat_toNat.symm, UInt64.ofNat_toNat.symm⟩

/-- A space in which every frame has one use. -/
def Tidy (w : Access) : Prop := ∃ plan, Laid w plan

theorem mapPage_tidy (h : Laid w plan) (hf : Aligned f) (hbusy : Busy w.vmm.pmm f)
    (hplan : plan f = none) (virt : UInt64) : Tidy (vmmMapPage virt f userFlags w).2 := by
  obtain ⟨h3, h2, h1, h0⟩ := index_eq virt
  rw [vmmMapPage, bind_of_some (show (state : VmmOp Access) w = (some w, w) from rfl), h3, h2, h1, h0]
  cases hready : w.space.present && w.space.cr3 != 0 with
  | false => exact ⟨plan, h⟩
  | true =>
    rw [bind_of_some (show (require true : VmmOp Unit) w = (some (), w) from rfl)]
    have hcr3 : w.space.cr3 ≠ 0 := bne_iff_ne.mp (Bool.and_eq_true _ _ ▸ hready).2
    refine (nextTable_led (n := 2) h (h.root hcr3)).next (fun _ plan' k => ⟨plan', k.laid⟩) ?_
    intro pdpt w₁ plan₁ q₁ k₁ hpdpt
    refine (nextTable_led (n := 1) k₁.laid hpdpt).next (fun _ plan' k => ⟨plan', k.laid⟩) ?_
    intro pdt w₂ plan₂ q₂ k₂ hpdt
    refine (nextTable_led (n := 0) k₂.laid hpdt).next (fun _ plan' k => ⟨plan', k.laid⟩) ?_
    intro pt w₃ plan₃ q₃ k₃ hpt
    have hall := (k₁.trans k₂).trans k₃
    have hvalue : (f &&& pageMask) ||| (userFlags &&& 0xFFF) ||| pagePresent = userEntry f := by
      rw [hf.and_mask, userEntry, UInt64.or_assoc, UInt64.or_assoc]
      rfl
    rw [hvalue]
    refine ⟨_, hall.laid.link hpt ((hall.same f hbusy).trans hplan) hf (hall.busy f hbusy) ?_⟩
    exact fun k hk => absurd hk (Nat.succ_ne_zero k).symm

theorem copyWindow_end (virt fileSize page : UInt64) :
    (copyWindow virt fileSize page).1 < (copyWindow virt fileSize page).2 →
      (copyWindow virt fileSize page).2.toNat ≤ 4096 := by
  intro hlt
  rw [copyWindow] at hlt ⊢
  dsimp only at hlt ⊢
  generalize (if page < virt then virt - page else 0) = start at hlt ⊢
  split at hlt
  next hpartial =>
    rw [if_pos hpartial]
    split at hlt
    next hnone => exact absurd hlt (UInt64.lt_irrefl _)
    next hsome =>
      rw [if_neg hsome]
      rw [UInt64.le_iff_toNat_le] at hsome
      rw [UInt64.lt_iff_toNat_lt, UInt64.toNat_add page] at hpartial
      have hpage := page.toNat_lt
      have hend := (virt + fileSize).toNat_lt
      rw [UInt64.toNat_sub]
      change _ < (page.toNat + 4096) % 2 ^ 64 at hpartial
      omega
  next hfull =>
    rw [if_neg hfull]
    exact le_rfl

theorem copy_frame (hf : Aligned f) (virt fileSize page : UInt64) (data : Option (List UInt8))
    (w : Access) : ∃ m, copyToFrame virt fileSize page f data w = (some (), w.withMem m) ∧
      ∀ a, frameOf a ≠ frameOf f → m a = w.vmm.mem a := by
  rw [copyToFrame]
  cases data with
  | none => exact ⟨w.vmm.mem, rfl, fun _ _ => rfl⟩
  | some data =>
    dsimp only
    split
    next hlt =>
      refine ⟨_, rfl, fun a ha => storeBytes_frame hf ?_ ha⟩
      have hend := copyWindow_end virt fileSize page hlt
      have hle := UInt64.le_of_lt hlt
      have hsub := UInt64.toNat_sub_of_le _ _ hle
      rw [UInt64.lt_iff_toNat_lt] at hlt
      rw [List.length_take, hsub]
      omega
    · exact ⟨w.vmm.mem, rfl, fun _ _ => rfl⟩

/-- Pages are mapped to frames taken for them, whatever is copied into these before. -/
theorem tidy_page (virt : UInt64) (copy : UInt64 → VmmOp Unit)
    (hcopy : ∀ f w, Aligned f → ∃ m, copy f w = (some (), w.withMem m) ∧
      ∀ a, frameOf a ≠ frameOf f → m a = w.vmm.mem a) :
    Keeps Tidy (takeFrame .data >>= fun f => copy f >>= fun _ => vmmMapPage virt f userFlags) := by
  rintro w ⟨plan, h⟩
  rcases takeFrame_cases h .data with ⟨w₁, hrun, hfail⟩ | ⟨f, w₁, hrun, htook⟩
  · rw [bind_of_none hrun]
    exact ⟨plan, hfail.laid⟩
  rw [bind_of_some hrun]
  obtain ⟨m, hstored, hframe⟩ := hcopy f w₁ htook.aligned
  rw [bind_of_some hstored]
  have hfresh := h.fresh htook
  have hmem : Laid (w₁.withMem m) plan :=
    (h.took htook).laid.outside htook.aligned (fun k q hf => nomatch hfresh.symm.trans hf) hframe
  exact mapPage_tidy hmem htook.aligned htook.taken hfresh virt

theorem tidy_mapRange (virt : UInt64) (data : Option (List UInt8)) (fileSize memSize : UInt64) :
    Keeps Tidy (vmmMapRangeFlags virt data fileSize memSize userFlags) := by
  refine keeps_state.bind fun w => (keeps_require _).bind fun _ => keeps_forM fun page _ => ?_
  exact tidy_page page _ fun f w hf => copy_frame hf virt fileSize page data w

theorem tidy_zeroedPage (virt : UInt64) : Keeps Tidy (vmmMapZeroedPageFlags virt userFlags) :=
  tidy_page virt (fun _ => pure ()) fun _ w _ => ⟨w.vmm.mem, rfl, fun _ _ => rfl⟩

end VirtualMemory
