import K64.VirtualMemory
import K64.PhysicalMemoryRuns

/-! # Frames that a space owes

Between its allocation and its release a space has recorded every frame that was taken for it, at
whatever point a call on it stopped. Releasing it therefore gives the frames and the slot back. -/
namespace VirtualMemory

open Attempts Attempt FirstFit
open PhysicalMemory (Pmm testFrame frameSize maxFrames searchLimit testFrame_takeFrame
  testFrame_dropFrame k64PmmAllocFrame k64PmmFreeFrame releaseFrame dropFrame)

/-- Frame 0 is never handed out: the answer would be the null pointer. -/
def NullReserved (p : Pmm) : Prop := testFrame p 0 = true ∨ p.totalFrames = 0

def VmSpace.frames (space : VmSpace) : List ℕ :=
  (space.pageTableFrames.frames ++ space.physFrames.frames).map fun a => a.toNat / frameSize

def slotsBack (w : Access) : ℕ → Bool :=
  if serviceVmBase ≤ w.space.rootBase ∧ slotOf w.space.rootBase < serviceVmMaxSlots then
    Function.update w.vmm.serviceSlotUsed (slotOf w.space.rootBase) false
  else w.vmm.serviceSlotUsed

/-- The frames in use are those of `p` and the recorded ones. -/
structure Owes (p : Pmm) (used : ℕ → Bool) (w : Access) : Prop where
  present : w.space.present = true
  total : w.vmm.pmm.totalFrames = p.totalFrames
  bits : ∀ f, testFrame w.vmm.pmm f = (testFrame p f || decide (f ∈ w.space.frames))
  fresh : ∀ f ∈ w.space.frames, testFrame p f = false ∧ 0 < f ∧ f < maxFrames
  slots : slotsBack w = used

structure Settled (p : Pmm) (used : ℕ → Bool) (v : Vmm) : Prop where
  total : v.pmm.totalFrames = p.totalFrames
  bits : ∀ f, testFrame v.pmm f = testFrame p f
  slots : v.serviceSlotUsed = used

variable {p s : Pmm} {used : ℕ → Bool} {v : Vmm} {w : Access} {f : ℕ}

theorem frame_address (hf : f < maxFrames) :
    (UInt64.ofNat (f * frameSize)).toNat = f * frameSize := by
  rw [UInt64.toNat_ofNat']
  apply Nat.mod_eq_of_lt
  simp only [maxFrames] at hf
  simp only [frameSize]
  omega

theorem frame_of_address (hf : f < maxFrames) :
    (UInt64.ofNat (f * frameSize)).toNat / frameSize = f := by
  rw [frame_address hf]
  exact Nat.mul_div_cancel f (by decide)

theorem Owes.nullReserved (h : Owes p used w) (hnull : NullReserved p) : NullReserved w.vmm.pmm := by
  rcases hnull with hzero | htotal
  · exact .inl (by rw [h.bits, hzero, Bool.true_or])
  · exact .inr (h.total.trans htotal)

theorem allocFrame_cases (hnull : NullReserved w.vmm.pmm) : allocFrame w = (none, w) ∨
    ∃ f, 0 < f ∧ f < maxFrames ∧ testFrame w.vmm.pmm f = false ∧
      allocFrame w = (some (UInt64.ofNat (f * frameSize)),
        { w with vmm := { w.vmm with pmm := PhysicalMemory.takeFrame w.vmm.pmm f } }) := by
  rcases hfind : firstFree (testFrame w.vmm.pmm) (searchLimit w.vmm.pmm) with _ | f
  · left
    simp only [allocFrame, k64PmmAllocFrame, hfind]
    rfl
  · obtain ⟨hlimit, hfree, -⟩ := firstFree_some hfind
    have hsmall : f < maxFrames := lt_of_lt_of_le hlimit (Nat.min_le_right _ _)
    have hpos : 0 < f := by
      rcases hnull with hzero | htotal
      · refine Nat.pos_of_ne_zero ?_
        rintro rfl
        rw [hzero] at hfree
        cases hfree
      · rw [searchLimit, htotal, Nat.zero_min] at hlimit
        exact absurd hlimit (Nat.not_lt_zero f)
    refine Or.inr ⟨f, hpos, hsmall, hfree, ?_⟩
    have hne : f * frameSize ≠ 0 := Nat.mul_ne_zero (Nat.pos_iff_ne_zero.mp hpos) (by decide)
    simp only [allocFrame, k64PmmAllocFrame, hfind]
    rw [if_neg hne]

theorem record_spec {capacity : ℕ} {l l' : FrameList capacity} {a : UInt64}
    (h : vmmRecordFrame l a = some l') : l'.frames = l.frames ++ [a] := by
  rw [vmmRecordFrame] at h
  split at h
  · cases h
    rfl
  · cases h

theorem VmSpace.record_spec {space space' : VmSpace} {a : UInt64} {kind : FrameKind}
    (h : space.record a kind = some space') :
    space'.present = space.present ∧ space'.rootBase = space.rootBase ∧
      ∀ f, f ∈ space'.frames ↔ f ∈ space.frames ∨ f = a.toNat / frameSize := by
  cases kind
  all_goals
    obtain ⟨l, hl, rfl⟩ := Option.map_eq_some_iff.mp h
    refine ⟨rfl, rfl, fun f => ?_⟩
    simp only [VmSpace.frames, VirtualMemory.record_spec hl, List.map_append, List.mem_append,
      List.map_cons, List.map_nil, List.mem_singleton]
    tauto

theorem free_taken (hsmall : f < maxFrames) (hfree : testFrame s f = false) :
    (∀ g, testFrame (k64PmmFreeFrame (PhysicalMemory.takeFrame s f)
      (UInt64.ofNat (f * frameSize)).toNat) g = testFrame s g) ∧
    (k64PmmFreeFrame (PhysicalMemory.takeFrame s f)
      (UInt64.ofNat (f * frameSize)).toNat).totalFrames = s.totalFrames := by
  have hset : testFrame (PhysicalMemory.takeFrame s f) f = true := by simp
  have hrelease : k64PmmFreeFrame (PhysicalMemory.takeFrame s f)
      (UInt64.ofNat (f * frameSize)).toNat = dropFrame (PhysicalMemory.takeFrame s f) f := by
    rw [k64PmmFreeFrame, frame_of_address hsmall, releaseFrame, decide_eq_true hsmall, hset]
    rfl
  rw [hrelease]
  refine ⟨fun g => ?_, rfl⟩
  rw [testFrame_dropFrame, testFrame_takeFrame]
  by_cases hfg : f = g
  · rw [← hfg, hfree, decide_eq_true rfl]
    rfl
  · rw [decide_eq_false hfg]
    rfl

theorem keeps_takeFrame (hnull : NullReserved p) (kind : FrameKind) :
    Keeps (Owes p used) (takeFrame kind) := by
  intro w h
  rw [takeFrame]
  rcases allocFrame_cases (h.nullReserved hnull) with hnone | ⟨f, hpos, hsmall, hfree, hsome⟩
  · rw [bind_of_none hnone]
    exact h
  rw [bind_of_some hsome, bind_of_some (show state _ = (some _, _) from rfl)]
  dsimp only
  cases hrecord : w.space.record (UInt64.ofNat (f * frameSize)) kind with
  | none =>
    -- no room in the list: the frame goes back at once
    obtain ⟨hbits, htotal⟩ := free_taken hsmall hfree
    exact ⟨h.present, htotal.trans h.total, fun g => (hbits g).trans (h.bits g), h.fresh, h.slots⟩
  | some space =>
    obtain ⟨hpresent, hroot, hframes⟩ := VmSpace.record_spec hrecord
    have hmem : ∀ g, g ∈ space.frames ↔ g ∈ w.space.frames ∨ g = f := by
      intro g
      rw [hframes, frame_of_address hsmall]
    have hbase := h.bits f
    rw [hfree, eq_comm, Bool.or_eq_false_iff] at hbase
    refine ⟨hpresent.trans h.present, h.total, fun g => ?_, fun g hg => ?_, ?_⟩
    · change testFrame (PhysicalMemory.takeFrame w.vmm.pmm f) g =
        (testFrame p g || decide (g ∈ space.frames))
      rw [testFrame_takeFrame, h.bits, Bool.eq_iff_iff]
      simp only [Bool.or_eq_true, decide_eq_true_eq, hmem]
      tauto
    · rcases (hmem g).mp hg with hold | rfl
      · exact h.fresh g hold
      · exact ⟨hbase.1, hpos, hsmall⟩
    · rw [← h.slots]
      change slotsBack ⟨_, space⟩ = _
      rw [slotsBack, slotsBack, hroot]

theorem keeps_changeMem (f : Memory → Memory) : Keeps (Owes p used) (changeMem f) :=
  fun _ h => ⟨h.present, h.total, h.bits, h.fresh, h.slots⟩

theorem keeps_readEntry (table index : UInt64) : Keeps (Owes p used) (readEntry table index) :=
  fun _ h => h

theorem keeps_writeEntry (table index value : UInt64) :
    Keeps (Owes p used) (writeEntry table index value) := keeps_changeMem _

theorem keeps_splitLargePage (hnull : NullReserved p) (table index flags : UInt64) (level : ℕ) :
    Keeps (Owes p used) (vmmSplitLargePage table index flags level) := by
  apply (keeps_readEntry table index).bind
  intro entry
  refine (keeps_require _).bind fun _ => ?_
  apply (keeps_takeFrame hnull .table).bind
  intro next
  refine Keeps.bind (keeps_forM fun i _ => ?_) fun _ => ?_
  · split
    · exact keeps_writeEntry _ _ _
    · exact keeps_writeEntry _ _ _
  · exact (keeps_writeEntry _ _ _).bind fun _ => keeps_pure next

theorem keeps_nextTable (hnull : NullReserved p) (table index flags : UInt64) (level : ℕ) :
    Keeps (Owes p used) (vmmNextTable table index flags level) := by
  apply (keeps_readEntry table index).bind
  intro entry
  split
  · split
    · exact keeps_splitLargePage hnull table index flags level
    · exact keeps_pure _
  · apply (keeps_takeFrame hnull .table).bind
    intro next
    exact (keeps_writeEntry _ _ _).bind fun _ => keeps_pure next

theorem keeps_mapPage (hnull : NullReserved p) (virt phys flags : UInt64) :
    Keeps (Owes p used) (vmmMapPage virt phys flags) := by
  refine keeps_state.bind fun w => ?_
  refine (keeps_require _).bind fun _ => ?_
  apply (keeps_nextTable hnull _ _ _ _).bind
  intro pdpt
  apply (keeps_nextTable hnull _ _ _ _).bind
  intro pdt
  apply (keeps_nextTable hnull _ _ _ _).bind
  intro pt
  exact keeps_writeEntry _ _ _

theorem keeps_cloneKernelRoot (hnull : NullReserved p) :
    Keeps (Owes p used) vmmCloneKernelRoot := by
  refine keeps_state.bind fun w => ?_
  refine (keeps_require _).bind fun _ => ?_
  apply (keeps_readEntry _ _).bind
  intro first
  refine (keeps_require _).bind fun _ => ?_
  apply (keeps_takeFrame hnull .table).tried.bind
  intro newPml4
  apply (keeps_takeFrame hnull .table).tried.bind
  intro newPdpt
  split
  · refine Keeps.bind (keeps_forM fun i _ => ?_) fun _ => ?_
    · apply (keeps_readEntry _ _).bind
      intro a
      apply (keeps_writeEntry _ _ _).bind
      intro _
      exact (keeps_readEntry _ _).bind fun b => keeps_writeEntry _ _ b
    · apply (keeps_writeEntry _ _ _).bind
      intro _
      exact keeps_change fun w h => ⟨h.present, h.total, h.bits, h.fresh, h.slots⟩
  · exact keeps_stop

theorem keeps_furnishSpace (hnull : NullReserved p) (stackBase flags : UInt64) :
    Keeps (Owes p used) (furnishSpace stackBase flags) := by
  apply (keeps_cloneKernelRoot hnull).bind
  intro _
  apply keeps_forM
  intro i _
  exact (keeps_takeFrame hnull .data).bind fun frame => keeps_mapPage hnull _ frame flags

theorem keeps_mapRangeFlags (hnull : NullReserved p) (virt : UInt64) (data : Option (List UInt8))
    (fileSize memSize flags : UInt64) :
    Keeps (Owes p used) (vmmMapRangeFlags virt data fileSize memSize flags) := by
  refine keeps_state.bind fun w => ?_
  refine (keeps_require _).bind fun _ => ?_
  apply keeps_forM
  intro page _
  apply (keeps_takeFrame hnull .data).bind
  intro frame
  refine Keeps.bind ?_ fun _ => keeps_mapPage hnull page frame flags
  rw [copyToFrame]
  cases data with
  | none => exact keeps_pure _
  | some data =>
    dsimp only
    split
    · exact keeps_changeMem _
    · exact keeps_pure _

theorem keeps_writeUserFrom (fuel : ℕ) : ∀ (virt : UInt64) (data : List UInt8),
    Keeps (Owes p used) (writeUserFrom fuel virt data) := by
  induction fuel with
  | zero => exact fun virt data => keeps_pure _
  | succ fuel ih =>
    intro virt data
    rw [writeUserFrom]
    split
    · exact keeps_pure _
    · refine keeps_state.bind fun w => ?_
      split
      · exact keeps_stop
      · exact (keeps_changeMem _).bind fun _ => ih _ _

theorem keeps_writeUser (virt : UInt64) (data : List UInt8) :
    Keeps (Owes p used) (k64VmmWriteUser virt data) :=
  (keeps_require _).bind fun _ => keeps_writeUserFrom _ _ _

theorem findSlot_some {start slot : ℕ} (h : findSlot used start = some slot) :
    slot < serviceVmMaxSlots ∧ used slot = false := by
  have hfree := List.find?_some h
  obtain ⟨j, -, rfl⟩ := List.mem_map.mp (List.mem_of_find?_eq_some h)
  exact ⟨Nat.mod_lt _ (by decide), by simpa using hfree⟩

theorem slotOf_slotBase {slot : ℕ} (h : slot < serviceVmMaxSlots) :
    serviceVmBase ≤ slotBase slot ∧ slotOf (slotBase slot) = slot := by
  have hall : ∀ i : Fin 256, serviceVmBase ≤ slotBase i.val ∧ slotOf (slotBase i.val) = i.val := by
    decide +kernel
  exact hall ⟨slot, h⟩

theorem free_frames (l : List UInt64) : ∀ s : Pmm, (∀ a ∈ l, a.toNat / frameSize < maxFrames) →
    (∀ f, testFrame (l.foldl (fun s a => k64PmmFreeFrame s a.toNat) s) f =
      (testFrame s f && !decide (f ∈ l.map fun a => a.toNat / frameSize))) ∧
    (l.foldl (fun s a => k64PmmFreeFrame s a.toNat) s).totalFrames = s.totalFrames := by
  induction l with
  | nil => exact fun s _ => ⟨fun f => by simp, rfl⟩
  | cons a l ih =>
    intro s hsmall
    obtain ⟨ha, hl⟩ := List.forall_mem_cons.mp hsmall
    obtain ⟨hbits, htotal⟩ := ih (k64PmmFreeFrame s a.toNat) hl
    have hone : (∀ f, testFrame (k64PmmFreeFrame s a.toNat) f =
        (testFrame s f && !decide (f = a.toNat / frameSize))) ∧
        (k64PmmFreeFrame s a.toNat).totalFrames = s.totalFrames := by
      rw [k64PmmFreeFrame, releaseFrame, decide_eq_true ha, Bool.true_and]
      cases hset : testFrame s (a.toNat / frameSize) with
      | true =>
        refine ⟨fun f => ?_, rfl⟩
        rw [if_pos rfl, testFrame_dropFrame, Bool.and_comm]
        simp only [eq_comm]
      | false =>
        refine ⟨fun f => ?_, rfl⟩
        rw [if_neg Bool.false_ne_true]
        by_cases hf : f = a.toNat / frameSize
        · rw [hf, hset, Bool.false_and]
        · rw [decide_eq_false hf, Bool.not_false, Bool.and_true]
    rw [List.foldl_cons]
    refine ⟨fun f => ?_, htotal.trans hone.2⟩
    rw [hbits, hone.1, List.map_cons, Bool.and_assoc, ← Bool.not_or, ← Bool.decide_or]
    congr 2
    exact decide_eq_decide.mpr List.mem_cons.symm

theorem Owes.release (h : Owes p used w) : Settled p used (k64VmmReleaseServiceSpace w).vmm := by
  have hmem : ∀ a ∈ w.space.physFrames.frames ++ w.space.pageTableFrames.frames,
      a.toNat / frameSize ∈ w.space.frames := by
    intro a ha
    apply List.mem_map_of_mem
    rw [List.mem_append] at ha ⊢
    exact ha.symm
  -- no recorded address is null, so none is left out
  have hfilter : (w.space.physFrames.frames ++ w.space.pageTableFrames.frames).filter (· != 0) =
      w.space.physFrames.frames ++ w.space.pageTableFrames.frames := by
    apply List.filter_eq_self.mpr
    intro a ha
    have hpos := (h.fresh _ (hmem a ha)).2.1
    rw [bne_iff_ne]
    rintro rfl
    exact absurd hpos (by decide)
  obtain ⟨hbits, htotal⟩ := free_frames
    (w.space.physFrames.frames ++ w.space.pageTableFrames.frames) w.vmm.pmm
    fun a ha => (h.fresh _ (hmem a ha)).2.2
  rw [k64VmmReleaseServiceSpace, h.present, Bool.not_true, if_neg Bool.false_ne_true]
  dsimp only
  rw [hfilter]
  refine ⟨htotal.trans h.total, fun f => ?_, h.slots⟩
  rw [hbits, h.bits]
  have hsame : f ∈ (w.space.physFrames.frames ++ w.space.pageTableFrames.frames).map
      (fun a => a.toNat / frameSize) ↔ f ∈ w.space.frames := by
    rw [VmSpace.frames, List.map_append, List.map_append, List.mem_append, List.mem_append, or_comm]
  rw [decide_eq_decide.mpr hsame]
  by_cases hf : f ∈ w.space.frames
  · rw [decide_eq_true hf, (h.fresh f hf).1]
    rfl
  · rw [decide_eq_false hf, Bool.or_false, Bool.not_false, Bool.and_true]

theorem allocSpace_spec (hnull : NullReserved v.pmm) (pid stackFlags : UInt64) (userMode : Bool) :
    match vmmAllocSpace pid stackFlags userMode v with
    | (true, w) => Owes v.pmm v.serviceSlotUsed w
    | (false, w) => Settled v.pmm v.serviceSlotUsed w.vmm := by
  rw [vmmAllocSpace]
  by_cases hpid : pid = 0
  · rw [if_pos hpid]
    refine ⟨rfl, rfl, fun f => ?_, fun f hf => absurd hf List.not_mem_nil, rfl⟩
    exact (Bool.or_false _).symm
  rw [if_neg hpid]
  cases hfind : findSlot v.serviceSlotUsed (pid.toNat % serviceVmMaxSlots) with
  | none => exact ⟨rfl, fun f => rfl, rfl⟩
  | some slot =>
    obtain ⟨hslot, hfree⟩ := findSlot_some hfind
    obtain ⟨hbase, hback⟩ := slotOf_slotBase hslot
    have hstart : Owes v.pmm v.serviceSlotUsed
        ⟨{ v with serviceSlotUsed := Function.update v.serviceSlotUsed slot true },
          slotSpace slot userMode⟩ := by
      refine ⟨rfl, rfl, fun f => (Bool.or_false _).symm, fun f hf => absurd hf List.not_mem_nil, ?_⟩
      have hroot : (slotSpace slot userMode).rootBase = slotBase slot := rfl
      rw [slotsBack, hroot, hback, if_pos ⟨hbase, hslot⟩, Function.update_idem, ← hfree,
        Function.update_eq_self]
    have hfurnished := keeps_furnishSpace hnull (slotSpace slot userMode).stackBase stackFlags _
      hstart
    dsimp only
    rcases hrun : furnishSpace (slotSpace slot userMode).stackBase stackFlags
      ⟨{ v with serviceSlotUsed := Function.update v.serviceSlotUsed slot true },
        slotSpace slot userMode⟩ with ⟨_ | _, w⟩
    · rw [hrun] at hfurnished
      exact hfurnished.release
    · rw [hrun] at hfurnished
      exact hfurnished

end VirtualMemory
