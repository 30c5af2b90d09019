import K64.Personality
import K64.SpawnCredentials

/-! # Which processes are Linux processes

A step gives at most one slot, and the variable for the next process is the Linux personality exactly
while a launch of `klcs` is left over. -/
namespace Personality

open UserMode SpawnCredentials

variable {m t : Machine} {s : System} {e : ProgramEvent} {x : Image} {i j : ℕ}

def Gives (m t : Machine) (slot : Option ℕ) : Prop :=
  match slot with
  | none => ∀ j, (t.user.processTable j).used = true → (m.user.processTable j).used = true
  | some i => (t.user.processTable i).used = true ∧
      ∀ j, j ≠ i → (t.user.processTable j).used = true → (m.user.processTable j).used = true

theorem gives_of_shrinks (h : Shrinks m t) : Gives m t none := fun j hj => (h.slots j).2.2 hj

theorem processAlloc_fst (u : State) (parentPid pid : UInt64) :
    (processAlloc u parentPid pid).1 = processSlot u pid := by
  rw [processAlloc]
  cases processSlot u pid <;> rfl

theorem processAlloc_used {u : State} {parentPid pid : UInt64} (hslot : processSlot u pid = some i)
    (j : ℕ) :
    (((processAlloc u parentPid pid).2.processTable i).used = true) ∧
      (j ≠ i → (processAlloc u parentPid pid).2.processTable j = u.processTable j) := by
  rw [processAlloc, hslot]
  simp only [State.setProcess, Function.update_self, true_and]
  exact fun hne => Function.update_of_ne hne _ _

theorem elfExecute_gives (m : Machine) (x : Image) (path : List UInt8) (parentPid pid : UInt64)
    (purpose : Purpose)
    (savedCtx : ExecContext) (savedRsp0 : KernelStack) :
    (∃ ok, elfExecute m x path parentPid pid purpose savedCtx savedRsp0 = (some ok, m) ∧
      (if reachesTable m x then processSlot m.user pid else none) = none) ∨
    ∃ t, elfExecute m x path parentPid pid purpose savedCtx savedRsp0 = (none, t) ∧
      Gives m t (if reachesTable m x then processSlot m.user pid else none) := by
  obtain ⟨ok, heq, hok⟩ | ⟨t, i, heq, hent, hloads, hdepth, -⟩ :=
    elfExecute_cases m x path parentPid pid purpose savedCtx savedRsp0
  · refine Or.inl ⟨ok, heq, ?_⟩
    by_cases hreach : reachesTable m x = true
    · rw [if_pos hreach]
      rw [reachesTable, Bool.and_eq_true, decide_eq_true_eq] at hreach
      -- the image was loaded, so it is the table that was full
      unfold elfExecute at heq
      rw [if_neg (by rw [hreach.1]; simp [hreach.2])] at heq
      rw [← processAlloc_fst m.user parentPid pid]
      cases halloc : processAlloc m.user parentPid pid with
      | mk slot user =>
        rw [halloc] at heq
        cases slot with
        | none => rfl
        | some i => cases heq
    · rw [if_neg hreach]
  · refine Or.inr ⟨t, heq, ?_⟩
    have hslot : processSlot m.user pid = some i := by
      rw [← processAlloc_fst m.user parentPid pid]
      exact hent.slot
    have hreach : reachesTable m x = true := by
      rw [reachesTable, hloads, Bool.true_and, decide_eq_true_eq]
      exact hdepth
    rw [if_pos hreach, hslot]
    refine ⟨?_, fun j hne hused => ?_⟩
    · rw [hent.table]
      exact (processAlloc_used hslot i).1
    · rw [hent.table, (processAlloc_used hslot j).2 hne] at hused
      exact hused

theorem gives_congr {m' t' : Machine} {slot : Option ℕ} (h : Gives m t slot)
    (hm : m'.user.processTable = m.user.processTable)
    (ht : t'.user.processTable = t.user.processTable) :
    Gives m' t' slot := by
  cases slot with
  | none =>
    intro j hj
    rw [hm]
    rw [ht] at hj
    exact h j hj
  | some i =>
    refine ⟨?_, fun j hne hj => ?_⟩
    · rw [ht]
      exact h.1
    · rw [hm]
      rw [ht] at hj
      exact h.2 j hne hj

theorem runReservedChild_gives (m : Machine) (x : Image) (pid parentPid : UInt64) (purpose : Purpose) :
    ((∃ status, (runReservedChild m x pid parentPid purpose).1 = some status) ∧
      Shrinks m (runReservedChild m x pid parentPid purpose).2 ∧
      ((findSpawnCtx m pid).bind fun k =>
        if (m.spawnCtx k).parentPid = parentPid ∧ reachesTable m x then
          processSlot m.user pid else none) = none) ∨
    ((runReservedChild m x pid parentPid purpose).1 = none ∧
      Gives m (runReservedChild m x pid parentPid purpose).2 ((findSpawnCtx m pid).bind fun k =>
        if (m.spawnCtx k).parentPid = parentPid ∧ reachesTable m x then
          processSlot m.user pid else none)) := by
  rw [runReservedChild]
  cases hfind : findSpawnCtx m pid with
  | none => exact Or.inl ⟨⟨_, rfl⟩, Shrinks.refl m, rfl⟩
  | some k =>
    simp only [Option.bind_some]
    by_cases hparent : (m.spawnCtx k).parentPid = parentPid
    · rw [if_neg (not_not.mpr hparent)]
      have hslot : (if (m.spawnCtx k).parentPid = parentPid ∧ reachesTable m x = true then
        processSlot m.user pid
          else none) = if reachesTable m x then processSlot m.user pid else none := by
        simp only [hparent, true_and]
      rw [hslot]
      obtain ⟨ok, heq, hnone⟩ | ⟨t, heq, hgives⟩ :=
        elfExecute_gives (beginNested m) x (m.spawnCtx k).path parentPid pid
        purpose m.activeCtx m.rsp0
      · rw [heq]
        have hend : Shrinks m (endNested (beginNested m) m.activeCtx m.rsp0) := shrinks_of_eq rfl rfl
        exact Or.inl ⟨⟨_, rfl⟩, hend.trans (reservedChildEnd_shrinks _ ok pid), hnone⟩
      · rw [heq]
        exact Or.inr ⟨rfl, gives_congr hgives rfl rfl⟩
    · rw [if_pos hparent, if_neg (fun hand => hparent hand.1)]
      exact Or.inl ⟨⟨_, rfl⟩, Shrinks.refl m, rfl⟩

def childSlot (m : Machine) (child : Option (Image × UInt64 × UInt64)) : Option ℕ :=
  child.bind fun child => (findSpawnCtx m child.2.1).bind fun k =>
    if (m.spawnCtx k).parentPid = child.2.2 ∧ reachesTable m child.1 then
      processSlot m.user child.2.1 else none

theorem runReadyChild_gives (m : Machine) (x : Image) (parentPid : UInt64) :
    Gives m (runReadyChildForParent m x parentPid) (childSlot m ((readyCtx m parentPid).map fun k =>
      (x, (m.spawnCtx k).pid, (m.spawnCtx k).parentPid))) := by
  rw [runReadyChildForParent]
  change Gives m (match readyCtx m parentPid with
    | none => m
    | some i => (runReservedChild m x (m.spawnCtx i).pid (m.spawnCtx i).parentPid .child).2) _
  cases readyCtx m parentPid with
  | none => exact gives_of_shrinks (Shrinks.refl m)
  | some k =>
    obtain ⟨-, hshrinks, hnone⟩ | ⟨-, hgives⟩ :=
      runReservedChild_gives m x (m.spawnCtx k).pid (m.spawnCtx k).parentPid .child
    · have hslot : childSlot m (some (x, (m.spawnCtx k).pid, (m.spawnCtx k).parentPid)) = none := hnone
      rw [Option.map_some, hslot]
      exact gives_of_shrinks hshrinks
    · exact hgives

theorem queueSpawn_gives (m : Machine) (path args : List UInt8) :
    Gives m (queueSpawn m path args).2 (allocatedSlot m (.spawn path args)) := by
  simp only [allocatedSlot]
  rw [queueSpawn]
  cases (List.range spawnMax).find? fun i => !(m.spawnCtx i).used with
  | none => exact gives_of_shrinks (Shrinks.refl m)
  | some k =>
    dsimp only [Option.bind_some]
    have hfst := processAlloc_fst { m.user with nextUserPid := m.user.nextUserPid + 1 }
      (currentProcessPid m.user)
      m.user.nextUserPid
    have hsame : processSlot { m.user with nextUserPid := m.user.nextUserPid + 1 } m.user.nextUserPid =
        processSlot m.user m.user.nextUserPid := rfl
    rw [hsame] at hfst
    cases hslot : processSlot m.user m.user.nextUserPid with
    | none =>
      have halloc : processAlloc { m.user with nextUserPid := m.user.nextUserPid + 1 }
        (currentProcessPid m.user)
          m.user.nextUserPid = (none, { m.user with nextUserPid := m.user.nextUserPid + 1 }) := by
        rw [processAlloc, hsame, hslot]
      rw [halloc]
      exact fun j hj => hj
    | some i =>
      have hused := @processAlloc_used i { m.user with nextUserPid := m.user.nextUserPid + 1 }
        (currentProcessPid m.user) m.user.nextUserPid (hsame.trans hslot)
      rw [hslot] at hfst
      generalize processAlloc { m.user with nextUserPid := m.user.nextUserPid + 1 }
        (currentProcessPid m.user)
        m.user.nextUserPid = res at hfst hused
      obtain ⟨slot, user⟩ := res
      dsimp only at hfst
      subst hfst
      refine ⟨(hused i).1, fun j hne hj => ?_⟩
      have heq : user.processTable j = m.user.processTable j := (hused j).2 hne
      rw [← heq]
      exact hj

theorem procWait_gives (m : Machine) (x : Image) (target flags : UInt64) :
    Gives m (procWait m x target flags).2 (childSlot m (childOf m (.wait x target flags))) := by
  have hnone : childOf m (.wait x target flags) = none → ∀ t, Shrinks m t →
      Gives m t (childSlot m (childOf m (.wait x target flags))) := by
    intro hchild t hshrinks
    rw [hchild]
    exact gives_of_shrinks hshrinks
  rw [procWait]
  dsimp only
  by_cases hflags : flags ≠ waitBlock ∧ flags ≠ waitNohang
  · rw [if_pos hflags]
    exact hnone (by rw [childOf, if_neg hflags.1]) m (Shrinks.refl m)
  rw [if_neg hflags]
  cases hfind : processFindPid m.user target with
  | none =>
    refine hnone ?_ m (Shrinks.refl m)
    rw [childOf, hfind]
    exact ite_self _
  | some index =>
    dsimp only
    have hother : ¬ ((m.user.processTable index).parentPid = currentProcessPid m.user ∧
        (m.user.processTable index).state = .running) → childOf m (.wait x target flags) = none := by
      intro hand
      rw [childOf, hfind]
      dsimp only
      rw [if_neg hand]
      exact ite_self _
    by_cases hparent : (m.user.processTable index).parentPid = currentProcessPid m.user
    · rw [if_neg (not_not.mpr hparent)]
      by_cases hrunning : (m.user.processTable index).state = .running
      · rw [if_pos hrunning]
        by_cases hblock : flags = waitBlock
        · have hchild : childOf m (.wait x target flags) =
              some (x, (m.user.processTable index).pid, currentProcessPid m.user) := by
            rw [childOf, if_pos hblock, hfind]
            dsimp only
            rw [if_pos ⟨hparent, hrunning⟩]
          rw [if_neg (by rw [hblock]; decide), hchild]
          have hgives := runReservedChild_gives m x (m.user.processTable index).pid
            (currentProcessPid m.user)
            (.wait target)
          generalize runReservedChild m x (m.user.processTable index).pid (currentProcessPid m.user)
            (.wait target) = res at hgives
          obtain ⟨o, t⟩ := res
          obtain ⟨⟨status, hstatus⟩, hshrinks, hslot⟩ | ⟨hentered, hslot⟩ := hgives
          · dsimp only at hstatus
            subst hstatus
            have hchildSlot : childSlot m
              (some (x, (m.user.processTable index).pid, currentProcessPid m.user)) = none :=
              hslot
            rw [hchildSlot]
            exact gives_of_shrinks (hshrinks.trans (waitEnd_shrinks t status target))
          · dsimp only at hentered
            subst hentered
            exact hslot
        · have hnohang : flags = waitNohang := by
            by_contra hne
            exact hflags ⟨hblock, hne⟩
          rw [if_pos hnohang]
          exact hnone (by rw [childOf, if_neg hblock]) m (Shrinks.refl m)
      · rw [if_neg hrunning]
        exact hnone (hother fun hand => hrunning hand.2) _ (processReap_shrinks m index)
    · rw [if_pos hparent]
      exact hnone (hother fun hand => hparent hand.1) m (Shrinks.refl m)

theorem step_gives (m : Machine) (e : ProgramEvent) :
    Gives m (stepProgram m e).2 (allocatedSlot m e) := by
  cases e with
  | start x path =>
    obtain ⟨ok, heq, hnone⟩ | ⟨t, heq, hgives⟩ :=
      elfExecute_gives m x path 0 0 .shell m.activeCtx m.rsp0
    · rw [stepProgram, heq, allocatedSlot, hnone]
      exact gives_of_shrinks (Shrinks.refl m)
    · rw [stepProgram, heq]
      exact hgives
  | host x path =>
    rw [stepProgram, executeNestedPathArgs]
    obtain ⟨ok, heq, hnone⟩ | ⟨t, heq, hgives⟩ :=
      elfExecute_gives (beginNested m) x path 0 0 .host m.activeCtx m.rsp0
    · rw [heq]
      have hslot : allocatedSlot m (.host x path) = none := hnone
      rw [hslot]
      exact gives_of_shrinks (shrinks_of_eq rfl rfl)
    · rw [heq]
      exact gives_congr hgives rfl rfl
  | spawn path args => exact queueSpawn_gives m path args
  | yield x => exact runReadyChild_gives m x _
  | wait x target flags => exact procWait_gives m x target flags
  | poll x =>
    change Gives m (if m.active then m else runReadyChildForParent m x 0)
      (childSlot m (childOf m (.poll x)))
    by_cases hactive : m.active = true
    · have hnone : childOf m (.poll x) = none := by rw [childOf, if_pos hactive]
      rw [if_pos hactive, hnone]
      exact gives_of_shrinks (Shrinks.refl m)
    · have hready : childOf m (.poll x) = (readyCtx m 0).map fun k =>
        (x, (m.spawnCtx k).pid, (m.spawnCtx k).parentPid) := by
        rw [childOf, if_neg hactive]
      rw [if_neg hactive, hready]
      exact runReadyChild_gives m x 0
  | terminate state code =>
    rw [stepProgram]
    cases m.runs with
    | nil => exact gives_of_shrinks (Shrinks.refl m)
    | cons r rest =>
      exact gives_of_shrinks (((finish_shrinks m state code).trans
        (executeEnd_shrinks _ r rest code)).trans (returnToCaller_shrinks _ r))

theorem pending_step {pending : Bool}
    (hpending : pending = true ↔ s.nextProcessPersonality = .linuxX8664) (e : Event) :
    pendingAfter s.machine pending e = true ↔ (step s e).nextProcessPersonality = .linuxX8664 := by
  cases e with
  | program e =>
    rw [pendingAfter, step, runProgram]
    simp only [launched, Bool.or_false]
    cases allocatedSlot s.machine e with
    | none => simpa using hpending
    | some i => simp
  | klcs q =>
    rw [pendingAfter, step, klcsPrintFileValidation, launched]
    cases klcsLaunch q with
    | none => exact hpending
    | some e =>
      simp only [Option.map_some, Bool.or_true, Bool.true_and]
      have hmachine : (setNextPersonality s .linuxX8664).machine = s.machine := rfl
      rw [runProgram, hmachine]
      cases allocatedSlot s.machine e with
      | none => exact iff_of_true rfl rfl
      | some i => simp

theorem given_runProgram (hgiven : Given s) (e : ProgramEvent) (byKlcs : Bool) :
    Given (runProgram s e byKlcs) ↔ ∀ i, allocatedSlot s.machine e = some i → fresh s.machine i = true →
      (s.nextProcessPersonality = .linuxX8664 ↔ byKlcs = true) := by
  have hslots := step_gives s.machine e
  rw [runProgram]
  cases hslot : allocatedSlot s.machine e with
  | none =>
    rw [hslot] at hslots
    exact iff_of_true (fun j hused => hgiven j (hslots j hused))
      (fun i hi => absurd hi.symm (Option.some_ne_none i))
  | some i =>
    rw [hslot] at hslots
    by_cases hfresh : fresh s.machine i = true
    · simp only [hfresh, if_true]
      constructor
      · intro hafter k hk _
        cases Option.some_inj.mp hk
        have hone := hafter i hslots.1
        simp only [Function.update_self] at hone
        exact hone
      · intro hlaw j hused
        dsimp only at hused ⊢
        by_cases hji : j = i
        · subst hji
          rw [Function.update_self, Function.update_self]
          exact hlaw j rfl hfresh
        · rw [Function.update_of_ne hji, Function.update_of_ne hji]
          exact hgiven j (hslots.2 j hji hused)
    · simp only [hfresh]
      refine iff_of_true (fun j hused => ?_) (fun k hk hk' => ?_)
      · by_cases hji : j = i
        · subst hji
          refine hgiven j ?_
          simpa [fresh] using hfresh
        · exact hgiven j (hslots.2 j hji hused)
      · cases Option.some_inj.mp hk
        exact absurd hk' hfresh

theorem given_step (hgiven : Given s) {pending : Bool}
    (hpending : pending = true ↔ s.nextProcessPersonality = .linuxX8664) (e : Event) :
    Given (step s e) ↔ ¬ (pending = true ∧ takesFree s.machine e) := by
  cases e with
  | program e =>
    rw [step, given_runProgram hgiven]
    constructor
    · rintro hlaw ⟨hleft, launch, hlaunch, i, hslot, hfresh⟩
      obtain rfl : launch = e := by
        simp only [launched, Option.some_inj, Prod.mk.injEq] at hlaunch
        exact hlaunch.1.symm
      exact absurd ((hlaw i hslot hfresh).mp (hpending.mp hleft)) Bool.false_ne_true
    · intro hno i hslot hfresh
      refine iff_of_false (fun hlinux => hno ⟨hpending.mpr hlinux, e, rfl, i, hslot, hfresh⟩)
        Bool.false_ne_true
  | klcs q =>
    have hgives : ¬ (pending = true ∧ takesFree s.machine (.klcs q)) := by
      rintro ⟨-, launch, hlaunch, -⟩
      rw [launched] at hlaunch
      cases hq : klcsLaunch q with
      | none =>
        rw [hq] at hlaunch
        cases hlaunch
      | some e =>
        rw [hq] at hlaunch
        cases hlaunch
    refine iff_of_true ?_ hgives
    rw [step, klcsPrintFileValidation]
    cases klcsLaunch q with
    | none => exact hgiven
    | some e =>
      have hset : Given (setNextPersonality s .linuxX8664) := hgiven
      exact (given_runProgram hset e true).mpr fun i _ _ => iff_of_true rfl rfl

theorem AlwaysGiven.given {events : List Event} (h : AlwaysGiven s events) : Given s := by
  cases events with
  | nil => exact h
  | cons e rest => exact h.1

theorem alwaysGiven_iff (events : List Event) : ∀ {s : System} {pending : Bool}, Given s →
    (pending = true ↔ s.nextProcessPersonality = .linuxX8664) →
    (AlwaysGiven s events ↔ NoneLeft s pending events) := by
  induction events with
  | nil => exact fun hgiven _ => iff_of_true hgiven trivial
  | cons e rest ih =>
    intro s pending hgiven hpending
    rw [AlwaysGiven, NoneLeft, ← given_step hgiven hpending e]
    have hnext := pending_step hpending e
    constructor
    · exact fun hall => ⟨hall.2.given, (ih hall.2.given hnext).mp hall.2⟩
    · exact fun hnone => ⟨hgiven, (ih hnone.1 hnext).mpr hnone.2⟩

/-- From a start without processes on, the Linux personality is given to the launches of `klcs` alone in
exactly the runs in which no failed launch of `klcs` is left over for another process. -/
theorem personality_given_iff (hstart : Started s) (events : List Event) :
    AlwaysGiven s events ↔ NoneLeft s false events := by
  refine alwaysGiven_iff events (fun i hused => ?_) ?_
  · rw [hstart.1 i] at hused
    cases hused
  · rw [hstart.2]
    exact iff_of_false Bool.false_ne_true (by decide)

def bootSystem : System := ⟨bootMachine, fun _ => .native, .native, fun _ => false⟩

theorem bootSystem_started : Started bootSystem := ⟨fun _ => rfl, rfl⟩

def refusedRequest : KlcsRequest := ⟨[97], some [97], true, false, ⟨false, 0, 0, 0⟩, ⟨false, 0, 0, 0⟩⟩

def nativeLaunch : ProgramEvent := .start ⟨true, 0, 0, 0⟩ [98]

def linuxRequest : KlcsRequest := ⟨[97], some [97], true, false, ⟨true, 0, 0, 0⟩, ⟨false, 0, 0, 0⟩⟩

/-- A Linux program is run to its end, and a native one is started behind it. -/
def linuxThenNative : List Event :=
  [.klcs linuxRequest, .program (.terminate .exited 0), .program nativeLaunch]

def linuxThenNativeEnd : System := linuxThenNative.foldl step bootSystem

theorem linux_then_native : AlwaysGiven bootSystem linuxThenNative ∧
    (linuxThenNativeEnd.machine.user.processTable 1).used = true ∧
    linuxThenNativeEnd.personality 0 = .linuxX8664 ∧ linuxThenNativeEnd.personality 1 = .native := by
  have hnone : NoneLeft bootSystem false linuxThenNative :=
    ⟨fun h => Bool.false_ne_true h.1, fun h => Bool.false_ne_true h.1,
      fun h => Bool.false_ne_true h.1, trivial⟩
  exact ⟨(personality_given_iff bootSystem_started linuxThenNative).mpr hnone, rfl, rfl, rfl⟩

/-- The native program that is started next is a Linux process. -/
theorem left_over_personality :
    ¬ AlwaysGiven bootSystem [.klcs refusedRequest, .program nativeLaunch] := by
  intro hall
  have hgiven := hall.2.2 0 rfl
  exact absurd (hgiven.mp rfl) Bool.false_ne_true

end Personality
