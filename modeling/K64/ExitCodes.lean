import K64.ProcessNumbers

/-! # Exit codes

Children are run to their end from a wait, a yield or the background poll, and their exit codes are
returned by the waits of their parents. -/
namespace UserMode

variable {m t : Machine} {e : ProgramEvent} {r : Run} {rest : List Run} {i j k : ℕ} {g : Record}

theorem processFindPid_of (hs : Sound m g) (hlt : i < processMax)
    (hused : (m.user.processTable i).used = true) :
    processFindPid m.user (m.user.processTable i).pid = some i := by
  unfold processFindPid
  rw [if_neg, processFindUsed_of hs.table hlt hused rfl]
  rintro ⟨hzero, -⟩
  have hpids := (hs.table.pids i hlt hused).1
  rw [hzero] at hpids
  exact Nat.not_lt_zero _ hpids

variable {pid : UInt64}

theorem reservedChildEnd_ended (hfind : processFindPid m.user pid = some i)
    (hended : (m.user.processTable i).state ≠ .running) (ok : Bool) :
    reservedChildEnd m ok pid = (0, clearSpawnCtx m pid) := by
  have hkeep : (if ok = false ∧ (m.user.processTable i).state = .running then
      processFinish m.user i .faulted errNoent else m.user) = m.user := if_neg fun h => hended h.2
  unfold reservedChildEnd
  rw [hfind]
  dsimp only
  rw [hkeep]
  exact if_neg hended

theorem reservedChildEnd_running (hfind : processFindPid m.user pid = some i)
    (hrunning : (m.user.processTable i).state = .running) :
    reservedChildEnd m true pid = (errAgain, m) := by
  have hkeep : (if true = false ∧ (m.user.processTable i).state = .running then
      processFinish m.user i .faulted errNoent else m.user) = m.user :=
    if_neg fun h => absurd h.1 (by decide)
  unfold reservedChildEnd
  rw [hfind]
  dsimp only
  rw [hkeep]
  exact if_pos hrunning

theorem reservedChildEnd_failed (hfind : processFindPid m.user pid = some i)
    (hlt : i < processMax) (hused : (m.user.processTable i).used = true)
    (hrunning : (m.user.processTable i).state = .running) :
    reservedChildEnd m false pid = (0, clearSpawnCtx { m with
      user := m.user.setProcess i fun p => { p with
        state := .faulted, exitCode := errNoent } } pid) := by
  have hfinish : (if false = false ∧ (m.user.processTable i).state = .running then
      processFinish m.user i .faulted errNoent else m.user) =
      m.user.setProcess i fun p => { p with state := .faulted, exitCode := errNoent } :=
    (if_pos ⟨rfl, hrunning⟩).trans (processFinish_used hlt hused)
  unfold reservedChildEnd
  rw [hfind]
  dsimp only
  rw [hfinish]
  refine if_neg ?_
  dsimp only [State.setProcess]
  rw [Function.update_self]
  exact nofun

def EndedEntry (m : Machine) (pid : UInt64) : Prop :=
  ∃ i < processMax, (m.user.processTable i).used = true ∧ (m.user.processTable i).pid = pid ∧
    (m.user.processTable i).state ≠ .running

theorem sound_runReserved (hs : Sound m g) {x : Image} {parentPid : UInt64} {purpose : Purpose}
    (hfits : pid ≠ 0 → purpose.Fits pid)
    (hcaller : ∀ r' ∈ m.runs, (m.user.processTable r'.index).pid.toNat ≤ parentPid.toNat)
    (hwaits : ∀ target, purpose = .wait target →
      ∃ r' ∈ m.runs.head?, (m.user.processTable r'.index).pid = parentPid) :
    Sound (runReservedChild m x pid parentPid purpose).2
      (g.finish (if loadFails m x pid parentPid then some (pid, errNoent) else none)) ∧
    ((runReservedChild m x pid parentPid purpose).1 = some 0 →
      loadFails m x pid parentPid = true ∧
      EndedEntry (runReservedChild m x pid parentPid purpose).2 pid) := by
  unfold runReservedChild
  cases hfind : findSpawnCtx m pid with
  | none =>
    have hload : loadFails m x pid parentPid = false := by
      unfold loadFails
      rw [hfind]
    rw [hload]
    exact ⟨hs, nofun⟩
  | some k =>
    have hload : loadFails m x pid parentPid = ((m.spawnCtx k).parentPid == parentPid &&
        (!x.loads || decide (m.elfContextDepth ≥ elfContextMax))) := by
      unfold loadFails
      rw [hfind]
    rw [hload]
    dsimp only
    obtain ⟨hk, hused, rfl⟩ := findSpawnCtx_some hfind
    obtain ⟨i, hi⟩ := hs.programs.ctxs k hk hused
    have hne : (m.spawnCtx k).pid ≠ 0 := by
      have hpids := (hs.table.pids i hi.lt hi.used).1
      rw [hi.pid] at hpids
      intro hzero
      rw [hzero] at hpids
      exact Nat.not_lt_zero _ hpids
    by_cases hparent : (m.spawnCtx k).parentPid = parentPid
    swap
    · rw [if_pos hparent, beq_eq_false_iff_ne.2 hparent]
      exact ⟨hs, nofun⟩
    rw [if_neg (not_not.2 hparent), beq_iff_eq.2 hparent, Bool.true_and]
    obtain ⟨ok, heq, hok⟩ | ⟨t, j, heq, hent, hloads, hdepth, -⟩ := elfExecute_cases (beginNested m)
      x (m.spawnCtx k).path parentPid (m.spawnCtx k).pid purpose m.activeCtx m.rsp0
    · rw [heq]
      dsimp only
      have hs' : Sound (endNested (beginNested m) m.activeCtx m.rsp0) g := ⟨hs.table, hs.programs⟩
      have hfound : processFindPid (endNested (beginNested m) m.activeCtx m.rsp0).user
          (m.spawnCtx k).pid = some i := by
        rw [← hi.pid]
        exact processFindPid_of hs' hi.lt hi.used
      cases ok with
      | true =>
        have hloads : (!x.loads || decide (m.elfContextDepth ≥ elfContextMax)) = false := by
          have hnot := (not_congr hok).1 nofun
          rw [Bool.or_eq_false_iff, Bool.not_eq_false', decide_eq_false_iff_not]
          exact ⟨Bool.eq_true_of_not_eq_false fun h => hnot (Or.inl h), fun h => hnot (Or.inr h)⟩
        rw [hloads, reservedChildEnd_running hfound hi.running]
        exact ⟨⟨hs.table, hs.programs⟩, nofun⟩
      | false =>
        have hloads : (!x.loads || decide (m.elfContextDepth ≥ elfContextMax)) = true := by
          rw [Bool.or_eq_true, Bool.not_eq_true', decide_eq_true_iff]
          exact hok.1 rfl
        rw [hloads, reservedChildEnd_failed hfound hi.lt hi.used hi.running]
        dsimp only
        generalize hended : ({ endNested (beginNested m) m.activeCtx m.rsp0 with
          user := (endNested (beginNested m) m.activeCtx m.rsp0).user.setProcess i fun p => { p with
            state := .faulted, exitCode := errNoent } } : Machine) = u
        have htable : u.user.processTable = Function.update m.user.processTable i
            { m.user.processTable i with state := .faulted, exitCode := errNoent } := by
          rw [← hended]
          rfl
        have hnext : u.user.nextUserPid = m.user.nextUserPid := by
          rw [← hended]
          rfl
        have hctx : u.spawnCtx = m.spawnCtx := by
          rw [← hended]
          rfl
        have hruns : u.runs = m.runs := by
          rw [← hended]
          rfl
        have hclear := fun l => clearSpawnCtx_ctx (hctx.symm ▸ hs.programs) (m.spawnCtx k).pid l
        have hentry : u.user.processTable i =
            { m.user.processTable i with state := .faulted, exitCode := errNoent } := by
          rw [htable]
          exact Function.update_self ..
        refine ⟨?_, fun _ => ⟨rfl, i, hi.lt, ?_, ?_, ?_⟩⟩
        · rw [if_pos rfl, ← hi.pid]
          rw [← hi.pid] at hclear
          refine sound_end hs hi.lt hi.used (by rw [clearSpawnCtx_user, hnext]) (fun l hl => ?_)
            (fun _ => ?_) (fun l hl => hctx ▸ (hclear l hl).1)
            (fun l hlt hl => hctx ▸ (hclear l hl).2 hlt) ?_ fun r hr hri => ?_
          · rw [clearSpawnCtx_user, htable]
            exact Function.update_of_ne hl _ _
          · rw [clearSpawnCtx_user, hentry]
            exact ⟨rfl, rfl, rfl, nofun⟩
          · rw [(clearSpawnCtx_same u _).runs, hruns]
          · rw [(clearSpawnCtx_same u _).runs, hruns] at hr
            -- the programs in progress are no younger than the parent
            have hle := hcaller r hr
            have hpids := (hs.table.pids i hi.lt hi.used).1
            rw [hri] at hle
            rw [hi.parent, hparent] at hpids
            exact absurd hle (Nat.not_le_of_lt hpids)
        · rw [clearSpawnCtx_user, hentry]
          exact hi.used
        · rw [clearSpawnCtx_user, hentry]
          exact hi.pid
        · rw [clearSpawnCtx_user, hentry]
          exact nofun
    · rw [heq]
      have hloads' : (!x.loads || decide (m.elfContextDepth ≥ elfContextMax)) = false := by
        rw [hloads, Bool.not_true, Bool.false_or, decide_eq_false_iff_not]
        exact Nat.not_le_of_lt hdepth
      rw [hloads']
      refine ⟨?_, nofun⟩
      have hs' : Sound (beginNested m) g := ⟨hs.table, hs.programs⟩
      exact sound_entered hs' hk hused hent rfl hparent.symm (hfits hne) hcaller hwaits

/-- The process whose `proc.wait` returns, if one does: the one in ring 3, or the one that will be. -/
def waiter (m : Machine) : ProgramEvent → Option UInt64
  | .wait .. => some (currentProcessPid m.user)
  | .terminate .. => m.runs.tail.head?.map fun r => (m.user.processTable r.index).pid
  | _ => none

/-- What an exit code is that is returned, and to whom it goes. -/
def Delivers (m : Machine) (g : Record) (e : ProgramEvent) : Prop :=
  ∀ target, collectedBy m e = some target → g.collected target = false ∧
    g.parent target = waiter m e ∧
    ∃ code, (stepProgram m e).1 = some ⟨0, encode64 code⟩ ∧
      (note g m e).ended target = some code

theorem head_of_ne_nil (h : runs ≠ []) : ∃ r, r ∈ runs.head? := by
  cases runs with
  | nil => exact absurd rfl h
  | cons r rest => exact ⟨r, rfl⟩

theorem currentPid_lt (hs : Sound m g) (hf : Follows m) (hbusy : m.runs ≠ []) :
    (currentProcessPid m.user).toNat < m.user.nextUserPid.toNat := by
  obtain ⟨r, hr⟩ := head_of_ne_nil hbusy
  have hrun := hs.programs.entered r (List.mem_of_mem_head? hr)
  rw [currentPid_of_head hs hf hr]
  exact (hs.table.pids r.index hrun.lt hrun.used).2

theorem le_currentPid (hs : Sound m g) (hf : Follows m) (hr : r ∈ m.runs) :
    (m.user.processTable r.index).pid.toNat ≤ (currentProcessPid m.user).toNat := by
  cases hruns : m.runs with
  | nil =>
    rw [hruns] at hr
    cases hr
  | cons r' rest =>
    have horder := hs.programs.order
    rw [hruns] at hr horder
    rw [currentPid_of_head hs hf (r := r') (by rw [hruns]; rfl)]
    obtain rfl | hr := List.mem_cons.1 hr
    · exact le_refl _
    · exact Nat.le_of_lt ((List.pairwise_cons.1 horder).1 r hr)

theorem sound_queueSpawn (hs : Sound m g) (hf : Follows m) (hbusy : m.runs ≠ [])
    (hroom : m.user.nextUserPid.toNat + 1 < 2 ^ 64) (path args : List UInt8) :
    Sound (queueSpawn m path args).2 (g.draw (drawnBy m (.spawn path args))) := by
  have hdrawn : drawnBy m (.spawn path args) = if (queueSpawn m path args).1 = errFull then none
      else some (m.user.nextUserPid, currentProcessPid m.user) := rfl
  rw [hdrawn]
  generalize hres : queueSpawn m path args = res
  unfold queueSpawn at hres
  cases hfind : (List.range spawnMax).find? fun i => !(m.spawnCtx i).used with
  | none =>
    rw [hfind] at hres
    subst hres
    exact hs
  | some k =>
    rw [hfind] at hres
    dsimp only at hres
    have hsucc := toNat_succ hroom
    have hne : m.user.nextUserPid ≠ 0 := by
      intro hzero
      have hstart := hs.table.start
      rw [hzero] at hstart
      exact Nat.lt_irrefl _ hstart
    obtain heq | ⟨i, u, heq, hfills⟩ := processAlloc_cases
      { m.user with nextUserPid := m.user.nextUserPid + 1 } (currentProcessPid m.user)
      m.user.nextUserPid
    · rw [heq] at hres
      subst hres
      have hctx : ∀ l, (Function.update m.spawnCtx k ⟨false, m.user.nextUserPid,
          currentProcessPid m.user, copyBounded 256 path, copyBounded 256 args⟩ l).used = true →
          Function.update m.spawnCtx k ⟨false, m.user.nextUserPid, currentProcessPid m.user,
            copyBounded 256 path, copyBounded 256 args⟩ l = m.spawnCtx l := by
        intro l hl
        by_cases hlk : l = k
        · rw [hlk, Function.update_self] at hl
          cases hl
        · exact Function.update_of_ne hlk _ _
      refine ⟨?_, programs_shrink hs.programs hctx (fun j _ => rfl)
        (fun _ _ _ j hj => Nat.ne_of_lt hj.lt) (List.suffix_refl _)
        fun r hr => Nat.ne_of_lt (hs.programs.entered r hr).lt⟩
      obtain ⟨hstart, hpids, hdistinct, hparents, hcodes, halive, hdrawn, hfinished, hgone⟩ :=
        hs.table
      change Table m.user.processTable (m.user.nextUserPid + 1) g
      refine ⟨by omega, fun i hi hused => ?_, hdistinct, hparents, hcodes, halive,
        fun p q hp => ?_, fun p c hp => ?_, hgone⟩
      · have hpid := hpids i hi hused
        omega
      · have hpid := hdrawn p q hp
        omega
      · have hpid := hfinished p c hp
        omega
    · rw [heq] at hres
      subst hres
      dsimp only
      rw [if_neg]
      swap
      · have hnonneg := Int.natCast_nonneg m.user.nextUserPid.toNat
        unfold errFull
        omega
      have hfree : (m.user.processTable i).used = false := by
        by_contra hused
        have hused := Bool.eq_true_of_not_eq_false hused
        exact hs.younger i hfills.lt hused (hfills.slot hused).2
      have hnumber : (u.processTable i).pid = m.user.nextUserPid := by
        rw [hfills.pid, if_pos hne]
      have hnext : u.nextUserPid = m.user.nextUserPid + 1 := by
        rw [hfills.next, if_pos hne, if_pos hne]
        exact ite_self _
      refine ⟨?_, programs_spawn hs.programs ⟨hfills.lt, hfills.live.1, hfills.live.2, hnumber,
        hfills.parent⟩ hfree hfills.others hs.younger⟩
      change Table u.processTable u.nextUserPid _
      rw [hnext]
      exact table_draw hs.table (currentPid_lt hs hf hbusy) hroom hfills.live.2 hnumber
        hfills.parent hfills.others

theorem sound_readyChild (hs : Sound m g) {x : Image} {parentPid : UInt64}
    (hcaller : ∀ k, readyCtx m parentPid = some k → ∀ r' ∈ m.runs,
      (m.user.processTable r'.index).pid.toNat ≤ (m.spawnCtx k).parentPid.toNat) :
    Sound (runReadyChildForParent m x parentPid) (g.finish
      (((readyCtx m parentPid).map fun k => (x, (m.spawnCtx k).pid, (m.spawnCtx k).parentPid)).bind
        fun c => if loadFails m c.1 c.2.1 c.2.2 then some (c.2.1, errNoent) else none)) := by
  have hready : (List.range spawnMax).find? (fun i => (m.spawnCtx i).used &&
      (parentPid == 0 || (m.spawnCtx i).parentPid == parentPid)) = readyCtx m parentPid := rfl
  unfold runReadyChildForParent
  rw [hready]
  cases hk : readyCtx m parentPid with
  | none => exact hs
  | some k =>
    have hrun : Sound (runReservedChild m x (m.spawnCtx k).pid (m.spawnCtx k).parentPid .child).2 _ ∧
        _ := sound_runReserved hs (fun hne => hne) (hcaller k hk) nofun
    exact hrun.1

theorem executeEnd_entry {state : ProcessState} (hstate : state ≠ .running)
    (hindex : m.user.processIndex = r.index) (hlt : r.index < processMax)
    (hused : (m.user.processTable r.index).used = true) (code : ℤ) (rest : List Run) :
    ∃ t, executeEnd { m with
      user := processFinish m.user m.user.processIndex state code
      result := code
      active := false } r rest code = t ∧ t.runs = rest ∧ t.spawnCtx = m.spawnCtx ∧
      t.user.nextUserPid = m.user.nextUserPid ∧
      (∀ j, j ≠ r.index → t.user.processTable j = m.user.processTable j) ∧
      ((t.user.processTable r.index).used = true →
        (t.user.processTable r.index).pid = (m.user.processTable r.index).pid ∧
        (t.user.processTable r.index).parentPid = (m.user.processTable r.index).parentPid ∧
        (t.user.processTable r.index).exitCode = code ∧
        (t.user.processTable r.index).state ≠ .running) ∧
      (r.pid ≠ 0 → (t.user.processTable r.index).used = true) ∧
      (r.Freed → (t.user.processTable r.index).used = false) := by
  refine ⟨_, rfl, rfl, rfl, ?_⟩
  unfold executeEnd
  dsimp only
  rw [hindex, processFinish_used hlt hused]
  generalize hu : m.user.setProcess r.index (fun p => { p with
    state := state, exitCode := code }) = u
  have hentry : u.processTable r.index =
      { m.user.processTable r.index with state := state, exitCode := code } := by
    rw [← hu]
    exact Function.update_self ..
  have hothers : ∀ j, j ≠ r.index → u.processTable j = m.user.processTable j := by
    intro j hj
    rw [← hu]
    exact Function.update_of_ne hj _ _
  have hnext : u.nextUserPid = m.user.nextUserPid := by
    rw [← hu]
    rfl
  have hsame : (if (u.processTable r.index).state = .running then
      processFinish u r.index .zombie code else u) = u := if_neg (by rw [hentry]; exact hstate)
  rw [hsame]
  split
  · rename_i hfreed
    obtain ⟨-, hunused⟩ | ⟨-, hfree, hothers'⟩ := processReap_cases u r.index
    · have hstill := hunused hlt
      rw [hentry] at hstill
      exact absurd (hused.symm.trans hstill) nofun
    · refine ⟨(processReap_next u _).trans hnext, fun j hj => (hothers' j hj).trans (hothers j hj),
        fun h => ?_, fun hne => absurd hfreed.2.1 hne, fun _ => hfree⟩
      rw [hfree] at h
      cases h
  · rename_i hkept
    refine ⟨hnext, hothers, fun _ => ?_, fun _ => ?_, fun hfreed => absurd hfreed hkept⟩
    · rw [hentry]
      exact ⟨rfl, rfl, rfl, hstate⟩
    · rw [hentry]
      exact hused

/-- A `proc.wait` returns an error or is not over, or it returns the code of an ended child. -/
def WaitOutcome (g : Record) (target caller : UInt64) (res : Option Answer × Machine) : Prop :=
  (Sound res.2 g ∧ ∀ a, res.1 = some a → a.status ≠ 0) ∨
  ∃ (t : Machine) (i : ℕ), Sound t g ∧ i < processMax ∧ (t.user.processTable i).used = true ∧
    (t.user.processTable i).pid = target ∧ (t.user.processTable i).state ≠ .running ∧
    g.parent target = some caller ∧ res = (some (collectChild t i).1, (collectChild t i).2)

theorem waitEnd_outcome (hs : Sound m g) {target caller : UInt64} (htarget : target ≠ 0)
    (hparent : g.parent target = some caller) (status : ℤ) :
    WaitOutcome g target caller
      (some (waitEnd m status target).1, (waitEnd m status target).2) := by
  have hfails : ∀ {c : ℤ}, c ≠ 0 → WaitOutcome g target caller (some ⟨c, []⟩, m) := by
    intro c hc
    refine Or.inl ⟨hs, fun a ha => ?_⟩
    rw [← Option.some.inj ha]
    exact hc
  unfold waitEnd
  split
  · rename_i hstatus
    exact hfails hstatus
  cases hfind : processFindPid m.user target with
  | none => exact hfails (by decide)
  | some i =>
    dsimp only
    split
    · exact hfails (by decide)
    · rename_i hended
      unfold processFindPid at hfind
      rw [if_neg fun h => htarget h.1] at hfind
      obtain ⟨hlt, hused, hpid⟩ := processFindUsed_some hfind
      exact Or.inr ⟨m, i, hs, hlt, hused, hpid, hended, hparent, rfl⟩

theorem sound_of_outcome {target caller : UInt64}
    (h : WaitOutcome (g.finish (endedBy m e)) target caller (stepProgram m e))
    (htarget : waitTarget m e = some target) (hcaller : waiter m e = some caller)
    (hdrawn : drawnBy m e = none) :
    Sound (stepProgram m e).2 (note g m e) ∧ Delivers m g e := by
  have hnote : note g m e = (g.finish (endedBy m e)).collect (collectedBy m e) := by
    unfold note
    rw [hdrawn]
    rfl
  have hparent : ∀ o, (g.finish o).parent = g.parent := by
    intro o
    cases o <;> rfl
  have hcollected : ∀ o, (g.finish o).collected = g.collected := by
    intro o
    cases o <;> rfl
  unfold Delivers
  rw [hnote]
  obtain ⟨hs, hfails⟩ | ⟨t, i, hs, hlt, hused, hpid, hended, hp, hres⟩ := h
  · have hnone : collectedBy m e = none := by
      unfold collectedBy
      rw [htarget]
      cases ha : (stepProgram m e).1 with
      | none => rfl
      | some a => exact if_neg (hfails a ha)
    rw [hnone]
    exact ⟨hs, nofun⟩
  · have hsome : collectedBy m e = some target := by
      unfold collectedBy
      rw [htarget, hres]
      rfl
    rw [hsome]
    have hsound := sound_collect hs hlt hused hended
    rw [hpid] at hsound
    refine ⟨by rw [hres]; exact hsound, fun target' heq => ?_⟩
    obtain rfl := Option.some.inj heq
    refine ⟨?_, ?_, (t.user.processTable i).exitCode, by rw [hres]; rfl, ?_⟩
    · by_contra hgone
      have hgone := Bool.eq_true_of_not_eq_false hgone
      rw [← hcollected (endedBy m e)] at hgone
      exact (hs.table.gone target hgone).2 i hlt hused hpid
    · rw [hcaller, ← hp, hparent]
    · rw [← hpid]
      exact hs.table.codes i hlt hused hended

theorem delivers_none (h : waitTarget m e = none) : Delivers m g e := by
  intro target htarget
  unfold collectedBy at htarget
  rw [h] at htarget
  cases htarget

theorem childOf_wait (m : Machine) (x : Image) (target flags : UInt64) :
    childOf m (.wait x target flags) =
    if flags = waitBlock then
      match processFindPid m.user target with
      | some i =>
        if (m.user.processTable i).parentPid = currentProcessPid m.user ∧
            (m.user.processTable i).state = .running then
          some (x, (m.user.processTable i).pid, currentProcessPid m.user)
        else none
      | none => none
    else none := rfl

theorem procWait_outcome (hs : Sound m g) (hf : Follows m) (hbusy : m.runs ≠ []) (x : Image)
    (target flags : UInt64) :
    WaitOutcome (g.finish (endedBy m (.wait x target flags))) target (currentProcessPid m.user)
      (procWait m x target flags) := by
  have hended : ∀ c, childOf m (.wait x target flags) = c → endedBy m (.wait x target flags) =
      c.bind fun c => if loadFails m c.1 c.2.1 c.2.2 then some (c.2.1, errNoent) else none := by
    rintro c rfl
    rfl
  have hfails : ∀ {c : ℤ}, c ≠ 0 → WaitOutcome g target (currentProcessPid m.user)
      (some ⟨c, []⟩, m) := by
    intro c hc
    refine Or.inl ⟨hs, fun a ha => ?_⟩
    rw [← Option.some.inj ha]
    exact hc
  unfold procWait
  dsimp only
  by_cases hflags : flags ≠ waitBlock ∧ flags ≠ waitNohang
  · rw [if_pos hflags, hended none (if_neg hflags.1)]
    exact hfails (by decide)
  rw [if_neg hflags]
  cases hfind : processFindPid m.user target with
  | none =>
    rw [hended none (by rw [childOf_wait, hfind]; exact ite_self _)]
    exact hfails (by decide)
  | some i =>
    dsimp only
    by_cases hparent : (m.user.processTable i).parentPid ≠ currentProcessPid m.user
    · rw [if_pos hparent, hended none]
      · exact hfails (by decide)
      · rw [childOf_wait, hfind]
        dsimp only
        rw [if_neg (show ¬ (_ ∧ (m.user.processTable i).state = .running) from
          fun h => hparent h.1)]
        exact ite_self _
    rw [if_neg hparent]
    have hparent := not_not.1 hparent
    -- no process is its own parent, so a number is asked for
    have hfound : i < processMax ∧ (m.user.processTable i).used = true ∧
        (m.user.processTable i).pid = target := by
      obtain ⟨r, hr⟩ := head_of_ne_nil hbusy
      have hrun := hs.programs.entered r (List.mem_of_mem_head? hr)
      unfold processFindPid at hfind
      split at hfind
      · rw [hf.current r hr, Int.toNat_natCast] at hfind
        obtain rfl := Option.some.inj hfind
        have hpids := (hs.table.pids r.index hrun.lt hrun.used).1
        rw [hparent, currentPid_of_head hs hf hr] at hpids
        exact absurd hpids (Nat.lt_irrefl _)
      · exact processFindUsed_some hfind
    obtain ⟨hlt, hused, hpid⟩ := hfound
    have htarget : target ≠ 0 := by
      have hpids := (hs.table.pids i hlt hused).1
      rintro rfl
      rw [hpid] at hpids
      exact Nat.not_lt_zero _ hpids
    have hrecord : g.parent target = some (currentProcessPid m.user) := by
      rw [← hpid, ← hparent]
      exact hs.table.parents i hlt hused
    by_cases hrunning : (m.user.processTable i).state = .running
    · rw [if_pos hrunning]
      by_cases hnohang : flags = waitNohang
      · rw [if_pos hnohang, hended none (if_neg (by rw [hnohang]; decide))]
        exact hfails (by decide)
      · rw [if_neg hnohang]
        have hblock : flags = waitBlock := by tauto
        rw [hended (some (x, (m.user.processTable i).pid, currentProcessPid m.user))]
        swap
        · rw [childOf_wait, if_pos hblock, hfind]
          exact if_pos ⟨hparent, hrunning⟩
        have hrun : Sound (runReservedChild m x (m.user.processTable i).pid
            (currentProcessPid m.user) (.wait target)).2 _ ∧ _ :=
          sound_runReserved hs (fun hne => ⟨hpid.symm, hne⟩) (fun r hr => le_currentPid hs hf hr)
            fun target' _ => by
              obtain ⟨r, hr⟩ := head_of_ne_nil hbusy
              exact ⟨r, hr, (currentPid_of_head hs hf hr).symm⟩
        have hsound := hrun.1
        change WaitOutcome (g.finish (if loadFails m x (m.user.processTable i).pid
          (currentProcessPid m.user) then some ((m.user.processTable i).pid, errNoent)
          else none)) _ _ _
        generalize runReservedChild m x (m.user.processTable i).pid (currentProcessPid m.user)
          (.wait target) = res at hsound
        obtain ⟨_ | status, t⟩ := res
        · exact Or.inl ⟨hsound, nofun⟩
        · refine waitEnd_outcome hsound htarget ?_ status
          split <;> exact hrecord
    · rw [if_neg hrunning, hended none]
      · exact Or.inr ⟨m, i, hs, hlt, hused, hpid, hrunning, hrecord, rfl⟩
      · rw [childOf_wait, hfind]
        dsimp only
        rw [if_neg (show ¬ (_ ∧ (m.user.processTable i).state = .running) from
          fun h => hrunning h.2)]
        exact ite_self _

/-- The program in ring 3 ends. -/
theorem sound_terminate (hs : Sound m g) (hf : Follows m) (hm : m.runs = r :: rest)
    {state : ProcessState} (hstate : state ≠ .running) (code : ℤ) :
    Sound (stepProgram m (.terminate state code)).2 (note g m (.terminate state code)) ∧
    Delivers m g (.terminate state code) := by
  have hr := hs.programs.entered r (by rw [hm]; exact List.mem_cons_self)
  have horder := hs.programs.order
  have hwaits := hs.programs.waits
  rw [hm] at horder hwaits
  obtain ⟨t, ht, hruns, hctx, hnext, hothers, hentry, hstays, -⟩ := executeEnd_entry
    hstate (hf.current r (by rw [hm]; rfl)) hr.lt hr.used code rest
  have hstep : stepProgram m (.terminate state code) = returnToCaller t r := by
    rw [← ht]
    unfold stepProgram
    rw [hm]
  have hended : endedBy m (.terminate state code) =
      some ((m.user.processTable r.index).pid, code) := by
    unfold endedBy
    rw [hm]
    rfl
  -- the entry is gone from the rest of the programs
  have hrest : ∀ r' ∈ rest, r'.index ≠ r.index := by
    intro r' hr' heq
    have hlt := (List.pairwise_cons.1 horder).1 r' hr'
    rw [heq] at hlt
    exact Nat.lt_irrefl _ hlt
  have hsuffix : rest <:+ m.runs := by
    rw [hm]
    exact List.suffix_cons r rest
  have hsound : ∀ u : Machine, u.user.processTable = t.user.processTable →
      u.user.nextUserPid = t.user.nextUserPid → u.runs = rest →
      (∀ k, (u.spawnCtx k).used = true → u.spawnCtx k = m.spawnCtx k) →
      (∀ k < spawnMax, (u.spawnCtx k).used = true →
        (m.spawnCtx k).pid ≠ (m.user.processTable r.index).pid) →
      Sound u (g.finish (endedBy m (.terminate state code))) := by
    intro u htable hnext' hruns' hkept hgone
    rw [hended]
    refine sound_end hs hr.lt hr.used (hnext'.trans hnext) (fun j hj => ?_) (fun h => ?_) hkept hgone
      (by rw [hruns']; exact hsuffix) (by rw [hruns']; exact hrest)
    · rw [htable]
      exact hothers j hj
    · rw [htable] at h ⊢
      exact hentry h
  have hcleared : r.pid ≠ 0 → reservedChildEnd (endNested t r.savedCtx r.savedRsp0) true r.pid =
      (0, clearSpawnCtx (endNested t r.savedCtx r.savedRsp0) r.pid) ∧
      Sound (clearSpawnCtx (endNested t r.savedCtx r.savedRsp0) r.pid)
        (g.finish (endedBy m (.terminate state code))) := by
    intro hne
    have hclear := fun k => clearSpawnCtx_ctx (m := endNested t r.savedCtx r.savedRsp0)
      (show Programs m.user.processTable t.spawnCtx m.runs by rw [hctx]; exact hs.programs) r.pid k
    have hpid := (hr.child hne).1
    have hs' := hsound (clearSpawnCtx (endNested t r.savedCtx r.savedRsp0) r.pid)
      (by rw [clearSpawnCtx_user]; rfl) (by rw [clearSpawnCtx_user]; rfl)
      ((clearSpawnCtx_same _ _).runs.trans hruns)
      (fun k hk => (hclear k hk).1.trans (congrFun hctx k))
      (fun k hlt hk => by
        rw [hpid, ← congrFun hctx k]
        exact (hclear k hk).2 hlt)
    refine ⟨?_, hs'⟩
    have htable := hs'.table
    rw [clearSpawnCtx_user] at htable
    have hstill := hstays hne
    obtain ⟨hpid', -, -, hstopped⟩ := hentry hstill
    refine reservedChildEnd_ended (m := endNested t r.savedCtx r.savedRsp0) ?_ hstopped true
    unfold processFindPid
    rw [if_neg fun h => hne h.1]
    exact processFindUsed_of htable hr.lt hstill (hpid'.trans hpid)
  have hroot : r.pid = 0 → Sound t (g.finish (endedBy m (.terminate state code))) := fun hzero =>
    hsound t rfl rfl hruns (fun k _ => by rw [hctx]) fun k hk hused =>
      hr.root hzero k hk (by rw [← hctx]; exact hused)
  have hfits := hr.fits
  cases hp : r.purpose with
  | shell =>
    rw [hp] at hfits
    have htarget : waitTarget m (.terminate state code) = none := by simp [waitTarget, hm, hp]
    have hreturn : returnToCaller t r = (none, t) := by
      unfold returnToCaller
      rw [hp]
    refine ⟨?_, delivers_none htarget⟩
    unfold note collectedBy
    rw [htarget, hstep, hreturn]
    exact hroot hfits
  | host =>
    rw [hp] at hfits
    have htarget : waitTarget m (.terminate state code) = none := by simp [waitTarget, hm, hp]
    have hreturn : returnToCaller t r = (none, endNested t r.savedCtx r.savedRsp0) := by
      unfold returnToCaller
      rw [hp]
    refine ⟨?_, delivers_none htarget⟩
    unfold note collectedBy
    rw [htarget, hstep, hreturn]
    exact ⟨(hroot hfits).table, (hroot hfits).programs⟩
  | child =>
    rw [hp] at hfits
    have htarget : waitTarget m (.terminate state code) = none := by simp [waitTarget, hm, hp]
    obtain ⟨hclear, hs'⟩ := hcleared hfits
    have hreturn : returnToCaller t r =
        (none, clearSpawnCtx (endNested t r.savedCtx r.savedRsp0) r.pid) := by
      unfold returnToCaller
      rw [hp]
      dsimp only
      rw [hclear]
    refine ⟨?_, delivers_none htarget⟩
    unfold note collectedBy
    rw [htarget, hstep, hreturn]
    exact hs'
  | wait target =>
    rw [hp] at hfits
    have htarget : waitTarget m (.terminate state code) = some target := by simp [waitTarget, hm, hp]
    obtain ⟨rfl, hne⟩ := hfits
    obtain ⟨hclear, hs'⟩ := hcleared hne
    obtain ⟨r', hr', hbelow⟩ := hwaits.1 _ hp
    have hparent : g.parent r.pid = some r.parentPid := by
      rw [← (hr.child hne).1, ← (hr.child hne).2]
      exact hs.table.parents r.index hr.lt hr.used
    refine sound_of_outcome (?_ : WaitOutcome _ r.pid r.parentPid _) htarget ?_ rfl
    · rw [hstep]
      unfold returnToCaller
      rw [hp]
      dsimp only
      rw [hclear]
      refine waitEnd_outcome hs' hne ?_ 0
      rw [hended]
      exact hparent
    · unfold waiter
      rw [hm]
      change rest.head?.map _ = _
      rw [Option.mem_def.1 hr']
      exact congrArg some hbelow

/-- A program that needs a number finds one that was not drawn before. -/
def NumberLeft (m : Machine) : ProgramEvent → Prop
  | .start .. | .host .. | .spawn .. => m.user.nextUserPid.toNat + 1 < 2 ^ 64
  | _ => True

theorem sound_step (hs : Sound m g) (hf : Follows m) (hp : PossibleNow m e)
    (hroom : NumberLeft m e) :
    Sound (stepProgram m e).2 (note g m e) ∧ Delivers m g e := by
  cases e with
  | start x path =>
    refine ⟨?_, delivers_none rfl⟩
    have hdrawn : drawnBy m (.start x path) =
        if (elfExecute m x path 0 0 .shell m.activeCtx m.rsp0).1 = none then
          some (m.user.nextUserPid, 0)
        else none := rfl
    change Sound (elfExecute m x path 0 0 .shell m.activeCtx m.rsp0).2
      (g.draw (drawnBy m (.start x path)))
    obtain ⟨ok, heq, -⟩ | ⟨t, i, heq, hent, -⟩ :=
      elfExecute_cases m x path 0 0 .shell m.activeCtx m.rsp0
    · rw [heq, if_neg nofun] at hdrawn
      rw [hdrawn, heq]
      exact hs
    · rw [heq, if_pos rfl] at hdrawn
      rw [hdrawn, heq]
      exact sound_started hs hroom hent rfl rfl rfl fun _ => nofun
  | host x path =>
    refine ⟨?_, delivers_none rfl⟩
    have hdrawn : drawnBy m (.host x path) =
        if (elfExecute (beginNested m) x path 0 0 .host m.activeCtx m.rsp0).1 = none then
          some (m.user.nextUserPid, 0)
        else none := rfl
    change Sound (executeNestedPathArgs m x path) (g.draw (drawnBy m (.host x path)))
    unfold executeNestedPathArgs
    obtain ⟨ok, heq, -⟩ | ⟨t, i, heq, hent, -⟩ :=
      elfExecute_cases (beginNested m) x path 0 0 .host m.activeCtx m.rsp0
    · rw [heq, if_neg nofun] at hdrawn
      rw [hdrawn, heq]
      exact ⟨hs.table, hs.programs⟩
    · rw [heq, if_pos rfl] at hdrawn
      rw [hdrawn, heq]
      exact sound_started (m := beginNested m) ⟨hs.table, hs.programs⟩ hroom hent rfl rfl rfl
        fun _ => nofun
  | spawn path args => exact ⟨sound_queueSpawn hs hf hp hroom path args, delivers_none rfl⟩
  | yield x =>
    refine ⟨sound_readyChild hs fun k hk r' hr' => ?_, delivers_none rfl⟩
    have hfound := List.find?_some hk
    rw [Bool.and_eq_true, Bool.or_eq_true, beq_iff_eq, beq_iff_eq] at hfound
    have hle := le_currentPid hs hf hr'
    have hr' := hs.programs.entered r' hr'
    obtain hzero | hparent := hfound.2
    · have hpids := (hs.table.pids r'.index hr'.lt hr'.used).1
      rw [hzero] at hle
      exact absurd hle (Nat.not_le_of_lt ((Nat.zero_le _).trans_lt hpids))
    · rw [hparent]
      exact hle
  | wait x target flags =>
    exact sound_of_outcome (procWait_outcome hs hf hp x target flags) rfl rfl rfl
  | poll x =>
    refine ⟨?_, delivers_none rfl⟩
    have hidle : m.runs = [] := hp
    change Sound (if m.active then m else runReadyChildForParent m x 0)
      (g.finish (endedBy m (.poll x)))
    by_cases hactive : m.active = true
    · have hended : endedBy m (.poll x) = none := by
        change (if m.active = true then none else _ : Option (Image × UInt64 × UInt64)).bind _ = _
        rw [if_pos hactive]
        rfl
      rw [hended, if_pos hactive]
      exact hs
    · have hended : endedBy m (.poll x) = ((readyCtx m 0).map fun k =>
          (x, (m.spawnCtx k).pid, (m.spawnCtx k).parentPid)).bind fun c =>
            if loadFails m c.1 c.2.1 c.2.2 then some (c.2.1, errNoent) else none := by
        change (if m.active = true then none else _ : Option (Image × UInt64 × UInt64)).bind _ = _
        rw [if_neg hactive]
      rw [hended, if_neg hactive]
      refine sound_readyChild hs fun k hk r' hr' => ?_
      rw [hidle] at hr'
      cases hr'
  | terminate state code =>
    obtain ⟨hbusy, hstate⟩ := hp
    cases hm : m.runs with
    | nil => exact absurd hm hbusy
    | cons r rest => exact sound_terminate hs hf hm hstate code

def firstUserPid : UInt64 := 5000

/-- The states that are reached as long as there is a number left, with what happened. -/
inductive History : Machine → Record → Prop where
  | boot (m : Machine) (processes : ∀ i, (m.user.processTable i).used = false)
      (spawns : ∀ i, (m.spawnCtx i).used = false) (idle : m.runs = [])
      (locked : m.schedulerUnlocked = false) (first : m.user.nextUserPid = firstUserPid) :
      History m Record.empty
  | step {m : Machine} {g : Record} (e : ProgramEvent) (h : History m g) (possible : PossibleNow m e)
      (room : NumberLeft m e) : History (stepProgram m e).2 (note g m e)

theorem History.sound (h : History m g) : Sound m g ∧ Follows m := by
  induction h with
  | boot m processes spawns idle locked first =>
    have hnone : ∀ {i : ℕ} {P : Prop}, (m.user.processTable i).used = true → P := by
      intro i P hused
      rw [processes i] at hused
      cases hused
    refine ⟨⟨⟨by rw [first]; decide, fun _ _ h => hnone h, fun _ _ _ _ h => hnone h,
      fun _ _ h => hnone h, fun _ _ h => hnone h, fun _ _ h => hnone h, nofun, nofun, nofun⟩, ?_⟩,
      locked, ?_, ?_⟩
    · rw [idle]
      refine ⟨fun k _ hused => ?_, fun k _ _ _ hused => ?_, nofun, List.Pairwise.nil, trivial⟩
      · rw [spawns k] at hused
        cases hused
      · rw [spawns k] at hused
        cases hused
    · rw [idle]
      exact nofun
    · rw [idle]
      trivial
  | step e _ possible room ih =>
    exact ⟨(sound_step ih.1 ih.2 possible room).1, follows_step ih.2 possible⟩

theorem drawnBy_next {p q : UInt64} (h : drawnBy m e = some (p, q)) : p = m.user.nextUserPid := by
  unfold drawnBy at h
  split at h
  · split at h
    · exact (Prod.mk.inj (Option.some.inj h)).1.symm
    · cases h
  · split at h
    · exact (Prod.mk.inj (Option.some.inj h)).1.symm
    · cases h
  · split at h
    · cases h
    · exact (Prod.mk.inj (Option.some.inj h)).1.symm
  · cases h

theorem note_ended (g : Record) (m : Machine) (e : ProgramEvent) {code : ℤ}
    (h : endedBy m e = some (pid, code)) : (note g m e).ended pid = some code := by
  unfold note
  rw [h]
  cases collectedBy m e <;> exact Function.update_self ..

theorem endedBy_child {c : Image × UInt64 × UInt64} (h : childOf m e = some c)
    (hfails : loadFails m c.1 c.2.1 c.2.2 = true) : endedBy m e = some (c.2.1, errNoent) := by
  have hended : endedBy m e = (childOf m e).bind fun c =>
      if loadFails m c.1 c.2.1 c.2.2 then some (c.2.1, errNoent) else none := by
    cases e with
    | terminate => cases h
    | start | host | spawn | yield | wait | poll => rfl
  rw [hended, h]
  exact if_pos hfails

/-- As long as there are numbers left: the processes in the table have different numbers, and a number
that is drawn was not drawn before. A `proc.wait` that returns an exit code returns it to the parent
that was recorded when the number was drawn, it is the code that the process ended with, and nobody
was given it before. One that does not block leaves a running child as it is. A child whose image
does not load has ended. -/
theorem exit_codes_delivered (h : History m g) :
    (∀ i < processMax, ∀ j < processMax, (m.user.processTable i).used = true →
      (m.user.processTable j).used = true →
      (m.user.processTable i).pid = (m.user.processTable j).pid → i = j) ∧
    (∀ e p q, drawnBy m e = some (p, q) → g.parent p = none) ∧
    (∀ e, PossibleNow m e → NumberLeft m e → Delivers m g e) ∧
    (∀ x target i, processFindPid m.user target = some i →
      (m.user.processTable i).parentPid = currentProcessPid m.user →
      (m.user.processTable i).state = .running →
      stepProgram m (.wait x target waitNohang) = (some ⟨errAgain, []⟩, m)) ∧
    ∀ e, PossibleNow m e → NumberLeft m e → ∀ c, childOf m e = some c →
      loadFails m c.1 c.2.1 c.2.2 = true → (note g m e).ended c.2.1 = some errNoent ∧
      ∀ i < processMax, ((stepProgram m e).2.user.processTable i).used = true →
        ((stepProgram m e).2.user.processTable i).pid = c.2.1 →
        ((stepProgram m e).2.user.processTable i).state ≠ .running := by
  obtain ⟨hs, hf⟩ := h.sound
  refine ⟨hs.table.distinct, fun e p q hdrawn => ?_, fun e hp hroom => (sound_step hs hf hp hroom).2,
    fun x target i hfind hparent hrunning => ?_, fun e hp hroom c hc hfails => ?_⟩
  · rw [drawnBy_next hdrawn]
    cases hparent : g.parent m.user.nextUserPid with
    | none => rfl
    | some q' => exact absurd (hs.table.drawn _ q' hparent) (Nat.lt_irrefl _)
  · change procWait m x target waitNohang = _
    unfold procWait
    dsimp only
    rw [if_neg (by decide), hfind]
    dsimp only
    rw [if_neg (not_not.2 hparent), if_pos hrunning]
    rfl
  · have hcode := note_ended g m e (endedBy_child hc hfails)
    refine ⟨hcode, fun i hlt hused hpid hrunning => ?_⟩
    have halive := (sound_step hs hf hp hroom).1.table.alive i hlt hused hrunning
    rw [hpid, hcode] at halive
    cases halive

/-- The program "/a" starts "/b", waits for it, and "/b" ends with 7. -/
def spawnChild : ProgramEvent := .spawn [47, 98] []

def waitChild : ProgramEvent := .wait image 5001 waitBlock

def endChild : ProgramEvent := .terminate .exited 7

def parentStarted : Machine := (stepProgram bootMachine startPlain).2

def childQueued : Machine := (stepProgram parentStarted spawnChild).2

def childRunning : Machine := (stepProgram childQueued waitChild).2

def childRecord : Record :=
  note (note (note Record.empty bootMachine startPlain) parentStarted spawnChild) childQueued
    waitChild

theorem childRunning_history : History childRunning childRecord :=
  (((History.boot bootMachine (fun _ => rfl) (fun _ => rfl) rfl rfl rfl).step startPlain rfl
    (show bootMachine.user.nextUserPid.toNat + 1 < 2 ^ 64 by decide)).step spawnChild
    (List.cons_ne_nil _ _)
    (show parentStarted.user.nextUserPid.toNat + 1 < 2 ^ 64 by decide)).step waitChild
    (List.cons_ne_nil _ _) trivial

theorem child_code_delivered : Delivers childRunning childRecord endChild :=
  (exit_codes_delivered childRunning_history).2.2.1 endChild ⟨List.cons_ne_nil _ _, nofun⟩ trivial

example : collectedBy childRunning endChild = some 5001 := by decide

/-- An ended program has the number 5000, and the next number is `n`. -/
structure Lone (m : Machine) (n : UInt64) : Prop where
  runs : m.runs = []
  depth : m.elfContextDepth = 0
  used : (m.user.processTable 0).used = true
  pid : (m.user.processTable 0).pid = firstUserPid
  others : ∀ j < processMax, j ≠ 0 → (m.user.processTable j).used = false
  next : m.user.nextUserPid = n

theorem Lone.alloc {n : UInt64} (h : Lone m n) : ∃ i u, processAlloc m.user 0 0 = (some i, u) ∧
    Fills m.user u 0 0 i ∧ i ≠ 0 ∧ (u.processTable i).pid = n ∧ u.nextUserPid = n + 1 := by
  obtain heq | ⟨i, u, heq, hfills⟩ := processAlloc_cases m.user 0 0
  · have hsome := processAlloc_of_free (show 1 < processMax by decide)
      (h.others 1 (by decide) (by decide)) 0 0
    rw [heq] at hsome
    exact absurd rfl hsome
  · refine ⟨i, u, heq, hfills, ?_, ?_, ?_⟩
    · rintro rfl
      exact (hfills.slot h.used).1 rfl
    · rw [hfills.pid, ← h.next]
      rfl
    · rw [hfills.next, ← h.next]
      exact ite_self _

theorem Lone.cycle {n : UInt64} (h : Lone m n) :
    (stepProgram m startHost).2.runs ≠ [] ∧
    Lone (stepProgram (stepProgram m startHost).2 endProgram).2 (n + 1) := by
  obtain ⟨i, u, halloc, hfills, hi, hpid, hnext⟩ := h.alloc
  have hstart : (stepProgram m startHost).2 =
      (elfExecute m image hostPath 0 0 .shell m.activeCtx m.rsp0).2 := rfl
  unfold elfExecute at hstart
  rw [h.depth, if_neg (by decide), halloc, h.runs] at hstart
  dsimp only at hstart
  rw [hstart]
  refine ⟨List.cons_ne_nil _ _, ?_⟩
  let v : State := { u with processIndex := i, fallbackFds := fun _ => Fd.clear }
  obtain ⟨t, ht, hruns, -, hnext', hothers, -, -, hfreed⟩ := executeEnd_entry
    (m := { m with
      user := v
      kernelRsp := 0
      kernelCr3 := 0
      result := errInval
      active := true
      schedulerUnlocked := false
      space := 0
      elfContextDepth := 0 + 1
      runs := [⟨i, hostPath, 0, 0, .shell, m.activeCtx, m.rsp0⟩] })
    (r := ⟨i, hostPath, 0, 0, .shell, m.activeCtx, m.rsp0⟩)
    (show ProcessState.exited ≠ .running by decide) rfl hfills.lt hfills.live.1 0 []
  have hend : (stepProgram { m with
      user := v
      kernelRsp := 0
      kernelCr3 := 0
      result := errInval
      active := true
      schedulerUnlocked := false
      space := 0
      elfContextDepth := 0 + 1
      runs := [⟨i, hostPath, 0, 0, .shell, m.activeCtx, m.rsp0⟩] } endProgram).2 = t := by
    rw [← ht]
    rfl
  have hkept : ∀ j, j ≠ i → t.user.processTable j = m.user.processTable j := fun j hj =>
    (hothers j hj).trans (hfills.others j hj)
  refine hend.symm ▸ ⟨hruns, ht ▸ rfl, ?_, ?_, fun j hlt hj => ?_, hnext'.trans hnext⟩
  · rw [hkept 0 (Ne.symm hi)]
    exact h.used
  · rw [hkept 0 (Ne.symm hi)]
    exact h.pid
  · by_cases hji : j = i
    · rw [hji]
      exact hfreed ⟨rfl, rfl, show isServiceHost hostPath = true by decide⟩
    · rw [hkept j hji]
      exact h.others j hlt hj

theorem lone_cycles (n : ℕ) : ∃ m, Executes (fun _ _ => True) m ∧
    Lone m (firstUserPid + 1 + UInt64.ofNat n) := by
  induction n with
  | zero =>
    have hstarted : PossibleNow (stepProgram bootMachine startPlain).2 endProgram :=
      ⟨List.cons_ne_nil _ _, nofun⟩
    exact ⟨_, ((bootMachine_executes fun _ _ => True).step startPlain rfl trivial).step endProgram
      hstarted trivial, rfl, rfl, rfl, rfl, by decide, rfl⟩
  | succ n ih =>
    obtain ⟨m, hm, hlone⟩ := ih
    obtain ⟨hbusy, hlone'⟩ := hlone.cycle
    refine ⟨_, (hm.step startHost hlone.runs trivial).step endProgram ⟨hbusy, nofun⟩ trivial, ?_⟩
    rw [UInt64.ofNat_add, ← UInt64.add_assoc]
    exact hlone'

/-- Service hosts that are run take all the numbers, and a second program gets the number 5000. -/
theorem number_comes_again : ∃ m, Executes (fun _ _ => True) m ∧
    ∃ i < processMax, ∃ j < processMax, i ≠ j ∧ (m.user.processTable i).used = true ∧
      (m.user.processTable j).used = true ∧
      (m.user.processTable i).pid = (m.user.processTable j).pid := by
  obtain ⟨m, hm, hlone⟩ := lone_cycles (2 ^ 64 - 1)
  obtain ⟨i, u, halloc, hfills, hi, hpid, -⟩ := hlone.alloc
  have hstart : (stepProgram m startPlain).2 =
      (elfExecute m image [47, 97] 0 0 .shell m.activeCtx m.rsp0).2 := rfl
  unfold elfExecute at hstart
  rw [hlone.depth, if_neg (by decide), halloc] at hstart
  have htable : (stepProgram m startPlain).2.user.processTable = u.processTable := by
    rw [hstart]
  refine ⟨_, hm.step startPlain hlone.runs trivial, i, hfills.lt, 0, by decide, hi, ?_⟩
  rw [htable, hfills.others 0 (Ne.symm hi), hpid, hlone.pid]
  exact ⟨hfills.live.1, hlone.used, by decide⟩

end UserMode
