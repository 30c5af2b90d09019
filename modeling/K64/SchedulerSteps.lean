import K64.SchedulerRuns

/-! # What a tick does to each task

A tick accounts for every task of the ring once; then the current task goes on or another one is
picked. Each lemma says all that happens to every task. -/
namespace Scheduler

variable {bootstrap : Ptr} {s t : Sched} {created : List Ptr} {saved : Ptr → UInt64} {p q : Ptr}

def woken (now : UInt64) (t : Task) : Task :=
  if t.state = .blocked ∧ t.sleepUntilTick ≠ 0 ∧ t.sleepUntilTick ≤ now then
    { t with state := .ready, sleepUntilTick := 0 }
  else t

def accounted (now : UInt64) (isCurrent : Bool) (t : Task) : Task :=
  let t := woken now t
  if isCurrent ∧ t.state = .running then { t with runtimeTicks := t.runtimeTicks + 1 }
  else if t.state = .ready then { t with waitTicks := t.waitTicks + 1 }
  else t

theorem modify_self {f : Task → Task} (h : f (s.heap p) = s.heap p) : s.modify p f = s := by
  simp [Sched.modify, h]

theorem modify_modify (s : Sched) (p : Ptr) (f g : Task → Task) :
    (s.modify p f).modify p g = s.modify p fun t => g (f t) := by
  simp [Sched.modify]

theorem modify_congr {f g : Task → Task} (h : f (s.heap p) = g (s.heap p)) :
    s.modify p f = s.modify p g := by
  simp [Sched.modify, h]

theorem wakeSleeper_eq (now : UInt64) (p : Ptr) (s : Sched) :
    wakeSleeper now p s = s.modify p (woken now) := by
  unfold wakeSleeper
  split
  · apply modify_congr
    rw [woken, if_pos ‹_›]
  · apply Eq.symm
    apply modify_self
    rw [woken, if_neg ‹_›]

theorem accountTask_eq (now : UInt64) (p : Ptr) (s : Sched) :
    accountTask now p s = s.modify p (accounted now (p == s.currentTask)) := by
  have hheap : (s.modify p (woken now)).heap p = woken now (s.heap p) := by simp
  unfold accountTask
  rw [wakeSleeper_eq]
  dsimp only
  rw [hheap, modify_currentTask, modify_modify, modify_modify]
  by_cases hrun : p = s.currentTask ∧ (woken now (s.heap p)).state = .running
  · rw [if_pos hrun]
    apply modify_congr
    simp only [accounted]
    rw [if_pos (by simpa using hrun)]
  · rw [if_neg hrun]
    have hcond : ¬ ((p == s.currentTask) = true ∧ (woken now (s.heap p)).state = .running) := by
      simpa using hrun
    split
    · apply modify_congr
      simp only [accounted]
      rw [if_neg hcond, if_pos ‹_›]
    · apply modify_congr
      simp only [accounted]
      rw [if_neg hcond, if_neg ‹_›]

theorem account_round (now : UInt64) : ∀ (l : List Ptr) (s : Sched), l.Nodup → ∀ q ∈ l,
    (l.foldl (fun s p => accountTask now p s) s).heap q =
      accounted now (q == s.currentTask) (s.heap q) := by
  intro l
  -- the rounds after the one for `q` leave it alone
  have hother : ∀ (l : List Ptr) (s : Sched) (q : Ptr), q ∉ l →
      (l.foldl (fun s p => accountTask now p s) s).heap q = s.heap q := by
    intro l
    induction l with
    | nil => exact fun _ _ _ => rfl
    | cons a l ih =>
      intro s q hq
      rw [List.foldl_cons, ih _ q fun h => hq (List.mem_cons_of_mem a h), accountTask_eq,
        modify_heap, if_neg fun h : q = a => hq (h ▸ List.mem_cons_self)]
  induction l with
  | nil => exact fun _ _ _ hq => absurd hq List.not_mem_nil
  | cons a l ih =>
    intro s hl q hq
    obtain ⟨ha, hnodup⟩ := List.nodup_cons.mp hl
    rw [List.foldl_cons]
    rcases List.mem_cons.mp hq with rfl | hq
    · rw [hother l _ q ha, accountTask_eq, modify_heap, if_pos rfl]
    · have hne : q ≠ a := fun h => ha (h ▸ hq)
      rw [ih _ hnodup q hq, accountTask_eq, modify_heap, if_neg hne, modify_currentTask]

structure Ticked (created : List Ptr) (s u : Sched) : Prop where
  currentTask : u.currentTask = s.currentTask
  taskList : u.taskList = s.taskList
  ticks : u.ticks = s.ticks + 1
  tasks : ∀ p ∈ created, ∃ rsp, u.heap p =
    accounted u.ticks (p == s.currentTask) { s.heap p with rsp := rsp }

theorem accounting_ticks (h : Sound bootstrap s created saved) :
    ∃ u, onTickAccounting s = some u ∧ Kept s u ∧ u.ticks = s.ticks ∧
      ∀ p ∈ created, u.heap p = accounted s.ticks (p == s.currentTask) (s.heap p) := by
  obtain ⟨u, hrun, hk⟩ := accounting_runs h
  obtain ⟨l, hring, hperm⟩ := h.ring
  obtain rfl : u = l.foldl (fun s' p => accountTask s.ticks p s') s :=
    Option.some.inj (hrun.symm.trans (h.round hring hperm))
  have hticks : ∀ (l : List Ptr) (v : Sched),
      (l.foldl (fun s' p => accountTask s.ticks p s') v).ticks = v.ticks := by
    intro l
    induction l with
    | nil => exact fun _ => rfl
    | cons a l ih =>
      intro v
      rw [List.foldl_cons, ih, accountTask_eq]
      rfl
  exact ⟨_, hrun, hk, hticks l s, fun p hp =>
    account_round _ l s hring.nodup p (hperm.mem_iff.mpr hp)⟩

def score (t : Task) : UInt64 := (UInt32.ofInt t.priority).toUInt64 * 1024 + t.waitTicks

def Candidate (s : Sched) (p : Ptr) : Prop :=
  (s.heap p).id ≠ 0 ∧
    ((s.heap p).state = .ready ∨ p = s.currentTask ∧ (s.heap p).state = .running)

def Best (s : Sched) (seen : List Ptr) : Option (Ptr × UInt64) → Prop
  | none => ∀ q ∈ seen, ¬ ((s.heap q).id ≠ 0 ∧ (s.heap q).state = .ready)
  | some (p, best) => p ∈ seen ∧ ((s.heap p).id ≠ 0 ∧ (s.heap p).state = .ready) ∧
      best = score (s.heap p) ∧
      ∀ q ∈ seen, (s.heap q).id ≠ 0 ∧ (s.heap q).state = .ready → score (s.heap q) ≤ best

theorem consider_best {seen : List Ptr} {o : Option (Ptr × UInt64)} (c : Ptr)
    (h : Best s seen o) : Best s (c :: seen) (consider s c o) := by
  unfold consider
  dsimp only
  by_cases hc : (s.heap c).id ≠ 0 ∧ (s.heap c).state = .ready
  case neg =>
    rw [if_neg hc]
    cases o with
    | none => exact List.forall_mem_cons.mpr ⟨hc, h⟩
    | some best =>
      obtain ⟨hmem, hready, hscore, hmax⟩ := h
      exact ⟨List.mem_cons_of_mem c hmem, hready, hscore,
        List.forall_mem_cons.mpr ⟨fun h => absurd h hc, hmax⟩⟩
  rw [if_pos hc]
  cases o with
  | none =>
    refine ⟨List.mem_cons_self, hc, rfl, List.forall_mem_cons.mpr ⟨fun _ => UInt64.le_refl _, ?_⟩⟩
    exact fun q hq hready => absurd hready (h q hq)
  | some best =>
    obtain ⟨hmem, hready, hscore, hmax⟩ := h
    change Best s _ (if score (s.heap c) > best.2 then some (c, score (s.heap c)) else some best)
    by_cases hgt : score (s.heap c) > best.2
    · rw [if_pos hgt]
      refine ⟨List.mem_cons_self, hc, rfl, List.forall_mem_cons.mpr ⟨fun _ => UInt64.le_refl _, ?_⟩⟩
      exact fun q hq hq' => UInt64.le_trans (hmax q hq hq') (UInt64.le_of_lt hgt)
    · rw [if_neg hgt]
      exact ⟨List.mem_cons_of_mem c hmem, hready, hscore,
        List.forall_mem_cons.mpr ⟨fun _ => UInt64.not_lt.mp hgt, hmax⟩⟩

theorem round_best (s : Sched) : ∀ (l seen : List Ptr) (o : Option (Ptr × UInt64)),
    Best s seen o → Best s (l.reverse ++ seen) (l.foldl (fun o c => consider s c o) o) := by
  intro l
  induction l with
  | nil => exact fun seen o h => h
  | cons c l ih =>
    intro seen o h
    rw [List.foldl_cons, List.reverse_cons, List.append_assoc]
    exact ih _ _ (consider_best c h)

/-- A selection of `p`, with what it does to each task. -/
structure Picks (created : List Ptr) (s t : Sched) (p : Ptr) : Prop where
  mem : p ∈ created
  currentTask : t.currentTask = p
  selected : t.heap p = { s.heap p with
    state := .running, remainingTicks := (s.heap p).baseTimeslice, waitTicks := 0 }
  others : ∀ q, q ≠ p → t.heap q =
    if q = s.currentTask ∧ (s.heap q).state = .running then { s.heap q with state := .ready }
    else s.heap q
  choice : Candidate s p ∧ (∀ q ∈ created, Candidate s q → score (s.heap q) ≤ score (s.heap p)) ∨
    p = s.taskList ∧ ∀ q ∈ created, ¬ Candidate s q

theorem readied_heap {u : Sched} (hu : u = if (s.heap s.currentTask).state = .running then
      s.modify s.currentTask fun t => { t with state := .ready } else s) :
    u.currentTask = s.currentTask ∧ u.taskList = s.taskList ∧ ∀ q, u.heap q =
      if q = s.currentTask ∧ (s.heap q).state = .running then { s.heap q with state := .ready }
      else s.heap q := by
  subst hu
  split
  · refine ⟨rfl, rfl, fun q => ?_⟩
    rw [modify_heap]
    by_cases hq : q = s.currentTask
    · subst hq
      rw [if_pos rfl, if_pos ⟨rfl, ‹_›⟩]
    · rw [if_neg hq, if_neg fun h => hq h.1]
  · refine ⟨rfl, rfl, fun q => ?_⟩
    rw [if_neg]
    rintro ⟨rfl, hq⟩
    exact ‹¬ _› hq

theorem pick_cases (h : Sound bootstrap s created saved) {r : UInt64}
    (ran : pickNextRsp s = some (r, t)) : ∃ p, Picks created s t p := by
  have hcurrent : s.currentTask ≠ null := h.address _ h.current
  obtain ⟨l, hring, hperm⟩ := h.ring
  have hlinked : (s.heap s.currentTask).next ≠ null := by
    have hmem := hring.next_mem (hperm.mem_iff.mpr h.current)
    exact h.address _ (hperm.mem_iff.mp hmem)
  rw [pickNextRsp, if_neg hcurrent, if_neg hlinked] at ran
  dsimp only at ran
  generalize hu : (if (s.heap s.currentTask).state = .running then
      s.modify s.currentTask fun t => { t with state := .ready } else s) = u at ran
  have hku : Kept s u := by
    rw [← hu]
    split
    · exact kept_modify s _ (fun _ => rfl) (fun _ => rfl) fun _ h =>
        absurd h (show TaskState.ready ≠ .running by decide)
    · exact Kept.refl s
  have hsu := h.kept hku
  obtain ⟨hcur, hlist, hheap⟩ := readied_heap hu.symm
  obtain ⟨lu, hringu, hpermu⟩ := hsu.ring
  have hscan := hsu.selection hringu hpermu
  rw [hscan, Option.map_some] at ran
  have hbest := round_best u lu [] none (by rintro _ ⟨⟩)
  rw [List.append_nil] at hbest
  have hmem : ∀ q, q ∈ lu.reverse ↔ q ∈ created := by
    intro q
    rw [List.mem_reverse, hpermu.mem_iff]
  have hready : ∀ q, ((u.heap q).id ≠ 0 ∧ (u.heap q).state = .ready) ↔ Candidate s q := by
    intro q
    rw [hheap, Candidate]
    by_cases hq : q = s.currentTask ∧ (s.heap q).state = .running
    · rw [if_pos hq]
      obtain ⟨rfl, hrun⟩ := hq
      simp [hrun]
    · rw [if_neg hq, or_iff_left hq]
  have hscore : ∀ q, score (u.heap q) = score (s.heap q) := by
    intro q
    rw [hheap]
    split <;> rfl
  have hran : ∀ p, (runTask u p).2 = t → p ∈ created →
      (Candidate s p ∧ (∀ q ∈ created, Candidate s q → score (s.heap q) ≤ score (s.heap p)) ∨
        p = s.taskList ∧ ∀ q ∈ created, ¬ Candidate s q) → ∃ p, Picks created s t p := by
    rintro p rfl hp hchoice
    refine ⟨p, hp, rfl, ?_, fun q hq => ?_, hchoice⟩
    · have : (runTask u p).2.heap p = { u.heap p with
          state := .running, remainingTicks := (u.heap p).baseTimeslice, waitTicks := 0 } := by
        simp [runTask]
      rw [this, hheap]
      split <;> rfl
    · have : (runTask u p).2.heap q = u.heap q := by simp [runTask, hq]
      rw [this, hheap]
  cases hsel : lu.foldl (fun o c => consider u c o) none with
  | none =>
    rw [hsel] at ran hbest
    refine hran u.taskList (congrArg Prod.snd (Option.some.inj ran)) hsu.taskList_mem
      (Or.inr ⟨hlist, fun q hq hcand => ?_⟩)
    exact hbest q ((hmem q).mpr hq) ((hready q).mpr hcand)
  | some best =>
    obtain ⟨p, best⟩ := best
    rw [hsel] at ran hbest
    obtain ⟨hp, hcand, rfl, hmax⟩ := hbest
    refine hran p (congrArg Prod.snd (Option.some.inj ran)) ((hmem p).mp hp)
      (Or.inl ⟨(hready p).mp hcand, fun q hq hq' => ?_⟩)
    rw [← hscore q, ← hscore p]
    exact hmax q ((hmem q).mpr hq) ((hready q).mpr hq')

def sliced (t : Task) : Task :=
  if t.remainingTicks > 0 then { t with remainingTicks := t.remainingTicks - 1 } else t

/-- An interrupt outside of user mode, after its accounting: the current task goes on with a shorter
slice, or a task is picked because there is none to go on with. -/
inductive Decides (created : List Ptr) (u t : Sched) : Prop where
  | goesOn (running : (u.heap u.currentTask).state = .running)
      (ordinary : (u.heap u.currentTask).id ≠ 0)
      (left : (sliced (u.heap u.currentTask)).remainingTicks ≠ 0)
      (after : t = u.modify u.currentTask sliced)
  | selects (v : Sched) (p : Ptr) (picks : Picks created v t p)
      (before : v = u ∧ ((u.heap u.currentTask).state ≠ .running ∨
          (u.heap u.currentTask).id = 0) ∨
        v = u.modify u.currentTask sliced ∧
          (sliced (u.heap u.currentTask)).remainingTicks = 0)

theorem timer_cases (h : Sound bootstrap s created saved) {oldRsp newRsp : UInt64}
    (ran : k64SchedHandleTimer s false oldRsp = some (newRsp, t)) :
    ∃ u, Ticked created s u ∧ Decides created u t := by
  have hc : s.currentTask ≠ null := h.address _ h.current
  have hsaved := (save_sound h oldRsp).kept (tick_kept _)
  obtain ⟨u, hrun, hk, hticks, htasks⟩ := accounting_ticks hsaved
  have hsave : saveRsp s oldRsp = s.modify s.currentTask fun t => { t with rsp := oldRsp } :=
    if_pos hc
  have hscur : (saveRsp s oldRsp).currentTask = s.currentTask := by rw [hsave]; rfl
  have hcur : u.currentTask = s.currentTask := hk.currentTask.trans hscur
  have hu := hsaved.kept hk
  refine ⟨u, ⟨hcur, ?_, ?_, fun p hp => ?_⟩, ?_⟩
  · rw [hk.taskList]
    change (saveRsp s oldRsp).taskList = _
    rw [hsave]
    rfl
  · rw [hticks, hsave]
    rfl
  · have hp := htasks p hp
    change u.heap p = accounted (k64PitOnTick (saveRsp s oldRsp)).ticks
      (p == (saveRsp s oldRsp).currentTask) ((saveRsp s oldRsp).heap p) at hp
    rw [hscur, save_heap hc, ← hticks] at hp
    by_cases hpc : p = s.currentTask
    · rw [if_pos hpc] at hp
      exact ⟨oldRsp, by rw [hp, hpc]⟩
    · rw [if_neg hpc] at hp
      exact ⟨(s.heap p).rsp, hp⟩
  · rw [k64SchedHandleTimer, if_neg Bool.false_ne_true, hrun, Option.bind_some] at ran
    have hne : u.currentTask ≠ null := hcur ▸ hc
    by_cases hstate : (u.heap u.currentTask).state = .running
    case neg =>
      rw [if_pos (Or.inr hstate)] at ran
      obtain ⟨p, hp⟩ := pick_cases hu ran
      exact .selects u p hp (Or.inl ⟨rfl, Or.inl hstate⟩)
    rw [if_neg (by simp [hne, hstate])] at ran
    by_cases hid : (u.heap u.currentTask).id = 0
    case pos =>
      rw [if_pos hid] at ran
      obtain ⟨p, hp⟩ := pick_cases hu ran
      exact .selects u p hp (Or.inl ⟨rfl, Or.inr hid⟩)
    rw [if_neg hid] at ran
    -- the slice of the current task gets shorter
    have hslice : (if (u.heap u.currentTask).remainingTicks > 0 then
        u.modify u.currentTask fun t => { t with remainingTicks := t.remainingTicks - 1 } else u) =
        u.modify u.currentTask sliced := by
      split
      · apply modify_congr
        rw [sliced, if_pos ‹_›]
      · apply Eq.symm
        apply modify_self
        rw [sliced, if_neg ‹_›]
    dsimp only at ran
    rw [hslice] at ran
    have hleft : ((u.modify u.currentTask sliced).heap
        (u.modify u.currentTask sliced).currentTask) = sliced (u.heap u.currentTask) := by
      simp
    rw [hleft] at ran
    by_cases hzero : (sliced (u.heap u.currentTask)).remainingTicks = 0
    · rw [if_pos hzero] at ran
      have hkv : Kept u (u.modify u.currentTask sliced) := by
        refine kept_modify u _ (fun t => ?_) (fun t => ?_) fun t => ?_ <;>
          (unfold sliced; split <;> simp)
      obtain ⟨p, hp⟩ := pick_cases (hu.kept hkv) ran
      exact .selects _ p hp (Or.inr ⟨rfl, hzero⟩)
    · rw [if_neg hzero] at ran
      exact .goesOn hstate hid hzero (congrArg Prod.snd (Option.some.inj ran)).symm

end Scheduler
