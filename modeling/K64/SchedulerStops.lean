import K64.SchedulerSteps

/-! # Stopped tasks

A task can be stopped while it is the current one, and goes on until the next tick. What it may call
in the meantime decides whether it stays stopped. -/
namespace Scheduler

/-- What happens from a given state on, if the tasks only make calls that are allowed to them. -/
inductive Run (allowed : Sched → TaskCall → Prop) (s : Sched) (created : List Ptr) :
    Sched → List Ptr → Prop where
  | refl : Run allowed s created s created
  | create {t created'} (tcb : Ptr) (stack : UInt64) (priority : ℤ) (cr3 : UInt64)
      (h : Run allowed s created t created') (fresh : tcb ∉ created') :
      Run allowed s created (k64TaskCreateArg t tcb stack priority cr3).2
        (if (k64TaskCreateArg t tcb stack priority cr3).1 = null then created'
          else tcb :: created')
  | timer {t created' u} (usermodeActive : Bool) (oldRsp newRsp : UInt64)
      (h : Run allowed s created t created')
      (ran : k64SchedHandleTimer t usermodeActive oldRsp = some (newRsp, u)) :
      Run allowed s created u created'
  | call {t created'} (c : TaskCall) (h : Run allowed s created t created') (ok : allowed t c) :
      Run allowed s created (c.run t) created'

variable {bootstrap : Ptr} {s t : Sched} {created created' : List Ptr} {saved : Ptr → UInt64}
  {p : Ptr} {allowed : Sched → TaskCall → Prop}

theorem Run.reachable (h : Reachable bootstrap s created saved)
    (run : Run allowed s created t created') : ∃ saved', Reachable bootstrap t created' saved' := by
  induction run with
  | refl => exact ⟨saved, h⟩
  | create tcb stack priority cr3 _ fresh ih =>
    obtain ⟨saved', hr⟩ := ih
    exact ⟨_, hr.create tcb stack priority cr3 fresh⟩
  | timer usermodeActive oldRsp newRsp _ ran ih =>
    obtain ⟨saved', hr⟩ := ih
    exact ⟨_, hr.timer usermodeActive oldRsp newRsp ran⟩
  | call c _ _ ih =>
    obtain ⟨saved', hr⟩ := ih
    exact ⟨_, hr.call c⟩

/-- A task that was stopped does not go to sleep or block any more. -/
def Careful (s : Sched) : TaskCall → Prop
  | .sleep _ | .blockCurrent =>
    (s.heap s.currentTask).state = .zombie → (s.heap s.currentTask).id = 0
  | _ => True

theorem modify_zombie {f : Task → Task} {q : Ptr} (hz : (s.heap p).state = .zombie)
    (hf : (s.heap q).state = .zombie → (f (s.heap q)).state = .zombie) :
    ((s.modify q f).heap p).state = .zombie := by
  rw [modify_heap]
  split
  · apply hf
    rw [← ‹p = q›]
    exact hz
  · exact hz

theorem call_zombie (c : TaskCall) (hz : (s.heap p).state = .zombie) (hc : Careful s c) :
    ((c.run s).heap p).state = .zombie := by
  cases c with
  | exitCurrent =>
    rw [TaskCall.run, k64TaskExitCurrent]
    split
    · exact modify_zombie hz fun _ => rfl
    · exact hz
  | yield =>
    rw [TaskCall.run, k64SchedYield]
    split
    · exact modify_zombie hz id
    · exact hz
  | sleep ticks =>
    rw [TaskCall.run, k64SchedSleep]
    split
    · exact hz
    · obtain ⟨-, hid⟩ := not_or.mp ‹¬ _›
      exact modify_zombie hz fun hcur => absurd (hc hcur) hid
  | blockCurrent =>
    rw [TaskCall.run, k64SchedBlockCurrent]
    split
    · exact hz
    · obtain ⟨-, hid⟩ := not_or.mp ‹¬ _›
      exact modify_zombie hz fun hcur => absurd (hc hcur) hid
  | wakeTask task =>
    rw [TaskCall.run, k64SchedWakeTask]
    split
    · exact hz
    · obtain ⟨-, hblocked⟩ := not_or.mp ‹¬ _›
      refine modify_zombie hz fun hcur => ?_
      rw [hcur] at hblocked
      exact absurd (by rintro ⟨⟩) hblocked
  | stop task =>
    rw [TaskCall.run, k64TaskStop]
    split
    · exact hz
    · exact modify_zombie hz fun _ => rfl

theorem Picks.ne_zombie (h : Picks created s t p) (hlist : s.taskList = bootstrap) {z : Ptr}
    (hz : (s.heap z).state = .zombie) (hb : z ≠ bootstrap) : z ≠ p := by
  rintro rfl
  obtain ⟨⟨-, hready | ⟨-, hrun⟩⟩, -⟩ | ⟨heq, -⟩ := h.choice
  · rw [hz] at hready
    cases hready
  · rw [hz] at hrun
    cases hrun
  · exact hb (heq.trans hlist)

/-- The decision of an interrupt leaves a task as it is, unless the task is ready or running. -/
theorem Decides.task (h : Decides created s t) (hp : p ≠ s.taskList) :
    (t.heap p).sleepUntilTick = (s.heap p).sleepUntilTick ∧
    ((t.heap p).state = (s.heap p).state ∨
      ((s.heap p).state = .ready ∨ (s.heap p).state = .running) ∧
        ((t.heap p).state = .ready ∨ (t.heap p).state = .running)) := by
  have hsliced : ∀ t : Task, (sliced t).sleepUntilTick = t.sleepUntilTick ∧
      (sliced t).state = t.state := by
    intro t
    unfold sliced
    split <;> exact ⟨rfl, rfl⟩
  have hview : ((s.modify s.currentTask sliced).heap p).sleepUntilTick =
      (s.heap p).sleepUntilTick ∧
      ((s.modify s.currentTask sliced).heap p).state = (s.heap p).state := by
    rw [modify_heap]
    split
    next heq => exact heq ▸ hsliced _
    next => exact ⟨rfl, rfl⟩
  cases h with
  | goesOn _ _ _ after =>
    rw [after]
    exact ⟨hview.1, .inl hview.2⟩
  | selects v q picks before =>
    obtain ⟨htick, hstate, hlist⟩ : (v.heap p).sleepUntilTick = (s.heap p).sleepUntilTick ∧
        (v.heap p).state = (s.heap p).state ∧ v.taskList = s.taskList := by
      obtain ⟨rfl, -⟩ | ⟨rfl, -⟩ := before
      · exact ⟨rfl, rfl, rfl⟩
      · exact ⟨hview.1, hview.2, rfl⟩
    rw [← htick, ← hstate]
    by_cases hpq : p = q
    · subst hpq
      rw [picks.selected]
      refine ⟨rfl, .inr ⟨?_, .inr rfl⟩⟩
      obtain ⟨⟨-, hready | ⟨-, hrun⟩⟩, -⟩ | ⟨heq, -⟩ := picks.choice
      · exact .inl hready
      · exact .inr hrun
      · exact absurd (heq.trans hlist) hp
    · rw [picks.others p hpq]
      split
      next hrun => exact ⟨rfl, .inr ⟨.inr hrun.2, .inl rfl⟩⟩
      next => exact ⟨rfl, .inl rfl⟩

theorem timer_zombie (h : Sound bootstrap s created saved) {oldRsp newRsp : UInt64}
    (ran : k64SchedHandleTimer s false oldRsp = some (newRsp, t)) (hp : p ∈ created)
    (hb : p ≠ bootstrap) (hz : (s.heap p).state = .zombie) : (t.heap p).state = .zombie := by
  obtain ⟨u, hticked, hdecides⟩ := timer_cases h ran
  have hu : (u.heap p).state = .zombie := by
    obtain ⟨rsp, heq⟩ := hticked.tasks p hp
    rw [heq]
    simp [accounted, woken, hz]
  obtain ⟨-, hsame | ⟨hready, -⟩⟩ := hdecides.task fun heq => hb (heq.trans
    (hticked.taskList.trans h.list))
  · exact hsame.trans hu
  · rw [hu] at hready
    obtain hready | hready := hready <;> cases hready

theorem create_task {tcb : Ptr} (hne : p ≠ tcb) (stack : UInt64) (priority : ℤ) (cr3 : UInt64) :
    ((k64TaskCreateArg s tcb stack priority cr3).2.heap p).sleepUntilTick =
      (s.heap p).sleepUntilTick ∧
    ((k64TaskCreateArg s tcb stack priority cr3).2.heap p).state = (s.heap p).state := by
  have hnew : ∀ task : Task, (s.modify tcb fun _ => task).heap p = s.heap p := by
    intro task
    rw [modify_heap, if_neg hne]
  rw [k64TaskCreateArg]
  split
  · exact ⟨rfl, rfl⟩
  · dsimp only
    split
    · rw [hnew]
      exact ⟨rfl, rfl⟩
    · simp only [linkTask, modify_heap]
      split
      next heq => rw [if_neg (heq ▸ hne), heq]; exact ⟨rfl, rfl⟩
      next => exact ⟨rfl, rfl⟩

theorem create_zombie {tcb : Ptr} (hfresh : tcb ∉ created) (stack : UInt64) (priority : ℤ)
    (cr3 : UInt64) (hp : p ∈ created) (hz : (s.heap p).state = .zombie) :
    ((k64TaskCreateArg s tcb stack priority cr3).2.heap p).state = .zombie :=
  (create_task (ne_of_mem_of_not_mem hp hfresh) stack priority cr3).2.trans hz

theorem Run.mem_created (run : Run allowed s created t created') (hp : p ∈ created) : p ∈ created' := by
  induction run with
  | refl => exact hp
  | create tcb stack priority cr3 _ _ ih =>
    split
    · exact ih
    · exact List.mem_cons_of_mem tcb ih
  | timer _ _ _ _ _ ih => exact ih
  | call _ _ _ ih => exact ih

/-- A stopped task stays stopped, and is not picked again, as long as nobody calls
`k64_sched_sleep` or `k64_sched_block_current` for it after it was stopped. -/
theorem stopped_never_runs (h : Reachable bootstrap s created saved) (hp : p ∈ created)
    (hb : p ≠ bootstrap) (hz : (s.heap p).state = .zombie)
    (run : Run Careful s created t created') :
    (t.heap p).state = .zombie ∧
      ∀ rsp u, pickNextRsp t = some (rsp, u) → u.currentTask ≠ p := by
  have hstate : (t.heap p).state = .zombie := by
    induction run with
    | refl => exact hz
    | create tcb stack priority cr3 run fresh ih =>
      obtain ⟨saved', hr⟩ := run.reachable h
      exact create_zombie fresh stack priority cr3 (run.mem_created hp) ih
    | timer usermodeActive oldRsp newRsp run ran ih =>
      obtain ⟨saved', hr⟩ := run.reachable h
      cases usermodeActive with
      | false => exact timer_zombie (reachable_sound hr) ran (run.mem_created hp) hb ih
      | true =>
        rw [k64SchedHandleTimer, if_pos rfl] at ran
        cases ran
        exact ih
    | call c run ok ih => exact call_zombie c ih ok
  refine ⟨hstate, fun rsp u ran => ?_⟩
  obtain ⟨saved', hr⟩ := run.reachable h
  have hsound := reachable_sound hr
  obtain ⟨q, hpicks⟩ := pick_cases hsound ran
  rw [hpicks.currentTask]
  exact (hpicks.ne_zombie hsound.list hstate hb).symm

/-- The bootstrap task at 8 makes a task at 4096, which the next interrupt switches to. -/
def madeTask : Sched := (k64TaskCreateArg (k64SchedInit 8 emptySched) 4096 8192 1 0).2

theorem madeTask_switches : (k64SchedHandleTimer madeTask false 77).isSome := by decide

def switchedTask : Sched := ((k64SchedHandleTimer madeTask false 77).get madeTask_switches).2

theorem switchedTask_reachable : ∃ saved, Reachable 8 switchedTask [4096, 8] saved := by
  have hmade : Reachable 8 madeTask [4096, 8] _ :=
    Reachable.create 4096 8192 1 0 (Reachable.init emptySched (show 8 ≠ null by decide)) (by decide)
  exact ⟨_, hmade.timer false 77 _ (eq_some_get madeTask_switches)⟩

def stoppedTask : Sched := TaskCall.run switchedTask (.stop 4096)

/-- A stopped task that only yields is not picked. -/
theorem stopped_task_yields : ((TaskCall.run stoppedTask .yield).heap 4096).state = .zombie := by
  obtain ⟨saved, hswitched⟩ := switchedTask_reachable
  exact (stopped_never_runs (hswitched.call (.stop 4096)) (by decide) (by decide) (by decide)
    (Run.refl.call .yield trivial)).1

def sleepingTask : Sched := TaskCall.run stoppedTask (.sleep 1)

theorem sleepingTask_switches : (k64SchedHandleTimer sleepingTask false 78).isSome := by
  decide +kernel

theorem stopped_runs_again : ∃ s created saved t created', Reachable 8 s created saved ∧
    4096 ∈ created ∧ (s.heap 4096).state = .zombie ∧ Run (fun _ _ => True) s created t created' ∧
    (t.heap 4096).state = .running ∧ t.currentTask = 4096 := by
  obtain ⟨saved, hswitched⟩ := switchedTask_reachable
  have hsleeping : Run (fun _ _ => True) stoppedTask [4096, 8] sleepingTask [4096, 8] :=
    Run.refl.call (.sleep 1) trivial
  have hagain := hsleeping.timer false 78 _ (eq_some_get sleepingTask_switches)
  exact ⟨stoppedTask, _, saved, _, _, hswitched.call (.stop 4096), by decide, by decide, hagain,
    by decide +kernel, by decide +kernel⟩

end Scheduler
