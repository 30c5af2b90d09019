import K64.SchedulerStops

/-! # Sleeping tasks

`k64_sched_sleep` blocks the current task until a tick. The first timer interrupt outside of user mode
that finds the tick reached makes it ready again, and no earlier one does. -/
namespace Scheduler

structure Asleep (s : Sched) (p : Ptr) (wake : UInt64) : Prop where
  tick : (s.heap p).sleepUntilTick = wake
  state : (s.heap p).state = .blocked

structure Awake (s : Sched) (p : Ptr) : Prop where
  tick : (s.heap p).sleepUntilTick = 0
  state : (s.heap p).state = .ready ∨ (s.heap p).state = .running

/-- Calls that the task does not make and that do not name it; a yield leaves it asleep. -/
def Spares (p : Ptr) (s : Sched) : TaskCall → Prop
  | .wakeTask task | .stop task => p ≠ task
  | .yield => True
  | _ => p ≠ s.currentTask

/-- A run in which no interrupt outside of user mode has reached the tick `wake`. -/
inductive Early (p : Ptr) (wake : UInt64) (s : Sched) (created : List Ptr) :
    Sched → List Ptr → Prop where
  | refl : Early p wake s created s created
  | create {t created'} (tcb : Ptr) (stack : UInt64) (priority : ℤ) (cr3 : UInt64)
      (h : Early p wake s created t created') (fresh : tcb ∉ created') :
      Early p wake s created (k64TaskCreateArg t tcb stack priority cr3).2
        (if (k64TaskCreateArg t tcb stack priority cr3).1 = null then created'
          else tcb :: created')
  | timer {t created' u} (usermodeActive : Bool) (oldRsp newRsp : UInt64)
      (h : Early p wake s created t created')
      (ran : k64SchedHandleTimer t usermodeActive oldRsp = some (newRsp, u))
      (early : usermodeActive = false → t.ticks + 1 < wake) : Early p wake s created u created'
  | call {t created'} (c : TaskCall) (h : Early p wake s created t created') (ok : Spares p t c) :
      Early p wake s created (c.run t) created'

variable {bootstrap : Ptr} {s t : Sched} {created created' : List Ptr} {saved : Ptr → UInt64}
  {p : Ptr} {wake : UInt64}

theorem call_asleep (h : Asleep s p wake) (c : TaskCall) (hc : Spares p s c) :
    Asleep (c.run s) p wake := by
  suffices hsame : ((c.run s).heap p).sleepUntilTick = (s.heap p).sleepUntilTick ∧
      ((c.run s).heap p).state = (s.heap p).state from
    ⟨hsame.1.trans h.tick, hsame.2.trans h.state⟩
  cases c with
  | yield =>
    simp only [TaskCall.run, k64SchedYield]
    split
    · rw [modify_heap]
      split
      next heq => exact heq ▸ ⟨rfl, rfl⟩
      next => exact ⟨rfl, rfl⟩
    · exact ⟨rfl, rfl⟩
  | wakeTask task | stop task =>
    have hne : p ≠ task := hc
    simp only [TaskCall.run, k64SchedWakeTask, k64TaskStop]
    split <;> simp [hne]
  | exitCurrent | sleep ticks | blockCurrent =>
    have hne : p ≠ s.currentTask := hc
    simp only [TaskCall.run, k64TaskExitCurrent, k64SchedSleep, k64SchedBlockCurrent]
    split <;> simp [hne]

/-- The step lemma: an interrupt wakes a sleeping task if and only if its tick is reached. -/
theorem timer_asleep (h : Sound bootstrap s created saved) {oldRsp newRsp : UInt64}
    (ran : k64SchedHandleTimer s false oldRsp = some (newRsp, t)) (hp : p ∈ created)
    (hb : p ≠ bootstrap) (hs : Asleep s p wake) (hwake : wake ≠ 0) :
    if wake ≤ s.ticks + 1 then Awake t p else Asleep t p wake := by
  obtain ⟨u, hticked, hdecides⟩ := timer_cases h ran
  obtain ⟨rsp, hu⟩ := hticked.tasks p hp
  obtain ⟨htick, hstate⟩ := hdecides.task fun heq => hb (heq.trans (hticked.taskList.trans h.list))
  rw [hticked.ticks] at hu
  split
  next hdue =>
    have hready : (u.heap p).sleepUntilTick = 0 ∧ (u.heap p).state = .ready := by
      rw [hu]
      simp [accounted, woken, hs.state, hs.tick, hwake, hdue]
    exact ⟨htick.trans hready.1, hstate.elim (fun hsame => .inl (hsame.trans hready.2)) And.right⟩
  next hearly =>
    have hstill : (u.heap p).sleepUntilTick = wake ∧ (u.heap p).state = .blocked := by
      rw [hu]
      simp [accounted, woken, hs.state, hs.tick, hearly]
    refine ⟨htick.trans hstill.1, ?_⟩
    obtain hsame | ⟨hactive, -⟩ := hstate
    · exact hsame.trans hstill.2
    · rw [hstill.2] at hactive
      obtain hactive | hactive := hactive <;> cases hactive

theorem Early.run (h : Early p wake s created t created') :
    Run (Spares p) s created t created' := by
  induction h with
  | refl => exact .refl
  | create tcb stack priority cr3 _ fresh ih => exact .create tcb stack priority cr3 ih fresh
  | timer usermodeActive oldRsp newRsp _ ran _ ih => exact .timer usermodeActive oldRsp newRsp ih ran
  | call c _ ok ih => exact .call c ih ok

/-- The run lemma: until the tick is reached the task is asleep. -/
theorem Early.asleep (early : Early p wake s created t created')
    (h : Reachable bootstrap s created saved) (hp : p ∈ created) (hb : p ≠ bootstrap)
    (hs : Asleep s p wake) (hwake : wake ≠ 0) : Asleep t p wake := by
  induction early with
  | refl => exact hs
  | create tcb stack priority cr3 early fresh ih =>
    obtain ⟨htick, hstate⟩ :=
      create_task (ne_of_mem_of_not_mem (early.run.mem_created hp) fresh) stack priority cr3
    exact ⟨htick.trans ih.tick, hstate.trans ih.state⟩
  | timer usermodeActive oldRsp newRsp early ran hearly ih =>
    cases usermodeActive with
    | true =>
      rw [k64SchedHandleTimer, if_pos rfl] at ran
      cases ran
      exact ⟨ih.tick, ih.state⟩
    | false =>
      obtain ⟨saved', hr⟩ := early.run.reachable h
      have hafter := timer_asleep (reachable_sound hr) ran (early.run.mem_created hp) hb ih hwake
      rwa [if_neg (UInt64.not_le.mpr (hearly rfl))] at hafter
  | call c early ok ih => exact call_asleep ih c ok

/-- Unless it is woken or stopped, a task that sleeps until `wake` is asleep until an interrupt
outside of user mode reaches that tick, and ready or running after the first one that does. Every run
either has no such interrupt, or goes on behind the first one. -/
theorem sleeps_until_tick (h : Reachable bootstrap s created saved) (hp : p ∈ created)
    (hb : p ≠ bootstrap) (hs : Asleep s p wake) (hwake : wake ≠ 0) :
    (∀ t created', Early p wake s created t created' → Asleep t p wake ∧
      ∀ oldRsp newRsp u, k64SchedHandleTimer t false oldRsp = some (newRsp, u) →
        wake ≤ t.ticks + 1 → Awake u p) ∧
    ∀ t created', Run (Spares p) s created t created' → Early p wake s created t created' ∨
      ∃ m before oldRsp newRsp u, Early p wake s created m before ∧
        k64SchedHandleTimer m false oldRsp = some (newRsp, u) ∧ wake ≤ m.ticks + 1 ∧ Awake u p ∧
        Run (Spares p) u before t created' := by
  have hstep : ∀ t created', Early p wake s created t created' → Asleep t p wake ∧
      ∀ oldRsp newRsp u, k64SchedHandleTimer t false oldRsp = some (newRsp, u) →
        wake ≤ t.ticks + 1 → Awake u p := by
    intro t created' early
    have hasleep := early.asleep h hp hb hs hwake
    refine ⟨hasleep, fun oldRsp newRsp u ran hdue => ?_⟩
    obtain ⟨saved', hr⟩ := early.run.reachable h
    have hafter := timer_asleep (reachable_sound hr) ran (early.run.mem_created hp) hb hasleep hwake
    rwa [if_pos hdue] at hafter
  refine ⟨hstep, fun t created' run => ?_⟩
  induction run with
  | refl => exact .inl .refl
  | create tcb stack priority cr3 _ fresh ih =>
    obtain early | ⟨m, before, oldRsp, newRsp, u, early, ran, hdue, hawake, rest⟩ := ih
    · exact .inl (.create tcb stack priority cr3 early fresh)
    · exact .inr ⟨m, before, oldRsp, newRsp, u, early, ran, hdue, hawake,
        .create tcb stack priority cr3 rest fresh⟩
  | @timer t created' v usermodeActive old new _ ran ih =>
    obtain early | ⟨m, before, oldRsp, newRsp, u, early, ran', hdue, hawake, rest⟩ := ih
    · by_cases hreached : usermodeActive = false ∧ wake ≤ t.ticks + 1
      · obtain ⟨rfl, hdue⟩ := hreached
        exact .inr ⟨t, created', old, new, v, early, ran, hdue, (hstep _ _ early).2 _ _ _ ran hdue, .refl⟩
      · exact .inl (.timer usermodeActive old new early ran
          fun hmode => UInt64.not_le.mp fun hdue => hreached ⟨hmode, hdue⟩)
    · exact .inr ⟨m, before, oldRsp, newRsp, u, early, ran', hdue, hawake,
        .timer usermodeActive old new rest ran⟩
  | call c _ ok ih =>
    obtain early | ⟨m, before, oldRsp, newRsp, u, early, ran, hdue, hawake, rest⟩ := ih
    · exact .inl (.call c early ok)
    · exact .inr ⟨m, before, oldRsp, newRsp, u, early, ran, hdue, hawake, .call c rest ok⟩

def sleptTask : Sched := TaskCall.run switchedTask (.sleep 2)

theorem sleptTask_ticks : (k64SchedHandleTimer sleptTask false 78).isSome := by decide +kernel

def tickedTask : Sched := ((k64SchedHandleTimer sleptTask false 78).get sleptTask_ticks).2

theorem tickedTask_ticks : (k64SchedHandleTimer tickedTask false 79).isSome := by decide +kernel

/-- A sleep of two ticks, with one interrupt that comes too early. -/
theorem sleeps_two_ticks : Asleep tickedTask 4096 3 ∧
    Awake ((k64SchedHandleTimer tickedTask false 79).get tickedTask_ticks).2 4096 := by
  obtain ⟨saved, hswitched⟩ := switchedTask_reachable
  have hasleep : Asleep sleptTask 4096 3 := ⟨by decide +kernel, by decide +kernel⟩
  obtain ⟨hstep, -⟩ := sleeps_until_tick (hswitched.call (.sleep 2)) (by decide) (by decide) hasleep
    (by decide)
  obtain ⟨hstill, hwoken⟩ := hstep tickedTask _ (.timer false 78 _ .refl
    (eq_some_get sleptTask_ticks) fun _ => by decide +kernel)
  exact ⟨hstill, hwoken _ _ _ (eq_some_get tickedTask_ticks) (by decide +kernel)⟩

end Scheduler
