import K64.Scheduler
import Mathlib.Data.List.Perm.Basic

/-! # Runs of the scheduler

From `k64_sched_init` on, tasks are created, timer interrupts arrive and tasks call the scheduler, in
any order. -/
namespace Scheduler

open RingList

def Sched.next (s : Sched) (p : Ptr) : Ptr := (s.heap p).next

/-- The states after any sequence of events, with the tasks created and, for each task, the stack
pointer it had when it was last switched out, at first its initial one. The frame allocator never
hands out a structure twice. -/
inductive Reachable (bootstrap : Ptr) : Sched → List Ptr → (Ptr → UInt64) → Prop where
  | init (s : Sched) (address : bootstrap ≠ null) :
      Reachable bootstrap (k64SchedInit bootstrap s) [bootstrap] fun _ => 0
  | create {s created saved} (tcb : Ptr) (stack : UInt64) (priority : ℤ) (cr3 : UInt64)
      (h : Reachable bootstrap s created saved) (fresh : tcb ∉ created) :
      Reachable bootstrap (k64TaskCreateArg s tcb stack priority cr3).2
        (if (k64TaskCreateArg s tcb stack priority cr3).1 = null then created else tcb :: created)
        (Function.update saved tcb (initialRsp stack))
  | timer {s created saved t} (usermodeActive : Bool) (oldRsp newRsp : UInt64)
      (h : Reachable bootstrap s created saved)
      (ran : k64SchedHandleTimer s usermodeActive oldRsp = some (newRsp, t)) :
      Reachable bootstrap t created
        (if t.currentTask = s.currentTask then saved
          else Function.update saved s.currentTask oldRsp)
  | call {s created saved} (c : TaskCall) (h : Reachable bootstrap s created saved) :
      Reachable bootstrap (c.run s) created saved

structure Sound (bootstrap : Ptr) (s : Sched) (created : List Ptr) (saved : Ptr → UInt64) :
    Prop where
  tcbs : s.tcbs = created
  ring : ∃ l, Ring s.next s.taskList l ∧ l.Perm created
  list : s.taskList = bootstrap
  address : ∀ p ∈ created, p ≠ null
  current : s.currentTask ∈ created
  running : ∀ p ∈ created, (s.heap p).state = .running → p = s.currentTask
  saved : ∀ p ∈ created, p ≠ s.currentTask → (s.heap p).rsp = saved p

variable {bootstrap : Ptr} {s t : Sched} {created : List Ptr} {saved : Ptr → UInt64} {p q : Ptr}

structure Kept (s t : Sched) : Prop where
  tcbs : t.tcbs = s.tcbs
  taskList : t.taskList = s.taskList
  currentTask : t.currentTask = s.currentTask
  next : t.next = s.next
  rsp : ∀ p, (t.heap p).rsp = (s.heap p).rsp
  running : ∀ p, (t.heap p).state = .running → (s.heap p).state = .running

theorem Kept.refl (s : Sched) : Kept s s := ⟨rfl, rfl, rfl, rfl, fun _ => rfl, fun _ => id⟩

theorem Kept.trans {u : Sched} (h : Kept s t) (h' : Kept t u) : Kept s u :=
  ⟨h'.tcbs.trans h.tcbs, h'.taskList.trans h.taskList, h'.currentTask.trans h.currentTask,
    h'.next.trans h.next, fun p => (h'.rsp p).trans (h.rsp p),
    fun p hp => h.running p (h'.running p hp)⟩

theorem kept_modify (s : Sched) (p : Ptr) {f : Task → Task} (hnext : ∀ t, (f t).next = t.next)
    (hrsp : ∀ t, (f t).rsp = t.rsp) (hstate : ∀ t, (f t).state = .running → t.state = .running) :
    Kept s (s.modify p f) := by
  refine ⟨rfl, rfl, rfl, ?_, fun q => ?_, fun q => ?_⟩
  · funext q
    rw [Sched.next, Sched.next, modify_heap]
    by_cases hq : q = p
    · rw [if_pos hq, hnext, hq]
    · rw [if_neg hq]
  · rw [modify_heap]
    by_cases hq : q = p
    · rw [if_pos hq, hrsp, hq]
    · rw [if_neg hq]
  · rw [modify_heap]
    by_cases hq : q = p
    · rw [if_pos hq, hq]
      exact hstate _
    · rw [if_neg hq]
      exact id

theorem Sound.kept (h : Sound bootstrap s created saved) (hk : Kept s t) :
    Sound bootstrap t created saved := by
  refine ⟨hk.tcbs.trans h.tcbs, ?_, hk.taskList.trans h.list, h.address, ?_, fun p hp hr => ?_,
    fun p hp hne => ?_⟩
  · rw [hk.next, hk.taskList]
    exact h.ring
  · rw [hk.currentTask]
    exact h.current
  · rw [hk.currentTask]
    exact h.running p hp (hk.running p hr)
  · rw [hk.rsp]
    exact h.saved p hp (hk.currentTask ▸ hne)

theorem call_kept (s : Sched) (c : TaskCall) : Kept s (c.run s) := by
  have hnone : ∀ {x : TaskState}, x ≠ .running → ∀ t : Task, x = .running → t.state = .running :=
    fun hx _ h => absurd h hx
  cases c with
  | exitCurrent =>
    rw [TaskCall.run, k64TaskExitCurrent]
    split
    · exact kept_modify s _ (fun _ => rfl) (fun _ => rfl) (hnone (by decide))
    · exact Kept.refl s
  | yield =>
    rw [TaskCall.run, k64SchedYield]
    split
    · exact kept_modify s _ (fun _ => rfl) (fun _ => rfl) fun _ => id
    · exact Kept.refl s
  | sleep ticks =>
    rw [TaskCall.run, k64SchedSleep]
    split
    · exact Kept.refl s
    · exact kept_modify s _ (fun _ => rfl) (fun _ => rfl) (hnone (by decide))
  | blockCurrent =>
    rw [TaskCall.run, k64SchedBlockCurrent]
    split
    · exact Kept.refl s
    · exact kept_modify s _ (fun _ => rfl) (fun _ => rfl) (hnone (by decide))
  | wakeTask task =>
    rw [TaskCall.run, k64SchedWakeTask]
    split
    · exact Kept.refl s
    · exact kept_modify s _ (fun _ => rfl) (fun _ => rfl) (hnone (by decide))
  | stop task =>
    rw [TaskCall.run, k64TaskStop]
    split
    · exact Kept.refl s
    · exact kept_modify s _ (fun _ => rfl) (fun _ => rfl) (hnone (by decide))

theorem account_kept (now : UInt64) (p : Ptr) (s : Sched) : Kept s (accountTask now p s) := by
  have hwake : Kept s (wakeSleeper now p s) := by
    rw [wakeSleeper]
    split
    · exact kept_modify s p (fun _ => rfl) (fun _ => rfl) fun _ h =>
        absurd h (show TaskState.ready ≠ .running by decide)
    · exact Kept.refl s
  apply hwake.trans
  rw [accountTask]
  split
  · exact kept_modify _ p (fun _ => rfl) (fun _ => rfl) fun _ => id
  · split
    · exact kept_modify _ p (fun _ => rfl) (fun _ => rfl) fun _ => id
    · exact Kept.refl _

section Round

variable (h : Sound bootstrap s created saved)

include h

theorem Sound.ring_length {l : List Ptr} (hp : l.Perm created) : l.length ≤ s.tcbs.length := by
  rw [h.tcbs]
  exact Nat.le_of_eq hp.length_eq

theorem Sound.stop_iff {l : List Ptr} (hp : l.Perm created) (hq : q ∈ l) :
    (q == null || q == s.taskList) = true ↔ q = s.taskList := by
  have hne := h.address q (hp.mem_iff.mp hq)
  simp [hne]

theorem Sound.taskList_mem : s.taskList ∈ created := by
  obtain ⟨l, hring, hperm⟩ := h.ring
  exact hperm.mem_iff.mp hring.start_mem

theorem Sound.round {l : List Ptr} (hring : Ring s.next s.taskList l) (hperm : l.Perm created) :
    onTickAccounting s = some (l.foldl (fun u p => accountTask s.ticks p u) s) := by
  rw [onTickAccounting, if_neg (h.address _ h.taskList_mem)]
  exact Ring.doWhile (s := s) (n := s.tcbs.length) (accountTask s.ticks)
    (fun s p => (s.heap p).next) (fun s p => p == null || p == s.taskList) (Kept s) hring
    (fun p u hu => hu.trans (account_kept _ p u)) (fun p u hu => congrFun hu.next p)
    (fun q hq u hu => by
      have hstop := h.stop_iff hperm hq
      rw [← hu.taskList] at hstop ⊢
      exact hstop)
    (h.ring_length hperm) (Kept.refl s)

theorem Sound.selection {l : List Ptr} (hring : Ring s.next s.taskList l) (hperm : l.Perm created) :
    RingList.doWhile (consider s) (fun _ p => (s.heap p).next)
        (fun _ p => p == null || p == s.taskList) s.tcbs.length s.taskList none =
      some (l.foldl (fun o c => consider s c o) none) :=
  Ring.doWhile (s := none) (n := s.tcbs.length) (consider s) (fun _ p => (s.heap p).next)
    (fun _ p => p == null || p == s.taskList) (fun _ => True) hring (fun _ _ _ => trivial)
    (fun _ _ _ => rfl) (fun _ hq _ _ => h.stop_iff hperm hq) (h.ring_length hperm) trivial

theorem accounting_runs : ∃ t, onTickAccounting s = some t ∧ Kept s t := by
  obtain ⟨l, hring, hperm⟩ := h.ring
  refine ⟨_, h.round hring hperm, ?_⟩
  have hfold : ∀ (l : List Ptr) (u : Sched), Kept s u →
      Kept s (l.foldl (fun u p => accountTask s.ticks p u) u) := by
    intro l
    induction l with
    | nil => exact fun u hu => hu
    | cons p l ih => exact fun u hu => ih _ (hu.trans (account_kept _ p u))
  exact hfold l s (Kept.refl s)

end Round

theorem consider_mem {l : List Ptr} : ∀ (cs : List Ptr) (o : Option (Ptr × UInt64)),
    (∀ c ∈ cs, c ∈ l) → (∀ b, o = some b → b.1 ∈ l) →
    ∀ b, cs.foldl (fun o c => consider s c o) o = some b → b.1 ∈ l := by
  intro cs
  induction cs with
  | nil => exact fun o _ ho => ho
  | cons c cs ih =>
    intro o hcs ho
    refine ih _ (fun x hx => hcs x (List.mem_cons_of_mem c hx)) ?_
    have hc : c ∈ l := hcs c List.mem_cons_self
    intro b hb
    unfold consider at hb
    dsimp only at hb
    split at hb
    · cases o with
      | none =>
        cases hb
        exact hc
      | some best =>
        dsimp only at hb
        split at hb
        · cases hb
          exact hc
        · cases hb
          exact ho _ rfl
    · exact ho b hb

theorem run_sound (h : Sound bootstrap s created saved) (hp : p ∈ created)
    (hidle : ∀ q ∈ created, (s.heap q).state ≠ .running) (hrsp : (s.heap s.currentTask).rsp = r) :
    Sound bootstrap (runTask s p).2 created
      (if p = s.currentTask then saved else Function.update saved s.currentTask r) ∧
    (runTask s p).2.currentTask = p ∧ ((runTask s p).2.heap p).state = .running ∧
    (runTask s p).1 = if p = s.currentTask then r else saved p := by
  have hheap : ∀ q, (runTask s p).2.heap q = if q = p then
      { s.heap p with
        state := .running, remainingTicks := (s.heap p).baseTimeslice, waitTicks := 0 }
      else s.heap q := fun q => modify_heap s p q fun t =>
    { t with state := .running, remainingTicks := t.baseTimeslice, waitTicks := 0 }
  have hnext : (runTask s p).2.next = s.next := by
    funext q
    rw [Sched.next, Sched.next, hheap]
    by_cases hq : q = p
    · rw [if_pos hq, hq]
    · rw [if_neg hq]
  have hkeep : ∀ q, ((runTask s p).2.heap q).rsp = (s.heap q).rsp := by
    intro q
    rw [hheap]
    by_cases hq : q = p
    · rw [if_pos hq, hq]
    · rw [if_neg hq]
  refine ⟨⟨h.tcbs, ?_, h.list, h.address, hp, fun q hq hrun => ?_, fun q hq hne => ?_⟩, rfl, ?_, ?_⟩
  · rw [hnext]
    exact h.ring
  · by_contra hqp
    rw [hheap, if_neg (show ¬ q = p from hqp)] at hrun
    exact hidle q hq hrun
  · rw [hkeep]
    by_cases hpc : p = s.currentTask
    · rw [if_pos hpc]
      exact h.saved q hq (hpc ▸ hne)
    · rw [if_neg hpc, Function.update_apply]
      by_cases hqc : q = s.currentTask
      · rw [if_pos hqc, hqc, hrsp]
      · rw [if_neg hqc]
        exact h.saved q hq hqc
  · rw [hheap, if_pos rfl]
  · have hval : (runTask s p).1 = (s.heap p).rsp := hkeep p
    rw [hval]
    by_cases hpc : p = s.currentTask
    · rw [if_pos hpc, hpc, hrsp]
    · rw [if_neg hpc]
      exact h.saved p hp hpc

variable {r : UInt64}

structure Switched (bootstrap : Ptr) (s : Sched) (created : List Ptr) (saved : Ptr → UInt64)
    (oldRsp newRsp : UInt64) (t : Sched) : Prop where
  sound : Sound bootstrap t created
    (if t.currentTask = s.currentTask then saved else Function.update saved s.currentTask oldRsp)
  running : (t.heap t.currentTask).state = .running
  rsp : newRsp = if t.currentTask = s.currentTask then oldRsp else saved t.currentTask

theorem pick_switches (h : Sound bootstrap s created saved)
    (hrsp : (s.heap s.currentTask).rsp = r) :
    ∃ newRsp t, pickNextRsp s = some (newRsp, t) ∧ Switched bootstrap s created saved r newRsp t := by
  obtain ⟨l, hring, hperm⟩ := h.ring
  have hcurrent : s.currentTask ≠ null := h.address _ h.current
  have hlinked : (s.heap s.currentTask).next ≠ null := by
    have hmem := hring.next_mem (hperm.mem_iff.mpr h.current)
    exact h.address _ (hperm.mem_iff.mp hmem)
  -- the task that was running becomes ready
  obtain ⟨u, hu, hku, hidle⟩ : ∃ u, u = (if (s.heap s.currentTask).state = .running then
      s.modify s.currentTask fun t => { t with state := .ready } else s) ∧ Kept s u ∧
      ∀ q ∈ created, (u.heap q).state ≠ .running := by
    refine ⟨_, rfl, ?_, ?_⟩
    · split
      · exact kept_modify s _ (fun _ => rfl) (fun _ => rfl) fun _ h =>
          absurd h (show TaskState.ready ≠ .running by decide)
      · exact Kept.refl s
    · intro q hq hrun
      split at hrun
      · rw [modify_heap] at hrun
        split at hrun
        · cases hrun
        · exact ‹q ≠ s.currentTask› (h.running q hq hrun)
      · exact ‹(s.heap s.currentTask).state ≠ .running› (h.running q hq hrun ▸ hrun)
  have hsu := h.kept hku
  obtain ⟨lu, hringu, hpermu⟩ := hsu.ring
  have hscan := hsu.selection hringu hpermu
  obtain ⟨p, hp, hmem⟩ : ∃ p, p = ((lu.foldl (fun o c => consider u c o) none).map
      Prod.fst).getD u.taskList ∧ p ∈ created := by
    refine ⟨_, rfl, ?_⟩
    cases hsel : lu.foldl (fun o c => consider u c o) none with
    | none => exact hsu.taskList_mem
    | some b =>
      exact hpermu.mem_iff.mp (consider_mem lu none (fun c hc => hc) nofun b hsel)
  have hcur : u.currentTask = s.currentTask := hku.currentTask
  obtain ⟨hsound, hnow, hrun, hval⟩ := run_sound hsu hmem hidle
    (r := r) (by rw [hcur, hku.rsp]; exact hrsp)
  refine ⟨(runTask u p).1, (runTask u p).2, ?_, ⟨?_, ?_, ?_⟩⟩
  · rw [pickNextRsp, if_neg hcurrent, if_neg hlinked]
    dsimp only
    rw [← hu, hscan, Option.map_some, ← hp]
  · rw [hnow, ← hcur]
    exact hsound
  · rw [hnow]
    exact hrun
  · rw [hnow, hval, hcur]

theorem Switched.of_kept {oldRsp newRsp : UInt64} {u : Sched}
    (h : Switched bootstrap u created saved oldRsp newRsp t) (hc : u.currentTask = s.currentTask) :
    Switched bootstrap s created saved oldRsp newRsp t := by
  obtain ⟨hsound, hrun, hrsp⟩ := h
  rw [hc] at hsound hrsp
  exact ⟨hsound, hrun, hrsp⟩

theorem tick_kept (s : Sched) : Kept s (k64PitOnTick s) :=
  ⟨rfl, rfl, rfl, rfl, fun _ => rfl, fun _ => id⟩

theorem save_heap (hc : s.currentTask ≠ null) (oldRsp : UInt64) (q : Ptr) :
    (saveRsp s oldRsp).heap q =
      if q = s.currentTask then { s.heap s.currentTask with rsp := oldRsp } else s.heap q := by
  rw [saveRsp, if_pos hc, modify_heap]

theorem save_sound (h : Sound bootstrap s created saved) (oldRsp : UInt64) :
    Sound bootstrap (saveRsp s oldRsp) created saved := by
  obtain ⟨l, hring, hperm⟩ := h.ring
  have hc : s.currentTask ≠ null := h.address _ h.current
  have hs : saveRsp s oldRsp = s.modify s.currentTask fun t => { t with rsp := oldRsp } := if_pos hc
  have hcur : (saveRsp s oldRsp).currentTask = s.currentTask := by rw [hs]; rfl
  have hlist : (saveRsp s oldRsp).taskList = s.taskList := by rw [hs]; rfl
  refine ⟨by rw [hs]; exact h.tcbs, ⟨l, ?_, hperm⟩, hlist.trans h.list, h.address,
    by rw [hcur]; exact h.current, fun p hp hrun => ?_, fun p hp hne => ?_⟩
  · rw [hlist]
    refine hring.congr fun p _ => ?_
    rw [Sched.next, Sched.next, save_heap hc]
    by_cases hq : p = s.currentTask
    · rw [if_pos hq, hq]
    · rw [if_neg hq]
  · rw [hcur]
    by_contra hne
    rw [save_heap hc, if_neg hne] at hrun
    exact hne (h.running p hp hrun)
  · rw [hcur] at hne
    rw [save_heap hc, if_neg hne]
    exact h.saved p hp hne

theorem timer_switches (h : Sound bootstrap s created saved) (oldRsp : UInt64) :
    ∃ newRsp t, k64SchedHandleTimer s false oldRsp = some (newRsp, t) ∧
      Switched bootstrap s created saved oldRsp newRsp t := by
  have hc : s.currentTask ≠ null := h.address _ h.current
  have hsaved := (save_sound h oldRsp).kept (tick_kept _)
  have hscur : (saveRsp s oldRsp).currentTask = s.currentTask := by
    rw [saveRsp, if_pos hc]
    rfl
  obtain ⟨u, hrun, hk⟩ := accounting_runs hsaved
  have hku := (tick_kept _).trans hk
  have hu := (save_sound h oldRsp).kept hku
  have hcur : u.currentTask = s.currentTask := hku.currentTask.trans hscur
  have hrsp : (u.heap u.currentTask).rsp = oldRsp := by
    rw [hku.rsp, hcur, save_heap hc, if_pos rfl]
  have hne : u.currentTask ≠ null := hcur ▸ hc
  obtain ⟨pickRsp, picked, hpick, hswitch⟩ := pick_switches hu hrsp
  rw [k64SchedHandleTimer, if_neg Bool.false_ne_true, hrun, Option.bind_some]
  by_cases hstate : (u.heap u.currentTask).state = .running
  case neg =>
    rw [if_pos (Or.inr hstate)]
    exact ⟨pickRsp, picked, hpick, hswitch.of_kept hcur⟩
  rw [if_neg (by simp [hne, hstate])]
  by_cases hid : (u.heap u.currentTask).id = 0
  case pos =>
    rw [if_pos hid]
    exact ⟨pickRsp, picked, hpick, hswitch.of_kept hcur⟩
  rw [if_neg hid]
  -- the slice of the current task gets shorter
  obtain ⟨v, hv, hkv, hvrun⟩ : ∃ v, v = (if (u.heap u.currentTask).remainingTicks > 0 then
      u.modify u.currentTask fun t => { t with remainingTicks := t.remainingTicks - 1 } else u) ∧
      Kept u v ∧ (v.heap v.currentTask).state = .running := by
    refine ⟨_, rfl, ?_, ?_⟩
    · split
      · exact kept_modify u _ (fun _ => rfl) (fun _ => rfl) fun _ => id
      · exact Kept.refl u
    · split
      · change ((u.modify u.currentTask _).heap u.currentTask).state = .running
        rw [modify_heap, if_pos rfl]
        exact hstate
      · exact hstate
  have hvs := hu.kept hkv
  have hvcur : v.currentTask = s.currentTask := hkv.currentTask.trans hcur
  have hvrsp : (v.heap v.currentTask).rsp = oldRsp := by
    rw [hkv.rsp, hkv.currentTask, hrsp]
  rw [← hv]
  by_cases hslice : (v.heap v.currentTask).remainingTicks = 0
  · obtain ⟨newRsp, t, hp, hs⟩ := pick_switches hvs hvrsp
    rw [if_pos hslice]
    exact ⟨newRsp, t, hp, hs.of_kept hvcur⟩
  · rw [if_neg hslice]
    refine ⟨_, _, rfl, ?_, hvrun, ?_⟩
    · rw [if_pos hvcur]
      exact hvs
    · rw [if_pos hvcur, hvrsp]

theorem init_sound (s : Sched) (haddr : bootstrap ≠ null) :
    Sound bootstrap (k64SchedInit bootstrap s) [bootstrap] fun _ => 0 := by
  have hnext : (k64SchedInit bootstrap s).next bootstrap = bootstrap := by
    simp [Sched.next, k64SchedInit]
  refine ⟨rfl, ⟨[bootstrap], ⟨rfl, ⟨hnext, trivial⟩, by simp⟩, List.Perm.refl _⟩, rfl,
    ?_, List.mem_singleton.mpr rfl, ?_, ?_⟩
  · intro p hp
    rw [List.mem_singleton.mp hp]
    exact haddr
  · exact fun p hp _ => List.mem_singleton.mp hp
  · exact fun p hp hne => absurd (List.mem_singleton.mp hp) hne

theorem sound_outside (h : Sound bootstrap s created saved) {tcb : Ptr} (hfresh : tcb ∉ created)
    (task : Task) (id : UInt64) (rsp : UInt64) :
    Sound bootstrap { s.modify tcb fun _ => task with nextTaskId := id } created
      (Function.update saved tcb rsp) := by
  obtain ⟨l, hring, hperm⟩ := h.ring
  have hne : ∀ p ∈ created, p ≠ tcb := by
    rintro p hp rfl
    exact hfresh hp
  have hheap : ∀ p ∈ created, (s.modify tcb fun _ => task).heap p = s.heap p := by
    intro p hp
    rw [modify_heap, if_neg (hne p hp)]
  refine ⟨h.tcbs, ⟨l, hring.congr fun p hp => ?_, hperm⟩, h.list, h.address, h.current,
    fun p hp hrun => ?_, fun p hp hc => ?_⟩
  · exact congrArg Task.next (hheap p (hperm.mem_iff.mp hp))
  · exact h.running p hp ((congrArg Task.state (hheap p hp)).symm.trans hrun)
  · rw [Function.update_of_ne (hne p hp)]
    exact (congrArg Task.rsp (hheap p hp)).trans (h.saved p hp hc)

theorem link_sound (h : Sound bootstrap s created saved) {tcb : Ptr} (hfresh : tcb ∉ created)
    (haddr : tcb ≠ null) (hnext : s.next tcb = s.next s.currentTask)
    (hstate : (s.heap tcb).state ≠ .running) (hrsp : (s.heap tcb).rsp = saved tcb) :
    Sound bootstrap (linkTask s tcb) (tcb :: created) saved := by
  obtain ⟨l, hring, hperm⟩ := h.ring
  have hheap : ∀ p, (linkTask s tcb).heap p =
      if p = s.currentTask then { s.heap s.currentTask with next := tcb } else s.heap p :=
    fun p => modify_heap s s.currentTask p fun t => { t with next := tcb }
  have hne : tcb ≠ s.currentTask := fun he => hfresh (he ▸ h.current)
  obtain ⟨l', hring', hperm'⟩ := Ring.insert (linkTask s tcb).next (t := tcb) hring
    (hperm.mem_iff.mpr h.current) (fun ht => hfresh (hperm.mem_iff.mp ht))
    (by rw [Sched.next, hheap, if_neg hne]; exact hnext)
    (by rw [Sched.next, hheap, if_pos rfl])
    (fun p _ hp => by rw [Sched.next, hheap, if_neg hp]; rfl)
  have hkeep : ∀ p, ((linkTask s tcb).heap p).state = (s.heap p).state ∧
      ((linkTask s tcb).heap p).rsp = (s.heap p).rsp := by
    intro p
    rw [hheap]
    by_cases hp : p = s.currentTask
    · rw [if_pos hp, hp]
      exact ⟨rfl, rfl⟩
    · rw [if_neg hp]
      exact ⟨rfl, rfl⟩
  refine ⟨congrArg (tcb :: ·) h.tcbs, ⟨l', hring', hperm'.trans (hperm.cons tcb)⟩, h.list, ?_,
    List.mem_cons_of_mem tcb h.current, fun p hp hrun => ?_, fun p hp hc => ?_⟩
  · intro p hp
    rcases List.mem_cons.mp hp with rfl | hp
    · exact haddr
    · exact h.address p hp
  · rw [(hkeep p).1] at hrun
    rcases List.mem_cons.mp hp with rfl | hp
    · exact absurd hrun hstate
    · exact h.running p hp hrun
  · rw [(hkeep p).2]
    rcases List.mem_cons.mp hp with rfl | hp
    · exact hrsp
    · exact h.saved p hp hc

theorem create_sound (h : Sound bootstrap s created saved) {tcb : Ptr} (hfresh : tcb ∉ created)
    (stack : UInt64) (priority : ℤ) (cr3 : UInt64) :
    Sound bootstrap (k64TaskCreateArg s tcb stack priority cr3).2
      (if (k64TaskCreateArg s tcb stack priority cr3).1 = null then created else tcb :: created)
      (Function.update saved tcb (initialRsp stack)) := by
  have hupdate : ∀ p ∈ created, Function.update saved tcb (initialRsp stack) p = saved p := by
    intro p hp
    apply Function.update_of_ne
    rintro rfl
    exact hfresh hp
  by_cases htcb : tcb = null
  · rw [k64TaskCreateArg, if_pos htcb, if_pos rfl]
    exact ⟨h.tcbs, h.ring, h.list, h.address, h.current, h.running, fun p hp hne =>
      (h.saved p hp hne).trans (hupdate p hp).symm⟩
  have hne : s.currentTask ≠ tcb := fun he => hfresh (he ▸ h.current)
  rw [k64TaskCreateArg, if_neg htcb]
  dsimp only
  by_cases hstack : stack = 0
  · rw [if_pos hstack, if_pos rfl]
    exact sound_outside h hfresh _ _ _
  · rw [if_neg hstack, if_neg htcb]
    refine link_sound (sound_outside h hfresh _ _ _) hfresh htcb ?_ ?_ ?_
    · simp [Sched.next, hne]
    · simp [newTask]
    · simp

theorem reachable_sound (h : Reachable bootstrap s created saved) :
    Sound bootstrap s created saved := by
  induction h with
  | init s address => exact init_sound s address
  | create tcb stack priority cr3 _ fresh ih => exact create_sound ih fresh stack priority cr3
  | @timer s created saved t usermodeActive oldRsp newRsp _ ran ih =>
    cases usermodeActive with
    | false =>
      obtain ⟨r, u, hrun, hswitch⟩ := timer_switches ih oldRsp
      rw [hrun] at ran
      cases ran
      exact hswitch.sound
    | true =>
      rw [k64SchedHandleTimer, if_pos rfl] at ran
      cases ran
      rw [if_pos (tick_kept s).currentTask]
      exact ih.kept (tick_kept s)
  | call c _ ih => exact ih.kept (call_kept _ c)

/-- The ring is a single cycle of the bootstrap task and all created tasks, only the current task
runs, and an interrupt goes on with a running task where that one was left. -/
theorem scheduler_invariant (h : Reachable bootstrap s created saved) :
    (∃ l, Ring s.next bootstrap l ∧ l.Perm created) ∧
    (∀ p ∈ created, (s.heap p).state = .running → p = s.currentTask) ∧
    ∀ oldRsp, ∃ newRsp t, k64SchedHandleTimer s false oldRsp = some (newRsp, t) ∧
      t.currentTask ∈ created ∧ (t.heap t.currentTask).state = .running ∧
      newRsp = if t.currentTask = s.currentTask then oldRsp else saved t.currentTask := by
  have hsound := reachable_sound h
  refine ⟨hsound.list ▸ hsound.ring, hsound.running, fun oldRsp => ?_⟩
  obtain ⟨newRsp, t, hrun, hswitch⟩ := timer_switches hsound oldRsp
  exact ⟨newRsp, t, hrun, hswitch.sound.current, hswitch.running, hswitch.rsp⟩

theorem eq_some_get {α β : Type} {o : Option (α × β)} (h : o.isSome) :
    o = some ((o.get h).1, (o.get h).2) := (Option.some_get h).symm

def emptySched : Sched :=
  ⟨fun _ => ⟨0, 0, 0, 0, 0, .unused, 0, 0, 0, 0, 0, 0⟩, [], 0, 0, 1, 0, 4096⟩

/-- With a second task there is still somebody to run after the first one exits. -/
theorem exited_bootstrap_switches : ∃ newRsp t,
    k64SchedHandleTimer (TaskCall.exitCurrent.run
      (k64TaskCreateArg (k64SchedInit 8 emptySched) 4096 8192 1 0).2) false 77 = some (newRsp, t) ∧
    (t.heap t.currentTask).state = .running := by
  have hreach := (Reachable.create 4096 8192 1 0 (Reachable.init emptySched (show 8 ≠ null by decide))
    (by decide)).call .exitCurrent
  obtain ⟨newRsp, t, hrun, -, hstate, -⟩ := (scheduler_invariant hreach).2.2 77
  exact ⟨newRsp, t, hrun, hstate⟩

end Scheduler
