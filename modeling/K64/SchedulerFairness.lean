import Mathlib.Algebra.Group.Nat.Defs
import K64.SchedulerSteps
import Mathlib.Data.List.Count

/-! # No task starves

A ready task waits while others are picked. Whoever is picked in its place has waited at most
`5 * 1024` ticks less than it, and starts to wait anew: it cannot come before the task a second time.
So the waiting time of a task is bounded by the number of tasks it has overtaken in this way. -/
namespace Scheduler

variable {bootstrap : Ptr} {s t u v : Sched} {created : List Ptr} {saved : Ptr → UInt64} {p q : Ptr}

def Sched.waited (s : Sched) (p : Ptr) : ℕ := (s.heap p).waitTicks.toNat

/-- No priority can bring `q` before `p`. -/
def Sched.behind (s : Sched) (p q : Ptr) : Bool := s.waited q + 5 * 1024 < s.waited p

/-- The number of tasks behind `p`. -/
def Sched.overtaken (s : Sched) (created : List Ptr) (p : Ptr) : ℕ := created.countP (s.behind p)

def Sched.ticksLeft (s : Sched) : ℕ :=
  let t := s.heap s.currentTask
  if t.state = .running ∧ t.id ≠ 0 then max t.remainingTicks.toNat 1 else 1

structure Limited (t : Task) : Prop where
  priority : 0 ≤ t.priority ∧ t.priority ≤ 5
  slice : t.baseTimeslice.toNat ≤ 7
  left : t.remainingTicks.toNat ≤ 7
  blocked : t.state = .blocked → t.waitTicks = 0

def Patient (s : Sched) (created : List Ptr) (p : Ptr) : Prop :=
  s.waited p + s.ticksLeft ≤ 5 * 1024 + 8 + 7 * s.overtaken created p

/-- The waiting times do not wrap around before there are some `2 ^ 61` tasks; from then on the bound
is above all machine words. -/
structure Fair (s : Sched) (created : List Ptr) : Prop where
  limited : ∀ p ∈ created, Limited (s.heap p)
  current : (s.heap s.currentTask).waitTicks = 0
  patient : 5 * 1024 + 8 * created.length < 2 ^ 64 →
    ∀ p ∈ created, (s.heap p).id ≠ 0 → (s.heap p).state = .ready → Patient s created p

theorem overtaken_lt (hp : p ∈ created) : s.overtaken created p < created.length := by
  apply List.countP_lt_length_iff.mpr
  exact ⟨p, hp, by simp [Sched.behind]⟩

theorem ticksLeft_pos (s : Sched) : 1 ≤ s.ticksLeft := by
  unfold Sched.ticksLeft
  dsimp only
  split <;> omega

theorem Patient.waited_le (h : Patient s created p) (hp : p ∈ created) :
    s.waited p ≤ 5 * 1024 + 7 * created.length := by
  have hlt := overtaken_lt (s := s) hp
  have hleft := ticksLeft_pos s
  unfold Patient at h
  omega

theorem score_bounds {t : Task} (h : Limited t) (hsmall : t.waitTicks.toNat + 5 * 1024 < 2 ^ 64) :
    t.waitTicks.toNat ≤ (score t).toNat ∧ (score t).toNat ≤ t.waitTicks.toNat + 5 * 1024 := by
  obtain ⟨hlo, hhi⟩ := h.priority
  have hcases : t.priority = 0 ∨ t.priority = 1 ∨ t.priority = 2 ∨ t.priority = 3 ∨
      t.priority = 4 ∨ t.priority = 5 := by
    omega
  have hscore : ∃ k : UInt64, k.toNat ≤ 5 * 1024 ∧ score t = k + t.waitTicks := by
    refine ⟨_, ?_, rfl⟩
    rcases hcases with h | h | h | h | h | h <;> rw [h] <;> decide
  obtain ⟨k, hk, heq⟩ := hscore
  rw [heq, UInt64.toNat_add, Nat.mod_eq_of_lt (by omega)]
  omega

theorem waited_small (h : Patient s created p) (hp : p ∈ created)
    (hn : 5 * 1024 + 8 * created.length < 2 ^ 64) : s.waited p + 5 * 1024 + 1 < 2 ^ 64 := by
  have hle := h.waited_le hp
  omega

structure Calm (created : List Ptr) (s t : Sched) : Prop where
  currentTask : t.currentTask = s.currentTask
  ids : ∀ p ∈ created, (t.heap p).id = (s.heap p).id
  priority : ∀ p ∈ created, (t.heap p).priority = (s.heap p).priority
  slice : ∀ p ∈ created, (t.heap p).baseTimeslice = (s.heap p).baseTimeslice
  left : ∀ p ∈ created, (t.heap p).remainingTicks.toNat ≤ (s.heap p).remainingTicks.toNat
  waits : ∀ p ∈ created, (t.heap p).waitTicks = (s.heap p).waitTicks
  running : ∀ p ∈ created, (t.heap p).state = .running → (s.heap p).state = .running
  ready : ∀ p ∈ created, (t.heap p).state = .ready →
    (s.heap p).state = .ready ∨ (s.heap p).waitTicks = 0
  blocked : ∀ p ∈ created, (t.heap p).state = .blocked →
    (s.heap p).state = .blocked ∨ (s.heap p).waitTicks = 0

theorem Calm.of_tasks (hc : t.currentTask = s.currentTask)
    (h : ∀ p ∈ created, ∃ next, t.heap p = { s.heap p with next := next }) : Calm created s t := by
  have hview : ∀ P : Task → Task → Prop, (∀ t next, P t { t with next := next }) →
      ∀ p ∈ created, P (s.heap p) (t.heap p) := by
    intro P hP p hp
    obtain ⟨next, heq⟩ := h p hp
    exact heq ▸ hP _ next
  exact ⟨hc, hview (fun t t' => t'.id = t.id) fun _ _ => rfl,
    hview (fun t t' => t'.priority = t.priority) fun _ _ => rfl,
    hview (fun t t' => t'.baseTimeslice = t.baseTimeslice) fun _ _ => rfl,
    hview (fun t t' => t'.remainingTicks.toNat ≤ t.remainingTicks.toNat) fun _ _ => Nat.le_refl _,
    hview (fun t t' => t'.waitTicks = t.waitTicks) fun _ _ => rfl,
    hview (fun t t' => t'.state = .running → t.state = .running) fun _ _ => id,
    hview (fun t t' => t'.state = .ready → t.state = .ready ∨ t.waitTicks = 0) fun _ _ => Or.inl,
    hview (fun t t' => t'.state = .blocked → t.state = .blocked ∨ t.waitTicks = 0)
      fun _ _ => Or.inl⟩

theorem Calm.refl (created : List Ptr) (s : Sched) : Calm created s s :=
  Calm.of_tasks rfl fun _ _ => ⟨_, rfl⟩

theorem calm_modify (s : Sched) (p : Ptr) {f : Task → Task} (hid : ∀ t, (f t).id = t.id)
    (hpriority : ∀ t, (f t).priority = t.priority)
    (hslice : ∀ t, (f t).baseTimeslice = t.baseTimeslice)
    (hleft : ∀ t, (f t).remainingTicks.toNat ≤ t.remainingTicks.toNat)
    (hwaits : ∀ t, (f t).waitTicks = t.waitTicks)
    (hrunning : ∀ t, (f t).state = .running → t.state = .running)
    (hready : p ∈ created → (f (s.heap p)).state = .ready →
      (s.heap p).state = .ready ∨ (s.heap p).waitTicks = 0)
    (hblocked : p ∈ created → (f (s.heap p)).state = .blocked →
      (s.heap p).state = .blocked ∨ (s.heap p).waitTicks = 0) :
    Calm created s (s.modify p f) := by
  have hview : ∀ (P : Ptr → Task → Prop), (p ∈ created → P p (f (s.heap p))) →
      (∀ q, q ≠ p → P q (s.heap q)) → ∀ q ∈ created, P q ((s.modify p f).heap q) := by
    intro P hp hq q hmem
    rw [modify_heap]
    by_cases heq : q = p
    · subst heq
      rw [if_pos rfl]
      exact hp hmem
    · rw [if_neg heq]
      exact hq q heq
  refine ⟨rfl, ?_, ?_, ?_, ?_, ?_, ?_, ?_, ?_⟩
  · exact hview (fun q t => t.id = (s.heap q).id) (fun _ => hid _) fun _ _ => rfl
  · exact hview (fun q t => t.priority = (s.heap q).priority) (fun _ => hpriority _) fun _ _ => rfl
  · exact hview (fun q t => t.baseTimeslice = (s.heap q).baseTimeslice) (fun _ => hslice _) fun _ _ => rfl
  · exact hview (fun q t => t.remainingTicks.toNat ≤ (s.heap q).remainingTicks.toNat) (fun _ => hleft _)
      fun _ _ => Nat.le_refl _
  · exact hview (fun q t => t.waitTicks = (s.heap q).waitTicks) (fun _ => hwaits _) fun _ _ => rfl
  · exact hview (fun q t => t.state = .running → (s.heap q).state = .running) (fun _ => hrunning _)
      fun _ _ => id
  · exact hview (fun q t => t.state = .ready → (s.heap q).state = .ready ∨
      (s.heap q).waitTicks = 0) hready fun _ _ => Or.inl
  · exact hview (fun q t => t.state = .blocked → (s.heap q).state = .blocked ∨
      (s.heap q).waitTicks = 0) hblocked fun _ _ => Or.inl

theorem Calm.ticksLeft_le (h : Calm created s t) (hc : s.currentTask ∈ created) :
    t.ticksLeft ≤ s.ticksLeft := by
  unfold Sched.ticksLeft
  dsimp only
  rw [h.currentTask, h.ids _ hc]
  have hleft := h.left _ hc
  by_cases hrun : (t.heap s.currentTask).state = .running ∧ (s.heap s.currentTask).id ≠ 0
  · rw [if_pos hrun, if_pos ⟨h.running _ hc hrun.1, hrun.2⟩]
    omega
  · rw [if_neg hrun]
    split <;> omega

theorem ticksLeft_le (h : ∀ p ∈ created, Limited (s.heap p)) (hc : s.currentTask ∈ created) :
    s.ticksLeft ≤ 7 := by
  have hleft := (h _ hc).left
  unfold Sched.ticksLeft
  dsimp only
  split <;> omega

theorem patient_of_short (hleft : s.ticksLeft ≤ 7) (h : s.waited p ≤ 5 * 1024 + 1) :
    Patient s created p := by
  unfold Patient
  omega

theorem Fair.calm (h : Fair s created) (hc : s.currentTask ∈ created) (hcalm : Calm created s t) :
    Fair t created := by
  have hlimited : ∀ p ∈ created, Limited (t.heap p) := by
    intro p hp
    obtain ⟨hpriority, hslice, hleft, hblocked⟩ := h.limited p hp
    refine ⟨hcalm.priority p hp ▸ hpriority, hcalm.slice p hp ▸ hslice,
      Nat.le_trans (hcalm.left p hp) hleft, fun hb => ?_⟩
    rw [hcalm.waits p hp]
    exact (hcalm.blocked p hp hb).elim hblocked id
  refine ⟨hlimited, ?_, fun hn p hp hid hready => ?_⟩
  · rw [hcalm.currentTask, hcalm.waits _ hc]
    exact h.current
  · have hwaited : ∀ q ∈ created, t.waited q = s.waited q := fun q hq =>
      congrArg UInt64.toNat (hcalm.waits q hq)
    rcases hcalm.ready p hp hready with hr | hw
    · have hpatient := h.patient hn p hp (hcalm.ids p hp ▸ hid) hr
      have hover : t.overtaken created p = s.overtaken created p := by
        apply List.countP_congr
        intro q hq
        simp only [Sched.behind, hwaited q hq, hwaited p hp]
      have hleft := hcalm.ticksLeft_le hc
      unfold Patient at hpatient ⊢
      rw [hover, hwaited p hp]
      omega
    · apply patient_of_short (ticksLeft_le hlimited (hcalm.currentTask ▸ hc))
      rw [hwaited p hp, Sched.waited, hw]
      decide

theorem call_calm (h : Fair s created) (c : TaskCall) :
    Calm created s (c.run s) := by
  have hzero : ∀ t : Task, (0 : UInt32).toNat ≤ t.remainingTicks.toNat := fun _ => Nat.zero_le _
  have hle : ∀ t : Task, t.remainingTicks.toNat ≤ t.remainingTicks.toNat := fun _ => Nat.le_refl _
  cases c with
  | exitCurrent =>
    rw [TaskCall.run, k64TaskExitCurrent]
    split
    · exact calm_modify s _ (fun _ => rfl) (fun _ => rfl) (fun _ => rfl) hle (fun _ => rfl) (by rintro _ ⟨⟩)
        (by rintro _ ⟨⟩) (by rintro _ ⟨⟩)
    · exact Calm.refl created s
  | yield =>
    rw [TaskCall.run, k64SchedYield]
    split
    · exact calm_modify s _ (fun _ => rfl) (fun _ => rfl) (fun _ => rfl) hzero (fun _ => rfl)
        (fun _ hr => hr) (fun _ => Or.inl) fun _ => Or.inl
    · exact Calm.refl created s
  | sleep ticks =>
    rw [TaskCall.run, k64SchedSleep]
    split
    · exact Calm.refl created s
    · exact calm_modify s _ (fun _ => rfl) (fun _ => rfl) (fun _ => rfl) hzero (fun _ => rfl)
        (by rintro _ ⟨⟩) (by rintro _ ⟨⟩) fun _ _ => Or.inr h.current
  | blockCurrent =>
    rw [TaskCall.run, k64SchedBlockCurrent]
    split
    · exact Calm.refl created s
    · exact calm_modify s _ (fun _ => rfl) (fun _ => rfl) (fun _ => rfl) hzero (fun _ => rfl)
        (by rintro _ ⟨⟩) (by rintro _ ⟨⟩) fun _ _ => Or.inr h.current
  | wakeTask task =>
    rw [TaskCall.run, k64SchedWakeTask]
    split
    · exact Calm.refl created s
    · rename_i hblocked
      obtain ⟨-, hblocked⟩ := not_or.mp hblocked
      exact calm_modify s _ (fun _ => rfl) (fun _ => rfl) (fun _ => rfl) hle (fun _ => rfl) (by rintro _ ⟨⟩)
        (fun hp _ => Or.inr ((h.limited task hp).blocked (not_not.mp hblocked))) (by rintro _ ⟨⟩)
  | stop task =>
    rw [TaskCall.run, k64TaskStop]
    split
    · exact Calm.refl created s
    · exact calm_modify s _ (fun _ => rfl) (fun _ => rfl) (fun _ => rfl) hzero (fun _ => rfl)
        (by rintro _ ⟨⟩) (by rintro _ ⟨⟩) (by rintro _ ⟨⟩)

structure Aged (t t' : Task) : Prop where
  ids : t'.id = t.id
  priority : t'.priority = t.priority
  slice : t'.baseTimeslice = t.baseTimeslice
  left : t'.remainingTicks = t.remainingTicks
  state : t'.state = t.state ∨ t.state = .blocked ∧ t'.state = .ready
  waits : t'.waitTicks = if t'.state = .ready then t.waitTicks + 1 else t.waitTicks

theorem accounted_aged (now : UInt64) (c : Bool) (t : Task) : Aged t (accounted now c t) := by
  unfold accounted woken
  by_cases hwake : t.state = .blocked ∧ t.sleepUntilTick ≠ 0 ∧ t.sleepUntilTick ≤ now
  · rw [if_pos hwake]
    constructor <;> simp [hwake.1]
  · rw [if_neg hwake]
    dsimp only
    by_cases hrun : c = true ∧ t.state = .running
    · rw [if_pos hrun]
      constructor <;> simp [hrun.2]
    · rw [if_neg hrun]
      by_cases hready : t.state = .ready
      · rw [if_pos hready]
        constructor <;> simp [hready]
      · rw [if_neg hready]
        constructor <;> simp [hready]

theorem Ticked.aged (h : Ticked created s u) (hp : p ∈ created) : Aged (s.heap p) (u.heap p) := by
  obtain ⟨rsp, heq⟩ := h.tasks p hp
  rw [heq]
  obtain ⟨h1, h2, h3, h4, h5, h6⟩ := accounted_aged u.ticks (p == s.currentTask)
    { s.heap p with rsp := rsp }
  exact ⟨h1, h2, h3, h4, h5, h6⟩

theorem Aged.running_iff {t t' : Task} (h : Aged t t') :
    t'.state = .running ↔ t.state = .running := by
  rcases h.state with heq | ⟨hb, hr⟩
  · rw [heq]
  · rw [hb, hr]
    decide

theorem Aged.limited {t t' : Task} (h : Aged t t') (hl : Limited t) : Limited t' := by
  refine ⟨h.priority ▸ hl.priority, h.slice ▸ hl.slice, h.left ▸ hl.left, fun hb => ?_⟩
  rw [h.waits, if_neg (by rw [hb]; decide)]
  rcases h.state with heq | ⟨-, hr⟩
  · exact hl.blocked (heq ▸ hb)
  · rw [hb] at hr
    cases hr

theorem Ticked.ticksLeft (h : Ticked created s u) (hc : s.currentTask ∈ created) :
    u.ticksLeft = s.ticksLeft := by
  have haged := h.aged hc
  unfold Sched.ticksLeft
  dsimp only
  rw [h.currentTask, haged.ids, haged.left]
  simp only [haged.running_iff]

theorem Ticked.waited_le (h : Ticked created s u) (hq : q ∈ created) :
    u.waited q ≤ s.waited q + 1 := by
  unfold Sched.waited
  rw [(h.aged hq).waits]
  split
  · rw [UInt64.toNat_add]
    exact Nat.mod_le _ _
  · exact Nat.le_succ _

theorem Ticked.patient (h : Ticked created s u) (hfair : Fair s created)
    (hc : s.currentTask ∈ created) (hn : 5 * 1024 + 8 * created.length < 2 ^ 64)
    (hp : p ∈ created) (hid : (u.heap p).id ≠ 0) (hready : (u.heap p).state = .ready) :
    u.waited p + u.ticksLeft ≤ 5 * 1024 + 8 + 7 * u.overtaken created p + 1 := by
  have haged := h.aged hp
  have hwaits : (u.heap p).waitTicks = (s.heap p).waitTicks + 1 := by
    rw [haged.waits, if_pos hready]
  rcases haged.state with heq | ⟨hblocked, -⟩
  · have hpatient := hfair.patient hn p hp (haged.ids ▸ hid) (heq ▸ hready)
    have hsmall := waited_small hpatient hp hn
    have hone : u.waited p = s.waited p + 1 := by
      unfold Sched.waited at hsmall ⊢
      rw [hwaits, UInt64.toNat_add]
      exact Nat.mod_eq_of_lt (by simp; omega)
    have hover : s.overtaken created p ≤ u.overtaken created p := by
      apply List.countP_mono_left
      intro q hq hbehind
      have hle := h.waited_le hq
      simp only [Sched.behind, decide_eq_true_eq] at hbehind ⊢
      omega
    unfold Patient at hpatient
    rw [h.ticksLeft hc, hone]
    omega
  · have hzero := (hfair.limited p hp).blocked hblocked
    have hone : u.waited p = 1 := by
      unfold Sched.waited
      rw [hwaits, hzero]
      rfl
    have hleft := ticksLeft_le hfair.limited hc
    rw [h.ticksLeft hc, hone]
    omega

theorem limited_sliced {t : Task} (h : Limited t) : Limited (sliced t) := by
  unfold sliced
  split
  · have hlt : (0 : UInt32) < t.remainingTicks := ‹_›
    refine ⟨h.priority, h.slice, ?_, h.blocked⟩
    have hle : (t.remainingTicks - 1).toNat ≤ t.remainingTicks.toNat := by
      rw [UInt32.lt_iff_toNat_lt] at hlt
      have hone : (1 : UInt32) ≤ t.remainingTicks := by
        rw [UInt32.le_iff_toNat_le]
        exact hlt
      rw [UInt32.toNat_sub_of_le _ _ hone]
      exact Nat.sub_le _ _
    exact Nat.le_trans hle h.left
  · exact h

theorem countP_lt {P Q : Ptr → Bool} {l : List Ptr} (h : ∀ x ∈ l, P x → Q x) (hq : q ∈ l)
    (hP : ¬ P q) (hQ : Q q) : l.countP P < l.countP Q := by
  obtain ⟨pre, post, rfl⟩ := List.append_of_mem hq
  have hpre : pre.countP P ≤ pre.countP Q :=
    List.countP_mono_left fun x hx => h x (List.mem_append_left _ hx)
  have hpost : post.countP P ≤ post.countP Q :=
    List.countP_mono_left fun x hx =>
      h x (List.mem_append_right _ (List.mem_cons_of_mem q hx))
  rw [List.countP_append, List.countP_append, List.countP_cons_of_neg hP, List.countP_cons_of_pos hQ]
  omega

theorem Picks.waited (h : Picks created v t q) (hpq : p ≠ q) : t.waited p = v.waited p := by
  unfold Sched.waited
  rw [h.others p hpq]
  split <;> rfl

theorem Picks.limited (h : Picks created v t q) (hl : ∀ p ∈ created, Limited (v.heap p)) :
    ∀ p ∈ created, Limited (t.heap p) := by
  intro p hp
  have hlp := hl p hp
  by_cases hpq : p = q
  · subst hpq
    rw [h.selected]
    exact ⟨hlp.priority, hlp.slice, hlp.slice, nofun⟩
  · rw [h.others p hpq]
    split
    · exact ⟨hlp.priority, hlp.slice, hlp.left, nofun⟩
    · exact hlp

theorem Picks.overtaken (h : Picks created v t q) (hl : ∀ p ∈ created, Limited (v.heap p))
    (hsmall : ∀ p ∈ created, Candidate v p → v.waited p + 5 * 1024 < 2 ^ 64) (hp : p ∈ created)
    (hpq : p ≠ q) (hcand : Candidate v p) (hlong : 5 * 1024 < v.waited p) :
    v.overtaken created p < t.overtaken created p := by
  have hzero : t.waited q = 0 := by
    unfold Sched.waited
    rw [h.selected]
    rfl
  obtain ⟨hq, hmax⟩ | ⟨-, hnone⟩ := h.choice
  case inr => exact absurd hcand (hnone p hp)
  have hpscore := (score_bounds (hl p hp) (hsmall p hp hcand)).1
  have hqscore := (score_bounds (hl q h.mem) (hsmall q h.mem hq)).2
  have hle := UInt64.le_iff_toNat_le.mp (hmax p hp hcand)
  have hpt := h.waited hpq
  apply countP_lt (q := q) _ h.mem
  · rw [Sched.behind, decide_eq_true_eq]
    unfold Sched.waited
    omega
  · rw [Sched.behind, decide_eq_true_eq]
    omega
  · intro x _ hx
    simp only [Sched.behind, decide_eq_true_eq] at hx ⊢
    by_cases hxq : x = q
    · rw [hxq]
      omega
    · rw [h.waited hxq]
      omega

theorem Picks.fair (h : Picks created v t q) (hl : ∀ p ∈ created, Limited (v.heap p))
    (hwait : 5 * 1024 + 8 * created.length < 2 ^ 64 → ∀ p ∈ created, Candidate v p →
      v.waited p ≤ 5 * 1024 + 8 + 7 * v.overtaken created p) :
    Fair t created := by
  have hlimited := h.limited hl
  have hcurrent : t.currentTask ∈ created := h.currentTask ▸ h.mem
  have hleft := ticksLeft_le hlimited hcurrent
  refine ⟨hlimited, ?_, fun hn p hp hid hready => ?_⟩
  · rw [h.currentTask, h.selected]
  have hpq : p ≠ q := by
    rintro rfl
    rw [h.selected] at hready
    cases hready
  by_cases hlong : v.waited p ≤ 5 * 1024
  · exact patient_of_short hleft (h.waited hpq ▸ Nat.le_succ_of_le hlong)
  have hcand : Candidate v p := by
    rw [h.others p hpq] at hid hready
    split at hready
    · rw [if_pos ‹_›] at hid
      exact ⟨hid, Or.inr ‹_›⟩
    · rw [if_neg ‹_›] at hid
      exact ⟨hid, Or.inl hready⟩
  have hsmall : ∀ p ∈ created, Candidate v p → v.waited p + 5 * 1024 < 2 ^ 64 := by
    intro p hp hcand
    have hle := hwait hn p hp hcand
    have hlt := overtaken_lt (s := v) hp
    omega
  have hover := h.overtaken hl hsmall hp hpq hcand (Nat.lt_of_not_le hlong)
  have hle := hwait hn p hp hcand
  unfold Patient
  rw [h.waited hpq]
  omega

theorem sliced_task (t : Task) : (sliced t).id = t.id ∧ (sliced t).state = t.state ∧
    (sliced t).waitTicks = t.waitTicks := by
  unfold sliced
  split <;> exact ⟨rfl, rfl, rfl⟩

theorem sliced_left {t : Task} : (sliced t).remainingTicks.toNat = t.remainingTicks.toNat - 1 := by
  unfold sliced
  split
  · have hpos : (0 : UInt32).toNat < t.remainingTicks.toNat := UInt32.lt_iff_toNat_lt.mp ‹_›
    have hone : (1 : UInt32) ≤ t.remainingTicks := UInt32.le_iff_toNat_le.mpr hpos
    exact UInt32.toNat_sub_of_le _ _ hone
  · have hzero : ¬ (0 : UInt32).toNat < t.remainingTicks.toNat := fun h =>
      ‹¬ _› (UInt32.lt_iff_toNat_lt.mpr h)
    change ¬ 0 < _ at hzero
    omega

theorem sliced_view (u : Sched) (p : Ptr) :
    ((u.modify u.currentTask sliced).heap p).id = (u.heap p).id ∧
    ((u.modify u.currentTask sliced).heap p).state = (u.heap p).state ∧
    (u.modify u.currentTask sliced).waited p = u.waited p := by
  unfold Sched.waited
  rw [modify_heap]
  obtain ⟨hid, hstate, hwaits⟩ := sliced_task (u.heap u.currentTask)
  by_cases hp : p = u.currentTask
  · rw [if_pos hp, hp]
    exact ⟨hid, hstate, congrArg UInt64.toNat hwaits⟩
  · rw [if_neg hp]
    exact ⟨rfl, rfl, rfl⟩

theorem sliced_overtaken (u : Sched) (p : Ptr) :
    (u.modify u.currentTask sliced).overtaken created p = u.overtaken created p := by
  apply List.countP_congr
  intro q _
  simp only [Sched.behind, (sliced_view u _).2.2]

theorem limited_sliced_state (hl : ∀ p ∈ created, Limited (u.heap p)) :
    ∀ p ∈ created, Limited ((u.modify u.currentTask sliced).heap p) := by
  intro p hp
  rw [modify_heap]
  split
  · exact limited_sliced (‹p = _› ▸ hl p hp)
  · exact hl p hp

theorem timer_fair (h : Sound bootstrap s created saved) (hfair : Fair s created)
    {oldRsp newRsp : UInt64} (ran : k64SchedHandleTimer s false oldRsp = some (newRsp, t)) :
    Fair t created := by
  obtain ⟨u, hticked, hdecides⟩ := timer_cases h ran
  have hcu : u.currentTask ∈ created := hticked.currentTask ▸ h.current
  have hlimited : ∀ p ∈ created, Limited (u.heap p) := fun p hp =>
    (hticked.aged hp).limited (hfair.limited p hp)
  have hrunning : (u.heap u.currentTask).state = .running →
      (u.heap u.currentTask).waitTicks = 0 := by
    intro hr
    rw [(hticked.aged hcu).waits, if_neg (by rw [hr]; decide), hticked.currentTask]
    exact hfair.current
  have hwait : u.ticksLeft = 1 → 5 * 1024 + 8 * created.length < 2 ^ 64 → ∀ p ∈ created,
      Candidate u p → u.waited p ≤ 5 * 1024 + 8 + 7 * u.overtaken created p := by
    rintro hone hn p hp ⟨hid, hready | ⟨rfl, hrun⟩⟩
    · have hpatient := hticked.patient hfair h.current hn hp hid hready
      omega
    · unfold Sched.waited
      rw [hrunning hrun]
      exact Nat.zero_le _
  cases hdecides with
  | goesOn running ordinary left after =>
    subst after
    have hleft : (u.modify u.currentTask sliced).ticksLeft + 1 = u.ticksLeft := by
      obtain ⟨hid, hstate, -⟩ := sliced_task (u.heap u.currentTask)
      have hone : (sliced (u.heap u.currentTask)).remainingTicks.toNat ≠ 0 := fun h =>
        left (UInt32.toNat_inj.mp h)
      have hnew : (u.modify u.currentTask sliced).heap
          (u.modify u.currentTask sliced).currentTask = sliced (u.heap u.currentTask) := by
        simp
      unfold Sched.ticksLeft
      dsimp only
      rw [hnew, hid, hstate, if_pos ⟨running, ordinary⟩, if_pos ⟨running, ordinary⟩]
      rw [sliced_left] at hone ⊢
      omega
    refine ⟨limited_sliced_state hlimited, ?_, fun hn p hp hid hready => ?_⟩
    · rw [modify_heap, modify_currentTask, if_pos rfl, (sliced_task _).2.2]
      exact hrunning running
    · obtain ⟨hid', hstate', hwaited'⟩ := sliced_view u p
      have hpatient := hticked.patient hfair h.current hn hp (hid' ▸ hid) (hstate' ▸ hready)
      unfold Patient
      rw [hwaited', sliced_overtaken]
      omega
  | selects v q picks before =>
    rcases before with ⟨rfl, hstop⟩ | ⟨rfl, hzero⟩
    · apply picks.fair hlimited
      apply hwait
      unfold Sched.ticksLeft
      dsimp only
      rw [if_neg]
      rintro ⟨hr, hid⟩
      exact hstop.elim (fun hne => hne hr) hid
    · apply picks.fair (limited_sliced_state hlimited)
      intro hn p hp hcand
      have hone : u.ticksLeft = 1 := by
        have hleft := congrArg UInt32.toNat hzero
        rw [sliced_left] at hleft
        change _ = 0 at hleft
        unfold Sched.ticksLeft
        dsimp only
        split <;> omega
      rw [(sliced_view u p).2.2, sliced_overtaken]
      apply hwait hone hn p hp
      obtain ⟨hid', hstate', -⟩ := sliced_view u p
      rw [Candidate, hid', hstate', modify_currentTask] at hcand
      exact hcand

theorem init_fair (s : Sched) : Fair (k64SchedInit bootstrap s) [bootstrap] := by
  have hheap : (k64SchedInit bootstrap s).heap bootstrap = {
      id := 0, rsp := 0, cr3 := s.cr3, sleepUntilTick := 0, stackFrame := 0, state := .running,
      priority := 0, baseTimeslice := 2, remainingTicks := 2, runtimeTicks := 0, waitTicks := 0,
      next := bootstrap } := by
    simp [k64SchedInit]
  refine ⟨fun p hp => ?_, ?_, fun _ p hp hid => ?_⟩
  · rw [List.mem_singleton.mp hp, hheap]
    exact ⟨⟨Int.le_refl 0, Int.natCast_nonneg 5⟩, Nat.le_add_right 2 5, Nat.le_add_right 2 5, by rintro ⟨⟩⟩
  · change ((k64SchedInit bootstrap s).heap bootstrap).waitTicks = 0
    rw [hheap]
  · rw [List.mem_singleton.mp hp, hheap] at hid
    exact absurd rfl hid

theorem newTask_limited (s : Sched) (priority : ℤ) (cr3 : UInt64) :
    Limited (newTask s priority cr3) := by
  have hclamp : ∀ priority, 0 ≤ clampPriority priority ∧ clampPriority priority ≤ 5 := by
    intro priority
    unfold clampPriority maxPriority
    dsimp only
    split <;> split <;> omega
  have hslice : (timesliceForPriority (clampPriority priority)).toNat ≤ 7 := by
    obtain ⟨hlo, hhi⟩ := hclamp (clampPriority priority)
    have hcases : clampPriority (clampPriority priority) = 0 ∨
        clampPriority (clampPriority priority) = 1 ∨ clampPriority (clampPriority priority) = 2 ∨
        clampPriority (clampPriority priority) = 3 ∨ clampPriority (clampPriority priority) = 4 ∨
        clampPriority (clampPriority priority) = 5 := by
      omega
    unfold timesliceForPriority
    rcases hcases with h | h | h | h | h | h <;> rw [h] <;> decide
  exact ⟨hclamp priority, hslice, hslice, nofun⟩

theorem create_fair (h : Sound bootstrap s created saved) (hfair : Fair s created) {tcb : Ptr}
    (hfresh : tcb ∉ created) (stack : UInt64) (priority : ℤ) (cr3 : UInt64) :
    Fair (k64TaskCreateArg s tcb stack priority cr3).2
      (if (k64TaskCreateArg s tcb stack priority cr3).1 = null then created
        else tcb :: created) := by
  have hne : ∀ p ∈ created, p ≠ tcb := by
    rintro p hp rfl
    exact hfresh hp
  by_cases htcb : tcb = null
  · rw [k64TaskCreateArg, if_pos htcb, if_pos rfl]
    exact hfair
  rw [k64TaskCreateArg, if_neg htcb]
  dsimp only
  by_cases hstack : stack = 0
  · rw [if_pos hstack, if_pos rfl]
    refine hfair.calm h.current (Calm.of_tasks rfl fun p hp => ⟨(s.heap p).next, ?_⟩)
    dsimp only
    rw [modify_heap, if_neg (hne p hp)]
  rw [if_neg hstack, if_neg htcb]
  dsimp only
  generalize ht : linkTask _ tcb = t
  have hcurrent : t.currentTask = s.currentTask := ht ▸ rfl
  have hold : ∀ p ∈ created, ∃ next, t.heap p = { s.heap p with next := next } := by
    intro p hp
    subst ht
    simp only [linkTask, modify_heap, modify_currentTask, if_neg (hne _ h.current)]
    by_cases hpc : p = s.currentTask
    · rw [if_pos hpc, hpc]
      exact ⟨tcb, rfl⟩
    · rw [if_neg hpc, if_neg (hne p hp)]
      exact ⟨_, rfl⟩
  have hnew : ∃ rsp stack next, t.heap tcb =
      { newTask s priority cr3 with rsp := rsp, stackFrame := stack, next := next } := by
    subst ht
    refine ⟨initialRsp stack, stack, (s.heap s.currentTask).next, ?_⟩
    simp only [linkTask, modify_heap, modify_currentTask, if_neg (hne _ h.current).symm, if_true]
  obtain ⟨rsp, frame, next, hnew⟩ := hnew
  have hcalm := hfair.calm h.current (Calm.of_tasks hcurrent hold)
  have hlimited : Limited (t.heap tcb) := by
    obtain ⟨hp, hs, hl, hb⟩ := newTask_limited s priority cr3
    rw [hnew]
    exact ⟨hp, hs, hl, hb⟩
  refine ⟨List.forall_mem_cons.mpr ⟨hlimited, hcalm.limited⟩, hcalm.current, fun hn => ?_⟩
  rw [List.length_cons] at hn
  refine List.forall_mem_cons.mpr ⟨fun _ _ => ?_, fun p hp hid hready => ?_⟩
  · apply patient_of_short (ticksLeft_le hcalm.limited (hcurrent ▸ h.current))
    have hzero : t.waited tcb = 0 := by
      unfold Sched.waited
      rw [hnew]
      rfl
    omega
  · have hpatient := hcalm.patient (by omega) p hp hid hready
    have hle : t.overtaken created p ≤ t.overtaken (tcb :: created) p := by
      unfold Sched.overtaken
      rw [List.countP_cons]
      exact Nat.le_add_right _ _
    unfold Patient at hpatient ⊢
    omega

theorem reachable_fair (h : Reachable bootstrap s created saved) : Fair s created := by
  induction h with
  | init s _ => exact init_fair s
  | create tcb stack priority cr3 h fresh ih =>
    exact create_fair (reachable_sound h) ih fresh stack priority cr3
  | @timer s created saved t usermodeActive oldRsp newRsp h ran ih =>
    cases usermodeActive with
    | false => exact timer_fair (reachable_sound h) ih ran
    | true =>
      rw [k64SchedHandleTimer, if_pos rfl] at ran
      cases ran
      exact ih.calm (reachable_sound h).current (Calm.of_tasks rfl fun _ _ => ⟨_, rfl⟩)
  | call c h ih => exact ih.calm (reachable_sound h).current (call_calm ih c)

/-- With `n` tasks besides the bootstrap task, which is the one with the number 0, a ready task waits
for no more than `5 * 1024 + 8 * (n + 1)` ticks. -/
theorem no_task_starves {n : ℕ} (h : Reachable bootstrap s created saved)
    (hn : created.length = n + 1) (hp : p ∈ created) (hid : (s.heap p).id ≠ 0)
    (hready : (s.heap p).state = .ready) :
    (s.heap p).waitTicks.toNat ≤ 5 * 1024 + 8 * (n + 1) := by
  have hfair := reachable_fair h
  by_cases hlarge : 5 * 1024 + 8 * created.length < 2 ^ 64
  · have hle := (hfair.patient hlarge p hp hid hready).waited_le hp
    unfold Sched.waited at hle
    omega
  · have hlt := (s.heap p).waitTicks.toNat_lt
    omega

/-- The bootstrap task at 8 with tasks at 4096 and 12288. -/
def twoTasks : Sched :=
  (k64TaskCreateArg (k64TaskCreateArg (k64SchedInit 8 emptySched) 4096 8192 1 0).2 12288 16384 1 0).2

theorem twoTasks_ticks : (k64SchedHandleTimer twoTasks false 77).isSome := by decide +kernel

def tickedTasks : Sched := ((k64SchedHandleTimer twoTasks false 77).get twoTasks_ticks).2

theorem tickedTasks_ticks : (k64SchedHandleTimer tickedTasks false 78).isSome := by decide +kernel

def waitingTasks : Sched := ((k64SchedHandleTimer tickedTasks false 78).get tickedTasks_ticks).2

/-- Two ticks while the other task runs. -/
theorem ready_task_waits : (waitingTasks.heap 4096).waitTicks = 2 ∧
    (waitingTasks.heap 4096).waitTicks.toNat ≤ 5 * 1024 + 8 * (2 + 1) := by
  have hreach : Reachable 8 waitingTasks [12288, 4096, 8] _ :=
    (((Reachable.create 12288 16384 1 0 (.create 4096 8192 1 0
      (.init emptySched (show 8 ≠ null by decide)) (by decide)) (by decide)).timer false 77 _
        (eq_some_get twoTasks_ticks)).timer false 78 _ (eq_some_get tickedTasks_ticks))
  exact ⟨by decide +kernel,
    no_task_starves hreach rfl (by decide) (by decide +kernel) (by decide +kernel)⟩

end Scheduler
