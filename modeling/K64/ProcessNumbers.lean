import K64.ProcessTable

/-! # Numbers of processes

Numbers grow, so that no number is given twice while they last, and a program in progress is never
entered again: all that run above it are younger. -/
namespace UserMode

variable {m t : Machine} {e : ProgramEvent} {r : Run} {rest : List Run} {s u : State} {i j k : ℕ}

/-- What happened to the processes, by number: the parent when the number was drawn, the code that the
process ended with, and whether a `proc.wait` has returned it. -/
structure Record where
  parent : UInt64 → Option UInt64
  ended : UInt64 → Option ℤ
  collected : UInt64 → Bool

def Record.empty : Record := ⟨fun _ => none, fun _ => none, fun _ => false⟩

/-- The image of the child that an event is to run, the child and its parent. -/
def childOf (m : Machine) : ProgramEvent → Option (Image × UInt64 × UInt64)
  | .yield x => (readyCtx m (currentProcessPid m.user)).map fun k =>
      (x, (m.spawnCtx k).pid, (m.spawnCtx k).parentPid)
  | .poll x =>
    if m.active then none
    else (readyCtx m 0).map fun k => (x, (m.spawnCtx k).pid, (m.spawnCtx k).parentPid)
  | .wait x target flags =>
    if flags = waitBlock then
      match processFindPid m.user target with
      | some i =>
        if (m.user.processTable i).parentPid = currentProcessPid m.user ∧
            (m.user.processTable i).state = .running then
          some (x, (m.user.processTable i).pid, currentProcessPid m.user)
        else none
      | none => none
    else none
  | _ => none

/-- The child is queued, and cannot be entered. -/
def loadFails (m : Machine) (x : Image) (pid parentPid : UInt64) : Bool :=
  match findSpawnCtx m pid with
  | none => false
  | some k => (m.spawnCtx k).parentPid == parentPid &&
      (!x.loads || decide (m.elfContextDepth ≥ elfContextMax))

/-- The number that is drawn in a step, and the parent that is recorded with it. -/
def drawnBy (m : Machine) : ProgramEvent → Option (UInt64 × UInt64)
  | .start x path =>
    if (elfExecute m x path 0 0 .shell m.activeCtx m.rsp0).1 = none then
      some (m.user.nextUserPid, 0)
    else none
  | .host x path =>
    if (elfExecute (beginNested m) x path 0 0 .host m.activeCtx m.rsp0).1 = none then
      some (m.user.nextUserPid, 0)
    else none
  | .spawn path args =>
    if (queueSpawn m path args).1 = errFull then none
    else some (m.user.nextUserPid, currentProcessPid m.user)
  | _ => none

/-- The process that ends in a step, with its code: the program in ring 3, by exit or fault, or a
child that cannot be entered. -/
def endedBy (m : Machine) : ProgramEvent → Option (UInt64 × ℤ)
  | .terminate _ code => m.runs.head?.map fun r => ((m.user.processTable r.index).pid, code)
  | e => (childOf m e).bind fun c => if loadFails m c.1 c.2.1 c.2.2 then some (c.2.1, errNoent)
      else none

/-- The number that is waited for by the `proc.wait` that returns if one does. -/
def waitTarget (m : Machine) : ProgramEvent → Option UInt64
  | .wait _ target _ => some target
  | .terminate .. => m.runs.head?.bind fun r =>
    match r.purpose with
    | .wait target => some target
    | _ => none
  | _ => none

def collectedBy (m : Machine) (e : ProgramEvent) : Option UInt64 :=
  match waitTarget m e, (stepProgram m e).1 with
  | some target, some answer => if answer.status = 0 then some target else none
  | _, _ => none

def Record.draw (g : Record) : Option (UInt64 × UInt64) → Record
  | some (pid, parentPid) => { g with parent := Function.update g.parent pid (some parentPid) }
  | none => g

def Record.finish (g : Record) : Option (UInt64 × ℤ) → Record
  | some (pid, code) => { g with ended := Function.update g.ended pid (some code) }
  | none => g

def Record.collect (g : Record) : Option UInt64 → Record
  | some pid => { g with collected := Function.update g.collected pid true }
  | none => g

def note (g : Record) (m : Machine) (e : ProgramEvent) : Record :=
  ((g.draw (drawnBy m e)).finish (endedBy m e)).collect (collectedBy m e)

structure Table (table : ℕ → Process) (next : UInt64) (g : Record) : Prop where
  start : 0 < next.toNat
  pids : ∀ i < processMax, (table i).used = true →
    (table i).parentPid.toNat < (table i).pid.toNat ∧ (table i).pid.toNat < next.toNat
  distinct : ∀ i < processMax, ∀ j < processMax, (table i).used = true → (table j).used = true →
    (table i).pid = (table j).pid → i = j
  parents : ∀ i < processMax, (table i).used = true →
    g.parent (table i).pid = some (table i).parentPid
  codes : ∀ i < processMax, (table i).used = true → (table i).state ≠ .running →
    g.ended (table i).pid = some (table i).exitCode
  alive : ∀ i < processMax, (table i).used = true → (table i).state = .running →
    g.ended (table i).pid = none
  drawn : ∀ p q, g.parent p = some q → p.toNat < next.toNat
  finished : ∀ p c, g.ended p = some c → p.toNat < next.toNat
  gone : ∀ p, g.collected p = true → (∃ q, g.parent p = some q) ∧
    ∀ i < processMax, (table i).used = true → (table i).pid ≠ p

variable {table table' : ℕ → Process} {next : UInt64} {g : Record}

theorem toNat_succ {n : UInt64} (h : n.toNat + 1 < 2 ^ 64) : (n + 1).toNat = n.toNat + 1 := by
  rw [UInt64.toNat_add]
  exact Nat.mod_eq_of_lt h

theorem table_draw (h : Table table next g) {parentPid : UInt64}
    (hparent : parentPid.toNat < next.toNat) (hroom : next.toNat + 1 < 2 ^ 64)
    (hrunning : (table' i).state = .running) (hpid : (table' i).pid = next)
    (hrecorded : (table' i).parentPid = parentPid)
    (hothers : ∀ j, j ≠ i → table' j = table j) :
    Table table' (next + 1) (g.draw (some (next, parentPid))) := by
  have hsucc := toNat_succ hroom
  have hold : ∀ p : UInt64, p.toNat < next.toNat → p ≠ next := by
    rintro p hp rfl
    exact Nat.lt_irrefl _ hp
  refine ⟨by omega, fun j hj hused => ?_, fun j hj k hk hused hused' heq => ?_,
    fun j hj hused => ?_, fun j hj hused hended => ?_, fun j hj hused halive => ?_,
    fun p q hp => ?_, fun p c hp => ?_, fun p hp => ?_⟩
  · by_cases hji : j = i
    · rw [hji, hpid, hrecorded, hsucc]
      omega
    · rw [hothers j hji] at hused ⊢
      have hpids := h.pids j hj hused
      omega
  · by_cases hji : j = i
    · by_cases hki : k = i
      · rw [hji, hki]
      · rw [hothers k hki] at hused' heq
        rw [hji, hpid] at heq
        exact absurd heq.symm (hold _ (h.pids k hk hused').2)
    · rw [hothers j hji] at hused heq
      by_cases hki : k = i
      · rw [hki, hpid] at heq
        exact absurd heq (hold _ (h.pids j hj hused).2)
      · rw [hothers k hki] at hused' heq
        exact h.distinct j hj k hk hused hused' heq
  · by_cases hji : j = i
    · rw [hji, hpid, hrecorded]
      exact Function.update_self ..
    · rw [hothers j hji] at hused ⊢
      exact (Function.update_of_ne (hold _ (h.pids j hj hused).2) _ _).trans (h.parents j hj hused)
  · by_cases hji : j = i
    · rw [hji] at hended
      exact absurd hrunning hended
    · rw [hothers j hji] at hused hended ⊢
      exact h.codes j hj hused hended
  · by_cases hji : j = i
    · rw [hji, hpid]
      cases hended : g.ended next with
      | none => exact hended
      | some c => exact absurd (h.finished next c hended) (Nat.lt_irrefl _)
    · rw [hothers j hji] at hused halive ⊢
      exact h.alive j hj hused halive
  · by_cases hpn : p = next
    · rw [hpn, hsucc]
      exact Nat.lt_succ_self _
    · have hdrawn := h.drawn p q ((Function.update_of_ne hpn _ _).symm.trans hp)
      omega
  · have hfinished := h.finished p c hp
    omega
  · obtain ⟨⟨q, hq⟩, hgone⟩ := h.gone p hp
    have hpn := hold p (h.drawn p q hq)
    refine ⟨⟨q, (Function.update_of_ne hpn _ _).trans hq⟩, fun j hj hused => ?_⟩
    by_cases hji : j = i
    · rw [hji, hpid]
      exact Ne.symm hpn
    · rw [hothers j hji] at hused ⊢
      exact hgone j hj hused

theorem table_change (h : Table table next g) {g' : Record} (hi : i < processMax)
    (hused : (table i).used = true)
    (hsame : (table' i).used = true →
      (table' i).pid = (table i).pid ∧ (table' i).parentPid = (table i).parentPid)
    (hothers : ∀ j, j ≠ i → table' j = table j) (hparent : g'.parent = g.parent)
    (hcode : (table' i).used = true → (table' i).state ≠ .running →
      g'.ended (table i).pid = some (table' i).exitCode)
    (halive : (table' i).used = true → (table' i).state = .running →
      g'.ended (table i).pid = none)
    (hended : ∀ p, p ≠ (table i).pid → g'.ended p = g.ended p)
    (hcollected : ∀ p, g'.collected p = true → g.collected p = true ∨
      p = (table i).pid ∧ (table' i).used = false) : Table table' next g' := by
  refine ⟨h.start, fun j hj hj' => ?_, fun j hj k hk hj' hk' heq => ?_, fun j hj hj' => ?_,
    fun j hj hj' hstate => ?_, fun j hj hj' hstate => ?_, fun p q hp => h.drawn p q (hparent ▸ hp),
    fun p c hp => ?_, fun p hp => ?_⟩
  · by_cases hji : j = i
    · subst hji
      rw [(hsame hj').1, (hsame hj').2]
      exact h.pids j hj hused
    · rw [hothers j hji] at hj' ⊢
      exact h.pids j hj hj'
  · have hback : ∀ l, l < processMax → (table' l).used = true →
        (table l).used = true ∧ (table' l).pid = (table l).pid := by
      intro l _ hl
      by_cases hli : l = i
      · subst hli
        exact ⟨hused, (hsame hl).1⟩
      · rw [hothers l hli] at hl ⊢
        exact ⟨hl, rfl⟩
    obtain ⟨hjused, hjpid⟩ := hback j hj hj'
    obtain ⟨hkused, hkpid⟩ := hback k hk hk'
    rw [hjpid, hkpid] at heq
    exact h.distinct j hj k hk hjused hkused heq
  · rw [hparent]
    by_cases hji : j = i
    · subst hji
      rw [(hsame hj').1, (hsame hj').2]
      exact h.parents j hj hused
    · rw [hothers j hji] at hj' ⊢
      exact h.parents j hj hj'
  · by_cases hji : j = i
    · subst hji
      rw [(hsame hj').1]
      exact hcode hj' hstate
    · rw [hothers j hji] at hj' hstate ⊢
      rw [hended _ fun heq => hji (h.distinct j hj i hi hj' hused heq)]
      exact h.codes j hj hj' hstate
  · by_cases hji : j = i
    · subst hji
      rw [(hsame hj').1]
      exact halive hj' hstate
    · rw [hothers j hji] at hj' hstate ⊢
      rw [hended _ fun heq => hji (h.distinct j hj i hi hj' hused heq)]
      exact h.alive j hj hj' hstate
  · by_cases hpi : p = (table i).pid
    · rw [hpi]
      exact (h.pids i hi hused).2
    · exact h.finished p c ((hended p hpi).symm.trans hp)
  · rw [hparent]
    obtain hp | ⟨rfl, hfreed⟩ := hcollected p hp
    · obtain ⟨hdrawn, hgone⟩ := h.gone p hp
      refine ⟨hdrawn, fun j hj hj' => ?_⟩
      by_cases hji : j = i
      · subst hji
        rw [(hsame hj').1]
        exact hgone j hj hused
      · rw [hothers j hji] at hj' ⊢
        exact hgone j hj hj'
    · refine ⟨⟨_, h.parents i hi hused⟩, fun j hj hj' => ?_⟩
      have hji : j ≠ i := by
        rintro rfl
        rw [hfreed] at hj'
        cases hj'
      rw [hothers j hji] at hj' ⊢
      exact fun heq => hji (h.distinct j hj i hi hj' hused heq)

theorem processFindUsed_of {pid : UInt64} (h : Table s.processTable next g) (hi : i < processMax)
    (hused : (s.processTable i).used = true) (hpid : (s.processTable i).pid = pid) :
    processFindUsed s pid = some i := by
  cases hfind : processFindUsed s pid with
  | none =>
    unfold processFindUsed at hfind
    have hnone := List.find?_eq_none.1 hfind i (List.mem_range.2 hi)
    rw [hused, hpid, beq_self_eq_true] at hnone
    exact absurd rfl hnone
  | some j =>
    obtain ⟨hj, hjused, hjpid⟩ := processFindUsed_some hfind
    rw [h.distinct j hj i hi hjused hused (hjpid.trans hpid.symm)]

def Waits (table : ℕ → Process) : List Run → Prop
  | r :: rest => (∀ target, r.purpose = .wait target →
      ∃ r' ∈ rest.head?, (table r'.index).pid = r.parentPid) ∧ Waits table rest
  | [] => True

def Purpose.Fits (pid : UInt64) : Purpose → Prop
  | .shell | .host => pid = 0
  | .child => pid ≠ 0
  | .wait target => target = pid ∧ pid ≠ 0

structure RunOf (table : ℕ → Process) (ctx : ℕ → SpawnCtx) (r : Run) : Prop where
  lt : r.index < processMax
  used : (table r.index).used = true
  running : (table r.index).state = .running
  child : r.pid ≠ 0 → (table r.index).pid = r.pid ∧ (table r.index).parentPid = r.parentPid
  root : r.pid = 0 → ∀ k < spawnMax, (ctx k).used = true → (ctx k).pid ≠ (table r.index).pid
  fits : r.purpose.Fits r.pid

structure CtxOf (table : ℕ → Process) (c : SpawnCtx) (i : ℕ) : Prop where
  lt : i < processMax
  used : (table i).used = true
  running : (table i).state = .running
  pid : (table i).pid = c.pid
  parent : (table i).parentPid = c.parentPid

structure Programs (table : ℕ → Process) (ctx : ℕ → SpawnCtx) (runs : List Run) : Prop where
  ctxs : ∀ k < spawnMax, (ctx k).used = true → ∃ i, CtxOf table (ctx k) i
  distinct : ∀ k < spawnMax, ∀ l < spawnMax, (ctx k).used = true → (ctx l).used = true →
    (ctx k).pid = (ctx l).pid → k = l
  entered : ∀ r ∈ runs, RunOf table ctx r
  order : runs.Pairwise fun r r' => (table r'.index).pid.toNat < (table r.index).pid.toNat
  waits : Waits table runs

variable {ctx ctx' : ℕ → SpawnCtx} {runs runs' : List Run}

theorem Waits.congr (h : Waits table runs)
    (hsame : ∀ r ∈ runs, (table' r.index).pid = (table r.index).pid) : Waits table' runs := by
  induction runs with
  | nil => trivial
  | cons r rest ih =>
    refine ⟨fun target hp => ?_, ih h.2 fun r' hr' => hsame r' (List.mem_cons_of_mem r hr')⟩
    obtain ⟨r', hr', hpid⟩ := h.1 target hp
    exact ⟨r', hr', (hsame r' (List.mem_cons_of_mem r (List.mem_of_mem_head? hr'))).trans hpid⟩

theorem Waits.suffix (h : Waits table runs) (hsuffix : runs' <:+ runs) : Waits table runs' := by
  induction runs with
  | nil =>
    rw [List.suffix_nil.1 hsuffix]
    trivial
  | cons r rest ih =>
    obtain heq | hrest := List.suffix_cons_iff.1 hsuffix
    · rw [heq]
      exact h
    · exact ih h.2 hrest

theorem programs_shrink (h : Programs table ctx runs)
    (hctx : ∀ k, (ctx' k).used = true → ctx' k = ctx k)
    (hothers : ∀ j, j ≠ i → table' j = table j)
    (hgone : ∀ k < spawnMax, (ctx' k).used = true → ∀ j, CtxOf table (ctx k) j → j ≠ i)
    (hruns : runs' <:+ runs) (hrun : ∀ r ∈ runs', r.index ≠ i) : Programs table' ctx' runs' := by
  have hmem : ∀ r ∈ runs', RunOf table ctx r ∧ table' r.index = table r.index := fun r hr =>
    ⟨h.entered r (hruns.subset hr), hothers r.index (hrun r hr)⟩
  refine ⟨fun k hk hused => ?_, fun k hk l hl hused hused' heq => ?_, fun r hr => ?_, ?_, ?_⟩
  · have hsame := hctx k hused
    rw [hsame] at hused
    obtain ⟨j, hj⟩ := h.ctxs k hk hused
    rw [hsame]
    refine ⟨j, ?_⟩
    have hji := hothers j (hgone k hk (by rw [hsame]; exact hused) j hj)
    exact ⟨hj.lt, by rw [hji]; exact hj.used, by rw [hji]; exact hj.running,
      by rw [hji]; exact hj.pid, by rw [hji]; exact hj.parent⟩
  · have hsame := hctx k hused
    have hsame' := hctx l hused'
    rw [hsame] at hused heq
    rw [hsame'] at hused' heq
    exact h.distinct k hk l hl hused hused' heq
  · obtain ⟨hr', hsame⟩ := hmem r hr
    refine ⟨hr'.lt, by rw [hsame]; exact hr'.used, by rw [hsame]; exact hr'.running,
      by rw [hsame]; exact hr'.child, fun hroot k hk hused => ?_, hr'.fits⟩
    have hkept := hctx k hused
    rw [hkept] at hused ⊢
    rw [hsame]
    exact hr'.root hroot k hk hused
  · refine (h.order.sublist hruns.sublist).imp_of_mem fun {a b} ha hb hab => ?_
    rw [(hmem a ha).2, (hmem b hb).2]
    exact hab
  · exact (h.waits.suffix hruns).congr fun r hr => by rw [(hmem r hr).2]

theorem programs_enter (h : Programs table ctx runs) (hothers : ∀ j, j ≠ r.index →
      table' j = table j)
    (hbefore : (table r.index).used = true → (table' r.index).pid = (table r.index).pid ∧
      (table' r.index).parentPid = (table r.index).parentPid)
    (hr : RunOf table' ctx r)
    (horder : ∀ r' ∈ runs, (table r'.index).pid.toNat < (table' r.index).pid.toNat)
    (hwaits : ∀ target, r.purpose = .wait target →
      ∃ r' ∈ runs.head?, (table r'.index).pid = r.parentPid) : Programs table' ctx (r :: runs) := by
  have hmem : ∀ r' ∈ runs, table' r'.index = table r'.index := by
    intro r' hr'
    refine hothers _ fun heq => ?_
    have hlt := horder r' hr'
    have hused := (h.entered r' hr').used
    rw [heq] at hlt hused
    rw [(hbefore hused).1] at hlt
    exact Nat.lt_irrefl _ hlt
  refine ⟨fun k hk hused => ?_, h.distinct, fun r' hr' => ?_, ?_, ?_, ?_⟩
  · obtain ⟨j, hj⟩ := h.ctxs k hk hused
    refine ⟨j, ?_⟩
    by_cases hji : j = r.index
    · subst hji
      obtain ⟨hpid, hparent⟩ := hbefore hj.used
      exact ⟨hj.lt, hr.used, hr.running, hpid.trans hj.pid, hparent.trans hj.parent⟩
    · have hsame := hothers j hji
      exact ⟨hj.lt, by rw [hsame]; exact hj.used, by rw [hsame]; exact hj.running,
        by rw [hsame]; exact hj.pid, by rw [hsame]; exact hj.parent⟩
  · obtain rfl | hr' := List.mem_cons.1 hr'
    · exact hr
    · have hsame := hmem r' hr'
      have hold := h.entered r' hr'
      exact ⟨hold.lt, by rw [hsame]; exact hold.used, by rw [hsame]; exact hold.running,
        by rw [hsame]; exact hold.child, by rw [hsame]; exact hold.root, hold.fits⟩
  · refine List.pairwise_cons.2 ⟨fun r' hr' => ?_, ?_⟩
    · rw [hmem r' hr']
      exact horder r' hr'
    · refine h.order.imp_of_mem fun {a b} ha hb hab => ?_
      rw [hmem a ha, hmem b hb]
      exact hab
  · intro target hp
    obtain ⟨r', hr', hpid⟩ := hwaits target hp
    exact ⟨r', hr', by rw [hmem r' (List.mem_of_mem_head? hr')]; exact hpid⟩
  · exact h.waits.congr fun r' hr' => by rw [hmem r' hr']

theorem programs_spawn (h : Programs table ctx runs) {c : SpawnCtx} (hc : CtxOf table' c i)
    (hfree : (table i).used = false) (hothers : ∀ j, j ≠ i → table' j = table j)
    (hfresh : ∀ j < processMax, (table j).used = true → (table j).pid ≠ c.pid) :
    Programs table' (Function.update ctx k c) runs := by
  have hkept : ∀ {j}, (table j).used = true → table' j = table j := by
    intro j hj
    refine hothers j ?_
    rintro rfl
    rw [hfree] at hj
    cases hj
  have hold : ∀ l < spawnMax, (ctx l).used = true → (ctx l).pid ≠ c.pid := by
    intro l hl hused
    obtain ⟨j, hj⟩ := h.ctxs l hl hused
    rw [← hj.pid]
    exact hfresh j hj.lt hj.used
  refine ⟨fun l hl hused => ?_, fun l hl l' hl' hused hused' heq => ?_, fun r hr => ?_, ?_, ?_⟩
  · by_cases hlk : l = k
    · rw [hlk, Function.update_self]
      exact ⟨i, hc⟩
    · rw [Function.update_of_ne hlk] at hused ⊢
      obtain ⟨j, hj⟩ := h.ctxs l hl hused
      have hsame := hkept hj.used
      exact ⟨j, hj.lt, by rw [hsame]; exact hj.used, by rw [hsame]; exact hj.running,
        by rw [hsame]; exact hj.pid, by rw [hsame]; exact hj.parent⟩
  · by_cases hlk : l = k
    · by_cases hlk' : l' = k
      · rw [hlk, hlk']
      · rw [Function.update_of_ne hlk'] at hused' heq
        rw [hlk, Function.update_self] at heq
        exact absurd heq.symm (hold l' hl' hused')
    · rw [Function.update_of_ne hlk] at hused heq
      by_cases hlk' : l' = k
      · rw [hlk', Function.update_self] at heq
        exact absurd heq (hold l hl hused)
      · rw [Function.update_of_ne hlk'] at hused' heq
        exact h.distinct l hl l' hl' hused hused' heq
  · have hr' := h.entered r hr
    have hsame := hkept hr'.used
    refine ⟨hr'.lt, by rw [hsame]; exact hr'.used, by rw [hsame]; exact hr'.running,
      by rw [hsame]; exact hr'.child, fun hroot l hl hused => ?_, hr'.fits⟩
    rw [hsame]
    by_cases hlk : l = k
    · rw [hlk, Function.update_self]
      exact Ne.symm (hfresh r.index hr'.lt hr'.used)
    · rw [Function.update_of_ne hlk] at hused ⊢
      exact hr'.root hroot l hl hused
  · refine h.order.imp_of_mem fun {a b} ha hb hab => ?_
    rw [hkept (h.entered a ha).used, hkept (h.entered b hb).used]
    exact hab
  · exact h.waits.congr fun r hr => by rw [hkept (h.entered r hr).used]

structure Sound (m : Machine) (g : Record) : Prop where
  table : Table m.user.processTable m.user.nextUserPid g
  programs : Programs m.user.processTable m.spawnCtx m.runs

theorem currentPid_of_head (hs : Sound m g) (hf : Follows m) (hr : r ∈ m.runs.head?) :
    currentProcessPid m.user = (m.user.processTable r.index).pid := by
  have hrun := hs.programs.entered r (List.mem_of_mem_head? hr)
  have hcurrent : currentProcess m.user = some r.index := by
    unfold currentProcess
    rw [hf.current r hr, Int.toNat_natCast, if_pos ⟨Int.natCast_nonneg _,
      Int.ofNat_lt.2 hrun.lt, hrun.used⟩]
  unfold currentProcessPid
  rw [hcurrent]

theorem processAlloc_slot (s : State) (parentPid pid : UInt64) :
    (processAlloc s parentPid pid).1 = processSlot s pid := by
  unfold processAlloc
  cases processSlot s pid <;> rfl

theorem entered_fills (hent : Entered m t r) : ∃ u, Fills m.user u r.parentPid r.pid r.index ∧
    t.user.processTable = u.processTable ∧ t.user.nextUserPid = u.nextUserPid := by
  obtain ⟨-, -, -, -, hslot, htable, hnext, -⟩ := hent
  obtain heq | ⟨i, u, heq, hfills⟩ := processAlloc_cases m.user r.parentPid r.pid
  · rw [heq] at hslot
    cases hslot
  · rw [heq] at hslot htable hnext
    obtain rfl := Option.some.inj hslot
    exact ⟨u, hfills, htable, hnext⟩

theorem Sound.younger (hs : Sound m g) : ∀ i < processMax, (m.user.processTable i).used = true →
    (m.user.processTable i).pid ≠ m.user.nextUserPid := by
  intro i hi hused heq
  have hlt := (hs.table.pids i hi hused).2
  rw [heq] at hlt
  exact Nat.lt_irrefl _ hlt

theorem sound_started (hs : Sound m g) (hroom : m.user.nextUserPid.toNat + 1 < 2 ^ 64)
    (hent : Entered m t r) (hpid : r.pid = 0) (hparent : r.parentPid = 0)
    (hfits : r.purpose.Fits 0) (hwait : ∀ target, r.purpose ≠ .wait target) :
    Sound t (g.draw (some (m.user.nextUserPid, 0))) := by
  obtain ⟨u, hfills, htable, hnext⟩ := entered_fills hent
  have hfree : (m.user.processTable r.index).used ≠ true := fun hused =>
    (hfills.slot hused).1 hpid
  have hnumber : (u.processTable r.index).pid = m.user.nextUserPid := by
    rw [hfills.pid, hpid]
    rfl
  have hnext' : u.nextUserPid = m.user.nextUserPid + 1 := by
    rw [hfills.next, hpid]
    exact ite_self _
  refine ⟨?_, ?_⟩
  · rw [htable, hnext, hnext']
    exact table_draw hs.table hs.table.start hroom hfills.live.2 hnumber
      (hfills.parent.trans hparent) hfills.others
  · rw [htable, hent.ctxs, hent.runs]
    refine programs_enter hs.programs hfills.others (fun hused => absurd hused hfree)
      ⟨hfills.lt, hfills.live.1, hfills.live.2, fun hne => absurd hpid hne, fun _ k hk hused => ?_,
        hpid ▸ hfits⟩ (fun r' hr' => ?_) fun target hp => absurd hp (hwait target)
    · obtain ⟨i, hi⟩ := hs.programs.ctxs k hk hused
      rw [hnumber, ← hi.pid]
      exact hs.younger i hi.lt hi.used
    · have hr' := hs.programs.entered r' hr'
      rw [hnumber]
      exact (hs.table.pids r'.index hr'.lt hr'.used).2

theorem sound_entered (hs : Sound m g) (hk : k < spawnMax) (hused : (m.spawnCtx k).used = true)
    (hent : Entered m t r) (hpid : r.pid = (m.spawnCtx k).pid)
    (hparent : r.parentPid = (m.spawnCtx k).parentPid) (hfits : r.purpose.Fits r.pid)
    (hcaller : ∀ r' ∈ m.runs,
      (m.user.processTable r'.index).pid.toNat ≤ r.parentPid.toNat)
    (hwaits : ∀ target, r.purpose = .wait target →
      ∃ r' ∈ m.runs.head?, (m.user.processTable r'.index).pid = r.parentPid) : Sound t g := by
  obtain ⟨i, hi⟩ := hs.programs.ctxs k hk hused
  obtain ⟨u, hfills, htable, hnext⟩ := entered_fills hent
  obtain ⟨holder, hlt⟩ := hs.table.pids i hi.lt hi.used
  rw [hi.pid, hi.parent, ← hparent, ← hpid] at holder
  rw [hi.pid, ← hpid] at hlt
  have hne : r.pid ≠ 0 := by
    intro heq
    rw [heq] at holder
    exact Nat.not_lt_zero _ holder
  have hindex : r.index = i := by
    have hslot := hent.slot
    rw [processAlloc_slot] at hslot
    unfold processSlot at hslot
    rw [if_pos hne, processFindUsed_of hs.table hi.lt hi.used (hi.pid.trans hpid.symm)] at hslot
    exact (Option.some.inj hslot).symm
  have hsame : (u.processTable r.index).pid = (m.user.processTable r.index).pid ∧
      (u.processTable r.index).parentPid = (m.user.processTable r.index).parentPid := by
    rw [hfills.pid, if_pos hne, hfills.parent, hindex, hi.pid, hi.parent]
    exact ⟨hpid, hparent⟩
  have hnext' : u.nextUserPid = m.user.nextUserPid := by
    rw [hfills.next, if_pos hne, if_pos hne, if_neg]
    exact fun hge => absurd (UInt64.le_iff_toNat_le.1 hge) (Nat.not_le_of_lt hlt)
  refine ⟨?_, ?_⟩
  · rw [htable, hnext, hnext']
    exact table_change hs.table hfills.lt (hindex ▸ hi.used) (fun _ => hsame) hfills.others rfl
      (fun _ hended => absurd hfills.live.2 hended)
      (fun _ _ => hindex ▸ hs.table.alive i hi.lt hi.used hi.running) (fun _ _ => rfl)
      fun p hp => Or.inl hp
  · rw [htable, hent.ctxs, hent.runs]
    refine programs_enter hs.programs hfills.others (fun _ => hsame)
      ⟨hfills.lt, hfills.live.1, hfills.live.2, fun _ => ?_, fun heq => absurd heq hne, hfits⟩
      (fun r' hr' => ?_) hwaits
    · rw [hfills.pid, if_pos hne, hfills.parent]
      exact ⟨rfl, rfl⟩
    · rw [hfills.pid, if_pos hne]
      exact (hcaller r' hr').trans_lt holder

theorem sound_end (hs : Sound m g) {code : ℤ} (hlt : i < processMax)
    (hused : (m.user.processTable i).used = true) (hnext : t.user.nextUserPid = m.user.nextUserPid)
    (hothers : ∀ j, j ≠ i → t.user.processTable j = m.user.processTable j)
    (hend : (t.user.processTable i).used = true →
      (t.user.processTable i).pid = (m.user.processTable i).pid ∧
      (t.user.processTable i).parentPid = (m.user.processTable i).parentPid ∧
      (t.user.processTable i).exitCode = code ∧ (t.user.processTable i).state ≠ .running)
    (hctx : ∀ k, (t.spawnCtx k).used = true → t.spawnCtx k = m.spawnCtx k)
    (hgone : ∀ k < spawnMax, (t.spawnCtx k).used = true →
      (m.spawnCtx k).pid ≠ (m.user.processTable i).pid)
    (hruns : t.runs <:+ m.runs) (hrun : ∀ r ∈ t.runs, r.index ≠ i) :
    Sound t (g.finish (some ((m.user.processTable i).pid, code))) := by
  refine ⟨?_, ?_⟩
  · rw [hnext]
    refine table_change hs.table hlt hused (fun h => ⟨(hend h).1, (hend h).2.1⟩) hothers rfl
      (fun h _ => ?_) (fun h hr => absurd hr (hend h).2.2.2)
      (fun p hp => Function.update_of_ne hp _ _) fun p hp => Or.inl hp
    rw [(hend h).2.2.1]
    exact Function.update_self ..
  · refine programs_shrink hs.programs hctx hothers (fun k hk hk' j hj hji => ?_) hruns hrun
    exact hgone k hk hk' (hj.pid.symm.trans (by rw [hji]))

theorem processReap_next (s : State) (index : ℤ) :
    (processReap s index).nextUserPid = s.nextUserPid := by
  unfold processReap
  split <;> rfl

theorem sound_collect (hs : Sound m g) (hlt : i < processMax)
    (hused : (m.user.processTable i).used = true)
    (hended : (m.user.processTable i).state ≠ .running) :
    Sound (collectChild m i).2 (g.collect (some (m.user.processTable i).pid)) := by
  obtain ⟨-, hunused⟩ | ⟨-, hfreed, hothers⟩ := processReap_cases m.user i
  · rw [hunused hlt] at hused
    cases hused
  · refine ⟨?_, ?_⟩
    · change Table (processReap m.user i).processTable (processReap m.user i).nextUserPid _
      rw [processReap_next]
      refine table_change hs.table hlt hused (fun h => ?_) hothers rfl (fun h => ?_)
        (fun h => ?_) (fun _ _ => rfl) fun p hp => ?_
      · rw [hfreed] at h
        cases h
      · rw [hfreed] at h
        cases h
      · rw [hfreed] at h
        cases h
      · by_cases hpi : p = (m.user.processTable i).pid
        · exact Or.inr ⟨hpi, hfreed⟩
        · exact Or.inl ((Function.update_of_ne hpi _ _).symm.trans hp)
    · refine programs_shrink hs.programs (fun _ _ => rfl) hothers (fun k _ _ j hj hji => ?_)
        (List.suffix_refl _) fun r hr hri => ?_
      · exact hended (hji ▸ hj.running)
      · exact hended (hri ▸ (hs.programs.entered r hr).running)

theorem findSpawnCtx_some {pid : UInt64} (h : findSpawnCtx m pid = some k) :
    k < spawnMax ∧ (m.spawnCtx k).used = true ∧ (m.spawnCtx k).pid = pid := by
  have hfound := List.find?_some h
  rw [Bool.and_eq_true, beq_iff_eq] at hfound
  exact ⟨List.mem_range.1 (List.mem_of_find?_eq_some h), hfound⟩

theorem clearSpawnCtx_ctx (hs : Programs table m.spawnCtx runs) (pid : UInt64) (k : ℕ)
    (hused : ((clearSpawnCtx m pid).spawnCtx k).used = true) :
    (clearSpawnCtx m pid).spawnCtx k = m.spawnCtx k ∧
    (k < spawnMax → (m.spawnCtx k).pid ≠ pid) := by
  unfold clearSpawnCtx at hused ⊢
  cases hfind : findSpawnCtx m pid with
  | none =>
    rw [hfind] at hused
    refine ⟨rfl, fun hk heq => ?_⟩
    have hnone := List.find?_eq_none.1 hfind k (List.mem_range.2 hk)
    rw [heq, show (m.spawnCtx k).used = true from hused, beq_self_eq_true] at hnone
    exact hnone rfl
  | some l =>
    rw [hfind] at hused
    dsimp only at hused ⊢
    obtain ⟨hl, hlused, hlpid⟩ := findSpawnCtx_some hfind
    by_cases hkl : k = l
    · rw [hkl, Function.update_self] at hused
      cases hused
    · rw [Function.update_of_ne hkl] at hused ⊢
      exact ⟨rfl, fun hk heq => hkl (hs.distinct k hk l hl hused hlused (heq.trans hlpid.symm))⟩

end UserMode
