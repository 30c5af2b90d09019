import K64.DescriptorFrames
import Mathlib.Data.Finset.Card
import Mathlib.Data.Finset.Prod
import Mathlib.Data.List.Perm.Subperm

/-! # The reference counts of pipes

The counts of a pipe are the numbers of the open descriptors that refer to its ends. -/
namespace UserMode

/-- The states that are reached from one without processes and pipes by allowed events. -/
inductive Reaches (allowed : State → Event → Prop) : State → Prop where
  | boot (s : State) (processes : ∀ i, (s.processTable i).used = false)
      (pipes : ∀ k, (s.pipeTable k).used = false ∧ (s.pipeTable k).readRefs = 0 ∧
        (s.pipeTable k).writeRefs = 0) : Reaches allowed s
  | step {s : State} (e : Event) (h : Reaches allowed s) (possible : Possible s e)
      (ok : allowed s e) : Reaches allowed (step s e).2

variable {s t : State} {i j k : ℕ} {kind : FdKind}

def Live (s : State) (i : ℕ) : Prop :=
  (s.processTable i).used = true ∧ (s.processTable i).state = .running

instance (s : State) (i : ℕ) : Decidable (Live s i) := inferInstanceAs (Decidable (_ ∧ _))

def Fd.IsEnd (kind : FdKind) (k : ℕ) (fd : Fd) : Prop :=
  fd.used = true ∧ fd.kind = kind ∧ fd.pipeIndex = k

instance (kind : FdKind) (k : ℕ) (fd : Fd) : Decidable (fd.IsEnd kind k) :=
  inferInstanceAs (Decidable (_ ∧ _ ∧ _))

def OpenEnd (s : State) (kind : FdKind) (k : ℕ) (x : ℕ × ℕ) : Prop :=
  Live s x.1 ∧ ((s.processTable x.1).fds x.2).IsEnd kind k

instance (s : State) (kind : FdKind) (k : ℕ) (x : ℕ × ℕ) : Decidable (OpenEnd s kind k x) :=
  inferInstanceAs (Decidable (_ ∧ _))

/-- The open descriptors of live processes that refer to an end of a pipe, as entry and index. -/
@[irreducible] def ends (s : State) (kind : FdKind) (k : ℕ) : Finset (ℕ × ℕ) :=
  (Finset.range processMax ×ˢ Finset.range fdMax).filter (OpenEnd s kind k)

def WithoutPipes (s : State) (i : ℕ) : Prop :=
  ∀ j < fdMax, ((s.processTable i).fds j).used = true →
    ((s.processTable i).fds j).kind ≠ .pipeRead ∧ ((s.processTable i).fds j).kind ≠ .pipeWrite

def freeDescriptors (s : State) (i : ℕ) : ℕ :=
  ((List.range fdMax).filter fun j => !((s.processTable i).fds j).used).length

/-- Processes close their pipes before they end, and make a pipe only with two free descriptors. -/
def Careful (s : State) : Event → Prop
  | .create _ pid => ∀ i, processSlot s pid = some i → Live s i → WithoutPipes s i
  | .finish i _ _ | .reap i => Live s i → WithoutPipes s i
  | .call i (.pipe r) => (∃ n, r.outLen = some n ∧ 8 ≤ n) →
      (∃ k < pipeMax, (s.pipeTable k).used = false) → 2 ≤ freeDescriptors s i
  | _ => True

def InRange (s : State) : Prop :=
  ∀ i < processMax, Live s i → ∀ j < fdMax, ((s.processTable i).fds j).used = true →
    ((s.processTable i).fds j).kind = .pipeRead ∨ ((s.processTable i).fds j).kind = .pipeWrite →
    ∃ k < pipeMax, ((s.processTable i).fds j).pipeIndex = (k : ℕ)

structure Exact (s : State) : Prop where
  reads : ∀ k < pipeMax, (s.pipeTable k).readRefs = (ends s .pipeRead k).card
  writes : ∀ k < pipeMax, (s.pipeTable k).writeRefs = (ends s .pipeWrite k).card
  free : ∀ k < pipeMax, (s.pipeTable k).used = false ↔
    (s.pipeTable k).readRefs = 0 ∧ (s.pipeTable k).writeRefs = 0
  range : InRange s

theorem mem_ends : (i, j) ∈ ends s kind k ↔
    (i < processMax ∧ j < fdMax) ∧ OpenEnd s kind k (i, j) := by
  unfold ends
  rw [Finset.mem_filter, Finset.mem_product, Finset.mem_range, Finset.mem_range]

theorem ends_congr (h : ∀ i < processMax, ∀ j < fdMax,
    (OpenEnd t kind k (i, j) ↔ OpenEnd s kind k (i, j))) : ends t kind k = ends s kind k := by
  ext ⟨i, j⟩
  rw [mem_ends, mem_ends]
  constructor
  · rintro ⟨⟨hi, hj⟩, ho⟩
    exact ⟨⟨hi, hj⟩, (h i hi j hj).mp ho⟩
  · rintro ⟨⟨hi, hj⟩, ho⟩
    exact ⟨⟨hi, hj⟩, (h i hi j hj).mpr ho⟩

structure Changed (s t : State) (i j : ℕ) (fd : Fd) : Prop where
  entry : i < processMax
  index : j < fdMax
  live : ∀ i', Live t i' ↔ Live s i'
  isLive : Live s i
  changed : (t.processTable i).fds j = fd
  others : ∀ i' j', (i', j') ≠ (i, j) → (t.processTable i').fds j' = (s.processTable i').fds j'

variable {fd : Fd}

theorem Changed.openEnd_of_ne (h : Changed s t i j fd) {x : ℕ × ℕ} (hx : x ≠ (i, j)) :
    OpenEnd t kind k x ↔ OpenEnd s kind k x := by
  rw [OpenEnd, OpenEnd, h.live, h.others x.1 x.2 hx]

theorem Changed.ends_same (h : Changed s t i j fd)
    (hfd : fd.IsEnd kind k ↔ ((s.processTable i).fds j).IsEnd kind k) :
    ends t kind k = ends s kind k := by
  apply ends_congr
  intro i' _ j' _
  by_cases hx : (i', j') = (i, j)
  · obtain ⟨rfl, rfl⟩ := Prod.mk.inj hx
    rw [OpenEnd, OpenEnd, h.live, h.changed, hfd]
  · exact h.openEnd_of_ne hx

theorem Changed.ends_more (h : Changed s t i j fd) (hfd : fd.IsEnd kind k)
    (hold : ¬ ((s.processTable i).fds j).IsEnd kind k) :
    (ends t kind k).card = (ends s kind k).card + 1 := by
  have hnot : (i, j) ∉ ends s kind k := by
    rw [mem_ends]
    rintro ⟨-, -, hend⟩
    exact hold hend
  have hins : ends t kind k = insert (i, j) (ends s kind k) := by
    ext x
    rw [Finset.mem_insert]
    by_cases hx : x = (i, j)
    · subst hx
      refine iff_of_true ?_ (Or.inl rfl)
      rw [mem_ends, OpenEnd, h.changed]
      exact ⟨⟨h.entry, h.index⟩, (h.live i).mpr h.isLive, hfd⟩
    · obtain ⟨i', j'⟩ := x
      rw [mem_ends, mem_ends, h.openEnd_of_ne hx]
      exact (or_iff_right hx).symm
  rw [hins, Finset.card_insert_of_notMem hnot]

theorem Changed.ends_less (h : Changed s t i j fd) (hfd : ¬ fd.IsEnd kind k)
    (hold : ((s.processTable i).fds j).IsEnd kind k) :
    (ends t kind k).card + 1 = (ends s kind k).card := by
  have hmem : (i, j) ∈ ends s kind k := by
    rw [mem_ends]
    exact ⟨⟨h.entry, h.index⟩, h.isLive, hold⟩
  have herase : ends t kind k = (ends s kind k).erase (i, j) := by
    ext x
    rw [Finset.mem_erase]
    by_cases hx : x = (i, j)
    · subst hx
      refine iff_of_false ?_ fun hne => hne.1 rfl
      rw [mem_ends, OpenEnd, h.changed]
      exact fun hend => hfd hend.2.2
    · obtain ⟨i', j'⟩ := x
      rw [mem_ends, mem_ends, h.openEnd_of_ne hx]
      exact (and_iff_right hx).symm
  rw [herase, Finset.card_erase_add_one hmem]

theorem Exact.same (h : Exact s)
    (hpipes : ∀ k, (t.pipeTable k).used = (s.pipeTable k).used ∧
      (t.pipeTable k).readRefs = (s.pipeTable k).readRefs ∧
      (t.pipeTable k).writeRefs = (s.pipeTable k).writeRefs)
    (hends : ∀ kind k, kind = .pipeRead ∨ kind = .pipeWrite → ends t kind k = ends s kind k)
    (hrange : InRange t) : Exact t := by
  refine ⟨fun k hk => ?_, fun k hk => ?_, fun k hk => ?_, hrange⟩
  · rw [(hpipes k).2.1, hends _ _ (Or.inl rfl)]
    exact h.reads k hk
  · rw [(hpipes k).2.2, hends _ _ (Or.inr rfl)]
    exact h.writes k hk
  · rw [(hpipes k).1, (hpipes k).2.1, (hpipes k).2.2]
    exact h.free k hk

theorem Exact.rewritten (h : Exact s) {i : ℕ} (hpipes : t.pipeTable = s.pipeTable)
    (hothers : ∀ i', i' ≠ i → t.processTable i' = s.processTable i')
    (hbefore : Live s i → WithoutPipes s i) (hafter : Live t i → WithoutPipes t i) : Exact t := by
  have hnone : ∀ {u : State} {kind k j}, (Live u i → WithoutPipes u i) →
      kind = .pipeRead ∨ kind = .pipeWrite → j < fdMax → ¬ OpenEnd u kind k (i, j) := by
    rintro u kind k j hu hkind hj ⟨hlive, hused, heq, -⟩
    obtain ⟨hread, hwrite⟩ := hu hlive j hj hused
    rcases hkind with rfl | rfl
    · exact hread heq
    · exact hwrite heq
  refine h.same (fun k => by rw [hpipes]; exact ⟨rfl, rfl, rfl⟩) (fun kind k hkind => ?_)
    fun i' hi' hlive j hj hused hkind => ?_
  · apply ends_congr
    intro i' _ j hj
    by_cases hi : i' = i
    · subst hi
      exact iff_of_false (hnone hafter hkind hj) (hnone hbefore hkind hj)
    · rw [OpenEnd, OpenEnd, Live, Live, hothers i' hi]
  · by_cases hi : i' = i
    · subst hi
      obtain ⟨hread, hwrite⟩ := hafter hlive j hj hused
      exact (hkind.elim hread hwrite).elim
    · rw [Live, hothers i' hi] at hlive
      rw [hothers i' hi] at hused hkind ⊢
      exact h.range i' hi' hlive j hj hused hkind

theorem Changed.range (h : Changed s t i j fd) (hrange : InRange s)
    (hfd : fd.used = true → fd.kind = .pipeRead ∨ fd.kind = .pipeWrite →
      ∃ k < pipeMax, fd.pipeIndex = (k : ℕ)) : InRange t := by
  intro i' hi' hlive j' hj'
  by_cases hx : (i', j') = (i, j)
  · obtain ⟨rfl, rfl⟩ := Prod.mk.inj hx
    rw [h.changed]
    exact hfd
  · rw [h.others i' j' hx]
    exact hrange i' hi' ((h.live i').mp hlive) j' hj'

theorem Changed.exact (h : Changed s t i j fd) (hexact : Exact s)
    (hpipes : t.pipeTable = s.pipeTable)
    (hnew : fd.kind ≠ .pipeRead ∧ fd.kind ≠ .pipeWrite)
    (hold : ((s.processTable i).fds j).used = true →
      ((s.processTable i).fds j).kind ≠ .pipeRead ∧
        ((s.processTable i).fds j).kind ≠ .pipeWrite) : Exact t := by
  refine hexact.same (fun k => by rw [hpipes]; exact ⟨rfl, rfl, rfl⟩) (fun kind k hkind => ?_)
    (h.range hexact.range fun _ hkind => (hkind.elim hnew.1 hnew.2).elim)
  apply h.ends_same
  refine iff_of_false (fun hend => ?_) fun hend => ?_
  · rcases hkind with rfl | rfl
    · exact hnew.1 hend.2.1
    · exact hnew.2 hend.2.1
  · obtain ⟨hread, hwrite⟩ := hold hend.1
    rcases hkind with rfl | rfl
    · exact hread hend.2.1
    · exact hwrite hend.2.1

structure Calls (s : State) (i : ℕ) : Prop where
  entry : i < processMax
  live : Live s i
  current : currentProcess s = some i

theorem Calls.fds (h : Calls s i) : currentFds s = (s.processTable i).fds := by
  unfold currentFds
  rw [h.current]

theorem Calls.changed (h : Calls s i) (hj : j < fdMax) (fd : Fd) :
    Changed s (setCurrentFd s j fd) i j fd := by
  have hset : setCurrentFd s j fd =
      s.setProcess i fun p => { p with fds := Function.update p.fds j fd } := by
    unfold setCurrentFd
    rw [h.current]
  have htable : ∀ i', (setCurrentFd s j fd).processTable i' = if i' = i then
      { s.processTable i with fds := Function.update (s.processTable i).fds j fd }
      else s.processTable i' := by
    intro i'
    rw [hset]
    exact Function.update_apply _ _ _ _
  refine ⟨h.entry, hj, fun i' => ?_, h.live, ?_, fun i' j' hx => ?_⟩
  · rw [Live, Live, htable]
    by_cases hi : i' = i
    · rw [if_pos hi, hi]
    · rw [if_neg hi]
  · rw [htable, if_pos rfl]
    exact Function.update_self _ _ _
  · rw [htable]
    by_cases hi : i' = i
    · rw [if_pos hi, hi]
      exact Function.update_of_ne (fun hj => hx (by rw [hi, hj])) _ _
    · rw [if_neg hi]

theorem Calls.of_live (hi : i < processMax) (hl : Live s i) :
    Calls { s with processIndex := i } i := by
  refine ⟨hi, hl, ?_⟩
  unfold currentProcess
  exact if_pos ⟨Int.natCast_nonneg i, Int.ofNat_lt.mpr hi, hl.1⟩

theorem Calls.kept (h : Calls s i) (hp : ∀ i', Live t i' ↔ Live s i')
    (hindex : t.processIndex = s.processIndex) : Calls t i := by
  have hlive := (hp i).mpr h.live
  have hc := h.current
  refine ⟨h.entry, hlive, ?_⟩
  unfold currentProcess at hc ⊢
  split at hc
  · rename_i hrange
    obtain rfl := Option.some.inj hc
    rw [hindex, if_pos ⟨hrange.1, hrange.2.1, hlive.1⟩]
  · cases hc

theorem setCurrentFd_processIndex (s : State) (j : ℕ) (fd : Fd) :
    (setCurrentFd s j fd).processIndex = s.processIndex := by
  unfold setCurrentFd
  split <;> rfl

theorem getFd_eq {n : ℕ} (h : getFd s n = some j) : j < fdMax ∧ (currentFds s j).used = true := by
  unfold getFd at h
  split at h
  · cases h
  · split at h
    · cases h
    · split at h
      · obtain rfl := Option.some.inj h
        exact ⟨Nat.lt_of_not_le ‹_›, ‹_›⟩
      · cases h

theorem exact_processAlloc (h : Exact s) (parentPid pid : UInt64)
    (hc : Careful s (.create parentPid pid)) : Exact (processAlloc s parentPid pid).2 := by
  unfold processAlloc
  cases hslot : processSlot s pid with
  | none => exact h
  | some i =>
    refine h.rewritten (i := i) rfl (fun i' hi' => ?_) (hc i hslot) fun _ j _ hused => ?_
    · exact Function.update_of_ne hi' _ _
    · simp [State.setProcess, Fd.clear] at hused

theorem exact_processFinish (h : Exact s) (i : ℕ) {state : ProcessState} (exitCode : ℤ)
    (hstate : state ≠ .running) (hc : Careful s (.finish i state exitCode)) :
    Exact (processFinish s i state exitCode) := by
  unfold processFinish
  split
  · exact h
  · refine h.rewritten (i := i) rfl (fun i' hi' => ?_) hc fun hlive => ?_
    · exact Function.update_of_ne hi' _ _
    · obtain ⟨-, hrun⟩ := hlive
      simp [State.setProcess] at hrun
      exact (hstate hrun).elim

theorem exact_processReap (h : Exact s) (i : ℕ) (hc : Careful s (.reap i)) :
    Exact (processReap s i) := by
  unfold processReap
  split
  · exact h
  · refine h.rewritten (i := i) rfl (fun i' hi' => ?_) hc fun hlive => ?_
    · exact Function.update_of_ne hi' _ _
    · obtain ⟨-, hrun⟩ := hlive
      simp [State.setProcess] at hrun

theorem ioWrite_frame (s : State) (r : Request) :
    (ioWriteServiceCall s r).2.processTable = s.processTable ∧
    ∀ k, ((ioWriteServiceCall s r).2.pipeTable k).used = (s.pipeTable k).used ∧
      ((ioWriteServiceCall s r).2.pipeTable k).readRefs = (s.pipeTable k).readRefs ∧
      ((ioWriteServiceCall s r).2.pipeTable k).writeRefs = (s.pipeTable k).writeRefs := by
  have hwrite : ∀ fd len bytes, (writePipe s fd len bytes).2.processTable = s.processTable ∧
      ∀ k, ((writePipe s fd len bytes).2.pipeTable k).used = (s.pipeTable k).used ∧
        ((writePipe s fd len bytes).2.pipeTable k).readRefs = (s.pipeTable k).readRefs ∧
        ((writePipe s fd len bytes).2.pipeTable k).writeRefs = (s.pipeTable k).writeRefs := by
    intro fd len bytes
    unfold writePipe
    split
    · exact ⟨rfl, fun _ => ⟨rfl, rfl, rfl⟩⟩
    dsimp only
    split
    · exact ⟨rfl, fun _ => ⟨rfl, rfl, rfl⟩⟩
    split
    · exact ⟨rfl, fun _ => ⟨rfl, rfl, rfl⟩⟩
    refine ⟨rfl, fun k => ?_⟩
    rw [setPipe_pipeTable]
    split
    · rename_i hk
      rw [hk]
      exact ⟨rfl, rfl, rfl⟩
    · exact ⟨rfl, rfl, rfl⟩
  unfold ioWriteServiceCall
  split
  case h_2 => exact ⟨rfl, fun _ => ⟨rfl, rfl, rfl⟩⟩
  dsimp only
  split
  · exact ⟨rfl, fun _ => ⟨rfl, rfl, rfl⟩⟩
  split
  · exact ⟨rfl, fun _ => ⟨rfl, rfl, rfl⟩⟩
  split
  · exact ⟨rfl, fun _ => ⟨rfl, rfl, rfl⟩⟩
  split
  · exact ⟨rfl, fun _ => ⟨rfl, rfl, rfl⟩⟩
  split
  · exact hwrite _ _ _
  · exact ⟨rfl, fun _ => ⟨rfl, rfl, rfl⟩⟩

theorem Exact.unchanged (h : Exact s) (hp : t.processTable = s.processTable)
    (hpipes : ∀ k, (t.pipeTable k).used = (s.pipeTable k).used ∧
      (t.pipeTable k).readRefs = (s.pipeTable k).readRefs ∧
      (t.pipeTable k).writeRefs = (s.pipeTable k).writeRefs) : Exact t := by
  refine h.same hpipes (fun kind k _ => ?_) ?_
  · apply ends_congr
    intro i _ j _
    rw [OpenEnd, OpenEnd, Live, Live, hp]
  · intro i hi hlive
    rw [Live, hp] at hlive
    rw [hp]
    exact h.range i hi hlive

theorem exact_ioRead (h : Exact s) (hc : Calls s i) (typed : List UInt8) (r : Request) :
    Exact (ioReadServiceCall s typed r).2 := by
  unfold ioReadServiceCall
  split
  case h_2 => exact h
  dsimp only
  split
  · exact h
  split
  · exact h
  split
  · exact h
  split
  · exact h
  rename_i j hj
  obtain ⟨hlt, hused⟩ := getFd_eq hj
  split
  · unfold readPipe
    split
    · exact h
    dsimp only
    split
    · split <;> exact h
    · refine h.unchanged ?_ fun k => ?_
      · rfl
      rw [setPipe_pipeTable]
      split
      · rename_i hk
        rw [hk]
        exact ⟨rfl, rfl, rfl⟩
      · exact ⟨rfl, rfl, rfl⟩
  · rename_i hkind
    rw [hc.fds] at hkind ⊢
    unfold readFile
    refine (hc.changed hlt _).exact h (setCurrentFd_pipeTable s j _) ?_ fun _ => ?_
    · dsimp only
      rw [hkind]
      decide
    · rw [hkind]
      decide
  · exact h

theorem allocFd_changed (hc : Calls s i) {n : ℕ} (fd : Fd) (hfd : (allocFd s fd).1 = some n) :
    ∃ j, Changed s (allocFd s fd).2 i j fd ∧ ((s.processTable i).fds j).used = false ∧
      Calls (allocFd s fd).2 i := by
  unfold allocFd at hfd ⊢
  split at hfd
  · rename_i j hj
    have hlt := List.mem_range.mp (List.mem_of_find?_eq_some hj)
    have hunused := List.find?_some hj
    rw [hc.fds] at hunused
    have hchanged := hc.changed hlt fd
    exact ⟨j, hchanged, by simpa using hunused,
      hc.kept hchanged.live (setCurrentFd_processIndex s j fd)⟩
  · cases hfd

theorem allocFd_none {fd : Fd} (h : (allocFd s fd).1 = none) : (allocFd s fd).2 = s := by
  unfold allocFd at h ⊢
  split at h
  · cases h
  · rfl

theorem fsReadFileRaw_frame (s : State) (files : Files) (path : List UInt8) :
    (fsReadFileRaw s files path).2.processTable = s.processTable ∧
    (fsReadFileRaw s files path).2.pipeTable = s.pipeTable ∧
    (fsReadFileRaw s files path).2.processIndex = s.processIndex := by
  unfold fsReadFileRaw
  split <;> exact ⟨rfl, rfl, rfl⟩

theorem exact_ioOpen (h : Exact s) (hc : Calls s i) (files : Files) (r : Request) :
    Exact (ioOpenServiceCall s files r).2 := by
  have hraw : ∀ path, Exact (fsReadFileRaw s files path).2 ∧
      Calls (fsReadFileRaw s files path).2 i := by
    intro path
    obtain ⟨hp, hpipes, hindex⟩ := fsReadFileRaw_frame s files path
    refine ⟨h.unchanged hp fun k => by rw [hpipes]; exact ⟨rfl, rfl, rfl⟩, hc.kept (fun i' => ?_)
      hindex⟩
    rw [Live, Live, hp]
  have hcases := ioOpen_cases s files r
  generalize ioOpenServiceCall s files r = res, openPath s files r = path at hcases
  cases hcases with
  | refused | invalid => exact h
  | unread path _ => exact (hraw path).1
  | full path size _ hnone =>
    rw [allocFdFile, allocFd_none hnone]
    exact (hraw path).1
  | opened path size fd _ hsome =>
    obtain ⟨j, hchanged, hunused, -⟩ := allocFd_changed (hraw path).2 _ hsome
    refine hchanged.exact (hraw path).1 (allocFd_pipeTable _ _)
      (show FdKind.file ≠ .pipeRead ∧ FdKind.file ≠ .pipeWrite by decide) fun hused => ?_
    rw [hunused] at hused
    cases hused

theorem dropRef_counts (kind : FdKind) (p : Pipe) :
    (p.dropRef kind).readRefs = (if kind = .pipeRead then p.readRefs - 1 else p.readRefs) ∧
    (p.dropRef kind).writeRefs = (if kind = .pipeWrite then p.writeRefs - 1 else p.writeRefs) ∧
    (p.dropRef kind).used =
      if (p.dropRef kind).readRefs = 0 ∧ (p.dropRef kind).writeRefs = 0 then false else p.used := by
  obtain ⟨q, -, hused, hread, hwrite, hq⟩ := dropRef_eq kind p
  rw [hq]
  split
  · exact ⟨hread, hwrite, rfl⟩
  · exact ⟨hread, hwrite, hused⟩

theorem exact_closeEnd (h : Exact s) (hc : Calls s i) (hj : j < fdMax)
    (hused : ((s.processTable i).fds j).used = true)
    (hkind : ((s.processTable i).fds j).kind = .pipeRead ∨
      ((s.processTable i).fds j).kind = .pipeWrite) :
    Exact (setCurrentFd (pipeDropRef s ((s.processTable i).fds j).pipeIndex
      ((s.processTable i).fds j).kind) j Fd.clear) := by
  obtain ⟨k, hk, hindex⟩ := h.range i hc.entry hc.live j hj hused hkind
  generalize hkd : ((s.processTable i).fds j).kind = kind at hkind ⊢
  have hend : ((s.processTable i).fds j).IsEnd kind k := ⟨hused, hkd, hindex⟩
  have hpos : 0 < (ends s kind k).card := by
    apply Finset.card_pos.mpr
    exact ⟨(i, j), mem_ends.mpr ⟨⟨hc.entry, hj⟩, hc.live, hend⟩⟩
  have huse : (s.pipeTable k).used = true := by
    by_contra hnot
    obtain ⟨hr, hw⟩ := (h.free k hk).mp (Bool.eq_false_iff.mpr hnot)
    have hreads := h.reads k hk
    have hwrites := h.writes k hk
    rcases hkind with rfl | rfl <;> omega
  have hof : pipeOf s (k : ℕ) = some k := by
    unfold pipeOf
    rw [if_neg]
    · rfl
    · rintro (hneg | hlarge | hfree)
      · exact absurd hneg (Int.not_lt.mpr (Int.natCast_nonneg k))
      · exact absurd hlarge (Int.not_le.mpr (Int.ofNat_lt.mpr hk))
      · rw [Int.toNat_natCast, huse] at hfree
        cases hfree
  have hdrop : pipeDropRef s (k : ℕ) kind = s.setPipe k (Pipe.dropRef kind) := by
    unfold pipeDropRef
    rw [hof]
  rw [hindex, hdrop]
  have hcalls : Calls (s.setPipe k (Pipe.dropRef kind)) i := hc.kept (fun _ => Iff.rfl) rfl
  have hchanged : Changed s (setCurrentFd (s.setPipe k (Pipe.dropRef kind)) j Fd.clear) i j
      Fd.clear := by
    obtain ⟨he, hi, hl, hil, hch, ho⟩ := hcalls.changed hj Fd.clear
    exact ⟨he, hi, hl, hil, hch, ho⟩
  generalize ht : setCurrentFd (s.setPipe k (Pipe.dropRef kind)) j Fd.clear = t at hchanged ⊢
  have hpipes : ∀ k', t.pipeTable k' =
      if k' = k then (s.pipeTable k).dropRef kind else s.pipeTable k' := by
    intro k'
    rw [← ht, setCurrentFd_pipeTable, setPipe_pipeTable]
  have hclear : ∀ kind k, kind = .pipeRead ∨ kind = .pipeWrite → ¬ Fd.clear.IsEnd kind k :=
    fun _ _ _ hend => Bool.false_ne_true hend.1
  have hless : (ends t kind k).card + 1 = (ends s kind k).card :=
    hchanged.ends_less (hclear kind k hkind) hend
  have hsame : ∀ kind' k', kind' = .pipeRead ∨ kind' = .pipeWrite → kind' ≠ kind ∨ k' ≠ k →
      ends t kind' k' = ends s kind' k' := by
    intro kind' k' hkind' hne
    refine hchanged.ends_same (iff_of_false (hclear kind' k' hkind') ?_)
    rintro ⟨-, heq, hindex'⟩
    rcases hne with hne | hne
    · exact hne (heq.symm.trans hkd)
    · exact hne (Int.ofNat_inj.mp (hindex'.symm.trans hindex))
  obtain ⟨hreads, hwrites, hfree⟩ := dropRef_counts kind (s.pipeTable k)
  refine ⟨fun k' hk' => ?_, fun k' hk' => ?_, fun k' hk' => ?_, ?_⟩
  · rw [hpipes]
    by_cases heq : k' = k
    · subst heq
      rw [if_pos rfl, hreads, h.reads k' hk]
      by_cases hread : kind = .pipeRead
      · subst hread
        rw [if_pos rfl]
        omega
      · rw [if_neg hread, hsame _ _ (Or.inl rfl) (Or.inl (Ne.symm hread))]
    · rw [if_neg heq, hsame _ _ (Or.inl rfl) (Or.inr heq)]
      exact h.reads k' hk'
  · rw [hpipes]
    by_cases heq : k' = k
    · subst heq
      rw [if_pos rfl, hwrites, h.writes k' hk]
      by_cases hwrite : kind = .pipeWrite
      · subst hwrite
        rw [if_pos rfl]
        omega
      · rw [if_neg hwrite, hsame _ _ (Or.inr rfl) (Or.inl (Ne.symm hwrite))]
    · rw [if_neg heq, hsame _ _ (Or.inr rfl) (Or.inr heq)]
      exact h.writes k' hk'
  · rw [hpipes]
    by_cases heq : k' = k
    · rw [if_pos heq, hfree, huse]
      split <;> simp_all
    · rw [if_neg heq]
      exact h.free k' hk'
  · apply hchanged.range h.range
    intro hclosed
    cases hclosed

theorem exact_ioClose (h : Exact s) (hc : Calls s i) (r : Request) :
    Exact (ioCloseServiceCall s r).2 := by
  unfold ioCloseServiceCall
  split
  case h_2 => exact h
  split
  · exact h
  split
  · exact h
  rename_i j hj
  obtain ⟨hlt, hused⟩ := getFd_eq hj
  dsimp only
  rw [hc.fds] at hused ⊢
  split
  · exact exact_closeEnd h hc hlt hused ‹_›
  · rename_i hkind
    refine (hc.changed hlt _).exact h (setCurrentFd_pipeTable s j _) (by decide) fun _ => ?_
    exact not_or.mp hkind

theorem freeDescriptors_changed (h : Changed s t i j fd) :
    freeDescriptors s i ≤ freeDescriptors t i + 1 := by
  unfold freeDescriptors
  rw [← List.length_cons (a := j)]
  apply List.Subperm.length_le
  apply (List.nodup_range.filter _).subperm
  intro j' hj'
  obtain ⟨hlt, hfree⟩ := List.mem_filter.mp hj'
  by_cases hj : j' = j
  · exact hj ▸ List.mem_cons_self
  · apply List.mem_cons_of_mem
    rw [List.mem_filter, h.others i j' fun heq => hj (Prod.mk.inj heq).2]
    exact ⟨hlt, hfree⟩

theorem allocFd_some (hc : Calls s i) (fd : Fd) (hfree : 0 < freeDescriptors s i) :
    ∃ n, (allocFd s fd).1 = some n := by
  obtain ⟨j, hj⟩ := List.exists_mem_of_length_pos hfree
  obtain ⟨hmem, hunused⟩ := List.mem_filter.mp hj
  unfold allocFd
  rw [hc.fds]
  cases hfind : (List.range fdMax).find? fun j => !((s.processTable i).fds j).used with
  | some j' => exact ⟨j' + 3, rfl⟩
  | none => exact absurd hunused (List.find?_eq_none.mp hfind j hmem)

theorem exact_newPipe (h : Exact s) (hc : Calls s i) (hk : k < pipeMax)
    (hunused : (s.pipeTable k).used = false) (htwo : 2 ≤ freeDescriptors s i) {p : Pipe}
    (hp : p.used = true ∧ p.readRefs = 1 ∧ p.writeRefs = 1) :
    let made := s.setPipe k fun _ => p
    ∃ n m, (allocFdPipe made k .pipeRead).1 = some n ∧
      (allocFdPipe (allocFdPipe made k .pipeRead).2 k .pipeWrite).1 = some m ∧
      Exact (allocFdPipe (allocFdPipe made k .pipeRead).2 k .pipeWrite).2 := by
  intro made
  have hmade : Calls made i := hc.kept (fun _ => Iff.rfl) rfl
  have hfree : freeDescriptors made i = freeDescriptors s i := rfl
  obtain ⟨n, hn⟩ := allocFd_some hmade ⟨true, .pipeRead, .null, 0, 0, k⟩ (by omega)
  obtain ⟨j₁, hread, hj₁, hcalls⟩ := allocFd_changed hmade _ hn
  have hone := freeDescriptors_changed hread
  obtain ⟨m, hm⟩ := allocFd_some hcalls ⟨true, .pipeWrite, .null, 0, 0, k⟩ (by omega)
  obtain ⟨j₂, hwrite, hj₂, -⟩ := allocFd_changed hcalls _ hm
  refine ⟨n, m, hn, hm, ?_⟩
  have hold : ∀ kind k, ends made kind k = ends s kind k := fun kind k =>
    ends_congr fun _ _ _ _ => Iff.rfl
  have hnot : ∀ {u : State} {j kind k}, ((u.processTable i).fds j).used = false →
      ¬ ((u.processTable i).fds j).IsEnd kind k := by
    rintro u j kind k hj ⟨hused, -⟩
    rw [hj] at hused
    cases hused
  -- the ends of other pipes are the old ones
  have hother : ∀ kind k', k' ≠ k →
      ends (allocFdPipe (allocFdPipe made k .pipeRead).2 k .pipeWrite).2 kind k' =
        ends s kind k' := by
    intro kind k' hne
    have hnew : ∀ kind', ¬ Fd.IsEnd kind k' ⟨true, kind', .null, 0, 0, k⟩ := fun kind' hend =>
      hne (Int.ofNat_inj.mp hend.2.2).symm
    rw [← hold]
    exact (hwrite.ends_same (iff_of_false (hnew _) (hnot hj₂))).trans
      (hread.ends_same (iff_of_false (hnew _) (hnot hj₁)))
  obtain ⟨hr, hw⟩ := (h.free k hk).mp hunused
  have hreads : (ends (allocFdPipe (allocFdPipe made k .pipeRead).2 k .pipeWrite).2
      .pipeRead k).card = 1 := by
    have hsame : ends _ .pipeRead k = ends _ .pipeRead k := hwrite.ends_same
      (iff_of_false (fun hend => by cases hend.2.1) (hnot hj₂))
    have hmore : (ends _ .pipeRead k).card = (ends _ .pipeRead k).card + 1 :=
      hread.ends_more ⟨rfl, rfl, rfl⟩ (hnot hj₁)
    rw [hold, ← h.reads k hk, hr] at hmore
    exact (congrArg Finset.card hsame).trans hmore
  have hwrites : (ends (allocFdPipe (allocFdPipe made k .pipeRead).2 k .pipeWrite).2
      .pipeWrite k).card = 1 := by
    have hsame : ends _ .pipeWrite k = ends _ .pipeWrite k := hread.ends_same
      (iff_of_false (fun hend => by cases hend.2.1) (hnot hj₁))
    have hmore : (ends _ .pipeWrite k).card = (ends _ .pipeWrite k).card + 1 :=
      hwrite.ends_more ⟨rfl, rfl, rfl⟩ (hnot hj₂)
    rw [hsame, hold, ← h.writes k hk, hw] at hmore
    exact hmore
  have hpipes : ∀ k', (allocFdPipe (allocFdPipe made k .pipeRead).2 k .pipeWrite).2.pipeTable k' =
      if k' = k then p else s.pipeTable k' := by
    intro k'
    rw [allocFdPipe, allocFd_pipeTable, allocFdPipe, allocFd_pipeTable, setPipe_pipeTable]
  refine ⟨fun k' hk' => ?_, fun k' hk' => ?_, fun k' hk' => ?_, ?_⟩
  · rw [hpipes]
    by_cases heq : k' = k
    · rw [if_pos heq, heq, hreads, hp.2.1]
    · rw [if_neg heq, hother _ k' heq]
      exact h.reads k' hk'
  · rw [hpipes]
    by_cases heq : k' = k
    · rw [if_pos heq, heq, hwrites, hp.2.2]
    · rw [if_neg heq, hother _ k' heq]
      exact h.writes k' hk'
  · rw [hpipes]
    by_cases heq : k' = k
    · rw [if_pos heq, hp.1, hp.2.1, hp.2.2]
      decide
    · rw [if_neg heq]
      exact h.free k' hk'
  · have hrange : InRange made := h.range
    exact hwrite.range (hread.range hrange fun _ _ => ⟨k, hk, rfl⟩) fun _ _ => ⟨k, hk, rfl⟩

theorem exact_ioPipe (h : Exact s) (hc : Calls s i) (r : Request)
    (hfree : (∃ n, r.outLen = some n ∧ 8 ≤ n) →
      (∃ k < pipeMax, (s.pipeTable k).used = false) → 2 ≤ freeDescriptors s i) :
    Exact (ioPipeServiceCall s r).2 := by
  unfold ioPipeServiceCall
  split
  case h_2 => exact h
  rename_i outLen hlen
  split
  · exact h
  rename_i hroom
  unfold pipeAlloc
  cases hfind : (List.range pipeMax).find? fun k => !(s.pipeTable k).used with
  | none => exact h
  | some k =>
    have hk := List.mem_range.mp (List.mem_of_find?_eq_some hfind)
    have hunused : (s.pipeTable k).used = false := by
      simpa using List.find?_some hfind
    have htwo := hfree ⟨outLen, hlen, Nat.le_of_not_lt hroom⟩ ⟨k, hk, hunused⟩
    obtain ⟨n, m, hn, hm, hexact⟩ := exact_newPipe (p := { s.pipeTable k with
        used := true
        buffer := { (s.pipeTable k).buffer with readPos := 0, writePos := 0, size := 0 }
        readRefs := 1
        writeRefs := 1 }) h hc hk hunused htwo ⟨rfl, rfl, rfl⟩
    have hmade : (s.setPipe k fun p => { p with
        used := true
        buffer := { p.buffer with readPos := 0, writePos := 0, size := 0 }
        readRefs := 1
        writeRefs := 1 }) = s.setPipe k fun _ => { s.pipeTable k with
          used := true
          buffer := { (s.pipeTable k).buffer with readPos := 0, writePos := 0, size := 0 }
          readRefs := 1
          writeRefs := 1 } := rfl
    dsimp only at hn hm hexact ⊢
    rw [hmade, hn, hm]
    exact hexact

theorem exact_step (h : Exact s) {e : Event} (hp : Possible s e) (hc : Careful s e) :
    Exact (step s e).2 := by
  cases e with
  | create parentPid pid => exact exact_processAlloc h parentPid pid hc
  | finish index state exitCode => exact exact_processFinish h index exitCode hp hc
  | reap index => exact exact_processReap h index hc
  | load bytes => exact h.unchanged rfl fun _ => ⟨rfl, rfl, rfl⟩
  | call index c =>
    obtain ⟨hlt, hlive⟩ := hp
    have hcalls := Calls.of_live hlt hlive
    have hexact : Exact { s with processIndex := index } := h.unchanged rfl fun _ => ⟨rfl, rfl, rfl⟩
    cases c with
    | write r =>
      obtain ⟨hp, hpipes⟩ := ioWrite_frame { s with processIndex := index } r
      exact hexact.unchanged hp hpipes
    | read typed r => exact exact_ioRead hexact hcalls typed r
    | «open» files r => exact exact_ioOpen hexact hcalls files r
    | close r => exact exact_ioClose hexact hcalls r
    | pipe r => exact exact_ioPipe hexact hcalls r hc

theorem exact_boot (hp : ∀ i, (s.processTable i).used = false)
    (hpipes : ∀ k, (s.pipeTable k).used = false ∧ (s.pipeTable k).readRefs = 0 ∧
      (s.pipeTable k).writeRefs = 0) : Exact s := by
  have hdead : ∀ i, ¬ Live s i := by
    rintro i ⟨hused, -⟩
    rw [hp i] at hused
    cases hused
  have hnone : ∀ kind k, (ends s kind k).card = 0 := by
    intro kind k
    rw [Finset.card_eq_zero, Finset.eq_empty_iff_forall_notMem]
    rintro ⟨i, j⟩ hmem
    exact hdead i (mem_ends.mp hmem).2.1
  refine ⟨fun k _ => ?_, fun k _ => ?_, fun k _ => ?_, fun i _ hlive => (hdead i hlive).elim⟩
  · rw [hnone, (hpipes k).2.1]
  · rw [hnone, (hpipes k).2.2]
  · exact iff_of_true (hpipes k).1 (hpipes k).2

theorem exact_reaches (h : Reaches Careful s) : Exact s := by
  induction h with
  | boot s processes pipes => exact exact_boot processes pipes
  | step e _ possible ok ih => exact exact_step ih possible ok

/-- As long as processes close their pipes before they end, and make pipes only with two free
descriptors, the counts of each pipe are the numbers of its open ends; it is free exactly when it has
none; and a reader of an empty pipe without writers sees its end. -/
theorem pipe_refs_exact (h : Reaches Careful s) (hk : k < pipeMax) :
    (s.pipeTable k).readRefs = (ends s .pipeRead k).card ∧
    (s.pipeTable k).writeRefs = (ends s .pipeWrite k).card ∧
    ((s.pipeTable k).used = false ↔ ends s .pipeRead k = ∅ ∧ ends s .pipeWrite k = ∅) ∧
    ∀ (fd : Fd) (len : ℕ), pipeOf s fd.pipeIndex = some k → (s.pipeTable k).buffer.size = 0 →
      ends s .pipeWrite k = ∅ → (readPipe s fd len).1 = ⟨0, []⟩ := by
  have hexact := exact_reaches h
  have hreads := hexact.reads k hk
  have hwrites := hexact.writes k hk
  refine ⟨hreads, hwrites, ?_, fun fd len hof hempty hnone => ?_⟩
  · rw [hexact.free k hk, hreads, hwrites, Finset.card_eq_zero, Finset.card_eq_zero]
  · rw [hnone, Finset.card_empty] at hwrites
    unfold readPipe
    rw [hof]
    dsimp only
    rw [if_pos hempty, if_pos hwrites]

def firstProcess : State := (step bootState (.create 0 0)).2

def makePipe : Event := .call 0 (.pipe ⟨none, fun _ => 0, some 8⟩)

theorem firstProcess_reaches {allowed : State → Event → Prop}
    (h : allowed bootState (.create 0 0)) : Reaches allowed firstProcess :=
  (Reaches.boot bootState (fun _ => rfl) fun _ => ⟨rfl, rfl, rfl⟩).step _ trivial h

theorem first_pipe_exact :
    ((step firstProcess makePipe).2.pipeTable 0).readRefs =
      (ends (step firstProcess makePipe).2 .pipeRead 0).card := by
  have hfirst : Reaches Careful firstProcess := by
    apply firstProcess_reaches
    rintro i - ⟨hused, -⟩
    cases hused
  exact (pipe_refs_exact (hfirst.step makePipe (by decide) fun _ _ => by decide) (by decide)).1

/-- A process makes a pipe, exits and is reaped: nobody has the pipe any more, and it stays in use. -/
def leakedPipe : State :=
  (step (step (step firstProcess makePipe).2 (.finish 0 .zombie 0)).2 (.reap 0)).2

theorem exited_process_leaks_pipe : Reaches (fun _ _ => True) leakedPipe ∧
    (leakedPipe.pipeTable 0).used = true ∧ (leakedPipe.pipeTable 0).readRefs = 1 ∧
    (∀ i < processMax, (leakedPipe.processTable i).used = false) ∧
    ends leakedPipe .pipeRead 0 = ∅ ∧ ends leakedPipe .pipeWrite 0 = ∅ := by
  have hunused : ∀ i < processMax, (leakedPipe.processTable i).used = false := by decide
  have hnone : ∀ kind, ends leakedPipe kind 0 = ∅ := by
    intro kind
    rw [Finset.eq_empty_iff_forall_notMem]
    rintro ⟨i, j⟩ hmem
    obtain ⟨⟨hi, -⟩, ⟨hused, -⟩, -⟩ := mem_ends.mp hmem
    rw [hunused i hi] at hused
    cases hused
  exact ⟨(((firstProcess_reaches trivial).step makePipe (by decide) trivial).step _ (by decide)
    trivial).step _ trivial trivial, by decide, by decide, hunused, hnone _, hnone _⟩

end UserMode
