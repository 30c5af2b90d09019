import K64.XfsSystem

/-! # Runs from a formatted volume

A volume is formatted, mounted and then called any number of times. As long as every call succeeds
no transaction stays open, so each call finds a consistent volume and a journal with room. -/
namespace XfsRuns

open ByteCodec IoProgram XfsFormat XfsCache XfsCacheRefinement XfsJournal XfsInode XfsCalls
  XfsLogicalDisk XfsVolume XfsVolumeRefinement XfsVolumeLifecycle XfsConsistency XfsDirectoryUpdate
  XfsOperationEffects XfsRenameEffect XfsMounting XfsFormatting XfsSystem

def System.geometry (s : System) : Geometry := s.machine.dev.toGeometry

/-- `t` is `s` after a successful `k64_xfs_format` and a successful `k64_xfs_mount`. -/
structure FreshMount (label : CString) (s t : System) : Prop where
  formatted : (s.call (k64XfsFormat (System.geometry s) label)).1.isSome = true
  mounted : ((s.call (k64XfsFormat (System.geometry s) label)).2.call
    (k64XfsMount (System.geometry s))).1.isSome = true
  result : t = ((s.call (k64XfsFormat (System.geometry s) label)).2.call
    (k64XfsMount (System.geometry s))).2

variable {label : CString} {s t u : System}

theorem format_accepts {dev : Geometry} (h : (s.call (k64XfsFormat dev label)).1.isSome = true) :
    xfsDevOk dev = true ∧ (decide (xfsDataStart + 1 < xfsFsBlocks dev) &&
      decide (xfsFsBlocks dev ≤ 2 ^ 32 - 1)) = true := by
  have hguard : ∀ {c : Bool} {f : Unit → XfsM Unit}, c ≠ true →
      (s.call (Proc.guard c >>= f)).1.isSome = false := by
    intro c f hc
    rw [Bool.not_eq_true c |>.mp hc]
    rfl
  by_cases hok : xfsDevOk dev = true
  case neg =>
    rw [k64XfsFormat, hguard hok] at h
    cases h
  refine ⟨hok, ?_⟩
  by_contra hb
  rw [k64XfsFormat, guard_bind hok, hguard hb] at h
  cases h

theorem sector_of_ok {dev : Geometry} (hok : xfsDevOk dev = true) :
    WholeSectors dev := by
  simp only [xfsDevOk, Bool.and_eq_true] at hok ⊢
  exact ⟨hok.1.1.2, hok.1.2⟩

theorem represents_blank {dev : Device} {size : ℕ} (hw : Working dev size) :
    Represents noRaw ⟨k64XfsCacheInit, dev⟩ ⟨size, dev.block, true, []⟩ := by
  have hno : ∀ i n, ¬ XfsCacheRefinement.Holds ⟨k64XfsCacheInit, dev⟩ i n := by
    intro i n hi
    simp [XfsCacheRefinement.Holds, k64XfsCacheInit] at hi
  exact ⟨cache_init_invariant dev, hw, fun n _ => view_of_free fun i => hno i n,
    fun n hn => absurd hn (by simp [noRaw]), fun i n hi => absurd hi (hno i n),
    fun _ i n hi => absurd hi (hno i n), by simp [rawLog, noRaw]⟩

theorem call_mount {dev : Geometry}
    (hsector : WholeSectors dev) (s : System) :
    s.call (k64XfsMount dev) =
      (System.mk s.fs { s.machine with cache := k64XfsCacheInit }).call (k64XfsMount dev) := by
  rw [System.call, System.call, mount_init hsector]

theorem format_represents (label : CString) (hok : xfsDevOk (System.geometry s) = true)
    (hlow : 83 < xfsFsBlocks (System.geometry s))
    (hhigh : xfsFsBlocks (System.geometry s) ≤ 2 ^ 32 - 1)
    (hf : ∀ i, s.machine.dev.faults i = false) :
    (s.call (k64XfsFormat (System.geometry s) label)).1 = some () ∧
    ∃ d, Represents noRaw (s.call (k64XfsFormat (System.geometry s) label)).2.machine d ∧
      FormattedBlocks (Superblock.sealed (formatSuper (xfsFsBlocks (System.geometry s)) label.bytes))
        ⟨xfsFsBlocks (System.geometry s), s.machine.dev.block, true, []⟩ d := by
  have hbounds : (decide (xfsDataStart + 1 < xfsFsBlocks (System.geometry s)) &&
      decide (xfsFsBlocks (System.geometry s) ≤ 2 ^ 32 - 1)) = true := by
    rw [show xfsDataStart = 82 from rfl, Bool.and_eq_true, decide_eq_true_eq, decide_eq_true_eq]
    exact ⟨hlow, hhigh⟩
  have hblank := represents_blank (working_of_ok hok hhigh hf)
  obtain ⟨d, hr, hdone, hfb⟩ := exec_of_wp hblank (format_disk (f := s.fs) label hok hlow hhigh rfl
    (Nat.le_refl _))
  have hcall : s.call (k64XfsFormat (System.geometry s) label) =
      (System.mk s.fs ⟨k64XfsCacheInit, s.machine.dev⟩).call
        (k64XfsFormat (System.geometry s) label) := by
    rw [System.call, System.call, format_init label hok hbounds]
  rw [hcall]
  exact ⟨hdone, d, hr, hfb⟩

theorem format_mount (label : CString) (hok : xfsDevOk (System.geometry s) = true)
    (hlow : 83 < xfsFsBlocks (System.geometry s))
    (hsmall : xfsFsBlocks (System.geometry s) ≤ 32768)
    (hf : ∀ i, s.machine.dev.faults i = false) :
    FreshMount label s ((s.call (k64XfsFormat (System.geometry s) label)).2.call
      (k64XfsMount (System.geometry s))).2 ∧
    XfsSystem.Holds (xfsFsBlocks (System.geometry s))
      ((s.call (k64XfsFormat (System.geometry s) label)).2.call (k64XfsMount (System.geometry s))).2
      (mountedVolume (formatted (xfsFsBlocks (System.geometry s)) s.machine.dev.block) 1) := by
  obtain ⟨hdone, d₁, hr₁, hfb⟩ :=
    format_represents label hok hlow (Nat.le_trans hsmall (by decide)) hf
  have hclean := (hfb.clean hok hlow hsmall rfl).withRaws
    (rawLog journalArea (s.call (k64XfsFormat (System.geometry s) label)).2.machine.dev)
  have hfresh := represents_fresh hr₁ hfb.flushed journalArea
  obtain ⟨d₂, hsize, hr₂, hsome, hs₂, -, -⟩ := call_of_wp
    (s := ⟨(s.call (k64XfsFormat (System.geometry s) label)).2.fs, _⟩) hfresh (mount_disk hclean _)
  have hmount := call_mount (sector_of_ok hok) (s.call (k64XfsFormat (System.geometry s) label)).2
  refine ⟨⟨?_, ?_, rfl⟩, d₂, hsize.trans hfb.size, ?_, ?_, nofun⟩
  · rw [hdone]
    rfl
  · rw [hmount]
    exact Option.isSome_iff_exists.mpr ⟨_, hsome⟩
  · rw [hmount]
    exact hr₂
  · rw [hmount]
    exact hs₂

theorem fresh_holds (h : FreshMount label s t) (hf : ∀ i, s.machine.dev.faults i = false)
    (hsmall : xfsFsBlocks (System.geometry s) ≤ 32768) :
    84 ≤ xfsFsBlocks (System.geometry s) ∧ xfsDevOk (System.geometry s) = true ∧
      XfsSystem.Holds (xfsFsBlocks (System.geometry s)) t
        (mountedVolume (formatted (xfsFsBlocks (System.geometry s)) s.machine.dev.block) 1) := by
  obtain ⟨hok, hbounds⟩ := format_accepts h.formatted
  have hlow : 83 < xfsFsBlocks (System.geometry s) := by
    simp only [Bool.and_eq_true, decide_eq_true_eq] at hbounds
    exact hbounds.1
  rw [h.result]
  exact ⟨hlow, hok, (format_mount label hok hlow hsmall hf).2⟩

/-- A device of 84 filesystem blocks, the smallest one that can be formatted. -/
def smallDevice : Device where
  blockSize := 512
  blockCount := 672
  online := true
  writable := true
  hasRead := true
  hasWrite := true
  base _ := Block.zero
  log := []
  faults _ := false
  calls := 0

def blankSystem (dev : Device) : System :=
  ⟨⟨false, Superblock.zero, 0, 0, false, Block.zero⟩, ⟨k64XfsCacheInit, dev⟩⟩

theorem noNul_nil : (0 : UInt8) ∉ ([] : List UInt8) := List.not_mem_nil

/-- A device after a format with the default label and a mount. -/
def freshSystem (dev : Device) : System :=
  (((blankSystem dev).call (k64XfsFormat dev.toGeometry ⟨[], by simp⟩)).2.call
    (k64XfsMount dev.toGeometry)).2

theorem fresh_smallDevice :
    FreshMount ⟨[], by simp⟩ (blankSystem smallDevice) (freshSystem smallDevice) :=
  (format_mount (s := blankSystem smallDevice) ⟨[], by simp⟩ (by decide) (by decide) (by decide)
    fun _ => rfl).1

/-- A consistent volume between two successful calls. -/
structure Steady (total : ℕ) (s : System) (V : Volume) : Prop where
  holds : XfsSystem.Holds total s V
  consistent : Consistent V.content
  closed : V.journalActive = false

variable {total : ℕ} {V V' : Volume} {dev : Geometry}

theorem Steady.room (h : Steady total s V) (hm : V.mounted = true) : Room 12 V :=
  ⟨hm, fun ha => by rw [h.closed] at ha; cases ha⟩

theorem operation_done {op : Operation} (h : (PublicCall.operation op).Shown V true V') :
    V.mounted = true ∧ ∃ k c n, op.effect V.content V.generation = .done k c ∧
      V' = after V (V.journalActive && k == 0) k n c := by
  rw [PublicCall.Shown] at h
  split at h
  case isFalse => cases h.1
  case isTrue hm =>
    obtain ⟨r, hr, hshown⟩ := h
    refine ⟨hm, ?_⟩
    cases he : op.effect V.content V.generation with
    | failed begun c =>
      rw [he] at hshown
      rw [hshown.1] at hr
      cases hr
    | broken =>
      rw [he] at hshown
      rw [show r = none from hshown] at hr
      cases hr
    | done k c =>
      rw [he] at hshown
      obtain ⟨-, n, hn⟩ := hshown
      exact ⟨k, c, n, rfl, hn⟩

theorem shown_steady {call : PublicCall} (hc : Consistent V.content)
    (ha : V.journalActive = false) (h : call.Shown V true V') :
    Consistent V'.content ∧ V'.journalActive = false := by
  obtain ⟨op, r, rfl, hm, -, -⟩ | ⟨hcontent, -, hidle, -⟩ := h.cases
  · obtain ⟨-, k, c, n, he, rfl⟩ := operation_done h
    exact ⟨done_consistent hc he, by simp [after, ha]⟩
  · rw [hcontent]
    exact ⟨hc, hidle ha⟩

theorem step_steady (h : Steady total s V) {a : PublicCall}
    (hp : a = .mount → s.fs.mounted = false)
    (hsector : WholeSectors dev)
    (ht : total ≤ xfsFsBlocks dev) (hok : (s.call (a.proc dev)).1.isSome = true) :
    ∃ V', Steady total (s.call (a.proc dev)).2 V' ∧ a.Shown V true V' := by
  obtain ⟨V', hholds, hshown⟩ := call_shown h.holds h.consistent h.room hp hsector ht
  rw [hok] at hshown
  obtain ⟨hc, ha⟩ := shown_steady h.consistent h.closed hshown
  exact ⟨V', ⟨hholds, hc, ha⟩, hshown⟩

theorem operation_succeeds (h : Steady total s V) (hm : V.mounted = true) {o : Operation} {k : ℕ}
    {c : Content} (he : o.effect V.content V.generation = .done k c)
    (hsector : WholeSectors dev)
    (ht : total ≤ xfsFsBlocks dev) :
    (s.call (lowered o.call)).1.isSome = true := by
  obtain ⟨V', -, hshown⟩ := call_shown (a := .operation o) h.holds h.consistent h.room nofun
    hsector ht
  rw [PublicCall.Shown, if_pos hm] at hshown
  obtain ⟨r, hr, hshown⟩ := hshown
  rw [he] at hshown
  obtain ⟨rfl, -⟩ := hshown
  exact hr

theorem run_steady {calls : List (PublicCall × Bool)} (hrun : Run dev s calls t)
    (hsector : WholeSectors dev)
    (ht : total ≤ xfsFsBlocks dev) (hok : ∀ c ∈ calls, c.2 = true) :
    ∀ {V : Volume}, Steady total s V → ∃ V', Steady total t V' := by
  induction hrun with
  | nil s => exact fun {V} h => ⟨V, h⟩
  | @cons s t call rest hp tail ih =>
    intro V h
    obtain ⟨V', h', -⟩ := step_steady h hp hsector ht (hok _ List.mem_cons_self)
    exact ih (fun c hc => hok c (List.mem_cons_of_mem _ hc)) h'

theorem fresh_run_steady {calls : List (PublicCall × Bool)} (hfresh : FreshMount label s t)
    (hf : ∀ i, s.machine.dev.faults i = false)
    (hsmall : xfsFsBlocks (System.geometry s) ≤ 32768)
    (hrun : Run (System.geometry s) t calls u) (hok : ∀ c ∈ calls, c.2 = true) :
    ∃ V, Steady (xfsFsBlocks (System.geometry s)) u V := by
  obtain ⟨h84, hdev, hholds⟩ := fresh_holds hfresh hf hsmall
  exact run_steady hrun (sector_of_ok hdev) (Nat.le_refl _) hok
    ⟨hholds, formatted_consistent _ h84 hsmall, rfl⟩

end XfsRuns
