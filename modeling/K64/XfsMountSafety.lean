import K64.XfsExtentOperations
import K64.XfsFormatSafety

/-! # Steady systems

A mounted volume keeps the layout it was formatted with, and an unmounted one has everything on the
device. Every public call keeps this on a device that may fail at any time. -/
namespace XfsMountSafety

open IoProgram IoContract XfsFormat XfsCache XfsCacheRefinement XfsJournal XfsInode XfsCalls
  XfsVolumeLifecycle XfsMounting XfsSystem XfsRuns XfsWrittenBlocks XfsExtentSafety
  XfsExtentOperations XfsFormatSafety

structure Parked (total : ℕ) (m : Machine) : Prop where
  clean : ∀ i n, XfsCacheRefinement.Holds m i n → (m.cache.entries i).dirty = false
  super : SuperOk total (m.dev.block 0)

structure Steady (total : ℕ) (s : System) : Prop where
  guarded : Guarded s.machine
  placed : s.fs.mounted = true → Placed total s.fs
  parked : s.fs.mounted = false → Parked total s.machine

abbrev mwp {α : Type} (f : XfsM α) (P : Option α → Xfs → Machine → Prop) (fs : Xfs) (m : Machine) :
    Prop := Proc.wp machine (fun _ _ => True) f P fs m

variable {total n : ℕ} {fs : Xfs} {m : Machine} {d : Device} {b : XBlock} {dev : Geometry}
  {s t : System}

theorem steady_of_placed (hp : Placed total fs) (hg : Guarded m) : Steady total ⟨fs, m⟩ :=
  ⟨hg, fun _ => hp, fun h => by rw [hp.mounted] at h; cases h⟩

theorem Parked.block (h : Parked total m) (hinv : CacheInvariant m) (n : ℕ) :
    view m n = m.dev.block n :=
  view_eq hinv (fun i hi => hinv.clean i n hi (h.clean i n hi)) fun _ => rfl

theorem mwp_meets {α : Type} {P : α → Prop} {f : XfsM α} (hf : MeetsBlocks total P f)
    (hp : Placed total fs) (hg : Guarded m) :
    mwp f (fun _ fs' m' => Placed total fs' ∧ Guarded m') fs m :=
  Proc.wp_mono (hf.wp machine_honours hp hg) fun _ _ _ h => h.2

theorem cache_write_view (hg : Guarded m) (hn : n < 3 ∨ 35 ≤ n) (hb : BlockGood n b) :
    mwp (cacheWrite n b) (fun r fs' m' => fs' = fs ∧ Guarded m' ∧ (r = some () → view m' n = b))
      fs m := by
  have hwrite := hg.write (not_journal hn) hb
  obtain ⟨-, hview⟩ := cache_write_refines hg.cache n b
  simp only [mwp, cacheWrite, Proc.wp_bind, Proc.wp_request, Proc.wpNext_some, Proc.wp_guard,
    machine, true_and]
  split
  next hok =>
    refine ⟨hwrite, fun _ => ?_⟩
    rw [hview, if_pos hok, Function.update_self]
  next => exact ⟨hwrite, by rintro ⟨⟩⟩

theorem block_write_view (hp : Placed total fs) (hg : Guarded m) (hn : n < 3 ∨ 35 ≤ n)
    (hb : BlockGood n b) : mwp (xfsBlockWrite n b) (fun r fs' m' => Placed total fs' ∧ Guarded m' ∧
      (r = some () → view m' n = b)) fs m := by
  have hcache : ∀ {fs : Xfs} {m : Machine}, Placed total fs → Guarded m →
      mwp (cacheWrite n b) (fun r fs' m' => Placed total fs' ∧ Guarded m' ∧
        (r = some () → view m' n = b)) fs m := by
    intro fs m hp hg
    refine Proc.wp_mono (cache_write_view hg hn hb) ?_
    rintro r fs' m' ⟨rfl, hm', hview⟩
    exact ⟨hp, hm', hview⟩
  rw [mwp, xfsBlockWrite, Proc.wp_bind, Proc.wp_load, Proc.wpNext_some]
  split
  · refine Proc.wp_seq (mwp_meets (meets_journalMetadata n b) hp hg) ?_ ?_
    · exact fun fs' m' h => ⟨h.1, h.2, by rintro ⟨⟩⟩
    · exact fun _ fs' m' h => hcache h.1 h.2
  · exact hcache hp hg

theorem super_ok (hp : Placed total fs) (hstate : fs.super.mountState = mountClean) :
    SuperOk total (superBlock fs) := by
  constructor <;> rw [record_superBlock]
  · exact hp.layout.update _ _ _ _
  · exact hp.total
  · exact hstate

theorem flush_parked (hg : Guarded m) (hs : SuperOk total (view m 0)) :
    mwp cacheFlush (fun r fs' m' => fs' = fs ∧ Guarded m' ∧ (r = some () → Parked total m')) fs
      m := by
  have hflush := hg.flush
  obtain ⟨hinv, hview, hholds, -, hdone⟩ := flush_slots_refines (List.finRange 64) hg.cache
  simp only [mwp, cacheFlush, Proc.wp_bind, Proc.wp_request, Proc.wpNext_some, Proc.wp_guard,
    machine, true_and]
  split
  next hok =>
    have hclean : ∀ i n, XfsCacheRefinement.Holds (k64XfsCacheFlush m).2 i n →
        ((k64XfsCacheFlush m).2.cache.entries i).dirty = false :=
      fun i n hi => hdone hok i (List.mem_finRange i) hi.1
    refine ⟨hflush, fun _ => ⟨hclean, ?_⟩⟩
    have hblock : view (k64XfsCacheFlush m).2 0 = (k64XfsCacheFlush m).2.dev.block 0 :=
      view_eq hinv (fun i hi => hinv.clean i 0 hi (hclean i 0 hi)) fun _ => rfl
    rw [← hblock, k64XfsCacheFlush, hview]
    exact hs
  next => exact ⟨hflush, by rintro ⟨⟩⟩

theorem sync_parked (hp : Placed total fs) (hg : Guarded m) :
    mwp k64XfsSync (fun r fs' m' => Placed total fs' ∧ Guarded m' ∧
      (r = some () → Parked total m')) fs m := by
  have hclean : Placed total (fs.withState mountClean) := hp.changed _ _ _ rfl rfl
  simp only [mwp, k64XfsSync, Proc.wp_bind, Proc.wp_load, Proc.wpNext_some, Proc.wp_guard,
    hp.mounted, if_true, Proc.wp_update, xfsWriteSuper, setTmp]
  have htmp : ∀ b, Placed total ((fs.withState mountClean).withTmp b) :=
    fun b => hclean.changed _ _ _ rfl rfl
  refine Proc.wp_mono (block_write_view (htmp _) hg (Or.inl (by decide))
    (good_outside (Or.inl (by decide)))) ?_
  rintro (_ | _) fs' m' ⟨hp', hg', hview⟩
  · exact ⟨hp', hg', by rintro ⟨⟩⟩
  · have hs : SuperOk total (view m' 0) := by
      rw [hview rfl]
      exact super_ok hclean rfl
    rw [Proc.wpNext_some]
    refine Proc.wp_mono (flush_parked hg' hs) ?_
    rintro r fs'' m'' ⟨rfl, hg'', hparked⟩
    exact ⟨hp', hg'', hparked⟩

theorem unmount_steady (hp : Placed total fs) (hg : Guarded m) :
    mwp k64XfsUnmount (fun _ fs' m' => Steady total ⟨fs', m'⟩) fs m := by
  rw [mwp, k64XfsUnmount, Proc.wp_bind]
  refine Proc.wp_mono (sync_parked hp hg) ?_
  rintro (_ | _) fs' m' ⟨hp', hg', hparked⟩
  · exact steady_of_placed hp' hg'
  · exact ⟨hg', by rintro ⟨⟩, fun _ => hparked rfl⟩

theorem no_holds_blank (i : Fin 64) (n : ℕ) : ¬ XfsCacheRefinement.Holds ⟨k64XfsCacheInit, d⟩ i n := by
  intro hi
  simp [XfsCacheRefinement.Holds, k64XfsCacheInit] at hi

theorem guarded_blank (hgood : ∀ n, BlockGood n (d.block n)) : Guarded ⟨k64XfsCacheInit, d⟩ :=
  ⟨cache_init_invariant d, fun i n hi => absurd hi (no_holds_blank i n), fun n => by
    rw [view_of_free fun i => no_holds_blank i n]
    exact hgood n⟩

theorem read_blank (d : Device) (n : ℕ) :
    (k64XfsCacheRead ⟨k64XfsCacheInit, d⟩ n).2.dev.block = d.block ∧
      ∀ i k, XfsCacheRefinement.Holds (k64XfsCacheRead ⟨k64XfsCacheInit, d⟩ n).2 i k →
        ((k64XfsCacheRead ⟨k64XfsCacheInit, d⟩ n).2.cache.entries i).dirty = false := by
  have hfind : cacheFind k64XfsCacheInit n = none :=
    cacheFind_none (m := ⟨k64XfsCacheInit, d⟩).mpr fun i => no_holds_blank i n
  have hvictim : cacheVictim ⟨k64XfsCacheInit, d⟩ =
      (some (victimSlot k64XfsCacheInit), ⟨k64XfsCacheInit, d⟩) := by
    simp [cacheVictim, k64XfsCacheInit]
  have hblock : (xfsRawRead d n).2.block = d.block := funext (raw_read_block d n)
  unfold k64XfsCacheRead
  simp only [hfind, hvictim]
  rcases hr : xfsRawRead d n with ⟨_ | b, dev⟩
  · rw [hr] at hblock
    exact ⟨hblock, fun i k hi => absurd hi (no_holds_blank i k)⟩
  · rw [hr] at hblock
    refine ⟨hblock, fun i k hi => ?_⟩
    by_cases hiv : i = victimSlot k64XfsCacheInit
    · simp [Machine.touch, hiv]
    · have hkept : ∀ e, Function.update k64XfsCacheInit.entries (victimSlot k64XfsCacheInit) e i =
          k64XfsCacheInit.entries i := fun e => Function.update_of_ne hiv _ _
      simp only [Machine.touch, hkept]
      rfl

theorem mount_super_parked (hgood : ∀ n, BlockGood n (m.dev.block n))
    (hsuper : SuperOk total (m.dev.block 0))
    (hsector : WholeSectors dev) :
    mwp (mountSuper dev) (fun r fs' m' => Guarded m' ∧
      (r = none → fs'.mounted = false ∧ Parked total m') ∧
      ∀ sb, r = some sb → Placed total fs' ∧ needsRecovery sb = false) fs m := by
  have hlayout := hsuper.layout
  have htotal := hsuper.total
  have hstate := hsuper.state
  obtain ⟨hres, hread⟩ := (guarded_blank hgood).read (n := 0) (not_journal (Or.inl (by decide)))
  obtain ⟨hblock, hclean⟩ := read_blank m.dev 0
  have hdata := (cache_read_refines (cache_init_invariant m.dev) 0).2.2
  rw [view_of_free fun i => no_holds_blank i 0] at hdata
  have hparked : Parked total (k64XfsCacheRead ⟨k64XfsCacheInit, m.dev⟩ 0).2 :=
    ⟨hclean, by rw [hblock]; exact hsuper⟩
  simp only [mwp, mountSuper, Proc.wp_bind, Proc.wp_guard, hsector, if_true, Proc.wpNext_some,
    Proc.wp_update, cacheInit, Proc.wp_request, xfsBlockReadTmp, xfsBlockRead, cacheRead,
    Proc.wp_orFail, machine, true_and]
  generalize k64XfsCacheRead ⟨k64XfsCacheInit, m.dev⟩ 0 = r at hres hread hdata hparked
  obtain ⟨_ | b, m'⟩ := r
  · exact ⟨hread, fun _ => ⟨rfl, hparked⟩, by rintro sb ⟨⟩⟩
  · obtain rfl : b = m.dev.block 0 := hdata b rfl
    simp only [Proc.wpNext_some, Proc.wp_bind, setTmp, Proc.wp_update, Proc.wp_pure, Proc.wp_guard]
    generalize (m.dev.block 0).record superblockCodec 0 = sb at hlayout htotal hstate ⊢
    split
    · refine ⟨hread, by rintro ⟨⟩, fun sb' hsb => ?_⟩
      obtain rfl := Option.some.inj hsb
      refine ⟨⟨rfl, hlayout, htotal⟩, ?_⟩
      rw [needsRecovery, hstate]
      decide
    · exact ⟨hread, fun _ => ⟨rfl, hparked⟩, by rintro sb' ⟨⟩⟩

theorem mount_steady (hgood : ∀ n, BlockGood n (m.dev.block n))
    (hsuper : SuperOk total (m.dev.block 0))
    (hsector : WholeSectors dev) :
    mwp (k64XfsMount dev) (fun r fs' m' => Steady total ⟨fs', m'⟩ ∧
      (r = some () → fs'.mounted = true)) fs m := by
  rw [mwp, k64XfsMount, Proc.wp_bind]
  refine Proc.wp_mono (mount_super_parked hgood hsuper hsector) ?_
  rintro (_ | sb) fs' m' ⟨hg, hnone, hsome⟩
  · obtain ⟨hm, hparked⟩ := hnone rfl
    exact ⟨⟨hg, fun h => by rw [hm] at h; (cases h), fun _ => hparked⟩, by rintro ⟨⟩⟩
  · obtain ⟨hp, hstate⟩ := hsome sb rfl
    simp only [Proc.wpNext_some, hstate, Bool.false_eq_true, if_false]
    have hrest : MeetsBlocks total (fun _ => True) (do
        Proc.update fun fs => fs.withState mountDirty
        xfsWriteSuper
        cacheFlush) :=
      Proc.Meets.bind (P := fun _ => True) (meets_update fun fs h => h.changed _ _ _ rfl rfl)
        fun _ _ => meets_writeSuper.bind fun _ _ => meets_flush
    exact Proc.wp_mono (mwp_meets hrest hp hg) fun _ _ _ h =>
      ⟨steady_of_placed h.1 h.2, fun _ => h.1.mounted⟩

theorem fresh_steady {label : CString} (h : FreshMount label s t) :
    Steady (xfsFsBlocks (System.geometry s)) t ∧ t.fs.mounted = true := by
  obtain ⟨hgood, hsuper⟩ := format_written h.formatted
  have hok := (format_accepts h.formatted).1
  obtain ⟨hsteady, hmounted⟩ := Proc.wp_exec (mount_steady hgood hsuper (sector_of_ok hok))
  obtain ⟨_, hdone⟩ := Option.isSome_iff_exists.mp h.mounted
  rw [h.result]
  exact ⟨hsteady, hmounted hdone⟩

theorem call_kept {f : XfsM Unit}
    (h : mwp f (fun _ fs' m' => fs' = s.fs ∧ m' = s.machine) s.fs s.machine) : (s.call f).2 = s := by
  obtain ⟨hfs, hm⟩ := Proc.wp_exec h
  rw [System.call, hfs, hm]

theorem idle_kept (hm : s.fs.mounted = false) {call : PublicCall} (hc : call ≠ .mount) :
    (s.call (call.proc dev)).2 = s := by
  have hread : ∀ {α : Type} {f : XfsV α},
      Proc.wp (idle s.fs) idleGuard f (fun r _ _ => r = none) () () →
      mwp (do let _ ← lowered f) (fun _ fs' m' => fs' = s.fs ∧ m' = s.machine) s.fs s.machine := by
    intro α f hw
    rw [mwp, Proc.wp_bind]
    refine Proc.wp_mono (lowered_idle hm hw) ?_
    rintro r fs' m' ⟨rfl, rfl, rfl⟩
    exact ⟨rfl, rfl⟩
  apply call_kept
  cases call with
  | operation op => exact Proc.wp_mono (lowered_idle hm (idle_operation op)) fun _ _ _ h => h.2
  | stat path => exact hread (idle_stat path)
  | listDir path outSize => exact hread (idle_listDir path outSize)
  | readFile path max => exact hread (idle_readFile path max)
  | check => simp [mwp, PublicCall.proc, k64XfsCheck, checkSuper, hm]
  | sync => simp [mwp, PublicCall.proc, k64XfsSync, hm]
  | unmount => simp [mwp, PublicCall.proc, k64XfsUnmount, k64XfsSync, hm]
  | mount => exact absurd rfl hc

theorem meets_lowered {α : Type} {P : α → Prop} {f : XfsV α} (h : MeetsCalls P f) :
    MeetsBlocks total P (lowered f) := h.lower implementation_meets

theorem call_placed {f : XfsM Unit} (hf : MeetsBlocks total (fun _ => True) f)
    (hp : Placed total s.fs) (hg : Guarded s.machine) : Steady total (s.call f).2 :=
  steady_of_placed (Proc.wp_exec (mwp_meets hf hp hg)).1 (Proc.wp_exec (mwp_meets hf hp hg)).2

theorem call_steady (h : Steady total s) {call : PublicCall}
    (proper : call = .mount → s.fs.mounted = false) :
    Steady total (s.call (call.proc dev)).2 := by
  by_cases hm : s.fs.mounted = true
  · have hp := h.placed hm
    cases call with
    | operation op => exact call_placed (meets_lowered (operation_meets op)) hp h.guarded
    | stat path =>
      exact call_placed ((meets_lowered (stat_meets path)).bind fun _ _ => meets_pure trivial) hp
        h.guarded
    | listDir path outSize =>
      exact call_placed ((meets_lowered (listDir_meets path outSize)).bind
        fun _ _ => meets_pure trivial) hp h.guarded
    | readFile path max =>
      exact call_placed ((meets_lowered (readFile_meets path max)).bind
        fun _ _ => meets_pure trivial) hp h.guarded
    | check => exact call_placed (meets_check.bind fun _ _ => meets_pure trivial) hp h.guarded
    | sync => exact call_placed meets_sync hp h.guarded
    | unmount => exact Proc.wp_exec (unmount_steady hp h.guarded)
    | mount =>
      rw [proper rfl] at hm
      cases hm
  · rw [Bool.not_eq_true] at hm
    by_cases hc : call = .mount
    · subst hc
      have hparked := h.parked hm
      have hblock := hparked.block h.guarded.cache
      by_cases hsector : (dev.blockSize != 0 && 4096 % dev.blockSize.toNat == 0) = true
      · refine (Proc.wp_exec (mount_steady (fun n => ?_) hparked.super hsector)).1
        rw [← hblock]
        exact h.guarded.good n
      · have hkept : (s.call (k64XfsMount dev)).2 = s := by
          apply call_kept
          simp only [mwp, k64XfsMount, mountSuper, Proc.wp_bind, Proc.wp_guard, if_neg hsector]
          exact ⟨rfl, rfl⟩
        rw [PublicCall.proc, hkept]
        exact h
    · rw [idle_kept hm hc]
      exact h

theorem run_steady {calls : List (PublicCall × Bool)} (hrun : Run dev s calls t)
    (h : Steady total s) : Steady total t := by
  induction hrun with
  | nil s => exact h
  | cons proper _ ih => exact ih (call_steady h proper)

end XfsMountSafety
