import K64.IoFailStop
import K64.XfsExtentSafety
import K64.XfsRuns

/-! # Formatting a device that may fail

`k64_xfs_format` gives up at the first call that fails, so a format that succeeds ran as on a device
without faults. What it leaves on the device is known from there. -/
namespace XfsFormatSafety

open ByteCodec IoProgram IoFailStop XfsFormat XfsCache XfsJournal XfsInode XfsLogicalDisk
  XfsVolumeRefinement XfsVolumeLifecycle XfsFormatting XfsSystem XfsRuns XfsWrittenBlocks

def calmDevice (d : Device) : Device := { d with faults := fun _ => false }

def calm (m : Machine) : Machine := { m with dev := calmDevice m.dev }

def accepted : (q : Req) → Resp q → Prop
  | .read _, r => r.isSome = true
  | .write _ _, r => r = true
  | .flush, r => r = true
  | .init, _ => True
  | .rawRead _, r => r.isSome = true
  | .rawWrite _ _, r => r = true

variable {d : Device} {m : Machine} {n : ℕ} {b : XBlock}

theorem calm_addressable : (calmDevice d).addressable n = d.addressable n := rfl

theorem calm_inRange : (calmDevice d).inRange n = d.inRange n := rfl

theorem calm_rawRead (h : (xfsRawRead d n).1.isSome = true) :
    xfsRawRead (calmDevice d) n = ((xfsRawRead d n).1, calmDevice (xfsRawRead d n).2) := by
  unfold xfsRawRead k64BlockRead at h ⊢
  rw [calm_addressable, calm_inRange]
  split at h <;> try cases h
  split at h <;> try cases h
  split at h <;> try cases h
  split at h <;> try cases h
  simp only [*, if_false, Bool.false_eq_true]
  simp_all [calmDevice, Device.called, Device.block]

theorem calm_rawWrite (h : (xfsRawWrite d n b).1 = true) :
    xfsRawWrite (calmDevice d) n b = ((xfsRawWrite d n b).1, calmDevice (xfsRawWrite d n b).2) := by
  unfold xfsRawWrite k64BlockWrite at h ⊢
  rw [calm_addressable, calm_inRange]
  split at h <;> try cases h
  split at h <;> try cases h
  split at h <;> try cases h
  split at h <;> try cases h
  simp only [*, if_false, Bool.false_eq_true]
  simp_all [calmDevice, Device.called, Device.store]

theorem calm_victim (h : (cacheVictim m).1.isSome = true) :
    cacheVictim (calm m) = ((cacheVictim m).1, calm (cacheVictim m).2) := by
  unfold cacheVictim at h ⊢
  dsimp only [calm] at h ⊢
  split
  · rfl
  next hv =>
  rw [if_neg hv] at h
  split
  next hd =>
    rw [if_pos hd] at h
    rcases hw : xfsRawWrite m.dev (m.cache.entries (victimSlot m.cache)).blockNo
      (m.cache.entries (victimSlot m.cache)).data with ⟨_ | _, dev⟩
    · rw [hw] at h
      cases h
    · rw [calm_rawWrite (by rw [hw]), hw]
      rfl
  · rfl

theorem calm_read (h : (k64XfsCacheRead m n).1.isSome = true) :
    k64XfsCacheRead (calm m) n = ((k64XfsCacheRead m n).1, calm (k64XfsCacheRead m n).2) := by
  unfold k64XfsCacheRead at h ⊢
  rw [show (calm m).cache = m.cache from rfl]
  cases hf : cacheFind m.cache n with
  | some i => rfl
  | none =>
    simp only [hf] at h
    rcases hv : cacheVictim m with ⟨_ | v, m'⟩
    · rw [hv] at h
      cases h
    · simp only [hv] at h
      have hcalm := calm_victim (m := m) (by rw [hv]; rfl)
      rw [hv] at hcalm
      simp only [hcalm]
      rcases hr : xfsRawRead m'.dev n with ⟨_ | data, dev⟩
      · rw [hr] at h
        cases h
      · have hread := calm_rawRead (d := m'.dev) (n := n) (by rw [hr]; rfl)
        rw [hr] at hread
        simp only [show (calm m').dev = calmDevice m'.dev from rfl, hread]
        rfl

theorem calm_write (h : (k64XfsCacheWrite m n b).1 = true) :
    k64XfsCacheWrite (calm m) n b = ((k64XfsCacheWrite m n b).1, calm (k64XfsCacheWrite m n b).2) := by
  unfold k64XfsCacheWrite at h ⊢
  rw [show (calm m).cache = m.cache from rfl]
  cases hf : cacheFind m.cache n with
  | some i => rfl
  | none =>
    simp only [hf] at h
    rcases hv : cacheVictim m with ⟨_ | v, m'⟩
    · rw [hv] at h
      cases h
    · have hcalm := calm_victim (m := m) (by rw [hv]; rfl)
      rw [hv] at hcalm
      simp only [hcalm]
      rfl

theorem calm_flushSlot {i : Fin 64} (h : (flushSlot i m).1 = true) :
    flushSlot i (calm m) = ((flushSlot i m).1, calm (flushSlot i m).2) := by
  unfold flushSlot at h ⊢
  dsimp only [calm] at h ⊢
  split
  next hvd =>
    rw [if_pos hvd] at h
    rcases hw : xfsRawWrite m.dev (m.cache.entries i).blockNo (m.cache.entries i).data
      with ⟨_ | _, dev⟩
    · rw [hw] at h
      cases h
    · rw [calm_rawWrite (by rw [hw]), hw]
      rfl
  · rfl

theorem calm_flushSlots (l : List (Fin 64)) : ∀ {m : Machine}, (flushSlots l m).1 = true →
    flushSlots l (calm m) = ((flushSlots l m).1, calm (flushSlots l m).2) := by
  induction l with
  | nil => exact fun _ => rfl
  | cons i l ih =>
    intro m h
    rw [flushSlots] at h ⊢
    rcases hs : flushSlot i m with ⟨_ | _, m'⟩
    · rw [hs] at h
      cases h
    · simp only [hs] at h
      have hcalm := calm_flushSlot (m := m) (i := i) (by rw [hs])
      rw [hs] at hcalm
      simp only [hcalm, flushSlots, hs]
      exact ih h

theorem machine_calm (q : Req) (m : Machine) (h : accepted q (machine q m).1) :
    machine q (calm m) = ((machine q m).1, calm (machine q m).2) := by
  cases q with
  | read n => exact calm_read h
  | write n b => exact calm_write h
  | flush => exact calm_flushSlots _ h
  | init => rfl
  | rawRead n =>
    have hr := calm_rawRead (d := m.dev) h
    simp only [machine, show (calm m).dev = calmDevice m.dev from rfl, hr]
    rfl
  | rawWrite n b =>
    have hw := calm_rawWrite (d := m.dev) h
    simp only [machine, show (calm m).dev = calmDevice m.dev from rfl, hw]
    rfl

abbrev Stops {α : Type} (f : XfsM α) : Prop := Proc.FailStop accepted f

theorem stops_rawWrite (n : ℕ) (b : XBlock) : Stops (rawWrite n b) :=
  failStop_guarded (q := Req.rawWrite n b) fun _ h => h

theorem stops_cacheWrite (n : ℕ) (b : XBlock) : Stops (cacheWrite n b) :=
  failStop_guarded (q := Req.write n b) fun _ h => h

theorem stops_flush : Stops cacheFlush := failStop_guarded (q := Req.flush) fun _ h => h

theorem stops_init : Stops cacheInit := failStop_request (q := Req.init) fun _ => trivial

theorem stops_setTmp (b : XBlock) : Stops (setTmp b) := failStop_update _

theorem stops_readTmp (n : ℕ) : Stops (xfsBlockReadTmp n) := by
  have hread : Stops (xfsBlockRead n) :=
    failStop_answered (q := Req.read n) fun r a (h : r = some a) => h ▸ rfl
  exact hread.bind fun b => (stops_setTmp b).bind fun _ => failStop_pure b

theorem stops_journalMetadata (n : ℕ) (b : XBlock) : Stops (k64XfsJournalMetadata n b) :=
  failStop_load.bind fun _ => (failStop_guard _).bind fun _ => (failStop_guard _).bind fun _ =>
    (stops_rawWrite _ _).bind fun _ => (stops_rawWrite _ _).bind fun _ => failStop_update _

theorem stops_blockWrite (n : ℕ) (b : XBlock) : Stops (xfsBlockWrite n b) := by
  apply failStop_load.bind
  intro fs
  split
  · exact (stops_journalMetadata n b).bind fun _ => stops_cacheWrite n b
  · exact stops_cacheWrite n b

theorem stops_writeInode (inode : Inode) : Stops (xfsWriteInode inode) :=
  (failStop_guard _).bind fun _ => failStop_load.bind fun _ => (stops_readTmp _).bind fun _ =>
    (stops_setTmp _).bind fun _ => stops_blockWrite _ _

theorem stops_writeSuper : Stops xfsWriteSuper :=
  failStop_load.bind fun _ => (stops_setTmp _).bind fun _ => stops_blockWrite _ _

theorem stops_format (dev : Geometry) (label : CString) : Stops (k64XfsFormat dev label) := by
  refine (failStop_guard _).bind fun _ => (failStop_guard _).bind fun _ => ?_
  refine (failStop_update _).bind fun _ => stops_init.bind fun _ => ?_
  refine (failStop_loop (fun b => stops_blockWrite b _) _ _).bind fun _ => ?_
  refine (failStop_update _).bind fun _ => (stops_setTmp _).bind fun _ => ?_
  refine (stops_blockWrite _ _).bind fun _ => (stops_setTmp _).bind fun _ => ?_
  refine (stops_blockWrite _ _).bind fun _ => (stops_writeInode _).bind fun _ => ?_
  refine (stops_setTmp _).bind fun _ => (stops_blockWrite _ _).bind fun _ => ?_
  exact stops_writeSuper.bind fun _ => stops_flush

structure SuperOk (total : ℕ) (b : XBlock) : Prop where
  layout : Layout (b.record superblockCodec 0)
  total : (b.record superblockCodec 0).totalBlocks.toNat = total
  state : (b.record superblockCodec 0).mountState = mountClean

theorem good_zero : BlockGood n Block.zero := by
  intro _ j _ _
  rw [record_zero_block]
  exact clear_of_empty rfl

theorem good_rootBlock : BlockGood n rootBlock := by
  intro _ j _ _
  by_cases hj : j = 0
  · have hroot : rootBlock.record inodeCodec (j * 372) = Inode.sealed formatRoot := by
      rw [hj]
      exact Block.record_setRecord _ _ _ _ (by simp)
    rw [hroot]
    exact clear_singleExtent (by decide) extents_formatRoot
  · rw [record_rootBlock (by omega)]
    exact clear_of_empty rfl

variable {s : System} {label : CString}

theorem format_written (h : (s.call (k64XfsFormat (System.geometry s) label)).1.isSome = true) :
    (∀ n, BlockGood n ((s.call (k64XfsFormat (System.geometry s) label)).2.machine.dev.block n)) ∧
      SuperOk (xfsFsBlocks (System.geometry s))
        ((s.call (k64XfsFormat (System.geometry s) label)).2.machine.dev.block 0) := by
  obtain ⟨hok, hbounds⟩ := format_accepts h
  have hb : 83 < xfsFsBlocks (System.geometry s) ∧ xfsFsBlocks (System.geometry s) ≤ 2 ^ 32 - 1 := by
    rw [show xfsDataStart = 82 from rfl] at hbounds
    simpa only [Bool.and_eq_true, decide_eq_true_eq] using hbounds
  have hcalm := Proc.FailStop.exec machine_calm (stops_format (System.geometry s) label) h
  obtain ⟨-, d₁, hr₁, hfb⟩ :=
    format_represents (s := ⟨s.fs, calm s.machine⟩) label hok hb.1 hb.2 fun _ => rfl
  change FormattedBlocks (Superblock.sealed
    (formatSuper (xfsFsBlocks (System.geometry s)) label.bytes)) _ d₁ at hfb
  have hblock : ∀ n, (s.call (k64XfsFormat (System.geometry s) label)).2.machine.dev.block n =
      d₁.blk n := by
    intro n
    rw [← block_of_flushed hr₁ hfb.flushed n]
    change _ = ((k64XfsFormat (System.geometry s) label).exec machine s.fs
      (calm s.machine)).2.2.dev.block n
    rw [hcalm]
    rfl
  constructor
  · intro n
    rw [hblock]
    by_cases htable : InTable n
    · by_cases h35 : n = 35
      · rw [h35, hfb.root]
        exact good_rootBlock
      · obtain ⟨hlow, hhigh⟩ := htable
        rw [hfb.cleared n (by omega) h35, if_pos (by omega)]
        exact good_zero
    · exact fun ht => absurd ht htable
  · have hsuper : (d₁.blk 0).record superblockCodec 0 = _ := hfb.super
    constructor <;> rw [hblock, hsuper]
    · exact ((layout_formatSuper _ label.bytes).update _ _ _ _).update _ _ _ _
    · exact UInt64.toNat_ofNat'.trans (Nat.mod_eq_of_lt (by omega))
    · rfl

end XfsFormatSafety
