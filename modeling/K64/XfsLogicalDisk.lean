import K64.XfsCacheRefinement
import K64.XfsInode

/-! # The logical disk under a mounted volume

On a device that never fails, the cache and the device together act as one block array. The blocks
of a region `raw` are only reached past the cache, all others only through it; that is the guard
under which a procedure runs alike on the machine and on the array. -/
namespace XfsLogicalDisk

open IoProgram XfsFormat XfsCache XfsCacheRefinement XfsJournal

structure Disk where
  size : ℕ
  blk : ℕ → XBlock
  /-- No block is newer in the cache than on the device. -/
  flushed : Bool
  /-- The writes to the raw region, newest first. -/
  raws : List (ℕ × XBlock)

def disk : Handler Req Resp Disk
  | .read n, d => (some (d.blk n), d)
  | .write n b, d => (true, { d with blk := Function.update d.blk n b, flushed := false })
  | .flush, d => (true, { d with flushed := true })
  | .init, d => ((), d)
  | .rawRead n, d => (some (d.blk n), d)
  | .rawWrite n b, d =>
    (true, { d with blk := Function.update d.blk n b, raws := (n, b) :: d.raws })

def diskGuard (raw : ℕ → Bool) : Req → Disk → Prop
  | .read n, d => n < d.size ∧ ¬ raw n
  | .write n _, d => n < d.size ∧ ¬ raw n
  | .flush, _ => True
  | .init, d => d.flushed = true
  | .rawRead n, d => n < d.size ∧ raw n
  | .rawWrite n _, d => n < d.size ∧ raw n

/-- A device that serves every block below `size`. -/
structure Working (dev : Device) (size : ℕ) : Prop where
  healthy : ∀ i, dev.faults i = false
  online : dev.online = true
  readable : dev.hasRead = true
  stores : dev.hasWrite = true
  writable : dev.writable = true
  reaches : ∀ n < size, dev.addressable n = true ∧ dev.inRange n = true

def rawLog (raw : ℕ → Bool) (dev : Device) : List (ℕ × XBlock) := dev.log.filter fun w => raw w.1

structure Represents (raw : ℕ → Bool) (m : Machine) (d : Disk) : Prop where
  cache : CacheInvariant m
  working : Working m.dev d.size
  cached : ∀ n, ¬ raw n → view m n = d.blk n
  direct : ∀ n, raw n → m.dev.block n = d.blk n ∧ ∀ i, ¬ Holds m i n
  bounded : ∀ i n, Holds m i n → n < d.size
  settled : d.flushed = true → ∀ i n, Holds m i n → (m.cache.entries i).dirty = false
  history : rawLog raw m.dev = d.raws

variable {dev : Device} {size : ℕ}

theorem Working.called (h : Working dev size) :
    Working dev.called size := ⟨h.1, h.2, h.3, h.4, h.5, h.6⟩

theorem Working.store (h : Working dev size) (n : ℕ) (b : XBlock) :
    Working (dev.store n b) size := ⟨h.1, h.2, h.3, h.4, h.5, h.6⟩

variable {n : ℕ}

theorem Working.raw_read (h : Working dev size) (hn : n < size) :
    xfsRawRead dev n = (some (dev.block n), dev.called) := by
  simp [xfsRawRead, k64BlockRead, h.reaches n hn, h.healthy, h.online, h.readable]

theorem Working.raw_write (h : Working dev size) (hn : n < size)
    (b : XBlock) : xfsRawWrite dev n b = (true, dev.called.store n b) := by
  simp [xfsRawWrite, k64BlockWrite, h.reaches n hn, h.healthy, h.online, h.stores, h.writable]

variable {raw : ℕ → Bool} {m : Machine} {d : Disk}

theorem rawLog_store (dev : Device) (n : ℕ) (b : XBlock) :
    rawLog raw (dev.store n b) =
      if raw n then (n, b) :: rawLog raw dev else rawLog raw dev := by
  simp [rawLog, Device.store, List.filter_cons]

theorem Represents.rawLog_write_back (h : Represents raw m d) {i : Fin 64}
    (hi : Holds m i n) (b : XBlock) : rawLog raw (m.dev.called.store n b) = d.raws := by
  have hn : ¬ raw n := fun hr => (h.direct n hr).2 i hi
  rw [rawLog_store, if_neg hn]
  exact h.history

theorem victim_works (h : Represents raw m d) : ∃ v m', cacheVictim m = (some v, m') ∧
    Represents raw m' d ∧ (m'.cache.entries v).valid = false ∧
    ∀ j n, Holds m' j n → Holds m j n := by
  obtain ⟨hinv, hview, hsub, hfree⟩ := cache_victim_keeps h.cache
  have hwork : ∀ v, (m.cache.entries v).valid = true → (m.cache.entries v).dirty = true →
      (xfsRawWrite m.dev (m.cache.entries v).blockNo (m.cache.entries v).data).1 = true := by
    intro v hv _
    rw [h.working.raw_write (h.bounded v _ ⟨hv, rfl⟩)]
  rcases cache_victim_cases h.cache with ⟨hv, hc⟩ | ⟨dev, hd, hc⟩ | ⟨v, dev, rfl, hv, hdev, hd, hc⟩
  · exact ⟨_, _, hc, h, hv, fun _ _ hj => hj⟩
  · exfalso
    have hnone : (cacheVictim m).1 = none := by rw [hc]
    unfold cacheVictim at hnone
    by_cases hvalid : (m.cache.entries (victimSlot m.cache)).valid = true
    · by_cases hdirty : (m.cache.entries (victimSlot m.cache)).dirty = true
      · rw [if_neg (by simp [hvalid]), if_pos hdirty,
          h.working.raw_write (h.bounded _ _ ⟨hvalid, rfl⟩)] at hnone
        simp at hnone
      · rw [if_neg (by simp [hvalid]), if_neg hdirty] at hnone
        simp at hnone
    · rw [if_pos (by simpa using hvalid)] at hnone
      simp at hnone
  · rw [hc] at hinv hview hsub hfree
    refine ⟨_, _, hc, ⟨hinv, ?_, ?_, ?_, ?_, ?_, ?_⟩, hfree _ rfl, hsub⟩
    · rcases hdev with ⟨-, rfl⟩ | ⟨-, rfl⟩
      · exact h.working.called.store _ _
      · exact h.working
    · intro n hn; rw [← h.cached n hn]; exact congrFun hview n
    · intro n hn
      refine ⟨?_, fun i hi => (h.direct n hn).2 i (hsub i n hi)⟩
      rw [show (Machine.setEntry { m with dev } (victimSlot m.cache) _).dev.block n = dev.block n
        from rfl, hd, if_neg, (h.direct n hn).1]
      exact fun hvn => (h.direct n hn).2 _ ⟨hv, hvn⟩
    · exact fun i n hi => h.bounded i n (hsub i n hi)
    · intro hf i n hi
      by_cases hiv : i = victimSlot m.cache
      · simp [Machine.setEntry, hiv]
      · simpa [Machine.setEntry, hiv] using h.settled hf i n (hsub i n hi)
    · rcases hdev with ⟨-, rfl⟩ | ⟨-, rfl⟩
      · exact h.rawLog_write_back ⟨hv, rfl⟩ _
      · exact h.history

theorem holds_touch {v j : Fin 64} {k : ℕ} {e : CacheEntry} (he : e.valid = true ∧ e.blockNo = n)
    (hj : Holds (m.touch v e) j k) : (j = v ∧ k = n) ∨ (j ≠ v ∧ Holds m j k) := by
  by_cases hjv : j = v
  · refine Or.inl ⟨hjv, ?_⟩
    rw [holds_update (m := m) rfl, if_pos hjv] at hj
    exact hj.2.symm.trans he.2
  · rw [holds_update (m := m) rfl, if_neg hjv] at hj
    exact Or.inr ⟨hjv, hj⟩

theorem read_works (h : Represents raw m d) (hn : n < d.size) (hr : ¬ raw n) :
    (k64XfsCacheRead m n).1 = some (d.blk n) ∧ Represents raw (k64XfsCacheRead m n).2 d := by
  obtain ⟨hinv, hview, hres⟩ := cache_read_refines h.cache n
  have hcached : ∀ k, ¬ raw k → view (k64XfsCacheRead m n).2 k = d.blk k :=
    fun k hk => (congrFun hview k).trans (h.cached k hk)
  unfold k64XfsCacheRead at *
  cases hf : cacheFind m.cache n with
  | some i =>
    have hi := cacheFind_some hf
    simp only [hf] at hinv hcached hres ⊢
    refine ⟨by rw [hres _ rfl, h.cached n hr], hinv, h.working, hcached, ?_, ?_, ?_, h.history⟩
    · intro k hk
      refine ⟨(h.direct k hk).1, fun j hj => ?_⟩
      rcases holds_touch hi hj with ⟨-, rfl⟩ | ⟨-, hjk⟩
      · exact hr hk
      · exact (h.direct k hk).2 j hjk
    · intro j k hj
      rcases holds_touch hi hj with ⟨-, rfl⟩ | ⟨-, hjk⟩
      · exact hn
      · exact h.bounded j k hjk
    · intro hfl j k hj
      rcases holds_touch hi hj with ⟨rfl, rfl⟩ | ⟨hji, hjk⟩
      · simpa [Machine.touch] using h.settled hfl j k hi
      · simpa [Machine.touch, hji] using h.settled hfl j k hjk
  | none =>
    obtain ⟨v, m', hv, hm', hfree, hsub⟩ := victim_works h
    simp only [hf, hv, hm'.working.raw_read hn] at hinv hcached hres ⊢
    refine ⟨by rw [hres _ rfl, h.cached n hr], hinv, hm'.working.called, hcached, ?_, ?_, ?_,
      hm'.history⟩
    · intro k hk
      refine ⟨(hm'.direct k hk).1, fun j hj => ?_⟩
      rcases holds_touch (m := { m' with dev := m'.dev.called }) ⟨rfl, rfl⟩ hj with
        ⟨-, rfl⟩ | ⟨-, hjk⟩
      · exact hr hk
      · exact (hm'.direct k hk).2 j hjk
    · intro j k hj
      rcases holds_touch (m := { m' with dev := m'.dev.called }) ⟨rfl, rfl⟩ hj with
        ⟨-, rfl⟩ | ⟨-, hjk⟩
      · exact hn
      · exact hm'.bounded j k hjk
    · intro hfl j k hj
      rcases holds_touch (m := { m' with dev := m'.dev.called }) ⟨rfl, rfl⟩ hj with
        ⟨rfl, rfl⟩ | ⟨hji, hjk⟩
      · simp [Machine.touch]
      · simpa [Machine.touch, hji] using hm'.settled hfl j k hjk

theorem represents_touch {m' : Machine} (h : Represents raw m' d) (hn : n < d.size)
    (hr : ¬ raw n) {v : Fin 64} {e : CacheEntry} {b : XBlock} (he : e.valid = true ∧ e.blockNo = n)
    (hinv : CacheInvariant (m'.touch v e))
    (hview : view (m'.touch v e) = Function.update (view m') n b) :
    Represents raw (m'.touch v e)
      { d with blk := Function.update d.blk n b, flushed := false } := by
  refine ⟨hinv, h.working, ?_, ?_, ?_, by simp, h.history⟩
  · intro k hk
    rw [hview]
    by_cases hkn : k = n
    · simp [hkn]
    · simp [hkn, h.cached k hk]
  · intro k hk
    have hkn : k ≠ n := fun hkn => hr (hkn ▸ hk)
    refine ⟨by simpa [hkn, Machine.touch] using (h.direct k hk).1, fun j hj => ?_⟩
    rcases holds_touch he hj with ⟨-, hkn'⟩ | ⟨-, hjk⟩
    · exact hkn hkn'
    · exact (h.direct k hk).2 j hjk
  · intro j k hj
    rcases holds_touch he hj with ⟨-, rfl⟩ | ⟨-, hjk⟩
    · exact hn
    · exact h.bounded j k hjk

theorem write_works (h : Represents raw m d) (hn : n < d.size) (hr : ¬ raw n)
    (b : XBlock) : (k64XfsCacheWrite m n b).1 = true ∧
      Represents raw (k64XfsCacheWrite m n b).2
        { d with blk := Function.update d.blk n b, flushed := false } := by
  obtain ⟨hinv, hview⟩ := cache_write_refines h.cache n b
  unfold k64XfsCacheWrite at *
  cases hf : cacheFind m.cache n with
  | some i =>
    simp only [hf, ↓reduceIte] at hinv hview ⊢
    exact ⟨trivial, represents_touch h hn hr (cacheFind_some hf) hinv hview⟩
  | none =>
    obtain ⟨v, m', hv, hm', hfree, hsub⟩ := victim_works h
    have hvw : view m' = view m := by
      have := (cache_victim_keeps h.cache).2.1
      rwa [hv] at this
    simp only [hf, hv, ↓reduceIte, ← hvw] at hinv hview ⊢
    exact ⟨trivial, represents_touch hm' hn hr ⟨rfl, rfl⟩ hinv hview⟩

theorem flush_works (is : List (Fin 64)) : ∀ {m : Machine}, Represents raw m d →
    (flushSlots is m).1 = true ∧ Represents raw (flushSlots is m).2 d := by
  induction is with
  | nil => exact fun h => ⟨rfl, h⟩
  | cons i is ih =>
    intro m h
    unfold flushSlots
    rcases flush_slot_cases i m with ⟨-, hs⟩ | ⟨dev, -, hs⟩ | ⟨hv, -, hs⟩
    · rw [hs]; exact ih h
    · exfalso
      have hfalse : (flushSlot i m).1 = false := by rw [hs]
      unfold flushSlot at hfalse
      by_cases hvd : ((m.cache.entries i).valid && (m.cache.entries i).dirty) = true
      · have hb := h.bounded i _ ⟨(Bool.and_eq_true_iff.mp hvd).1, rfl⟩
        rw [if_pos hvd, h.working.raw_write hb] at hfalse
        simp at hfalse
      · rw [if_neg hvd] at hfalse
        simp at hfalse
    · rw [hs]
      obtain ⟨hinv, hview⟩ := clean_entry h.cache hv
        (x := m.dev.called.store (m.cache.entries i).blockNo (m.cache.entries i).data)
        (fun k => block_store _ _ k _)
      have hold : ∀ j k, Holds (Machine.setEntry
          { m with dev := m.dev.called.store (m.cache.entries i).blockNo (m.cache.entries i).data }
          i { m.cache.entries i with dirty := false }) j k → Holds m j k := by
        intro j k hj
        rw [holds_update (m := m) rfl] at hj
        split_ifs at hj with hji
        · subst hji; exact hj
        · exact hj
      refine ih ⟨hinv, h.working.called.store _ _, ?_, ?_, ?_, ?_, h.rawLog_write_back ⟨hv, rfl⟩ _⟩
      · intro n hn; rw [hview]; exact h.cached n hn
      · intro n hn
        refine ⟨?_, fun j hj => (h.direct n hn).2 j (hold j n hj)⟩
        refine (block_store _ _ _ _).trans ?_
        rw [if_neg fun hin => (h.direct n hn).2 i ⟨hv, hin⟩]
        exact (h.direct n hn).1
      · exact fun j n hj => h.bounded j n (hold j n hj)
      · intro hf j n hj
        by_cases hji : j = i
        · subst hji; simp [Machine.setEntry]
        · simpa [Machine.setEntry, hji] using h.settled hf j n (hold j n hj)

theorem represents_flush (h : Represents raw m d) :
    (k64XfsCacheFlush m).1 = true ∧
      Represents raw (k64XfsCacheFlush m).2 { d with flushed := true } := by
  obtain ⟨hok, hr⟩ := flush_works (List.finRange 64) h
  obtain ⟨-, -, -, -, hclean⟩ := flush_slots_refines (List.finRange 64) h.cache
  exact ⟨hok, hr.cache, hr.working, hr.cached, hr.direct, hr.bounded,
    fun _ i _ hi => hclean hok i (List.mem_finRange i) hi.1, hr.history⟩

theorem block_of_flushed (h : Represents raw m d) (hf : d.flushed = true) (n : ℕ) :
    m.dev.block n = d.blk n := by
  by_cases hn : raw n
  · exact (h.direct n hn).1
  · rw [← h.cached n hn]
    exact (view_eq h.cache (fun i hi => h.cache.clean i n hi (h.settled hf i n hi))
      fun _ => rfl).symm

theorem represents_fresh (h : Represents raw m d) (hf : d.flushed = true) (raw' : ℕ → Bool) :
    Represents raw' { m with cache := k64XfsCacheInit } { d with raws := rawLog raw' m.dev } := by
  have hno : ∀ i n, ¬ Holds { m with cache := k64XfsCacheInit } i n := by
    intro i n hi
    simp [Holds, k64XfsCacheInit] at hi
  exact ⟨cache_init_invariant m.dev, h.working,
    fun n _ => (view_of_free fun i => hno i n).trans (block_of_flushed h hf n),
    fun n _ => ⟨block_of_flushed h hf n, fun i => hno i n⟩,
    fun i n hi => absurd hi (hno i n), fun _ i n hi => absurd hi (hno i n), rfl⟩

theorem represents_raw_write (h : Represents raw m d) (hr : raw n) (b : XBlock) :
    Represents raw { m with dev := m.dev.called.store n b }
      { d with blk := Function.update d.blk n b, raws := (n, b) :: d.raws } := by
  have hblk : ∀ k, (m.dev.called.store n b).block k = if n = k then b else m.dev.block k :=
    fun k => block_store _ _ _ _
  have hne : ∀ i k, Holds m i k → n ≠ k := fun i k hi hnk => (h.direct k (hnk ▸ hr)).2 i hi
  refine ⟨⟨h.cache.unique, ?_⟩, h.working.called.store _ _, ?_, ?_, h.bounded, h.settled, ?_⟩
  · intro i k hi hc
    rw [hblk, if_neg (hne i k hi)]
    exact h.cache.clean i k hi hc
  · intro k hk
    have hnk : n ≠ k := fun hnk => hk (hnk ▸ hr)
    simp only [Function.update_of_ne hnk.symm, ← h.cached k hk, view]
    rw [hblk, if_neg hnk]
  · intro k hk
    refine ⟨(hblk k).trans ?_, (h.direct k hk).2⟩
    by_cases hnk : n = k
    · subst hnk; simp
    · simpa [hnk, Ne.symm hnk] using (h.direct k hk).1
  · rw [rawLog_store, if_pos hr]
    exact congrArg _ h.history

theorem request_simulates (q : Req) (m : Machine) (d : Disk) (h : Represents raw m d)
    (hg : diskGuard raw q d) :
    (machine q m).1 = (disk q d).1 ∧ Represents raw (machine q m).2 (disk q d).2 := by
  cases q with
  | read n => exact read_works h hg.1 hg.2
  | write n b => exact write_works h hg.1 hg.2 b
  | flush => exact represents_flush h
  | init =>
    have hf := represents_fresh h hg raw
    rw [h.history] at hf
    exact ⟨rfl, hf⟩
  | rawRead n =>
    simp only [machine, disk, h.working.raw_read hg.1]
    refine ⟨by rw [(h.direct n hg.2).1], ⟨h.cache.unique, h.cache.clean⟩, h.working.called,
      h.cached, h.direct, h.bounded, h.settled, h.history⟩
  | rawWrite n b =>
    simp only [machine, disk, h.working.raw_write hg.1]
    exact ⟨trivial, represents_raw_write h hg.2 b⟩

theorem exec_of_wp {α : Type} {f : XfsM α} {P : Option α → Xfs → Disk → Prop} {fs : Xfs}
    (h : Represents raw m d) (hw : Proc.wp disk (diskGuard raw) f P fs d) :
    ∃ d', Represents raw (f.exec machine fs m).2.2 d' ∧
      P (f.exec machine fs m).1 (f.exec machine fs m).2.1 d' :=
  Proc.wp_exec (Proc.wp_sim (D := fun _ _ => True)
    (fun q s t hs hc => ⟨trivial, request_simulates q s t hs hc⟩) h hw)

end XfsLogicalDisk
