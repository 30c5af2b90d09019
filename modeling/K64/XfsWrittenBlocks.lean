import K64.IoContract
import K64.XfsSystem

/-! # What is written to the inode table

Every inode record that the filesystem writes has its extents behind the inode table and below the
top of the address range. The cache over the device keeps this whatever fails. -/
namespace XfsWrittenBlocks

open IoContract XfsFormat XfsCache XfsCacheRefinement XfsJournal XfsInode XfsDirectory
  XfsContentChanges XfsVolumeRefinement

def Extent.Clear (ex : Extent) : Prop :=
  82 ≤ ex.physicalBlock.toNat ∧ ex.physicalBlock.toNat + ex.blockCount.toNat < 2 ^ 64

def Inode.Clear (inode : Inode) : Prop := ∀ ex ∈ Inode.extents inode, Extent.Clear ex

theorem clear_of_empty {inode : Inode} (h : inode.extentCount = 0) : Inode.Clear inode := by
  intro ex hex
  rw [Inode.extents, h] at hex
  exact absurd hex List.not_mem_nil

theorem clear_singleExtent {inode : Inode} {start count : ℕ}
    (h : 82 ≤ start ∧ start + count < 2 ^ 64)
    (hext : Inode.extents inode = [singleExtent start count]) : Inode.Clear inode := by
  intro ex hex
  rw [hext, List.mem_singleton] at hex
  obtain ⟨hp, hc, -⟩ := toNat_singleExtent h.2
  rw [hex, Extent.Clear, hp, hc]
  exact h

def InTable (n : ℕ) : Prop := 35 ≤ n ∧ n < 82

def BlockGood (n : ℕ) (b : XBlock) : Prop :=
  InTable n → ∀ j < 11, (n - 35) * 11 + j < 512 → Inode.Clear (b.record inodeCodec (j * 372))

structure Guarded (m : Machine) : Prop where
  cache : CacheInvariant m
  apart : ∀ i n, Holds m i n → ¬ journalArea n
  good : ∀ n, BlockGood n (view m n)

variable {m : Machine} {n : ℕ} {b : XBlock}

theorem good_outside (h : n < 35 ∨ 82 ≤ n) : BlockGood n b := by
  rintro ⟨h1, h2⟩
  omega

theorem good_journal (h : journalArea n) : BlockGood n b := by
  apply good_outside
  simp only [journalArea, Bool.and_eq_true, decide_eq_true_eq] at h
  exact Or.inl h.2

theorem holds_touched {v i : Fin 64} {e : CacheEntry} {k : ℕ} (he : e.valid = true ∧ e.blockNo = n)
    (hi : Holds (m.touch v e) i k) : k = n ∨ Holds m i k :=
  (XfsLogicalDisk.holds_touch he hi).imp And.right And.right

theorem holds_read (h : CacheInvariant m) {i : Fin 64} {k : ℕ}
    (hi : Holds (k64XfsCacheRead m n).2 i k) : k = n ∨ Holds m i k := by
  obtain ⟨-, -, hsub, -⟩ := cache_victim_keeps h
  unfold k64XfsCacheRead at hi
  split at hi
  next v hv => exact holds_touched (cacheFind_some hv) hi
  next =>
  split at hi
  next m' hm' =>
    rw [hm'] at hsub
    exact Or.inr (hsub i k hi)
  next v m' hm' =>
    rw [hm'] at hsub
    split at hi
    next => exact Or.inr (hsub i k hi)
    next b dev _ =>
      exact (holds_touched (m := { m' with dev }) ⟨rfl, rfl⟩ hi).imp id (hsub i k)

theorem holds_write (h : CacheInvariant m) {i : Fin 64} {k : ℕ}
    (hi : Holds (k64XfsCacheWrite m n b).2 i k) : k = n ∨ Holds m i k := by
  obtain ⟨-, -, hsub, -⟩ := cache_victim_keeps h
  unfold k64XfsCacheWrite at hi
  split at hi
  next v hv =>
    have hfound := cacheFind_some hv
    exact holds_touched (e := { m.cache.entries v with data := b, dirty := true }) hfound hi
  next =>
  split at hi
  next m' hm' =>
    rw [hm'] at hsub
    exact Or.inr (hsub i k hi)
  next v m' hm' =>
    rw [hm'] at hsub
    exact (holds_touched ⟨rfl, rfl⟩ hi).imp id (hsub i k)

theorem Guarded.read (h : Guarded m) (hn : ¬ journalArea n) :
    (∀ b, (k64XfsCacheRead m n).1 = some b → BlockGood n b) ∧
      Guarded (k64XfsCacheRead m n).2 := by
  obtain ⟨hinv, hview, hres⟩ := cache_read_refines h.cache n
  refine ⟨fun b hb => hres b hb ▸ h.good n, hinv, fun i k hi => ?_, fun k => ?_⟩
  · rcases holds_read h.cache hi with rfl | hi
    · exact hn
    · exact h.apart i k hi
  · rw [hview]
    exact h.good k

theorem Guarded.write (h : Guarded m) (hn : ¬ journalArea n) (hb : BlockGood n b) :
    Guarded (k64XfsCacheWrite m n b).2 := by
  obtain ⟨hinv, hview⟩ := cache_write_refines h.cache n b
  refine ⟨hinv, fun i k hi => ?_, fun k => ?_⟩
  · rcases holds_write h.cache hi with rfl | hi
    · exact hn
    · exact h.apart i k hi
  · rw [hview]
    split
    · by_cases hk : k = n
      · subst hk
        simpa using hb
      · rw [Function.update_of_ne hk]
        exact h.good k
    · exact h.good k

theorem Guarded.flush (h : Guarded m) : Guarded (k64XfsCacheFlush m).2 := by
  obtain ⟨hinv, hview, hholds, -⟩ := flush_slots_refines (List.finRange 64) h.cache
  refine ⟨hinv, fun i k hi => h.apart i k ((hholds i k).mp hi), fun k => ?_⟩
  rw [k64XfsCacheFlush, hview]
  exact h.good k

theorem Guarded.rawWrite (h : Guarded m) (hn : journalArea n) :
    Guarded { m with dev := (xfsRawWrite m.dev n b).2 } := by
  rcases raw_write_cases m.dev n b with ⟨dev, hd, hw⟩ | hw
  · rw [hw]
    refine ⟨invariant_of_unwritten h.cache hd, h.apart, fun k => ?_⟩
    rw [view_of_unwritten hd]
    exact h.good k
  · have hblock : ∀ k, k ≠ n → (m.dev.called.store n b).block k = m.dev.block k :=
      fun k hk => (block_store _ _ _ _).trans (if_neg hk.symm)
    rw [hw]
    refine ⟨⟨h.cache.unique, fun i k hi hc => ?_⟩, h.apart, fun k => ?_⟩
    · have hk : k ≠ n := fun hk => h.apart i k hi (hk ▸ hn)
      exact (h.cache.clean i k hi hc).trans (hblock k hk).symm
    · by_cases hk : k = n
      · subst hk
        exact good_journal hn
      · have hview : view { m with dev := m.dev.called.store n b } k = view m k := by
          simp only [view, hblock k hk]
        rw [hview]
        exact h.good k

/-- Only good blocks are written. The journal area is written past the cache, everything else through
it, and the cache is not emptied. -/
def blockContract : Contract Req Resp where
  asks
    | .read n => ¬ journalArea n
    | .write n b => ¬ journalArea n ∧ BlockGood n b
    | .flush => True
    | .init => False
    | .rawRead _ => False
    | .rawWrite n _ => journalArea n
  answers
    | .read n, r => ∀ b, r = some b → BlockGood n b
    | _, _ => True

theorem machine_honours : Honours blockContract machine Guarded := by
  intro q m h hq
  cases q with
  | read n => exact h.read hq
  | write n b => exact ⟨trivial, h.write hq.1 hq.2⟩
  | flush => exact ⟨trivial, h.flush⟩
  | init => exact hq.elim
  | rawRead n => exact hq.elim
  | rawWrite n b => exact ⟨trivial, h.rawWrite hq⟩

end XfsWrittenBlocks
