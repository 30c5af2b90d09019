import K64.XfsCache

/-! # The cache refines a block array

The logical content of a machine is the cached copy of a block where there is one and the device's
copy elsewhere. Eviction and flushing move data between the two without changing it. -/
namespace XfsCacheRefinement

open XfsFormat XfsCache

/-- The logical block `n` of a cache over a device. -/
def view (m : Machine) (n : ℕ) : XBlock :=
  match cacheFind m.cache n with
  | some i => (m.cache.entries i).data
  | none => m.dev.block n

def Holds (m : Machine) (i : Fin 64) (n : ℕ) : Prop :=
  (m.cache.entries i).valid = true ∧ (m.cache.entries i).blockNo = n

instance (m : Machine) (i : Fin 64) (n : ℕ) : Decidable (Holds m i n) :=
  inferInstanceAs (Decidable (_ ∧ _))

structure CacheInvariant (m : Machine) : Prop where
  unique : ∀ i j n, Holds m i n → Holds m j n → i = j
  clean : ∀ i n, Holds m i n → (m.cache.entries i).dirty = false →
    (m.cache.entries i).data = m.dev.block n

theorem block_store (d : Device) (n k : ℕ) (b : XBlock) :
    (d.store n b).block k = if n = k then b else d.block k := by
  by_cases h : n = k <;> simp [Device.store, Device.block, h]

theorem cacheFind_some {m : Machine} {n : ℕ} {i : Fin 64}
    (h : cacheFind m.cache n = some i) : Holds m i n := by
  have hp := List.find?_some h
  simpa [Holds] using hp

theorem cacheFind_none {m : Machine} {n : ℕ} :
    cacheFind m.cache n = none ↔ ∀ i, ¬ Holds m i n := by
  simp [cacheFind, Holds, List.find?_eq_none]

theorem view_of_holds {m : Machine} (h : CacheInvariant m) {i : Fin 64} {n : ℕ}
    (hi : Holds m i n) : view m n = (m.cache.entries i).data := by
  unfold view
  cases hf : cacheFind m.cache n with
  | none => exact absurd hi (cacheFind_none.mp hf i)
  | some j => rw [h.unique j i n (cacheFind_some hf) hi]

theorem view_of_free {m : Machine} {n : ℕ} (h : ∀ i, ¬ Holds m i n) :
    view m n = m.dev.block n := by
  simp [view, cacheFind_none.mpr h]

theorem view_eq {m : Machine} (h : CacheInvariant m) {n : ℕ} {b : XBlock}
    (hc : ∀ i, Holds m i n → (m.cache.entries i).data = b)
    (hd : (∀ i, ¬ Holds m i n) → m.dev.block n = b) : view m n = b := by
  by_cases hx : ∃ i, Holds m i n
  · obtain ⟨i, hi⟩ := hx
    rw [view_of_holds h hi, hc i hi]
  · rw [view_of_free (fun i hi => hx ⟨i, hi⟩), hd fun i hi => hx ⟨i, hi⟩]

theorem raw_write_cases (d : Device) (n : ℕ) (b : XBlock) :
    (∃ d', (d' = d ∨ d' = d.called) ∧ xfsRawWrite d n b = (false, d')) ∨
      xfsRawWrite d n b = (true, d.called.store n b) := by
  unfold xfsRawWrite k64BlockWrite
  split_ifs <;> simp

theorem block_of_unwritten {d d' : Device} (h : d' = d ∨ d' = d.called) (k : ℕ) :
    d'.block k = d.block k := by
  rcases h with rfl | rfl <;> rfl

theorem raw_read_block (d : Device) (n k : ℕ) : (xfsRawRead d n).2.block k = d.block k := by
  unfold xfsRawRead k64BlockRead
  split_ifs <;> rfl

theorem raw_read_some {d : Device} {n : ℕ} {b : XBlock} (h : (xfsRawRead d n).1 = some b) :
    b = d.block n := by
  unfold xfsRawRead k64BlockRead at h
  split_ifs at h
  exact (Option.some.inj h).symm

theorem holds_update {m w : Machine} {i : Fin 64} {e : CacheEntry}
    (he : w.cache.entries = Function.update m.cache.entries i e) (j : Fin 64) (n : ℕ) :
    Holds w j n ↔ if j = i then e.valid = true ∧ e.blockNo = n else Holds m j n := by
  by_cases h : j = i
  · subst h; simp [Holds, he]
  · simp [Holds, he, h]

theorem drop_entry {m w : Machine} (h : CacheInvariant m) {v : Fin 64} {e : CacheEntry}
    (he : w.cache.entries = Function.update m.cache.entries v e) (hv : e.valid = false)
    (hd : ∀ k, w.dev.block k =
      if Holds m v k then (m.cache.entries v).data else m.dev.block k) :
    CacheInvariant w ∧ view w = view m := by
  have hold : ∀ j n, Holds w j n ↔ j ≠ v ∧ Holds m j n := by
    intro j n
    rw [holds_update he]
    by_cases hj : j = v <;> simp [hj, hv]
  have hdev : ∀ j n, Holds w j n → w.dev.block n = m.dev.block n := by
    intro j n hj
    rw [hd, if_neg]
    exact fun hvn => ((hold j n).mp hj).1 (h.unique j v n ((hold j n).mp hj).2 hvn)
  have hent : ∀ j n, Holds w j n → w.cache.entries j = m.cache.entries j := by
    intro j n hj
    simp [he, ((hold j n).mp hj).1]
  have hinv : CacheInvariant w := by
    refine ⟨fun i j n hi hj => h.unique i j n ((hold i n).mp hi).2 ((hold j n).mp hj).2, ?_⟩
    intro i n hi hdirty
    rw [hent i n hi] at hdirty ⊢
    rw [hdev i n hi, h.clean i n ((hold i n).mp hi).2 hdirty]
  refine ⟨hinv, funext fun n => view_eq hinv ?_ ?_⟩
  · intro i hi
    rw [hent i n hi, view_of_holds h ((hold i n).mp hi).2]
  · intro hno
    rw [hd]
    split_ifs with hvn
    · rw [view_of_holds h hvn]
    · refine (view_of_free fun i hi => hno i ((hold i n).mpr ⟨?_, hi⟩)).symm
      rintro rfl
      exact hvn hi

theorem fill_entry {m w : Machine} (h : CacheInvariant m) {v : Fin 64} {e : CacheEntry}
    {n : ℕ} (he : w.cache.entries = Function.update m.cache.entries v e)
    (hv : e.valid = true ∧ e.blockNo = n)
    (hfree : (∀ i, ¬ Holds m i n) ∧ (m.cache.entries v).valid = false ∨ Holds m v n)
    (hd : ∀ k, w.dev.block k = m.dev.block k)
    (hclean : e.dirty = false → e.data = m.dev.block n) :
    CacheInvariant w ∧ view w = Function.update (view m) n e.data := by
  have hold : ∀ j k, Holds w j k ↔ (j = v ∧ k = n) ∨ (j ≠ v ∧ Holds m j k) := by
    intro j k
    rw [holds_update he]
    by_cases hj : j = v <;> simp [hj, hv, eq_comm]
  have hother : ∀ j, j ≠ v → ¬ Holds m j n := by
    intro j hj hjn
    rcases hfree with ⟨hno, _⟩ | hvn
    · exact hno j hjn
    · exact hj (h.unique j v n hjn hvn)
  have hself : w.cache.entries v = e := by simp [he]
  have hent : ∀ j, j ≠ v → w.cache.entries j = m.cache.entries j := by
    intro j hj; simp [he, hj]
  have hinv : CacheInvariant w := by
    constructor
    · intro i j k hi hj
      rcases (hold i k).mp hi with ⟨hi', hk⟩ | ⟨hi', hik⟩ <;>
        rcases (hold j k).mp hj with ⟨hj', hk'⟩ | ⟨hj', hjk⟩
      · rw [hi', hj']
      · subst hk; exact absurd hjk (hother j hj')
      · subst hk'; exact absurd hik (hother i hi')
      · exact h.unique i j k hik hjk
    · intro i k hi hdirty
      rw [hd]
      rcases (hold i k).mp hi with ⟨rfl, rfl⟩ | ⟨hi', hik⟩
      · rw [hself] at hdirty ⊢; exact hclean hdirty
      · rw [hent i hi'] at hdirty ⊢; exact h.clean i k hik hdirty
  refine ⟨hinv, funext fun k => ?_⟩
  by_cases hk : k = n
  · subst hk
    rw [Function.update_self, view_of_holds hinv ((hold v k).mpr (Or.inl ⟨rfl, rfl⟩)), hself]
  · rw [Function.update_of_ne hk]
    refine view_eq hinv ?_ ?_
    · intro i hi
      rcases (hold i k).mp hi with ⟨_, h'⟩ | ⟨hi', hik⟩
      · exact absurd h' hk
      · rw [hent i hi', view_of_holds h hik]
    · intro hno
      rw [hd]
      refine (view_of_free fun i hi => hno i ((hold i k).mpr (Or.inr ⟨?_, hi⟩))).symm
      rintro rfl
      rcases hfree with ⟨_, hinvalid⟩ | hvn
      · simp [hi.1] at hinvalid
      · exact hk (hi.2.symm.trans hvn.2)

theorem cache_victim_cases {m : Machine} (h : CacheInvariant m) :
    ((m.cache.entries (victimSlot m.cache)).valid = false ∧
      cacheVictim m = (some (victimSlot m.cache), m)) ∨
    (∃ dev, (dev = m.dev ∨ dev = m.dev.called) ∧ cacheVictim m = (none, { m with dev })) ∨
    ∃ v dev, v = victimSlot m.cache ∧ (m.cache.entries v).valid = true ∧
      ((m.cache.entries v).dirty = true ∧
        dev = m.dev.called.store (m.cache.entries v).blockNo (m.cache.entries v).data ∨
        (m.cache.entries v).dirty = false ∧ dev = m.dev) ∧
      (∀ k, dev.block k =
        if (m.cache.entries v).blockNo = k then (m.cache.entries v).data else m.dev.block k) ∧
      cacheVictim m = (some v, Machine.setEntry { m with dev } v
        { m.cache.entries v with valid := false, dirty := false }) := by
  unfold cacheVictim
  by_cases hvalid : (m.cache.entries (victimSlot m.cache)).valid = true
  · rw [if_neg (by simp [hvalid])]
    right
    by_cases hdirty : (m.cache.entries (victimSlot m.cache)).dirty = true
    · rw [if_pos hdirty]
      rcases raw_write_cases m.dev (m.cache.entries (victimSlot m.cache)).blockNo
        (m.cache.entries (victimSlot m.cache)).data with ⟨d', hd', hw⟩ | hw
      · rw [hw]; exact Or.inl ⟨d', hd', rfl⟩
      · rw [hw]
        exact Or.inr ⟨_, _, rfl, hvalid, Or.inl ⟨hdirty, rfl⟩, fun k => block_store _ _ k _, rfl⟩
    · rw [if_neg hdirty]
      have hclean := h.clean _ _ ⟨hvalid, rfl⟩ (by simpa using hdirty)
      refine Or.inr ⟨_, m.dev, rfl, hvalid, Or.inr ⟨by simpa using hdirty, rfl⟩, ?_, rfl⟩
      intro k
      split_ifs with hk
      · rw [hclean, hk]
      · rfl
  · have hinvalid : (m.cache.entries (victimSlot m.cache)).valid = false := by simpa using hvalid
    exact Or.inl ⟨hinvalid, if_pos (by simp [hinvalid])⟩

theorem view_of_unwritten {m : Machine} {dev : Device} (hd : dev = m.dev ∨ dev = m.dev.called) :
    view { m with dev } = view m := by
  funext k
  simp only [view]
  rw [block_of_unwritten hd]

theorem invariant_of_unwritten {m : Machine} (h : CacheInvariant m) {dev : Device}
    (hd : dev = m.dev ∨ dev = m.dev.called) : CacheInvariant { m with dev } :=
  ⟨h.unique, fun i n hi hc => (h.clean i n hi hc).trans (block_of_unwritten hd n).symm⟩

theorem cache_victim_keeps {m : Machine} (h : CacheInvariant m) :
    CacheInvariant (cacheVictim m).2 ∧ view (cacheVictim m).2 = view m ∧
      (∀ j n, Holds (cacheVictim m).2 j n → Holds m j n) ∧
      ∀ v, (cacheVictim m).1 = some v → ((cacheVictim m).2.cache.entries v).valid = false := by
  rcases cache_victim_cases h with ⟨hv, hc⟩ | ⟨dev, hd, hc⟩ | ⟨v, dev, -, hv, -, hd, hc⟩
  · rw [hc]
    refine ⟨h, rfl, fun _ _ hj => hj, ?_⟩
    rintro u hu; cases hu; exact hv
  · rw [hc]
    exact ⟨invariant_of_unwritten h hd, view_of_unwritten hd, fun _ _ hj => hj, by simp⟩
  · rw [hc]
    obtain ⟨hi, hw⟩ := drop_entry (w := Machine.setEntry { m with dev } v
      { m.cache.entries v with valid := false, dirty := false }) h rfl rfl (by
        intro k
        simp only [Holds, hv, true_and]
        exact hd k)
    refine ⟨hi, hw, ?_, ?_⟩
    · intro j n hj
      rw [holds_update (m := m) rfl] at hj
      split_ifs at hj with hjv
      · simp at hj
      · exact hj
    · rintro u hu
      cases hu
      simp [Machine.setEntry]

theorem cache_read_refines {m : Machine} (h : CacheInvariant m) (n : ℕ) :
    CacheInvariant (k64XfsCacheRead m n).2 ∧ view (k64XfsCacheRead m n).2 = view m ∧
      ∀ b, (k64XfsCacheRead m n).1 = some b → b = view m n := by
  unfold k64XfsCacheRead
  cases hf : cacheFind m.cache n with
  | some i =>
    have hi := cacheFind_some hf
    have hv := view_of_holds h hi
    obtain ⟨hinv, hw⟩ := fill_entry (w := m.touch i (m.cache.entries i)) h rfl hi
      (Or.inr hi) (fun _ => rfl) (h.clean i n hi)
    refine ⟨hinv, ?_, ?_⟩
    · rw [hw]; simp [← hv]
    · rintro b hb; cases hb; exact hv.symm
  | none =>
    obtain ⟨hinv, hview, hsub, hfree⟩ := cache_victim_keeps h
    generalize cacheVictim m = w at *
    obtain ⟨_ | v, m'⟩ := w
    · exact ⟨hinv, hview, by simp⟩
    · have hno : ∀ i, ¬ Holds m' i n := fun i hi => cacheFind_none.mp hf i (hsub i n hi)
      have hblk : ∀ k, (xfsRawRead m'.dev n).2.block k = m'.dev.block k := raw_read_block _ _
      have hsome := @raw_read_some m'.dev n
      simp only
      generalize xfsRawRead m'.dev n = w at *
      obtain ⟨_ | b, dev⟩ := w
      · refine ⟨⟨hinv.unique, fun i k hi hc => (hinv.clean i k hi hc).trans (hblk k).symm⟩, ?_,
          by simp⟩
        rw [← hview]
        funext k
        simp only [view]; rw [hblk k]
      · obtain rfl := hsome rfl
        obtain ⟨hi, hw⟩ := fill_entry (w := Machine.touch { m' with dev } v
            { m'.cache.entries v with
              valid := true, dirty := false, blockNo := n, data := m'.dev.block n })
          hinv rfl ⟨rfl, rfl⟩ (Or.inl ⟨hno, hfree v rfl⟩) hblk (fun _ => rfl)
        have hvn : view m n = m'.dev.block n := by rw [← hview, view_of_free hno]
        refine ⟨hi, ?_, ?_⟩
        · rw [hw, ← hview, ← view_of_free hno]; simp
        · rintro b hb; cases hb; exact hvn.symm

theorem cache_write_refines {m : Machine} (h : CacheInvariant m) (n : ℕ) (b : XBlock) :
    CacheInvariant (k64XfsCacheWrite m n b).2 ∧
      view (k64XfsCacheWrite m n b).2 =
        if (k64XfsCacheWrite m n b).1 then Function.update (view m) n b else view m := by
  unfold k64XfsCacheWrite
  cases hf : cacheFind m.cache n with
  | some i =>
    have hi := cacheFind_some hf
    exact fill_entry (w := m.touch i { m.cache.entries i with data := b, dirty := true })
      h rfl hi (Or.inr hi) (fun _ => rfl) (by simp)
  | none =>
    obtain ⟨hinv, hview, hsub, hfree⟩ := cache_victim_keeps h
    generalize cacheVictim m = w at *
    obtain ⟨_ | v, m'⟩ := w
    · exact ⟨hinv, by simpa using hview⟩
    · have hno : ∀ i, ¬ Holds m' i n := fun i hi => cacheFind_none.mp hf i (hsub i n hi)
      obtain ⟨hi, hw⟩ := fill_entry (w := m'.touch v
          { m'.cache.entries v with valid := true, dirty := true, blockNo := n, data := b })
        hinv rfl ⟨rfl, rfl⟩ (Or.inl ⟨hno, hfree v rfl⟩) (fun _ => rfl) (by simp)
      exact ⟨hi, by rw [hw, ← hview]; rfl⟩

theorem clean_entry {m : Machine} (h : CacheInvariant m) {i : Fin 64} {x : Device}
    (hv : (m.cache.entries i).valid = true)
    (hd : ∀ k, x.block k =
      if (m.cache.entries i).blockNo = k then (m.cache.entries i).data else m.dev.block k) :
    CacheInvariant (Machine.setEntry { m with dev := x } i
        { m.cache.entries i with dirty := false }) ∧
      view (Machine.setEntry { m with dev := x } i
        { m.cache.entries i with dirty := false }) = view m := by
  have hi : Holds m i (m.cache.entries i).blockNo := ⟨hv, rfl⟩
  set m' := Machine.setEntry { m with dev := x } i { m.cache.entries i with dirty := false }
  have hold : ∀ j k, Holds m' j k ↔ Holds m j k := by
    intro j k
    rw [holds_update (m := m) (w := m') rfl]
    split_ifs with hj
    · subst hj; rfl
    · rfl
  have hdata : ∀ j, (m'.cache.entries j).data = (m.cache.entries j).data := by
    intro j
    by_cases hj : j = i
    · subst hj; simp [m', Machine.setEntry]
    · simp [m', Machine.setEntry, hj]
  have hinv : CacheInvariant m' := by
    refine ⟨fun a b n ha hb => h.unique a b n ((hold a n).mp ha) ((hold b n).mp hb), ?_⟩
    intro j k hj hc
    have hjk := (hold j k).mp hj
    rw [hdata, show m'.dev.block k = x.block k from rfl, hd]
    split_ifs with hik
    · rw [h.unique j i k hjk ⟨hv, hik⟩]
    · refine h.clean j k hjk ?_
      have hji : j ≠ i := by rintro rfl; exact hik hjk.2
      simpa [m', Machine.setEntry, hji] using hc
  refine ⟨hinv, funext fun n => view_eq hinv ?_ ?_⟩
  · intro j hj
    rw [hdata, view_of_holds h ((hold j n).mp hj)]
  · intro hno
    rw [show m'.dev.block n = x.block n from rfl, hd, if_neg]
    · exact (view_of_free fun j hj => hno j ((hold j n).mpr hj)).symm
    · exact fun hin => hno i ((hold i n).mpr ⟨hv, hin⟩)

theorem flush_slot_cases (i : Fin 64) (m : Machine) :
    (((m.cache.entries i).valid = true → (m.cache.entries i).dirty = false) ∧
      flushSlot i m = (true, m)) ∨
    (∃ dev, (dev = m.dev ∨ dev = m.dev.called) ∧ flushSlot i m = (false, { m with dev })) ∨
    ((m.cache.entries i).valid = true ∧ (m.cache.entries i).dirty = true ∧
      flushSlot i m = (true, Machine.setEntry
        { m with dev := m.dev.called.store (m.cache.entries i).blockNo (m.cache.entries i).data }
        i { m.cache.entries i with dirty := false })) := by
  unfold flushSlot
  by_cases hvd : (m.cache.entries i).valid = true ∧ (m.cache.entries i).dirty = true
  · rw [if_pos (by simp [hvd])]
    rcases raw_write_cases m.dev (m.cache.entries i).blockNo (m.cache.entries i).data with
      ⟨d', hd', hw⟩ | hw
    · rw [hw]; exact Or.inr (Or.inl ⟨d', hd', rfl⟩)
    · rw [hw]; exact Or.inr (Or.inr ⟨hvd.1, hvd.2, rfl⟩)
  · refine Or.inl ⟨fun hv => by simpa using fun hd => hvd ⟨hv, hd⟩, if_neg ?_⟩
    simpa using hvd

theorem flush_slots_refines (is : List (Fin 64)) {m : Machine} (h : CacheInvariant m) :
    CacheInvariant (flushSlots is m).2 ∧ view (flushSlots is m).2 = view m ∧
      (∀ j n, Holds (flushSlots is m).2 j n ↔ Holds m j n) ∧
      (∀ j, (m.cache.entries j).dirty = false →
        ((flushSlots is m).2.cache.entries j).dirty = false) ∧
      ((flushSlots is m).1 = true → ∀ j ∈ is,
        ((flushSlots is m).2.cache.entries j).valid = true →
        ((flushSlots is m).2.cache.entries j).dirty = false) := by
  induction is generalizing m with
  | nil => exact ⟨h, rfl, fun _ _ => Iff.rfl, fun _ hj => hj, by simp⟩
  | cons i is ih =>
    unfold flushSlots
    rcases flush_slot_cases i m with ⟨hc, hs⟩ | ⟨dev, hd, hs⟩ | ⟨hv, -, hs⟩
    · rw [hs]
      obtain ⟨h1, h2, h3, h4, h5⟩ := ih h
      refine ⟨h1, h2, h3, h4, ?_⟩
      intro hok j hj hjv
      rcases List.mem_cons.mp hj with rfl | hj
      · exact h4 j (hc ((h3 j _).mp ⟨hjv, rfl⟩).1)
      · exact h5 hok j hj hjv
    · rw [hs]
      exact ⟨invariant_of_unwritten h hd, view_of_unwritten hd, fun _ _ => Iff.rfl,
        fun _ hj => hj, by simp⟩
    · rw [hs]
      obtain ⟨hinv, hw⟩ := clean_entry h hv
        (x := m.dev.called.store (m.cache.entries i).blockNo (m.cache.entries i).data)
        (fun k => block_store _ _ k _)
      set m' := Machine.setEntry
        { m with dev := m.dev.called.store (m.cache.entries i).blockNo (m.cache.entries i).data }
        i { m.cache.entries i with dirty := false }
      have hold : ∀ j k, Holds m' j k ↔ Holds m j k := by
        intro j k
        rw [holds_update (m := m) (w := m') rfl]
        split_ifs with hj
        · subst hj; rfl
        · rfl
      have hdirty : ∀ j, (m.cache.entries j).dirty = false →
          (m'.cache.entries j).dirty = false := by
        intro j hj
        by_cases hji : j = i
        · subst hji; simp [m', Machine.setEntry]
        · simpa [m', Machine.setEntry, hji] using hj
      obtain ⟨h1, h2, h3, h4, h5⟩ := ih hinv
      refine ⟨h1, h2.trans hw, fun j n => (h3 j n).trans (hold j n),
        fun j hj => h4 j (hdirty j hj), ?_⟩
      intro hok j hj hjv
      rcases List.mem_cons.mp hj with rfl | hj
      · exact h4 j (by simp [m', Machine.setEntry])
      · exact h5 hok j hj hjv

theorem cache_flush_refines {m : Machine} (h : CacheInvariant m) :
    CacheInvariant (k64XfsCacheFlush m).2 ∧ view (k64XfsCacheFlush m).2 = view m ∧
      ((k64XfsCacheFlush m).1 = true → ∀ n,
        (k64XfsCacheFlush m).2.dev.block n = view (k64XfsCacheFlush m).2 n) := by
  obtain ⟨h1, h2, -, -, h5⟩ := flush_slots_refines (List.finRange 64) h
  refine ⟨h1, h2, fun hok n => ?_⟩
  refine (view_eq h1 (fun i hi => ?_) fun _ => rfl).symm
  exact h1.clean i n hi (h5 hok i (List.mem_finRange i) hi.1)

theorem cache_init_invariant (dev : Device) : CacheInvariant ⟨k64XfsCacheInit, dev⟩ :=
  ⟨fun i j n hi => by simp [Holds, k64XfsCacheInit] at hi,
   fun i n hi => by simp [Holds, k64XfsCacheInit] at hi⟩

inductive CacheCall where
  | read (blockNo : ℕ)
  | write (blockNo : ℕ) (data : XBlock)
  | flush

def CacheCall.next (m : Machine) : CacheCall → Machine
  | .read n => (k64XfsCacheRead m n).2
  | .write n b => (k64XfsCacheWrite m n b).2
  | .flush => (k64XfsCacheFlush m).2

/-- The cache behaves as the block array `view m` under each of its three calls. -/
structure RefinesBlockArray (m : Machine) : Prop where
  unique : ∀ i j, (m.cache.entries i).valid = true → (m.cache.entries j).valid = true →
    (m.cache.entries i).blockNo = (m.cache.entries j).blockNo → i = j
  read_ok : ∀ n b, (k64XfsCacheRead m n).1 = some b →
    b = view m n ∧ view (k64XfsCacheRead m n).2 = view m
  read_failed : ∀ n, (k64XfsCacheRead m n).1 = none → view (k64XfsCacheRead m n).2 = view m
  write_ok : ∀ n b, (k64XfsCacheWrite m n b).1 = true →
    view (k64XfsCacheWrite m n b).2 = Function.update (view m) n b
  write_failed : ∀ n b, (k64XfsCacheWrite m n b).1 = false →
    view (k64XfsCacheWrite m n b).2 = view m
  flush_ok : (k64XfsCacheFlush m).1 = true → view (k64XfsCacheFlush m).2 = view m ∧
    ∀ n, (k64XfsCacheFlush m).2.dev.block n = view (k64XfsCacheFlush m).2 n
  flush_failed : (k64XfsCacheFlush m).1 = false → view (k64XfsCacheFlush m).2 = view m

theorem invariant_refines {m : Machine} (h : CacheInvariant m) : RefinesBlockArray m where
  unique i j hi hj hn := h.unique i j _ ⟨hi, hn⟩ ⟨hj, rfl⟩
  read_ok n b hb := ⟨(cache_read_refines h n).2.2 b hb, (cache_read_refines h n).2.1⟩
  read_failed n _ := (cache_read_refines h n).2.1
  write_ok n b hb := by simpa [hb] using (cache_write_refines h n b).2
  write_failed n b hb := by simpa [hb] using (cache_write_refines h n b).2
  flush_ok hb := ⟨(cache_flush_refines h).2.1, (cache_flush_refines h).2.2 hb⟩
  flush_failed _ := (cache_flush_refines h).2.1

theorem call_keeps_invariant {m : Machine} (h : CacheInvariant m) (c : CacheCall) :
    CacheInvariant (c.next m) := by
  cases c with
  | read n => exact (cache_read_refines h n).1
  | write n b => exact (cache_write_refines h n b).1
  | flush => exact (cache_flush_refines h).1

/-- Over every run of cache calls, on a device that fails wherever its schedule says. -/
theorem cache_runs_refine_block_array (dev : Device) (calls : List CacheCall) :
    RefinesBlockArray (calls.foldl CacheCall.next ⟨k64XfsCacheInit, dev⟩) := by
  have hinv : ∀ m, CacheInvariant m → CacheInvariant (calls.foldl CacheCall.next m) := by
    induction calls with
    | nil => exact fun m h => h
    | cons c calls ih => exact fun m h => ih _ (call_keeps_invariant h c)
  exact invariant_refines (hinv _ (cache_init_invariant dev))

end XfsCacheRefinement
