import K64.BlockWrites
import K64.XfsRuns

/-! # Mounting, one device write at a time

On a device that does not fail, everything `k64_xfs_mount` writes is a function of the content it
finds. A crash keeps some first part of these writes; mounting again then ends with the content that
the first mount was going to leave. -/
namespace XfsRecovery

open ByteCodec IoProgram XfsFormat XfsCache XfsJournal XfsInode XfsVolumeLifecycle
  XfsVolumeRefinement XfsMounting XfsFormatting XfsSystem XfsRuns BlockWrites

def canRead (d : Device) (n : ℕ) : Bool := d.addressable n && d.online && d.hasRead && d.inRange n

def canWrite (d : Device) (n : ℕ) : Bool :=
  d.addressable n && d.online && d.hasWrite && d.writable && d.inRange n

/-- `d'` is `d` after the writes `ws`, first to last. -/
structure Ran (d d' : Device) (ws : List (ℕ × XBlock)) : Prop where
  geometry : d'.toGeometry = d.toGeometry
  base : d'.base = d.base
  faults : d'.faults = d.faults
  log : d'.log = ws.reverse ++ d.log

variable {d d' : Device} {ws : List (ℕ × XBlock)}

theorem Ran.trans {d'' : Device} {ws' : List (ℕ × XBlock)} (h : Ran d d' ws)
    (h' : Ran d' d'' ws') : Ran d d'' (ws ++ ws') :=
  ⟨h'.geometry.trans h.geometry, h'.base.trans h.base, h'.faults.trans h.faults, by
    rw [h'.log, h.log, List.reverse_append, List.append_assoc]⟩

theorem Ran.block (h : Ran d d' ws) :
    d'.block = written d.block ws := by
  have hlog : ∀ (ws : List (ℕ × XBlock)) (n : ℕ),
      Device.block { d with log := ws.reverse ++ d.log } n = written d.block ws n := by
    intro ws n
    induction ws using List.reverseRecOn with
    | nil => rfl
    | append_singleton ws w ih =>
      simp only [Device.block] at ih ⊢
      rw [List.reverse_append, List.reverse_singleton, List.singleton_append, List.cons_append,
        List.find?_cons, written_concat]
      by_cases hw : w.1 = n
      · rw [beq_iff_eq.mpr hw, ← hw, Function.update_self]
      · rw [beq_eq_false_iff_ne.mpr hw, Function.update_of_ne (Ne.symm hw)]
        exact ih
  funext n
  rw [Device.block, h.log, h.base]
  exact hlog ws n

theorem Ran.canRead (h : Ran d d' ws) :
    canRead d' = canRead d := by
  rcases d with ⟨g, base, log, faults, calls⟩
  rcases d' with ⟨g', base', log', faults', calls'⟩
  obtain rfl : g' = g := h.geometry
  rfl

theorem Ran.canWrite (h : Ran d d' ws) :
    canWrite d' = canWrite d := by
  rcases d with ⟨g, base, log, faults, calls⟩
  rcases d' with ⟨g', base', log', faults', calls'⟩
  obtain rfl : g' = g := h.geometry
  rfl

theorem inRange_lt {n : ℕ} (h : d.inRange n = true) : n + 1 < 2 ^ 64 := by
  simp only [Device.inRange, Bool.and_eq_true, bne_iff_ne, decide_eq_true_eq] at h
  obtain ⟨⟨hpos, hlt⟩, hle⟩ := h
  have hcount := d.blockCount.toNat_lt
  have hmul : n + 1 ≤ (n + 1) * d.sectors := Nat.le_mul_of_pos_right _ (by omega)
  rw [Nat.add_mul, Nat.one_mul] at hmul
  omega

structure Did (m m' : Machine) (ws : List (ℕ × XBlock)) : Prop where
  cache : m'.cache = m.cache
  dev : Ran m.dev m'.dev ws

theorem Did.trans {m m' m'' : Machine} {ws' : List (ℕ × XBlock)} (h : Did m m' ws)
    (h' : Did m' m'' ws') : Did m m'' (ws ++ ws') :=
  ⟨h'.cache.trans h.cache, h.dev.trans h'.dev⟩

abbrev mwp {α : Type} (f : XfsM α) (P : Option α → Xfs → Machine → Prop) (fs : Xfs) (m : Machine) :
    Prop :=
  Proc.wp XfsJournal.machine (fun _ _ => True) f P fs m

variable {fs : Xfs} {m : Machine}

theorem raw_read (hf : ∀ i, d.faults i = false) (n : ℕ) :
    (xfsRawRead d n).1 = (if canRead d n then some (d.block n) else none) ∧
      Ran d (xfsRawRead d n).2 [] := by
  have hsame : Ran d d [] := ⟨rfl, rfl, rfl, rfl⟩
  have hcalled : Ran d d.called [] := ⟨rfl, rfl, rfl, rfl⟩
  unfold xfsRawRead k64BlockRead canRead
  cases d.addressable n
  · exact ⟨rfl, hsame⟩
  cases d.online
  · exact ⟨rfl, hsame⟩
  cases d.hasRead
  · exact ⟨rfl, hsame⟩
  cases d.inRange n
  · exact ⟨rfl, hsame⟩
  rw [hf]
  exact ⟨rfl, hcalled⟩

theorem raw_write (hf : ∀ i, d.faults i = false) (n : ℕ) (b : XBlock) :
    (xfsRawWrite d n b).1 = canWrite d n ∧
      Ran d (xfsRawWrite d n b).2 (if canWrite d n then [(n, b)] else []) := by
  have hsame : Ran d d [] := ⟨rfl, rfl, rfl, rfl⟩
  have hstored : Ran d (d.called.store n b) [(n, b)] := ⟨rfl, rfl, rfl, rfl⟩
  unfold xfsRawWrite k64BlockWrite canWrite
  cases d.addressable n
  · exact ⟨rfl, hsame⟩
  cases d.online
  · exact ⟨rfl, hsame⟩
  cases d.hasWrite
  · exact ⟨rfl, hsame⟩
  cases d.writable
  · exact ⟨rfl, hsame⟩
  cases d.inRange n
  · exact ⟨rfl, hsame⟩
  rw [hf]
  exact ⟨rfl, hstored⟩

theorem rawRead_spec (hf : ∀ i, m.dev.faults i = false) (n : ℕ) :
    mwp (rawRead n) (fun r fs' m' =>
      r = (if canRead m.dev n then some (m.dev.block n) else none) ∧ fs' = fs ∧ Did m m' []) fs m := by
  obtain ⟨hr, hd⟩ := raw_read hf n
  simp only [mwp, rawRead, Proc.wp_bind, Proc.wp_request, Proc.wpNext_some, Proc.wp_orFail, true_and]
  exact ⟨hr, rfl, hd⟩

theorem rawWrite_spec (hf : ∀ i, m.dev.faults i = false) (n : ℕ) (b : XBlock) :
    mwp (rawWrite n b) (fun r fs' m' => r = (if canWrite m.dev n then some () else none) ∧
      fs' = fs ∧ Did m m' (if canWrite m.dev n then [(n, b)] else [])) fs m := by
  obtain ⟨hr, hd⟩ := raw_write hf n b
  simp only [mwp, rawWrite, Proc.wp_bind, Proc.wp_request, Proc.wpNext_some, Proc.wp_guard, true_and]
  change if (xfsRawWrite m.dev n b).1 = true then _ else _
  rw [hr]
  cases hc : canWrite m.dev n with
  | false =>
    rw [hc] at hd
    exact ⟨rfl, rfl, hd⟩
  | true =>
    rw [hc] at hd
    exact ⟨rfl, rfl, hd⟩

section Content

variable (rd wr : ℕ → Bool) (c : ℕ → XBlock) (sb : Superblock)

/-- The answer of `journal_read_entry`. -/
def entryIn (n : ℕ) : Option JournalEntry :=
  if rd n then
    let out := (c n).record journalEntryCodec 0
    if out.magic == journalMagic && out.headerChecksum == journalHeaderChecksum out then some out
    else none
  else none

def scanFrom : ℕ → ℕ → UInt64 → List JournalEntry → Bool × List JournalEntry
  | 0, _, _, records => (false, records)
  | turns + 1, off, txId, records =>
    if sb.journalBlocks.toNat ≤ off then (false, records)
    else
      match entryIn rd c ((sb.journalStart.toNat + off) % 2 ^ 64) with
      | none => (false, records)
      | some entry =>
        let txId := if txId = 0 then entry.txId else txId
        if entry.txId ≠ txId then (false, records)
        else if entry.type = journalCommit then (true, records)
        else if entry.type ≠ journalMetadataBlock ∨ entry.payloadSize ≠ 4096 ∨
            sb.journalBlocks.toNat ≤ off + 1 ∨ 16 ≤ records.length then (false, records)
        else scanFrom turns (off + 2) txId (records ++ [entry])

def replayWrites : (ℕ → XBlock) → ℕ → List JournalEntry → List (ℕ × XBlock) × Bool
  | _, _, [] => ([], true)
  | c, i, entry :: records =>
    let n := (sb.journalStart.toNat + i * 2 + 1) % 2 ^ 64
    if rd n && k64XfsCrc32 ((c n).read 0 4096) == entry.payloadChecksum &&
        wr entry.targetBlock.toNat then
      let w := (entry.targetBlock.toNat, c n)
      let rest := replayWrites (Function.update c w.1 w.2) (i + 1) records
      (w :: rest.1, rest.2)
    else ([], false)

/-- The writes that clear `n` journal blocks from offset `off` on. -/
def clearWrites : ℕ → ℕ → List (ℕ × XBlock) × Bool
  | _, 0 => ([], true)
  | off, n + 1 =>
    let a := (sb.journalStart.toNat + off) % 2 ^ 64
    if wr a then
      let rest := clearWrites (off + 1) n
      ((a, Block.zero) :: rest.1, rest.2)
    else ([], false)

def andThen (first second : List (ℕ × XBlock) × Bool) : List (ℕ × XBlock) × Bool :=
  if first.2 then (first.1 ++ second.1, second.2) else first

def recoverWrites : List (ℕ × XBlock) × Bool :=
  let scan := scanFrom rd c sb 17 0 0 []
  andThen (if scan.1 then replayWrites rd wr sb c 0 scan.2 else ([], true))
    (clearWrites wr sb 0 sb.journalBlocks.toNat)

def mountedSuper (b : XBlock) : XBlock :=
  b.setRecord superblockCodec 0 (Superblock.sealed
    { b.record superblockCodec 0 with mountState := mountDirty })

def superWrites : List (ℕ × XBlock) := if wr 0 then [(0, mountedSuper (c 0))] else []

/-- Everything that `k64_xfs_mount` writes to a dirty volume. -/
def mountWrites : List (ℕ × XBlock) :=
  (andThen (recoverWrites rd wr c ((c 0).record superblockCodec 0)) (superWrites wr c, true)).1

end Content

theorem entry_spec (hf : ∀ i, m.dev.faults i = false) (n : ℕ) :
    mwp (journalReadEntry n) (fun r fs' m' =>
      r = entryIn (canRead m.dev) m.dev.block n ∧ fs' = fs ∧ Did m m' []) fs m := by
  rw [journalReadEntry]
  refine Proc.wp_seq (rawRead_spec hf n) ?_ ?_
  · rintro fs' m' ⟨hr, hfs, hd⟩
    refine ⟨?_, hfs, hd⟩
    rw [entryIn]
    split at hr
    · cases hr
    · next hc => rw [if_neg hc]
  · rintro b fs' m' ⟨hr, hfs, hd⟩
    split at hr
    · next hc =>
      obtain rfl := Option.some.inj hr
      simp only [Proc.wp_bind, Proc.wp_guard]
      rw [entryIn, if_pos hc]
      dsimp only
      split
      · exact ⟨rfl, hfs, hd⟩
      · exact ⟨rfl, hfs, hd⟩
    · cases hr

theorem scan_spec (sb : Superblock) : ∀ (turns off : ℕ) (txId : UInt64)
    (records : List JournalEntry) (m : Machine), (∀ i, m.dev.faults i = false) →
    mwp (recoverScan sb turns off txId records) (fun r fs' m' =>
      r = some (scanFrom (canRead m.dev) m.dev.block sb turns off txId records) ∧ fs' = fs ∧
        Did m m' []) fs m := by
  intro turns
  induction turns with
  | zero => exact fun off txId records m _ => ⟨rfl, rfl, rfl, rfl, rfl, rfl, rfl⟩
  | succ turns ih =>
    intro off txId records m hf
    have hsame : Did m m [] := ⟨rfl, rfl, rfl, rfl, rfl⟩
    rw [recoverScan, scanFrom]
    by_cases hoff : sb.journalBlocks.toNat ≤ off
    · rw [if_pos hoff, if_pos hoff]
      exact ⟨rfl, rfl, hsame⟩
    · rw [if_neg hoff, if_neg hoff]
      change Proc.wp _ _ (_ >>= _) _ fs m
      rw [Proc.wp_bind, Proc.wp_attempt]
      refine Proc.wp_mono (entry_spec hf _) ?_
      rintro r fs' m' ⟨rfl, rfl, hd⟩
      rw [Proc.wpNext_some]
      cases entryIn (canRead m.dev) m.dev.block ((sb.journalStart.toNat + off) % 2 ^ 64) with
      | none => exact ⟨rfl, rfl, hd⟩
      | some entry =>
        dsimp only
        generalize (if txId = 0 then entry.txId else txId) = tx
        by_cases htx : entry.txId ≠ tx
        · rw [if_pos htx, if_pos htx]
          exact ⟨rfl, rfl, hd⟩
        rw [if_neg htx, if_neg htx]
        by_cases hcommit : entry.type = journalCommit
        · rw [if_pos hcommit, if_pos hcommit]
          exact ⟨rfl, rfl, hd⟩
        rw [if_neg hcommit, if_neg hcommit]
        by_cases hbad : entry.type ≠ journalMetadataBlock ∨ entry.payloadSize ≠ 4096 ∨
            sb.journalBlocks.toNat ≤ off + 1 ∨ 16 ≤ records.length
        · rw [if_pos hbad, if_pos hbad]
          exact ⟨rfl, rfl, hd⟩
        rw [if_neg hbad, if_neg hbad]
        have hnext := ih (off + 2) tx (records ++ [entry]) m'
          fun i => by rw [hd.dev.faults]; exact hf i
        rw [hd.dev.canRead, hd.dev.block] at hnext
        exact Proc.wp_mono hnext fun r x t h => ⟨h.1, h.2.1, hd.trans h.2.2⟩

theorem replay_spec (sb : Superblock) (records : List JournalEntry) : ∀ (i : ℕ) (m : Machine),
    (∀ i, m.dev.faults i = false) →
    mwp (recoverReplay sb i records) (fun r fs' m' =>
      let w := replayWrites (canRead m.dev) (canWrite m.dev) sb m.dev.block i records
      r = (if w.2 then some () else none) ∧ fs' = fs ∧ Did m m' w.1) fs m := by
  induction records with
  | nil => exact fun i m _ => ⟨rfl, rfl, rfl, rfl, rfl, rfl, rfl⟩
  | cons entry records ih =>
    intro i m hf
    rw [recoverReplay, replayWrites]
    refine Proc.wp_seq (rawRead_spec hf _) ?_ ?_
    · rintro fs' m' ⟨hr, rfl, hd⟩
      split at hr
      · cases hr
      · next hc =>
        rw [Bool.not_eq_true] at hc
        dsimp only
        rw [hc, Bool.false_and, Bool.false_and, if_neg Bool.false_ne_true]
        exact ⟨rfl, rfl, hd⟩
    · rintro b fs' m' ⟨hr, rfl, hd⟩
      split at hr
      case isFalse => cases hr
      next hc =>
      obtain rfl := Option.some.inj hr
      dsimp only
      rw [hc, Bool.true_and, Proc.wp_bind, Proc.wp_guard]
      cases hcrc : k64XfsCrc32 ((m.dev.block ((sb.journalStart.toNat + i * 2 + 1) %
          2 ^ 64)).read 0 4096) == entry.payloadChecksum with
      | false => exact ⟨rfl, rfl, hd⟩
      | true =>
        rw [if_pos rfl, Proc.wpNext_some, Bool.true_and]
        have hf' : ∀ i, m'.dev.faults i = false := fun i => by rw [hd.dev.faults]; exact hf i
        refine Proc.wp_seq (rawWrite_spec hf' _ _) ?_ ?_
        · rintro fs'' m'' ⟨hr', rfl, hd'⟩
          rw [hd.dev.canWrite] at hr' hd'
          split at hr'
          · cases hr'
          · next hw =>
            rw [if_neg hw] at hd' ⊢
            exact ⟨rfl, rfl, hd.trans hd'⟩
        · rintro _ fs'' m'' ⟨hr', rfl, hd'⟩
          rw [hd.dev.canWrite] at hr' hd'
          split at hr'
          case isFalse => cases hr'
          next hw =>
          rw [if_pos hw] at hd' ⊢
          have hnext := ih (i + 1) m'' fun i => by rw [hd'.dev.faults]; exact hf' i
          have hall := hd.trans hd'
          rw [hall.dev.canRead, hall.dev.canWrite, hall.dev.block] at hnext
          exact Proc.wp_mono hnext fun r x t h => ⟨h.1, h.2.1, hall.trans h.2.2⟩

theorem clear_spec (sb : Superblock) : ∀ (n off : ℕ) (m : Machine), (∀ i, m.dev.faults i = false) →
    mwp (Proc.loop (fun off => rawWrite ((sb.journalStart.toNat + off) % 2 ^ 64) Block.zero) off n)
      (fun r fs' m' =>
        let w := clearWrites (canWrite m.dev) sb off n
        r = (if w.2 then some () else none) ∧ fs' = fs ∧ Did m m' w.1) fs m := by
  intro n
  induction n with
  | zero => exact fun off m _ => ⟨rfl, rfl, rfl, rfl, rfl, rfl, rfl⟩
  | succ n ih =>
    intro off m hf
    rw [Proc.loop, clearWrites]
    refine Proc.wp_seq (rawWrite_spec hf _ _) ?_ ?_
    · rintro fs' m' ⟨hr, rfl, hd⟩
      split at hr
      · cases hr
      · next hw =>
        rw [if_neg hw] at hd ⊢
        exact ⟨rfl, rfl, hd⟩
    · rintro _ fs' m' ⟨hr, rfl, hd⟩
      split at hr
      case isFalse => cases hr
      next hw =>
      rw [if_pos hw] at hd ⊢
      have hnext := ih (off + 1) m' fun i => by rw [hd.dev.faults]; exact hf i
      rw [hd.dev.canWrite] at hnext
      exact Proc.wp_mono hnext fun r x t h => ⟨h.1, h.2.1, hd.trans h.2.2⟩

theorem recover_spec (hf : ∀ i, m.dev.faults i = false) (hm : fs.mounted = true) :
    mwp k64XfsJournalRecover (fun r fs' m' =>
      let w := recoverWrites (canRead m.dev) (canWrite m.dev) m.dev.block fs.super
      r = (if w.2 then some () else none) ∧ Did m m' w.1 ∧ (r.isSome = true →
        fs' = { fs with journalActive := false, journalRecords := 0 }.withState mountClean)) fs m := by
  rw [k64XfsJournalRecover, mwp, Proc.wp_bind, Proc.wp_load, Proc.wpNext_some, Proc.wp_bind,
    Proc.wp_guard, if_pos hm, Proc.wpNext_some, Proc.wp_bind]
  refine Proc.wp_mono (scan_spec fs.super 17 0 0 [] m hf) ?_
  rintro r fs₁ m₁ ⟨rfl, rfl, hd₁⟩
  rw [Proc.wpNext_some, recoverWrites]
  have hf₁ : ∀ i, m₁.dev.faults i = false := fun i => by rw [hd₁.dev.faults]; exact hf i
  obtain ⟨committed, records⟩ := scanFrom (canRead m.dev) m.dev.block fs₁.super 17 0 0 []
  -- what clearing the journal and forgetting the transaction makes of it
  have hclear : ∀ (m₂ : Machine) (ws : List (ℕ × XBlock)), Did m m₂ ws → Proc.wp machine
      (fun _ _ => True) (do
        recoverClear fs₁.super
        Proc.update fun fs => { fs with journalActive := false, journalRecords := 0 }.withState
          mountClean)
      (fun r fs' m' =>
        let w := andThen (ws, true) (clearWrites (canWrite m.dev) fs₁.super 0
          fs₁.super.journalBlocks.toNat)
        r = (if w.2 then some () else none) ∧ Did m m' w.1 ∧ (r.isSome = true → fs' =
          { fs₁ with journalActive := false, journalRecords := 0 }.withState mountClean)) fs₁ m₂ := by
    intro m₂ ws hd₂
    have hf₂ : ∀ i, m₂.dev.faults i = false := fun i => by rw [hd₂.dev.faults]; exact hf i
    have hspec : mwp _ _ fs₁ m₂ := clear_spec fs₁.super fs₁.super.journalBlocks.toNat 0 m₂ hf₂
    rw [hd₂.dev.canWrite] at hspec
    refine Proc.wp_seq hspec ?_ ?_
    · rintro fs₃ m₃ ⟨hr, rfl, hd₃⟩
      exact ⟨hr, hd₂.trans hd₃, nofun⟩
    · rintro _ fs₃ m₃ ⟨hr, rfl, hd₃⟩
      exact ⟨hr, hd₂.trans hd₃, fun _ => rfl⟩
  cases committed with
  | false => exact hclear m₁ [] hd₁
  | true =>
    have hspec : mwp _ _ fs₁ m₁ := replay_spec fs₁.super records 0 m₁ hf₁
    rw [hd₁.dev.canRead, hd₁.dev.canWrite, hd₁.dev.block, written_nil] at hspec
    refine Proc.wp_seq hspec ?_ ?_
    · rintro fs₂ m₂ ⟨hr, rfl, hd₂⟩
      dsimp only at hr ⊢
      rw [if_pos rfl, andThen]
      split at hr
      · cases hr
      · next hw =>
        rw [if_neg hw, if_neg hw]
        exact ⟨rfl, hd₁.trans hd₂, nofun⟩
    · rintro _ fs₂ m₂ ⟨hr, rfl, hd₂⟩
      dsimp only at hr ⊢
      split at hr
      case isFalse => cases hr
      next hw =>
      rw [if_pos rfl, andThen, if_pos hw]
      exact hclear m₂ _ (hd₁.trans hd₂)

structure HoldsSuper (c : Cache) (dirty : Bool) (b : XBlock) : Prop where
  valid : (c.entries 0).valid = true
  dirty : (c.entries 0).dirty = dirty
  blockNo : (c.entries 0).blockNo = 0
  data : (c.entries 0).data = b
  others : ∀ i, i ≠ 0 → (c.entries i).valid = false

theorem finRange_64 : List.finRange 64 = 0 :: (List.finRange 63).map Fin.succ :=
  List.finRange_succ

theorem find_super {c : Cache} {dirty : Bool} {b : XBlock} (h : HoldsSuper c dirty b) :
    cacheFind c 0 = some 0 := by
  rw [cacheFind, finRange_64, List.find?_cons, h.valid, h.blockNo]
  rfl

theorem find_init (n : ℕ) : cacheFind k64XfsCacheInit n = none :=
  List.find?_eq_none.mpr fun _ _ => by simp [k64XfsCacheInit]

theorem victim_init (dev : Device) :
    cacheVictim ⟨k64XfsCacheInit, dev⟩ = (some 0, ⟨k64XfsCacheInit, dev⟩) := by
  have hslot : victimSlot k64XfsCacheInit = 0 := by
    rw [victimSlot, finRange_64, victimScan]
    rfl
  rw [cacheVictim]
  dsimp only
  rw [hslot]
  rfl

theorem read_super {dev : Device} (hf : ∀ i, dev.faults i = false) (hr : canRead dev 0 = true) :
    ∃ m', k64XfsCacheRead ⟨k64XfsCacheInit, dev⟩ 0 = (some (dev.block 0), m') ∧
      HoldsSuper m'.cache false (dev.block 0) ∧ Ran dev m'.dev [] := by
  obtain ⟨hread, hran⟩ := raw_read hf 0
  rw [if_pos hr] at hread
  rw [k64XfsCacheRead, find_init, victim_init]
  dsimp only
  generalize xfsRawRead dev 0 = r at hread hran
  obtain ⟨o, dev'⟩ := r
  obtain rfl : o = some (dev.block 0) := hread
  refine ⟨_, rfl, ⟨rfl, rfl, rfl, rfl, fun i hi => ?_⟩, hran⟩
  change (Function.update k64XfsCacheInit.entries 0 _ i).valid = false
  rw [Function.update_of_ne hi]
  rfl

theorem write_super {m : Machine} {dirty : Bool} {b : XBlock} (h : HoldsSuper m.cache dirty b)
    (b' : XBlock) : ∃ m', k64XfsCacheWrite m 0 b' = (true, m') ∧ HoldsSuper m'.cache true b' ∧
      m'.dev = m.dev := by
  rw [k64XfsCacheWrite, find_super h]
  refine ⟨_, rfl, ⟨h.valid, rfl, h.blockNo, rfl, fun i hi => ?_⟩, rfl⟩
  change (Function.update m.cache.entries 0 _ i).valid = false
  rw [Function.update_of_ne hi, h.others i hi]

theorem flushSlots_clean (l : List (Fin 64)) (m : Machine)
    (h : ∀ i ∈ l, (m.cache.entries i).valid = false) : flushSlots l m = (true, m) := by
  induction l with
  | nil => rfl
  | cons i l ih =>
    have hslot : flushSlot i m = (true, m) := by
      rw [flushSlot, h i (by simp), Bool.false_and]
      rfl
    rw [flushSlots, hslot]
    exact ih fun j hj => h j (List.mem_cons_of_mem _ hj)

theorem flush_super {m : Machine} {b : XBlock} (hf : ∀ i, m.dev.faults i = false)
    (h : HoldsSuper m.cache true b) :
    Ran m.dev (k64XfsCacheFlush m).2.dev (if canWrite m.dev 0 then [(0, b)] else []) := by
  obtain ⟨hok, hran⟩ := raw_write hf 0 b
  rw [k64XfsCacheFlush, finRange_64, flushSlots, flushSlot]
  rw [h.valid, h.dirty, h.blockNo, h.data]
  rw [Bool.and_self, if_pos rfl]
  generalize xfsRawWrite m.dev 0 b = r at hok hran
  obtain ⟨ok, dev⟩ := r
  cases ok with
  | false => exact hran
  | true =>
    dsimp only
    rw [flushSlots_clean]
    · exact hran
    · intro i hi
      obtain ⟨j, -, rfl⟩ := List.mem_map.mp hi
      have hother : ∀ e, ({ m with dev }.setEntry 0 e).cache.entries j.succ =
          m.cache.entries j.succ := fun e =>
        Function.update_of_ne (Fin.succ_ne_zero j) e m.cache.entries
      rw [hother, h.others _ (Fin.succ_ne_zero j)]

theorem recovered_spec (hf : ∀ i, m.dev.faults i = false) (hm : fs.mounted = true)
    (htmp : fs.tmp = m.dev.block 0) (hsup : fs.super = (m.dev.block 0).record superblockCodec 0)
    (hcache : HoldsSuper m.cache false (m.dev.block 0)) :
    mwp (do
      k64XfsJournalRecover
      Proc.update fun fs => fs.withState mountDirty
      xfsWriteSuper
      cacheFlush) (fun _ _ m' =>
        Ran m.dev m'.dev (mountWrites (canRead m.dev) (canWrite m.dev) m.dev.block)) fs m := by
  have hspec := recover_spec hf hm
  rw [hsup] at hspec
  rw [mountWrites, andThen]
  refine Proc.wp_seq hspec ?_ ?_
  · rintro fs₁ m₁ ⟨hr, hd, -⟩
    split at hr
    · cases hr
    · next hw =>
      rw [if_neg hw]
      exact hd.dev
  · rintro _ fs₁ m₁ ⟨hr, hd, hfs⟩
    split at hr
    case isFalse => cases hr
    next hw =>
    rw [if_pos hw]
    have hf₁ : ∀ i, m₁.dev.faults i = false := fun i => by rw [hd.dev.faults]; exact hf i
    obtain ⟨m₂, hm₂, hcache₂, hdev⟩ := write_super (m := m₁) (hd.cache ▸ hcache)
      (mountedSuper (m.dev.block 0))
    have hflush := flush_super (fun i => by rw [hdev]; exact hf₁ i) hcache₂
    rw [hdev, hd.dev.canWrite] at hflush
    have hsuper : (fs₁.withState mountDirty).tmp.setRecord superblockCodec 0
        (Superblock.sealed (fs₁.withState mountDirty).super) = mountedSuper (m.dev.block 0) := by
      rw [hfs rfl, mountedSuper, ← hsup, ← htmp]
      rfl
    have hactive : (fs₁.withState mountDirty).journalActive = false := by
      rw [hfs rfl]
      rfl
    simp only [Proc.wp_bind, Proc.wp_update, Proc.wpNext_some, xfsWriteSuper, Proc.wp_load, setTmp,
      xfsBlockWrite, Xfs.journalActive_withTmp, hactive, Bool.false_and, Bool.false_eq_true, if_false,
      cacheWrite, Proc.wp_request, true_and, Proc.wp_guard, cacheFlush]
    rw [← hsuper] at hm₂
    rw [show machine (Req.write 0 ((fs₁.withState mountDirty).tmp.setRecord superblockCodec 0
      (Superblock.sealed (fs₁.withState mountDirty).super))) m₁ = (true, m₂) from hm₂]
    rw [if_pos rfl]
    have hran := hd.dev.trans hflush
    split
    · exact hran
    · exact hran

theorem mount_spec (hf : ∀ i, m.dev.faults i = false) (hread : canRead m.dev 0 = true)
    (hsuper : superAccepted m.dev.toGeometry ((m.dev.block 0).record superblockCodec 0) = true)
    (hdirty : ((m.dev.block 0).record superblockCodec 0).mountState = mountDirty) :
    mwp (k64XfsMount m.dev.toGeometry) (fun _ _ m' =>
      Ran m.dev m'.dev (mountWrites (canRead m.dev) (canWrite m.dev) m.dev.block)) fs m := by
  have hsector : (m.dev.blockSize != 0 && 4096 % m.dev.blockSize.toNat == 0) = true := by
    simp only [canRead, Device.addressable, Bool.and_eq_true] at hread ⊢
    exact hread.1.1.1.1
  have hrec : needsRecovery ((m.dev.block 0).record superblockCodec 0) = true := by
    rw [needsRecovery, hdirty]
    rfl
  obtain ⟨m₁, hm₁, hcache₁, hran₁⟩ := read_super hf hread
  have hf₁ : ∀ i, m₁.dev.faults i = false := fun i => by rw [hran₁.faults]; exact hf i
  have hblock : m₁.dev.block = m.dev.block := hran₁.block
  rw [k64XfsMount, mwp, Proc.wp_bind, mountSuper]
  simp only [Proc.wp_bind, Proc.wp_guard, hsector, if_true, Proc.wpNext_some, Proc.wp_update,
    cacheInit, Proc.wp_request, true_and, xfsBlockReadTmp, xfsBlockRead, cacheRead]
  rw [show machine (Req.read 0) (machine Req.init m).2 = (some (m.dev.block 0), m₁) from hm₁]
  rw [Proc.wp_orFail, Proc.wpNext_some, Proc.wp_bind, setTmp, Proc.wp_update, Proc.wpNext_some,
    Proc.wp_pure, Proc.wpNext_some, Proc.wp_bind, Proc.wp_guard, if_pos hsuper, Proc.wpNext_some,
    Proc.wp_bind, Proc.wp_update, Proc.wpNext_some, Proc.wp_pure, Proc.wpNext_some, if_pos hrec]
  rw [← hblock] at hcache₁
  dsimp only
  generalize hfs : (Xfs.mk _ _ _ _ _ _) = fs₁
  refine Proc.wp_mono (P := fun _ _ m' => Ran m₁.dev m'.dev
    (mountWrites (canRead m₁.dev) (canWrite m₁.dev) m₁.dev.block)) ?_ ?_
  · refine recovered_spec hf₁ ?_ ?_ ?_ hcache₁
    · rw [← hfs]
    · rw [hblock, ← hfs]
      rfl
    · rw [hblock, ← hfs]
  intro r fs' m' hran
  rw [hran₁.canRead, hran₁.canWrite, hblock] at hran
  have hall := hran₁.trans hran
  rwa [List.nil_append] at hall

section Again

variable {rd wr : ℕ → Bool} {c c' : ℕ → XBlock} {sb : Superblock}

def SameJournal (sb : Superblock) (c c' : ℕ → XBlock) : Prop :=
  ∀ n, sb.journalStart.toNat ≤ n → n < sb.journalStart.toNat + sb.journalBlocks.toNat → c' n = c n

theorem entryIn_congr {n : ℕ} (h : c' n = c n) : entryIn rd c' n = entryIn rd c n := by
  rw [entryIn, entryIn, h]

theorem entryIn_read {n : ℕ} {e : JournalEntry} (h : entryIn rd c n = some e) : rd n = true := by
  unfold entryIn at h
  split at h
  · assumption
  · cases h

theorem scan_committed (hrd : ∀ n, rd n = true → n + 1 < 2 ^ 64) (h0 : entryIn rd c 0 = none)
    (turns : ℕ) : ∀ (off : ℕ) (txId : UInt64) (records out : List JournalEntry),
    sb.journalStart.toNat + off < 2 ^ 64 →
    scanFrom rd c sb turns off txId records = (true, out) →
    (∃ more, out = records ++ more ∧ off + 2 * more.length < sb.journalBlocks.toNat ∧
      sb.journalStart.toNat + off + 2 * more.length < 2 ^ 64) ∧
    (SameJournal sb c c' → scanFrom rd c' sb turns off txId records = (true, out)) := by
  induction turns with
  | zero => exact fun _ _ _ _ _ h => absurd (congrArg Prod.fst h) Bool.false_ne_true
  | succ turns ih =>
    intro off txId records out hoff h
    rw [scanFrom] at h ⊢
    by_cases hin : sb.journalBlocks.toNat ≤ off
    · rw [if_pos hin] at h
      exact absurd (congrArg Prod.fst h) Bool.false_ne_true
    rw [if_neg hin] at h ⊢
    rw [Nat.mod_eq_of_lt hoff] at h ⊢
    have hcongr : SameJournal sb c c' → entryIn rd c' (sb.journalStart.toNat + off) =
        entryIn rd c (sb.journalStart.toNat + off) := fun hsame =>
      entryIn_congr (hsame _ (by omega) (by omega))
    cases he : entryIn rd c (sb.journalStart.toNat + off) with
    | none =>
      rw [he] at h
      exact absurd (congrArg Prod.fst h) Bool.false_ne_true
    | some e =>
      rw [he] at h hcongr
      dsimp only at h
      generalize htx : (if txId = 0 then e.txId else txId) = tx at h
      have hread := hrd _ (entryIn_read he)
      split at h
      · exact absurd (congrArg Prod.fst h) Bool.false_ne_true
      next hid =>
      split at h
      · next hcommit =>
        obtain rfl := congrArg Prod.snd h
        refine ⟨⟨[], (List.append_nil _).symm, by simpa using hin, by simpa using hoff⟩,
          fun hsame => ?_⟩
        rw [hcongr hsame]
        dsimp only
        rw [htx, if_neg hid, if_pos hcommit]
      next hcommit =>
      split at h
      · exact absurd (congrArg Prod.fst h) Bool.false_ne_true
      next hmeta =>
      -- the next header is not block 0 behind the last block number
      have hnext : sb.journalStart.toNat + (off + 2) < 2 ^ 64 := by
        by_contra hge
        have hwrap : (sb.journalStart.toNat + (off + 2)) % 2 ^ 64 = 0 := by omega
        cases turns with
        | zero => exact absurd (congrArg Prod.fst h) Bool.false_ne_true
        | succ turns =>
          rw [scanFrom, hwrap, h0] at h
          split at h <;> exact absurd (congrArg Prod.fst h) Bool.false_ne_true
      obtain ⟨⟨more, rfl, hblocks, hend⟩, hsame'⟩ := ih (off + 2) tx (records ++ [e]) out hnext h
      refine ⟨⟨e :: more, by simp, ?_, ?_⟩, fun hsame => ?_⟩
      · rw [List.length_cons]
        omega
      · rw [List.length_cons]
        omega
      · rw [hcongr hsame]
        dsimp only
        rw [htx, if_neg hid, if_neg hcommit, if_neg hmeta]
        exact hsame' hsame

theorem replay_targets (records : List JournalEntry) : ∀ (c : ℕ → XBlock) (i : ℕ),
    ∀ w ∈ (replayWrites rd wr sb c i records).1, ∃ e ∈ records, w.1 = e.targetBlock.toNat := by
  induction records with
  | nil => exact fun _ _ _ hw => absurd hw List.not_mem_nil
  | cons e records ih =>
    intro c i w hw
    rw [replayWrites] at hw
    dsimp only at hw
    split at hw
    · rcases List.mem_cons.mp hw with rfl | hw
      · exact ⟨e, by simp, rfl⟩
      · obtain ⟨e', he', heq⟩ := ih _ _ w hw
        exact ⟨e', List.mem_cons_of_mem _ he', heq⟩
    · exact absurd hw List.not_mem_nil

/-- The block `n` is neither the superblock nor in the journal. -/
def Outside (sb : Superblock) (n : ℕ) : Prop :=
  n ≠ 0 ∧ ¬ (sb.journalStart.toNat ≤ n ∧ n < sb.journalStart.toNat + sb.journalBlocks.toNat)

theorem replay_congr (records : List JournalEntry) : ∀ (c c' : ℕ → XBlock) (i : ℕ),
    (∀ e ∈ records, Outside sb e.targetBlock.toNat) →
    2 * (i + records.length) < sb.journalBlocks.toNat →
    sb.journalStart.toNat + 2 * (i + records.length) < 2 ^ 64 → SameJournal sb c c' →
    replayWrites rd wr sb c' i records = replayWrites rd wr sb c i records := by
  induction records with
  | nil => exact fun _ _ _ _ _ _ _ => rfl
  | cons e records ih =>
    intro c c' i hout hblocks hend hsame
    rw [List.length_cons] at hblocks hend
    rw [replayWrites, replayWrites]
    dsimp only
    rw [Nat.mod_eq_of_lt (by omega : sb.journalStart.toNat + i * 2 + 1 < 2 ^ 64),
      hsame (sb.journalStart.toNat + i * 2 + 1) (by omega) (by omega),
      ih (Function.update c e.targetBlock.toNat (c (sb.journalStart.toNat + i * 2 + 1)))
        (Function.update c' e.targetBlock.toNat (c (sb.journalStart.toNat + i * 2 + 1))) (i + 1)
        (fun e' he' => hout e' (List.mem_cons_of_mem _ he')) (by omega) (by omega) ?_]
    intro n hlo hhi
    have hne : n ≠ e.targetBlock.toNat := by
      rintro rfl
      exact (hout e (by simp)).2 ⟨hlo, hhi⟩
    rw [Function.update_of_ne hne, Function.update_of_ne hne, hsame n hlo hhi]

theorem clear_blocks (hwr : ∀ n, wr n = true → n + 1 < 2 ^ 64) (n : ℕ) : ∀ off,
    sb.journalStart.toNat + off < 2 ^ 64 → ∀ w ∈ (clearWrites wr sb off n).1,
      w.2 = Block.zero ∧ sb.journalStart.toNat + off ≤ w.1 ∧
        w.1 < sb.journalStart.toNat + off + n := by
  induction n with
  | zero => exact fun _ _ _ hw => absurd hw List.not_mem_nil
  | succ n ih =>
    intro off hoff w hw
    rw [clearWrites] at hw
    dsimp only at hw
    rw [Nat.mod_eq_of_lt hoff] at hw
    split at hw
    · next hok =>
      rcases List.mem_cons.mp hw with rfl | hw
      · exact ⟨rfl, Nat.le_refl _, by dsimp only; omega⟩
      · have hlt := hwr _ hok
        obtain ⟨hz, hlo, hhi⟩ := ih (off + 1) (by omega) w hw
        exact ⟨hz, by omega, by omega⟩
    · exact absurd hw List.not_mem_nil

theorem strncmp_head {x : UInt8} {xs : List UInt8} (h : k64Strncmp (x :: xs) xfsMagic 7 = 0) :
    x = 75 := by
  by_contra hne
  have hne' : (x.toNat : ℤ) - 75 ≠ 0 := by
    intro hz
    have hx : x.toNat = 75 := by omega
    exact hne (UInt8.toNat_inj.mp hx)
  have hstep : k64Strncmp (x :: xs) xfsMagic 7 =
      if x ≠ 0 ∧ (75 : UInt8) ≠ 0 then
        if x ≠ 75 then (x.toNat : ℤ) - 75 else k64Strncmp xs xfsMagic.tail 6
      else if 6 % 2 ^ 32 < 2 ^ 31 ∧ (x ≠ 0 ∨ (75 : UInt8) ≠ 0) then (x.toNat : ℤ) - 75 else 0 := rfl
  rw [hstep] at h
  by_cases hx : x = 0
  · rw [if_neg (fun hboth => hboth.1 hx), if_pos ⟨by decide, Or.inr (by decide)⟩] at h
    exact hne' h
  · rw [if_pos ⟨hx, by decide⟩, if_pos hne] at h
    exact hne' h

theorem super_magic {g : Geometry} {b : XBlock}
    (h : superAccepted g (b.record superblockCodec 0) = true) : b.get 0 = 75 := by
  have hmagic : (b.record superblockCodec 0).magic.toList = (List.range 8).map b.get := by
    have hofFn : (b.record superblockCodec 0).magic =
        Vector.ofFn fun i : Fin 8 => (b.read 0 3980).getD i 0 := rfl
    rw [hofFn]
    apply List.ext_getElem
    · simp
    · intro i h₁ h₂
      have hi : i < 3980 := by
        have : i < 8 := by simpa using h₂
        omega
      rw [Vector.getElem_toList, Vector.getElem_ofFn,
        List.getD_eq_getElem _ _ (by rw [Block.length_read]; exact hi)]
      simp only [Block.read, List.getElem_map, List.getElem_range, Nat.zero_add]
  simp only [superAccepted, Bool.and_eq_true] at h
  have hcmp := beq_iff_eq.mp h.1.1.1.1.1
  rw [hmagic] at hcmp
  exact strncmp_head hcmp

theorem entry_magic {b : XBlock} (h : (b.record journalEntryCodec 0).magic = journalMagic) :
    b.get 0 = 76 := by
  have hval : (b.record journalEntryCodec 0).magic = UInt32.ofNat (leNat ((b.read 0 36).take 4)) := rfl
  have hread : (b.read 0 36).take 4 = [b.get 0, b.get 1, b.get 2, b.get 3] := rfl
  rw [hval, hread] at h
  have hnat := congrArg UInt32.toNat h
  rw [UInt32.toNat_ofNat'] at hnat
  have hmagic : journalMagic.toNat = 0x584A4E4C := rfl
  rw [hmagic] at hnat
  simp only [leNat] at hnat
  have h0 := (b.get 0).toNat_lt
  have h1 := (b.get 1).toNat_lt
  have h2 := (b.get 2).toNat_lt
  have h3 := (b.get 3).toNat_lt
  have hx : (b.get 0).toNat = 76 := by omega
  exact UInt8.toNat_inj.mp hx

theorem super_no_entry {g : Geometry} (h : superAccepted g ((c 0).record superblockCodec 0) = true) :
    entryIn rd c 0 = none := by
  unfold entryIn
  split
  · dsimp only
    rw [if_neg]
    rw [Bool.and_eq_true, beq_iff_eq]
    rintro ⟨hmagic, -⟩
    have hx := entry_magic hmagic
    rw [super_magic h] at hx
    exact absurd hx (by decide)
  · rfl

theorem zero_no_entry {n : ℕ} (h : c n = Block.zero) : entryIn rd c n = none := by
  unfold entryIn
  split
  · dsimp only
    rw [if_neg]
    rw [Bool.and_eq_true, beq_iff_eq, h]
    rintro ⟨hmagic, -⟩
    have hx := entry_magic hmagic
    rw [Block.get_zero] at hx
    exact absurd hx (by decide)
  · rfl

theorem setRecord_again {n : ℕ} {α : Type} (b : Block n) (k : Codec α) (off : ℕ) (a : α) :
    (b.setRecord k off a).setRecord k off a = b.setRecord k off a := by
  refine Block.ext_get fun i hi => ?_
  rw [Block.setRecord, Block.setRecord, Block.get_write _ _ _ hi, Block.get_write _ _ _ hi]
  split_ifs <;> rfl

theorem mountedSuper_record {g : Geometry} {b : XBlock}
    (h : superAccepted g (b.record superblockCodec 0) = true)
    (hdirty : (b.record superblockCodec 0).mountState = mountDirty) :
    (mountedSuper b).record superblockCodec 0 = b.record superblockCodec 0 ∧
      mountedSuper (mountedSuper b) = mountedSuper b := by
  have hsum : (b.record superblockCodec 0).checksum =
      k64XfsSuperChecksum (b.record superblockCodec 0) := by
    simp only [superAccepted, Bool.and_eq_true] at h
    exact beq_iff_eq.mp h.2
  have hsame : Superblock.sealed { b.record superblockCodec 0 with mountState := mountDirty } =
      b.record superblockCodec 0 := by
    rw [← hdirty]
    generalize b.record superblockCodec 0 = sb at hsum
    cases sb
    simp only [Superblock.sealed] at hsum ⊢
    rw [← hsum]
  have heq : mountedSuper b = b.setRecord superblockCodec 0 (b.record superblockCodec 0) := by
    rw [mountedSuper, hsame]
  have hrec : (mountedSuper b).record superblockCodec 0 = b.record superblockCodec 0 := by
    rw [heq, Block.record_setRecord _ _ _ _ (by decide)]
  refine ⟨hrec, ?_⟩
  rw [mountedSuper, hrec, hsame, heq, setRecord_again]

/-- A dirty volume whose journal holds a committed transaction, with targets outside the journal. -/
structure Recoverable (g : Geometry) (rd : ℕ → Bool) (c : ℕ → XBlock)
    (records : List JournalEntry) : Prop where
  super : superAccepted g ((c 0).record superblockCodec 0) = true
  dirty : ((c 0).record superblockCodec 0).mountState = mountDirty
  committed : scanFrom rd c ((c 0).record superblockCodec 0) 17 0 0 [] = (true, records)
  targets : ∀ e ∈ records, Outside ((c 0).record superblockCodec 0) e.targetBlock.toNat

variable {g : Geometry} {records : List JournalEntry}

def clearAndSuper (wr : ℕ → Bool) (c : ℕ → XBlock) (sb : Superblock) : List (ℕ × XBlock) :=
  (andThen (clearWrites wr sb 0 sb.journalBlocks.toNat) (superWrites wr c, true)).1

theorem mountWrites_committed (h : Recoverable g rd c records) :
    mountWrites rd wr c =
      let r := replayWrites rd wr ((c 0).record superblockCodec 0) c 0 records
      if r.2 then r.1 ++ clearAndSuper wr c ((c 0).record superblockCodec 0) else r.1 := by
  rw [mountWrites, recoverWrites, h.committed]
  dsimp only
  rw [if_pos rfl]
  generalize replayWrites rd wr ((c 0).record superblockCodec 0) c 0 records = r
  obtain ⟨ws, ok⟩ := r
  cases ok with
  | false => rfl
  | true =>
    rw [clearAndSuper]
    generalize clearWrites wr ((c 0).record superblockCodec 0) 0 _ = k
    obtain ⟨ws', ok'⟩ := k
    cases ok' with
    | false => rfl
    | true => exact List.append_assoc _ _ _

theorem andThen_nil (k : List (ℕ × XBlock) × Bool) : andThen ([], true) k = k := rfl

theorem mountWrites_empty (h : entryIn rd c ((c 0).record superblockCodec 0).journalStart.toNat = none) :
    mountWrites rd wr c = clearAndSuper wr c ((c 0).record superblockCodec 0) := by
  have hscan : scanFrom rd c ((c 0).record superblockCodec 0) 17 0 0 [] = (false, []) := by
    rw [scanFrom, Nat.add_zero, Nat.mod_eq_of_lt (UInt64.toNat_lt _), h]
    split <;> rfl
  rw [mountWrites, recoverWrites, hscan]
  dsimp only
  rw [if_neg Bool.false_ne_true, andThen_nil, clearAndSuper]

theorem Recoverable.bounds (hrd : ∀ n, rd n = true → n + 1 < 2 ^ 64)
    (h : Recoverable g rd c records) :
    ((c 0).record superblockCodec 0).journalStart.toNat ≠ 0 ∧
      2 * records.length < ((c 0).record superblockCodec 0).journalBlocks.toNat ∧
      ((c 0).record superblockCodec 0).journalStart.toNat + 2 * records.length < 2 ^ 64 := by
  have h0 : entryIn rd c 0 = none := super_no_entry h.super
  have hstart : ((c 0).record superblockCodec 0).journalStart.toNat + 0 < 2 ^ 64 := by
    rw [Nat.add_zero]
    exact UInt64.toNat_lt _
  obtain ⟨⟨more, hmore, hblocks, hend⟩, -⟩ :=
    (scan_committed hrd h0 17 0 0 [] records hstart h.committed : _ ∧ (SameJournal _ c c → _))
  rw [List.nil_append] at hmore
  subst hmore
  refine ⟨fun hz => ?_, by omega, by omega⟩
  have hscan := h.committed
  rw [scanFrom, if_neg (by omega), hz, Nat.zero_mod, h0] at hscan
  exact absurd (congrArg Prod.fst hscan) Bool.false_ne_true

theorem Recoverable.congr (hrd : ∀ n, rd n = true → n + 1 < 2 ^ 64) (h : Recoverable g rd c records)
    (hzero : c' 0 = c 0) (hsame : SameJournal ((c 0).record superblockCodec 0) c c') :
    mountWrites rd wr c' = mountWrites rd wr c := by
  have h0 : entryIn rd c 0 = none := super_no_entry h.super
  obtain ⟨-, hblocks, hend⟩ := h.bounds hrd
  have hstart : ((c 0).record superblockCodec 0).journalStart.toNat + 0 < 2 ^ 64 := by
    rw [Nat.add_zero]
    exact UInt64.toNat_lt _
  have hscan := (scan_committed hrd h0 17 0 0 [] records hstart h.committed).2 hsame
  have h' : Recoverable g rd c' records := by
    refine ⟨?_, ?_, ?_, ?_⟩
    · rw [hzero]
      exact h.super
    · rw [hzero]
      exact h.dirty
    · rw [hzero]
      exact hscan
    · rw [hzero]
      exact h.targets
  rw [mountWrites_committed h', mountWrites_committed h, hzero,
    replay_congr records c c' 0 h.targets (by omega) (by omega) hsame]
  dsimp only
  rw [clearAndSuper, clearAndSuper, superWrites, superWrites, hzero]

theorem clearAndSuper_writes (hwr : ∀ n, wr n = true → n + 1 < 2 ^ 64)
    (hpos : 0 < sb.journalBlocks.toNat) :
    (∀ w ∈ clearAndSuper wr c sb, w.2 = Block.zero ∧ sb.journalStart.toNat ≤ w.1 ∨
      w = (0, mountedSuper (c 0))) ∧
    (clearAndSuper wr c sb = [] ∨
      ∃ rest, clearAndSuper wr c sb = (sb.journalStart.toNat, Block.zero) :: rest) := by
  have hstart := sb.journalStart.toNat_lt
  have hclear : ∀ w ∈ (clearWrites wr sb 0 sb.journalBlocks.toNat).1, _ :=
    clear_blocks hwr sb.journalBlocks.toNat 0 hstart
  constructor
  · intro w hw
    have hmem : w ∈ (clearWrites wr sb 0 sb.journalBlocks.toNat).1 ∨ w ∈ superWrites wr c := by
      rw [clearAndSuper, andThen] at hw
      split at hw
      · exact List.mem_append.mp hw
      · exact Or.inl hw
    rcases hmem with hw | hw
    · exact Or.inl ⟨(hclear w hw).1, (hclear w hw).2.1⟩
    · rw [superWrites] at hw
      split at hw
      · exact Or.inr (List.mem_singleton.mp hw)
      · exact absurd hw List.not_mem_nil
  · obtain ⟨n, hn⟩ : ∃ n, sb.journalBlocks.toNat = n + 1 := ⟨sb.journalBlocks.toNat - 1, by omega⟩
    rw [clearAndSuper, hn, clearWrites]
    dsimp only
    rw [Nat.add_zero, Nat.mod_eq_of_lt hstart]
    split
    · refine Or.inr ?_
      rw [andThen]
      split
      · exact ⟨_, rfl⟩
      · exact ⟨_, rfl⟩
    · exact Or.inl rfl

/-- A mount that is started again after any of its writes ends where it was going to end. -/
theorem Recoverable.again (hrd : ∀ n, rd n = true → n + 1 < 2 ^ 64)
    (hwr : ∀ n, wr n = true → n + 1 < 2 ^ 64) (h : Recoverable g rd c records)
    {done : List (ℕ × XBlock)} (hdone : done <+: mountWrites rd wr c) :
    (written c done 0).record superblockCodec 0 = (c 0).record superblockCodec 0 ∧
      written (written c done) (mountWrites rd wr (written c done)) =
        written c (mountWrites rd wr c) := by
  obtain ⟨hstart, hblocks, -⟩ := h.bounds hrd
  set sb := (c 0).record superblockCodec 0 with hsb
  set r := replayWrites rd wr sb c 0 records with hr
  have htargets : ∀ w ∈ r.1, Outside sb w.1 := by
    intro w hw
    obtain ⟨e, he, heq⟩ := replay_targets records c 0 w hw
    rw [heq]
    exact h.targets e he
  have hkept : ∀ ws : List (ℕ × XBlock), (∀ w ∈ ws, w ∈ r.1) → ∀ n, ¬ Outside sb n →
      written c ws n = c n := by
    intro ws hws n hn
    refine written_of_notMem ws c fun hmem => ?_
    obtain ⟨w, hw, rfl⟩ := List.mem_map.mp hmem
    exact hn (htargets w (hws w hw))
  have hmw : mountWrites rd wr c = _ := mountWrites_committed h
  rw [← hsb] at hmw
  dsimp only at hmw
  rw [← hr] at hmw
  -- either some targets are written, or all of them and the journal is not what it was
  have hcases : done <+: r.1 ∨ r.2 = true ∧ ∃ more, more ≠ [] ∧ done = r.1 ++ more ∧
      more <+: clearAndSuper wr c sb := by
    rw [hmw] at hdone
    split at hdone
    · next hok =>
      rcases List.prefix_or_prefix_of_prefix hdone (List.prefix_append r.1 _) with hp | ⟨more, rfl⟩
      · exact Or.inl hp
      · by_cases hnil : more = []
        · rw [hnil, List.append_nil]
          exact Or.inl (List.prefix_refl _)
        · exact Or.inr ⟨hok, more, hnil, rfl, (List.prefix_append_right_inj r.1).mp hdone⟩
    · exact Or.inl hdone
  rcases hcases with hp | ⟨hok, more, hne, rfl, hp⟩
  · have hsub : ∀ w ∈ done, w ∈ r.1 := fun w hw => hp.subset hw
    have hzero : written c done 0 = c 0 := hkept done hsub 0 fun hout => hout.1 rfl
    have hsame : SameJournal sb c (written c done) := fun n hlo hhi =>
      hkept done hsub n fun hout => hout.2 ⟨hlo, hhi⟩
    refine ⟨by rw [hzero], ?_⟩
    rw [h.congr hrd hzero hsame]
    refine written_again c fun n hn => ?_
    obtain ⟨w, hw, rfl⟩ := List.mem_map.mp hn
    exact List.mem_map_of_mem (hdone.subset hw)
  · obtain ⟨hvalues, hfirst⟩ := clearAndSuper_writes (c := c) hwr
      (show 0 < sb.journalBlocks.toNat by omega)
    have hmem : ∀ w ∈ more, w ∈ clearAndSuper wr c sb := fun w hw => hp.subset hw
    have hreplayed : written c r.1 0 = c 0 := hkept r.1 (fun _ hw => hw) 0 fun hout => hout.1 rfl
    obtain ⟨hrec, hagain⟩ := mountedSuper_record h.super h.dirty
    rw [written_append]
    -- the first header is gone
    have hgone : written (written c r.1) more sb.journalStart.toNat = Block.zero := by
      refine written_const more (fun w hw hw1 => ?_) _ ?_
      · rcases hvalues w (hmem w hw) with ⟨hz, -⟩ | rfl
        · exact hz
        · exact absurd hw1.symm hstart
      · rcases hfirst with hnil | ⟨rest, hrest⟩
        · rw [hnil, List.prefix_nil] at hp
          exact absurd hp hne
        · rw [hrest] at hp
          obtain ⟨w, more', rfl⟩ := List.exists_cons_of_ne_nil hne
          obtain ⟨rfl, -⟩ := List.cons_prefix_cons.mp hp
          simp
    -- the superblock reads as before, and would be written as before
    have hsuper : (written (written c r.1) more 0).record superblockCodec 0 = sb ∧
        mountedSuper (written (written c r.1) more 0) = mountedSuper (c 0) := by
      by_cases h0 : (0 : ℕ) ∈ more.map Prod.fst
      · have hval : written (written c r.1) more 0 = mountedSuper (c 0) := by
          refine written_const more (fun w hw hw1 => ?_) _ h0
          rcases hvalues w (hmem w hw) with ⟨-, hle⟩ | rfl
          · omega
          · rfl
        rw [hval]
        exact ⟨hrec, hagain⟩
      · rw [written_of_notMem more _ h0, hreplayed]
        exact ⟨rfl, rfl⟩
    refine ⟨hsuper.1, ?_⟩
    have hnext : mountWrites rd wr (written (written c r.1) more) = clearAndSuper wr c sb := by
      rw [mountWrites_empty (by rw [hsuper.1]; exact zero_no_entry hgone), hsuper.1, clearAndSuper,
        clearAndSuper, superWrites, superWrites, hsuper.2]
    rw [hnext, hmw, if_pos hok, written_append, written_again]
    intro n hn
    obtain ⟨w, hw, rfl⟩ := List.mem_map.mp hn
    exact List.mem_map_of_mem (hmem w hw)

end Again

/-- `d` with the first `k` of the writes that `d'` has taken since. -/
def crashed (d d' : Device) (k : ℕ) : Device :=
  { d with log := d'.log.drop (d'.log.length - d.log.length - k) }

theorem Ran.crashed (h : Ran d d' ws) (k : ℕ) :
    Ran d (crashed d d' k) (ws.take k) := by
  refine ⟨rfl, rfl, rfl, ?_⟩
  change d'.log.drop (d'.log.length - d.log.length - k) = _
  rw [h.log, List.length_append, Nat.add_sub_cancel, List.drop_append_of_le_length (by omega),
    List.length_reverse, List.reverse_take]

theorem canRead_zero {n : ℕ} (h : canRead d n = true) : canRead d 0 = true := by
  simp only [canRead, Device.addressable, Device.inRange, Bool.and_eq_true, bne_iff_ne,
    decide_eq_true_eq] at h ⊢
  obtain ⟨⟨⟨⟨hsector, -⟩, honline⟩, hhas⟩, ⟨hne, hlt⟩, hle⟩ := h
  refine ⟨⟨⟨⟨hsector, Nat.zero_le _⟩, honline⟩, hhas⟩, ⟨hne, by omega⟩, by omega⟩

theorem mount_ran {s : System} (hf : ∀ i, s.machine.dev.faults i = false)
    (hread : canRead s.machine.dev 0 = true)
    (hsuper : superAccepted s.machine.dev.toGeometry
      ((s.machine.dev.block 0).record superblockCodec 0) = true)
    (hdirty : ((s.machine.dev.block 0).record superblockCodec 0).mountState = mountDirty) :
    Ran s.machine.dev (s.call (k64XfsMount s.machine.dev.toGeometry)).2.machine.dev
      (mountWrites (canRead s.machine.dev) (canWrite s.machine.dev) s.machine.dev.block) := by
  have hspec : mwp _ _ s.fs s.machine := mount_spec hf hread hsuper hdirty
  have hexec := Proc.wp_exec hspec
  rw [System.call]
  exact hexec

/-- A mount that is cut off after any number of its device writes may be repeated: on a device that
does not fail, the second mount leaves the content that the first was going to leave. -/
theorem interrupted_mount_repeats {s s' : System} {records : List JournalEntry} (k : ℕ)
    (hf : ∀ i, s.machine.dev.faults i = false)
    (hrec : Recoverable s.machine.dev.toGeometry (canRead s.machine.dev) s.machine.dev.block records)
    (hcrash : s'.machine.dev = crashed s.machine.dev
      (s.call (k64XfsMount s.machine.dev.toGeometry)).2.machine.dev k) :
    (s'.call (k64XfsMount s.machine.dev.toGeometry)).2.machine.dev.block =
      (s.call (k64XfsMount s.machine.dev.toGeometry)).2.machine.dev.block := by
  have hrd : ∀ n, canRead s.machine.dev n = true → n + 1 < 2 ^ 64 := by
    intro n hn
    simp only [canRead, Bool.and_eq_true] at hn
    exact inRange_lt hn.2
  have hwr : ∀ n, canWrite s.machine.dev n = true → n + 1 < 2 ^ 64 := by
    intro n hn
    simp only [canWrite, Bool.and_eq_true] at hn
    exact inRange_lt hn.2
  have hzero : canRead s.machine.dev 0 = true := by
    have hscan := hrec.committed
    rw [scanFrom] at hscan
    split at hscan
    · exact absurd (congrArg Prod.fst hscan) Bool.false_ne_true
    · split at hscan
      · exact absurd (congrArg Prod.fst hscan) Bool.false_ne_true
      · next he => exact canRead_zero (entryIn_read he)
  have hfull := mount_ran hf hzero hrec.super hrec.dirty
  have hran := hfull.crashed k
  rw [← hcrash] at hran
  obtain ⟨hsuper, hagain⟩ := hrec.again hrd hwr (List.take_prefix k
    (mountWrites (canRead s.machine.dev) (canWrite s.machine.dev) s.machine.dev.block))
  rw [← hran.block] at hsuper hagain
  have hsecond : Ran s'.machine.dev
      (s'.call (k64XfsMount s.machine.dev.toGeometry)).2.machine.dev
      (mountWrites (canRead s'.machine.dev) (canWrite s'.machine.dev) s'.machine.dev.block) := by
    rw [← hran.geometry]
    refine mount_ran (fun i => ?_) ?_ ?_ ?_
    · rw [hran.faults]
      exact hf i
    · rw [hran.canRead]
      exact hzero
    · rw [hran.geometry, hsuper]
      exact hrec.super
    · rw [hsuper]
      exact hrec.dirty
  rw [hsecond.block, hfull.block, hran.canRead, hran.canWrite, hagain]

def dirtySuper : Superblock := { formatSuper 84 [] with mountState := mountDirty }

/-- The small device with a committed transaction that clears block 50. -/
def dirtyDevice : Device :=
  { smallDevice with base := fun n =>
      if n = 0 then Block.zero.setRecord superblockCodec 0 (Superblock.sealed dirtySuper)
      else if n = 3 then headerBlock (metadataEntry 1 50 Block.zero)
      else if n = 5 then headerBlock (commitEntry 1)
      else Block.zero }

theorem dirtyDevice_super :
    (dirtyDevice.block 0).record superblockCodec 0 = Superblock.sealed dirtySuper :=
  Block.record_setRecord _ _ _ _ (by decide)

theorem entryIn_header {rd : ℕ → Bool} {c : ℕ → XBlock} {n : ℕ} {e : JournalEntry}
    (hrd : rd n = true) (hc : c n = headerBlock (JournalEntry.sealed e))
    (hm : e.magic = journalMagic) : entryIn rd c n = some (JournalEntry.sealed e) := by
  have hrec : (c n).record journalEntryCodec 0 = JournalEntry.sealed e := by
    rw [hc, headerBlock, Block.record_setRecord _ _ _ _ (by decide)]
  have hsum : (JournalEntry.sealed e).headerChecksum =
      journalHeaderChecksum (JournalEntry.sealed e) := rfl
  have hmagic : (JournalEntry.sealed e).magic = journalMagic := hm
  rw [entryIn, if_pos hrd, hrec]
  dsimp only
  rw [if_pos]
  rw [hmagic, ← hsum, beq_self_eq_true, beq_self_eq_true]
  rfl

theorem dirtyDevice_recoverable :
    Recoverable dirtyDevice.toGeometry (canRead dirtyDevice) dirtyDevice.block
      [metadataEntry 1 50 Block.zero] := by
  have hlayout : Layout dirtySuper := by
    obtain ⟨h1, h2, h3, h4, h5, h6, h7, h8, h9, h10⟩ := layout_formatSuper 84 []
    exact ⟨h1, h2, h3, h4, h5, h6, h7, h8, h9, h10⟩
  have hstart : (Superblock.sealed dirtySuper).journalStart.toNat = 3 := rfl
  have hblocks : (Superblock.sealed dirtySuper).journalBlocks.toNat = 32 := rfl
  have hrecord : entryIn (canRead dirtyDevice) dirtyDevice.block ((3 + 0) % 2 ^ 64) =
      some (metadataEntry 1 50 Block.zero) := entryIn_header (by decide) rfl rfl
  have hcommit : entryIn (canRead dirtyDevice) dirtyDevice.block ((3 + (0 + 2)) % 2 ^ 64) =
      some (commitEntry 1) := entryIn_header (by decide) rfl rfl
  have htype : (metadataEntry 1 50 Block.zero).type = journalMetadataBlock := rfl
  have hsize : (metadataEntry 1 50 Block.zero).payloadSize = 4096 := rfl
  have htx : (metadataEntry 1 50 Block.zero).txId = 1 := rfl
  have htarget : (metadataEntry 1 50 Block.zero).targetBlock.toNat = 50 := rfl
  constructor
  · rw [dirtyDevice_super]
    exact super_accepted hlayout (by decide) (by decide)
  · rw [dirtyDevice_super]
    rfl
  · rw [dirtyDevice_super]
    generalize Superblock.sealed dirtySuper = sb at hstart hblocks
    rw [scanFrom, hstart, hblocks, if_neg (by decide), hrecord]
    dsimp only
    rw [if_pos rfl, if_neg (not_not.mpr rfl), if_neg (by rw [htype]; decide),
      if_neg (by rw [htype, hsize]; decide), scanFrom, hstart, hblocks, if_neg (by decide), hcommit]
    dsimp only
    rw [htx, if_neg (by decide), if_pos (show (commitEntry 1).type = journalCommit from rfl)]
    rfl
  · rw [dirtyDevice_super]
    intro e he
    obtain rfl := List.mem_singleton.mp he
    rw [Outside, hstart, hblocks, htarget]
    decide

/-- The small device after a mount that was cut off behind seven of its writes. -/
def cutDevice : Device :=
  crashed dirtyDevice ((blankSystem dirtyDevice).call (k64XfsMount dirtyDevice.toGeometry)).2.machine.dev
    7

theorem interrupted_mount_of_dirtyDevice :
    ((blankSystem cutDevice).call (k64XfsMount dirtyDevice.toGeometry)).2.machine.dev.block =
      ((blankSystem dirtyDevice).call (k64XfsMount dirtyDevice.toGeometry)).2.machine.dev.block := by
  have hmain : ∀ d d' : Device, (∀ i, d.faults i = false) →
      Recoverable d.toGeometry (canRead d) d.block [metadataEntry 1 50 Block.zero] →
      d' = crashed d ((blankSystem d).call (k64XfsMount d.toGeometry)).2.machine.dev 7 →
      ((blankSystem d').call (k64XfsMount d.toGeometry)).2.machine.dev.block =
        ((blankSystem d).call (k64XfsMount d.toGeometry)).2.machine.dev.block :=
    fun d d' hf hrec hcut => interrupted_mount_repeats (s := blankSystem d) 7 hf hrec hcut
  exact hmain dirtyDevice cutDevice (fun _ => rfl) dirtyDevice_recoverable rfl

end XfsRecovery
