import K64.FsDirectoryIteration

/-! # The two truncate calls

`k64_xfs_truncate` has a block on its stack for the bytes that stay, `k64_fs_truncate` a buffer of
16 MiB. Both hand what they have to `k64_xfs_write_file`. -/
namespace FsTruncation

open ByteCodec IoProgram XfsFormat XfsCache XfsJournal XfsInode XfsCalls XfsDirectory XfsOperations
  XfsVolume XfsVolumeRefinement XfsConsistency XfsLookup XfsDirectoryUpdate XfsContentChanges
  XfsFileChanges XfsOperationEffects XfsEffectsConsistent XfsResolving XfsMounting XfsFormatting
  XfsSystem XfsRuns XfsAllocation XfsFileMap XfsSmallVolume XfsTree XfsEmptyDirectories
  FsDirectoryIteration
open FsPaths (fsNormalize)
open FileTree (rawMax)

variable {c c' : Content} {total : ℕ} {s t u w : System} {V : Volume} {label : CString}

/-- What `k64_fs_truncate` finds of a file: its first bytes, at most `size`. -/
def kept (u : System) (full : CString) (st : FsStat) (size : ℕ) : Option (List UInt8) × System :=
  if st.size = 0 then (some [], u)
  else u.call (lowered (k64XfsReadFile full (min st.size.toNat size)))

/-- `k64_fs_truncate` with the root volume of `u` and the current directory `cwd`. The bytes that
were read stand at the start of a buffer that was cleared. -/
def k64FsTruncate (u : System) (cwd path : CString) (size : ℕ) : Bool × System :=
  match fsNormalize cwd.bytes path.bytes 256 with
  | none => (false, u)
  | some full =>
    let stat := u.call (lowered (k64XfsStat (terminated full)))
    match stat.1 with
    | none => (false, stat.2)
    | some st =>
      if st.isDir ∨ rawMax < size ∨ rawMax < st.size.toNat then (false, stat.2)
      else
        let read := kept stat.2 (terminated full) st size
        match read.1 with
        | none => (false, read.2)
        | some bytes =>
          let wrote := read.2.call (lowered (k64XfsWriteFile (terminated full)
            (bytes ++ List.replicate (size - bytes.length) 0) st.uid st.gid))
          (wrote.1.isSome, wrote.2)

/-- The file at `path` has the bytes `d`. -/
def Contains (u : System) (path : CString) (d : List UInt8) : Prop :=
  ∀ max, fileRead u path max = some (d.take max)

/-- Cut to `n` bytes, or filled with zeros up to `n`. -/
def resized (d : List UInt8) (n : ℕ) : List UInt8 := d.take n ++ List.replicate (n - d.length) 0

/-- A run of `k` free blocks. -/
def HasRun (u : System) (k : ℕ) : Prop :=
  ∃ start, u.fs.super.dataStart.toNat ≤ start ∧ start + k ≤ u.fs.super.totalBlocks.toNat ∧
    ∀ b, start ≤ b → b < start + k → blockMarked u b = false

/-- Both calls succeed and leave the first bytes of `d`, with zeros behind them. -/
structure Truncates (u : System) (cwd path xpath : CString) (d : List UInt8) (n : ℕ) : Prop where
  xfs : (u.call (lowered (k64XfsTruncate xpath n))).1.isSome = true
  xfsBytes : Contains (u.call (lowered (k64XfsTruncate xpath n))).2 xpath (resized d n)
  fs : (k64FsTruncate u cwd path n).1 = true
  fsBytes : Contains (k64FsTruncate u cwd path n).2 xpath (resized d n)

theorem allocScan_isSome {used : ℕ → Bool} {blocks start : ℕ}
    (hfree : ∀ b, start ≤ b → b < start + blocks → used b = false) (n : ℕ) :
    ∀ b runStart runLen, runLen < blocks → b ≤ start + runLen → start + blocks ≤ b + n →
      (allocScan used blocks b n runStart runLen).isSome = true := by
  induction n with
  | zero =>
    intro b runStart runLen hlen hb hend
    omega
  | succ n ih =>
    intro b runStart runLen hlen hb hend
    rw [allocScan]
    by_cases hused : used b = true
    · rw [if_pos hused]
      have hbefore : b < start := by
        by_contra hge
        have := hfree b (by omega) (by omega)
        rw [this] at hused
        cases hused
      exact ih _ _ _ (by omega) (by omega) (by omega)
    · rw [if_neg hused]
      dsimp only
      split
      · rfl
      · exact ih _ _ _ (by omega) (by omega) (by omega)

def FreeRun (c : Content) (k : ℕ) : Prop :=
  ∃ start, 82 ≤ start ∧ start + k ≤ c.total ∧ ∀ b, start ≤ b → b < start + k → c.blockUsed b = false

theorem allocRun_isSome (h : Allocated c) {k : ℕ} (hpos : 0 < k) (hrun : FreeRun c k) :
    (allocRun c k).isSome = true := by
  obtain ⟨start, h82, hle, hfree⟩ := hrun
  have hsmall := h.small
  have hcount : ((List.range' start k).countP fun b => !c.blockUsed b) = k := by
    have hall : ∀ b ∈ List.range' start k, (!c.blockUsed b) = true := fun b hb => by
      obtain ⟨h1, h2⟩ := List.mem_range'_1.mp hb
      rw [hfree b h1 h2]
      rfl
    rw [List.countP_eq_length.mpr hall, List.length_range']
  have hspare := spare_split c h82 hle
  have henough : k ≤ c.freeBlocks.toNat := by
    rw [h.free]
    omega
  rw [allocRun, if_neg (by omega), Content.spareRun]
  exact allocScan_isSome hfree _ _ _ _ hpos (by omega) (by omega)

theorem FreeRun.dropExtents {k : ℕ} (h : FreeRun c k) (exts : List Extent) :
    FreeRun (XfsContentChanges.dropExtents c exts) k := by
  obtain ⟨start, h82, hle, hfree⟩ := h
  refine ⟨start, h82, ?_, fun b h1 h2 => dropExtents_unmarked exts c b (Or.inl (hfree b h1 h2))⟩
  rw [(dropExtents_fields exts c).2.2.2]
  exact hle

theorem freed_alloc (h : Consistent c) {id : ℕ} (hu : Used c id)
    (ht : (c.inode id).type = typeRegular) {k : ℕ} (hpos : 0 < k)
    (hrun : FreeRun (dropExtents c (Inode.extents (c.inode id))) k) :
    (allocRun (dropExtents c (Inode.extents (c.inode id))) k).isSome = true := by
  -- without its blocks the file leaves a consistent volume, with the same marks
  obtain ⟨hcons, -⟩ := emptied_ok h hu ht (i := Inode.emptied (c.inode id)) rfl
    (hu.inodeId h.toAllocated).1 ht rfl
  rw [← dropExtents_comm (f := fun c => c.setInode (Inode.emptied (c.inode id)))
    (fun _ _ _ => rfl)] at hcons
  exact allocRun_isSome hcons.toAllocated hpos hrun

theorem overwrite_finds (h : Consistent c) {id : ℕ} (hu : Used c id)
    (ht : (c.inode id).type = typeRegular) {data : List UInt8}
    (hrun : 0 < blocksFor data →
      FreeRun (dropExtents c (Inode.extents (c.inode id))) (blocksFor data))
    (generation : UInt64) (uid gid : UInt32) :
    ∃ c', overwriteEffect c generation (c.inode id) data uid gid = .done 1 c' := by
  have hsmall := h.small
  by_cases h0 : blocksFor data = 0
  · rw [overwriteEffect, if_neg (by rw [not_or, not_not]; exact ⟨ht, by omega⟩)]
    dsimp only
    rw [if_pos h0]
    exact ⟨_, rfl⟩
  · have hpos := Nat.pos_of_ne_zero h0
    have hfew : blocksFor data ≤ c.total := by
      obtain ⟨start, -, hle, -⟩ := hrun hpos
      rw [(dropExtents_fields _ c).2.2.2] at hle
      omega
    obtain ⟨start, hstart⟩ := Option.isSome_iff_exists.mp (freed_alloc h hu ht hpos (hrun hpos))
    rw [overwriteEffect, if_neg (by rw [not_or, not_not]; exact ⟨ht, by omega⟩)]
    dsimp only
    rw [if_neg h0, hstart]
    exact ⟨_, rfl⟩

theorem overwrite_succeeds (h : Consistent c) {id : ℕ} (hu : Used c id)
    (ht : (c.inode id).type = typeRegular) {data : List UInt8} (hrun : FreeRun c (blocksFor data))
    (generation : UInt64) (uid gid : UInt32) :
    ∃ c', overwriteEffect c generation (c.inode id) data uid gid = .done 1 c' :=
  overwrite_finds h hu ht (fun _ => hrun.dropExtents _) generation uid gid

/-- A file that has blocks leaves a free one behind. -/
theorem freed_block (h : Consistent c) {id : ℕ} (hu : Used c id)
    (hext : Inode.extents (c.inode id) ≠ []) :
    FreeRun (dropExtents c (Inode.extents (c.inode id))) 1 := by
  obtain ⟨ex, hex⟩ := List.exists_mem_of_ne_nil _ hext
  have hpos := (h.shape id hu).nonempty ex hex
  have hb : ex.physicalBlock.toNat ∈ Extent.blocks ex := mem_extent_blocks.mpr ⟨Nat.le_refl _, by omega⟩
  obtain ⟨h82, hlt⟩ := blocks_fit (h.fits id hu.pos hu.le) (mem_blocks_of_extent hex hb)
  refine ⟨_, h82, ?_, fun b h1 h2 => ?_⟩
  · rw [(dropExtents_fields _ c).2.2.2]
    exact hlt
  · obtain rfl : b = ex.physicalBlock.toNat := by omega
    exact dropExtents_unmarked _ _ _ (Or.inr ⟨ex, hex, hb⟩)

theorem write_succeeds (h : Consistent c) {path : CString} {id : UInt32} {inode : Inode}
    (hres : resolve c path.bytes = some (id, inode)) (ht : inode.type = typeRegular)
    {data : List UInt8} (hrun : FreeRun c (blocksFor data)) (generation : UInt64)
    (uid gid : UInt32) : ∃ c', writeEffect c generation path.bytes data uid gid = .done 1 c' := by
  obtain ⟨hu, rfl, -, -⟩ := resolve_used h path.noNul hres
  rw [writeEffect, hres]
  exact overwrite_succeeds h hu ht hrun generation uid gid

theorem bytesFrom_ends {inode : Inode} {max : ℕ} {out bytes : List UInt8}
    (hout : out.length ≤ inode.size.toNat) (h : bytesFrom c inode max out = some bytes) :
    bytes.length ≤ inode.size.toNat ∧ (bytes.length = inode.size.toNat ∨ max ≤ bytes.length) := by
  fun_induction bytesFrom c inode max out with
  | case1 out hlt hb ih =>
    refine ih ?_ h
    simp only [List.length_append, Block.length_read]
    omega
  | case2 => cases h
  | case3 =>
    cases h
    omega

theorem contents_size (hans : Answers u c) {path : CString} {id : UInt32} {inode : Inode}
    (hres : resolve c path.bytes = some (id, inode)) {d : List UInt8} (hd : Contains u path d) :
    inode.size.toNat = d.length := by
  have hread := hd (max inode.size.toNat d.length + 1)
  rw [hans.read, fileBytes, hres, Option.bind_some, List.take_of_length_le (by omega)] at hread
  dsimp only at hread
  split at hread
  · obtain ⟨hle, hend⟩ := bytesFrom_ends (Nat.zero_le _) hread
    omega
  · cases hread

theorem contains_inj {path : CString} {d e : List UInt8} (h : Contains u path d)
    (k : Contains u path e) : d = e := by
  have hd := h (max d.length e.length)
  rw [k, List.take_of_length_le (by omega), List.take_of_length_le (by omega)] at hd
  exact (Option.some.inj hd).symm

theorem contains_same (hans : Answers u c) {path path' : CString} {x : UInt32 × Inode}
    (hres : resolve c path.bytes = some x) (hres' : resolve c path'.bytes = some x)
    {d : List UInt8} (hd : Contains u path d) : Contains u path' d := by
  intro max
  rw [← hd max, hans.read, hans.read, fileBytes, fileBytes, hres, hres']

theorem contains_written {path path' : CString} {id : UInt32} {inode : Inode}
    (h : Consistent c) (hu : Answers u c) (hw : Answers w c')
    (hres : resolve c path.bytes = some (id, inode))
    (hres' : resolve c path'.bytes = some (id, inode)) {generation : UInt64} {data : List UInt8}
    {uid gid : UInt32} {k : ℕ} (hlen : data.length < 2 ^ 63)
    (he : writeEffect c generation path.bytes data uid gid = .done k c') :
    Contains w path' data := by
  rcases write_done h path.noNul he with ⟨id', final, hx, -, ht, hwrote⟩ | ⟨hnone, -⟩
  · obtain ⟨rfl, rfl⟩ := Prod.mk.inj (Option.some.inj (hres.symm.trans hx))
    exact (file_written (wrote_existing h path'.noNul hlen hres' ht hwrote) hu hw hlen).read
  · rw [hres] at hnone
    cases hnone

theorem freeRun_of_hasRun (h : Steady total u V) {k : ℕ} (hrun : HasRun u k) :
    FreeRun V.content k := by
  have hseen := holds_seen h.holds
  obtain ⟨start, h82, hle, hfree⟩ := hrun
  rw [hseen.dataStart] at h82
  rw [hseen.total] at hle
  refine ⟨start, h82, hle, fun b h1 h2 => ?_⟩
  rw [← hseen.blockMarked b (by omega)]
  exact hfree b h1 h2

theorem hasRun_of_freeRun (h : Steady total u V) {k : ℕ} (hrun : FreeRun V.content k) :
    HasRun u k := by
  have hseen := holds_seen h.holds
  obtain ⟨start, h82, hle, hfree⟩ := hrun
  refine ⟨start, by rw [hseen.dataStart]; exact h82, by rw [hseen.total]; exact hle,
    fun b h1 h2 => ?_⟩
  rw [hseen.blockMarked b (by omega)]
  exact hfree b h1 h2

theorem length_resized (d : List UInt8) (n : ℕ) : (resized d n).length = n := by
  rw [resized, List.length_append, List.length_take, List.length_replicate]
  omega

theorem toNat_size {n : ℕ} (hn : n ≤ rawMax) : (UInt64.ofNat n).toNat = n :=
  UInt64.toNat_ofNat'.trans (Nat.mod_eq_of_lt (Nat.lt_of_le_of_lt hn (by decide)))

theorem truncateData_eq (hans : Answers u c) {path : CString} {id : UInt32} {inode : Inode}
    (hres : resolve c path.bytes = some (id, inode)) {d : List UInt8} (hd : Contains u path d)
    (n : ℕ) : truncateData c path.bytes inode n =
      if n = 0 then some [] else if n ≤ d.length then (if n ≤ 4096 then some (d.take n) else none)
        else some [0] := by
  rw [truncateData, contents_size hans hres hd, ← hans.read, hd]

theorem truncateEffect_eq {path : List UInt8} {id : UInt32} {inode : Inode}
    (hres : resolve c path = some (id, inode)) (ht : inode.type = typeRegular)
    (generation : UInt64) (n : ℕ) : truncateEffect c generation path n =
      match truncateData c path inode n with
      | none => .failed false c
      | some data => writeEffect c generation path data inode.uid inode.gid := by
  rw [truncateEffect, hres]
  exact if_neg (not_not.mpr ht)

section Calls

variable {dev : Geometry} {path xpath : CString} {id : UInt32} {inode : Inode} {d : List UInt8}
  {n : ℕ}

theorem truncate_stepped (h : Steady total u V)
    (hsector : WholeSectors dev)
    (hdev : total ≤ xfsFsBlocks dev) (hres : resolve V.content xpath.bytes = some (id, inode))
    (ht : inode.type = typeRegular) (hn : n ≤ rawMax)
    (hcall : (u.call (lowered (k64XfsTruncate xpath n))).1.isSome = true) :
    ∃ data, truncateData V.content xpath.bytes inode n = some data ∧
      Contains (u.call (lowered (k64XfsTruncate xpath n))).2 xpath data := by
  have ho : (Operation.truncate xpath (UInt64.ofNat n)).call = k64XfsTruncate xpath n := by
    rw [Operation.call, toNat_size hn]
  rw [← ho] at hcall ⊢
  obtain ⟨hm, k, V', he, -, hans⟩ := operation_stepped h hsector hdev hcall
  rw [Operation.effect, toNat_size hn, truncateEffect_eq hres ht] at he
  cases hdata : truncateData V.content xpath.bytes inode n with
  | none =>
    rw [hdata] at he
    cases he
  | some data =>
    rw [hdata] at he
    exact ⟨data, rfl, contains_written h.consistent (steady_answers h hm) hans hres hres
      (length_truncateData hdata) he⟩

section Resolved

variable (h : Steady total u V) (hm : V.mounted = true) (hsector : WholeSectors dev)
  (hdev : total ≤ xfsFsBlocks dev) (hres : resolve V.content xpath.bytes = some (id, inode))
  (ht : inode.type = typeRegular)

include h hm hsector hdev hres ht

theorem truncate_succeeds (hn : n ≤ rawMax) {data : List UInt8}
    (hdata : truncateData V.content xpath.bytes inode n = some data)
    (hrun : FreeRun V.content (blocksFor data)) :
    (u.call (lowered (k64XfsTruncate xpath n))).1.isSome = true := by
  obtain ⟨c', he⟩ := write_succeeds h.consistent hres ht hrun V.generation inode.uid inode.gid
  have ho : (Operation.truncate xpath (UInt64.ofNat n)).call = k64XfsTruncate xpath n := by
    rw [Operation.call, toNat_size hn]
  rw [← ho]
  refine operation_succeeds (k := 1) (c := c') h hm ?_ hsector hdev
  rw [Operation.effect, toNat_size hn, truncateEffect_eq hres ht, hdata]
  exact he

theorem xfs_truncates_iff (hd : Contains u xpath d) (hn : n ≤ rawMax)
    (hrun : HasRun u ((n + 4095) / 4096)) :
    ((u.call (lowered (k64XfsTruncate xpath n))).1.isSome = true ∧
      Contains (u.call (lowered (k64XfsTruncate xpath n))).2 xpath (resized d n)) ↔
      n = 0 ∨ (n ≤ d.length ∧ n ≤ 4096) ∨ (d = [] ∧ n = 1) := by
  have hans := steady_answers h hm
  have hdata := truncateData_eq hans hres hd n
  constructor
  · rintro ⟨hcall, hbytes⟩
    obtain ⟨data, hsome, hcontent⟩ := truncate_stepped h hsector hdev hres ht hn hcall
    obtain rfl := contains_inj hcontent hbytes
    have hlen := length_resized d n
    rw [hsome] at hdata
    split_ifs at hdata with h0 hle hblock
    · exact Or.inl h0
    · exact Or.inr (Or.inl ⟨hle, hblock⟩)
    · rw [Option.some.inj hdata, List.length_singleton] at hlen
      exact Or.inr (Or.inr ⟨List.length_eq_zero_iff.mp (by omega), hlen.symm⟩)
  · intro hcond
    have hresized : truncateData V.content xpath.bytes inode n = some (resized d n) := by
      rw [hdata]
      rcases hcond with rfl | ⟨hle, hblock⟩ | ⟨rfl, rfl⟩
      · simp [resized]
      · split_ifs with h0
        · simp [resized, h0]
        · rw [resized, Nat.sub_eq_zero_of_le hle, List.replicate_zero, List.append_nil]
      · rfl
    have hcall := truncate_succeeds h hm hsector hdev hres ht hn hresized (by
      rw [blocksFor, length_resized]
      exact freeRun_of_hasRun h hrun)
    obtain ⟨data, hsome, hcontent⟩ := truncate_stepped h hsector hdev hres ht hn hcall
    rw [hresized] at hsome
    obtain rfl := Option.some.inj hsome
    exact ⟨hcall, hcontent⟩

end Resolved

theorem reading_holds {α : Type} {f : XfsV α} {o : Option α} (h : XfsSystem.Holds total u V)
    (hm : V.mounted = true)
    (hw : Proc.wp volume volumeGuard f (fun r _ V' => r = o ∧ V' = V) () V) :
    (u.call (lowered f)).1 = o ∧ XfsSystem.Holds total (u.call (lowered f)).2 V := by
  obtain ⟨d, hd, hrep, hs, -⟩ := h
  obtain ⟨d', hsize, hrep', V', hs', hr, rfl⟩ :=
    call_of_wp hrep (lowered_of_wp (P := fun r V' => r = o ∧ V' = V) hs hw)
  refine ⟨hr, d', hsize.trans hd, hrep', hs', fun hx => ?_⟩
  rw [hm] at hx
  cases hx

theorem reading_steady {α : Type} {f : XfsV α} {o : Option α} (h : Steady total u V)
    (hm : V.mounted = true)
    (hw : Proc.wp volume volumeGuard f (fun r _ V' => r = o ∧ V' = V) () V) :
    (u.call (lowered f)).1 = o ∧ Steady total (u.call (lowered f)).2 V := by
  obtain ⟨hr, hV⟩ := reading_holds h.holds hm hw
  exact ⟨hr, hV, h.consistent, h.closed⟩

theorem stat_steady (h : Steady total u V) (hm : V.mounted = true) (path : CString) :
    (u.call (lowered (k64XfsStat path))).1 = fileStat V.content path ∧
      Steady total (u.call (lowered (k64XfsStat path))).2 V :=
  reading_steady h hm ((wp_stat h.consistent.toAllocated hm).mpr ⟨rfl, rfl⟩)

theorem kept_read {P : System → Prop} {st : FsStat} (hu : P u)
    (hread : ∀ max, (u.call (lowered (k64XfsReadFile path max))).1 = fileBytes c path.bytes max ∧
      P (u.call (lowered (k64XfsReadFile path max))).2) (hlen : d.length = st.size.toNat)
    (hd : ∀ max ≤ st.size.toNat, fileBytes c path.bytes max = some (d.take max)) :
    (kept u path st n).1 = some (d.take n) ∧ P (kept u path st n).2 := by
  by_cases h0 : st.size = 0
  · rw [h0] at hlen
    obtain rfl := List.length_eq_zero_iff.mp hlen
    rw [kept, if_pos h0, List.take_nil]
    exact ⟨rfl, hu⟩
  · have hcut : d.take (min st.size.toNat n) = d.take n := by
      rw [← hlen, Nat.min_comm, ← List.take_take, List.take_length]
    rw [kept, if_neg h0, ← hcut, ← hd _ (Nat.min_le_left _ _)]
    exact hread _

theorem fs_truncates (h : Steady total u V) (hm : V.mounted = true)
    (hsector : WholeSectors dev)
    (hdev : total ≤ xfsFsBlocks dev) {cwd : CString} {full : List UInt8}
    (hfull : fsNormalize cwd.bytes path.bytes 256 = some full)
    (hres : resolve V.content xpath.bytes = some (id, inode))
    (hres' : resolve V.content (terminated full).bytes = some (id, inode))
    (ht : inode.type = typeRegular) (hd : Contains u xpath d) (hlen : d.length ≤ rawMax)
    (hn : n ≤ rawMax) (hrun : HasRun u ((n + 4095) / 4096)) :
    (k64FsTruncate u cwd path n).1 = true ∧
      Contains (k64FsTruncate u cwd path n).2 xpath (resized d n) := by
  have hans := steady_answers h hm
  have hsize := contents_size hans hres hd
  have hbytes : ∀ max, fileBytes V.content (terminated full).bytes max = some (d.take max) :=
    fun max => by rw [← hans.read, contains_same hans hres hres' hd max]
  have hpath : orRoot (terminated full) = (terminated full).bytes := if_neg fun hnil => by
    have hhead := resolve_head hres'
    rw [hnil] at hhead
    cases hhead
  have hfree := freeRun_of_hasRun h hrun
  obtain ⟨hstat, h₁⟩ := stat_steady h hm (terminated full)
  obtain ⟨st, hst, hstsize, hstdir⟩ : ∃ st, fileStat V.content (terminated full) = some st ∧
      st.size.toNat = d.length ∧ st.isDir = false := by
    refine ⟨_, by rw [fileStat, hpath, hres', Option.map_some], hsize, ?_⟩
    change (inode.type == typeDirectory) = false
    rw [ht]
    decide
  rw [hst] at hstat
  rw [k64FsTruncate, hfull]
  dsimp only
  rw [hstat]
  dsimp only
  rw [if_neg (by rw [hstdir, hstsize]; simp; omega)]
  obtain ⟨hkept, h₂⟩ := kept_read (P := fun u => Steady total u V) (n := n) h₁
    (fun max => reading_steady h₁ hm ((wp_readFile h₁.consistent hm max).mpr ⟨rfl, rfl⟩)) hstsize.symm
    fun max _ => hbytes max
  rw [hkept]
  dsimp only
  have hdata : d.take n ++ List.replicate (n - (d.take n).length) 0 = resized d n := by
    rw [resized, List.length_take]
    congr 2
    omega
  rw [hdata]
  have hbound : (resized d n).length < 2 ^ 63 := by
    rw [length_resized]
    exact Nat.lt_of_le_of_lt hn (by decide)
  obtain ⟨c', he⟩ := write_succeeds h.consistent hres' ht
    (show FreeRun V.content (blocksFor (resized d n)) by rw [blocksFor, length_resized]; exact hfree)
    V.generation st.uid st.gid
  have hcall := operation_succeeds (k := 1) (c := c')
    (o := .writeFile (terminated full) ⟨resized d n, hbound⟩ st.uid st.gid) h₂ hm he hsector hdev
  obtain ⟨-, k, V', he', -, hw⟩ := operation_stepped h₂ hsector hdev hcall
  exact ⟨hcall, contains_written h.consistent hans hw hres' hres hbound he'⟩

end Calls

/-- On every volume that successful calls have made of a formatted one, with room for the new
bytes, the two calls do the same for no size but zero, one block and less that the file has, and one
byte for an empty file. -/
theorem truncates_iff {calls : List (PublicCall × Bool)} (hfresh : FreshMount label s t)
    (hf : ∀ i, s.machine.dev.faults i = false)
    (hsmall : xfsFsBlocks (System.geometry s) ≤ 32768)
    (hrun : Run (System.geometry s) t calls u) (hok : ∀ c ∈ calls, c.2 = true)
    (cwd path xpath : CString) (full : List UInt8)
    (hfull : fsNormalize cwd.bytes path.bytes 256 = some full) (id : UInt32) (inode : Inode)
    (hres : resolved u xpath.bytes = some (id, inode))
    (hsame : resolved u (terminated full).bytes = some (id, inode))
    (ht : inode.type = typeRegular) (d : List UInt8) (hd : Contains u xpath d)
    (hlen : d.length ≤ rawMax) (n : ℕ) (hn : n ≤ rawMax) (hroom : HasRun u ((n + 4095) / 4096)) :
    Truncates u cwd path xpath d n ↔ n = 0 ∨ (n ≤ d.length ∧ n ≤ 4096) ∨ (d = [] ∧ n = 1) := by
  obtain ⟨-, hdev, -⟩ := fresh_holds hfresh hf hsmall
  obtain ⟨V, hV⟩ := fresh_run_steady hfresh hf hsmall hrun hok
  have hm := resolved_mounted hV hres
  have hsector := sector_of_ok hdev
  rw [(steady_answers hV hm).resolved] at hres hsame
  have hxfs := xfs_truncates_iff hV hm hsector (Nat.le_refl _) hres ht hd hn hroom
  constructor
  · exact fun h => hxfs.mp ⟨h.xfs, h.xfsBytes⟩
  · intro hcond
    obtain ⟨hx, hxd⟩ := hxfs.mpr hcond
    obtain ⟨hfs, hfsd⟩ := fs_truncates hV hm hsector (Nat.le_refl _) hfull hres hsame ht hd hlen hn
      hroom
    exact ⟨hx, hxd, hfs, hfsd⟩

theorem fileBytes_empty {path : List UInt8} {id : UInt32} {inode : Inode}
    (hres : resolve c path = some (id, inode)) (ht : inode.type = typeRegular)
    (hsize : inode.size.toNat = 0) (max : ℕ) : fileBytes c path max = some [] := by
  rw [fileBytes, hres, Option.bind_some]
  dsimp only
  rw [if_pos ht, bytesFrom, dif_neg (by rw [hsize]; omega)]

theorem created_file {data : ℕ → XBlock} {dev : Geometry} (h84 : 84 ≤ total)
    (hsmall : total ≤ 32768) (hV : Steady total s (mountedVolume (formatted total data) 1))
    (hsector : WholeSectors dev)
    (ht : total ≤ xfsFsBlocks dev) :
    (s.call (lowered (k64XfsCreate fileA 0o644 0 0))).1.isSome = true ∧
    ∃ inode, resolved (s.call (lowered (k64XfsCreate fileA 0o644 0 0))).2 pathA = some (2, inode) ∧
      inode.type = typeRegular ∧
      Contains (s.call (lowered (k64XfsCreate fileA 0o644 0 0))).2 fileA [] ∧
      HasRun (s.call (lowered (k64XfsCreate fileA 0o644 0 0))).2 1 := by
  have heff := first_effect data h84 hsmall
  have hcall := operation_succeeds (o := .create fileA 0o644 0 0) hV rfl heff hsector ht
  obtain ⟨hm, k, V', he, hW, hans⟩ := operation_stepped
    (o := .create fileA 0o644 0 0) hV hsector ht hcall
  obtain ⟨-, hcontent⟩ := Effect.done.inj (heff.symm.trans he)
  obtain ⟨-, hres, -⟩ := @resolve_first total data 0o644 0 0 1 h84 hsmall
  have hread := fileBytes_empty hres rfl rfl
  have hmarks : ∀ b, 83 ≤ b → (firstFile total data 1 0o644 0 0).blockUsed b = false := fun b hb =>
    decide_eq_false (show ¬ b < 83 by omega)
  have htotal : (firstFile total data 1 0o644 0 0).total = total := rfl
  rw [hcontent] at hres hread hmarks htotal
  exact ⟨hcall, _, (hans.resolved _).trans hres, by rw [← hcontent]; rfl,
    fun max => (hans.read fileA max).trans ((hread max).trans (by rw [List.take_nil])),
    hasRun_of_freeRun hW ⟨83, by omega, by omega, fun b hb _ => hmarks b hb⟩⟩

/-- The small volume with an empty file "/a". -/
def fileSystem : System := ((freshSystem smallDevice).call (lowered (k64XfsCreate fileA 0o644 0 0))).2

theorem fileSystem_reached :
    Run smallDevice.toGeometry (freshSystem smallDevice)
      [(.operation (.create fileA 0o644 0 0), true)] fileSystem ∧
    ∃ inode, resolved fileSystem pathA = some (2, inode) ∧ inode.type = typeRegular ∧
      Contains fileSystem fileA [] ∧ HasRun fileSystem 1 := by
  obtain ⟨total, h84, hsmall, hsteady, hsector, ht⟩ := small_steady
  obtain ⟨hok, hfile⟩ := created_file h84 hsmall hsteady hsector ht
  exact ⟨first_call (.create fileA 0o644 0 0) hok, hfile⟩

/-- One byte for an empty file. -/
theorem truncates_iff_one :
    Truncates fileSystem rootDir fileA fileA [] 1 ↔
      1 = 0 ∨ (1 ≤ ([] : List UInt8).length ∧ 1 ≤ 4096) ∨ (([] : List UInt8) = [] ∧ 1 = 1) := by
  obtain ⟨hrun, inode, hres, ht, hd, hroom⟩ := fileSystem_reached
  exact truncates_iff fresh_smallDevice (fun _ => rfl) (by decide) hrun (by simp) rootDir fileA fileA
    pathA (by decide) 2 inode hres hres ht [] hd (by decide) 1 (by decide) hroom

/-- There is room for two bytes, but `k64_xfs_truncate` writes one. -/
theorem growth_cut_short :
    Run smallDevice.toGeometry (freshSystem smallDevice)
      [(.operation (.create fileA 0o644 0 0), true)] fileSystem ∧
    Contains fileSystem fileA [] ∧ HasRun fileSystem ((2 + 4095) / 4096) ∧
    ¬ Truncates fileSystem rootDir fileA fileA [] 2 := by
  obtain ⟨hrun, inode, hres, ht, hd, hroom⟩ := fileSystem_reached
  refine ⟨hrun, hd, hroom, fun h => ?_⟩
  obtain ⟨-, hdev, -⟩ := fresh_holds fresh_smallDevice (fun _ => rfl) (by decide)
  obtain ⟨V, hV⟩ := fresh_run_steady fresh_smallDevice (fun _ => rfl) (by decide) hrun (by simp)
  have hm := resolved_mounted hV hres
  have hresolve : resolve V.content fileA.bytes = some (2, inode) :=
    ((steady_answers hV hm).resolved _).symm.trans hres
  have hcond := (xfs_truncates_iff hV hm (sector_of_ok hdev) (Nat.le_refl _) hresolve ht hd
    (by decide) hroom).mp ⟨h.xfs, h.xfsBytes⟩
  simp at hcond

end FsTruncation
