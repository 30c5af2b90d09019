import K64.XfsPaths

/-! # Changing directories and creating inodes

What `xfs_dir_add`, `xfs_dir_remove` and `xfs_create_at` make of the content, as long as the journal
has room for the metadata blocks they write. -/
namespace XfsDirectoryUpdate

open ByteCodec IoProgram XfsFormat XfsInode XfsCalls XfsDirectory XfsVolume XfsConsistency XfsLookup
  XfsPaths

/-- Mounted, and an open transaction has room for `k` more records. -/
structure Room (k : ℕ) (V : Volume) : Prop where
  mounted : V.mounted = true
  records : V.journalActive = true → V.journalRecords + k ≤ 16

/-- The volume after `n` metadata writes that make `c` its content. -/
def logged (n : ℕ) (V : Volume) (c : Content) : Volume :=
  { V with content := c, journalRecords := V.journalRecords + n * V.journalActive.toNat }

variable {k : ℕ}

theorem Room.mono {j : ℕ} {V : Volume} (h : Room k V) (hjk : j ≤ k) : Room j V :=
  ⟨h.mounted, fun ha => by have := h.records ha; omega⟩

theorem Room.logged {n : ℕ} {V : Volume} (h : Room (n + k) V) (c : Content) :
    Room k (logged n V c) := by
  refine ⟨h.mounted, fun ha => ?_⟩
  have ha' : V.journalActive = true := ha
  have := h.records ha'
  simp only [XfsDirectoryUpdate.logged, ha', Bool.toNat_true]
  omega

variable (n : ℕ)

@[simp] theorem content_logged (V : Volume) (c : Content) : (logged n V c).content = c := rfl

@[simp] theorem mounted_logged (V : Volume) (c : Content) :
    (logged n V c).mounted = V.mounted := rfl
@[simp] theorem generation_logged (V : Volume) (c : Content) :
    (logged n V c).generation = V.generation := rfl

@[simp] theorem logged_logged (n m : ℕ) (V : Volume) (c c' : Content) :
    logged m (logged n V c) c' = logged (n + m) V c' := by
  simp [logged, Nat.add_mul, Nat.add_assoc]

theorem logged_zero (V : Volume) : logged 0 V V.content = V := by simp [logged]

theorem withContent_eq_logged (V : Volume) (c : Content) : V.withContent c = logged 0 V c := by
  simp [logged, Volume.withContent]

theorem metadata_room {V : Volume} (h : Room 1 V) (c : Content) :
    V.metadata c = (true, logged 1 V c) := by
  unfold Volume.metadata
  by_cases ha : V.journalActive = true
  · have hr : V.journalRecords < 16 := by have := h.records ha; omega
    rw [if_pos ha, if_pos ⟨h.mounted, hr⟩]
    simp [logged, ha]
  · rw [if_neg ha]
    simp [logged, Volume.withContent, ha]

variable {V : Volume} {c : Content}

theorem wp_writeInode (h : Room 1 V) {i : Inode} (h0 : i.inodeId ≠ 0)
    (h512 : i.inodeId.toNat ≤ 512) {P : Option Unit → Unit → Volume → Prop} :
    Proc.wp volume volumeGuard (writeInode i) P () V ↔
      P (some ()) () (logged 1 V (V.content.setInode i)) := by
  simp [writeInode, volume, volumeGuard, h0, h512, metadata_room h]

theorem wp_blockWrite {n : ℕ} {b : XBlock} {P : Option Unit → Unit → Volume → Prop} :
    Proc.wp volume volumeGuard (blockWrite n b) P () V ↔
      (82 ≤ n ∧ n < V.content.total) ∧ P (some ()) () (logged 0 V (V.content.setData n b)) := by
  simp [blockWrite, volume, volumeGuard, withContent_eq_logged]

variable {inode : Inode}

theorem wp_writeDataBlock (hf : Inode.Fits V.content.total inode) {logical : ℕ}
    {b : XBlock} {P : Option Unit → Unit → Volume → Prop} :
    Proc.wp volume volumeGuard (writeDataBlock inode logical b) P () V ↔
      match Inode.lookup inode logical with
      | some n => P (some ()) () (logged 0 V (V.content.setData n b))
      | none => P none () V := by
  cases hl : Inode.lookup inode logical with
  | none => simp [writeDataBlock, volume, volumeGuard, hf, hl]
  | some n => simp [writeDataBlock, volume, volumeGuard, hf, hl, withContent_eq_logged]

theorem wp_allocInode (h : Room 1 V) {P : Option UInt32 → Unit → Volume → Prop} :
    Proc.wp volume volumeGuard allocInode P () V ↔
      match V.content.spareInode with
      | some id => P (some (UInt32.ofNat id)) () (logged 1 V (V.content.setInodeUsed id true))
      | none => P none () V := by
  cases hs : V.content.spareInode with
  | none => simp [allocInode, volume, volumeGuard, hs]
  | some id => simp [allocInode, volume, volumeGuard, hs, metadata_room h]

variable {id : UInt32}

theorem wp_freeInode (h : Room 1 V) (h0 : id ≠ 0) (h512 : id.toNat ≤ 512)
    {P : Option Unit → Unit → Volume → Prop} :
    Proc.wp volume volumeGuard (freeInode id) P () V ↔
      P (some ()) () (logged 1 V (V.content.setInodeUsed id.toNat false)) := by
  simp [freeInode, volume, volumeGuard, h0, h512, metadata_room h]

theorem metadata_withFree {free : UInt64} (h : Room 1 V) (c : Content) :
    (V.withContent (V.content.withFree free)).metadata c = (true, logged 1 V c) :=
  metadata_room (V := V.withContent (V.content.withFree free)) ⟨h.mounted, h.records⟩ c

/-- The run an allocation takes, when the free count allows it. -/
def allocRun (c : Content) (blocks : ℕ) : Option ℕ :=
  if blocks = 0 ∨ 2 ^ 32 - 1 < blocks ∨ c.freeBlocks.toNat < blocks then none
  else c.spareRun blocks

variable {blocks : ℕ}

theorem wp_allocExtent (h : Room 1 V) {P : Option ℕ → Unit → Volume → Prop} :
    Proc.wp volume volumeGuard (allocExtent blocks) P () V ↔
      match allocRun V.content blocks with
      | some start => P (some start) () (logged 1 V (V.content.takeRun start blocks))
      | none => P none () V := by
  unfold allocRun
  by_cases hb : blocks = 0 ∨ 2 ^ 32 - 1 < blocks
  · rw [if_pos (by omega)]
    simp only [allocExtent, Proc.wp_bind, Proc.wp_request, Proc.wpNext_some, Proc.wp_orFail, volume,
      hb, if_true, volumeGuard, true_and]
  · simp only [allocExtent, Proc.wp_bind, Proc.wp_request, Proc.wpNext_some, Proc.wp_orFail, volume,
      hb, if_false, volumeGuard, true_and]
    by_cases hf : V.content.freeBlocks.toNat < blocks
    · rw [if_pos (by omega)]
      cases V.content.spareRun blocks <;> simp [hf]
    · rw [if_neg (by omega)]
      cases V.content.spareRun blocks with
      | none => rfl
      | some start => simp [hf, metadata_withFree h]

theorem wp_freeExtent (h : Room 1 V) {start : ℕ} (hb : blocks ≠ 0)
    {P : Option Unit → Unit → Volume → Prop} :
    Proc.wp volume volumeGuard (freeExtent start blocks) P () V ↔
      (82 ≤ start ∧ start + blocks ≤ V.content.total) ∧
        P (some ()) () (logged 1 V (V.content.dropRun start blocks)) := by
  simp [freeExtent, volume, volumeGuard, hb, metadata_withFree h]

/-- The first free slot of the blocks from `b` on. -/
def freeFrom (c : Content) (dir : Inode) : ℕ → ℕ → Option (ℕ × ℕ)
  | _, 0 => none
  | b, n + 1 =>
    match slotFree (c.dataOf dir b) with
    | some s => some (b, s)
    | none => freeFrom c dir (b + 1) n

def freeSlot (c : Content) (dir : Inode) : Option (ℕ × ℕ) := freeFrom c dir 0 (sizeBlocks dir.size)

/-- An entry in slot `s` of block `b`, which is stored in block `n`. -/
def putIn (c : Content) (dir : Inode) (e : Dirent) (b s n : ℕ) : Content :=
  (c.setData n (setDirent (c.dataOf dir b) s e)).setInode (Inode.ticked dir)

/-- An entry in a new block `n` behind the others. -/
def growBy (c : Content) (dir : Inode) (e : Dirent) (n : ℕ) : Content :=
  ((c.takeRun n 1).setData n (setDirent Block.zero 0 e)).setInode (Inode.grown dir n)

def ungrown (c : Content) (e : Dirent) (n : ℕ) : Content :=
  ((c.takeRun n 1).setData n (setDirent Block.zero 0 e)).dropRun n 1

variable {dir : Inode}

theorem freeFrom_some {b' s : ℕ} : ∀ n b, freeFrom c dir b n = some (b', s) →
    b' < b + n ∧ s < 25 ∧ (dirent (c.dataOf dir b') s).inodeId = 0 := by
  intro n
  induction n with
  | zero => intro b h; simp [freeFrom] at h
  | succ n ih =>
    intro b h
    rw [freeFrom] at h
    cases hs : slotFree (c.dataOf dir b) with
    | none =>
      rw [hs] at h
      obtain ⟨h1, h2⟩ := ih (b + 1) h
      exact ⟨by omega, h2⟩
    | some t =>
      rw [hs] at h
      simp only [Option.some.injEq, Prod.mk.injEq] at h
      obtain ⟨rfl, rfl⟩ := h
      have hm := List.find?_some (p := fun s => (dirent (c.dataOf dir b) s).inodeId == 0) hs
      exact ⟨by omega, List.mem_range.mp (List.mem_of_find?_eq_some hs), by simpa using hm⟩

theorem wp_dirAddFrom {e : Dirent} (hr : Room 1 V)
    (hf : Inode.Fits V.content.total dir) (h0 : dir.inodeId ≠ 0) (h512 : dir.inodeId.toNat ≤ 512)
    {P : Option (Option Inode) → Unit → Volume → Prop} : ∀ n b,
    Proc.wp volume volumeGuard (dirAddFrom dir e b n) P () V ↔
      match freeFrom V.content dir b n with
      | some (b', s) =>
        match Inode.lookup dir b' with
        | some k => P (some (some (Inode.ticked dir))) ()
            (logged 1 V (putIn V.content dir e b' s k))
        | none => P none () V
      | none => P (some none) () V := by
  intro n
  induction n with
  | zero => intro b; simp [dirAddFrom, freeFrom]
  | succ n ih =>
    intro b
    simp only [dirAddFrom, Proc.wp_bind, wp_readDataBlock, hf, true_and, Proc.wpNext_some, freeFrom]
    cases slotFree (V.content.dataOf dir b) with
    | none => exact ih (b + 1)
    | some s =>
      simp only [Proc.wp_bind, wp_scratch, Proc.wpNext_some, wp_writeDataBlock hf]
      cases Inode.lookup dir b with
      | none => simp
      | some k =>
        have hr' : Room 1 (logged 0 V (V.content.setData k
            (setDirent (V.content.dataOf dir b) s e))) := Room.logged (n := 0) (by simpa using hr) _
        simp [wp_writeInode hr' (i := Inode.ticked dir) h0 h512, putIn]

theorem inodeId_grown (dir : Inode) (n : ℕ) : (Inode.grown dir n).inodeId = dir.inodeId := by
  unfold Inode.grown
  rfl

variable {name : List UInt8} {P : Option Inode → Unit → Volume → Prop} {type : UInt16}

theorem wp_dirAdd (hr : Room 2 V)
    (hf : Inode.Fits V.content.total dir) (h0 : dir.inodeId ≠ 0) (h512 : dir.inodeId.toNat ≤ 512)
    (hname : xfsNameValid name = true) (hid : id ≠ 0)
    (hnew : dirFind V.content dir name = none) :
    Proc.wp volume volumeGuard (xfsDirAdd dir name id type) P () V ↔
      match freeSlot V.content dir with
      | some (b, s) =>
        match Inode.lookup dir b with
        | some n => P (some (Inode.ticked dir)) ()
            (logged 1 V (putIn V.content dir (makeDirent name id type) b s n))
        | none => P none () V
      | none =>
        match allocRun V.content 1 with
        | some n =>
          if 8 ≤ dir.extentCount.toNat then
            P none () (logged 2 V (ungrown V.content (makeDirent name id type) n))
          else P (some (Inode.grown dir n)) ()
            (logged 2 V (growBy V.content dir (makeDirent name id type) n))
        | none => P none () V := by
  simp only [xfsDirAdd, Proc.wp_bind, Proc.wp_guard, hname, Bool.true_and, bne_iff_ne, ne_eq, hid,
    not_false_eq_true, if_true, Proc.wpNext_some, Proc.wp_attempt, wp_dirFind hf, hnew,
    Option.isNone_none, wp_dirAddFrom (hr.mono (by decide)) hf h0 h512, freeSlot]
  cases freeFrom V.content dir 0 (sizeBlocks dir.size) with
  | some slot =>
    obtain ⟨b, s⟩ := slot
    cases Inode.lookup dir b with
    | none => simp
    | some n => simp
  | none =>
    simp only [Proc.wpNext_some, Proc.wp_bind, wp_allocExtent (hr.mono (by decide : 1 ≤ 2))]
    cases ha : allocRun V.content 1 with
    | none => simp
    | some n =>
      obtain ⟨h1, h2⟩ : 82 ≤ n ∧ n + 1 ≤ V.content.total := by
        have hrun : V.content.spareRun 1 = some n := by
          unfold allocRun at ha
          split at ha
          · cases ha
          · exact ha
        obtain ⟨h1, h2, -⟩ := spare_run_some (by decide) hrun
        exact ⟨h1, by omega⟩
      have hr1 : Room 1 (logged 1 V ((V.content.takeRun n 1).setData n
          (setDirent Block.zero 0 (makeDirent name id type)))) := Room.logged hr _
      have ht : (V.content.takeRun n 1).total = V.content.total := rfl
      simp only [Proc.wpNext_some, Proc.wp_bind, wp_scratch, wp_blockWrite, content_logged, ht, h1,
        show n < V.content.total by omega, and_self, true_and, logged_logged, Proc.wp_ite,
        Proc.wp_attempt, wp_freeExtent hr1 Nat.one_ne_zero]
      have ht' : ((V.content.takeRun n 1).setData n
        (setDirent Block.zero 0 (makeDirent name id type))).total = V.content.total := rfl
      by_cases h8 : 8 ≤ dir.extentCount.toNat
      · simp [h8, ungrown, ht', h2]
      · have h0' : (Inode.grown dir n).inodeId ≠ 0 := by rwa [inodeId_grown]
        have h512' : (Inode.grown dir n).inodeId.toNat ≤ 512 := by rwa [inodeId_grown]
        simp [h8, wp_writeInode hr1 h0' h512', growBy]

def added (c : Content) (dir : Inode) (e : Dirent) : Option (ℕ × Content) :=
  match freeSlot c dir with
  | some (b, s) => (Inode.lookup dir b).map fun n => (1, putIn c dir e b s n)
  | none =>
    if 8 ≤ dir.extentCount.toNat then none
    else (allocRun c 1).map fun n => (2, growBy c dir e n)

variable {c' : Content}

theorem added_cases {e : Dirent} (h : added c dir e = some (k, c')) :
    (∃ b s n, freeSlot c dir = some (b, s) ∧ Inode.lookup dir b = some n ∧ k = 1 ∧
      c' = putIn c dir e b s n) ∨
    ∃ n, freeSlot c dir = none ∧ dir.extentCount.toNat < 8 ∧ allocRun c 1 = some n ∧ k = 2 ∧
      c' = growBy c dir e n := by
  unfold added at h
  split at h
  next b s hslot =>
    obtain ⟨n, hl, heq⟩ := Option.map_eq_some_iff.mp h
    obtain ⟨rfl, rfl⟩ := Prod.mk.inj heq
    exact .inl ⟨b, s, n, hslot, hl, rfl, rfl⟩
  next hslot =>
    split at h
    · cases h
    next h8 =>
      obtain ⟨n, hn, heq⟩ := Option.map_eq_some_iff.mp h
      obtain ⟨rfl, rfl⟩ := Prod.mk.inj heq
      exact .inr ⟨n, hslot, Nat.lt_of_not_le h8, hn, rfl, rfl⟩

theorem added_records {e : Dirent}
    (h : added c dir e = some (k, c')) : k ≤ 2 ∧ c'.total = c.total := by
  obtain ⟨b, s, n, -, -, rfl, rfl⟩ | ⟨n, -, -, -, rfl, rfl⟩ := added_cases h
  · exact ⟨by decide, rfl⟩
  · exact ⟨by decide, rfl⟩

def unadded (c : Content) (dir : Inode) (e : Dirent) : Content :=
  if freeSlot c dir = none ∧ 8 ≤ dir.extentCount.toNat then
    match allocRun c 1 with
    | some n => ungrown c e n
    | none => c
  else c

theorem dirAdd_rule
    (hr : Room 2 V) (hf : Inode.Fits V.content.total dir) (h0 : dir.inodeId ≠ 0)
    (h512 : dir.inodeId.toNat ≤ 512) (hname : xfsNameValid name = true) (hid : id ≠ 0)
    (hnew : dirFind V.content dir name = none)
    (hdone : ∀ k c' dir', added V.content dir (makeDirent name id type) = some (k, c') →
      P (some dir') () (logged k V c'))
    (hfull : added V.content dir (makeDirent name id type) = none → ∀ k,
      P none () (logged k V (unadded V.content dir (makeDirent name id type)))) :
    Proc.wp volume volumeGuard (xfsDirAdd dir name id type) P () V := by
  rw [wp_dirAdd hr hf h0 h512 hname hid hnew]
  unfold added at hdone hfull
  unfold unadded at hfull
  cases hs : freeSlot V.content dir with
  | some slot =>
    obtain ⟨b, s⟩ := slot
    simp only [hs, reduceCtorEq, false_and, if_false] at hdone hfull ⊢
    cases hl : Inode.lookup dir b with
    | none => simpa [logged_zero] using hfull (by simp [hl]) 0
    | some n => exact hdone _ _ _ (by simp [hl])
  | none =>
    simp only [hs, true_and] at hdone hfull ⊢
    by_cases h8 : 8 ≤ dir.extentCount.toNat
    · simp only [h8, if_true] at hfull ⊢
      cases ha : allocRun V.content 1 with
      | none => simpa [ha, logged_zero] using hfull trivial 0
      | some n => simpa [ha] using hfull trivial 2
    · simp only [h8, if_false] at hdone hfull ⊢
      cases ha : allocRun V.content 1 with
      | none => simpa [logged_zero] using hfull (by simp [ha]) 0
      | some n => exact hdone _ _ _ (by simp [ha])

theorem wp_dirRemove (hr : Room 1 V)
    (hf : Inode.Fits V.content.total dir) (h0 : dir.inodeId ≠ 0) (h512 : dir.inodeId.toNat ≤ 512) :
    Proc.wp volume volumeGuard (xfsDirRemove dir name) P () V ↔
      match dirFind V.content dir name with
      | some (_, b, s) =>
        match Inode.lookup dir b with
        | some n => P (some (Inode.ticked dir)) ()
            (logged 1 V (putIn V.content dir Dirent.zero b s n))
        | none => P none () V
      | none => P none () V := by
  simp only [xfsDirRemove, Proc.wp_bind, wp_dirFind hf]
  cases dirFind V.content dir name with
  | none => simp
  | some found =>
    obtain ⟨e, b, s⟩ := found
    simp only [Proc.wpNext_some, Proc.wp_bind, wp_readDataBlock, hf, true_and, wp_scratch,
      wp_writeDataBlock hf]
    cases Inode.lookup dir b with
    | none => simp
    | some n =>
      have hr' : Room 1 (logged 0 V (V.content.setData n
          (setDirent (V.content.dataOf dir b) s Dirent.zero))) :=
        Room.logged (n := 0) (by simpa using hr) _
      simp [wp_writeInode hr' (i := Inode.ticked dir) h0 h512, putIn]

/-- The checks of `xfs_create_at` before it changes anything. -/
structure Creatable (c : Content) (path parentPath leaf : List UInt8) (parentId : UInt32)
    (parent : Inode) : Prop where
  split : xfsSplitParent path = some (parentPath, leaf)
  resolved : resolve c parentPath = some (parentId, parent)
  isDir : parent.type = typeDirectory
  absent : dirFind c parent leaf = none

def freshFile (c : Content) (inode : Inode) : Content :=
  (c.setInodeUsed inode.inodeId.toNat true).setInode inode

def freshDir (c : Content) (inode : Inode) (n : ℕ) : Content :=
  (((freshFile c inode).takeRun n 1).setData n Block.zero).setInode (Inode.withBlock inode n)

def prepared (c : Content) (inode : Inode) (type : UInt16) : Option (ℕ × Content) :=
  if type = typeDirectory then
    (allocRun (freshFile c inode) 1).map fun n => (4, freshDir c inode n)
  else some (2, freshFile c inode)

theorem findFrom_congr
    (h : ∀ b, c'.dataOf dir b = c.dataOf dir b) : ∀ n b,
    findFrom c' dir name b n = findFrom c dir name b n := by
  intro n
  induction n with
  | zero => exact fun _ => rfl
  | succ n ih => intro b; rw [findFrom, findFrom, h b, ih (b + 1)]

theorem dirFind_congr
    (h : ∀ b, c'.dataOf dir b = c.dataOf dir b) : dirFind c' dir name = dirFind c dir name := by
  rw [dirFind, dirFind, findFrom_congr h]

theorem allocRun_some {n : ℕ} (h : allocRun c blocks = some n) :
    0 < blocks ∧ blocks ≤ c.freeBlocks.toNat ∧ 82 ≤ n ∧ n + blocks ≤ c.total ∧
      ∀ x, n ≤ x → x < n + blocks → c.blockUsed x = false := by
  unfold allocRun at h
  split at h
  · cases h
  · obtain ⟨h1, h2, h3⟩ := spare_run_some (by omega) h
    exact ⟨by omega, by omega, h1, by omega, h3⟩

theorem spareInode_some {id : ℕ} (h : c.spareInode = some id) :
    2 ≤ id ∧ id ≤ 512 ∧ c.inodeUsed id = false ∧ (UInt32.ofNat id).toNat = id ∧
      UInt32.ofNat id ≠ 0 := by
  have hm := List.mem_range'_1.mp (List.mem_of_find?_eq_some h)
  have hu := List.find?_some (p := fun id => !c.inodeUsed id) h
  have hid : (UInt32.ofNat id).toNat = id := by
    rw [UInt32.toNat_ofNat']
    omega
  refine ⟨hm.1, by omega, by simpa using hu, hid, fun h0 => ?_⟩
  rw [h0] at hid
  have : (0 : UInt32).toNat = 0 := rfl
  omega

theorem resolve_used (hc : Consistent c) {path : List UInt8} (h0 : (0 : UInt8) ∉ path)
    (h : resolve c path = some (id, inode)) :
    Used c id.toNat ∧ inode = c.inode id.toNat ∧ inode.inodeId = id ∧
      locate c (tokens path) = some id.toNat := by
  unfold resolve at h
  split at h
  case isFalse => cases h
  case isTrue =>
    have hn : ∀ t ∈ tokens path, (0 : UInt8) ∉ t := fun t ht => noNul_tokens h0 ht
    rw [walk_eq hc hn] at h
    obtain ⟨k, hk, heq⟩ := Option.map_eq_some_iff.mp h
    simp only [Prod.mk.injEq] at heq
    have hu := locate_used hc hn hk
    have hid : id.toNat = k := by
      rw [← heq.1, UInt32.toNat_ofNat']
      have := hu.le
      omega
    have hself := (hu.inodeId hc.toAllocated).2
    refine ⟨hid ▸ hu, hid ▸ heq.2.symm, ?_, hid ▸ hk⟩
    rw [← heq.2, ← UInt32.toNat_inj, hself, hid]

theorem unmarked_not_owned (hc : Consistent c) {dir : ℕ} (hu : Used c dir) {n : ℕ}
    (hn : c.blockUsed n = false) : n ∉ Inode.blocks (c.inode dir) := fun hb => by
  rw [hc.marked dir hu n hb] at hn
  cases hn

theorem prepared_dataOf (hc : Consistent c)
    (hp : prepared c inode type = some (k, c')) {dir : ℕ} (hu : Used c dir) (b : ℕ) :
    c'.dataOf (c.inode dir) b = c.dataOf (c.inode dir) b := by
  have hsmall := hc.small
  unfold prepared at hp
  split at hp
  case isTrue =>
    obtain ⟨n, hn, heq⟩ := Option.map_eq_some_iff.mp hp
    obtain ⟨-, rfl⟩ := Prod.mk.inj heq
    obtain ⟨-, -, -, -, hfree⟩ := allocRun_some hn
    have hn : n ∉ Inode.blocks (c.inode dir) :=
      unmarked_not_owned hc hu (hfree n (Nat.le_refl n) (by omega))
    exact dataOf_setData (c := (freshFile c inode).takeRun n 1) (hc.fits dir hu.pos hu.le)
      (Nat.le_trans hsmall (by decide)) hn Block.zero b
  case isFalse =>
    obtain ⟨-, rfl⟩ := Prod.mk.inj (Option.some.inj hp)
    rfl

theorem prepared_total
    (hp : prepared c inode type = some (k, c')) : c'.total = c.total ∧ k ≤ 4 := by
  unfold prepared at hp
  split at hp
  case isTrue =>
    obtain ⟨n, -, heq⟩ := Option.map_eq_some_iff.mp hp
    obtain ⟨rfl, rfl⟩ := Prod.mk.inj heq
    exact ⟨rfl, Nat.le_refl 4⟩
  case isFalse =>
    obtain ⟨rfl, rfl⟩ := Prod.mk.inj (Option.some.inj hp)
    exact ⟨rfl, by decide⟩

/-- What happens behind the checks: there is no inode or no block for a new directory, the entry
finds no place, or the inode is created. -/
theorem createBody_rule {parent : ℕ} {leaf : List UInt8} {mode uid gid : UInt32}
    (hc : Consistent V.content) (hr : Room 6 V) (hp : Used V.content parent)
    (hleaf : NameOk leaf) (hnew : dirFind V.content (V.content.inode parent) leaf = none)
    (hnone : V.content.spareInode = none → P none () V)
    (hrest : ∀ id inode, V.content.spareInode = some id →
      inode = newInode V.generation (UInt32.ofNat id) type mode uid gid →
      (prepared V.content inode type = none →
        P none () (logged 3 V ((freshFile V.content inode).setInodeUsed id false))) ∧
      ∀ k c', prepared V.content inode type = some (k, c') →
        (added c' (V.content.inode parent) (makeDirent leaf (UInt32.ofNat id) type) = none →
          ∀ V', P none () V') ∧
        ∀ j c'' out,
          added c' (V.content.inode parent) (makeDirent leaf (UInt32.ofNat id) type) =
            some (j, c'') → P (some out) () (logged (k + j) V c'')) :
    Proc.wp volume volumeGuard (createBody (V.content.inode parent) leaf type mode uid gid) P ()
      V := by
  simp only [createBody, Proc.wp_bind, wp_allocInode (hr.mono (by decide : 1 ≤ 6))]
  cases hid : V.content.spareInode with
  | none => exact hnone hid
  | some id =>
    obtain ⟨-, hid512, -, hidn, hid0⟩ := spareInode_some hid
    set inode := newInode V.generation (UInt32.ofNat id) type mode uid gid with hinode
    obtain ⟨hblock, hmade⟩ := hrest id inode hid hinode
    have hin : inode.inodeId = UInt32.ofNat id := rfl
    have hin0 : inode.inodeId ≠ 0 := hid0
    have hin512 : inode.inodeId.toNat ≤ 512 := by rw [hin, hidn]; exact hid512
    have hr1 : Room 5 (logged 1 V (V.content.setInodeUsed id true)) := Room.logged (n := 1) hr _
    have hfile : (V.content.setInodeUsed id true).setInode inode = freshFile V.content inode := by
      rw [freshFile, hin, hidn]
    have hself := (hp.inodeId hc.toAllocated).2
    have hp0 : (V.content.inode parent).inodeId ≠ 0 := fun h0 => by
      rw [h0] at hself
      have := hp.pos
      have : (0 : UInt32).toNat = 0 := rfl
      omega
    -- the entry, once the inode is prepared
    have hadd : ∀ k c' (out : Inode), prepared V.content inode type = some (k, c') →
        Proc.wp volume volumeGuard (do
          let _ ← xfsDirAdd (V.content.inode parent) leaf (UInt32.ofNat id) type
          pure out) P () (logged k V c') := by
      intro k c' out hprep
      obtain ⟨hlost, hdone⟩ := hmade k c' hprep
      obtain ⟨htotal, hk⟩ := prepared_total hprep
      have hfind : dirFind c' (V.content.inode parent) leaf = none := by
        rw [dirFind_congr (prepared_dataOf hc hprep hp)]; exact hnew
      rw [Proc.wp_bind]
      refine dirAdd_rule (Room.logged (hr.mono (by omega)) c') (htotal.symm ▸ hc.fits _ hp.pos hp.le)
        hp0 (by rw [hself]; exact hp.le) hleaf.valid hid0 hfind ?_ ?_
      · intro j c'' _ hj
        simpa using hdone j c'' out hj
      · exact fun hx _ => hlost hx _
    simp only [Proc.wpNext_some, Proc.wp_bind, xfsMakeInode, wp_info, generation_logged, ← hinode,
      wp_writeInode (hr1.mono (by decide : 1 ≤ 5)) hin0 hin512, content_logged, hfile,
      logged_logged, Proc.wp_pure, Proc.wp_ite]
    by_cases hd : type = typeDirectory
    · have hr2 : Room 4 (logged 2 V (freshFile V.content inode)) := Room.logged (n := 2) hr _
      simp only [hd, if_true, xfsGiveBlock, Proc.wp_bind, Proc.wp_attempt, Nat.reduceAdd,
        wp_allocExtent (hr2.mono (by decide : 1 ≤ 4)), content_logged, logged_logged]
      simp only [prepared, hd, if_true] at hblock hadd
      cases ha : allocRun (freshFile V.content inode) 1 with
      | none =>
        rw [ha] at hblock
        simp only [Proc.wpNext_some, Proc.wp_bind, Proc.wp_attempt, Proc.wp_fail,
          wp_freeInode (hr2.mono (by decide : 1 ≤ 4)) hin0 hin512, content_logged, logged_logged]
        simpa [hin, hidn] using hblock rfl
      | some n =>
        obtain ⟨-, -, h82, hlt, -⟩ := allocRun_some ha
        have htot : (freshFile V.content inode).total = V.content.total := rfl
        have hrn : Room 1 (logged 3 V (((freshFile V.content inode).takeRun n 1).setData n
            Block.zero)) := Room.logged (n := 3) (hr.mono (by decide)) _
        have hw0 : (Inode.withBlock inode n).inodeId ≠ 0 := hin0
        have hw512 : (Inode.withBlock inode n).inodeId.toNat ≤ 512 := hin512
        have htk : ((freshFile V.content inode).takeRun n 1).total = V.content.total := rfl
        simp only [Proc.wpNext_some, Proc.wp_bind, wp_scratch, wp_blockWrite, content_logged,
          htk, h82, show n < V.content.total by omega, true_and, and_self, logged_logged,
          Nat.reduceAdd, wp_writeInode hrn hw0 hw512, Proc.wp_pure]
        have := hadd 4 (freshDir V.content inode n) (Inode.withBlock inode n) (by rw [ha]; rfl)
        simpa [hd, freshDir] using this
    · simp only [hd, if_false, Nat.reduceAdd]
      exact (Proc.wp_bind _ _ _).mp (hadd 2 _ inode (by rw [prepared, if_neg hd]))

theorem createAt_rule {path : List UInt8} {mode uid gid : UInt32}
    (hc : Consistent V.content) (hr : Room 6 V) (h0 : (0 : UInt8) ∉ path)
    (hrefused : (∀ parentPath leaf parentId parent,
      ¬ Creatable V.content path parentPath leaf parentId parent) → P none () V)
    (hbody : ∀ parentPath leaf parentId parent,
      Creatable V.content path parentPath leaf parentId parent → NameOk leaf →
      Used V.content parentId.toNat → parent = V.content.inode parentId.toNat →
      Proc.wp volume volumeGuard (createBody parent leaf type mode uid gid) P () V) :
    Proc.wp volume volumeGuard (xfsCreateAt path type mode uid gid) P () V := by
  simp only [xfsCreateAt, Proc.wp_bind, Proc.wp_orFail]
  cases hs : xfsSplitParent path with
  | none => exact hrefused fun _ _ _ _ hx => by rw [hx.split] at hs; cases hs
  | some split =>
    obtain ⟨parentPath, leaf⟩ := split
    obtain ⟨-, -, hleaf, -, hpnul⟩ := split_parent_some h0 hs
    simp only [Proc.wpNext_some, Proc.wp_bind, wp_resolve hc.toAllocated hr.mounted]
    cases hres : resolve V.content parentPath with
    | none =>
      refine hrefused fun _ _ _ _ hx => ?_
      obtain ⟨rfl, rfl⟩ := Prod.mk.inj (Option.some.inj (hs.symm.trans hx.split))
      rw [hx.resolved] at hres; cases hres
    | some found =>
      obtain ⟨parentId, parent⟩ := found
      obtain ⟨hpu, hpi, -, -⟩ := resolve_used hc hpnul hres
      have hpf : Inode.Fits V.content.total parent := hpi ▸ hc.fits _ hpu.pos hpu.le
      simp only [Proc.wpNext_some, Proc.wp_bind, Proc.wp_guard, beq_iff_eq]
      by_cases hd : parent.type = typeDirectory
      · rw [if_pos hd]
        simp only [Proc.wp_bind, Proc.wp_attempt, wp_dirFind hpf, Proc.wp_guard, Proc.wpNext_some]
        cases hfind : dirFind V.content parent leaf with
        | some found =>
          refine hrefused fun _ _ _ _ hx => ?_
          obtain ⟨rfl, rfl⟩ := Prod.mk.inj (Option.some.inj (hs.symm.trans hx.split))
          obtain ⟨rfl, rfl⟩ := Prod.mk.inj (Option.some.inj (hres.symm.trans hx.resolved))
          rw [hx.absent] at hfind; cases hfind
        | none => exact hbody parentPath leaf parentId parent ⟨hs, hres, hd, hfind⟩ hleaf hpu hpi
      · rw [if_neg hd]
        refine hrefused fun _ _ _ _ hx => ?_
        obtain ⟨rfl, rfl⟩ := Prod.mk.inj (Option.some.inj (hs.symm.trans hx.split))
        obtain ⟨rfl, rfl⟩ := Prod.mk.inj (Option.some.inj (hres.symm.trans hx.resolved))
        exact hd hx.isDir

end XfsDirectoryUpdate
