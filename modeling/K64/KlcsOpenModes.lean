import K64.KlcsTransfers
import K64.KlcsDescriptors

/-! # The modes of open files

The flags that a file is opened with against what the descriptor is used for. `linux_fd_open_path`
notes the flags, and no transfer looks at them. -/
namespace Klcs

open PieceLoops

variable {V : Type} (fs : FileSystem V) (m : Memory) (s : State V)

def linuxLseek (fd offset whence : UInt64) : Outcome V :=
  match usedFd s fd with
  | none => refuse s ebadf
  | some desc =>
    if desc.kind ≠ .file ∧ desc.kind ≠ .dir ∧ desc.kind ≠ .devZero ∧ desc.kind ≠ .devNull then
      refuse s ebadf
    else
      let base : Option UInt64 :=
        if whence = 0 then some 0
        else if whence = 1 then some desc.offset
        else if whence = 2 then some (((fs.stat s.volume desc.path).map FileStat.size).getD 0)
        else none
      match base with
      | none => refuse s einval
      | some base =>
        let next := base + offset
        if next.toInt64.toInt < 0 then refuse s einval
        else ⟨next.toInt64.toInt, s.setOffset fd desc next, []⟩

/-- The calls that are made on descriptors of a file, and on any others. -/
inductive ModeCall where
  | open (path : Str) (flags : UInt64)
  | transfer (t : Transfer)
  | lseek (fd offset whence : UInt64)
  | close (fd : UInt64)

def ModeCall.run : ModeCall → Outcome V
  | .open path flags => linuxFdOpenPath fs s path flags
  | .transfer t => t.run fs m s
  | .lseek fd offset whence => linuxLseek fs s fd offset whence
  | .close fd => linuxClose s fd

/-- The table of descriptors, and the flags with which each number was opened last. -/
structure Opened (V : Type) where
  state : State V
  flags : ℕ → UInt64

/-- A call with the memory that it meets. -/
def Opened.step (o : Opened V) (e : Memory × ModeCall) : Opened V :=
  let r := e.2.run fs e.1 o.state
  match e.2 with
  | .open _ flags => ⟨r.state, if 0 ≤ r.result then Function.update o.flags r.result.toNat flags
      else o.flags⟩
  | _ => ⟨r.state, o.flags⟩

def Opened.start (volume : V) : Opened V := ⟨⟨volume, standardFds⟩, fun _ => 0⟩

/-- `O_WRONLY` and `O_RDWR`. -/
def writeMode (flags : UInt64) : Bool := flags &&& 3 == 1 || flags &&& 3 == 2

/-- `O_RDONLY` and `O_RDWR`. -/
def readMode (flags : UInt64) : Bool := flags &&& 3 == 0 || flags &&& 3 == 2

/-- `O_TRUNC`. -/
def truncMode (flags : UInt64) : Bool := flags &&& 512 != 0

/-- `O_APPEND`. -/
def appendMode (flags : UInt64) : Bool := flags &&& 1024 != 0

def sizeOf (volume : V) (path : Str) : Option UInt64 := (fs.stat volume path).map FileStat.size

/-- Every piece that a loop hands to the file system goes to the end that the file then has. -/
def AtEnd (size : ℕ) (path : Str) (p offset : UInt64) (len : ℕ) : Prop :=
  ∀ k volume bytes, k * size < len →
    reached (storePiece fs m size path p offset len) s.volume k = some volume →
    bufferPiece m size p len k = some bytes →
    sizeOf fs volume path = some (offset + (k * size).toUInt64)

/-- The pieces of a `write` or `pwrite`: the path, the size of a piece, the address, the offset and
the length. -/
structure Store where
  path : Str
  size : ℕ
  p : UInt64
  offset : UInt64
  len : ℕ

def Transfer.store : Transfer → Option (UInt64 × Store)
  | .write fd p len => (writeTarget s fd).map fun t =>
      (fd, ⟨t.1, 128, p, t.2, (min len serviceCallPayloadMax).toNat⟩)
  | .pwrite fd p len offset => (fileOf s fd).map fun path =>
      (fd, ⟨path, 256, p, offset, (min len serviceCallPayloadMax).toNat⟩)
  | _ => none

def Transfer.fd : Transfer → UInt64
  | .read fd _ _ | .write fd _ _ | .pread fd _ _ _ | .pwrite fd _ _ _ => fd

structure ModesObeyed (o : Opened V) (m : Memory) (c : ModeCall) : Prop where
  writes : ∀ t, c = .transfer t → (c.run fs m o.state).state.volume ≠ o.state.volume →
    writeMode (o.flags t.fd.toNat) = true
  reads : ∀ t, c = .transfer t → (c.run fs m o.state).returned ≠ [] →
    readMode (o.flags t.fd.toNat) = true
  truncates : ∀ path flags, c = .open path flags → truncMode flags = true → writeMode flags = false →
    (fs.stat o.state.volume path).isSome = true →
    (c.run fs m o.state).state.volume = o.state.volume
  appends : ∀ t fd w, c = .transfer t → t.store o.state = some (fd, w) →
    appendMode (o.flags fd.toNat) = true →
    AtEnd fs m o.state w.size w.path w.p w.offset w.len

/-- The first piece of the buffer can be read, so that it is handed to the file system. -/
def Store.begins (w : Store) : Prop := 0 < w.len ∧ (bufferPiece m w.size w.p w.len 0).isSome = true

/-- The first piece of the file gets to the buffer. -/
def Fetches (fd p offset : UInt64) (len : ℕ) : Prop :=
  ∃ path bytes, fileOf s fd = some path ∧ 0 < len ∧
    filePiece fs s path offset len 0 = some bytes ∧ bytes ≠ [] ∧ m.write p bytes = true

/-- Where a read begins. -/
def Transfer.fetch : Transfer → Option (UInt64 × UInt64 × UInt64 × ℕ)
  | .read fd p len => some (fd, p, ((usedFd s fd).map Fd.offset).getD 0, len.toNat)
  | .pread fd p len offset => some (fd, p, offset, len.toNat)
  | _ => none

def fdFlags (fd : UInt64) : UInt64 := ((usedFd s fd).map Fd.flags).getD 0

/-- By its entry in the table the descriptor of a call is open for what the call does: for writing,
and at the end of the file if it appends, for reading, and for writing if an existing file is
emptied. -/
def Guarded (s : State V) (e : Memory × ModeCall) : Prop :=
  match e.2 with
  | .transfer t =>
    (∀ fd w, t.store s = some (fd, w) → w.begins e.1 →
      writeMode (fdFlags s fd) = true ∧ (appendMode (fdFlags s fd) = true →
        sizeOf fs s.volume w.path = some w.offset)) ∧
    ∀ fd p offset len, t.fetch s = some (fd, p, offset, len) → Fetches fs e.1 s fd p offset len →
      readMode (fdFlags s fd) = true
  | .open path flags => truncMode flags = true →
      path = devNullPath ∨ path ∈ devZeroPaths ∨
        (∀ st, fs.stat s.volume path = some st → st.isDir = true) ∨ writeMode flags = true
  | _ => True

/-- A piece that is stored at the end of a file makes it longer by its bytes, as `FsRanges.write_at_end` has
it of `k64_fs_write_file_range`. -/
def FileSystem.Grows : Prop :=
  ∀ volume path offset bytes, sizeOf fs volume path = some offset →
    (fs.writeFileRange volume path offset bytes).1 = true →
    sizeOf fs (fs.writeFileRange volume path offset bytes).2 path = some (offset + bytes.length.toUInt64)

/-- A read of the memory is of as many bytes as it asks for. -/
def Memory.Exact : Prop := ∀ p n bytes, m.read p n = some bytes → bytes.length = n

def FlagsKept (fds : ℕ → Option Fd) (flags : ℕ → UInt64) : Prop :=
  ∀ fd desc, fds fd = some desc → desc.kind = .file → desc.flags = flags fd

variable {fs m s}

section Flags

variable {fds : ℕ → Option Fd} {flags : ℕ → UInt64} (h : FlagsKept fds flags)
include h

theorem flags_update (i : ℕ) (d : Fd) (f : UInt64) (hd : d.kind = .file → d.flags = f) :
    FlagsKept (Function.update fds i (some d)) (Function.update flags i f) := by
  intro j desc hj hk
  by_cases he : j = i
  · subst he
    rw [Function.update_self] at hj ⊢
    cases hj
    exact hd hk
  · rw [Function.update_of_ne he] at hj ⊢
    exact h j desc hj hk

theorem flags_setOffset {fd : UInt64} {desc : Fd} (hs : s.fds = fds) (hd : usedFd s fd = some desc)
    (offset : UInt64) : FlagsKept (s.setOffset fd desc offset).fds flags := by
  have hold : fds fd.toNat = some desc := hs ▸ usedFd_some hd
  have hupdate := flags_update h fd.toNat { desc with offset } (flags fd.toNat)
    fun hk => h _ desc hold hk
  rw [Function.update_eq_self] at hupdate
  rw [State.setOffset, hs]
  exact hupdate

theorem flags_transfer (hs : s.fds = fds) (t : Transfer) : FlagsKept (t.run fs m s).state.fds flags := by
  have hsame : FlagsKept s.fds flags := hs ▸ h
  cases t with
  | read fd p len =>
    change FlagsKept (linuxFdRead fs m s fd p len).state.fds flags
    unfold linuxFdRead
    split
    · exact hsame
    · split
      · exact hsame
      next desc hd =>
        split
        · rw [linuxStdinRead_state.1]
          exact hsame
        · rw [readZeros_state.1]
          exact hsame
        · rw [readZeros_state.1]
          exact hsame
        · exact flags_setOffset h hs hd _
        · exact hsame
  | write fd p len =>
    change FlagsKept (linuxWriteUserBuffer fs m s fd p len).state.fds flags
    unfold linuxWriteUserBuffer
    split
    · exact hsame
    · simp only
      split
      · split
        · exact hsame
        next desc hd =>
          split
          · exact hsame
          · exact flags_setOffset h hs hd _
          · exact hsame
      · split
        · exact hsame
        · split <;> exact hsame
  | pread fd p len offset =>
    change FlagsKept (linuxFdPread fs m s fd p len offset).state.fds flags
    unfold linuxFdPread
    split
    · exact hsame
    · split
      · exact hsame
      · split
        · rw [readZeros_state.1]
          exact hsame
        · rw [readZeros_state.1]
          exact hsame
        · exact hsame
        · exact hsame
  | pwrite fd p len offset =>
    change FlagsKept (linuxFdPwrite fs m s fd p len offset).state.fds flags
    unfold linuxFdPwrite
    split
    · exact hsame
    · split
      · exact hsame
      · split <;> exact hsame

theorem flags_lseek (hs : s.fds = fds) (fd offset whence : UInt64) :
    FlagsKept (linuxLseek fs s fd offset whence).state.fds flags := by
  have hsame : FlagsKept s.fds flags := hs ▸ h
  unfold linuxLseek
  split
  · exact hsame
  next desc hd =>
    split
    · exact hsame
    · simp only
      split
      · exact hsame
      · split
        · exact hsame
        · exact flags_setOffset h hs hd _

theorem flags_close (hs : s.fds = fds) (fd : UInt64) : FlagsKept (linuxClose s fd).state.fds flags := by
  have hsame : FlagsKept s.fds flags := hs ▸ h
  unfold linuxClose klcsFdClose
  simp only
  split
  · exact hsame
  · intro j desc hj hk
    by_cases he : j = (toInt fd).toNat
    · rw [he] at hj
      change Function.update s.fds _ none _ = some desc at hj
      rw [Function.update_self] at hj
      cases hj
    · change Function.update s.fds _ none _ = some desc at hj
      rw [Function.update_of_ne he] at hj
      exact hsame j desc hj hk

theorem flags_open (hs : s.fds = fds) (path : Str) (f : UInt64) :
    FlagsKept (linuxFdOpenPath fs s path f).state.fds
      (if 0 ≤ (linuxFdOpenPath fs s path f).result then
        Function.update flags (linuxFdOpenPath fs s path f).result.toNat f else flags) := by
  have hrefuse : ∀ (s' : State V) (e : ℤ), 0 < e → s'.fds = fds → FlagsKept (refuse s' e).state.fds
      (if 0 ≤ (refuse s' e).result then Function.update flags (refuse s' e).result.toNat f
        else flags) := by
    intro s' e he hs'
    have hneg : (refuse s' e).result < 0 := Int.neg_neg_of_pos he
    rw [if_neg (Int.not_le.mpr hneg)]
    exact hs' ▸ h
  have halloc : ∀ (s' : State V) kind, kind ≠ .file → s'.fds = fds →
      FlagsKept (allocated (klcsFdAlloc s' kind path)).state.fds
        (if 0 ≤ (allocated (klcsFdAlloc s' kind path)).result then
          Function.update flags (allocated (klcsFdAlloc s' kind path)).result.toNat f else flags) := by
    intro s' kind hkind hs'
    unfold allocated klcsFdAlloc
    cases (List.range klcsLinuxFdMax).find? fun i => 3 ≤ i && (s'.fds i).isNone with
    | none => exact hrefuse s' emfile (by decide) hs'
    | some i =>
      simp only
      rw [if_pos (Int.natCast_nonneg i), Int.toNat_natCast, hs']
      exact flags_update h i _ f fun hk => absurd hk hkind
  have hopen : ∀ s' : State V, s'.fds = fds → FlagsKept (openFile fs s' path f).state.fds
      (if 0 ≤ (openFile fs s' path f).result then
        Function.update flags (openFile fs s' path f).result.toNat f else flags) := by
    intro s' hs'
    unfold openFile klcsFdAlloc
    cases (List.range klcsLinuxFdMax).find? fun i => 3 ≤ i && (s'.fds i).isNone with
    | none => exact hrefuse s' emfile (by decide) hs'
    | some i =>
      simp only
      rw [if_pos (Int.natCast_nonneg i), Int.toNat_natCast, hs']
      exact flags_update h i _ f fun _ => rfl
  unfold linuxFdOpenPath
  split
  · exact halloc s .devNull (by decide) hs
  · split
    · exact halloc s .devZero (by decide) hs
    · simp only
      split
      · exact hrefuse _ enoent (by decide) hs
      · split
        · split
          · exact hrefuse _ eisdir (by decide) hs
          · exact halloc _ .dir (by decide) hs
        · split
          · exact hopen _ hs
          · split
            · exact hopen _ hs
            · exact hrefuse _ eacces (by decide) hs

end Flags

theorem flags_step (fs : FileSystem V) {o : Opened V} (h : FlagsKept o.state.fds o.flags)
    (e : Memory × ModeCall) :
    FlagsKept (o.step fs e).state.fds (o.step fs e).flags := by
  obtain ⟨m, c⟩ := e
  cases c with
  | «open» path flags => exact flags_open h rfl path flags
  | transfer t => exact flags_transfer h rfl t
  | lseek fd offset whence => exact flags_lseek h rfl fd offset whence
  | close fd => exact flags_close h rfl fd

theorem flags_start (volume : V) : FlagsKept (Opened.start volume).state.fds
    (Opened.start volume).flags := by
  intro fd desc hd hk
  change standardFds fd = some desc at hd
  unfold standardFds at hd
  split at hd <;> cases hd <;> cases hk

theorem fdFlags_opened {o : Opened V} (h : FlagsKept o.state.fds o.flags) {fd : UInt64} {path : Str}
    (hf : fileOf o.state fd = some path) : fdFlags o.state fd = o.flags fd.toNat := by
  obtain ⟨desc, hd, hk⟩ := Option.bind_eq_some_iff.mp hf
  split at hk
  next hfile =>
    rw [fdFlags, hd]
    exact h _ desc (usedFd_some hd) hfile
  · cases hk

theorem writeChunks_idle {size : ℕ} {path : Str} {p offset : UInt64} {len : ℕ} (volume : V)
    (h : ¬ (0 < len ∧ (bufferPiece m size p len 0).isSome = true)) :
    (writeChunks fs m size path p offset len len 0 volume).volume = volume := by
  cases len with
  | zero => rfl
  | succ n =>
    have hpiece : bufferPiece m size p (n + 1) 0 = none := by
      by_contra hne
      exact h ⟨Nat.succ_pos n, Option.isSome_iff_ne_none.mpr hne⟩
    rw [bufferPiece, pieceLength, Nat.zero_mul] at hpiece
    unfold writeChunks
    rw [if_neg (by omega)]
    simp only [hpiece]

theorem readChunks_idle {path : Str} {p offset : UInt64} {len : ℕ}
    (h : ¬ (0 < len ∧ ∃ bytes, filePiece fs s path offset len 0 = some bytes ∧ bytes ≠ [] ∧
      m.write p bytes = true)) :
    (readChunks fs m s path p offset len len 0).returned = [] := by
  cases len with
  | zero => rfl
  | succ n =>
    unfold readChunks
    rw [if_neg (by omega)]
    have hpiece : fs.readFileRange s.volume path (offset + (0 : ℕ).toUInt64) (min (n + 1 - 0) 256) =
        filePiece fs s path offset (n + 1) 0 := by rw [filePiece, Nat.zero_mul, pieceLength, Nat.zero_mul]
    simp only [hpiece]
    split
    · rfl
    next bytes hb =>
      split
      · rfl
      next hne =>
        split
        · rfl
        next hw =>
          refine absurd ⟨Nat.succ_pos n, bytes, hb, hne, ?_⟩ h
          have hp : p + (0 : ℕ).toUInt64 = p := UInt64.add_zero p
          rw [hp] at hw
          simpa using hw

theorem changed_begins {t : Transfer} (h : (t.run fs m s).state.volume ≠ s.volume) :
    ∃ w, t.store s = some (t.fd, w) ∧ w.begins m := by
  cases t with
  | read fd p len => exact absurd read_unchanged h
  | pread fd p len offset => exact absurd pread_unchanged h
  | write fd p len =>
    change (linuxWriteUserBuffer fs m s fd p len).state.volume ≠ s.volume at h
    unfold linuxWriteUserBuffer at h
    split at h
    · exact absurd rfl h
    · simp only at h
      split at h
      next hfd =>
        split at h
        · exact absurd rfl h
        next desc hd =>
          split at h
          · exact absurd rfl h
          next hk =>
            have htarget : writeTarget s fd = some (desc.path, desc.offset) := by
              rw [writeTarget, if_pos hfd, hd, Option.bind_some, if_pos hk]
            refine ⟨_, congrArg (Option.map _) htarget, ?_⟩
            by_contra hidle
            exact h (writeChunks_idle s.volume hidle)
          · exact absurd rfl h
      · split at h
        · exact absurd rfl h
        · split at h <;> exact absurd rfl h
  | pwrite fd p len offset =>
    change (linuxFdPwrite fs m s fd p len offset).state.volume ≠ s.volume at h
    unfold linuxFdPwrite at h
    split at h
    · exact absurd rfl h
    · split at h
      · exact absurd rfl h
      next desc hd =>
        split at h
        · exact absurd rfl h
        next hk =>
          refine ⟨_, congrArg (Option.map _) (fileOf_some hd hk), ?_⟩
          by_contra hidle
          exact h (writeChunks_idle s.volume hidle)
        · exact absurd rfl h

theorem returned_fetches {t : Transfer} (h : (t.run fs m s).returned ≠ []) :
    ∃ p offset len, t.fetch s = some (t.fd, p, offset, len) ∧ Fetches fs m s t.fd p offset len := by
  cases t with
  | write fd p len => exact absurd write_returned h
  | pwrite fd p len offset => exact absurd pwrite_returned h
  | read fd p len =>
    change (linuxFdRead fs m s fd p len).returned ≠ [] at h
    unfold linuxFdRead at h
    split at h
    · exact absurd rfl h
    · split at h
      · exact absurd rfl h
      next desc hd =>
        split at h
        · exact absurd linuxStdinRead_state.2 h
        · exact absurd readZeros_state.2 h
        · exact absurd readZeros_state.2 h
        next hk =>
          refine ⟨p, desc.offset, len.toNat, by rw [Transfer.fetch, hd]; rfl, ?_⟩
          by_contra hidle
          refine h (readChunks_idle fun hfirst => hidle ?_)
          obtain ⟨hpos, bytes, hb, hne, hw⟩ := hfirst
          exact ⟨desc.path, bytes, fileOf_some hd hk, hpos, hb, hne, hw⟩
        · exact absurd rfl h
  | pread fd p len offset =>
    change (linuxFdPread fs m s fd p len offset).returned ≠ [] at h
    unfold linuxFdPread at h
    split at h
    · exact absurd rfl h
    · split at h
      · exact absurd rfl h
      next desc hd =>
        split at h
        · exact absurd readZeros_state.2 h
        · exact absurd readZeros_state.2 h
        next hk =>
          refine ⟨p, offset, len.toNat, rfl, ?_⟩
          by_contra hidle
          refine h (readChunks_idle fun hfirst => hidle ?_)
          obtain ⟨hpos, bytes, hb, hne, hw⟩ := hfirst
          exact ⟨desc.path, bytes, fileOf_some hd hk, hpos, hb, hne, hw⟩
        · exact absurd rfl h

theorem atEnd_from_first (hgrow : fs.Grows) (hexact : m.Exact) {size : ℕ} {path : Str}
    {p offset : UInt64} {len : ℕ}
    (h : 0 < len → (bufferPiece m size p len 0).isSome = true → sizeOf fs s.volume path = some offset) :
    AtEnd fs m s size path p offset len := by
  intro k
  induction k with
  | zero =>
    intro volume bytes hlt hk hb
    cases hk
    rw [h (by omega) (by rw [hb]; rfl), Nat.zero_mul]
    exact congrArg some (UInt64.add_zero offset).symm
  | succ k ih =>
    intro volume bytes hlt hk _
    rw [Nat.add_mul, Nat.one_mul] at hlt
    obtain ⟨before, hbefore, hstep⟩ := Option.bind_eq_some_iff.mp hk
    obtain ⟨piece, hpiece, hstored⟩ := Option.bind_eq_some_iff.mp hstep
    have hat := ih before piece (by omega) hbefore hpiece
    have hlength : piece.length = size := by
      rw [hexact _ _ _ hpiece, pieceLength]
      omega
    simp only at hstored
    split at hstored
    next hok =>
      cases hstored
      rw [hgrow _ _ _ _ hat hok, hlength, Option.some.injEq, UInt64.add_assoc, Nat.add_mul, Nat.one_mul]
      exact congrArg _ (UInt64.ofNat_add (k * size) size).symm
    · cases hstored

theorem store_file {t : Transfer} {fd : UInt64} {w : Store} (h : t.store s = some (fd, w)) :
    fd = t.fd ∧ fileOf s fd = some w.path := by
  cases t with
  | read fd p len => cases h
  | pread fd p len offset => cases h
  | write fd p len =>
    obtain ⟨target, htarget, hw⟩ := Option.map_eq_some_iff.mp h
    cases hw
    unfold writeTarget at htarget
    split at htarget
    · obtain ⟨desc, hd, hk⟩ := Option.bind_eq_some_iff.mp htarget
      split at hk
      next hfile =>
        cases hk
        exact ⟨rfl, fileOf_some hd hfile⟩
      · cases hk
    · cases htarget
  | pwrite fd p len offset =>
    obtain ⟨path, hpath, hw⟩ := Option.map_eq_some_iff.mp h
    cases hw
    exact ⟨rfl, hpath⟩

theorem modes_step (hgrow : fs.Grows) {o : Opened V} (hflags : FlagsKept o.state.fds o.flags)
    {e : Memory × ModeCall} (hexact : e.1.Exact) (h : Guarded fs o.state e) :
    ModesObeyed fs o e.1 e.2 := by
  obtain ⟨m, c⟩ := e
  constructor
  · rintro t rfl hchanged
    obtain ⟨w, hw, hbegins⟩ := changed_begins hchanged
    rw [← fdFlags_opened hflags (store_file hw).2]
    exact (h.1 _ w hw hbegins).1
  · rintro t rfl hreturned
    obtain ⟨p, offset, len, hfetch, path, hf⟩ := returned_fetches hreturned
    rw [← fdFlags_opened hflags hf.choose_spec.1]
    exact h.2 _ p offset len hfetch ⟨path, hf⟩
  · rintro path flags rfl htrunc hmode hsome
    refine open_unchanged ?_
    rw [openChanges]
    rcases h htrunc with hnull | hzero | hdir | hwrite
    · exact if_pos (.inl hnull)
    · exact if_pos (.inr hzero)
    · obtain ⟨st, hst⟩ := Option.isSome_iff_exists.mp hsome
      split
      · rfl
      · rw [hst]
        exact if_pos (.inl (hdir st hst))
    · rw [hmode] at hwrite
      cases hwrite
  · rintro t fd w rfl hw happend
    obtain ⟨-, hfile⟩ := store_file hw
    refine atEnd_from_first hgrow hexact fun hpos hpiece => ?_
    rw [← fdFlags_opened hflags hfile] at happend
    exact (h.1 fd w hw ⟨hpos, hpiece⟩).2 happend

/-- The modes are obeyed throughout a run in which each call meets its guard. -/
theorem open_modes_obeyed (fs : FileSystem V) (hgrow : fs.Grows) (volume : V)
    (events : List (Memory × ModeCall)) (hexact : ∀ e ∈ events, e.1.Exact)
    (hguard : ∀ n e, events[n]? = some e →
      Guarded fs ((events.take n).foldl (Opened.step fs) (.start volume)).state e) :
    ∀ n e, events[n]? = some e →
      ModesObeyed fs ((events.take n).foldl (Opened.step fs) (.start volume)) e.1 e.2 := by
  intro n e he
  have hflags := RunPrefixes.invariant_of_guarded (n := n)
    (I := fun o : Opened V => FlagsKept o.state.fds o.flags) (G := fun _ _ => True)
    (flags_start volume) (fun o e h _ => flags_step fs h e)
    fun m _ e (_ : events[m]? = some e) => trivial
  exact modes_step hgrow hflags (hexact e (List.mem_of_getElem? he)) (hguard n e he)

def rangeFile : FileSystem Str :=
  { oneFile 0o644 with
    writeFileRange := fun v path offset bytes =>
      if path = filePath ∧ v.length ≤ 4096 ∧ offset.toNat + bytes.length ≤ 4096 then
        (true, v.take offset.toNat ++ bytes ++ v.drop (offset.toNat + bytes.length))
      else (false, v) }

theorem rangeFile_grows : rangeFile.Grows := by
  intro volume path offset bytes hsize hok
  simp only [rangeFile] at hok ⊢
  split at hok
  next h =>
    obtain ⟨rfl, hlength, hfits⟩ := h
    have hstat : ∀ v : Str, sizeOf rangeFile v filePath = some v.length.toUInt64 := fun _ => rfl
    have hoffset : offset = volume.length.toUInt64 :=
      (Option.some.inj ((hstat volume).symm.trans hsize)).symm
    have hnat : offset.toNat = volume.length := by
      rw [hoffset]
      exact UInt64.toNat_ofNat_of_lt' (show volume.length < 2 ^ 64 by omega)
    rw [if_pos ⟨rfl, hlength, hfits⟩]
    refine (hstat _).trans (congrArg some ?_)
    have hall : (volume.take offset.toNat ++ bytes ++ volume.drop (offset.toNat + bytes.length)).length =
        volume.length + bytes.length := by
      simp only [List.length_append, List.length_take, List.length_drop]
      omega
    rw [hall, hoffset]
    exact UInt64.ofNat_add ..
  · cases hok

def sevenMemory : Memory where
  read _ n := some (List.replicate n 7)
  write _ _ := true
  typed := 0

theorem sevenMemory_exact : sevenMemory.Exact := by
  rintro p n bytes h
  cases h
  exact List.length_replicate

/-- An `open` with these flags, and a `write` of one byte. -/
def openAndWrite (flags : UInt64) : List (Memory × ModeCall) :=
  [(sevenMemory, .open filePath flags), (sevenMemory, .transfer (.write 3 1 1))]

theorem openAndWrite_exact (flags : UInt64) : ∀ e ∈ openAndWrite flags, e.1.Exact := by
  intro e he
  simp only [openAndWrite, List.mem_cons, List.not_mem_nil, or_false] at he
  rcases he with rfl | rfl <;> exact sevenMemory_exact

theorem written_mode_obeyed : ModesObeyed rangeFile
    (((openAndWrite 2).take 1).foldl (Opened.step rangeFile) (.start [120])) sevenMemory
      (.transfer (.write 3 1 1)) := by
  refine open_modes_obeyed rangeFile rangeFile_grows [120] (openAndWrite 2) (openAndWrite_exact 2) ?_
    1 (sevenMemory, .transfer (.write 3 1 1)) rfl
  intro n e he
  rcases n with _ | _ | n
  · cases he
    exact fun h => absurd h (by decide)
  · cases he
    refine ⟨fun fd w hw _ => ?_, fun fd p offset len h => nomatch h⟩
    cases (store_file hw).1
    exact ⟨by decide +kernel, fun h => absurd h (by decide +kernel)⟩
  · cases he

/-- A `write` through a descriptor that was opened with `O_RDONLY` changes the file. -/
theorem read_only_written : ¬ ∀ (V : Type) (fs : FileSystem V) (volume : V)
    (events : List (Memory × ModeCall)), fs.Grows → (∀ e ∈ events, e.1.Exact) →
    ∀ n e, events[n]? = some e →
      ModesObeyed fs ((events.take n).foldl (Opened.step fs) (.start volume)) e.1 e.2 := by
  intro h
  have hlaw := h Str rangeFile [120] (openAndWrite 0) rangeFile_grows (openAndWrite_exact 0) 1 _ rfl
  have hmode := hlaw.writes _ rfl (by decide +kernel)
  revert hmode
  decide +kernel

end Klcs
