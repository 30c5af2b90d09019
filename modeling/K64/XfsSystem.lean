import K64.XfsChecking
import K64.XfsFormatting
import K64.XfsListing
import K64.XfsResolving

/-! # Runs of public calls

A system is the mount structure, the cache and the device. Its runs are sequences of public calls;
each is followed by a step of the typed volume, which may also be an unmounted one. -/
namespace XfsSystem

open IoProgram XfsFormat XfsCache XfsJournal XfsInode XfsCalls XfsDirectory XfsOperations
  XfsLogicalDisk XfsVolume XfsVolumeRefinement XfsVolumeLifecycle XfsConsistency XfsLookup
  XfsDirectoryUpdate XfsOperationEffects XfsUnlinkEffects XfsMounting XfsChecking XfsListing

structure System where
  fs : Xfs
  machine : Machine

/-- A block is a whole number of sectors, which `k64_xfs_mount` checks. -/
abbrev WholeSectors (dev : Geometry) : Prop :=
  (dev.blockSize != 0 && 4096 % dev.blockSize.toNat == 0) = true

/-- Runs a procedure on the machine: its answer and the system afterwards. -/
def System.call {α : Type} (s : System) (f : XfsM α) : Option α × System :=
  let r := f.exec XfsJournal.machine s.fs s.machine
  (r.1, ⟨r.2.1, r.2.2⟩)

inductive PublicCall where
  | operation (op : Operation)
  | stat (path : CString)
  | listDir (path : CString) (outSize : ℤ)
  | readFile (path : CString) (max : ℕ)
  | check
  | sync
  | unmount
  | mount

def PublicCall.proc (dev : Geometry) : PublicCall → XfsM Unit
  | .operation op => lowered op.call
  | .stat path => do
    let _ ← lowered (k64XfsStat path)
  | .listDir path outSize => do
    let _ ← lowered (k64XfsListDir path outSize)
  | .readFile path max => do
    let _ ← lowered (k64XfsReadFile path max)
  | .check => do
    let _ ← k64XfsCheck
  | .sync => k64XfsSync
  | .unmount => k64XfsUnmount
  | .mount => k64XfsMount dev

/-- A sequence of calls with their results. Mounting is for a volume that is not mounted. -/
inductive Run (dev : Geometry) : System → List (PublicCall × Bool) → System → Prop where
  | nil (s : System) : Run dev s [] s
  | cons {s t : System} {call : PublicCall} {rest : List (PublicCall × Bool)}
      (proper : call = .mount → s.fs.mounted = false)
      (tail : Run dev (s.call (call.proc dev)).2 rest t) :
      Run dev s ((call, (s.call (call.proc dev)).1.isSome) :: rest) t

/-- The system holds the volume `V` of `total` blocks. -/
def Holds (total : ℕ) (s : System) (V : Volume) : Prop :=
  ∃ d, d.size = total ∧ Represents journalArea s.machine d ∧ Shows s.fs d V ∧
    (V.mounted = false → Settled mountClean s.fs d)

/-- A volume that is not mounted answers the two calls that look whether it is. -/
def idle (fs : Xfs) : Handler Call Ans Unit
  | .info, _ => (⟨false, fs.super.rootInode, fs.super.generation⟩, ())
  | .setTmp _, _ => ((), ())
  | .readInode _, _ => (none, ())
  | .writeInode _, _ => (false, ())
  | .allocInode, _ => (none, ())
  | .freeInode _, _ => (false, ())
  | .allocExtent _, _ => (none, ())
  | .freeExtent _ _, _ => (false, ())
  | .readDataBlock _ _, _ => (none, ())
  | .writeDataBlock _ _ _, _ => (false, ())
  | .blockWrite _ _, _ => (false, ())
  | .journalBegin, _ => (false, ())
  | .journalCommit, _ => (false, ())
  | .writeSuper, _ => (false, ())

def idleGuard : Call → Unit → Prop
  | .info, _ => True
  | .journalBegin, _ => True
  | _, _ => False

theorem implementation_idle {σ : Type} {h : Handler Req Resp σ} {C : Req → σ → Prop} {fs : Xfs}
    {d : σ} (hm : fs.mounted = false) (q : Call) : Proc.Implements h C (idle fs) idleGuard
      (fun fs' d' _ => fs' = fs ∧ d' = d) q (implementation q) := by
  rintro fs' d' _ ⟨rfl, rfl⟩ hq
  cases q with
  | info => simp [implementation, idle, hm]
  | journalBegin => simp [implementation, idle, k64XfsJournalBegin, hm]
  | _ => exact hq.elim

theorem lowered_idle {α σ : Type} {h : Handler Req Resp σ} {C : Req → σ → Prop} {f : XfsV α}
    {fs : Xfs} {d : σ} (hm : fs.mounted = false)
    (hw : Proc.wp (idle fs) idleGuard f (fun r _ _ => r = none) () ()) :
    Proc.wp h C (lowered f) (fun r fs' d' => r = none ∧ fs' = fs ∧ d' = d) fs d := by
  refine Proc.wp_mono (Proc.wp_lower (t := ()) (implementation_idle hm) ⟨rfl, rfl⟩ hw) ?_
  rintro r fs' d' ⟨_, ⟨rfl, rfl⟩, rfl⟩
  exact ⟨rfl, rfl, rfl⟩

section Idle

variable {fs : Xfs} {α β : Type}

theorem idle_resolve (path : List UInt8) {g : UInt32 × Inode → XfsV β} :
    Proc.wp (idle fs) idleGuard (xfsResolve path >>= g) (fun r _ _ => r = none) () () := by
  simp [xfsResolve, info, idle, idleGuard]

theorem idle_begin {g : Unit → XfsV β} :
    Proc.wp (idle fs) idleGuard (journalBegin >>= g) (fun r _ _ => r = none) () () := by
  simp [journalBegin, idle, idleGuard]

theorem idle_orFail {o : Option α} {g : α → XfsV β}
    (hg : ∀ a, Proc.wp (idle fs) idleGuard (g a) (fun r _ _ => r = none) () ()) :
    Proc.wp (idle fs) idleGuard (Proc.orFail o >>= g) (fun r _ _ => r = none) () () := by
  rw [Proc.wp_bind, Proc.wp_orFail]
  cases o with
  | none => rfl
  | some a => exact hg a

variable (path : CString)

theorem idle_write (data : List UInt8) (uid gid : UInt32) :
    Proc.wp (idle fs) idleGuard (k64XfsWriteFile path data uid gid) (fun r _ _ => r = none) ()
      () := by
  simp [k64XfsWriteFile, writeTarget, k64XfsCreate, xfsResolve, info, journalBegin, idle, idleGuard]

theorem idle_operation (op : Operation) :
    Proc.wp (idle fs) idleGuard op.call (fun r _ _ => r = none) () () := by
  cases op with
  | mkdir path mode uid gid => exact idle_begin
  | create path mode uid gid => exact idle_begin
  | writeFile path data uid gid => exact idle_write path data.bytes uid gid
  | truncate path newSize => exact idle_resolve _
  | remove path => exact idle_orFail fun _ => idle_resolve _
  | rmdir path => exact idle_orFail fun _ => idle_resolve _
  | rename oldPath newPath => exact idle_orFail fun _ => idle_orFail fun _ => idle_resolve _
  | chmod path mode => exact idle_resolve _
  | chown path uid gid => exact idle_resolve _

theorem idle_stat :
    Proc.wp (idle fs) idleGuard (k64XfsStat path) (fun r _ _ => r = none) () () := idle_resolve _

theorem idle_readFile (max : ℕ) :
    Proc.wp (idle fs) idleGuard (k64XfsReadFile path max) (fun r _ _ => r = none) () () :=
  idle_resolve _

theorem idle_listDir (outSize : ℤ) :
    Proc.wp (idle fs) idleGuard (k64XfsListDir path outSize) (fun r _ _ => r = none) () () := by
  rw [k64XfsListDir, Proc.wp_bind, Proc.wp_guard]
  by_cases ho : decide (0 < outSize) = true
  · rw [if_pos ho]
    exact idle_resolve _
  · rw [if_neg ho]
    rfl

end Idle

variable {total : ℕ} {s : System} {V : Volume} {dev : Geometry}

/-- What `k64_xfs_stat` reports. -/
def fileStat (c : Content) (path : CString) : Option FsStat :=
  (resolve c (orRoot path)).map fun (_, inode) => {
    isDir := inode.type == typeDirectory
    size := inode.size
    mode := inode.mode.toUInt32
    uid := inode.uid
    gid := inode.gid
    createdTick := inode.createdTick
    modifiedTick := inode.modifiedTick
    generation := inode.generation
    path := xfsCopy 256 (orRoot path) }

theorem wp_stat (hc : Allocated V.content) (hm : V.mounted = true) {path : CString}
    {P : Option FsStat → Unit → Volume → Prop} :
    Proc.wp volume volumeGuard (k64XfsStat path) P () V ↔ P (fileStat V.content path) () V := by
  rw [k64XfsStat, Proc.wp_bind, wp_resolve hc hm, fileStat]
  cases resolve V.content (orRoot path) with
  | none => rfl
  | some target => rfl

def PublicCall.Shown (V : Volume) (ok : Bool) (V' : Volume) : PublicCall → Prop
  | .operation op => if V.mounted then
      ∃ r, ok = r.isSome ∧ (op.effect V.content V.generation).Shown V r V' else ok = false ∧ V' = V
  | .stat path => ok = (V.mounted && (fileStat V.content path).isSome) ∧ V' = V
  | .listDir path outSize => ok = (V.mounted && (dirListing V.content path outSize).isSome) ∧ V' = V
  | .readFile path max => ok = (V.mounted && (fileBytes V.content path.bytes max).isSome) ∧ V' = V
  | .check => ok = true ∧ V' = V
  | .sync => ok = V.mounted ∧ V' = if V.mounted then logged 1 V V.content else V
  | .unmount => ok = V.mounted ∧ V' = if V.mounted then unmounted (logged 1 V V.content) else V
  | .mount => ok = true ∧ V' = mountedVolume V.content V.generation

/-- An operation on the mounted volume, or a call that leaves the content as it is. -/
theorem PublicCall.Shown.cases {call : PublicCall} {ok : Bool} {V V' : Volume}
    (h : call.Shown V ok V') :
    (∃ op r, call = .operation op ∧ V.mounted = true ∧ ok = r.isSome ∧
      (op.effect V.content V.generation).Shown V r V') ∨
    V'.content = V.content ∧ V'.generation = V.generation ∧
      (V.journalActive = false → V'.journalActive = false) ∧ (ok = false → V' = V) := by
  cases call with
  | operation op =>
    rw [PublicCall.Shown] at h
    split at h
    case isTrue hm =>
      obtain ⟨r, hr, hshown⟩ := h
      exact .inl ⟨op, r, rfl, hm, hr, hshown⟩
    case isFalse =>
      obtain ⟨-, rfl⟩ := h
      exact .inr ⟨rfl, rfl, id, fun _ => rfl⟩
  | stat path => obtain ⟨-, rfl⟩ := h; exact .inr ⟨rfl, rfl, id, fun _ => rfl⟩
  | listDir path outSize => obtain ⟨-, rfl⟩ := h; exact .inr ⟨rfl, rfl, id, fun _ => rfl⟩
  | readFile path max => obtain ⟨-, rfl⟩ := h; exact .inr ⟨rfl, rfl, id, fun _ => rfl⟩
  | check => obtain ⟨-, rfl⟩ := h; exact .inr ⟨rfl, rfl, id, fun _ => rfl⟩
  | sync =>
    obtain ⟨rfl, rfl⟩ := h
    split
    · exact .inr ⟨rfl, rfl, id, fun hm => absurd (‹_ = true›.symm.trans hm) nofun⟩
    · exact .inr ⟨rfl, rfl, id, fun _ => rfl⟩
  | unmount =>
    obtain ⟨rfl, rfl⟩ := h
    split
    · exact .inr ⟨rfl, rfl, id, fun hm => absurd (‹_ = true›.symm.trans hm) nofun⟩
    · exact .inr ⟨rfl, rfl, id, fun _ => rfl⟩
  | mount => obtain ⟨rfl, rfl⟩ := h; exact .inr ⟨rfl, rfl, fun _ => rfl, nofun⟩

theorem call_of_wp {α : Type} {f : XfsM α} {P : Option α → Xfs → Disk → Prop} {d : Disk}
    (hr : Represents journalArea s.machine d) (hw : dwp f P s.fs d) :
    ∃ d', d'.size = d.size ∧ Represents journalArea (s.call f).2.machine d' ∧
      P (s.call f).1 (s.call f).2.fs d' := by
  have hsize : dwp f (fun r fs' d' => P r fs' d' ∧ d'.size = d.size) s.fs d := by
    refine Prog.wp_keeps (I := fun d' => d'.size = d.size) ?_ _ rfl hw
    intro q d' h
    cases q <;> exact h
  obtain ⟨d', hr', hp, hs⟩ := exec_of_wp hr hsize
  exact ⟨d', hs, hr', hp⟩

theorem mounted_kept (q : Call) {V : Volume} (h : V.mounted = true) :
    (volume q V).2.mounted = true := by
  have hmeta : ∀ (W : Volume) (c : Content), W.mounted = true → (W.metadata c).2.mounted = true := by
    intro W c hW
    unfold Volume.metadata
    split_ifs <;> exact hW
  cases q <;> simp only [volume] <;> (repeat' split) <;> first | exact h | exact hmeta _ _ h

def Followed (dev : Geometry) (call : PublicCall) (V : Volume) (fs : Xfs) (d : Disk) : Prop :=
  dwp (call.proc dev) (fun r fs' d' => ∃ V', Shows fs' d' V' ∧
    (V'.mounted = false → Settled mountClean fs' d') ∧ call.Shown V r.isSome V') fs d

section Followed

variable {fs : Xfs} {d : Disk}

theorem followed {call : PublicCall} {Q : Option Unit → Xfs → Disk → Prop}
    (hw : dwp (call.proc dev) Q fs d) (h : ∀ r fs' d', Q r fs' d' → ∃ V', Shows fs' d' V' ∧
      (V'.mounted = false → Settled mountClean fs' d') ∧ call.Shown V r.isSome V') :
    Followed dev call V fs d :=
  Proc.wp_mono hw h

theorem operation_followed (hs : Shows fs d V) (hc : Consistent V.content) (hr : Room 12 V)
    (op : Operation) : Followed dev (.operation op) V fs d := by
  have hkeep : vwp op.call (fun r V' => (op.effect V.content V.generation).Shown V r V' ∧
      V'.mounted = true) V := by
    refine Prog.wp_keeps (I := fun V' => V'.mounted = true) ?_ _ hr.mounted
      (operation_effect hc hr op)
    intro q V' h
    exact mounted_kept q h
  refine followed (lowered_of_wp hs hkeep) ?_
  rintro r fs' d' ⟨V', hs', hshown, hm⟩
  have hne : V'.mounted = false → Settled mountClean fs' d' := by
    intro h
    rw [hm] at h
    cases h
  refine ⟨V', hs', hne, ?_⟩
  rw [PublicCall.Shown, if_pos hr.mounted]
  exact ⟨r, rfl, hshown⟩

theorem read_followed {α : Type} {f : XfsV α} {o : Option α} (hs : Shows fs d V)
    (hm : V.mounted = true) (hw : ∀ P, P o () V → Proc.wp volume volumeGuard f P () V) :
    dwp (do let _ ← lowered f) (fun r fs' d' => Shows fs' d' V ∧ r.isSome = o.isSome ∧
      (V.mounted = false → Settled mountClean fs' d')) fs d := by
  rw [dwp, Proc.wp_bind]
  refine Proc.wp_mono (lowered_of_wp (P := fun r V' => r = o ∧ V' = V) hs (hw _ ⟨rfl, rfl⟩)) ?_
  rintro r fs' d' ⟨V', hs', rfl, rfl⟩
  cases r with
  | none => exact ⟨hs', rfl, fun h => by rw [hm] at h; cases h⟩
  | some a => exact ⟨hs', rfl, fun h => by rw [hm] at h; cases h⟩

theorem resolve_fits (hc : Consistent V.content) {path : List UInt8} (h0 : (0 : UInt8) ∉ path)
    {id : UInt32} {inode : Inode} (hres : resolve V.content path = some (id, inode)) :
    Inode.Fits V.content.total inode := by
  obtain ⟨hu, rfl, -, -⟩ := resolve_used hc h0 hres
  exact hc.fits _ hu.pos hu.le

theorem noNul_orRoot (path : CString) : (0 : UInt8) ∉ orRoot path := by
  unfold orRoot
  split
  · decide
  · exact path.noNul

theorem mounted_followed (hs : Shows fs d V) (hc : Consistent V.content) (hr : Room 12 V)
    (call : PublicCall) (hmount : call ≠ .mount) : Followed dev call V fs d := by
  have hm := hr.mounted
  have hne : V.mounted = false → False := fun h => by rw [hm] at h; cases h
  cases call with
  | operation op => exact operation_followed hs hc hr op
  | stat path =>
    refine followed (read_followed hs hm fun P => (wp_stat hc.toAllocated hm).mpr) ?_
    exact fun r fs' d' h => ⟨V, h.1, h.2.2, by rw [h.2.1, hm]; rfl, rfl⟩
  | listDir path outSize =>
    refine followed (read_followed hs hm fun P => (wp_listDir hc.toAllocated hm
      fun id inode => resolve_fits hc (noNul_orRoot path)).mpr) ?_
    exact fun r fs' d' h => ⟨V, h.1, h.2.2, by rw [h.2.1, hm]; rfl, rfl⟩
  | readFile path max =>
    refine followed (read_followed hs hm fun P => (wp_readFile hc hm max).mpr) ?_
    exact fun r fs' d' h => ⟨V, h.1, h.2.2, by rw [h.2.1, hm]; rfl, rfl⟩
  | check =>
    rw [Followed, dwp, PublicCall.proc, Proc.wp_bind]
    refine Proc.wp_mono (check_disk hc hs hm) ?_
    rintro r fs' d' ⟨hs', rfl⟩
    exact ⟨V, hs', fun h => (hne h).elim, rfl, rfl⟩
  | sync =>
    refine followed (sync_disk hs (hr.mono (by decide))) ?_
    rintro r fs' d' ⟨rfl, hs', -⟩
    exact ⟨_, hs', fun h => (hne h).elim, hm.symm, by rw [if_pos hm]⟩
  | unmount =>
    refine followed (unmount_disk hs (hr.mono (by decide))) ?_
    rintro r fs' d' ⟨rfl, hs', hset⟩
    exact ⟨_, hs', fun _ => hset, hm.symm, by rw [if_pos hm]⟩
  | mount => exact absurd rfl hmount

theorem unmounted_followed (hs : Shows fs d V) (hset : Settled mountClean fs d)
    (hm : V.mounted = false) (hsector : WholeSectors dev)
    (ht : V.content.total ≤ xfsFsBlocks dev) (call : PublicCall) : Followed dev call V fs d := by
  have hfs : fs.mounted = false := hs.mounted.trans hm
  have hidle : ∀ {α : Type} {f : XfsV α},
      Proc.wp (idle fs) idleGuard f (fun r _ _ => r = none) () () →
      dwp (do let _ ← lowered f) (fun r fs' d' => r.isSome = false ∧ fs' = fs ∧ d' = d) fs d := by
    intro α f hw
    rw [dwp, Proc.wp_bind]
    refine Proc.wp_mono (lowered_idle hfs hw) ?_
    rintro r fs' d' ⟨rfl, rfl, rfl⟩
    exact ⟨rfl, rfl, rfl⟩
  have hread : ∀ {r : Option Unit} {fs' : Xfs} {d' : Disk} {b : Bool},
      r.isSome = false ∧ fs' = fs ∧ d' = d → ∃ V', Shows fs' d' V' ∧
        (V'.mounted = false → Settled mountClean fs' d') ∧ r.isSome = (V.mounted && b) ∧ V' = V := by
    rintro r fs' d' b ⟨h, rfl, rfl⟩
    exact ⟨V, hs, fun _ => hset, by rw [h, hm]; rfl, rfl⟩
  cases call with
  | operation op =>
    refine followed (lowered_idle hfs (idle_operation op)) ?_
    rintro r fs' d' ⟨rfl, rfl, rfl⟩
    refine ⟨V, hs, fun _ => hset, ?_⟩
    rw [PublicCall.Shown, if_neg (by rw [hm]; decide)]
    exact ⟨rfl, rfl⟩
  | stat path => exact followed (hidle (idle_stat path)) fun _ _ _ => hread
  | listDir path outSize => exact followed (hidle (idle_listDir path outSize)) fun _ _ _ => hread
  | readFile path max => exact followed (hidle (idle_readFile path max)) fun _ _ _ => hread
  | check =>
    rw [Followed, dwp, PublicCall.proc, Proc.wp_bind]
    refine Proc.wp_mono (check_unmounted hfs) ?_
    rintro r fs' d' ⟨rfl, rfl, rfl⟩
    exact ⟨V, hs, fun _ => hset, rfl, rfl⟩
  | sync =>
    refine followed (sync_unmounted hfs) ?_
    rintro r fs' d' ⟨rfl, rfl, rfl⟩
    exact ⟨V, hs, fun _ => hset, hm.symm, by rw [if_neg (by rw [hm]; decide)]⟩
  | unmount =>
    refine followed (unmount_unmounted hfs) ?_
    rintro r fs' d' ⟨rfl, rfl, rfl⟩
    exact ⟨V, hs, fun _ => hset, hm.symm, by rw [if_neg (by rw [hm]; decide)]⟩
  | mount =>
    have hclean : CleanDisk dev d fs.super V.content :=
      ⟨hsector, ht, hset.flushed, hset.super, hset.state, hs.layout, hs.stores, hs.total, hs.free⟩
    refine followed (mount_disk hclean fs) ?_
    rintro r fs' d' ⟨rfl, hs', -, -⟩
    rw [hs.generation] at hs'
    exact ⟨_, hs', by rintro ⟨⟩, rfl, rfl⟩

end Followed

/-- The step lemma: a call on a consistent volume, mounted or not. -/
theorem call_shown (h : Holds total s V) (hc : Consistent V.content)
    (hr : V.mounted = true → Room 12 V) {a : PublicCall}
    (hp : a = .mount → s.fs.mounted = false)
    (hsector : WholeSectors dev)
    (ht : total ≤ xfsFsBlocks dev) :
    ∃ V', Holds total (s.call (a.proc dev)).2 V' ∧
      a.Shown V (s.call (a.proc dev)).1.isSome V' := by
  obtain ⟨d, hd, hrep, hs, hset⟩ := h
  have hfollow : Followed dev a V s.fs d := by
    by_cases hm : V.mounted = true
    · refine mounted_followed hs hc (hr hm) a fun hcall => ?_
      have hfs := hs.mounted
      rw [hp hcall, hm] at hfs
      cases hfs
    · rw [Bool.not_eq_true] at hm
      exact unmounted_followed hs (hset hm) hm hsector (hs.stores.size_eq ▸ hd ▸ ht) a
  rw [Followed] at hfollow
  obtain ⟨d', hsize, hrep', V', hs', hset', hshown⟩ := call_of_wp hrep hfollow
  exact ⟨V', ⟨d', hsize.trans hd, hrep', hs', hset'⟩, hshown⟩

end XfsSystem
