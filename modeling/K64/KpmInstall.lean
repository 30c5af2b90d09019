import K64.KpmPackage
import Mathlib.Data.List.TakeDrop

/-! # Installing packages

`k64_kpm_install_package_bytes` over a filesystem whose operations take full effect or none. Each
call site of the source has its own outcome, so that any of its steps may fail. -/
namespace KpmInstall

open ByteCodec XfsDirectory FsPaths NetState KpmPackage

abbrev Path := List UInt8

inductive Node where
  | file (bytes : List UInt8)
  | dir
  deriving DecidableEq

/-- A filesystem, by normalised paths. -/
abbrev Fs := Path → Option Node

def isFile : Option Node → Bool
  | some (.file _) => true
  | _ => false

/-- The calls of the filesystem in `k64_kpm_install_package_bytes`, in their order. -/
inductive Site where
  | mkdir (i : ℕ)
  | cleanTemp
  | cleanBackup
  | writeTemp
  | statFinal
  | copyOld
  | dropTempUncopied
  | removeOld
  | dropTempUnremoved
  | dropBackupUnremoved
  | moveNew
  | restoreOld
  | dropTempUnmoved
  | dropBackupUnmoved
  | dropBackup
  | readDb
  | writeDb
  | sync
  deriving DecidableEq

/-- Which calls the filesystem carries out, and the directory that relative paths start from. -/
structure Env where
  ok : Site → Bool
  cwd : Path

def onPath {α : Type} (e : Env) (path : Path) (refused : α) (f : Path → α) : α :=
  match fsNormalize e.cwd path 256 with
  | none => refused
  | some p => f p

def fsMkdir (e : Env) (site : Site) (path : Path) (fs : Fs) : Bool × Fs :=
  onPath e path (false, fs) fun p =>
    if e.ok site && (fs p).isNone then (true, Function.update fs p (some .dir)) else (false, fs)

def fsRemove (e : Env) (site : Site) (path : Path) (fs : Fs) : Bool × Fs :=
  onPath e path (false, fs) fun p =>
    if e.ok site && isFile (fs p) then (true, Function.update fs p none) else (false, fs)

def fsWriteFileRaw (e : Env) (site : Site) (path : Path) (bytes : List UInt8) (fs : Fs) :
    Bool × Fs :=
  onPath e path (false, fs) fun p =>
    if e.ok site && fs p != some .dir then (true, Function.update fs p (some (.file bytes)))
    else (false, fs)

/-- `k64_fs_stat`, asked for a file. -/
def fsStatFile (e : Env) (site : Site) (path : Path) (fs : Fs) : Bool :=
  onPath e path false fun p => e.ok site && isFile (fs p)

def fsCopyFile (e : Env) (site : Site) (src dst : Path) (fs : Fs) : Bool × Fs :=
  onPath e src (false, fs) fun s => onPath e dst (false, fs) fun d =>
    if e.ok site && isFile (fs s) && fs d != some .dir then (true, Function.update fs d (fs s))
    else (false, fs)

/-- `k64_fs_move` of a file, which does not replace anything. -/
def fsMove (e : Env) (site : Site) (src dst : Path) (fs : Fs) : Bool × Fs :=
  onPath e src (false, fs) fun s => onPath e dst (false, fs) fun d =>
    if e.ok site && isFile (fs s) && (fs d).isNone then
      (true, Function.update (Function.update fs d (fs s)) s none)
    else (false, fs)

/-- `k64_fs_cat` into a buffer of `size` bytes, read as a string. -/
def fsCat (e : Env) (site : Site) (path : Path) (size : ℕ) (fs : Fs) : Option (List UInt8) :=
  onPath e path none fun p =>
    match fs p with
    | some (.file bytes) => if e.ok site then some (cstr (bytes.take (size - 1))) else none
    | _ => none

def backupPath : Path := ascii "/tmp/kpm/backup.bin"

def installedPath : Path := ascii "/var/lib/kpm/installed.db"

def kpmDirs : List Path :=
  [ascii "/etc", ascii "/etc/kpm", ascii "/var", ascii "/var/lib", ascii "/var/lib/kpm",
    ascii "/tmp", ascii "/tmp/kpm", ascii "/ex", ascii "/k64s", ascii "/k64m"]

def kpmEnsureDirs (e : Env) (fs : Fs) : Fs :=
  kpmDirs.zipIdx.foldl (fun fs d => (fsMkdir e (.mkdir d.2) d.1 fs).2) fs

/-- The line of a package in the database. -/
def recordPieces (hdr : KpmPackageHeader) (path : Path) (sourceName : Option (List UInt8)) :
    List (List UInt8) :=
  [cstr hdr.packageName.toList, ascii " ", cstr hdr.packageVersion.toList, ascii " ",
    kpmKindName hdr.kind, ascii " ", path, ascii " ", sourceName.getD (ascii "unknown"),
    ascii "\n"]

/-- The text of the database, empty when it cannot be read. -/
def installedText (e : Env) (fs : Fs) : List UInt8 :=
  (fsCat e .readDb installedPath 8192 fs).getD []

def updatedText (e : Env) (hdr : KpmPackageHeader) (path : Path)
    (sourceName : Option (List UInt8)) (fs : Fs) : List UInt8 :=
  (recordPieces hdr path sourceName).foldl (kpmAppend 8192) (installedText e fs)

def kpmUpdateInstalledDb (e : Env) (hdr : KpmPackageHeader) (path : Path)
    (sourceName : Option (List UInt8)) (fs : Fs) : Bool × Fs :=
  fsWriteFileRaw e .writeDb installedPath (updatedText e hdr path sourceName fs) fs

/-- What follows once the new file is in place. -/
def finishInstall (e : Env) (hdr : KpmPackageHeader) (sourceName : Option (List UInt8)) (fs : Fs) :
    Bool × Fs :=
  let fs := (fsRemove e .dropBackup backupPath fs).2
  let (updated, fs) := kpmUpdateInstalledDb e hdr (finalPath hdr) sourceName fs
  if !updated then (false, fs) else (e.ok .sync, fs)

def moveIntoPlace (e : Env) (hdr : KpmPackageHeader) (sourceName : Option (List UInt8))
    (hadOld : Bool) (fs : Fs) : Bool × Fs :=
  let (moved, fs) := fsMove e .moveNew (tempPath hdr) (finalPath hdr) fs
  if !moved then
    let fs := if hadOld then (fsCopyFile e .restoreOld backupPath (finalPath hdr) fs).2 else fs
    let fs := (fsRemove e .dropTempUnmoved (tempPath hdr) fs).2
    (false, (fsRemove e .dropBackupUnmoved backupPath fs).2)
  else finishInstall e hdr sourceName fs

/-- What follows once the payload is in the temporary file. -/
def replaceFinal (e : Env) (hdr : KpmPackageHeader) (sourceName : Option (List UInt8)) (fs : Fs) :
    Bool × Fs :=
  if !fsStatFile e .statFinal (finalPath hdr) fs then moveIntoPlace e hdr sourceName false fs
  else
    let (copied, fs) := fsCopyFile e .copyOld (finalPath hdr) backupPath fs
    if !copied then (false, (fsRemove e .dropTempUncopied (tempPath hdr) fs).2)
    else
      let (removed, fs) := fsRemove e .removeOld (finalPath hdr) fs
      if !removed then
        let fs := (fsRemove e .dropTempUnremoved (tempPath hdr) fs).2
        (false, (fsRemove e .dropBackupUnremoved backupPath fs).2)
      else moveIntoPlace e hdr sourceName true fs

def k64KpmInstallPackageBytes (e : Env) (data : List UInt8) (sourceName : Option (List UInt8))
    (fs : Fs) : Bool × Fs :=
  match k64KpmValidatePackageBytes data with
  | .error _ => (false, fs)
  | .ok hdr =>
    let fs := kpmEnsureDirs e fs
    let fs := (fsRemove e .cleanTemp (tempPath hdr) fs).2
    let fs := (fsRemove e .cleanBackup backupPath fs).2
    let (written, fs) :=
      fsWriteFileRaw e .writeTemp (tempPath hdr) (data.drop headerSize) fs
    if !written then (false, fs) else replaceFinal e hdr sourceName fs

variable {e : Env} {hdr : KpmPackageHeader} {data : List UInt8} {fs : Fs} {p q : Path}
  {sourceName : Option (List UInt8)}

theorem onPath_eq {α : Type} {r : α} {f : Path → α} (h : fsNormalize e.cwd p 256 = some p) :
    onPath e p r f = f p := by
  rw [onPath, h]

theorem normalize_backup : fsNormalize e.cwd backupPath 256 = some backupPath := rfl

theorem normalize_installed : fsNormalize e.cwd installedPath 256 = some installedPath := rfl

theorem normalize_dirs : ∀ d ∈ kpmDirs, fsNormalize e.cwd d 256 = some d := by
  intro d hd
  simp only [kpmDirs, List.mem_cons, List.not_mem_nil, or_false] at hd
  rcases hd with rfl | rfl | rfl | rfl | rfl | rfl | rfl | rfl | rfl | rfl <;> rfl

structure Separate (e : Env) (hdr : KpmPackageHeader) : Prop where
  final : fsNormalize e.cwd (finalPath hdr) 256 = some (finalPath hdr)
  temp : fsNormalize e.cwd (tempPath hdr) 256 = some (tempPath hdr)
  temp_final : tempPath hdr ≠ finalPath hdr
  fixed : ∀ p, p = backupPath ∨ p = installedPath ∨ p ∈ kpmDirs →
    p ≠ finalPath hdr ∧ p ≠ tempPath hdr

theorem Separate.backup (hp : Separate e hdr) :
    backupPath ≠ finalPath hdr ∧ backupPath ≠ tempPath hdr :=
  hp.fixed _ (Or.inl rfl)

theorem Separate.installed (hp : Separate e hdr) :
    installedPath ≠ finalPath hdr ∧ installedPath ≠ tempPath hdr :=
  hp.fixed _ (Or.inr (Or.inl rfl))

theorem separate_of_placed (h : Placed hdr) : Separate e hdr := by
  have hd := h.dirLength
  have hl := h.leafLength
  have hleaf : (installLeaf hdr ++ ascii ".kpmtmp").length = (installLeaf hdr).length + 7 :=
    List.length_append
  -- the install directories are not those of the fixed paths
  have hprefix : ∀ p, p = backupPath ∨ p = installedPath ∨ p ∈ kpmDirs → ∀ leaf, leaf ≠ [] →
      p ≠ slash :: installDir hdr ++ slash :: leaf := by
    rintro p hp leaf hne rfl
    have hnot : ∀ dir, dir = ascii "ex" ∨ dir = ascii "k64s" ∨ dir = ascii "k64m" →
        ¬ (slash :: dir ++ [slash]) <+: backupPath ∧ ¬ (slash :: dir ++ [slash]) <+: installedPath ∧
        ∀ d ∈ kpmDirs, ¬ (slash :: dir ++ [slash]) <+: d := by
      rintro dir (rfl | rfl | rfl) <;> decide
    obtain ⟨hb, hi, hdirs⟩ := hnot _ (installDir_cases hdr).1
    have hpre : (slash :: installDir hdr ++ [slash]) <+: slash :: installDir hdr ++ slash :: leaf :=
      ⟨leaf, by simp⟩
    rcases hp with hp | hp | hp
    · exact hb (hp ▸ hpre)
    · exact hi (hp ▸ hpre)
    · exact hdirs _ hp hpre
  refine ⟨?_, ?_, ?_, fun p hp => ⟨?_, ?_⟩⟩
  · rw [h.final]
    exact normalize_entry e.cwd h.dir h.leaf (by omega)
  · rw [h.temp]
    exact normalize_entry e.cwd h.dir h.tempLeaf (by omega)
  · intro heq
    have hlen := congrArg List.length heq
    rw [h.final, h.temp] at hlen
    simp only [List.length_append, List.length_cons] at hlen hleaf
    omega
  · rw [h.final]
    exact hprefix p hp _ h.leaf.nonempty
  · rw [h.temp]
    exact hprefix p hp _ h.tempLeaf.nonempty

theorem outcome_if (c : Bool) (a b : Fs) : (if c then (true, a) else (false, b)).1 = c := by
  cases c <;> rfl

section Site

variable (h : fsNormalize e.cwd p 256 = some p) (site : Site)

include h

theorem remove_at (fs : Fs) (q : Path) : (fsRemove e site p fs).2 q =
      if q = p ∧ e.ok site = true ∧ isFile (fs p) = true then none else fs q := by
  rw [fsRemove, onPath_eq h]
  by_cases hc : (e.ok site && isFile (fs p)) = true
  · rw [if_pos hc]
    rw [Bool.and_eq_true] at hc
    simp [Function.update_apply, hc.1, hc.2]
  · rw [if_neg hc]
    rw [Bool.and_eq_true] at hc
    rw [if_neg fun hq => hc hq.2]

theorem remove_gone (fs : Fs) :
    isFile ((fsRemove e site p fs).2 p) = false ↔ isFile (fs p) = false ∨ e.ok site = true := by
  rw [remove_at h]
  by_cases hc : e.ok site = true ∧ isFile (fs p) = true
  · rw [if_pos ⟨rfl, hc⟩]
    exact iff_of_true rfl (Or.inr hc.1)
  · rw [if_neg fun hq => hc hq.2]
    constructor
    · exact Or.inl
    · rintro (hfile | hok)
      · exact hfile
      · exact Bool.eq_false_iff.mpr fun hfile => hc ⟨hok, hfile⟩

theorem remove_dir (fs : Fs) : (fsRemove e site p fs).2 p = some .dir ↔ fs p = some .dir := by
  rw [remove_at h]
  by_cases hc : e.ok site = true ∧ isFile (fs p) = true
  · rw [if_pos ⟨rfl, hc⟩]
    refine iff_of_false nofun fun hdir => ?_
    rw [hdir] at hc
    exact Bool.false_ne_true hc.2
  · rw [if_neg fun hq => hc hq.2]

theorem remove_other (fs : Fs) (hq : q ≠ p) : (fsRemove e site p fs).2 q = fs q := by
  rw [remove_at h, if_neg fun hc => hq hc.1]

theorem remove_ok (fs : Fs) : (fsRemove e site p fs).1 = (e.ok site && isFile (fs p)) := by
  rw [fsRemove, onPath_eq h]
  exact outcome_if _ _ _

theorem write_at (bytes : List UInt8) (fs : Fs) (q : Path) : (fsWriteFileRaw e site p bytes fs).2 q =
      if q = p ∧ e.ok site = true ∧ fs p ≠ some .dir then some (.file bytes) else fs q := by
  rw [fsWriteFileRaw, onPath_eq h]
  by_cases hc : (e.ok site && fs p != some .dir) = true
  · rw [if_pos hc]
    rw [Bool.and_eq_true, bne_iff_ne] at hc
    simp [Function.update_apply, hc.1, hc.2]
  · rw [if_neg hc]
    rw [Bool.and_eq_true, bne_iff_ne] at hc
    rw [if_neg fun hq => hc hq.2]

theorem write_ok (bytes : List UInt8) (fs : Fs) :
    (fsWriteFileRaw e site p bytes fs).1 = (e.ok site && fs p != some .dir) := by
  rw [fsWriteFileRaw, onPath_eq h]
  exact outcome_if _ _ _

end Site

section TwoPaths

variable (h : fsNormalize e.cwd p 256 = some p)
  (h' : fsNormalize e.cwd q 256 = some q) (site : Site) (fs : Fs)

include h h'

theorem copy_at (r : Path) : (fsCopyFile e site p q fs).2 r =
      if r = q ∧ e.ok site = true ∧ isFile (fs p) = true ∧ fs q ≠ some .dir then fs p else fs r := by
  rw [fsCopyFile, onPath_eq h, onPath_eq h']
  by_cases hc : (e.ok site && isFile (fs p) && fs q != some .dir) = true
  · rw [if_pos hc]
    rw [Bool.and_eq_true, Bool.and_eq_true, bne_iff_ne] at hc
    simp [Function.update_apply, hc.1.1, hc.1.2, hc.2]
  · rw [if_neg hc]
    rw [Bool.and_eq_true, Bool.and_eq_true, bne_iff_ne, and_assoc] at hc
    rw [if_neg fun hr => hc hr.2]

theorem copy_ok : (fsCopyFile e site p q fs).1 =
      (e.ok site && isFile (fs p) && fs q != some .dir) := by
  rw [fsCopyFile, onPath_eq h, onPath_eq h']
  exact outcome_if _ _ _

theorem move_at (r : Path) : (fsMove e site p q fs).2 r =
      if e.ok site = true ∧ isFile (fs p) = true ∧ fs q = none then
        if r = p then none else if r = q then fs p else fs r
      else fs r := by
  rw [fsMove, onPath_eq h, onPath_eq h']
  by_cases hc : (e.ok site && isFile (fs p) && (fs q).isNone) = true
  · rw [if_pos hc]
    rw [Bool.and_eq_true, Bool.and_eq_true, Option.isNone_iff_eq_none, and_assoc] at hc
    rw [if_pos hc]
    simp [Function.update_apply]
  · rw [if_neg hc]
    rw [Bool.and_eq_true, Bool.and_eq_true, Option.isNone_iff_eq_none, and_assoc] at hc
    rw [if_neg hc]

theorem move_ok : (fsMove e site p q fs).1 = (e.ok site && isFile (fs p) && (fs q).isNone) := by
  rw [fsMove, onPath_eq h, onPath_eq h']
  exact outcome_if _ _ _

end TwoPaths

theorem mkdir_at (h : fsNormalize e.cwd p 256 = some p) (site : Site) (fs : Fs) (q : Path) :
    (fsMkdir e site p fs).2 q = fs q ∨
      q = p ∧ fs q = none ∧ (fsMkdir e site p fs).2 q = some .dir := by
  rw [fsMkdir, onPath_eq h]
  by_cases hc : (e.ok site && (fs p).isNone) = true
  · rw [if_pos hc]
    rw [Bool.and_eq_true, Option.isNone_iff_eq_none] at hc
    by_cases hq : q = p
    · exact Or.inr ⟨hq, hq ▸ hc.2, by rw [hq]; exact Function.update_self p _ fs⟩
    · exact Or.inl (Function.update_of_ne hq _ fs)
  · rw [if_neg hc]
    exact Or.inl rfl

theorem ensure_dirs_at (fs : Fs) (q : Path) : kpmEnsureDirs e fs q = fs q ∨
    q ∈ kpmDirs ∧ fs q = none ∧ kpmEnsureDirs e fs q = some .dir := by
  have hfold : ∀ (l : List (Path × ℕ)) (fs : Fs), (∀ d ∈ l, d.1 ∈ kpmDirs) →
      l.foldl (fun fs d => (fsMkdir e (.mkdir d.2) d.1 fs).2) fs q = fs q ∨
        q ∈ kpmDirs ∧ fs q = none ∧
          l.foldl (fun fs d => (fsMkdir e (.mkdir d.2) d.1 fs).2) fs q = some .dir := by
    intro l
    induction l with
    | nil => exact fun fs _ => Or.inl rfl
    | cons d l ih =>
      intro fs hl
      have hd := hl d List.mem_cons_self
      have hrest := ih (fsMkdir e (.mkdir d.2) d.1 fs).2 fun x hx => hl x (List.mem_cons_of_mem d hx)
      rw [List.foldl_cons]
      rcases mkdir_at (normalize_dirs d.1 hd) (.mkdir d.2) fs q with hsame | ⟨hq, hnone, hdir⟩
      · rw [hsame] at hrest
        exact hrest
      · rcases hrest with hkept | ⟨hmem, hnone', hnew⟩
        · exact Or.inr ⟨hq ▸ hd, hnone, hkept.trans hdir⟩
        · rw [hdir] at hnone'
          cases hnone'
  refine hfold _ fs fun d hd => ?_
  exact List.fst_mem_of_mem_zipIdx hd

theorem ensure_dirs_kept {q : Path} (hq : q ∉ kpmDirs) : kpmEnsureDirs e fs q = fs q := by
  rcases ensure_dirs_at (e := e) fs q with h | h
  · exact h
  · exact absurd h.1 hq

/-- The files an installation works on. -/
def touched (hdr : KpmPackageHeader) : List Path :=
  [finalPath hdr, tempPath hdr, backupPath, installedPath]

theorem finish_kept (hq : q ∉ touched hdr) (fs : Fs) :
    (finishInstall e hdr sourceName fs).2 q = fs q := by
  simp only [touched, List.mem_cons, List.not_mem_nil, or_false, not_or] at hq
  rw [finishInstall, kpmUpdateInstalledDb]
  have hdb : (fsWriteFileRaw e .writeDb installedPath (updatedText e hdr (finalPath hdr) sourceName
      (fsRemove e .dropBackup backupPath fs).2) (fsRemove e .dropBackup backupPath fs).2).2 q =
      fs q := by
    rw [write_at normalize_installed, if_neg fun h => hq.2.2.2 h.1, remove_at normalize_backup,
      if_neg fun h => hq.2.2.1 h.1]
  dsimp only
  split <;> exact hdb

theorem move_kept (hp : Separate e hdr) (hq : q ∉ touched hdr) (hadOld : Bool) (fs : Fs) :
    (moveIntoPlace e hdr sourceName hadOld fs).2 q = fs q := by
  have hq' := hq
  simp only [touched, List.mem_cons, List.not_mem_nil, or_false, not_or] at hq'
  have hmove : (fsMove e .moveNew (tempPath hdr) (finalPath hdr) fs).2 q = fs q := by
    rw [move_at hp.temp hp.final]
    simp [hq'.1, hq'.2.1]
  rw [moveIntoPlace]
  dsimp only
  split
  · rw [remove_at normalize_backup, if_neg fun h => hq'.2.2.1 h.1, remove_at hp.temp,
      if_neg fun h => hq'.2.1 h.1]
    split
    · rw [copy_at normalize_backup hp.final, if_neg fun h => hq'.1 h.1, hmove]
    · exact hmove
  · rw [finish_kept hq, hmove]

theorem replace_kept (hp : Separate e hdr) (hq : q ∉ touched hdr) (fs : Fs) :
    (replaceFinal e hdr sourceName fs).2 q = fs q := by
  have hq' := hq
  simp only [touched, List.mem_cons, List.not_mem_nil, or_false, not_or] at hq'
  have hcopy : (fsCopyFile e .copyOld (finalPath hdr) backupPath fs).2 q = fs q := by
    rw [copy_at hp.final normalize_backup, if_neg fun h => hq'.2.2.1 h.1]
  have hremove : (fsRemove e .removeOld (finalPath hdr)
      (fsCopyFile e .copyOld (finalPath hdr) backupPath fs).2).2 q = fs q := by
    rw [remove_at hp.final, if_neg fun h => hq'.1 h.1, hcopy]
  rw [replaceFinal]
  split
  · exact move_kept hp hq false fs
  dsimp only
  split
  · rw [remove_at hp.temp, if_neg fun h => hq'.2.1 h.1, hcopy]
  split
  · rw [remove_at normalize_backup, if_neg fun h => hq'.2.2.1 h.1, remove_at hp.temp,
      if_neg fun h => hq'.2.1 h.1, hremove]
  · rw [move_kept hp hq, hremove]

/-- An accepted package is what it says it is, goes to its install directory under its own name, and
installing it touches no file but four. -/
theorem accepted_package_confined (h : k64KpmValidatePackageBytes data = .ok hdr) :
    (hdr.payloadSize.toNat = (data.drop headerSize).length ∧
      kpmCrc32 (data.drop headerSize) = hdr.payloadCrc32) ∧
    (∀ cwd, fsNormalize cwd (finalPath hdr) 256 = some (finalPath hdr) ∧
      fsNormalize cwd (tempPath hdr) 256 = some (tempPath hdr)) ∧
    (PlainName (installLeaf hdr) ∧
      finalPath hdr = slash :: installDir hdr ++ slash :: installLeaf hdr ∧
      PlainName (installLeaf hdr ++ ascii ".kpmtmp") ∧
      tempPath hdr = slash :: installDir hdr ++ slash :: (installLeaf hdr ++ ascii ".kpmtmp")) ∧
    ∀ (e : Env) (sourceName : Option (List UInt8)) (fs : Fs), ∀ q ∉ touched hdr,
      (k64KpmInstallPackageBytes e data sourceName fs).2 q = fs q ∨
        q ∈ kpmDirs ∧ fs q = none ∧
          (k64KpmInstallPackageBytes e data sourceName fs).2 q = some .dir := by
  have haccepted := accepted_of_ok h
  have hplaced := accepted_placed haccepted
  refine ⟨⟨?_, haccepted.crc⟩, fun cwd => ?_, ⟨hplaced.leaf, hplaced.final, hplaced.tempLeaf,
    hplaced.temp⟩, fun e sourceName fs q hq => ?_⟩
  · have hsize := haccepted.size
    rw [List.length_drop]
    omega
  · have hseparate := separate_of_placed (e := ⟨fun _ => true, cwd⟩) hplaced
    exact ⟨hseparate.final, hseparate.temp⟩
  · have hp := separate_of_placed (e := e) hplaced
    have hq' := hq
    simp only [touched, List.mem_cons, List.not_mem_nil, or_false, not_or] at hq'
    have hclean : (fsRemove e .cleanBackup backupPath
        (fsRemove e .cleanTemp (tempPath hdr) (kpmEnsureDirs e fs)).2).2 q =
        kpmEnsureDirs e fs q := by
      rw [remove_at normalize_backup, if_neg fun h => hq'.2.2.1 h.1, remove_at hp.temp,
        if_neg fun h => hq'.2.1 h.1]
    have hwrite : ∀ fs', (fsWriteFileRaw e .writeTemp (tempPath hdr) (data.drop headerSize) fs').2 q =
        fs' q := by
      intro fs'
      rw [write_at hp.temp, if_neg fun h => hq'.2.1 h.1]
    have hsame : (k64KpmInstallPackageBytes e data sourceName fs).2 q = kpmEnsureDirs e fs q := by
      rw [k64KpmInstallPackageBytes, h]
      dsimp only
      split
      · rw [hwrite, hclean]
      · rw [replace_kept hp hq, hwrite, hclean]
    rw [hsame]
    exact ensure_dirs_at fs q

/-- The package `hello` 1.0.0 with an empty payload. -/
def helloPackage : List UInt8 :=
  leBytes 4 0x3147504B ++ leBytes 2 1 ++ leBytes 2 1 ++
  (ascii "hello" ++ List.replicate 59 0) ++ (ascii "1.0.0" ++ List.replicate 27 0) ++
  (ascii "hello" ++ List.replicate 59 0) ++ leBytes 8 0 ++ leBytes 4 0 ++ leBytes 4 0 ++
  List.replicate 64 0

theorem hello_accepted : k64KpmValidatePackageBytes helloPackage = .ok (readHeader helloPackage) := by
  rw [k64KpmValidatePackageBytes, if_neg (by decide +kernel)]
  dsimp only
  rw [if_neg (by decide +kernel), if_neg (by decide +kernel), if_neg (by decide +kernel),
    if_neg (by decide +kernel)]

theorem hello_confined : (readHeader helloPackage).payloadSize.toNat = 0 ∧
    fsNormalize [slash] (finalPath (readHeader helloPackage)) 256 =
      some (finalPath (readHeader helloPackage)) := by
  obtain ⟨⟨hsize, -⟩, hpaths, -⟩ := accepted_package_confined hello_accepted
  exact ⟨hsize.trans (by decide +kernel), (hpaths [slash]).1⟩

end KpmInstall
