import K64.KpmAtomicity
import Mathlib.Data.List.Induction

/-! # The database of installed packages

Each installation reads the database into a buffer of 8192 bytes, appends its record there and writes
the buffer back. -/
namespace KpmInstall

open XfsDirectory FsPaths NetState KpmPackage

variable {e : Env} {hdr : KpmPackageHeader} {data : List UInt8} {fs fs' : Fs}
  {sourceName : Option (List UInt8)}

theorem write_other (h : fsNormalize e.cwd p 256 = some p) (site : Site) (bytes : List UInt8) (fs : Fs)
    {q : Path} (hq : q ≠ p) : (fsWriteFileRaw e site p bytes fs).2 q = fs q := by
  rw [write_at h, if_neg fun hc => hq hc.1]

theorem finish_database (h : (finishInstall e hdr sourceName fs).1 = true) :
    (finishInstall e hdr sourceName fs).2 installedPath =
      some (.file (updatedText e hdr (finalPath hdr) sourceName fs)) := by
  have hib : installedPath ≠ backupPath := by decide
  have hdb : (fsRemove e .dropBackup backupPath fs).2 installedPath = fs installedPath :=
    remove_other normalize_backup _ _ hib
  revert h
  unfold finishInstall
  dsimp only
  generalize (fsRemove e .dropBackup backupPath fs).2 = fs₁ at hdb ⊢
  cases hw : (kpmUpdateInstalledDb e hdr (finalPath hdr) sourceName fs₁).1 with
  | false =>
    intro h
    cases h
  | true =>
    intro _
    rw [kpmUpdateInstalledDb, write_ok normalize_installed, Bool.and_eq_true, bne_iff_ne] at hw
    change (kpmUpdateInstalledDb e hdr (finalPath hdr) sourceName fs₁).2 installedPath = _
    rw [kpmUpdateInstalledDb, write_at normalize_installed, if_pos ⟨rfl, hw⟩, updatedText_congr hdb]

theorem move_database (hp : Separate e hdr) {hadOld : Bool}
    (h : (moveIntoPlace e hdr sourceName hadOld fs).1 = true) :
    (moveIntoPlace e hdr sourceName hadOld fs).2 installedPath =
      some (.file (updatedText e hdr (finalPath hdr) sourceName fs)) := by
  obtain ⟨hif, hit⟩ := hp.installed
  have hdb : (fsMove e .moveNew (tempPath hdr) (finalPath hdr) fs).2 installedPath =
      fs installedPath := by
    rw [move_at hp.temp hp.final, if_neg hit, if_neg hif, ite_self]
  revert h
  unfold moveIntoPlace
  dsimp only
  cases (fsMove e .moveNew (tempPath hdr) (finalPath hdr) fs).1 with
  | false =>
    intro h
    cases h
  | true =>
    intro h
    rw [← updatedText_congr hdb]
    exact finish_database h

theorem replace_database (hp : Separate e hdr) (h : (replaceFinal e hdr sourceName fs).1 = true) :
    (replaceFinal e hdr sourceName fs).2 installedPath =
      some (.file (updatedText e hdr (finalPath hdr) sourceName fs)) := by
  obtain ⟨hif, -⟩ := hp.installed
  have hib : installedPath ≠ backupPath := by decide
  have hdb : (fsRemove e .removeOld (finalPath hdr)
      (fsCopyFile e .copyOld (finalPath hdr) backupPath fs).2).2 installedPath =
      fs installedPath := by
    rw [remove_other hp.final _ _ hif, copy_at hp.final normalize_backup, if_neg fun hc => hib hc.1]
  revert h
  unfold replaceFinal
  dsimp only
  split
  · exact move_database hp
  · split
    · intro h
      cases h
    · split
      · intro h
        cases h
      · intro h
        rw [← updatedText_congr hdb]
        exact move_database hp h

theorem installed_database (haccepted : k64KpmValidatePackageBytes data = .ok hdr)
    (h : k64KpmInstallPackageBytes e data sourceName fs = (true, fs')) :
    fs' installedPath = some (.file (updatedText e hdr (finalPath hdr) sourceName fs)) := by
  have hp := separate_of_placed (e := e) (accepted_placed (accepted_of_ok haccepted))
  obtain ⟨-, hit⟩ := hp.installed
  have hib : installedPath ≠ backupPath := by decide
  have hdirs : installedPath ∉ kpmDirs := by decide
  rw [k64KpmInstallPackageBytes, haccepted] at h
  dsimp only at h
  have hdb : (fsWriteFileRaw e .writeTemp (tempPath hdr) (data.drop headerSize)
      (fsRemove e .cleanBackup backupPath (fsRemove e .cleanTemp (tempPath hdr)
        (kpmEnsureDirs e fs)).2).2).2 installedPath = fs installedPath := by
    rw [write_other hp.temp _ _ _ hit, remove_other normalize_backup _ _ hib,
      remove_other hp.temp _ _ hit, ensure_dirs_kept hdirs]
  split at h
  · cases h
  · have hok := congrArg Prod.fst h
    have hfs := congrArg Prod.snd h
    dsimp only at hok hfs
    rw [← hfs, ← updatedText_congr hdb]
    exact replace_database hp hok

/-- An installation: the package, the name of its source, and whether the database could be read. -/
structure Installed where
  hdr : KpmPackageHeader
  sourceName : Option (List UInt8)
  read : Bool

/-- The line `name version kind path source`, without its end. -/
def recordText (x : Installed) : List UInt8 :=
  cstr x.hdr.packageName.toList ++ ascii " " ++ cstr x.hdr.packageVersion.toList ++ ascii " " ++
    kpmKindName x.hdr.kind ++ ascii " " ++ finalPath x.hdr ++ ascii " " ++
    x.sourceName.getD (ascii "unknown")

def recordLine (x : Installed) : List UInt8 := recordText x ++ ascii "\n"

theorem databaseRecord_eq (x : Installed) : databaseRecord x.hdr x.sourceName = recordLine x := by
  rw [databaseRecord, recordPieces, recordLine, recordText]
  simp only [List.flatten_cons, List.flatten_nil, List.append_nil, List.append_assoc]

def allLines (done : List Installed) : List UInt8 := done.flatMap recordLine

theorem allLines_snoc (done : List Installed) (x : Installed) :
    allLines (done ++ [x]) = allLines done ++ recordLine x := by
  rw [allLines, allLines, List.flatMap_append, List.flatMap_singleton]

def recordStep (text : List UInt8) (x : Installed) : List UInt8 :=
  ((if x.read then text else []) ++ recordLine x).take 8191

def textAfter (done : List Installed) : List UInt8 := done.foldl recordStep []

theorem textAfter_snoc (done : List Installed) (x : Installed) :
    textAfter (done ++ [x]) = recordStep (textAfter done) x := by
  rw [textAfter, textAfter, List.foldl_append]
  rfl

theorem length_textAfter (done : List Installed) : (textAfter done).length ≤ 8191 ∧
    (textAfter done).length ≤ (allLines done).length := by
  induction done using List.reverseRecOn with
  | nil => exact ⟨Nat.zero_le _, Nat.le_refl _⟩
  | append_singleton done x ih =>
    rw [textAfter_snoc, allLines_snoc, recordStep, List.length_take, List.length_append,
      List.length_append]
    cases x.read with
    | false =>
      rw [if_neg Bool.false_ne_true, List.length_nil]
      omega
    | true =>
      rw [if_pos rfl]
      omega

theorem recordLine_pos (x : Installed) : 0 < (recordLine x).length := by
  rw [recordLine, List.length_append]
  exact Nat.lt_add_left _ (by decide)

/-- Nothing of the lines is lost: they fit, and the database could be read before each line but the
first. -/
def Retained (done : List Installed) : Prop :=
  (allLines done).length ≤ 8191 ∧ ∀ x ∈ done.tail, x.read = true

theorem retained_snoc (done : List Installed) (x : Installed) : Retained (done ++ [x]) ↔
    (allLines done).length + (recordLine x).length ≤ 8191 ∧ Retained done ∧
      (done = [] ∨ x.read = true) := by
  rw [Retained, Retained, allLines_snoc, List.length_append]
  cases done with
  | nil =>
    simp [allLines]
  | cons y done =>
    rw [List.cons_append, List.tail_cons, List.tail_cons, List.forall_mem_append,
      List.forall_mem_singleton]
    constructor
    · rintro ⟨hlen, hreads, hx⟩
      exact ⟨hlen, ⟨by omega, hreads⟩, .inr hx⟩
    · rintro ⟨hlen, ⟨-, hreads⟩, hx⟩
      exact ⟨hlen, hreads, hx.resolve_left (List.cons_ne_nil _ _)⟩

variable {done : List Installed}

theorem allLines_nil (h : (allLines done).length = 0) : done = [] := by
  cases done with
  | nil => rfl
  | cons x done =>
    have := recordLine_pos x
    rw [allLines, List.flatMap_cons, List.length_append] at h
    omega

theorem textAfter_retained (h : Retained done) :
    textAfter done = allLines done := by
  induction done using List.reverseRecOn with
  | nil => rfl
  | append_singleton done x ih =>
    obtain ⟨hlen, hdone, hread⟩ := (retained_snoc done x).mp h
    have hkept : (if x.read then textAfter done else []) = allLines done := by
      rcases hread with rfl | hread
      · split <;> rfl
      · rw [if_pos hread, ih hdone]
    rw [textAfter_snoc, recordStep, hkept, allLines_snoc,
      List.take_of_length_le (by rw [List.length_append]; exact hlen)]

theorem retained_of_length
    (h : (textAfter done).length = (allLines done).length) : Retained done := by
  induction done using List.reverseRecOn with
  | nil => exact ⟨Nat.zero_le _, by simp⟩
  | append_singleton done x ih =>
    obtain ⟨hmax, hle⟩ := length_textAfter done
    have hmax' := (length_textAfter (done ++ [x])).1
    rw [h, allLines_snoc, List.length_append] at hmax'
    rw [textAfter_snoc, recordStep, List.length_take, allLines_snoc, List.length_append,
      List.length_append] at h
    refine (retained_snoc done x).mpr ⟨hmax', ?_⟩
    cases hread : x.read with
    | true =>
      rw [hread, if_pos rfl] at h
      exact ⟨ih (by omega), .inr rfl⟩
    | false =>
      rw [hread, if_neg Bool.false_ne_true, List.length_nil] at h
      obtain rfl := allLines_nil (by omega : (allLines done).length = 0)
      exact ⟨⟨Nat.zero_le _, by simp⟩, .inl rfl⟩

/-- Successful installations, from a filesystem without a database; what happens between them leaves the
database alone. -/
inductive InstallRun : List Installed → Fs → Prop where
  | start {fs : Fs} (absent : fs installedPath = none) : InstallRun [] fs
  | other {done : List Installed} {fs fs' : Fs} (before : InstallRun done fs)
      (kept : fs' installedPath = fs installedPath) : InstallRun done fs'
  | install {done : List Installed} {fs fs' : Fs} {e : Env} {data : List UInt8}
      {hdr : KpmPackageHeader} {sourceName : Option (List UInt8)} (before : InstallRun done fs)
      (accepted : k64KpmValidatePackageBytes data = .ok hdr)
      (text : ∀ name ∈ sourceName, 0 ∉ name)
      (installed : k64KpmInstallPackageBytes e data sourceName fs = (true, fs')) :
      InstallRun (done ++ [⟨hdr, sourceName, e.ok .readDb⟩]) fs'

def databaseText (fs : Fs) : List UInt8 :=
  match fs installedPath with
  | some (.file bytes) => bytes
  | _ => []

/-- One complete line for each installation, in their order. -/
def WholeRecords (done : List Installed) (fs : Fs) : Prop :=
  databaseText fs = allLines done ∧ ∀ x ∈ done, (10 : UInt8) ∉ recordText x

theorem no_zero_cstr (field : List UInt8) : (0 : UInt8) ∉ cstr field := by
  intro h
  have := List.mem_takeWhile_imp h
  simp at this

/-- The parts of a record that the header does not restrict. -/
def OneLine (x : Installed) : Prop :=
  (10 : UInt8) ∉ cstr x.hdr.packageName.toList ∧ (10 : UInt8) ∉ cstr x.hdr.packageVersion.toList ∧
    ∀ name ∈ x.sourceName, (10 : UInt8) ∉ name

theorem validChars_control {name : List UInt8} (h : validChars name = true) : ∀ c ∈ name, 32 ≤ c := by
  induction name with
  | nil => simp
  | cons ch rest ih =>
    rw [validChars] at h
    split at h
    · cases h
    rename_i hch
    have hlow : 32 ≤ ch := by
      simp only [Bool.or_eq_true, not_or, decide_eq_true_eq] at hch
      exact UInt8.not_lt.mp hch.1.1
    have hrest : validChars rest = true := by
      split at h
      · cases h
      · exact h
    intro c hc
    rcases List.mem_cons.mp hc with rfl | hc
    · exact hlow
    · exact ih hrest c hc

theorem path_text (h : Accepted data hdr) {c : UInt8} (hc : c < 32) :
    c ∉ finalPath hdr ∧ c ∉ kpmKindName hdr.kind := by
  have hkind : c ∉ kpmKindName hdr.kind := by
    have hall : ∀ t, t = ascii "ELF" ∨ t = ascii "K64S" ∨ t = ascii "K64M" ∨ t = ascii "UNKNOWN" →
        ∀ d ∈ t, 32 ≤ d := by
      rintro t (rfl | rfl | rfl | rfl) <;> decide +kernel
    intro hmem
    refine absurd hc (UInt8.not_lt.mpr (hall _ ?_ c hmem))
    unfold kpmKindName
    split_ifs <;> simp
  refine ⟨fun hmem => ?_, hkind⟩
  rw [(accepted_placed h).final, List.mem_append, List.mem_cons, List.mem_cons] at hmem
  have hname := h.name
  rw [kpmValidInstallName, Bool.and_eq_true] at hname
  have hdir : ∀ d ∈ installDir hdr, 32 ≤ d := by
    rcases (installDir_cases hdr).1 with hd | hd | hd <;> rw [hd] <;> decide +kernel
  have hsuffix : ∀ d ∈ installSuffix hdr, 32 ≤ d := by
    rcases (installDir_cases hdr).2 with hs | hs | hs <;> rw [hs] <;> decide +kernel
  have hslash : ¬slash < 32 := by decide
  rcases hmem with (rfl | hmem) | rfl | hmem
  · exact hslash hc
  · exact absurd hc (UInt8.not_lt.mpr (hdir c hmem))
  · exact hslash hc
  · rcases List.mem_append.mp hmem with hmem | hmem
    · exact absurd hc (UInt8.not_lt.mpr (validChars_control hname.2 c hmem))
    · exact absurd hc (UInt8.not_lt.mpr (hsuffix c hmem))

theorem mem_recordText {x : Installed} (h : Accepted data x.hdr) {c : UInt8} (hc : c < 32) :
    c ∈ recordText x ↔ c ∈ cstr x.hdr.packageName.toList ∨ c ∈ cstr x.hdr.packageVersion.toList ∨
      ∃ name ∈ x.sourceName, c ∈ name := by
  obtain ⟨hpath, hkind⟩ := path_text h hc
  have hblank : c ∉ ascii " " := by
    intro hmem
    rw [List.mem_singleton.mp hmem] at hc
    exact absurd hc (by decide)
  have hsource : c ∈ x.sourceName.getD (ascii "unknown") ↔ ∃ name ∈ x.sourceName, c ∈ name := by
    cases x.sourceName with
    | none =>
      have hall : ∀ d ∈ ascii "unknown", 32 ≤ d := by decide +kernel
      refine iff_of_false (fun hmem => absurd hc (UInt8.not_lt.mpr (hall c hmem))) ?_
      rintro ⟨name, hname, -⟩
      cases hname
    | some name => simp
  simp only [recordText, List.mem_append, hblank, hpath, hkind, hsource, or_false]
  exact or_assoc

theorem recordText_oneLine {x : Installed} (h : Accepted data x.hdr) :
    (10 : UInt8) ∉ recordText x ↔ OneLine x := by
  rw [mem_recordText h (by decide), OneLine, not_or, not_or]
  simp only [not_exists, not_and]

structure Recorded (done : List Installed) (fs : Fs) : Prop where
  file : fs installedPath = (if done = [] then none else some (.file (textAfter done)))
  accepted : ∀ x ∈ done, ∃ data, Accepted data x.hdr
  text : (0 : UInt8) ∉ textAfter done

theorem Recorded.read (h : Recorded done fs) (e : Env) :
    installedText e fs = if e.ok .readDb then textAfter done else [] := by
  have hlen := (length_textAfter done).1
  rw [installedText, fsCat, onPath_eq normalize_installed, h.file]
  cases done with
  | nil =>
    rw [if_pos rfl]
    exact (ite_self []).symm
  | cons x done =>
    rw [if_neg (List.cons_ne_nil _ _)]
    dsimp only
    have hcstr : cstr ((textAfter (x :: done)).take (8192 - 1)) = textAfter (x :: done) := by
      rw [List.take_of_length_le (by omega), cstr, List.takeWhile_eq_self_iff]
      intro c hc
      refine decide_eq_true fun h0 => h.text ?_
      rwa [← h0]
    rw [hcstr]
    split <;> rfl

theorem recorded_install (h : Recorded done fs)
    (accepted : k64KpmValidatePackageBytes data = .ok hdr) (text : ∀ name ∈ sourceName, 0 ∉ name)
    (installed : k64KpmInstallPackageBytes e data sourceName fs = (true, fs')) :
    Recorded (done ++ [⟨hdr, sourceName, e.ok .readDb⟩]) fs' := by
  have hmax := (length_textAfter done).1
  have hacc := accepted_of_ok accepted
  have hupdated : updatedText e hdr (finalPath hdr) sourceName fs =
      textAfter (done ++ [⟨hdr, sourceName, e.ok .readDb⟩]) := by
    rw [updatedText, append_pieces 8192 _ _ (length_installedText e fs), textAfter_snoc, recordStep,
      h.read, ← databaseRecord_eq]
    rfl
  refine ⟨?_, ?_, ?_⟩
  · rw [installed_database accepted installed, hupdated, if_neg (by simp)]
  · intro x hx
    rcases List.mem_append.mp hx with hx | hx
    · exact h.accepted x hx
    · rw [List.mem_singleton.mp hx]
      exact ⟨data, hacc⟩
  · rw [textAfter_snoc, recordStep]
    intro hmem
    rcases List.mem_append.mp (List.mem_of_mem_take hmem) with hmem | hmem
    · split at hmem
      · exact h.text hmem
      · cases hmem
    · rw [recordLine] at hmem
      rcases List.mem_append.mp hmem with hmem | hmem
      · rw [mem_recordText hacc (by decide)] at hmem
        rcases hmem with hmem | hmem | ⟨name, hname, hmem⟩
        · exact no_zero_cstr _ hmem
        · exact no_zero_cstr _ hmem
        · exact text name hname hmem
      · revert hmem
        decide

theorem run_recorded (h : InstallRun done fs) : Recorded done fs := by
  induction h with
  | start absent => exact ⟨absent, by simp, by simp [textAfter]⟩
  | other before kept ih => exact ⟨kept.trans ih.file, ih.accepted, ih.text⟩
  | install before accepted text installed ih => exact recorded_install ih accepted text installed

theorem Recorded.databaseText (h : Recorded done fs) :
    databaseText fs = textAfter done := by
  rw [KpmInstall.databaseText, h.file]
  cases done with
  | nil => rfl
  | cons x done => rw [if_neg (List.cons_ne_nil _ _)]

/-- After any number of installations the database has one line for each of them exactly when all the
lines fit into the buffer, no name breaks its line and the database could always be read. -/
theorem database_whole_iff {done : List Installed} (h : InstallRun done fs) :
    WholeRecords done fs ↔ Retained done ∧ ∀ x ∈ done, OneLine x := by
  have hr := run_recorded h
  have hline : ∀ x ∈ done, ((10 : UInt8) ∉ recordText x ↔ OneLine x) := by
    intro x hx
    obtain ⟨data, hdata⟩ := hr.accepted x hx
    exact recordText_oneLine hdata
  rw [WholeRecords, hr.databaseText]
  constructor
  · rintro ⟨htext, hlines⟩
    exact ⟨retained_of_length (congrArg List.length htext), fun x hx => (hline x hx).mp (hlines x hx)⟩
  · rintro ⟨hretained, hlines⟩
    exact ⟨textAfter_retained hretained, fun x hx => (hline x hx).mpr (hlines x hx)⟩

def allWorks : Env := ⟨fun _ => true, [slash]⟩

theorem cleaned_fresh (hp : Separate allWorks hdr) (hempty : ∀ p, p ≠ installedPath → fs p = none)
    (hdb : fs installedPath ≠ some .dir) :
    ∃ fs₁, (fsRemove allWorks .cleanBackup backupPath (fsRemove allWorks .cleanTemp
      (tempPath hdr) (kpmEnsureDirs allWorks fs)).2).2 = fs₁ ∧ fs₁ (finalPath hdr) = none ∧
      fs₁ (tempPath hdr) = none ∧ fs₁ installedPath ≠ some .dir := by
  obtain ⟨hbf, hbt⟩ := hp.backup
  obtain ⟨hif, hit⟩ := hp.installed
  have hib : installedPath ≠ backupPath := by decide
  have hfinalDirs : finalPath hdr ∉ kpmDirs := fun h => (hp.fixed _ (Or.inr (Or.inr h))).1 rfl
  have htempDirs : tempPath hdr ∉ kpmDirs := fun h => (hp.fixed _ (Or.inr (Or.inr h))).2 rfl
  have hdirs : installedPath ∉ kpmDirs := by decide
  refine ⟨_, rfl, ?_, ?_, ?_⟩
  · rw [remove_other normalize_backup _ _ hbf.symm, remove_other hp.temp _ _ hp.temp_final.symm,
      ensure_dirs_kept hfinalDirs, hempty _ hif.symm]
  · rw [remove_other normalize_backup _ _ hbt.symm, remove_at hp.temp, ensure_dirs_kept htempDirs,
      hempty _ hit.symm, ite_self]
  · rw [remove_other normalize_backup _ _ hib, remove_other hp.temp _ _ hit, ensure_dirs_kept hdirs]
    exact hdb

theorem fresh_install (haccepted : k64KpmValidatePackageBytes data = .ok hdr)
    (hempty : ∀ p, p ≠ installedPath → fs p = none) (hdb : fs installedPath ≠ some .dir) :
    (k64KpmInstallPackageBytes allWorks data sourceName fs).1 = true := by
  have hp := separate_of_placed (e := allWorks) (accepted_placed (accepted_of_ok haccepted))
  obtain ⟨hif, hit⟩ := hp.installed
  have hib : installedPath ≠ backupPath := by decide
  obtain ⟨fs₁, hfs₁, hfinal₁, htemp₁, hdb₁⟩ := cleaned_fresh hp hempty hdb
  have hok : ∀ site, allWorks.ok site = true := fun _ => rfl
  have hwritten : (fsWriteFileRaw allWorks .writeTemp (tempPath hdr) (data.drop headerSize) fs₁).1 =
      true := by
    rw [write_ok hp.temp, htemp₁, hok]
    rfl
  generalize hfs₂ : (fsWriteFileRaw allWorks .writeTemp (tempPath hdr) (data.drop headerSize) fs₁).2 =
    fs₂
  have hfinal₂ : fs₂ (finalPath hdr) = none := by
    rw [← hfs₂, write_other hp.temp _ _ _ hp.temp_final.symm, hfinal₁]
  have htemp₂ : fs₂ (tempPath hdr) = some (.file (data.drop headerSize)) := by
    rw [← hfs₂, write_at hp.temp, if_pos ⟨rfl, hok _, by rw [htemp₁]; exact nofun⟩]
  have hstat : fsStatFile allWorks .statFinal (finalPath hdr) fs₂ = false := by
    rw [fsStatFile, onPath_eq hp.final, hfinal₂]
    rfl
  have hmoved : (fsMove allWorks .moveNew (tempPath hdr) (finalPath hdr) fs₂).1 = true := by
    rw [move_ok hp.temp hp.final, hfinal₂, htemp₂]
    rfl
  have hdb₃ : (fsRemove allWorks .dropBackup backupPath
      (fsMove allWorks .moveNew (tempPath hdr) (finalPath hdr) fs₂).2).2 installedPath ≠
      some .dir := by
    rw [remove_other normalize_backup _ _ hib, move_at hp.temp hp.final, if_neg hit, if_neg hif,
      ite_self, ← hfs₂, write_other hp.temp _ _ _ hit]
    exact hdb₁
  have hupdated : (kpmUpdateInstalledDb allWorks hdr (finalPath hdr) sourceName (fsRemove allWorks
      .dropBackup backupPath (fsMove allWorks .moveNew (tempPath hdr) (finalPath hdr) fs₂).2).2).1 =
      true := by
    rw [kpmUpdateInstalledDb, write_ok normalize_installed, hok, Bool.true_and, bne_iff_ne]
    exact hdb₃
  rw [k64KpmInstallPackageBytes, haccepted]
  dsimp only
  rw [hfs₁, hwritten, hfs₂, Bool.not_true, if_neg Bool.false_ne_true, replaceFinal, hstat,
    Bool.not_false, if_pos rfl, moveIntoPlace]
  dsimp only
  rw [hmoved, Bool.not_true, if_neg Bool.false_ne_true, finishInstall]
  dsimp only
  rw [hupdated, Bool.not_true, if_neg Bool.false_ne_true]
  exact hok .sync

theorem run_again (hrun : InstallRun done fs)
    (haccepted : k64KpmValidatePackageBytes data = .ok hdr) :
    ∃ fs', InstallRun (done ++ [⟨hdr, none, true⟩]) fs' := by
  have hbare : InstallRun done (fun p => if p = installedPath then fs p else none) :=
    hrun.other (if_pos rfl)
  have hnot : fs installedPath ≠ some .dir := by
    rw [(run_recorded hrun).file]
    split <;> nofun
  have hinstalled : (k64KpmInstallPackageBytes allWorks data none
      fun p => if p = installedPath then fs p else none).1 = true :=
    fresh_install haccepted (fun p hp => if_neg hp) (by rw [if_pos rfl]; exact hnot)
  exact ⟨_, hbare.install (e := allWorks) haccepted (fun name hname => by cases hname)
    (Prod.ext hinstalled rfl)⟩

def helloInstalled : Installed := ⟨readHeader helloPackage, none, true⟩

theorem hello_again (n : ℕ) : ∃ fs, InstallRun (List.replicate n helloInstalled) fs := by
  induction n with
  | zero => exact ⟨fun _ => none, .start rfl⟩
  | succ n ih =>
    obtain ⟨fs, hrun⟩ := ih
    rw [List.replicate_succ']
    exact run_again hrun hello_accepted

theorem database_whole_hello : ∃ fs, InstallRun [helloInstalled] fs ∧
    (WholeRecords [helloInstalled] fs ↔
      Retained [helloInstalled] ∧ ∀ x ∈ [helloInstalled], OneLine x) := by
  obtain ⟨fs, hrun⟩ := hello_again 1
  exact ⟨fs, hrun, database_whole_iff hrun⟩

theorem length_repeated (n : ℕ) (x : Installed) :
    (allLines (List.replicate n x)).length = n * (recordLine x).length := by
  induction n with
  | zero => simp [allLines]
  | succ n ih => rw [List.replicate_succ', allLines_snoc, List.length_append, ih, Nat.succ_mul]

/-- The records of 300 installations do not fit. -/
theorem records_lost : ∃ done fs, InstallRun done fs ∧ ¬WholeRecords done fs := by
  obtain ⟨fs, hrun⟩ := hello_again 300
  refine ⟨_, fs, hrun, ?_⟩
  rintro ⟨htext, -⟩
  rw [(run_recorded hrun).databaseText] at htext
  have hlen := congrArg List.length htext
  have hmax := (length_textAfter (List.replicate 300 helloInstalled)).1
  have hline : (recordLine helloInstalled).length = 38 := by decide +kernel
  rw [length_repeated, hline] at hlen
  omega

end KpmInstall
