import K64.KpmInstall

/-! # When an installation is atomic

Which failures an installation recovers from. Each of its steps may fail by itself, and so may each
call that is to undo an earlier step. -/
namespace KpmInstall

open XfsDirectory NetState KpmPackage

variable {e : Env} {hdr : KpmPackageHeader} {data : List UInt8} {fs : Fs} {p q : Path}
  {sourceName : Option (List UInt8)}

def databaseRecord (hdr : KpmPackageHeader) (sourceName : Option (List UInt8)) : List UInt8 :=
  (recordPieces hdr (finalPath hdr) sourceName).flatten

/-- An installation that failed has put things back; one that succeeded has done everything. -/
def Settled (e : Env) (hdr : KpmPackageHeader) (payload : List UInt8)
    (sourceName : Option (List UInt8)) (fs : Fs) (r : Bool × Fs) : Prop :=
  if r.1 then
    r.2 (finalPath hdr) = some (.file payload) ∧
    r.2 installedPath = some (.file (installedText e fs ++ databaseRecord hdr sourceName))
  else
    r.2 (finalPath hdr) = fs (finalPath hdr) ∧ r.2 installedPath = fs installedPath ∧
    isFile (r.2 (tempPath hdr)) = false ∧ isFile (r.2 backupPath) = false

/-- The property of an installation. A package that is not accepted changes nothing. -/
def Atomic (e : Env) (data : List UInt8) (sourceName : Option (List UInt8)) (fs : Fs) : Prop :=
  match k64KpmValidatePackageBytes data with
  | .error _ => k64KpmInstallPackageBytes e data sourceName fs = (false, fs)
  | .ok hdr => Settled e hdr (data.drop headerSize) sourceName fs
      (k64KpmInstallPackageBytes e data sourceName fs)

/-- Nothing may fail once the new file is in place, unless it is the old one; what `dropped` says is
that no backup stays. A database without room for the record loses its end. -/
def Completes (e : Env) (hdr : KpmPackageHeader) (payload : List UInt8)
    (sourceName : Option (List UInt8)) (fs : Fs) (old : Option Node) (dropped : Prop) : Prop :=
  if e.ok .writeDb = true ∧ fs installedPath ≠ some .dir then
    if e.ok .sync = true then
      (installedText e fs ++ databaseRecord hdr sourceName).length < 8192
    else old = some (.file payload) ∧
      fs installedPath = some (.file (updatedText e hdr (finalPath hdr) sourceName fs)) ∧ dropped
  else old = some (.file payload) ∧ dropped

theorem append_pieces (size : ℕ) (pieces : List (List UInt8)) : ∀ text : List UInt8,
    text.length ≤ size - 1 →
    pieces.foldl (kpmAppend size) text = (text ++ pieces.flatten).take (size - 1) := by
  induction pieces with
  | nil =>
    intro text h
    rw [List.flatten_nil, List.append_nil, List.take_of_length_le h]
    rfl
  | cons p pieces ih =>
    intro text h
    have hlen : (kpmAppend size text p).length ≤ size - 1 := by
      rw [kpmAppend_take h, List.length_take]
      exact Nat.min_le_left _ _
    rw [List.foldl_cons, ih _ hlen, kpmAppend_take h, List.flatten_cons, ← List.append_assoc]
    by_cases hlong : (text ++ p).length ≤ size - 1
    · rw [List.take_of_length_le hlong]
    · have hfull : ((text ++ p).take (size - 1)).length = size - 1 := by
        rw [List.length_take]
        omega
      have hleft : ((text ++ p).take (size - 1) ++ pieces.flatten).take (size - 1) =
          (text ++ p).take (size - 1) := List.take_left' hfull
      rw [hleft]
      exact (List.take_append_of_le_length (by omega)).symm

theorem length_installedText (e : Env) (fs : Fs) : (installedText e fs).length ≤ 8191 := by
  have hcat : ∀ text, fsCat e .readDb installedPath 8192 fs = some text → text.length ≤ 8191 := by
    intro text h
    rw [fsCat, onPath_eq normalize_installed] at h
    split at h
    · split at h
      · cases h
        exact (List.takeWhile_prefix _).length_le.trans (List.length_take_le _ _)
      · cases h
    · cases h
  rw [installedText]
  cases h : fsCat e .readDb installedPath 8192 fs with
  | none => exact Nat.zero_le _
  | some text => exact hcat text h

theorem updated_text_iff (e : Env) (fs : Fs) : updatedText e hdr (finalPath hdr) sourceName fs =
    installedText e fs ++ databaseRecord hdr sourceName ↔
      (installedText e fs ++ databaseRecord hdr sourceName).length < 8192 := by
  rw [updatedText, append_pieces 8192 _ _ (length_installedText e fs)]
  change (installedText e fs ++ databaseRecord hdr sourceName).take 8191 = _ ↔ _
  rw [List.take_eq_self_iff]
  omega

theorem installedText_congr {fs fs' : Fs} (h : fs' installedPath = fs installedPath) :
    installedText e fs' = installedText e fs := by
  rw [installedText, installedText, fsCat, fsCat, onPath_eq normalize_installed,
    onPath_eq normalize_installed, h]

theorem updatedText_congr {fs fs' : Fs} (h : fs' installedPath = fs installedPath) :
    updatedText e hdr p sourceName fs' = updatedText e hdr p sourceName fs := by
  rw [updatedText, updatedText, installedText_congr h]

variable {payload : List UInt8}

theorem finish_settled (hp : Separate e hdr) {before fs : Fs}
    (hfinal : fs (finalPath hdr) = some (.file payload)) (htemp : isFile (fs (tempPath hdr)) = false)
    (hdb : fs installedPath = before installedPath) :
    Settled e hdr payload sourceName before (finishInstall e hdr sourceName fs) ↔
      Completes e hdr payload sourceName before (before (finalPath hdr))
        (isFile (fs backupPath) = false ∨ e.ok .dropBackup = true) := by
  obtain ⟨hbf, hbt⟩ := hp.backup
  obtain ⟨hif, hit⟩ := hp.installed
  have hib : installedPath ≠ backupPath := by decide
  generalize hfs' : (fsRemove e .dropBackup backupPath fs).2 = fs'
  have hat : ∀ q, fs' q = if q = backupPath ∧ e.ok .dropBackup = true ∧
      isFile (fs backupPath) = true then none else fs q := by
    intro q
    rw [← hfs']
    exact remove_at normalize_backup _ _ _
  have hdb' : fs' installedPath = before installedPath := by
    rw [hat, if_neg fun h => hib h.1, hdb]
  have hfinal' : fs' (finalPath hdr) = some (.file payload) := by
    rw [hat, if_neg fun h => hbf h.1.symm, hfinal]
  have htemp' : isFile (fs' (tempPath hdr)) = false := by
    rw [hat, if_neg fun h => hbt h.1.symm, htemp]
  have hbackup : isFile (fs' backupPath) = false ↔
      isFile (fs backupPath) = false ∨ e.ok .dropBackup = true := by
    rw [← hfs']
    exact remove_gone normalize_backup _ _
  have hwritten : (kpmUpdateInstalledDb e hdr (finalPath hdr) sourceName fs').1 = true ↔
      e.ok .writeDb = true ∧ before installedPath ≠ some .dir := by
    rw [kpmUpdateInstalledDb, write_ok normalize_installed, hdb', Bool.and_eq_true, bne_iff_ne]
  have hafter : ∀ q, (kpmUpdateInstalledDb e hdr (finalPath hdr) sourceName fs').2 q =
      if q = installedPath ∧ e.ok .writeDb = true ∧ before installedPath ≠ some .dir then
        some (.file (updatedText e hdr (finalPath hdr) sourceName before)) else fs' q := by
    intro q
    rw [kpmUpdateInstalledDb, write_at normalize_installed, hdb', updatedText_congr hdb']
  have hother : ∀ q, q ≠ installedPath →
      (kpmUpdateInstalledDb e hdr (finalPath hdr) sourceName fs').2 q = fs' q := by
    intro q hq
    rw [hafter, if_neg fun h => hq h.1]
  rw [finishInstall, hfs', Completes]
  dsimp only
  by_cases hw : e.ok .writeDb = true ∧ before installedPath ≠ some .dir
  · have hnew : (kpmUpdateInstalledDb e hdr (finalPath hdr) sourceName fs').2 installedPath =
        some (.file (updatedText e hdr (finalPath hdr) sourceName before)) := by
      rw [hafter, if_pos ⟨rfl, hw⟩]
    rw [hwritten.mpr hw, Bool.not_true, if_neg Bool.false_ne_true, if_pos hw]
    cases hs : e.ok .sync with
    | true =>
      rw [Settled, if_pos rfl, if_pos rfl, hother _ hif.symm, hfinal', hnew]
      simp only [true_and, Option.some.injEq, Node.file.injEq]
      exact updated_text_iff e before
    | false =>
      rw [Settled, if_neg Bool.false_ne_true, if_neg Bool.false_ne_true, hother _ hif.symm, hfinal',
        hnew, hother _ hit.symm, hother _ hib.symm, hbackup, and_iff_right htemp']
      exact and_congr eq_comm (and_congr_left' eq_comm)
  · have hf : (kpmUpdateInstalledDb e hdr (finalPath hdr) sourceName fs').1 = false := by
      rw [← Bool.not_eq_true, hwritten]
      exact hw
    have hold : (kpmUpdateInstalledDb e hdr (finalPath hdr) sourceName fs').2 installedPath =
        before installedPath := by
      rw [hafter, if_neg fun h => hw h.2, hdb']
    rw [hf, Bool.not_false, if_pos rfl, if_neg hw, Settled, if_neg Bool.false_ne_true,
      hother _ hif.symm, hfinal', hold, hother _ hit.symm, hother _ hib.symm, hbackup,
      and_iff_right rfl, and_iff_right htemp']
    exact and_congr_left' eq_comm

theorem move_settled (hp : Separate e hdr) {before fs : Fs} (hadOld : Bool)
    (htemp : fs (tempPath hdr) = some (.file payload)) (hdb : fs installedPath = before installedPath)
    (hold : hadOld = true → fs (finalPath hdr) = none ∧ isFile (before (finalPath hdr)) = true ∧
      fs backupPath = before (finalPath hdr))
    (hnew : hadOld = false → fs (finalPath hdr) = before (finalPath hdr)) :
    Settled e hdr payload sourceName before (moveIntoPlace e hdr sourceName hadOld fs) ↔
      if e.ok .moveNew = true ∧ fs (finalPath hdr) = none then
        Completes e hdr payload sourceName before (before (finalPath hdr))
          (isFile (fs backupPath) = false ∨ e.ok .dropBackup = true)
      else (hadOld = true → e.ok .restoreOld = true) ∧ e.ok .dropTempUnmoved = true ∧
        (isFile (fs backupPath) = false ∨ e.ok .dropBackupUnmoved = true) := by
  obtain ⟨hbf, hbt⟩ := hp.backup
  obtain ⟨hif, hit⟩ := hp.installed
  have hib : installedPath ≠ backupPath := by decide
  have htf := hp.temp_final
  have hfile : isFile (fs (tempPath hdr)) = true := by rw [htemp]; rfl
  have hmat := move_at hp.temp hp.final .moveNew fs
  have hok : (fsMove e .moveNew (tempPath hdr) (finalPath hdr) fs).1 = true ↔
      e.ok .moveNew = true ∧ fs (finalPath hdr) = none := by
    rw [move_ok hp.temp hp.final, hfile, Bool.and_true, Bool.and_eq_true,
      Option.isNone_iff_eq_none]
  rw [moveIntoPlace]
  dsimp only
  by_cases hm : e.ok .moveNew = true ∧ fs (finalPath hdr) = none
  · rw [hok.mpr hm, Bool.not_true, if_neg Bool.false_ne_true, if_pos hm]
    have hall : e.ok .moveNew = true ∧ isFile (fs (tempPath hdr)) = true ∧
        fs (finalPath hdr) = none := ⟨hm.1, hfile, hm.2⟩
    have hbackup : (fsMove e .moveNew (tempPath hdr) (finalPath hdr) fs).2 backupPath =
        fs backupPath := by
      rw [hmat, if_pos hall, if_neg hbt, if_neg hbf]
    rw [← hbackup]
    apply finish_settled hp
    · rw [hmat, if_pos hall, if_neg htf.symm, if_pos rfl, htemp]
    · rw [hmat, if_pos hall, if_pos rfl]
      rfl
    · rw [hmat, if_pos hall, if_neg hit, if_neg hif, hdb]
  · have hf : (fsMove e .moveNew (tempPath hdr) (finalPath hdr) fs).1 = false := by
      rw [← Bool.not_eq_true, hok]
      exact hm
    have hsame : (fsMove e .moveNew (tempPath hdr) (finalPath hdr) fs).2 = fs := by
      funext q
      rw [hmat, if_neg fun h => hm ⟨h.1, h.2.2⟩]
    rw [hf, hsame, Bool.not_false, if_pos rfl, if_neg hm]
    -- the old file comes back, if there was one
    obtain ⟨fs', hfs', hkeep, hback⟩ : ∃ fs', fs' = (if hadOld = true then
        (fsCopyFile e .restoreOld backupPath (finalPath hdr) fs).2 else fs) ∧
        (∀ q, q ≠ finalPath hdr → fs' q = fs q) ∧
        (fs' (finalPath hdr) = before (finalPath hdr) ↔ (hadOld = true → e.ok .restoreOld = true)) := by
      refine ⟨_, rfl, ?_, ?_⟩
      · intro q hq
        split
        · rw [copy_at normalize_backup hp.final, if_neg fun h => hq h.1]
        · rfl
      · cases hadOld with
        | false => simpa using hnew rfl
        | true =>
          obtain ⟨hnone, hwas, hsaved⟩ := hold rfl
          rw [if_pos rfl, copy_at normalize_backup hp.final, hsaved, hnone]
          cases hr : e.ok .restoreOld with
          | true => simp [hwas]
          | false =>
            rw [if_neg (by simp)]
            refine iff_of_false (fun h => ?_) (by simp)
            rw [← h] at hwas
            exact Bool.false_ne_true hwas
    rw [← hfs', Settled, if_neg Bool.false_ne_true]
    dsimp only
    rw [remove_other normalize_backup _ _ hbf.symm, remove_other hp.temp _ _ htf.symm, hback,
      remove_other normalize_backup _ _ hib, remove_other hp.temp _ _ hit, hkeep _ hif, hdb,
      remove_other normalize_backup _ _ hbt.symm, remove_gone hp.temp, hkeep _ htf, hfile,
      remove_gone normalize_backup, remove_other hp.temp _ _ hbt, hkeep _ hbf]
    simp

/-- From the payload in the temporary file on. -/
theorem replace_settled (hp : Separate e hdr) {before fs : Fs}
    (htemp : fs (tempPath hdr) = some (.file payload)) (hdb : fs installedPath = before installedPath)
    (hfinal : fs (finalPath hdr) = before (finalPath hdr)) :
    Settled e hdr payload sourceName before (replaceFinal e hdr sourceName fs) ↔
      if e.ok .statFinal = true ∧ isFile (before (finalPath hdr)) = true then
        if e.ok .copyOld = true ∧ fs backupPath ≠ some .dir then
          if e.ok .removeOld = true then
            if e.ok .moveNew = true then
              Completes e hdr payload sourceName before (before (finalPath hdr))
                (e.ok .dropBackup = true)
            else e.ok .restoreOld = true ∧ e.ok .dropTempUnmoved = true ∧
              e.ok .dropBackupUnmoved = true
          else e.ok .dropTempUnremoved = true ∧ e.ok .dropBackupUnremoved = true
        else e.ok .dropTempUncopied = true ∧ isFile (fs backupPath) = false
      else if e.ok .moveNew = true ∧ before (finalPath hdr) = none then
        Completes e hdr payload sourceName before (before (finalPath hdr))
          (isFile (fs backupPath) = false ∨ e.ok .dropBackup = true)
      else e.ok .dropTempUnmoved = true ∧
        (isFile (fs backupPath) = false ∨ e.ok .dropBackupUnmoved = true) := by
  obtain ⟨hbf, hbt⟩ := hp.backup
  obtain ⟨hif, hit⟩ := hp.installed
  have hib : installedPath ≠ backupPath := by decide
  have htf := hp.temp_final
  have hfile : isFile (fs (tempPath hdr)) = true := by rw [htemp]; rfl
  have hstat : fsStatFile e .statFinal (finalPath hdr) fs =
      (e.ok .statFinal && isFile (before (finalPath hdr))) := by
    rw [fsStatFile, onPath_eq hp.final, hfinal]
  rw [replaceFinal, hstat]
  by_cases hold : e.ok .statFinal = true ∧ isFile (before (finalPath hdr)) = true
  case neg =>
    have hf : (e.ok .statFinal && isFile (before (finalPath hdr))) = false := by
      rw [← Bool.not_eq_true, Bool.and_eq_true]
      exact hold
    rw [hf, Bool.not_false, if_pos rfl, if_neg hold,
      move_settled hp false htemp hdb (by rintro ⟨⟩) fun _ => hfinal, hfinal]
    simp only [Bool.false_eq_true, false_implies, true_and]
  rw [hold.1, hold.2, Bool.and_true, Bool.not_true, if_neg Bool.false_ne_true, if_pos ⟨rfl, rfl⟩]
  dsimp only
  have hcopied : (fsCopyFile e .copyOld (finalPath hdr) backupPath fs).1 = true ↔
      e.ok .copyOld = true ∧ fs backupPath ≠ some .dir := by
    rw [copy_ok hp.final normalize_backup, hfinal, hold.2, Bool.and_true, Bool.and_eq_true,
      bne_iff_ne]
  have hcat := copy_at hp.final normalize_backup .copyOld fs
  by_cases hc : e.ok .copyOld = true ∧ fs backupPath ≠ some .dir
  case neg =>
    have hf : (fsCopyFile e .copyOld (finalPath hdr) backupPath fs).1 = false := by
      rw [← Bool.not_eq_true, hcopied]
      exact hc
    have hsame : (fsCopyFile e .copyOld (finalPath hdr) backupPath fs).2 = fs := by
      funext q
      rw [hcat, if_neg fun h => hc ⟨h.2.1, h.2.2.2⟩]
    rw [hf, hsame, Bool.not_false, if_pos rfl, if_neg hc, Settled, if_neg Bool.false_ne_true]
    dsimp only
    rw [remove_other hp.temp _ _ htf.symm, hfinal, remove_other hp.temp _ _ hit, hdb,
      remove_gone hp.temp, hfile, remove_other hp.temp _ _ hbt]
    simp
  -- the old file is in the backup
  generalize hfs' : (fsCopyFile e .copyOld (finalPath hdr) backupPath fs).2 = fs' at hcat
  have hwas : isFile (fs (finalPath hdr)) = true := by rw [hfinal]; exact hold.2
  have hbackup : fs' backupPath = before (finalPath hdr) := by
    rw [← hfs', copy_at hp.final normalize_backup, if_pos ⟨rfl, hc.1, hwas, hc.2⟩, hfinal]
  have hkeep : ∀ q, q ≠ backupPath → fs' q = fs q := by
    intro q hq
    rw [← hfs', copy_at hp.final normalize_backup, if_neg fun h => hq h.1]
  have hsaved : isFile (fs' backupPath) = true := by rw [hbackup]; exact hold.2
  rw [hcopied.mpr hc, Bool.not_true, if_neg Bool.false_ne_true, if_pos hc]
  have hremoved : (fsRemove e .removeOld (finalPath hdr) fs').1 = e.ok .removeOld := by
    rw [remove_ok hp.final, hkeep _ hbf.symm, hwas, Bool.and_true]
  rw [hremoved]
  cases hr : e.ok .removeOld with
  | false =>
    have hsame : (fsRemove e .removeOld (finalPath hdr) fs').2 = fs' := by
      funext q
      rw [remove_at hp.final, if_neg]
      rw [hr]
      simp
    rw [hsame, Bool.not_false, if_pos rfl, if_neg Bool.false_ne_true, Settled,
      if_neg Bool.false_ne_true]
    dsimp only
    rw [remove_other normalize_backup _ _ hbf.symm, remove_other hp.temp _ _ htf.symm,
      hkeep _ hbf.symm, hfinal, remove_other normalize_backup _ _ hib, remove_other hp.temp _ _ hit,
      hkeep _ hib, hdb, remove_other normalize_backup _ _ hbt.symm, remove_gone hp.temp,
      hkeep _ hbt.symm, hfile, remove_gone normalize_backup, remove_other hp.temp _ _ hbt, hsaved]
    simp
  | true =>
    have hgone : (fsRemove e .removeOld (finalPath hdr) fs').2 (finalPath hdr) = none := by
      rw [remove_at hp.final, if_pos ⟨rfl, hr, by rw [hkeep _ hbf.symm]; exact hwas⟩]
    have hb : (fsRemove e .removeOld (finalPath hdr) fs').2 backupPath = before (finalPath hdr) := by
      rw [remove_other hp.final _ _ hbf, hbackup]
    rw [Bool.not_true, if_neg Bool.false_ne_true, if_pos rfl,
      move_settled hp true (by rw [remove_other hp.final _ _ htf, hkeep _ hbt.symm, htemp])
        (by rw [remove_other hp.final _ _ hif, hkeep _ hib, hdb]) (fun _ => ⟨hgone, hold.2, hb⟩)
        (by rintro ⟨⟩), hgone, hb, hold.2]
    simp only [and_true, Bool.true_eq_false, false_or, true_implies]

/-- The steps that failed, if any, and the old files leave it to the installation to put things
back. -/
def Recovers (e : Env) (hdr : KpmPackageHeader) (payload : List UInt8)
    (sourceName : Option (List UInt8)) (fs : Fs) : Prop :=
  let backupGone := isFile (fs backupPath) = false ∨ e.ok .cleanBackup = true
  if e.ok .writeTemp = true ∧ fs (tempPath hdr) ≠ some .dir then
    if e.ok .statFinal = true ∧ isFile (fs (finalPath hdr)) = true then
      if e.ok .copyOld = true ∧ fs backupPath ≠ some .dir then
        if e.ok .removeOld = true then
          if e.ok .moveNew = true then
            Completes e hdr payload sourceName fs (fs (finalPath hdr)) (e.ok .dropBackup = true)
          else e.ok .restoreOld = true ∧ e.ok .dropTempUnmoved = true ∧
            e.ok .dropBackupUnmoved = true
        else e.ok .dropTempUnremoved = true ∧ e.ok .dropBackupUnremoved = true
      else e.ok .dropTempUncopied = true ∧ backupGone
    else if e.ok .moveNew = true ∧ fs (finalPath hdr) = none then
      Completes e hdr payload sourceName fs (fs (finalPath hdr))
        (backupGone ∨ e.ok .dropBackup = true)
    else e.ok .dropTempUnmoved = true ∧ (backupGone ∨ e.ok .dropBackupUnmoved = true)
  else (isFile (fs (tempPath hdr)) = false ∨ e.ok .cleanTemp = true) ∧ backupGone

theorem accepted_settled (h : k64KpmValidatePackageBytes data = .ok hdr) :
    Settled e hdr (data.drop headerSize) sourceName fs
      (k64KpmInstallPackageBytes e data sourceName fs) ↔
      Recovers e hdr (data.drop headerSize) sourceName fs := by
  have hp := separate_of_placed (e := e) (accepted_placed (accepted_of_ok h))
  obtain ⟨hbf, hbt⟩ := hp.backup
  obtain ⟨hif, hit⟩ := hp.installed
  have hib : installedPath ≠ backupPath := by decide
  have htf := hp.temp_final
  have hdirs : ∀ q, q = finalPath hdr ∨ q = tempPath hdr → q ∉ kpmDirs := by
    intro q hq hmem
    obtain ⟨h1, h2⟩ := hp.fixed q (Or.inr (Or.inr hmem))
    rcases hq with hq | hq
    · exact h1 hq
    · exact h2 hq
  have hfixed : backupPath ∉ kpmDirs ∧ installedPath ∉ kpmDirs := by decide
  generalize hcleaned : (fsRemove e .cleanBackup backupPath
    (fsRemove e .cleanTemp (tempPath hdr) (kpmEnsureDirs e fs)).2).2 = cleaned
  have hcfinal : cleaned (finalPath hdr) = fs (finalPath hdr) := by
    rw [← hcleaned, remove_other normalize_backup _ _ hbf.symm, remove_other hp.temp _ _ htf.symm,
      ensure_dirs_kept (hdirs _ (Or.inl rfl))]
  have hcdb : cleaned installedPath = fs installedPath := by
    rw [← hcleaned, remove_other normalize_backup _ _ hib, remove_other hp.temp _ _ hit,
      ensure_dirs_kept hfixed.2]
  have hctemp : (isFile (cleaned (tempPath hdr)) = false ↔
      isFile (fs (tempPath hdr)) = false ∨ e.ok .cleanTemp = true) ∧
      (cleaned (tempPath hdr) = some .dir ↔ fs (tempPath hdr) = some .dir) := by
    rw [← hcleaned, remove_other normalize_backup _ _ hbt.symm, remove_gone hp.temp,
      remove_dir hp.temp, ensure_dirs_kept (hdirs _ (Or.inr rfl))]
    exact ⟨Iff.rfl, Iff.rfl⟩
  have hcbackup : (isFile (cleaned backupPath) = false ↔
      isFile (fs backupPath) = false ∨ e.ok .cleanBackup = true) ∧
      (cleaned backupPath = some .dir ↔ fs backupPath = some .dir) := by
    rw [← hcleaned, remove_gone normalize_backup, remove_dir normalize_backup,
      remove_other hp.temp _ _ hbt, ensure_dirs_kept hfixed.1]
    exact ⟨Iff.rfl, Iff.rfl⟩
  have hwritten : (fsWriteFileRaw e .writeTemp (tempPath hdr) (data.drop headerSize) cleaned).1 =
      true ↔ e.ok .writeTemp = true ∧ fs (tempPath hdr) ≠ some .dir := by
    rw [write_ok hp.temp, Bool.and_eq_true, bne_iff_ne, Ne, hctemp.2]
  have hwat := write_at hp.temp .writeTemp (data.drop headerSize) cleaned
  rw [k64KpmInstallPackageBytes, h]
  dsimp only
  rw [hcleaned, Recovers]
  by_cases hw : e.ok .writeTemp = true ∧ fs (tempPath hdr) ≠ some .dir
  · have hcw : e.ok .writeTemp = true ∧ cleaned (tempPath hdr) ≠ some .dir :=
      ⟨hw.1, fun hdir => hw.2 (hctemp.2.mp hdir)⟩
    have hother : ∀ q, q ≠ tempPath hdr →
        (fsWriteFileRaw e .writeTemp (tempPath hdr) (data.drop headerSize) cleaned).2 q = cleaned q := by
      intro q hq
      rw [hwat, if_neg fun hc => hq hc.1]
    rw [hwritten.mpr hw, Bool.not_true, if_neg Bool.false_ne_true, if_pos hw,
      replace_settled hp (by rw [hwat, if_pos ⟨rfl, hcw⟩]) (by rw [hother _ hit, hcdb])
        (by rw [hother _ htf.symm, hcfinal]), hother _ hbt, hcbackup.1]
    simp only [ne_eq, hcbackup.2]
  · have hf : (fsWriteFileRaw e .writeTemp (tempPath hdr) (data.drop headerSize) cleaned).1 =
        false := by
      rw [← Bool.not_eq_true, hwritten]
      exact hw
    have hsame : (fsWriteFileRaw e .writeTemp (tempPath hdr) (data.drop headerSize) cleaned).2 =
        cleaned := by
      funext q
      rw [hwat, if_neg]
      rintro ⟨-, hok, hne⟩
      exact hw ⟨hok, fun hdir => hne (hctemp.2.mpr hdir)⟩
    rw [hf, hsame, Bool.not_false, if_pos rfl, if_neg hw, Settled, if_neg Bool.false_ne_true]
    dsimp only
    rw [hcfinal, hcdb, hctemp.1, hcbackup.1, and_iff_right rfl, and_iff_right rfl]

/-- An installation is atomic if and only if the package is refused, or every step that undoes
something works and nothing fails behind the move. -/
theorem install_atomic_iff (e : Env) (data : List UInt8) (sourceName : Option (List UInt8))
    (fs : Fs) : Atomic e data sourceName fs ↔
      ∀ hdr, k64KpmValidatePackageBytes data = .ok hdr →
        Recovers e hdr (data.drop headerSize) sourceName fs := by
  rw [Atomic]
  cases h : k64KpmValidatePackageBytes data with
  | error text =>
    refine iff_of_true ?_ nofun
    rw [k64KpmInstallPackageBytes, h]
  | ok hdr =>
    dsimp only
    rw [accepted_settled h]
    exact ⟨fun hr hdr' heq => by cases heq; exact hr, fun hr => hr hdr rfl⟩

/-- The old `/ex/hello.elf`. -/
def oldHello : Fs := fun p => if p = ascii "/ex/hello.elf" then some (.file [1]) else none

def databaseFails : Env := ⟨fun site => site != .writeDb, [slash]⟩

theorem hello_finalPath : finalPath (readHeader helloPackage) = ascii "/ex/hello.elf" := by
  decide +kernel

/-- The installation fails, and the old file is gone. -/
theorem failed_database_loses_file : ¬ Atomic databaseFails helloPackage none oldHello := by
  rw [Atomic, hello_accepted]
  dsimp only
  have hold : oldHello (finalPath (readHeader helloPackage)) = some (.file [1]) := by
    rw [hello_finalPath]
    exact if_pos rfl
  have hnodir : ∀ p, oldHello p ≠ some .dir := by
    intro p
    rw [oldHello]
    split <;> nofun
  have hpayload : helloPackage.drop headerSize = [] := by decide +kernel
  have hremove : databaseFails.ok .removeOld = true := rfl
  have hmove : databaseFails.ok .moveNew = true := rfl
  rw [accepted_settled hello_accepted, Recovers, if_pos ⟨rfl, hnodir _⟩,
    if_pos ⟨rfl, by rw [hold]; rfl⟩, if_pos ⟨rfl, hnodir _⟩, if_pos hremove, if_pos hmove, Completes,
    if_neg fun h => absurd h.1 (by decide), hold, hpayload]
  rintro ⟨hsame, -⟩
  cases hsame

end KpmInstall
