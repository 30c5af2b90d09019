import K64.PipeReferences
import K64.PipeStreams

/-! # What is read from open files

The data of an open file is the one buffer that all files are loaded into. A descriptor gives the
bytes of its file as long as nothing else is loaded there. -/
namespace UserMode

open ByteCodec

/-- What an event loads into the buffer of the file system. -/
def loadedBytes (s : State) : Event → List UInt8
  | .load bytes => bytes
  | .call i (.open files r) =>
    match openPath { s with processIndex := i } files r with
    | some path => (files.load path).bytes
    | none => []
  | _ => []

/-- What is loaded agrees with the bytes of a file, where both have bytes. -/
def Unspoiled (bytes : List UInt8) (s : State) (e : Event) : Prop :=
  ∀ n < bytes.length, ∀ b, (loadedBytes s e)[n]? = some b → bytes[n]? = some b

/-- The descriptor is not closed, and its process not reaped or replaced. -/
def KeepsOpen (i j : ℕ) (s : State) : Event → Prop
  | .create _ pid => processSlot s pid ≠ some i
  | .reap i' => i' ≠ i
  | .call i' (.close r) => i' = i → ∀ l, r.input = some l →
      getFd { s with processIndex := i } (word64 l 0) ≠ some j
  | _ => True

/-- What a read returns to its caller when it is one of the descriptor `j` of the entry `i`. -/
def readBytes (i j : ℕ) (s : State) : Event → List UInt8
  | .call i' (.read typed r) =>
    match r.input with
    | some l =>
      if i' = i ∧ getFd { s with processIndex := i } (word64 l 0) = some j then
        (ioReadServiceCall { s with processIndex := i } typed r).1.out
      else []
    | none => []
  | _ => []

/-- From the opening of a file with these bytes on, with all that is read from the descriptor. -/
inductive FileRun (allowed : State → Event → Prop) (i j : ℕ) (bytes : List UInt8) :
    State → List UInt8 → Prop where
  | opened {s : State} (files : Files) (r : Request) (path : List UInt8) (index : j < fdMax)
      (possible : Possible s (.call i (.open files r)))
      (reached : openPath { s with processIndex := i } files r = some path)
      (held : files.load path = .loaded bytes)
      (answer : (step s (.call i (.open files r))).1 = replyResult (j + 3 : ℕ)) :
      FileRun allowed i j bytes (step s (.call i (.open files r))).2 []
  | step {s : State} {read : List UInt8} (e : Event) (h : FileRun allowed i j bytes s read)
      (possible : Possible s e) (ok : allowed s e) (kept : KeepsOpen i j s e) :
      FileRun allowed i j bytes (step s e).2 (read ++ readBytes i j s e)

variable {s t : State} {i j k : ℕ} {bytes read : List UInt8} {e : Event} {fd : Fd}

structure OpenFile (i j : ℕ) (bytes : List UInt8) (s : State) (offset : ℕ) : Prop where
  entry : i < processMax ∧ (s.processTable i).used = true
  index : j < fdMax
  descriptor : (s.processTable i).fds j = ⟨true, .file, .fsRawBuffer, bytes.length, offset, -1⟩
  offset_le : offset ≤ bytes.length
  buffer : ∀ n b, bytes[n]? = some b → s.fsRawBuffer n = b

variable {offset : ℕ}

theorem OpenFile.kept (h : OpenFile i j bytes s offset)
    (hused : (t.processTable i).used = true)
    (hfd : (t.processTable i).fds j = (s.processTable i).fds j)
    (hbuffer : ∀ n b, bytes[n]? = some b → t.fsRawBuffer n = s.fsRawBuffer n) :
    OpenFile i j bytes t offset :=
  ⟨⟨h.entry.1, hused⟩, h.index, hfd.trans h.descriptor, h.offset_le, fun n b hn =>
    (hbuffer n b hn).trans (h.buffer n b hn)⟩

theorem fill_keeps {l : List UInt8} (h : OpenFile i j bytes s offset)
    (hl : ∀ n < bytes.length, ∀ b, l[n]? = some b → bytes[n]? = some b) :
    OpenFile i j bytes (s.fill l) offset := by
  refine h.kept h.entry.2 rfl fun n b hn => ?_
  obtain ⟨hlt, -⟩ := List.getElem?_eq_some_iff.mp hn
  change (l[n]?).getD (s.fsRawBuffer n) = s.fsRawBuffer n
  cases hln : l[n]? with
  | none => rfl
  | some b' =>
    rw [Option.getD_some, h.buffer n b hn]
    have hb := hl n hlt b' hln
    rw [hn] at hb
    exact (Option.some.inj hb).symm

theorem setCurrentFd_fsRawBuffer (s : State) (j : ℕ) (fd : Fd) :
    (setCurrentFd s j fd).fsRawBuffer = s.fsRawBuffer := by
  unfold setCurrentFd
  split <;> rfl

/-- The entry stays in use, its descriptor as it is, and the buffer too. -/
structure Keeps (s t : State) (i j : ℕ) : Prop where
  used : (t.processTable i).used = (s.processTable i).used
  fd : (t.processTable i).fds j = (s.processTable i).fds j
  buffer : t.fsRawBuffer = s.fsRawBuffer

theorem Keeps.refl (s : State) (i j : ℕ) : Keeps s s i j := ⟨rfl, rfl, rfl⟩

theorem Keeps.trans {u : State} (h : Keeps s t i j) (h' : Keeps t u i j) : Keeps s u i j :=
  ⟨h'.used.trans h.used, h'.fd.trans h.fd, h'.buffer.trans h.buffer⟩

theorem OpenFile.of_keeps (h : OpenFile i j bytes s offset) (hk : Keeps s t i j) :
    OpenFile i j bytes t offset :=
  h.kept (hk.used.trans h.entry.2) hk.fd fun n _ _ => congrFun hk.buffer n

theorem setCurrentFd_keeps {j' : ℕ} (hother : currentProcess s = some i → j ≠ j') :
    Keeps s (setCurrentFd s j' fd) i j := by
  unfold setCurrentFd
  split
  · rename_i i' hi'
    have htable : ∀ f, (s.setProcess i' f).processTable i =
        if i = i' then f (s.processTable i') else s.processTable i :=
      fun f => Function.update_apply _ _ _ _
    by_cases hi : i = i'
    · refine ⟨?_, ?_, rfl⟩
      · rw [htable, if_pos hi, hi]
      · rw [htable, if_pos hi, hi]
        exact Function.update_of_ne (hother (hi ▸ hi')) _ _
    · refine ⟨?_, ?_, rfl⟩ <;> rw [htable, if_neg hi]
  · exact ⟨rfl, rfl, rfl⟩

theorem allocFd_keeps (hused : ((s.processTable i).fds j).used = true) :
    Keeps s (allocFd s fd).2 i j := by
  unfold allocFd
  split
  · rename_i j' hj'
    apply setCurrentFd_keeps
    rintro hi rfl
    have hunused := List.find?_some hj'
    unfold currentFds at hunused
    rw [hi] at hunused
    dsimp only at hunused
    rw [hused] at hunused
    cases hunused
  · exact Keeps.refl s i j

theorem fsReadFileRaw_keeps {files : Files} {path : List UInt8}
    (h : OpenFile i j bytes s offset)
    (hl : ∀ n < bytes.length, ∀ b, (files.load path).bytes[n]? = some b → bytes[n]? = some b) :
    OpenFile i j bytes (fsReadFileRaw s files path).2 offset := by
  have hfill : (fsReadFileRaw s files path).2 = s.fill (files.load path).bytes := by
    unfold fsReadFileRaw
    split
    · rename_i heq
      rw [heq]
      rfl
    · rfl
  rw [hfill]
  exact fill_keeps h hl

theorem ioWrite_keeps (s : State) (r : Request) (i j : ℕ) :
    Keeps s (ioWriteServiceCall s r).2 i j := by
  have hwrite : ∀ fd len bytes, (writePipe s fd len bytes).2.fsRawBuffer = s.fsRawBuffer := by
    intro fd len bytes
    unfold writePipe
    split
    · rfl
    · dsimp only
      split
      · rfl
      · split <;> rfl
  obtain ⟨hp, -⟩ := ioWrite_frame s r
  refine ⟨by rw [hp], by rw [hp], ?_⟩
  unfold ioWriteServiceCall
  split
  case h_2 => rfl
  dsimp only
  split
  · rfl
  split
  · rfl
  split
  · rfl
  split
  · rfl
  split
  · exact hwrite _ _ _
  · rfl

variable {r : Request}

theorem ioClose_keeps (hother : currentProcess s = some i →
    ∀ l, r.input = some l → getFd s (word64 l 0) ≠ some j) :
    Keeps s (ioCloseServiceCall s r).2 i j := by
  have hdrop : ∀ n kind, Keeps s (pipeDropRef s n kind) i j ∧
      currentProcess (pipeDropRef s n kind) = currentProcess s := by
    intro n kind
    unfold pipeDropRef
    split <;> exact ⟨⟨rfl, rfl, rfl⟩, rfl⟩
  unfold ioCloseServiceCall
  cases hl : r.input with
  | none => exact Keeps.refl s i j
  | some l =>
    dsimp only
    split
    · exact Keeps.refl s i j
    split
    · exact Keeps.refl s i j
    rename_i j' hj'
    have hne : currentProcess s = some i → j ≠ j' := by
      rintro hi rfl
      exact hother hi l hl hj'
    dsimp only
    split
    · obtain ⟨hkeeps, hcur⟩ := hdrop (currentFds s j').pipeIndex (currentFds s j').kind
      exact hkeeps.trans (setCurrentFd_keeps (by rw [hcur]; exact hne))
    · exact setCurrentFd_keeps hne

theorem ioPipe_keeps (r : Request) (hused : ((s.processTable i).fds j).used = true) :
    Keeps s (ioPipeServiceCall s r).2 i j := by
  unfold ioPipeServiceCall
  split
  case h_2 => exact Keeps.refl s i j
  split
  · exact Keeps.refl s i j
  unfold pipeAlloc
  cases (List.range pipeMax).find? fun k => !(s.pipeTable k).used with
  | none => exact Keeps.refl s i j
  | some k =>
    dsimp only
    generalize hmade : s.setPipe k _ = made
    have hm : Keeps s made i j := by
      rw [← hmade]
      exact ⟨rfl, rfl, rfl⟩
    have hread : Keeps s (allocFdPipe made k .pipeRead).2 i j :=
      hm.trans (allocFd_keeps (hm.fd ▸ hused))
    have hwrite : Keeps s (allocFdPipe (allocFdPipe made k .pipeRead).2 k .pipeWrite).2 i j :=
      hread.trans (allocFd_keeps (hread.fd ▸ hused))
    split
    · exact hwrite
    · exact hwrite.trans ⟨rfl, rfl, rfl⟩

theorem ioRead_keeps {typed : List UInt8} (hother : currentProcess s = some i →
    ∀ l, r.input = some l → getFd s (word64 l 0) ≠ some j) :
    Keeps s (ioReadServiceCall s typed r).2 i j := by
  unfold ioReadServiceCall
  split
  case h_2 => exact Keeps.refl s i j
  rename_i l outLen hl _
  dsimp only
  split
  · exact Keeps.refl s i j
  split
  · exact Keeps.refl s i j
  split
  · exact Keeps.refl s i j
  split
  · exact Keeps.refl s i j
  rename_i j' hj'
  split
  · unfold readPipe
    split
    · exact Keeps.refl s i j
    · dsimp only
      split
      · split <;> exact Keeps.refl s i j
      · exact ⟨rfl, rfl, rfl⟩
  · apply setCurrentFd_keeps
    rintro hi rfl
    exact hother hi l hl hj'
  · exact Keeps.refl s i j

theorem currentFds_eq (hc : currentProcess s = some i) :
    currentFds s = (s.processTable i).fds := by
  unfold currentFds
  rw [hc]

theorem setCurrentFd_open {offset' : ℕ} (h : OpenFile i j bytes s offset)
    (hc : currentProcess s = some i) (hle : offset' ≤ bytes.length) :
    OpenFile i j bytes
      (setCurrentFd s j ⟨true, .file, .fsRawBuffer, bytes.length, offset', -1⟩) offset' := by
  unfold setCurrentFd
  rw [hc]
  refine ⟨⟨h.entry.1, ?_⟩, h.index, ?_, hle, h.buffer⟩
  · simp [State.setProcess, h.entry.2]
  · simp [State.setProcess]

theorem ioRead_file {typed l : List UInt8}
    (h : OpenFile i j bytes s offset) (hc : currentProcess s = some i) (hl : r.input = some l)
    (hj : getFd s (word64 l 0) = some j) : ∃ count, count ≤ bytes.length - offset ∧
      (ioReadServiceCall s typed r).1.out = (bytes.drop offset).take count ∧
      OpenFile i j bytes (ioReadServiceCall s typed r).2 (offset + count) := by
  have hnothing : ∃ count, count ≤ bytes.length - offset ∧
      (invalid s).1.out = (bytes.drop offset).take count ∧
      OpenFile i j bytes (invalid s).2 (offset + count) := ⟨0, Nat.zero_le _, rfl, h⟩
  unfold ioReadServiceCall
  rw [hl]
  cases r.outLen with
  | none => exact hnothing
  | some outLen =>
  dsimp only
  split
  · exact hnothing
  split
  · exact hnothing
  split
  · rename_i hzero
    rw [hzero] at hj
    cases hj
  rw [hj]
  dsimp only
  rw [currentFds_eq hc, h.descriptor]
  unfold readFile
  dsimp only
  generalize hcount : (if word64 l 8 < bytes.length - offset then word64 l 8
    else bytes.length - offset) = count
  have hle : count ≤ bytes.length - offset := by
    rw [← hcount]
    split <;> omega
  have hoffset := h.offset_le
  refine ⟨count, hle, ?_, setCurrentFd_open h hc (by omega)⟩
  apply List.ext_getElem
  · simp
    omega
  · intro n hn _
    rw [List.length_map, List.length_range] at hn
    rw [List.getElem_map, List.getElem_range, List.getElem_take, List.getElem_drop]
    exact h.buffer _ _ (List.getElem?_eq_getElem (by omega))

theorem reported_fd {n : ℕ} (h : n < fdMax) : reported (replyResult (n + 3 : ℕ)) = n + 3 := by
  have hmax : fdMax = 16 := rfl
  exact reported_result (by omega)

theorem ioOpen_file {files : Files} {path : List UInt8} (hcalls : Calls s i)
    (hj : j < fdMax) (hreach : openPath s files r = some path)
    (hheld : files.load path = .loaded bytes)
    (hanswer : (ioOpenServiceCall s files r).1 = replyResult (j + 3 : ℕ)) :
    OpenFile i j bytes (ioOpenServiceCall s files r).2 0 := by
  have hcases := ioOpen_cases s files r
  rw [hreach] at hcases
  have hreported := congrArg reported hanswer
  rw [reported_fd hj] at hreported
  generalize ioOpenServiceCall s files r = res at hcases hreported ⊢
  have hraw : fsReadFileRaw s files path = (some bytes.length, s.fill bytes) := by
    unfold fsReadFileRaw
    rw [hheld]
  cases hcases with
  | unread _ failed =>
    rw [hraw] at failed
    cases failed
  | full _ size _ _ =>
    rw [reported_error (by decide) (by decide)] at hreported
    omega
  | opened _ size fd hread hgave =>
    rw [hraw] at hread hgave ⊢
    obtain rfl := Option.some.inj hread
    unfold allocFdFile allocFd at hgave ⊢
    split at hgave
    case h_2 => cases hgave
    rename_i j' hj'
    obtain rfl := Option.some.inj hgave
    have hlt := List.mem_range.mp (List.mem_of_find?_eq_some hj')
    rw [reported_fd hlt] at hreported
    obtain rfl : j = j' := by omega
    have hchanged := (hcalls.kept (t := s.fill bytes) (fun _ => Iff.rfl) rfl).changed hlt
      ⟨true, .file, .fsRawBuffer, bytes.length, 0, -1⟩
    refine ⟨⟨hcalls.entry, ((hchanged.live i).mpr hcalls.live).1⟩, hlt, hchanged.changed, Nat.zero_le _,
      fun n b hn => ?_⟩
    change (setCurrentFd (s.fill bytes) j _).fsRawBuffer n = b
    rw [setCurrentFd_fsRawBuffer]
    change (bytes[n]?).getD _ = b
    rw [hn, Option.getD_some]

theorem processAlloc_keeps {parentPid pid : UInt64} (h : processSlot s pid ≠ some i) :
    Keeps s (processAlloc s parentPid pid).2 i j := by
  unfold processAlloc
  split
  · exact Keeps.refl s i j
  · rename_i i' hi'
    have hne : i ≠ i' := by
      rintro rfl
      exact h hi'
    refine ⟨?_, ?_, rfl⟩ <;> simp [State.setProcess, hne]

theorem processFinish_keeps (s : State) (index : ℕ) (state : ProcessState) (exitCode : ℤ) :
    Keeps s (processFinish s index state exitCode) i j := by
  unfold processFinish
  split
  · exact Keeps.refl s i j
  · refine ⟨?_, ?_, rfl⟩ <;> by_cases hi : i = index <;> simp [State.setProcess, hi]

theorem processReap_keeps {index : ℕ} (h : index ≠ i) : Keeps s (processReap s index) i j := by
  unfold processReap
  split
  · exact Keeps.refl s i j
  · refine ⟨?_, ?_, rfl⟩ <;> simp [State.setProcess, h.symm]

theorem calls_current {index : ℕ} (hp : Possible s (.call index c)) :
    currentProcess { s with processIndex := index } = some index :=
  (Calls.of_live hp.1 hp.2).current

theorem openFile_step (h : OpenFile i j bytes s offset) (hp : Possible s e)
    (ok : Unspoiled bytes s e) (hk : KeepsOpen i j s e) :
    ∃ count, count ≤ bytes.length - offset ∧ readBytes i j s e = (bytes.drop offset).take count ∧
      OpenFile i j bytes (step s e).2 (offset + count) := by
  have hnothing : readBytes i j s e = [] → OpenFile i j bytes (step s e).2 offset →
      ∃ count, count ≤ bytes.length - offset ∧
        readBytes i j s e = (bytes.drop offset).take count ∧
        OpenFile i j bytes (step s e).2 (offset + count) :=
    fun hr ho => ⟨0, Nat.zero_le _, hr, ho⟩
  have hused : ((s.processTable i).fds j).used = true := by rw [h.descriptor]
  cases e with
  | create parentPid pid => exact hnothing rfl (h.of_keeps (processAlloc_keeps hk))
  | finish index state exitCode =>
    exact hnothing rfl (h.of_keeps (processFinish_keeps s index state exitCode))
  | reap index => exact hnothing rfl (h.of_keeps (processReap_keeps hk))
  | load l => exact hnothing rfl (fill_keeps h ok)
  | call index c =>
    have hcur := calls_current hp
    have hopen : OpenFile i j bytes { s with processIndex := index } offset :=
      h.of_keeps ⟨rfl, rfl, rfl⟩
    cases c with
    | write r => exact hnothing rfl (hopen.of_keeps (ioWrite_keeps _ r i j))
    | «open» files r =>
      apply hnothing rfl
      unfold Unspoiled loadedBytes at ok
      dsimp only at ok
      change OpenFile i j bytes (ioOpenServiceCall { s with processIndex := index } files r).2 offset
      have hcases := ioOpen_cases { s with processIndex := index } files r
      generalize ioOpenServiceCall { s with processIndex := index } files r = res,
        openPath { s with processIndex := index } files r = path at hcases ok
      cases hcases with
      | refused | invalid => exact hopen
      | unread path _ => exact fsReadFileRaw_keeps hopen ok
      | full path size _ _ | opened path size _ _ _ =>
        have hraw := fsReadFileRaw_keeps hopen ok
        apply hraw.of_keeps
        apply allocFd_keeps
        rw [hraw.descriptor]
    | close r =>
      apply hnothing rfl
      apply hopen.of_keeps
      apply ioClose_keeps
      intro hi l hl
      rw [hcur] at hi
      obtain rfl := Option.some.inj hi
      exact hk rfl l hl
    | pipe r => exact hnothing rfl (hopen.of_keeps (ioPipe_keeps r hused))
    | read typed r =>
      unfold readBytes
      dsimp only
      cases hl : r.input with
      | none =>
        refine ⟨0, Nat.zero_le _, rfl, hopen.of_keeps (ioRead_keeps fun _ l hl' => ?_)⟩
        rw [hl] at hl'
        cases hl'
      | some l =>
        dsimp only
        by_cases hours : index = i ∧ getFd { s with processIndex := i } (word64 l 0) = some j
        · obtain ⟨rfl, hj⟩ := hours
          rw [if_pos ⟨rfl, hj⟩]
          exact ioRead_file hopen hcur hl hj
        · rw [if_neg hours]
          refine ⟨0, Nat.zero_le _, rfl, hopen.of_keeps (ioRead_keeps fun hi l' hl' hj => ?_)⟩
          rw [hcur] at hi
          obtain rfl := Option.some.inj hi
          rw [hl] at hl'
          obtain rfl := Option.some.inj hl'
          exact hours ⟨rfl, hj⟩

/-- What is read from a descriptor are bytes of the file from its beginning, as long as nothing else
is loaded over them. -/
theorem file_reads_prefix (h : FileRun (Unspoiled bytes) i j bytes s read) : read <+: bytes := by
  have hrun : OpenFile i j bytes s read.length ∧ read = bytes.take read.length := by
    induction h with
    | @opened s files r path index possible reached held answer =>
      refine ⟨?_, rfl⟩
      exact ioOpen_file (Calls.of_live possible.1 possible.2) index reached held answer
    | @step s read e _ possible ok kept ih =>
      obtain ⟨hopen, hread⟩ := ih
      obtain ⟨count, hle, hbytes, hopen'⟩ := openFile_step hopen possible ok kept
      have hlen : (read ++ readBytes i j s e).length = read.length + count := by
        rw [hbytes, List.length_append, List.length_take, List.length_drop]
        omega
      rw [hlen]
      refine ⟨hopen', ?_⟩
      rw [hbytes, List.take_add, ← hread]
  rw [hrun.2]
  exact List.take_prefix _ _

/-- A file system with the files "a" and "b". -/
def twoFiles : Files where
  stat path := if path = [97] ∨ path = [98] then some ⟨0, 0, 0⟩ else none
  load path :=
    if path = [97] then .loaded [1, 2] else if path = [98] then .loaded [3, 4] else .refused

def openFile (name : UInt8) : Event :=
  .call 0 (.open twoFiles ⟨some [name, 0], fun _ => 0, some 8⟩)

def readFirst : Event := .call 0 (.read [] ⟨some (leBytes 8 3 ++ leBytes 8 2), fun _ => 0, some 2⟩)

theorem openFirst_run (allowed : State → Event → Prop) :
    FileRun allowed 0 0 [1, 2] (step firstProcess (openFile 97)).2 [] :=
  .opened twoFiles ⟨some [97, 0], fun _ => 0, some 8⟩ [97] (by decide) (by decide) (by decide) rfl
    (by decide)

theorem first_file_read :
    readBytes 0 0 (step firstProcess (openFile 97)).2 readFirst <+: [1, 2] :=
  file_reads_prefix ((openFirst_run (Unspoiled [1, 2])).step readFirst (by decide)
    (fun _ _ _ h => by cases h) trivial)

/-- Between the opening and the first read of a file another one is opened. -/
theorem second_file_overwrites_first : ∃ t read, FileRun (fun _ _ => True) 0 0 [1, 2] t read ∧
    read = [3, 4] ∧ ¬ read <+: [1, 2] := by
  have hsecond := (openFirst_run fun _ _ => True).step (openFile 98) (by decide) trivial trivial
  refine ⟨_, _, hsecond.step readFirst (by decide) trivial trivial, by decide, by decide⟩

end UserMode
