import K64.DescriptorFrames

/-! # Pipes are first in, first out

From the moment a pipe is made until it is freed, what comes out of it and what is still in it is
what went in, whoever writes and reads. -/
namespace UserMode

open RingBuffer ByteCodec

variable {s t : State} {k : ℕ} {e : Event}

/-- The pipe that a request is about: the descriptor it names is an end of that kind. -/
def targetPipe (s : State) (kind : FdKind) (l : List UInt8) : Option ℕ :=
  match getFd s (word64 l 0) with
  | some j => if (currentFds s j).kind = kind then pipeOf s (currentFds s j).pipeIndex else none
  | none => none

def reported (a : Answer) : ℕ := if leNat a.out < 2 ^ 63 then leNat a.out else 0

/-- What a write says that it put into the pipe. -/
def acceptedByWrite (s : State) (k : ℕ) (r : Request) : List UInt8 :=
  match r.input with
  | some l =>
    if targetPipe s .pipeWrite l = some k then
      (List.range (reported (ioWriteServiceCall s r).1)).map (r.payload l)
    else []
  | none => []

def deliveredByRead (s : State) (k : ℕ) (typed : List UInt8) (r : Request) : List UInt8 :=
  match r.input with
  | some l =>
    if targetPipe s .pipeRead l = some k then (ioReadServiceCall s typed r).1.out else []
  | none => []

def acceptedBytes (s : State) (k : ℕ) : Event → List UInt8
  | .call i (.write r) => acceptedByWrite { s with processIndex := i } k r
  | _ => []

def deliveredBytes (s : State) (k : ℕ) : Event → List UInt8
  | .call i (.read typed r) => deliveredByRead { s with processIndex := i } k typed r
  | _ => []

theorem leNat_encode64 {n : ℕ} (h : n < 2 ^ 64) : leNat (encode64 n) = n := by
  unfold encode64
  rw [leNat_leBytes]
  have hmod : ((n : ℤ) % 2 ^ 64).toNat = n := by omega
  rw [hmod]
  exact Nat.mod_eq_of_lt h

theorem reported_result {n : ℕ} (h : n < 2 ^ 63) : reported (replyResult n) = n := by
  unfold reported replyResult
  dsimp only
  rw [leNat_encode64 (by omega), if_pos h]

theorem reported_error {n : ℤ} (h : n < 0) (hn : - 2 ^ 63 ≤ n) : reported (replyResult n) = 0 := by
  unfold reported replyResult encode64
  dsimp only
  rw [leNat_leBytes, show 256 ^ 8 = 2 ^ 64 from rfl, if_neg]
  omega

variable {kind : FdKind} {l : List UInt8}

theorem targetPipe_of_getFd {j : ℕ}
    (hj : getFd s (word64 l 0) = some j) (hkind : (currentFds s j).kind = kind) :
    targetPipe s kind l = pipeOf s (currentFds s j).pipeIndex := by
  unfold targetPipe
  rw [hj]
  dsimp only
  rw [if_pos hkind]

theorem targetPipe_eq_none
    (h : ∀ j, getFd s (word64 l 0) = some j → (currentFds s j).kind ≠ kind) :
    targetPipe s kind l = none := by
  unfold targetPipe
  split
  · rw [if_neg (h _ ‹_›)]
  · rfl

theorem targetPipe_unopened (h : getFd s (word64 l 0) = none) : targetPipe s kind l = none :=
  targetPipe_eq_none fun j hj => by
    rw [h] at hj
    cases hj

theorem getFd_standard {fd : ℕ} (h : fd < 3) : getFd s fd = none := by
  unfold getFd
  rw [if_pos h]

variable {r : Request}

theorem ioWrite_cases (hl : r.input = some l) :
    ((ioWriteServiceCall s r).2.pipeTable = s.pipeTable ∧
      (reported (ioWriteServiceCall s r).1 = 0 ∨ targetPipe s .pipeWrite l = none)) ∨
    ∃ j, targetPipe s .pipeWrite l = pipeOf s (currentFds s j).pipeIndex ∧
      ioWriteServiceCall s r =
        (replyResult (writePipe s (currentFds s j) (word64 l 8) (r.payload l)).1,
          (writePipe s (currentFds s j) (word64 l 8) (r.payload l)).2) := by
  unfold ioWriteServiceCall
  rw [hl]
  split
  case h_2 => exact Or.inl ⟨rfl, Or.inl rfl⟩
  rename_i l' outLen heq _
  obtain rfl : l = l' := Option.some.inj heq
  dsimp only
  split
  · exact Or.inl ⟨rfl, Or.inl rfl⟩
  split
  · exact Or.inl ⟨rfl, Or.inl rfl⟩
  split
  · -- the terminal is no descriptor
    rename_i hfd
    exact Or.inl ⟨rfl, Or.inr (targetPipe_unopened (getFd_standard (by omega)))⟩
  split
  · refine Or.inl ⟨rfl, Or.inl ?_⟩
    exact reported_error (by decide) (by decide)
  rename_i j hj
  split
  · exact Or.inr ⟨j, targetPipe_of_getFd hj ‹_›, rfl⟩
  · refine Or.inl ⟨rfl, Or.inl ?_⟩
    exact reported_error (by decide) (by decide)

variable {fd : Fd}

theorem writePipe_other {len : ℕ} {bytes : ℕ → UInt8}
    (h : pipeOf s fd.pipeIndex ≠ some k) :
    (writePipe s fd len bytes).2.pipeTable k = s.pipeTable k := by
  unfold writePipe
  split
  · rfl
  · rename_i k' hk
    have hne : k ≠ k' := by
      rintro rfl
      exact h hk
    dsimp only
    split
    · rfl
    · split
      · rfl
      · simp [hne]

theorem writePipe_fifo (len : ℕ) (bytes : ℕ → UInt8) (hk : pipeOf s fd.pipeIndex = some k)
    (hwf : WellFormed pipeBufferSize (s.pipeTable k).buffer) :
    let written := writePipe s fd len bytes
    WellFormed pipeBufferSize (written.2.pipeTable k).buffer ∧
    contents pipeBufferSize (written.2.pipeTable k).buffer =
      contents pipeBufferSize (s.pipeTable k).buffer ++
        (List.range (reported (replyResult written.1))).map bytes ∧
    reported (replyResult written.1) ≤ len := by
  unfold writePipe
  rw [hk]
  dsimp only
  split
  · rw [reported_error (n := errPipe) (by decide) (by decide)]
    exact ⟨hwf, (List.append_nil _).symm, Nat.zero_le _⟩
  split
  · rw [reported_error (n := errAgain) (by decide) (by decide)]
    exact ⟨hwf, (List.append_nil _).symm, Nat.zero_le _⟩
  have hsize := hwf.size_le
  generalize hcount : (if len < pipeBufferSize - (s.pipeTable k).buffer.size then len
    else pipeBufferSize - (s.pipeTable k).buffer.size) = count
  have hfits : count ≤ len ∧ (s.pipeTable k).buffer.size + count ≤ pipeBufferSize := by
    rw [← hcount]
    split <;> omega
  have hsmall : count < 2 ^ 63 := by
    have hcap : pipeBufferSize = 4096 := rfl
    omega
  obtain ⟨hstored, hcontents⟩ := hwf.store ((List.range count).map bytes) (by simpa using hfits.2)
  rw [List.length_map, List.length_range] at hstored hcontents
  rw [reported_result hsmall, setPipe_pipeTable, if_pos rfl]
  exact ⟨hstored, hcontents, hfits.1⟩

theorem readPipe_other {len : ℕ} (h : pipeOf s fd.pipeIndex ≠ some k) :
    (readPipe s fd len).2.pipeTable k = s.pipeTable k := by
  unfold readPipe
  split
  · rfl
  · rename_i k' hk
    have hne : k ≠ k' := by
      rintro rfl
      exact h hk
    dsimp only
    split
    · split <;> rfl
    · simp [hne]

theorem readPipe_fifo (len : ℕ) (hk : pipeOf s fd.pipeIndex = some k)
    (hwf : WellFormed pipeBufferSize (s.pipeTable k).buffer) :
    let read := readPipe s fd len
    WellFormed pipeBufferSize (read.2.pipeTable k).buffer ∧
    read.1.out ++ contents pipeBufferSize (read.2.pipeTable k).buffer =
      contents pipeBufferSize (s.pipeTable k).buffer ∧
    (read.1.status = 0 → 0 < len →
      (s.pipeTable k).buffer.size = 0 ∧ (s.pipeTable k).writeRefs = 0) := by
  unfold readPipe
  rw [hk]
  dsimp only
  split
  · rename_i hempty
    split
    · rename_i hrefs
      exact ⟨hwf, rfl, fun _ _ => ⟨hempty, hrefs⟩⟩
    · exact ⟨hwf, rfl, fun hstatus => absurd hstatus (show ¬ errAgain = 0 by decide)⟩
  · rename_i hsome
    generalize hcount : (if len < (s.pipeTable k).buffer.size then len
      else (s.pipeTable k).buffer.size) = count
    have hle : count ≤ (s.pipeTable k).buffer.size := by
      rw [← hcount]
      split <;> omega
    obtain ⟨hfetched, htake, hdrop⟩ := hwf.fetch count hle
    rw [setPipe_pipeTable, if_pos rfl]
    refine ⟨hfetched, ?_, fun hstatus hlen => ?_⟩
    · dsimp only
      rw [htake, hdrop, List.take_append_drop]
    · dsimp only at hstatus
      split at hcount <;> omega

theorem ioRead_cases (typed : List UInt8) (hl : r.input = some l) :
    ((ioReadServiceCall s typed r).2.pipeTable = s.pipeTable ∧
      ((ioReadServiceCall s typed r).1 = ⟨errInval, []⟩ ∨ targetPipe s .pipeRead l = none)) ∨
    ∃ j, targetPipe s .pipeRead l = pipeOf s (currentFds s j).pipeIndex ∧
      ioReadServiceCall s typed r = readPipe s (currentFds s j) (word64 l 8) := by
  unfold ioReadServiceCall
  rw [hl]
  split
  case h_2 => exact Or.inl ⟨rfl, Or.inl rfl⟩
  rename_i l' outLen heq _
  obtain rfl : l = l' := Option.some.inj heq
  dsimp only
  split
  · exact Or.inl ⟨rfl, Or.inl rfl⟩
  split
  · exact Or.inl ⟨rfl, Or.inl rfl⟩
  split
  · -- the keyboard is no descriptor
    rename_i hfd
    exact Or.inl ⟨rfl, Or.inr (targetPipe_unopened (getFd_standard (by omega)))⟩
  split
  · rename_i hnone
    exact Or.inl ⟨rfl, Or.inr (targetPipe_unopened hnone)⟩
  rename_i j hj
  have hother : (currentFds s j).kind ≠ .pipeRead → targetPipe s .pipeRead l = none := by
    intro hkind
    apply targetPipe_eq_none
    intro j' hj'
    rw [hj] at hj'
    obtain rfl := Option.some.inj hj'
    exact hkind
  split
  · exact Or.inr ⟨j, targetPipe_of_getFd hj ‹_›, rfl⟩
  · rename_i hkind
    refine Or.inl ⟨?_, Or.inr (hother (by rw [hkind]; decide))⟩
    exact setCurrentFd_pipeTable s _ _
  · exact Or.inl ⟨rfl, Or.inr (hother ‹_›)⟩

theorem dropRef_buffer {p : Pipe} (h : (p.dropRef kind).used = true) :
    (p.dropRef kind).buffer = p.buffer := by
  obtain ⟨q, hbuffer, -, -, -, hq⟩ := dropRef_eq kind p
  rw [hq] at h ⊢
  split at h
  · cases h
  · rw [if_neg ‹_›]
    exact hbuffer

theorem pipeDropRef_buffer {i : ℤ}
    (h : ((pipeDropRef s i kind).pipeTable k).used = true) :
    ((pipeDropRef s i kind).pipeTable k).buffer = (s.pipeTable k).buffer := by
  unfold pipeDropRef at h ⊢
  split at h
  · rename_i k' _
    rw [setPipe_pipeTable] at h ⊢
    by_cases hk : k = k'
    · subst hk
      rw [if_pos rfl] at h ⊢
      exact dropRef_buffer h
    · rw [if_neg hk]
  · rfl

theorem ioClose_buffer
    (h : ((ioCloseServiceCall s r).2.pipeTable k).used = true) :
    ((ioCloseServiceCall s r).2.pipeTable k).buffer = (s.pipeTable k).buffer := by
  unfold ioCloseServiceCall at h ⊢
  split at h
  case h_2 => rfl
  split at h
  · rw [if_pos ‹_›]
    rfl
  rw [if_neg ‹_›]
  split at h
  · rfl
  dsimp only at h ⊢
  rw [setCurrentFd_pipeTable] at h ⊢
  split at h
  · rw [if_pos ‹_›]
    exact pipeDropRef_buffer h
  · rw [if_neg ‹_›]

theorem ioPipe_buffer (h : ((ioPipeServiceCall s r).2.pipeTable k).used = true) :
    ((s.pipeTable k).used = true →
      ((ioPipeServiceCall s r).2.pipeTable k).buffer = (s.pipeTable k).buffer) ∧
    ((s.pipeTable k).used = false →
      WellFormed pipeBufferSize ((ioPipeServiceCall s r).2.pipeTable k).buffer ∧
      ((ioPipeServiceCall s r).2.pipeTable k).buffer.size = 0) := by
  have hsame : (s.pipeTable k).used = true → ∀ t : State, t.pipeTable = s.pipeTable →
      ((t.pipeTable k).buffer = (s.pipeTable k).buffer) := fun _ t ht => by rw [ht]
  have hfree : ∀ t : State, t.pipeTable = s.pipeTable → (t.pipeTable k).used = true →
      (s.pipeTable k).used = false → False := by
    intro t ht hused hunused
    rw [ht, hunused] at hused
    cases hused
  unfold ioPipeServiceCall pipeAlloc at h ⊢
  split at h
  case h_2 => exact ⟨fun _ => rfl, fun hf => (hfree s rfl h hf).elim⟩
  split at h
  · rw [if_pos ‹_›]
    exact ⟨fun _ => rfl, fun hf => (hfree s rfl h hf).elim⟩
  rw [if_neg ‹_›]
  cases hfind : (List.range pipeMax).find? fun k => !(s.pipeTable k).used with
  | none =>
    rw [hfind] at h
    exact ⟨fun _ => rfl, fun hf => (hfree s rfl h hf).elim⟩
  | some k' =>
    rw [hfind] at h
    have hunused : (s.pipeTable k').used = false := by
      simpa using List.find?_some hfind
    dsimp only at h ⊢
    generalize hmade : s.setPipe k' _ = made at h ⊢
    have hempty : k = k' → WellFormed pipeBufferSize (made.pipeTable k).buffer ∧
        (made.pipeTable k).buffer.size = 0 := by
      rintro rfl
      rw [← hmade, setPipe_pipeTable, if_pos rfl]
      exact ⟨⟨Nat.zero_le _, Nat.zero_lt_succ 4095, rfl⟩, rfl⟩
    have hother : k ≠ k' → made.pipeTable k = s.pipeTable k := by
      intro hne
      rw [← hmade, setPipe_pipeTable, if_neg hne]
    have htable : (allocFdPipe (allocFdPipe made k' .pipeRead).2 k' .pipeWrite).2.pipeTable =
        made.pipeTable := by
      rw [allocFdPipe, allocFd_pipeTable, allocFdPipe, allocFd_pipeTable]
    by_cases hk : k = k'
    · refine ⟨fun hu => ?_, fun _ => ?_⟩
      · rw [hk, hunused] at hu
        cases hu
      · split at h
        · simp only [htable]
          exact hempty hk
        · rw [setPipe_pipeTable, if_pos hk] at h
          cases h
    · refine ⟨fun _ => ?_, fun hf => ?_⟩
      · split at h
        · simp only [htable, hother hk]
        · simp only [setPipe_pipeTable, if_neg hk, htable, hother hk]
      · split at h
        · dsimp only at h
          rw [htable, hother hk, hf] at h
          cases h
        · rw [setPipe_pipeTable, if_neg hk, htable, hother hk, hf] at h
          cases h

theorem fifo_of_buffer {t : State} (hwf : WellFormed pipeBufferSize (s.pipeTable k).buffer)
    (hbuffer : (t.pipeTable k).buffer = (s.pipeTable k).buffer) (hd : deliveredBytes s k e = [])
    (ha : acceptedBytes s k e = []) :
    WellFormed pipeBufferSize (t.pipeTable k).buffer ∧
    deliveredBytes s k e ++ contents pipeBufferSize (t.pipeTable k).buffer =
      contents pipeBufferSize (s.pipeTable k).buffer ++ acceptedBytes s k e := by
  rw [hbuffer, hd, ha, List.nil_append, List.append_nil]
  exact ⟨hwf, rfl⟩

theorem write_fifo (r : Request) (hwf : WellFormed pipeBufferSize (s.pipeTable k).buffer) :
    WellFormed pipeBufferSize ((ioWriteServiceCall s r).2.pipeTable k).buffer ∧
    contents pipeBufferSize ((ioWriteServiceCall s r).2.pipeTable k).buffer =
      contents pipeBufferSize (s.pipeTable k).buffer ++ acceptedByWrite s k r := by
  have hsame : (ioWriteServiceCall s r).2.pipeTable k = s.pipeTable k →
      acceptedByWrite s k r = [] →
      WellFormed pipeBufferSize ((ioWriteServiceCall s r).2.pipeTable k).buffer ∧
      contents pipeBufferSize ((ioWriteServiceCall s r).2.pipeTable k).buffer =
        contents pipeBufferSize (s.pipeTable k).buffer ++ acceptedByWrite s k r := by
    intro ht ha
    rw [ht, ha, List.append_nil]
    exact ⟨hwf, rfl⟩
  cases hl : r.input with
  | none =>
    apply hsame
    · unfold ioWriteServiceCall
      rw [hl]
      rfl
    · unfold acceptedByWrite
      rw [hl]
  | some l =>
    have haccepted : acceptedByWrite s k r = if targetPipe s .pipeWrite l = some k then
        (List.range (reported (ioWriteServiceCall s r).1)).map (r.payload l) else [] := by
      unfold acceptedByWrite
      rw [hl]
    obtain ⟨htable, hnothing⟩ | ⟨j, htarget, hres⟩ := ioWrite_cases (s := s) hl
    · apply hsame (congrFun htable k)
      rw [haccepted]
      rcases hnothing with hzero | hnone
      · rw [hzero]
        exact ite_self _
      · rw [hnone]
        rfl
    · by_cases hk : pipeOf s (currentFds s j).pipeIndex = some k
      · obtain ⟨hwf', hcontents, -⟩ := writePipe_fifo (word64 l 8) (r.payload l)
          hk hwf
        rw [haccepted, hres, htarget, if_pos hk]
        exact ⟨hwf', hcontents⟩
      · apply hsame
        · rw [hres]
          exact writePipe_other hk
        · rw [haccepted, htarget, if_neg hk]

theorem read_fifo (typed : List UInt8) (r : Request)
    (hwf : WellFormed pipeBufferSize (s.pipeTable k).buffer) :
    WellFormed pipeBufferSize ((ioReadServiceCall s typed r).2.pipeTable k).buffer ∧
    deliveredByRead s k typed r ++
        contents pipeBufferSize ((ioReadServiceCall s typed r).2.pipeTable k).buffer =
      contents pipeBufferSize (s.pipeTable k).buffer := by
  have hsame : (ioReadServiceCall s typed r).2.pipeTable k = s.pipeTable k →
      deliveredByRead s k typed r = [] →
      WellFormed pipeBufferSize ((ioReadServiceCall s typed r).2.pipeTable k).buffer ∧
      deliveredByRead s k typed r ++
          contents pipeBufferSize ((ioReadServiceCall s typed r).2.pipeTable k).buffer =
        contents pipeBufferSize (s.pipeTable k).buffer := by
    intro ht hd
    rw [ht, hd, List.nil_append]
    exact ⟨hwf, rfl⟩
  cases hl : r.input with
  | none =>
    apply hsame
    · unfold ioReadServiceCall
      rw [hl]
      rfl
    · unfold deliveredByRead
      rw [hl]
  | some l =>
    have hdelivered : deliveredByRead s k typed r = if targetPipe s .pipeRead l = some k then
        (ioReadServiceCall s typed r).1.out else [] := by
      unfold deliveredByRead
      rw [hl]
    obtain ⟨htable, hnothing⟩ | ⟨j, htarget, hres⟩ := ioRead_cases typed hl
    · apply hsame (congrFun htable k)
      rw [hdelivered]
      rcases hnothing with hinvalid | hnone
      · rw [hinvalid]
        exact ite_self _
      · rw [hnone]
        rfl
    · by_cases hk : pipeOf s (currentFds s j).pipeIndex = some k
      · obtain ⟨hwf', hcontents, -⟩ := readPipe_fifo (word64 l 8) hk hwf
        rw [hdelivered, hres, htarget, if_pos hk]
        exact ⟨hwf', hcontents⟩
      · apply hsame
        · rw [hres]
          exact readPipe_other hk
        · rw [hdelivered, htarget, if_neg hk]

theorem step_fifo (hused : (s.pipeTable k).used = true)
    (hwf : WellFormed pipeBufferSize (s.pipeTable k).buffer)
    (hafter : ((step s e).2.pipeTable k).used = true) :
    WellFormed pipeBufferSize ((step s e).2.pipeTable k).buffer ∧
    deliveredBytes s k e ++ contents pipeBufferSize ((step s e).2.pipeTable k).buffer =
      contents pipeBufferSize (s.pipeTable k).buffer ++ acceptedBytes s k e := by
  cases e with
  | create parentPid pid =>
    refine fifo_of_buffer hwf ?_ rfl rfl
    rw [step, processAlloc_pipeTable]
  | finish index state exitCode =>
    refine fifo_of_buffer hwf ?_ rfl rfl
    rw [step, processFinish_pipeTable]
  | reap index =>
    refine fifo_of_buffer hwf ?_ rfl rfl
    rw [step, processReap_pipeTable]
  | load bytes => exact fifo_of_buffer hwf rfl rfl rfl
  | call i c =>
    cases c with
    | write r =>
      obtain ⟨hwf', hcontents⟩ := write_fifo (s := { s with processIndex := i }) r hwf
      exact ⟨hwf', hcontents⟩
    | read typed r =>
      obtain ⟨hwf', hcontents⟩ := read_fifo (s := { s with processIndex := i }) typed r hwf
      exact ⟨hwf', hcontents.trans (List.append_nil _).symm⟩
    | «open» files r =>
      refine fifo_of_buffer hwf ?_ rfl rfl
      rw [step, IoCall.run, ioOpen_pipeTable]
    | close r => exact fifo_of_buffer hwf (ioClose_buffer hafter) rfl rfl
    | pipe r => exact fifo_of_buffer hwf ((ioPipe_buffer hafter).1 hused) rfl rfl

/-- The life of a pipe from its creation on, with the bytes that writes accepted and those that reads
returned. It is not freed in between. -/
inductive PipeRun (k : ℕ) : State → List UInt8 → List UInt8 → Prop where
  | alloc {s : State} (i : ℕ) (r : Request) (free : (s.pipeTable k).used = false)
      (possible : Possible s (.call i (.pipe r)))
      (made : ((step s (.call i (.pipe r))).2.pipeTable k).used = true) :
      PipeRun k (step s (.call i (.pipe r))).2 [] []
  | step {s : State} {written returned : List UInt8} (e : Event)
      (h : PipeRun k s written returned) (possible : Possible s e)
      (used : ((step s e).2.pipeTable k).used = true) :
      PipeRun k (step s e).2 (written ++ acceptedBytes s k e) (returned ++ deliveredBytes s k e)

variable {written returned : List UInt8}

theorem PipeRun.fifo (h : PipeRun k s written returned) : (s.pipeTable k).used = true ∧
    WellFormed pipeBufferSize (s.pipeTable k).buffer ∧
    returned ++ contents pipeBufferSize (s.pipeTable k).buffer = written := by
  induction h with
  | alloc i r free possible made =>
    obtain ⟨hwf, hempty⟩ := (ioPipe_buffer made).2 free
    exact ⟨made, hwf, contents_empty hempty⟩
  | step e _ possible used ih =>
    obtain ⟨hused, hwf, heq⟩ := ih
    obtain ⟨hwf', hstep⟩ := step_fifo hused hwf used
    refine ⟨used, hwf', ?_⟩
    rw [List.append_assoc, hstep, ← List.append_assoc, heq]

/-- In every state of its life a pipe holds what was accepted and not yet returned. A read of at
least one byte returns 0 only when the pipe is empty and has no writer, and a write reports how many
of its bytes are accepted: the first ones of its request, when they are all there. -/
theorem pipe_is_fifo (h : PipeRun k s written returned) :
    (s.pipeTable k).buffer.size ≤ pipeBufferSize ∧
    (s.pipeTable k).buffer.writePos =
      ((s.pipeTable k).buffer.readPos + (s.pipeTable k).buffer.size) % pipeBufferSize ∧
    returned ++ contents pipeBufferSize (s.pipeTable k).buffer = written ∧
    (∀ (i : ℕ) typed r l, r.input = some l →
      targetPipe { s with processIndex := i } .pipeRead l = some k → 0 < word64 l 8 →
      (ioReadServiceCall { s with processIndex := i } typed r).1.status = 0 →
      (s.pipeTable k).buffer.size = 0 ∧ (s.pipeTable k).writeRefs = 0) ∧
    ∀ (i : ℕ) r l, r.input = some l →
      targetPipe { s with processIndex := i } .pipeWrite l = some k →
      16 + word64 l 8 ≤ l.length →
      let answer := (ioWriteServiceCall { s with processIndex := i } r).1
      reported answer ≤ word64 l 8 ∧
      acceptedBytes s k (.call i (.write r)) = ((l.drop 16).take (word64 l 8)).take (reported answer) ∧
      (acceptedBytes s k (.call i (.write r))).length = reported answer := by
  obtain ⟨hused, hwf, heq⟩ := h.fifo
  refine ⟨hwf.size_le, hwf.writePos, heq, fun i typed r l hl htarget hlen hstatus => ?_,
    fun i r l hl htarget hfits => ?_⟩
  · obtain ⟨-, hinvalid | hnone⟩ | ⟨j, htarget', hres⟩ :=
      ioRead_cases (s := { s with processIndex := i }) typed hl
    · rw [hinvalid] at hstatus
      cases hstatus
    · rw [hnone] at htarget
      cases htarget
    · rw [hres] at hstatus
      exact (readPipe_fifo _ (s := { s with processIndex := i }) (htarget'.symm.trans htarget)
        hwf).2.2 hstatus hlen
  · have haccepted : acceptedBytes s k (.call i (.write r)) =
        (List.range (reported (ioWriteServiceCall { s with processIndex := i } r).1)).map
          (r.payload l) := by
      unfold acceptedBytes acceptedByWrite
      dsimp only
      rw [hl]
      dsimp only
      rw [if_pos htarget]
    have hle : reported (ioWriteServiceCall { s with processIndex := i } r).1 ≤ word64 l 8 := by
      obtain ⟨-, hzero | hnone⟩ | ⟨j, htarget', hres⟩ :=
        ioWrite_cases (s := { s with processIndex := i }) hl
      · omega
      · rw [hnone] at htarget
        cases htarget
      · rw [hres]
        exact (writePipe_fifo _ _ (s := { s with processIndex := i }) (htarget'.symm.trans htarget)
          hwf).2.2
    dsimp only
    rw [haccepted]
    refine ⟨hle, List.ext_getElem ?_ fun n hn _ => ?_, by simp⟩
    · simp
      omega
    · rw [List.length_map, List.length_range] at hn
      rw [List.getElem_map, List.getElem_range, List.getElem_take, List.getElem_take,
        List.getElem_drop, Request.payload, List.getElem?_eq_getElem (by omega), Option.getD_some]

/-- The first process makes a pipe with the descriptors 3 and 4 and writes two bytes into it. -/
def pipedProcess : State :=
  (step (step bootState (.create 0 0)).2 (.call 0 (.pipe ⟨none, fun _ => 0, some 8⟩))).2

def greeting : Event :=
  .call 0 (.write ⟨some (leBytes 8 4 ++ leBytes 8 2 ++ [104, 105]), fun _ => 0, some 8⟩)

theorem greeting_run : PipeRun 0 (step pipedProcess greeting).2 [104, 105] [] :=
  (PipeRun.alloc 0 ⟨none, fun _ => 0, some 8⟩ (by decide) (by decide) (by decide)).step greeting
    (by decide) (by decide)

theorem greeting_in_pipe :
    contents pipeBufferSize ((step pipedProcess greeting).2.pipeTable 0).buffer = [104, 105] :=
  (pipe_is_fifo greeting_run).2.2.1

/-- A read of no bytes returns 0 although there is something to read. -/
theorem empty_read_returns_zero :
    PipeRun 0 (step pipedProcess greeting).2 [104, 105] [] ∧
    ((step pipedProcess greeting).2.pipeTable 0).buffer.size = 2 ∧
    ∃ r : Request, r.input = some (leBytes 8 3 ++ leBytes 8 0) ∧ r.outLen = some 1 ∧
      targetPipe { (step pipedProcess greeting).2 with processIndex := 0 } .pipeRead
        (leBytes 8 3 ++ leBytes 8 0) = some 0 ∧
      (step (step pipedProcess greeting).2 (.call 0 (.read [] r))).1.status = 0 :=
  ⟨greeting_run, by decide, ⟨_, fun _ => 0, _⟩, rfl, rfl, by decide, by decide⟩

end UserMode
