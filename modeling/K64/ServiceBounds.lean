import K64.ServiceHandlers

/-! # Handlers inside their buffers

Every handler makes its accesses in order, so a rule for one access at the front of a program gives
what has to hold of the request for all of them. -/
namespace StagedCalls

open UserMode Services IoProgram ByteCodec FsPaths XfsFormat XfsDirectory XfsOperations

variable {r : Staged} {k : Kernel} {α β : Type} {offset length limit : ℕ}

theorem inside_read : r.Inside (.read offset length) ↔ length = 0 ∨ offset + length ≤ r.inLen := by
  unfold Staged.Inside Staged.Reads Writes
  constructor
  · intro h
    by_contra hn
    have := h.1 (offset + length - 1) ⟨by omega, by omega⟩
    omega
  · intro h
    exact ⟨fun i hi => by omega, fun _ hi => hi.elim⟩

theorem inside_write : r.Inside (.write offset length) ↔ length = 0 ∨ offset + length ≤ r.outLen := by
  unfold Staged.Inside Staged.Reads Writes
  constructor
  · intro h
    by_contra hn
    have := h.2 (offset + length - 1) ⟨by omega, by omega⟩
    omega
  · intro h
    exact ⟨fun _ hi => hi.elim, fun i hi => by omega⟩

theorem inside_string : r.Inside (.string offset) ↔ offset + (r.text offset).length < r.inLen := by
  unfold Staged.Inside Staged.Reads Writes
  constructor
  · exact fun h => h.1 _ ⟨by omega, Nat.le_refl _⟩
  · exact fun h => ⟨fun i hi => by omega, fun _ hi => hi.elim⟩

theorem inside_bounded : r.Inside (.bounded offset limit) ↔
    limit = 0 ∨ offset + (r.text offset).length < r.inLen ∨ offset + limit ≤ r.inLen := by
  unfold Staged.Inside Staged.Reads Writes
  constructor
  · intro h
    by_contra hn
    have := h.1 (min (offset + (r.text offset).length) (offset + limit - 1))
      ⟨by omega, by omega, by omega⟩
    omega
  · intro h
    exact ⟨fun i hi => by omega, fun _ hi => hi.elim⟩

def Staged.byte (r : Staged) (offset : ℕ) : UInt8 := ((r.memory.drop offset).take 1).headD 0

theorem byte_eq (h : offset < r.inLen) :
    r.byte offset = r.memory.get ⟨offset, lt_of_lt_of_le h r.staged⟩ := by
  unfold Staged.byte
  rw [List.drop_eq_getElem_cons (lt_of_lt_of_le h r.staged)]
  rfl

theorem text_le {e : ℕ} (he : e < r.inLen) (hz : r.byte e = 0) (ho : offset ≤ e) :
    offset + (r.text offset).length ≤ e := by
  by_contra hn
  have hlt : e - offset < (r.text offset).length := by omega
  have hmem := List.mem_takeWhile_imp (List.getElem_mem hlt)
  have hget : (r.text offset)[e - offset] = r.byte e := by
    have hpre : r.text offset <+: r.memory.drop offset := List.takeWhile_prefix _
    rw [hpre.getElem hlt, List.getElem_drop, byte_eq he]
    simp only [List.get_eq_getElem, Nat.add_sub_cancel' ho]
  rw [hget, hz] at hmem
  simp at hmem

theorem byte_text (offset : ℕ) : r.byte (offset + (r.text offset).length) = 0 := by
  have hdrop : r.memory.drop (offset + (r.text offset).length) =
      (r.memory.drop offset).dropWhile (· ≠ 0) := by
    have hleft : (r.text offset ++ (r.memory.drop offset).dropWhile (· ≠ 0)).drop
        (r.text offset).length = (r.memory.drop offset).dropWhile (· ≠ 0) := List.drop_left
    unfold Staged.text at hleft ⊢
    rw [List.takeWhile_append_dropWhile] at hleft
    rw [← List.drop_drop]
    exact hleft
  unfold Staged.byte
  rw [hdrop]
  have hhead := List.head?_dropWhile_not (· ≠ 0) (r.memory.drop offset)
  cases hl : (r.memory.drop offset).dropWhile (· ≠ 0) with
  | nil => rfl
  | cons c l =>
    rw [hl] at hhead
    simpa using hhead

@[simp] theorem stays_require {c : Prop} [Decidable c] {status : ℤ} {g : Unit → Handling Unit} :
    Stays r (require c status >>= g) ↔ (c → Stays r (g ())) := by
  unfold Stays
  rw [Proc.wp_bind]
  unfold require
  split
  case isTrue hc => exact ⟨fun h _ => h, fun h => h hc⟩
  case isFalse hc =>
    refine ⟨fun _ h => absurd h hc, fun _ => ?_⟩
    change 0 ≤ status → 0 ≤ r.outLen
    exact fun _ => Nat.zero_le _

variable {g : List UInt8 → Handling Unit}

@[simp] theorem stays_read :
    Stays r (read offset length >>= g) ↔
      r.Inside (.read offset length) ∧ Stays r (g ((r.memory.drop offset).take length)) := Iff.rfl

@[simp] theorem stays_string :
    Stays r (string offset >>= g) ↔
      r.Inside (.string offset) ∧ Stays r (g (r.text offset)) := Iff.rfl

@[simp] theorem stays_bounded :
    Stays r (bounded offset limit >>= g) ↔
      r.Inside (.bounded offset limit) ∧ Stays r (g ((r.text offset).take limit)) := Iff.rfl

@[simp] theorem stays_write {g : Unit → Handling Unit} :
    Stays r (write offset length >>= g) ↔
      r.Inside (.write offset length) ∧ Stays r (g ()) := Iff.rfl

@[simp] theorem stays_readByte {g : UInt8 → Handling Unit} :
    Stays r (readByte offset >>= g) ↔
      r.Inside (.read offset 1) ∧ Stays r (g (r.byte offset)) := Iff.rfl

@[simp] theorem stays_readWord32 {g : ℕ → Handling Unit} :
    Stays r (readWord32 offset >>= g) ↔
      r.Inside (.read offset 4) ∧ Stays r (g (leNat ((r.memory.drop offset).take 4))) := Iff.rfl

@[simp] theorem stays_readWord64 {g : ℕ → Handling Unit} :
    Stays r (readWord64 offset >>= g) ↔
      r.Inside (.read offset 8) ∧ Stays r (g (word64 r.memory offset)) := Iff.rfl

@[simp] theorem stays_refuse (status : ℤ) : Stays r (refuse status) := fun _ => Nat.zero_le _

@[simp] theorem stays_answer {status : ℤ} {n : ℕ} :
    Stays r (answer status n) ↔ (0 ≤ status → n ≤ r.outLen) := Iff.rfl

def Harmless (r : Staged) (f : Handling α) : Prop :=
  ∀ o, f.wp (staging r) (fun a _ => r.Inside a) (fun a o' _ => a.isSome ∧ o' = o) o ()

theorem Harmless.stays {f : Handling α} {g : α → Handling Unit} (hf : Harmless r f)
    (hg : ∀ a, Stays r (g a)) : Stays r (f >>= g) := by
  refine Proc.wp_seq (hf _) (fun _ _ h => absurd h.1 (by simp)) ?_
  rintro a o' s' ⟨-, rfl⟩
  exact hg a

theorem Harmless.bind {f : Handling α} {g : α → Handling β} (hf : Harmless r f)
    (hg : ∀ a, Harmless r (g a)) : Harmless r (f >>= g) := by
  intro o
  refine Proc.wp_seq (hf o) (fun _ _ h => absurd h.1 (by simp)) ?_
  rintro a o' s' ⟨-, rfl⟩
  exact hg a o'

theorem harmless_pure (a : α) : Harmless r (pure a : Handling α) := fun _ => ⟨rfl, rfl⟩

theorem harmless_read (h : r.Inside (.read offset length)) : Harmless r (read offset length) :=
  fun _ => ⟨h, rfl, rfl⟩

theorem harmless_bounded (h : r.Inside (.bounded offset limit)) :
    Harmless r (bounded offset limit) := fun _ => ⟨h, rfl, rfl⟩

theorem harmless_readByte (h : r.Inside (.read offset 1)) : Harmless r (readByte offset) :=
  fun _ => ⟨h, rfl, rfl⟩

def Staged.PathAt (r : Staged) (offset : ℕ) : Prop :=
  offset + (r.text offset).length < r.inLen ∨ offset + 256 ≤ r.inLen

theorem Staged.PathAt.first (h : r.PathAt offset) : r.Inside (.read offset 1) := by
  unfold Staged.PathAt at h
  rw [inside_read]
  omega

theorem Staged.PathAt.bounded (h : r.PathAt offset) (hl : limit ≤ 256) :
    r.Inside (.bounded offset limit) := by
  unfold Staged.PathAt at h
  rw [inside_bounded]
  omega

theorem harmless_normalize (h : r.PathAt offset) : Harmless r (normalize k offset) := by
  refine (harmless_readByte h.first).bind fun first => ?_
  split
  · exact harmless_pure _
  · split
    · exact (harmless_bounded (h.bounded (Nat.le_refl _))).bind fun _ => harmless_pure _
    · exact (harmless_bounded (h.bounded (Nat.sub_le _ _))).bind fun _ => harmless_pure _

theorem harmless_fsStat (h : r.PathAt offset) : Harmless r (fsStat k offset) :=
  (harmless_normalize h).bind fun _ => harmless_pure _

theorem harmless_fsMove {src dst : ℕ} (hs : r.PathAt src) (hd : r.PathAt dst) :
    Harmless r (fsMove k src dst) := by
  refine (harmless_normalize hs).bind fun full => ?_
  cases full with
  | none => exact harmless_pure _
  | some full => exact (harmless_normalize hd).bind fun _ => harmless_pure _

theorem harmless_fsWriteFileRaw {path data : ℕ} (hp : r.PathAt path)
    (hd : r.Inside (.read data length)) : Harmless r (fsWriteFileRaw k path data length) := by
  refine (harmless_normalize hp).bind fun full => ?_
  cases full with
  | none => exact harmless_pure _
  | some full => exact (harmless_read hd).bind fun _ => harmless_pure _

theorem harmless_canAccessPath (h : r.PathAt offset) (mask : UInt32) :
    Harmless r (fsCallCanAccessPath k offset mask) := by
  refine (harmless_readByte h.first).bind fun first => ?_
  split
  · exact harmless_pure _
  · exact (harmless_fsStat h).bind fun _ => harmless_pure _

theorem harmless_canCreatePath (h : r.PathAt offset) :
    Harmless r (fsCallCanCreatePath k offset) := by
  refine (harmless_readByte h.first).bind fun first => ?_
  split
  · exact harmless_pure _
  · exact (harmless_bounded (h.bounded (Nat.le_refl _))).bind fun _ => harmless_pure _

theorem harmless_mayWritePath (h : r.PathAt offset) : Harmless r (mayWritePath k offset) := by
  refine (harmless_fsStat h).bind fun st => ?_
  split
  · exact harmless_canAccessPath h _
  · exact harmless_canCreatePath h

theorem harmless_queueStaged (h : 512 ≤ r.inLen) : Harmless r (queueStaged k) := by
  unfold queueStaged
  split
  · exact harmless_pure _
  · refine (harmless_bounded (inside_bounded.2 (by omega))).bind fun path => ?_
    refine (harmless_bounded (inside_bounded.2 (by omega))).bind fun args => ?_
    dsimp only
    split
    · exact harmless_pure _
    · exact (harmless_bounded (inside_bounded.2 (by unfold userProcessPathMax; omega))).bind
        fun _ => harmless_pure _

theorem procSpawn_stays : Stays r (procSpawnServiceCall r k) := by
  unfold procSpawnServiceCall
  simp only [stays_require, stays_readByte, inside_read]
  rintro ⟨hin, hout⟩
  refine ⟨by omega, fun _ => ?_⟩
  refine (harmless_fsStat (Or.inr (by omega))).stays fun st => ?_
  cases st with
  | none => exact stays_refuse _
  | some st =>
    simp only [stays_require]
    intro _
    refine (harmless_queueStaged hin).stays fun pid => ?_
    simp only [stays_require, stays_write, stays_answer, inside_write]
    omega

theorem procWait_stays : Stays r (procWaitServiceCall r k) := by
  unfold procWaitServiceCall
  simp only [stays_require, stays_readWord64, inside_read]
  rintro ⟨hin, hout⟩
  refine ⟨by omega, fun _ => ⟨by omega, ?_⟩⟩
  split
  · exact stays_refuse _
  · simp only [stays_require]
    intro _
    split
    · simp only [stays_require, stays_readWord64, inside_read]
      refine fun _ _ => ⟨by omega, ?_⟩
      split
      · exact stays_refuse _
      · simp only [stays_require, stays_write, stays_answer, inside_write]
        omega
    · simp only [stays_write, stays_answer, inside_write]
      omega

theorem procInfo_stays : Stays r (procInfoServiceCall r k) := by
  unfold procInfoServiceCall
  simp only [stays_require, stays_readWord64, inside_read]
  rintro ⟨hin, hout⟩
  refine ⟨by omega, ?_⟩
  split
  · exact stays_refuse _
  · simp only [stays_require, stays_write, stays_answer, inside_write]
    omega

theorem answerRead_stays {a : UserMode.Answer} (h : a.out.length ≤ r.outLen) :
    Stays r (answerRead a) := by
  unfold answerRead
  simp only [stays_require, stays_write, stays_answer, inside_write]
  omega

theorem readPipe_length (s : UserMode.State) (fd : Fd) (len : ℕ) :
    (readPipe s fd len).1.out.length ≤ len := by
  unfold readPipe
  split
  · exact Nat.zero_le _
  · dsimp only
    split
    · split <;> exact Nat.zero_le _
    · dsimp only
      rw [RingBuffer.length_fetch]
      split <;> omega

theorem readFile_length (s : UserMode.State) (j : ℕ) (fd : Fd) (len : ℕ) :
    (readFile s j fd len).1.out.length ≤ len := by
  unfold readFile
  dsimp only
  rw [List.length_map, List.length_range]
  split <;> omega

theorem ioRead_stays : Stays r (ioReadServiceCall r k) := by
  unfold ioReadServiceCall
  simp only [stays_require, stays_readWord64, inside_read]
  rintro ⟨hin, hout⟩
  refine ⟨by omega, fun hlen => ⟨by omega, ?_⟩⟩
  split
  · exact answerRead_stays ((List.length_take_le _ _).trans hlen)
  · split
    · exact stays_refuse _
    · split
      · exact answerRead_stays ((readPipe_length _ _ _).trans hlen)
      · exact answerRead_stays ((readFile_length _ _ _ _).trans hlen)
      · exact stays_refuse _

theorem pathAt_zero {e : ℕ} (he : e < r.inLen) (hz : r.byte e = 0) (ho : offset ≤ e) :
    r.PathAt offset := Or.inl (lt_of_le_of_lt (text_le he hz ho) he)

theorem ioOpen_stays : Stays r (ioOpenServiceCall r k) := by
  unfold ioOpenServiceCall
  simp only [stays_require, stays_readByte, inside_read]
  rintro ⟨hin, -, hout⟩
  refine ⟨by omega, fun _ => ⟨by omega, fun hlast => ?_⟩⟩
  have hpath : r.PathAt 0 := pathAt_zero (by omega) hlast (Nat.zero_le _)
  have hdone : Stays r (write 0 8 >>= fun _ => answer 0 8) := by
    simp only [stays_write, stays_answer, inside_write]
    omega
  refine (harmless_fsStat hpath).stays fun st => ?_
  cases st with
  | none => exact hdone
  | some st =>
    dsimp only
    split
    · exact (harmless_normalize hpath).stays fun _ => hdone
    · exact hdone

theorem ioPipe_stays : Stays r (ioPipeServiceCall r k) := by
  unfold ioPipeServiceCall
  simp only [stays_require, stays_write, stays_answer, inside_write]
  omega

theorem termFbBlit_stays : Stays r (termFbBlitServiceCall r k) := by
  unfold termFbBlitServiceCall
  simp only [stays_require, stays_readWord32, stays_readWord64, stays_read, stays_answer,
    inside_read]
  unfold fbBlitSize
  intro hin
  refine ⟨by omega, by omega, fun _ => ⟨by omega, ?_⟩⟩
  rintro ⟨-, -, -, -, hcells⟩
  refine ⟨by omega, ?_, fun _ => Nat.zero_le _⟩
  split <;> omega

theorem fsStat_stays : Stays r (fsStatCall r k) := by
  unfold fsStatCall
  simp only [stays_require, stays_readByte, inside_read]
  rintro ⟨hin, -, hout⟩
  refine ⟨by omega, fun _ => ⟨by omega, fun hlast => ?_⟩⟩
  refine (harmless_fsStat (pathAt_zero (by omega) hlast (Nat.zero_le _))).stays fun st => ?_
  cases st with
  | none => exact stays_refuse _
  | some st =>
    simp only [stays_require, stays_write, stays_answer, inside_write]
    omega

theorem listEntry_length {outSize : ℕ} (out : List UInt8) (e : Dirent)
    (h : out.length < outSize) : (listEntry outSize out e).length < outSize := by
  have hname : ∀ (l out : List UInt8), out.length < outSize →
      (l.foldl (fun o c => if (o.length : ℤ) + 2 < outSize then o ++ [c] else o) out).length <
        outSize := by
    intro l
    induction l with
    | nil => exact fun _ h => h
    | cons c l ih =>
      intro out h
      rw [List.foldl_cons]
      apply ih
      split
      · rw [List.length_append, List.length_singleton]
        omega
      · exact h
  unfold listEntry
  split
  · exact h
  · have hpushed := hname (e.name.toList.take e.nameLen.toNat) out h
    dsimp only
    generalize List.foldl _ out _ = named at hpushed
    have hslash : (if e.type = typeDirectory ∧ (named.length : ℤ) + 2 < outSize then named ++ [slash]
        else named).length < outSize := by
      split
      · rw [List.length_append, List.length_singleton]
        omega
      · exact hpushed
    generalize (if e.type = typeDirectory ∧ (named.length : ℤ) + 2 < outSize then named ++ [slash]
      else named) = marked at hslash ⊢
    split
    · rw [List.length_append, List.length_singleton]
      omega
    · exact hslash

theorem Listing.text_length {outSize : ℕ} (h : 0 < outSize) (l : Listing) :
    (l.text outSize).length < outSize := by
  cases l with
  | entries l =>
    have hall : ∀ (l : List Dirent) (out : List UInt8), out.length < outSize →
        (l.foldl (listEntry outSize) out).length < outSize := by
      intro l
      induction l with
      | nil => exact fun _ h => h
      | cons e l ih => exact fun out h => ih _ (listEntry_length out e h)
    exact hall l [] h
  | pseudo text =>
    change (text.take (outSize - 1)).length < outSize
    rw [List.length_take]
    omega

theorem fsLs_stays {g : Option (List UInt8) → Handling Unit} (hp : r.PathAt offset)
    (ho : 0 < r.outLen) (hnone : Stays r (g none))
    (hsome : ∀ text : List UInt8, text.length < r.outLen → Stays r (g (some text))) :
    Stays r (fsLs r k offset >>= g) := by
  have hshown : Proc.wp (staging r) (fun a _ => r.Inside a) (fsLs r k offset)
      (fun a o' _ => o' = ⟨0, 0⟩ ∧ ∃ shown : Option (List UInt8), a = some shown ∧
        ∀ text ∈ shown, text.length < r.outLen) ⟨0, 0⟩ () := by
    refine Proc.wp_seq (harmless_normalize (k := k) hp _) (fun _ _ h => absurd h.1 (by simp)) ?_
    rintro full o' s' ⟨-, rfl⟩
    cases full.bind k.listing with
    | none => exact ⟨rfl, none, rfl, by simp⟩
    | some l =>
      have hlen := Listing.text_length ho l
      have hfew : (fsCopy r.outLen [dot, 10]).length < r.outLen := by
        unfold fsCopy
        rw [List.length_take]
        omega
      refine ⟨inside_write.2 (by omega), ?_⟩
      dsimp only
      split
      · exact ⟨inside_write.2 (by omega), rfl, _, rfl, by simpa using hfew⟩
      · exact ⟨rfl, _, rfl, by simpa using hlen⟩
  refine Proc.wp_seq hshown (fun _ _ h => ?_) ?_
  · obtain ⟨-, _, h, -⟩ := h
    cases h
  · rintro shown o' s' ⟨rfl, _, h, htext⟩
    obtain rfl := Option.some.inj h
    cases shown with
    | none => exact hnone
    | some text => exact hsome text (htext text rfl)

theorem fsListDir_stays : Stays r (fsListDirCall r k) := by
  unfold fsListDirCall
  simp only [stays_require, stays_readByte, inside_read]
  rintro ⟨hin, -, hout⟩
  refine ⟨by omega, fun _ => ⟨by omega, fun hlast => ?_⟩⟩
  have hpath : r.PathAt 0 := pathAt_zero (by omega) hlast (Nat.zero_le _)
  refine (harmless_canAccessPath hpath _).stays fun reach => ?_
  simp only [stays_require, stays_write, inside_write]
  refine fun _ => ⟨by omega, fsLs_stays hpath (by omega) (stays_refuse _) fun text htext => ?_⟩
  rw [stays_answer]
  intro _
  exact Nat.lt_of_le_of_lt (List.takeWhile_prefix _).length_le htext

theorem fsWriteFile_stays : Stays r (fsWriteFileCall r k) := by
  unfold fsWriteFileCall
  simp only [stays_require, stays_readWord64, stays_readByte, inside_read]
  intro hin
  refine ⟨by omega, by omega, ?_⟩
  rintro ⟨hlen, -, -, hdata⟩
  refine ⟨by omega, fun hlast => ?_⟩
  have hpath : r.PathAt 16 := pathAt_zero (by omega) hlast (by omega)
  refine (harmless_mayWritePath hpath).stays fun reach => ?_
  simp only [stays_require]
  intro _
  refine (harmless_fsWriteFileRaw hpath (inside_read.2 (by omega))).stays fun written => ?_
  simp only [stays_require]
  intro _
  exact (harmless_normalize hpath).stays fun _ => stays_answer.2 fun _ => Nat.zero_le _

theorem svcReply_stays : Stays r (svcReplyCall r k) := by
  unfold svcReplyCall
  simp only [stays_require, stays_readWord64, inside_read]
  intro hin
  refine ⟨by omega, fun hlen => ⟨by omega, ?_⟩⟩
  split
  · exact stays_refuse _
  · simp only [stays_require]
    intro _ _
    split
    · exact stays_answer.2 fun _ => Nat.zero_le _
    · simp only [stays_readWord64, stays_read, stays_answer, inside_read]
      omega

/-- Where a length of 2^64 - 16 or more gets past the check, the payload has a zero that ends the
text, or no pipe takes more than the payload. -/
def ioWriteWithin (r : Staged) (k : Kernel) : Prop :=
  16 ≤ r.inLen → 8 ≤ r.outLen → 2 ^ 64 - 16 ≤ word64 r.memory 8 →
    if word64 r.memory 0 = 1 ∨ word64 r.memory 0 = 2 then
      ∃ i, 16 ≤ i ∧ i < r.inLen ∧ r.byte i = 0
    else ∀ j p, getFd k.machine.user (word64 r.memory 0) = some j →
      (currentFds k.machine.user j).kind = .pipeWrite →
      pipeOf k.machine.user (currentFds k.machine.user j).pipeIndex = some p →
      (k.machine.user.pipeTable p).readRefs ≠ 0 →
      16 + (pipeBufferSize - (k.machine.user.pipeTable p).buffer.size) ≤ r.inLen

/-- There is a zero in the request. -/
def fsMoveWithin (r : Staged) : Prop :=
  4 ≤ r.inLen → r.inLen ≤ 512 → ∃ i < r.inLen, r.byte i = 0

/-- The message that is taken fits behind its header. -/
def svcRecvWithin (r : Staged) (k : Kernel) : Prop :=
  ∀ service i, r.inLen ≠ 0 → r.inLen ≤ serviceCallOwnerMax → serviceMsgHeaderSize ≤ r.outLen →
    r.byte 0 ≠ 0 → r.byte (r.inLen - 1) = 0 → nameValid (r.text 0) serviceCallOwnerMax = true →
    k.registry (r.text 0) = some service → service.running = true →
    currentProcessIsServiceHost k.host service = true →
    pendingSlot k.services (r.text 0) = some i →
    serviceMsgHeaderSize + (k.services.msgs i).request.length ≤ r.outLen

theorem leNat_lt (l : List UInt8) : leNat l < 256 ^ l.length := by
  induction l with
  | nil => exact Nat.one_pos
  | cons b l ih =>
    have hb := b.toNat_lt
    rw [leNat, List.length_cons, Nat.pow_succ]
    omega

theorem word64_lt (l : List UInt8) (offset : ℕ) : word64 l offset < 2 ^ 64 := by
  have hlen : ((l.drop offset).take 8).length ≤ 8 := List.length_take_le _ _
  calc word64 l offset < 256 ^ ((l.drop offset).take 8).length := leNat_lt _
    _ ≤ 256 ^ 8 := Nat.pow_le_pow_right (by omega) hlen

theorem wrapped_len {len inLen : ℕ} (hlen : len < 2 ^ 64) (hin : 16 ≤ inLen) :
    (16 + len) % 2 ^ 64 ≤ inLen ↔ 16 + len ≤ inLen ∨ 2 ^ 64 - 16 ≤ len := by
  omega

theorem ioWrite_stays_iff : Stays r (ioWriteServiceCall r k) ↔ ioWriteWithin r k := by
  unfold ioWriteServiceCall ioWriteWithin
  simp only [stays_require, stays_readWord64, inside_read]
  have hmax := r.inLen_le
  unfold serviceCallPayloadMax at hmax
  constructor
  · intro h hin hout hlen
    have hrest := ((h ⟨hin, hout⟩).2 ((wrapped_len (word64_lt _ _) hin).2 (Or.inr hlen))).2
    split
    case isTrue hfd =>
      rw [if_pos hfd, stays_bounded, inside_bounded] at hrest
      exact ⟨16 + (r.text 16).length, by omega, by omega, byte_text 16⟩
    case isFalse hfd =>
      intro j p hj hkind hp hrefs
      rw [if_neg hfd, hj] at hrest
      simp only [stays_read, inside_read, if_pos hkind, pipeCount, hp, if_neg hrefs] at hrest
      obtain ⟨hcount, -⟩ := hrest
      unfold pipeBufferSize at *
      omega
  · rintro h ⟨hin, hout⟩
    refine ⟨by omega, fun hpass => ⟨by omega, ?_⟩⟩
    rw [wrapped_len (word64_lt _ _) hin] at hpass
    have hdone : Stays r (write 0 8 >>= fun _ => answer 0 8) := by
      simp only [stays_write, stays_answer, inside_write]
      omega
    split
    case isTrue hfd =>
      refine stays_bounded.2 ⟨inside_bounded.2 ?_, hdone⟩
      rcases hpass with hfit | hwrap
      · exact Or.inr (Or.inr hfit)
      · have hzero := h hin hout hwrap
        rw [if_pos hfd] at hzero
        obtain ⟨i, hi, hlt, hz⟩ := hzero
        exact Or.inr (Or.inl (Nat.lt_of_le_of_lt (text_le hlt hz hi) hlt))
    case isFalse hfd =>
      split
      · exact hdone
      case h_2 j hj =>
        refine stays_read.2 ⟨inside_read.2 ?_, hdone⟩
        by_cases hkind : (currentFds k.machine.user j).kind = .pipeWrite
        case neg => exact Or.inl (if_neg hkind)
        rw [if_pos hkind]
        unfold pipeCount
        split
        · exact Or.inl rfl
        case h_2 p hp =>
          split
          · exact Or.inl rfl
          case isFalse hrefs =>
            rcases hpass with hfit | hwrap
            · omega
            · have hroom := h hin hout hwrap
              rw [if_neg hfd] at hroom
              have hfits := hroom j p hj hkind hp hrefs
              omega

theorem fsMove_stays_iff : Stays r (fsMoveCall r k) ↔ fsMoveWithin r := by
  unfold fsMoveCall fsMoveWithin
  simp only [stays_require, stays_string, stays_readByte, inside_string, inside_read]
  constructor
  · intro h hmin hmax
    obtain ⟨hsrc, -⟩ := h ⟨hmin, hmax⟩
    exact ⟨_, hsrc, byte_text 0⟩
  · rintro h ⟨hmin, hmax⟩
    obtain ⟨i, hi, hz⟩ := h hmin hmax
    have hsrc := text_le hi hz (Nat.zero_le i)
    refine ⟨by omega, fun hlen => ⟨by omega, fun _ => ⟨by omega, fun hlast => ?_⟩⟩⟩
    have hfrom : r.PathAt 0 := pathAt_zero (by omega) hlast (Nat.zero_le _)
    have hto : r.PathAt ((r.text 0).length + 1) := pathAt_zero (by omega) hlast (by omega)
    refine (harmless_canAccessPath hfrom _).stays fun reach => ?_
    rw [stays_require]
    refine fun _ => (harmless_canCreatePath hto).stays fun create => ?_
    rw [stays_require]
    refine fun _ => (harmless_fsMove hfrom hto).stays fun moved => ?_
    rw [stays_require]
    exact fun _ => stays_answer.2 fun _ => Nat.zero_le _

theorem copyBounded_length (size : ℕ) (l : List UInt8) : (copyBounded size l).length ≤ size - 1 :=
  List.length_take_le _ _

theorem svcRecv_stays_iff : Stays r (svcRecvCall r k) ↔ svcRecvWithin r k := by
  unfold svcRecvCall svcRecvWithin
  simp only [stays_require, stays_string, stays_readByte, inside_string, inside_read]
  constructor
  · intro h service i hin hmax hout hfirst hlast hname hregistry hrunning hhost hslot
    have hrest := ((h ⟨hin, hmax, hout⟩).2 hfirst).2 hlast
    have hmsg := hrest.2 hname
    rw [hregistry] at hmsg
    simp only [stays_require] at hmsg
    have hdone := hmsg hrunning hhost
    rw [hslot] at hdone
    simp only [stays_write, stays_answer] at hdone
    exact hdone.2.2.2.2 (Int.le_refl 0)
  · rintro h ⟨hin, hmax, hout⟩
    refine ⟨by omega, fun hfirst => ⟨by omega, fun hlast => ⟨?_, fun hname => ?_⟩⟩⟩
    · exact Nat.lt_of_le_of_lt (text_le (by omega) hlast (Nat.zero_le _)) (by omega)
    · split
      · exact stays_refuse _
      case h_2 service hregistry =>
        simp only [stays_require]
        intro hrunning hhost
        split
        · exact stays_refuse _
        case h_2 i hslot =>
          have hfits := h service i hin hmax hout hfirst hlast hname hregistry hrunning hhost hslot
          have hservice := copyBounded_length serviceCallOwnerMax (k.services.msgs i).service
          have hmethod := copyBounded_length serviceCallNameMax (k.services.msgs i).method
          simp only [stays_write, stays_answer, inside_write]
          unfold serviceMsgHeaderSize serviceCallOwnerMax serviceCallNameMax at *
          omega

def Method.Within (r : Staged) (k : Kernel) : Method → Prop
  | ioWrite => ioWriteWithin r k
  | fsMove => fsMoveWithin r
  | svcRecv => svcRecvWithin r k
  | _ => True

theorem handlers_stay_inside (r : Staged) (k : Kernel) (m : Method) :
    Stays r (m.handler r k) ↔ m.Within r k := by
  cases m with
  | ioWrite => exact ioWrite_stays_iff
  | fsMove => exact fsMove_stays_iff
  | svcRecv => exact svcRecv_stays_iff
  | procSpawn => exact iff_of_true procSpawn_stays trivial
  | procWait => exact iff_of_true procWait_stays trivial
  | procInfo => exact iff_of_true procInfo_stays trivial
  | ioRead => exact iff_of_true ioRead_stays trivial
  | ioOpen => exact iff_of_true ioOpen_stays trivial
  | ioPipe => exact iff_of_true ioPipe_stays trivial
  | termFbBlit => exact iff_of_true termFbBlit_stays trivial
  | fsStat => exact iff_of_true fsStat_stays trivial
  | fsListDir => exact iff_of_true fsListDir_stays trivial
  | fsWriteFile => exact iff_of_true fsWriteFile_stays trivial
  | svcReply => exact iff_of_true svcReply_stays trivial

/-- Nothing runs, nothing is registered and the file system has no files. -/
def idleKernel : Kernel where
  machine := bootMachine
  child := (errNoent, bootState)
  typed := []
  screenEnabled := false
  services := ⟨fun _ => Msg.clear, 1, []⟩
  registry _ := none
  host := ⟨0, none⟩
  cwd := [slash]
  stat _ := none
  listing _ := none
  writeFile _ _ := false
  rename _ _ := false

/-- `io.write` of 2^64 - 16 bytes to the terminal, with "A" behind the request. -/
def wrappedWrite : Staged where
  memory := [1, 0, 0, 0, 0, 0, 0, 0, 240, 255, 255, 255, 255, 255, 255, 255, 65, 0]
  inLen := 16
  outLen := 8
  callerPid := 5000
  staged := by decide
  inLen_le := by decide
  outLen_le := by decide

theorem wrapped_write_leaves_request :
    ¬ Stays wrappedWrite (Method.ioWrite.handler wrappedWrite idleKernel) := by
  intro h
  obtain ⟨i, hi, hlt, -⟩ := ioWrite_stays_iff.1 h (by decide) (by decide) (by decide)
  exact absurd hi (Nat.not_le.2 hlt)

end StagedCalls
