import K64.NetChecksums

/-! # DNS messages

The format of names, questions and answers, and how the client writes and reads them. -/
namespace NetDns

open NetState NetReceive NetBounds
open NetChecksums (be16_wr16be)

abbrev Text := List UInt8

def labelText (label : Text) : Text := UInt8.ofNat label.length :: label

def encodeName (labels : List Text) : Text := labels.flatMap labelText ++ [0]

def period : UInt8 := 46

def dotted : List Text → Text
  | [] => []
  | [label] => label
  | label :: next :: rest => label ++ period :: dotted (next :: rest)

/-- A host name of at most 63 characters, with labels of 1 to 63. -/
structure HostName (labels : List Text) : Prop where
  nonempty : labels ≠ []
  label : ∀ l ∈ labels, 1 ≤ l.length ∧ l.length ≤ 63
  plain : ∀ l ∈ labels, period ∉ l
  short : (dotted labels).length ≤ 63

/-- A name in a message: labels, ended by a zero or by a pointer to another place. -/
inductive NameText : Text → Prop where
  | root : NameText [0]
  | pointer (hi lo : UInt8) (marked : hi &&& 0xC0 = 0xC0) : NameText [hi, lo]
  | label {l rest : Text} (nonempty : 1 ≤ l.length) (short : l.length ≤ 63)
      (behind : NameText rest) : NameText (labelText l ++ rest)

structure Question where
  name : Text
  type : UInt16
  classId : UInt16

def Question.text (q : Question) : Text := q.name ++ (wr16be q.type ++ wr16be q.classId)

structure Record where
  name : Text
  type : UInt16
  classId : UInt16
  ttl : UInt32
  rdata : Text

def Record.text (r : Record) : Text :=
  r.name ++ (wr16be r.type ++ (wr16be r.classId ++ (wr32be r.ttl ++
    (wr16be (UInt16.ofNat r.rdata.length) ++ r.rdata))))

/-- The address in a record of type A, class IN and length 4. -/
def Record.address (r : Record) : Option UInt32 :=
  if r.type = 1 ∧ r.classId = 1 then
    match r.rdata with
    | [a, b, c, d] => some (be32 a b c d)
    | _ => none
  else none

/-- A response in its UDP datagram; `more` is what follows the answers. -/
structure Response where
  len : UInt16
  checksum : UInt16
  id : UInt16
  flags : UInt16
  authorities : UInt16
  additionals : UInt16
  questions : List Question
  answers : List Record
  more : Text

def Response.text (r : Response) : Text :=
  wr16be dnsPort ++ (wr16be dnsSrcPort ++ (wr16be r.len ++ (wr16be r.checksum ++
    (wr16be r.id ++ (wr16be r.flags ++ (wr16be (UInt16.ofNat r.questions.length) ++
      (wr16be (UInt16.ofNat r.answers.length) ++ (wr16be r.authorities ++
        (wr16be r.additionals ++ (r.questions.flatMap Question.text ++
          (r.answers.flatMap Record.text ++ r.more)))))))))))

structure WellFormed (r : Response) : Prop where
  questions : r.questions.length < 65536
  answers : r.answers.length < 65536
  questionName : ∀ q ∈ r.questions, NameText q.name
  answerName : ∀ a ∈ r.answers, NameText a.name
  rdata : ∀ a ∈ r.answers, a.rdata.length < 65536

def firstAddress (answers : List Record) : Option UInt32 := answers.findSome? Record.address

/-- The state after a response: the pending name is given the first address. -/
def stored (net : Net) : Option UInt32 → Net
  | some ip => answered net ip
  | none => net

variable {frame text rest : Text} {labels : List Text} {p : ℕ}

theorem dnsLabels_word (l tail : Text) : ∀ done label : Text, period ∉ l →
    20 + done.length + 1 + label.length + l.length + 6 < 512 →
    dnsLabels done label (l ++ tail) = dnsLabels done (label ++ l) tail := by
  induction l with
  | nil =>
    intro done label _ _
    rw [List.nil_append, List.append_nil]
  | cons ch l ih =>
    intro done label hplain hroom
    rw [List.mem_cons, not_or] at hplain
    rw [List.length_cons] at hroom
    rw [List.cons_append, dnsLabels, if_neg (by omega), if_neg fun h => hplain.1 h.symm,
      ih done (label ++ [ch]) hplain.2 (by rw [List.length_append, List.length_singleton]; omega),
      List.append_assoc, List.singleton_append]

theorem dnsLabels_dotted : ∀ (labels : List Text) (done : Text), labels ≠ [] →
    (∀ l ∈ labels, period ∉ l) → 20 + done.length + 1 + (dotted labels).length + 6 < 512 →
    dnsLabels done [] (dotted labels) = done ++ labels.flatMap labelText := by
  intro labels
  induction labels with
  | nil => exact fun _ h => absurd rfl h
  | cons l labels ih =>
    intro done _ hplain hroom
    have hl := hplain l List.mem_cons_self
    cases labels with
    | nil =>
      have hword := dnsLabels_word l [] done [] hl (by
        rw [dotted] at hroom
        rw [List.length_nil]
        omega)
      rw [List.append_nil, List.nil_append] at hword
      rw [dotted, hword, dnsLabels, List.flatMap_singleton, List.append_assoc]
      rfl
    | cons next rest =>
      rw [dotted, List.length_append, List.length_cons] at hroom
      rw [dotted, dnsLabels_word l _ done [] hl (by rw [List.length_nil]; omega), List.nil_append,
        dnsLabels, if_neg (by omega), if_pos (show period = 46 from rfl), ih _ (List.cons_ne_nil _ _)
          (fun x hx => hplain x (List.mem_cons_of_mem _ hx)) (by
            simp only [List.length_append, List.length_singleton]
            omega),
        List.flatMap_cons, List.append_assoc, List.append_assoc]
      rfl

theorem question_name (h : HostName labels) :
    dnsLabels [] [] (dotted labels) ++ [0] = encodeName labels := by
  have hshort := h.short
  rw [dnsLabels_dotted labels [] h.nonempty h.plain (by rw [List.length_nil]; omega),
    List.nil_append, encodeName]

theorem nameText_encode (h : ∀ l ∈ labels, 1 ≤ l.length ∧ l.length ≤ 63) :
    NameText (encodeName labels) := by
  induction labels with
  | nil => exact .root
  | cons l labels ih =>
    obtain ⟨hpos, hshort⟩ := h l List.mem_cons_self
    rw [encodeName, List.flatMap_cons, List.append_assoc]
    exact .label hpos hshort (ih fun x hx => h x (List.mem_cons_of_mem _ hx))

/-- The text stands in the frame at `p`. -/
def At (frame : Text) (p : ℕ) (text : Text) : Prop := text <+: frame.drop p

theorem At.split (h : At frame p (text ++ rest)) :
    At frame p text ∧ At frame (p + text.length) rest := by
  obtain ⟨tail, htail⟩ := h
  refine ⟨⟨rest ++ tail, by rw [← htail, List.append_assoc]⟩, ⟨tail, ?_⟩⟩
  rw [← List.drop_drop, ← htail, List.append_assoc, List.drop_left]

theorem load_at {b : UInt8} (h : At frame p (b :: rest)) : load frame p = .ok b := by
  obtain ⟨tail, htail⟩ := h
  have hget : frame[p]? = some b := by
    rw [← List.head?_drop, ← htail]
    rfl
  rw [load, hget]

theorem load_next {a b : UInt8} (h : At frame p (a :: b :: rest)) : load frame (p + 1) = .ok b :=
  load_at (At.split (show At frame p ([a] ++ b :: rest) from h)).2

theorem rd16_at {v : UInt16} (h : At frame p (wr16be v)) : rd16be frame p = .ok v := by
  rw [rd16be, load_at h, load_next h]
  exact congrArg Except.ok (be16_wr16be v)

theorem rd32_at {a b c d : UInt8} (h : At frame p [a, b, c, d]) :
    rd32be frame p = .ok (be32 a b c d) := by
  have hcd := (At.split (show At frame p ([a, b] ++ [c, d]) from h)).2
  have hc : load frame (p + 2) = .ok c := load_at hcd
  have hd : load frame (p + 3) = .ok d := load_next hcd
  rw [rd32be, load_at h, load_next h, hc, hd]
  rfl

theorem label_byte {n : ℕ} (hpos : 1 ≤ n) (hshort : n ≤ 63) :
    UInt8.ofNat n ≠ 0 ∧ ¬UInt8.ofNat n &&& 0xC0 = 0xC0 ∧ (UInt8.ofNat n).toNat = n := by
  have hnat : (UInt8.ofNat n).toNat = n := UInt8.toNat_ofNat_of_lt' (show n < 256 by omega)
  refine ⟨fun h => ?_, fun h => ?_, hnat⟩
  · rw [h] at hnat
    have h0 : (0 : UInt8).toNat = 0 := rfl
    omega
  · have hand := congrArg UInt8.toNat h
    rw [UInt8.toNat_and, hnat] at hand
    have hle : n &&& (0xC0 : UInt8).toNat ≤ n := Nat.and_le_left
    have hc0 : (0xC0 : UInt8).toNat = 192 := rfl
    omega

theorem NameText.pos {name : Text} (h : NameText name) : 1 ≤ name.length := by
  cases h with
  | root => exact Nat.le_refl _
  | pointer => exact show 1 ≤ 2 by decide
  | label =>
    rw [List.length_append, labelText, List.length_cons]
    omega

variable {dns dnsLen : ℕ}

theorem skip_name {name : Text} (h : NameText name) : ∀ n pos, name.length ≤ n →
    At frame (dns + pos) name → pos + name.length ≤ dnsLen →
    dnsSkipName frame dns dnsLen n pos = .ok (pos + name.length) := by
  induction h with
  | root =>
    intro n pos hn hat hlen
    obtain ⟨n, rfl⟩ : ∃ m, n = m + 1 := ⟨n - 1, by rw [List.length_singleton] at hn; omega⟩
    rw [List.length_singleton] at hlen
    rw [dnsSkipName, if_pos (by omega), load_at hat]
    rfl
  | pointer hi lo marked =>
    intro n pos hn hat hlen
    have htwo : [hi, lo].length = 2 := rfl
    obtain ⟨n, rfl⟩ : ∃ m, n = m + 1 := ⟨n - 1, by omega⟩
    have hne : hi ≠ 0 := by
      rintro rfl
      revert marked
      decide
    rw [dnsSkipName, if_pos (by omega), load_at hat]
    change (if hi = 0 then _ else if hi &&& 0xC0 = 0xC0 then _ else _) = _
    rw [if_neg hne, if_pos marked, if_pos (by omega), htwo]
  | @label l rest hpos hshort behind ih =>
    intro n pos hn hat hlen
    obtain ⟨hne, hmask, hnat⟩ := label_byte hpos hshort
    have hlabel : (labelText l).length = l.length + 1 := List.length_cons
    rw [List.length_append, hlabel] at hn hlen ⊢
    obtain ⟨n, rfl⟩ : ∃ m, n = m + 1 := ⟨n - 1, by omega⟩
    have hload := load_at hat.split.1
    have hrest := hat.split.2
    rw [hlabel, Nat.add_assoc] at hrest
    rw [dnsSkipName, if_pos (by omega), hload]
    change (if _ = 0 then _ else if _ &&& 0xC0 = 0xC0 then _ else _) = _
    rw [if_neg hne, if_neg hmask, hnat]
    have hstep := ih n (pos + 1 + l.length) (by omega)
      (by rwa [Nat.add_assoc pos, Nat.add_comm 1]) (by omega)
    rw [hstep]
    congr 1
    omega

theorem skipName_at {pos : ℕ} {name : Text} (h : NameText name)
    (hat : At frame (dns + pos) name) (hlen : pos + name.length ≤ dnsLen) :
    skipName frame dns dnsLen pos = .ok (pos + name.length) :=
  skip_name h _ pos (by omega) hat hlen

theorem skipQuestions_at : ∀ (questions : List Question) (pos : ℕ),
    (∀ q ∈ questions, NameText q.name) →
    At frame (dns + pos) (questions.flatMap Question.text) →
    pos + (questions.flatMap Question.text).length ≤ dnsLen →
    skipQuestions frame dns dnsLen questions.length pos =
      .ok (pos + (questions.flatMap Question.text).length) := by
  intro questions
  induction questions with
  | nil => exact fun pos _ _ _ => rfl
  | cons q questions ih =>
    intro pos hnames hat hlen
    have hname := hnames q List.mem_cons_self
    have hpos := hname.pos
    have htext : q.text.length = q.name.length + 4 := by
      simp only [Question.text, List.length_append, length_wr16be]
    rw [List.flatMap_cons] at hat
    obtain ⟨hq, hrest⟩ := hat.split
    rw [List.flatMap_cons, List.length_append, htext] at hlen
    rw [htext, Nat.add_assoc] at hrest
    rw [List.length_cons, skipQuestions, if_pos (by omega),
      skipName_at hname (At.split hq).1 (by omega)]
    change skipQuestions frame dns dnsLen questions.length (pos + q.name.length + 4) = _
    rw [ih _ (fun x hx => hnames x (List.mem_cons_of_mem _ hx)) (by rwa [Nat.add_assoc pos])
      (by omega), List.flatMap_cons, List.length_append, htext]
    congr 1
    omega

theorem Record.length_text (r : Record) :
    r.text.length = r.name.length + 10 + r.rdata.length := by
  simp only [Record.text, List.length_append, length_wr16be, length_wr32be]
  omega

theorem ofNat_eq_four {n : ℕ} (h : n < 65536) : UInt16.ofNat n = 4 ↔ n = 4 := by
  rw [← UInt16.toNat_inj, UInt16.toNat_ofNat_of_lt' h]
  rfl

theorem Record.address_eq_none {r : Record}
    (h : ¬(r.type = 1 ∧ r.classId = 1 ∧ r.rdata.length = 4)) : r.address = none := by
  unfold Record.address
  split
  next hin =>
    split
    next a b c d hrdata => exact absurd ⟨hin.1, hin.2, by rw [hrdata]; rfl⟩ h
    next => rfl
  next => rfl

theorem Record.address_eq_some {r : Record}
    (h : r.type = 1 ∧ r.classId = 1 ∧ r.rdata.length = 4) :
    ∃ a b c d, r.rdata = [a, b, c, d] ∧ r.address = some (be32 a b c d) := by
  obtain ⟨a, b, c, d, hrdata⟩ := List.length_eq_four.mp h.2.2
  refine ⟨a, b, c, d, hrdata, ?_⟩
  rw [Record.address, if_pos ⟨h.1, h.2.1⟩, hrdata]

theorem firstAddress_short : ∀ answers : List Record, (∀ a ∈ answers, NameText a.name) →
    (answers.flatMap Record.text).length < 12 → firstAddress answers = none := by
  intro answers
  induction answers with
  | nil => exact fun _ _ => rfl
  | cons r answers ih =>
    intro hnames hlen
    have hpos := (hnames r List.mem_cons_self).pos
    rw [List.flatMap_cons, List.length_append, r.length_text] at hlen
    rw [firstAddress, List.findSome?_cons, Record.address_eq_none fun h => by omega]
    exact ih (fun x hx => hnames x (List.mem_cons_of_mem _ hx)) (by omega)

theorem record_fields {r : Record} {q : ℕ} (h : At frame (q + r.name.length) (wr16be r.type ++
      (wr16be r.classId ++ (wr32be r.ttl ++ (wr16be (UInt16.ofNat r.rdata.length) ++ r.rdata))))) :
    rd16be frame (q + r.name.length) = .ok r.type ∧
    rd16be frame (q + r.name.length + 2) = .ok r.classId ∧
    rd16be frame (q + r.name.length + 8) = .ok (UInt16.ofNat r.rdata.length) ∧
    At frame (q + r.name.length + 10) r.rdata := by
  obtain ⟨htype, h⟩ := h.split
  obtain ⟨hclass, h⟩ := h.split
  obtain ⟨-, h⟩ := h.split
  obtain ⟨hlen, h⟩ := h.split
  exact ⟨rd16_at htype, rd16_at hclass, rd16_at hlen, h⟩

theorem findAnswer_at : ∀ (answers : List Record) (pos : ℕ),
    (∀ a ∈ answers, NameText a.name) → (∀ a ∈ answers, a.rdata.length < 65536) →
    At frame (dns + pos) (answers.flatMap Record.text) →
    pos + (answers.flatMap Record.text).length ≤ dnsLen →
    findAnswer frame dns dnsLen answers.length pos = .ok (firstAddress answers) := by
  intro answers
  induction answers with
  | nil => exact fun pos _ _ _ _ => rfl
  | cons r answers ih =>
    intro pos hnames hrdata hat hlen
    have hname := hnames r List.mem_cons_self
    have hdata := hrdata r List.mem_cons_self
    by_cases hroom : pos + 12 ≤ dnsLen
    swap
    · rw [List.length_cons, findAnswer, if_neg hroom,
        firstAddress_short _ hnames (by omega)]
    have htext := r.length_text
    rw [List.flatMap_cons] at hat
    rw [List.flatMap_cons, List.length_append, htext] at hlen
    obtain ⟨hr, hrest⟩ := hat.split
    obtain ⟨hnameAt, hfields⟩ := At.split hr
    obtain ⟨htype, hclass, hrdlen, hvalue⟩ := record_fields hfields
    have hnat : (UInt16.ofNat r.rdata.length).toNat = r.rdata.length :=
      UInt16.toNat_ofNat_of_lt' hdata
    rw [List.length_cons, findAnswer, if_pos hroom, skipName_at hname hnameAt (by omega)]
    change (if pos + r.name.length + 10 > dnsLen then _ else _) = _
    rw [if_neg (by omega), ← Nat.add_assoc, htype, hclass, hrdlen]
    change (if pos + r.name.length + 10 + (UInt16.ofNat r.rdata.length).toNat > dnsLen
      then _ else if _ then _ else _) = _
    rw [if_neg (by omega), hnat, firstAddress, List.findSome?_cons]
    by_cases haddress : r.type = 1 ∧ r.classId = 1 ∧ r.rdata.length = 4
    · obtain ⟨a, b, c, d, hrd, hsome⟩ := Record.address_eq_some haddress
      rw [hrd] at hvalue
      rw [if_pos ⟨haddress.1, haddress.2.1, (ofNat_eq_four hdata).mpr haddress.2.2⟩, hsome,
        rd32_at hvalue]
      rfl
    · rw [if_neg fun h => haddress ⟨h.1, h.2.1, (ofNat_eq_four hdata).mp h.2.2⟩,
        Record.address_eq_none haddress]
      refine ih _ (fun x hx => hnames x (List.mem_cons_of_mem _ hx))
        (fun x hx => hrdata x (List.mem_cons_of_mem _ hx)) ?_ (by omega)
      rw [htext] at hrest
      rwa [show dns + (pos + r.name.length + 10 + r.rdata.length) =
        dns + pos + (r.name.length + 10 + r.rdata.length) by omega]

theorem Response.length_text (r : Response) :
    r.text.length = 20 + (r.questions.flatMap Question.text).length +
      (r.answers.flatMap Record.text).length + r.more.length := by
  simp only [Response.text, List.length_append, length_wr16be]
  omega

theorem handleDns_response {r : Response} {net : NetState.Net} {udp : ℕ} {udpLen : UInt16}
    (h : WellFormed r) (hid : r.id = net.pendingDnsId) (hlen : udpLen.toNat = r.text.length)
    (hat : At frame udp r.text) :
    handleDnsPayload net frame udp udpLen = .ok (stored net (firstAddress r.answers)) := by
  have htext := r.length_text
  obtain ⟨hsrc, hat⟩ := At.split hat
  obtain ⟨hdst, hat⟩ := At.split hat
  obtain ⟨-, hat⟩ := At.split hat
  obtain ⟨-, hat⟩ := At.split hat
  obtain ⟨hidAt, hat⟩ := At.split hat
  obtain ⟨-, hat⟩ := At.split hat
  obtain ⟨hqd, hat⟩ := At.split hat
  obtain ⟨han, hat⟩ := At.split hat
  obtain ⟨-, hat⟩ := At.split hat
  obtain ⟨-, hat⟩ := At.split hat
  obtain ⟨hquestions, hat⟩ := At.split hat
  have hanswers := (At.split hat).1
  have hqdAt : rd16be frame (udp + 8 + 4) = .ok (UInt16.ofNat r.questions.length) := rd16_at hqd
  have hanAt : rd16be frame (udp + 8 + 6) = .ok (UInt16.ofNat r.answers.length) := rd16_at han
  have hskip : skipQuestions frame (udp + 8) (udpLen.toNat - 8) r.questions.length 12 =
      .ok (12 + (r.questions.flatMap Question.text).length) :=
    skipQuestions_at r.questions 12 h.questionName hquestions (by omega)
  have hfind : findAnswer frame (udp + 8) (udpLen.toNat - 8) r.answers.length
      (12 + (r.questions.flatMap Question.text).length) = .ok (firstAddress r.answers) :=
    findAnswer_at r.answers _ h.answerName h.rdata (by rw [← Nat.add_assoc]; exact hanswers)
      (by omega)
  have hlong : ¬udpLen < 20 := by
    have htwenty : (20 : UInt16).toNat = 20 := rfl
    rw [UInt16.lt_iff_toNat_lt]
    omega
  have hdstAt : rd16be frame (udp + 2) = .ok dnsSrcPort := rd16_at hdst
  have hidAt : rd16be frame (udp + 8) = .ok r.id := rd16_at hidAt
  rcases hfirst : firstAddress r.answers with _ | ip <;>
    simp only [handleDnsPayload, if_neg hlong, rd16_at hsrc, hdstAt, hidAt, hqdAt, hanAt,
      UInt16.toNat_ofNat_of_lt' h.questions, UInt16.toNat_ofNat_of_lt' h.answers, hskip, hfind, hfirst,
      bind, Except.bind, ne_eq, not_true_eq_false, or_self, if_false, hid, stored]

theorem find_remember {κ ν : Type} [DecidableEq κ] (entries : List (κ × ν)) (key : κ) (value : ν) :
    (remember entries key value).find? (fun e => e.1 = key) = some (key, value) := by
  unfold remember
  split
  next slot hslot =>
    obtain ⟨hlt, hkey, hfirst⟩ := List.findIdx?_eq_some_iff_getElem.mp hslot
    refine List.find?_eq_some_iff_getElem.mpr ⟨by simp, slot, by simpa using hlt, ?_, ?_⟩
    · rw [List.getElem_set_self]
    · intro j hj
      rw [List.getElem_set_ne (by omega)]
      simpa using hfirst j hj
  next hnone =>
    have hnone := List.findIdx?_eq_none_iff.mp hnone
    split
    · rw [List.find?_append, List.find?_eq_none.mpr fun e he => by simpa using hnone e he]
      simp
    next hfull =>
      obtain ⟨e, entries, rfl⟩ := List.exists_cons_of_length_pos (l := entries) (by omega)
      simp

theorem lookup_answered {net : NetState.Net} {ip : UInt32} (hname : net.pendingDnsName ≠ [])
    (hip : ip ≠ 0) :
    dnsCacheLookup (answered net ip) (copyText 64 net.pendingDnsName) = some ip := by
  have hput : (answered net ip).dnsCache =
      remember net.dnsCache (copyText 64 net.pendingDnsName) ip := by
    simp only [answered, dnsCachePut, hname, hip, or_self, if_false]
  rw [dnsCacheLookup, hput, find_remember]
  rfl

/-- `send_dns_query` with the text behind the UDP header as a parameter. -/
def sendQuery (net : NetState.Net) (host : Text) (text : UInt16 → Text) :
    Except Fault (Bool × NetState.Net) :=
  if host = [] then .ok (false, net)
  else match resolveMac net net.gateway with
  | (none, net) => .ok (false, net)
  | (some mac, net) => do
    let dnsId := net.nextDnsId
    let query := text dnsId
    let packet (server : UInt32) : Text :=
      let udp := wr16be dnsSrcPort ++ wr16be dnsPort ++ wr16be (UInt16.ofNat (8 + query.length)) ++
        wr16be 0 ++ query
      patch udp 6 (wr16be (udpChecksum net.ipv4 server udp))
    let len := UInt16.ofNat (8 + query.length)
    let net := { net with
      nextDnsId := net.nextDnsId + 1
      pendingDnsId := dnsId
      pendingDnsWaits := 0
      pendingDnsName := copyText 64 host }
    let (sent, net) ← sendIpv4 net mac net.dnsServer protoUdp (packet net.dnsServer) len
    if net.gateway ≠ 0 ∧ net.gateway ≠ net.dnsServer then
      let (sent', net) ← sendIpv4 net mac net.gateway protoUdp (packet net.gateway) len
      .ok (sent' || sent, net)
    else .ok (sent, net)

def queryText (id : UInt16) (name : Text) : Text :=
  wr16be id ++ wr16be 0x0100 ++ wr16be 1 ++ [0, 0, 0, 0, 0, 0] ++ name ++ wr16be 1 ++ wr16be 1

theorem sendDnsQuery_eq (net : NetState.Net) (host : Text) :
    sendDnsQuery net host =
      sendQuery net host fun id => queryText id (dnsLabels [] [] host ++ [0]) := by
  have htext : ∀ id, queryText id (dnsLabels [] [] host ++ [0]) =
      wr16be id ++ wr16be 0x0100 ++ wr16be 1 ++ [0, 0, 0, 0, 0, 0] ++
        dnsLabels [] [] host ++ [0] ++ wr16be 1 ++ wr16be 1 := by
    intro id
    simp only [queryText, List.append_assoc]
  simp only [sendQuery, htext]
  rfl

theorem dnsSkipName_rounds : ∀ n m pos : ℕ, dnsLen - pos < n → dnsLen - pos < m →
    dnsSkipName frame dns dnsLen n pos = dnsSkipName frame dns dnsLen m pos := by
  intro n
  induction n with
  | zero => exact fun _ _ h => absurd h (Nat.not_lt_zero _)
  | succ n ih =>
    intro m pos hn hm
    obtain ⟨m, rfl⟩ : ∃ k, m = k + 1 := ⟨m - 1, by omega⟩
    rw [dnsSkipName, dnsSkipName]
    by_cases hpos : pos < dnsLen
    · rw [if_pos hpos, if_pos hpos]
      have hrest : ∀ len : UInt8, dnsSkipName frame dns dnsLen n (pos + 1 + len.toNat) =
          dnsSkipName frame dns dnsLen m (pos + 1 + len.toNat) :=
        fun len => ih _ _ (by omega) (by omega)
      simp only [hrest]
    · rw [if_neg hpos, if_neg hpos]

/-- Names are written and skipped alike, the first address of a response is stored for the pending
name, and no bytes lead out of the message or into an endless loop. -/
theorem dns_answers_decoded :
    (∀ (net : NetState.Net) (labels : List Text), HostName labels →
      sendDnsQuery net (dotted labels) =
        sendQuery net (dotted labels) (fun id => queryText id (encodeName labels)) ∧
      ∀ (frame : Text) (dns dnsLen pos : ℕ), At frame (dns + pos) (encodeName labels) →
        pos + (encodeName labels).length ≤ dnsLen →
        skipName frame dns dnsLen pos = .ok (pos + (encodeName labels).length)) ∧
    (∀ (net : NetState.Net) (r : Response) (frame : Text) (udp : ℕ) (udpLen : UInt16),
      WellFormed r → r.id = net.pendingDnsId → udpLen.toNat = r.text.length →
      At frame udp r.text →
      handleDnsPayload net frame udp udpLen = .ok (stored net (firstAddress r.answers)) ∧
      (∀ ip, firstAddress r.answers = some ip → ip ≠ 0 → net.pendingDnsName ≠ [] →
        dnsCacheLookup (stored net (firstAddress r.answers)) (copyText 64 net.pendingDnsName) =
          some ip) ∧
      (firstAddress r.answers = none → stored net (firstAddress r.answers) = net) ∧
      (firstAddress r.answers = some 0 →
        (stored net (firstAddress r.answers)).dnsCache = net.dnsCache)) ∧
    (∀ (net : NetState.Net) (frame : Text) (udp : ℕ) (udpLen : UInt16),
      udp + udpLen.toNat ≤ frame.length → Safe (handleDnsPayload net frame udp udpLen)) ∧
    ∀ (frame : Text) (dns dnsLen pos n : ℕ), dnsLen - pos < n →
      dnsSkipName frame dns dnsLen n pos = skipName frame dns dnsLen pos := by
  refine ⟨fun net labels h => ⟨?_, ?_⟩, fun net r frame udp udpLen h hid hlen hat => ⟨?_, ?_, ?_, ?_⟩,
    fun net frame udp udpLen => handleDns_safe,
    fun frame dns dnsLen pos n h => dnsSkipName_rounds _ _ _ h (by omega)⟩
  · rw [sendDnsQuery_eq, question_name h]
  · exact fun frame dns dnsLen pos => skipName_at (nameText_encode h.label)
  · exact handleDns_response h hid hlen hat
  · intro ip hfirst hip hname
    rw [hfirst]
    exact lookup_answered hname hip
  · intro hnone
    rw [hnone, stored]
  · intro hzero
    rw [hzero]
    simp only [stored, answered, dnsCachePut, or_true, if_true]

/-- A response to a query for one host, whose answer points to the question. -/
def sampleResponse : Response where
  len := 0
  checksum := 0
  id := 7
  flags := 0x8180
  authorities := 0
  additionals := 0
  questions := [⟨encodeName [[107]], 1, 1⟩]
  answers := [⟨[0xC0, 12], 5, 1, 60, [0]⟩, ⟨[0xC0, 12], 1, 1, 60, [10, 0, 2, 9]⟩]
  more := []

theorem sampleResponse_wellFormed : WellFormed sampleResponse where
  questions := by decide
  answers := by decide
  questionName := by
    intro q hq
    rw [List.mem_singleton.mp hq]
    exact nameText_encode (by decide)
  answerName := by
    have hpointer : NameText [0xC0, 12] := .pointer _ _ (by decide)
    intro a ha
    obtain rfl | ha := List.mem_cons.mp ha
    · exact hpointer
    · rw [List.mem_singleton.mp ha]
      exact hpointer
  rdata := by decide

def waitingNet : NetState.Net :=
  { k64NetInit with pendingDnsId := 7, pendingDnsName := [107] }

theorem dns_answers_decoded_sample :
    sendDnsQuery waitingNet (dotted [[107], [54]]) = sendQuery waitingNet (dotted [[107], [54]])
      (fun id => queryText id (encodeName [[107], [54]])) ∧
    handleDnsPayload waitingNet sampleResponse.text 0 (UInt16.ofNat sampleResponse.text.length) =
      .ok (stored waitingNet (some (be32 10 0 2 9))) ∧
    Safe (handleDnsPayload waitingNet [] 0 0) :=
  ⟨(dns_answers_decoded.1 waitingNet [[107], [54]]
      ⟨List.cons_ne_nil _ _, by decide, by decide, by decide⟩).1,
    (dns_answers_decoded.2.1 waitingNet sampleResponse sampleResponse.text 0 _
      sampleResponse_wellFormed rfl rfl (List.prefix_refl _)).1,
    dns_answers_decoded.2.2.1 waitingNet [] 0 0 (Nat.le_refl _)⟩

end NetDns
