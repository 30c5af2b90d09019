import Mathlib.Tactic.Ring
import K64.NetState

/-! # Addresses in text

`k64_net_parse_ipv4` and `k64_net_format_ipv4`: what texts are addresses, and that the text of an address
is read back as it. -/
namespace NetState

def appendBounded (outSize : ℕ) (out : List UInt8) (ch : UInt8) : List UInt8 :=
  if out.length + 1 < outSize then out ++ [ch] else out

def partDigits (part : UInt8) : List UInt8 :=
  if 100 ≤ part then [48 + part / 100, 48 + part % 100 / 10, 48 + part % 100 % 10]
  else if 10 ≤ part then [48 + part / 10, 48 + part % 10]
  else [48 + part]

/-- What is in the buffer in front of the closing zero. -/
def k64NetFormatIpv4 (ip : UInt32) (outSize : ℕ) : List UInt8 :=
  [3, 2, 1, 0].foldl (fun out i =>
    let part := ((ip >>> (UInt32.ofNat i * 8)) &&& 0xFF).toUInt8
    let out := (partDigits part).foldl (appendBounded outSize) out
    if 0 < i then appendBounded outSize out 46 else out) []

abbrev IsDigit (ch : UInt8) : Prop := 48 ≤ ch ∧ ch ≤ 57

def valueFrom (n : ℕ) (s : List UInt8) : ℕ := s.foldl (fun n ch => n * 10 + (ch.toNat - 48)) n

/-- A number of one or more digits with a value up to 255. -/
structure ByteText (s : List UInt8) (n : ℕ) : Prop where
  nonempty : s ≠ []
  digits : ∀ ch ∈ s, IsDigit ch
  value : valueFrom 0 s = n
  bound : n ≤ 255

/-- Four numbers, separated by single dots, and the address with these bytes. -/
def DottedQuad (text : List UInt8) (ip : UInt32) : Prop :=
  ∃ a b c d na nb nc nd, ByteText a na ∧ ByteText b nb ∧ ByteText c nc ∧ ByteText d nd ∧
    text = a ++ 46 :: (b ++ 46 :: (c ++ 46 :: d)) ∧
    ip.toNat = ((na * 256 + nb) * 256 + nc) * 256 + nd

theorem valueFrom_mono (s : List UInt8) (n : ℕ) : n ≤ valueFrom n s := by
  induction s generalizing n with
  | nil => exact Nat.le_refl n
  | cons ch s ih =>
    have hstep := ih (n * 10 + (ch.toNat - 48))
    change n ≤ valueFrom (n * 10 + (ch.toNat - 48)) s
    omega

theorem next_value {n : ℕ} {ch : UInt8} (hn : n ≤ 255) (hch : IsDigit ch) :
    UInt32.ofNat n * 10 + (ch - 48).toUInt32 = UInt32.ofNat (n * 10 + (ch.toNat - 48)) ∧
    (UInt32.ofNat (n * 10 + (ch.toNat - 48)) > 255 ↔ 255 < n * 10 + (ch.toNat - 48)) := by
  have hlow : 48 ≤ ch.toNat := UInt8.le_iff_toNat_le.mp hch.1
  have hhigh : ch.toNat ≤ 57 := UInt8.le_iff_toNat_le.mp hch.2
  have hsub : (ch - 48).toNat = ch.toNat - 48 := UInt8.toNat_sub_of_le _ _ hch.1
  constructor
  · apply UInt32.toNat_inj.mp
    rw [UInt32.toNat_add, UInt32.toNat_mul, UInt8.toNat_toUInt32, hsub, UInt32.toNat_ofNat',
      UInt32.toNat_ofNat']
    change (n % 2 ^ 32 * 10 % 2 ^ 32 + _) % 2 ^ 32 = _
    omega
  · rw [gt_iff_lt, UInt32.lt_iff_toNat_lt, UInt32.toNat_ofNat']
    change 255 < (n * 10 + (ch.toNat - 48)) % 2 ^ 32 ↔ _
    omega

theorem parse_end (parts : List UInt32) (value : UInt32) (saw : Bool) (ip : UInt32) :
    parseIpv4From [] parts value saw = some ip ↔ saw = true ∧ ∃ a b c, parts = [c, b, a] ∧
      ip = (a <<< 24) ||| (b <<< 16) ||| (c <<< 8) ||| value := by
  unfold parseIpv4From
  split
  next c b a => simp [eq_comm]
  next hother =>
    constructor
    · exact fun h => nomatch h
    · rintro ⟨rfl, a, b, c, rfl, -⟩
      exact absurd rfl (hother c b a rfl)

/-- The loop up to the next dot or the end. -/
theorem parse_number (text : List UInt8) (parts : List UInt32) (n : ℕ) (saw : Bool) (ip : UInt32)
    (hn : n ≤ 255) : parseIpv4From text parts (UInt32.ofNat n) saw = some ip ↔
      ∃ s m, (∀ ch ∈ s, IsDigit ch) ∧ valueFrom n s = m ∧ m ≤ 255 ∧ (saw = true ∨ s ≠ []) ∧
        ((text = s ∧ parseIpv4From [] parts (UInt32.ofNat m) true = some ip) ∨
          ∃ rest, text = s ++ 46 :: rest ∧ parts.length < 3 ∧
            parseIpv4From rest (UInt32.ofNat m :: parts) 0 false = some ip) := by
  induction text generalizing n saw with
  | nil =>
    constructor
    · intro h
      have hsaw := ((parse_end _ _ _ _).mp h).1
      exact ⟨[], n, fun ch hch => absurd hch List.not_mem_nil, rfl, hn, .inl hsaw, .inl ⟨rfl, hsaw ▸ h⟩⟩
    · rintro ⟨s, m, -, rfl, -, hsaw, ⟨rfl, h⟩ | ⟨rest, hnil, -⟩⟩
      · rcases hsaw with rfl | hne
        · exact h
        · exact absurd rfl hne
      · exact absurd hnil.symm (List.append_ne_nil_of_right_ne_nil s (List.cons_ne_nil _ _))
  | cons ch text ih =>
    rw [parseIpv4From]
    by_cases hdigit : IsDigit ch
    · obtain ⟨hword, hlarge⟩ := next_value hn hdigit
      rw [if_pos hdigit]
      dsimp only
      rw [hword]
      by_cases hbig : 255 < n * 10 + (ch.toNat - 48)
      · rw [if_pos (hlarge.mpr hbig)]
        constructor
        · exact fun h => nomatch h
        -- the digit belongs to the number, whose value is too large already
        · rintro ⟨s, m, -, rfl, hm, -, htext⟩
          obtain ⟨t, rfl⟩ : ∃ t, s = ch :: t := by
            cases s with
            | nil =>
              rcases htext with ⟨hnil, -⟩ | ⟨rest, hdot, -⟩
              · exact nomatch hnil
              · obtain ⟨rfl, -⟩ := List.cons.inj hdot
                exact absurd hdigit (by decide +revert)
            | cons a t =>
              rcases htext with ⟨hcons, -⟩ | ⟨rest, hcons, -⟩
              · exact ⟨t, by rw [(List.cons.inj hcons).1]⟩
              · exact ⟨t, by rw [(List.cons.inj hcons).1]⟩
          have hmono := valueFrom_mono t (n * 10 + (ch.toNat - 48))
          change valueFrom (n * 10 + (ch.toNat - 48)) t ≤ 255 at hm
          omega
      · rw [if_neg (fun h => hbig (hlarge.mp h)), ih _ true (by omega)]
        constructor
        · rintro ⟨s, m, hs, hv, hm, -, htext⟩
          refine ⟨ch :: s, m, List.forall_mem_cons.mpr ⟨hdigit, hs⟩, hv, hm,
            .inr (List.cons_ne_nil _ _), ?_⟩
          rcases htext with ⟨rfl, h⟩ | ⟨rest, rfl, h⟩
          · exact .inl ⟨rfl, h⟩
          · exact .inr ⟨rest, rfl, h⟩
        · rintro ⟨s, m, hs, hv, hm, -, htext⟩
          cases s with
          | nil =>
            rcases htext with ⟨hnil, -⟩ | ⟨rest, hdot, -⟩
            · exact nomatch hnil
            · obtain ⟨rfl, -⟩ := List.cons.inj hdot
              exact absurd hdigit (by decide +revert)
          | cons a t =>
            refine ⟨t, m, fun c hc => hs c (List.mem_cons_of_mem a hc), ?_, hm, .inl rfl, ?_⟩
            · rcases htext with ⟨hcons, -⟩ | ⟨rest, hcons, -⟩
              · rw [(List.cons.inj hcons).1]
                exact hv
              · rw [(List.cons.inj hcons).1]
                exact hv
            · rcases htext with ⟨hcons, h⟩ | ⟨rest, hcons, h⟩
              · exact .inl ⟨(List.cons.inj hcons).2, h⟩
              · exact .inr ⟨rest, (List.cons.inj hcons).2, h⟩
    · rw [if_neg hdigit]
      by_cases hdot : ch = 46 ∧ parts.length < 3 ∧ saw = true
      · rw [if_pos hdot]
        constructor
        · intro h
          exact ⟨[], n, fun c hc => absurd hc List.not_mem_nil, rfl, hn, .inl hdot.2.2,
            .inr ⟨text, by rw [hdot.1]; rfl, hdot.2.1, h⟩⟩
        · rintro ⟨s, m, hs, rfl, -, -, ⟨rfl, -⟩ | ⟨rest, htext, -, h⟩⟩
          · exact absurd (hs ch List.mem_cons_self) hdigit
          · cases s with
            | nil =>
              obtain ⟨-, rfl⟩ := List.cons.inj htext
              exact h
            | cons a t =>
              exact absurd ((List.cons.inj htext).1 ▸ hs a List.mem_cons_self) hdigit
      · rw [if_neg hdot]
        constructor
        · exact fun h => nomatch h
        · rintro ⟨s, m, hs, -, -, hsaw, ⟨rfl, -⟩ | ⟨rest, htext, hlen, -⟩⟩
          · exact absurd (hs ch List.mem_cons_self) hdigit
          · cases s with
            | nil =>
              refine absurd ⟨(List.cons.inj htext).1, hlen, ?_⟩ hdot
              exact hsaw.resolve_right fun h => h rfl
            | cons a t =>
              exact absurd ((List.cons.inj htext).1 ▸ hs a List.mem_cons_self) hdigit

theorem parse_part {text : List UInt8} {parts : List UInt32} {ip : UInt32} (hlen : parts.length < 3) :
    parseIpv4From text parts 0 false = some ip ↔ ∃ s m rest, ByteText s m ∧ text = s ++ 46 :: rest ∧
      parseIpv4From rest (UInt32.ofNat m :: parts) 0 false = some ip := by
  rw [show (0 : UInt32) = UInt32.ofNat 0 from rfl, parse_number _ _ _ _ _ (Nat.zero_le _)]
  constructor
  · rintro ⟨s, m, hs, hv, hm, hne, ⟨-, hend⟩ | ⟨rest, htext, -, h⟩⟩
    · obtain ⟨-, a, b, c, rfl, -⟩ := (parse_end _ _ _ _).mp hend
      exact absurd hlen (Nat.lt_irrefl 3)
    · exact ⟨s, m, rest, ⟨hne.resolve_left Bool.false_ne_true, hs, hv, hm⟩, htext, h⟩
  · rintro ⟨s, m, rest, h, htext, hrest⟩
    exact ⟨s, m, h.digits, h.value, h.bound, .inr h.nonempty, .inr ⟨rest, htext, hlen, hrest⟩⟩

theorem parse_last {text : List UInt8} {a b c ip : UInt32} :
    parseIpv4From text [c, b, a] 0 false = some ip ↔ ∃ m, ByteText text m ∧
      ip = (a <<< 24) ||| (b <<< 16) ||| (c <<< 8) ||| UInt32.ofNat m := by
  rw [show (0 : UInt32) = UInt32.ofNat 0 from rfl, parse_number _ _ _ _ _ (Nat.zero_le _)]
  constructor
  · rintro ⟨s, m, hs, hv, hm, hne, ⟨rfl, hend⟩ | ⟨rest, -, hlen, -⟩⟩
    · obtain ⟨-, a', b', c', hparts, hip⟩ := (parse_end _ _ _ _).mp hend
      obtain ⟨rfl, rfl, rfl⟩ : c = c' ∧ b = b' ∧ a = a' := by simpa using hparts
      exact ⟨m, ⟨hne.resolve_left Bool.false_ne_true, hs, hv, hm⟩, hip⟩
    · exact absurd hlen (Nat.lt_irrefl 3)
  · rintro ⟨m, h, hip⟩
    exact ⟨text, m, h.digits, h.value, h.bound, .inr h.nonempty,
      .inl ⟨rfl, (parse_end _ _ _ _).mpr ⟨rfl, a, b, c, rfl, hip⟩⟩⟩

theorem address_word {a b c d : ℕ} (ha : a ≤ 255) (hb : b ≤ 255) (hc : c ≤ 255) (hd : d ≤ 255) :
    ((UInt32.ofNat a <<< 24) ||| (UInt32.ofNat b <<< 16) ||| (UInt32.ofNat c <<< 8) |||
      UInt32.ofNat d).toNat = ((a * 256 + b) * 256 + c) * 256 + d := by
  have hshift : ∀ n k : ℕ, n ≤ 255 → k ≤ 24 →
      (UInt32.ofNat n).toNat <<< k % 2 ^ 32 = 2 ^ k * n := by
    intro n k hn hk
    have hword : (UInt32.ofNat n).toNat = n := by
      rw [UInt32.toNat_ofNat']
      omega
    have hpow : 2 ^ k * n < 2 ^ 32 := calc
      2 ^ k * n ≤ 2 ^ 24 * 255 := Nat.mul_le_mul (Nat.pow_le_pow_right (by decide) hk) hn
      _ < 2 ^ 32 := by decide
    rw [hword, Nat.shiftLeft_eq, Nat.mul_comm, Nat.mod_eq_of_lt hpow]
  have hword : (UInt32.ofNat d).toNat = d := by
    rw [UInt32.toNat_ofNat']
    omega
  rw [UInt32.toNat_or, UInt32.toNat_or, UInt32.toNat_or, UInt32.toNat_shiftLeft,
    UInt32.toNat_shiftLeft, UInt32.toNat_shiftLeft, hword]
  change ((UInt32.ofNat a).toNat <<< 24 % 2 ^ 32 ||| (UInt32.ofNat b).toNat <<< 16 % 2 ^ 32 |||
    (UInt32.ofNat c).toNat <<< 8 % 2 ^ 32 ||| d) = _
  rw [hshift a 24 ha (by decide), hshift b 16 hb (by decide), hshift c 8 hc (by decide),
    ← Nat.two_pow_add_eq_or_of_lt (by omega),
    show 2 ^ 24 * a + 2 ^ 16 * b = 2 ^ 16 * (a * 256 + b) by ring,
    ← Nat.two_pow_add_eq_or_of_lt (by omega),
    show 2 ^ 16 * (a * 256 + b) + 2 ^ 8 * c = 2 ^ 8 * ((a * 256 + b) * 256 + c) by ring,
    ← Nat.two_pow_add_eq_or_of_lt (by omega)]
  ring

theorem parse_quad (text : List UInt8) (ip : UInt32) :
    k64NetParseIpv4 text = some ip ↔ DottedQuad text ip := by
  rw [k64NetParseIpv4, parse_part (by simp)]
  constructor
  · rintro ⟨a, na, rest₁, ha, rfl, h₁⟩
    obtain ⟨b, nb, rest₂, hb, rfl, h₂⟩ := (parse_part (by simp)).mp h₁
    obtain ⟨c, nc, d, hc, rfl, h₃⟩ := (parse_part (by simp)).mp h₂
    obtain ⟨nd, hd, rfl⟩ := parse_last.mp h₃
    exact ⟨a, b, c, d, na, nb, nc, nd, ha, hb, hc, hd, rfl,
      address_word ha.bound hb.bound hc.bound hd.bound⟩
  · rintro ⟨a, b, c, d, na, nb, nc, nd, ha, hb, hc, hd, rfl, hip⟩
    refine ⟨a, na, _, ha, rfl, (parse_part (by simp)).mpr ⟨b, nb, _, hb, rfl, ?_⟩⟩
    refine (parse_part (by simp)).mpr ⟨c, nc, _, hc, rfl, parse_last.mpr ⟨nd, hd, ?_⟩⟩
    apply UInt32.toNat_inj.mp
    rw [hip, address_word ha.bound hb.bound hc.bound hd.bound]

theorem forall_byte {P : UInt8 → Prop} (h : ∀ n : Fin 256, P (UInt8.ofNat n.val)) (b : UInt8) :
    P b := by
  have hb : UInt8.ofNat b.toNat = b := UInt8.ofNat_toNat
  exact hb ▸ h ⟨b.toNat, b.toNat_lt⟩

theorem part_digits (part : UInt8) : partDigits part ≠ [] ∧ (partDigits part).length ≤ 3 := by
  rw [partDigits]
  split_ifs
  all_goals simp

theorem part_text (part : UInt8) : ByteText (partDigits part) part.toNat := by
  have hall : ∀ n : Fin 256, ((partDigits (UInt8.ofNat n.val)).all fun ch => decide (IsDigit ch)) =
    true ∧
      valueFrom 0 (partDigits (UInt8.ofNat n.val)) = (UInt8.ofNat n.val).toNat := by
    decide +kernel
  have hpart : ((partDigits part).all fun ch => decide (IsDigit ch)) = true ∧
      valueFrom 0 (partDigits part) = part.toNat :=
    forall_byte (P := fun b => ((partDigits b).all fun ch => decide (IsDigit ch)) = true ∧
      valueFrom 0 (partDigits b) = b.toNat) hall part
  exact ⟨(part_digits part).1, fun ch hch => of_decide_eq_true (List.all_eq_true.mp hpart.1 ch hch),
    hpart.2, Nat.le_of_lt_succ part.toNat_lt⟩

theorem append_fits {outSize : ℕ} (s out : List UInt8) (h : out.length + s.length < outSize) :
    s.foldl (appendBounded outSize) out = out ++ s := by
  induction s generalizing out with
  | nil => exact (List.append_nil out).symm
  | cons ch s ih =>
    rw [List.length_cons] at h
    rw [List.foldl_cons, appendBounded, if_pos (by omega), ih _ (by simp; omega)]
    simp

theorem byte_of_word (ip : UInt32) (k : ℕ) (hk : k ≤ 3) :
    ((ip >>> (UInt32.ofNat k * 8)) &&& 0xFF).toUInt8.toNat = ip.toNat / 256 ^ k % 256 := by
  have hshift : (UInt32.ofNat k * 8).toNat % 32 = 8 * k := by
    rw [UInt32.toNat_mul, UInt32.toNat_ofNat']
    change k % 2 ^ 32 * 8 % 2 ^ 32 % 32 = _
    omega
  rw [show (256 : ℕ) = 2 ^ 8 from rfl, UInt32.toNat_toUInt8, UInt32.toNat_and,
    UInt32.toNat_shiftRight, hshift, Nat.shiftRight_eq_div_pow, Nat.pow_mul,
    show (0xFF : UInt32).toNat = 2 ^ 8 - 1 from rfl, Nat.and_two_pow_sub_one_eq_mod, Nat.mod_mod]

theorem format_text (ip : UInt32) {outSize : ℕ} (h : 16 ≤ outSize) :
    DottedQuad (k64NetFormatIpv4 ip outSize) ip := by
  have ha := part_text ((ip >>> (UInt32.ofNat 3 * 8)) &&& 0xFF).toUInt8
  have hla := (part_digits ((ip >>> (UInt32.ofNat 3 * 8)) &&& 0xFF).toUInt8).2
  have hb := part_text ((ip >>> (UInt32.ofNat 2 * 8)) &&& 0xFF).toUInt8
  have hlb := (part_digits ((ip >>> (UInt32.ofNat 2 * 8)) &&& 0xFF).toUInt8).2
  have hc := part_text ((ip >>> (UInt32.ofNat 1 * 8)) &&& 0xFF).toUInt8
  have hlc := (part_digits ((ip >>> (UInt32.ofNat 1 * 8)) &&& 0xFF).toUInt8).2
  have hd := part_text ((ip >>> (UInt32.ofNat 0 * 8)) &&& 0xFF).toUInt8
  have hld := (part_digits ((ip >>> (UInt32.ofNat 0 * 8)) &&& 0xFF).toUInt8).2
  refine ⟨_, _, _, _, _, _, _, _, ha, hb, hc, hd, ?_, ?_⟩
  · rw [k64NetFormatIpv4]
    simp only [List.foldl_cons, List.foldl_nil, Nat.lt_irrefl, if_false, if_true,
      show 0 < 3 by decide, show 0 < 2 by decide, show 0 < 1 by decide]
    rw [append_fits _ [] (by rw [List.length_nil]; omega), List.nil_append]
    generalize partDigits ((ip >>> (UInt32.ofNat 3 * 8)) &&& 0xFF).toUInt8 = a at *
    generalize partDigits ((ip >>> (UInt32.ofNat 2 * 8)) &&& 0xFF).toUInt8 = b at *
    generalize partDigits ((ip >>> (UInt32.ofNat 1 * 8)) &&& 0xFF).toUInt8 = c at *
    generalize partDigits ((ip >>> (UInt32.ofNat 0 * 8)) &&& 0xFF).toUInt8 = d at *
    have hdot : ∀ out : List UInt8, out.length < 15 → appendBounded outSize out 46 = out ++ [46] :=
      fun out hout => if_pos (by omega)
    rw [hdot a (by omega), append_fits b (a ++ [46]) (by simp; omega),
      hdot (a ++ [46] ++ b) (by simp; omega),
      append_fits c (a ++ [46] ++ b ++ [46]) (by simp; omega),
      hdot (a ++ [46] ++ b ++ [46] ++ c) (by simp; omega),
      append_fits d (a ++ [46] ++ b ++ [46] ++ c ++ [46]) (by simp; omega)]
    simp
  · rw [byte_of_word ip 3 (by decide), byte_of_word ip 2 (by decide), byte_of_word ip 1 (by decide),
      byte_of_word ip 0 (by decide)]
    have := ip.toNat_lt
    omega

/-- A text is an address exactly if it is four numbers up to 255 with single dots between them, and
then the one with these bytes; an address is read back from its text. -/
theorem ipv4_text_corresponds :
    (∀ text ip, k64NetParseIpv4 text = some ip ↔ DottedQuad text ip) ∧
    ∀ ip outSize, 16 ≤ outSize → k64NetParseIpv4 (k64NetFormatIpv4 ip outSize) = some ip :=
  ⟨parse_quad, fun ip _ h => (parse_quad _ _).mpr (format_text ip h)⟩

theorem loopback_text : k64NetParseIpv4 (k64NetFormatIpv4 0x7F000001 16) = some 0x7F000001 :=
  ipv4_text_corresponds.2 _ 16 (Nat.le_refl 16)

end NetState
