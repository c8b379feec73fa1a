import SharedRuntime.Hex
import SharedRuntime.Proofs.Failing
import SharedRuntime.Proofs.Text.Ascii
import SharedRuntime.Text.Blank

/-!
# Hexadecimal texts read back

What `Hex.encode` writes holds no blanks (`trim_encode`) and decodes to the bytes it was written for
(`decode_encode`). Nothing else decodes to them but the same digits in another case
(`decode_ok_iff`), and what does not decode has an odd length or a first byte that is no digit
(`decode_error_iff`).
-/

set_option autoImplicit false

namespace SharedRuntime

/-! ## Texts without blanks -/

theorem dropWhile_of_not {α : Type} {f : α → Bool} {xs : List α} (h : ∀ x ∈ xs, f x = false) :
    xs.dropWhile f = xs := by
  cases xs with
  | nil => rfl
  | cons x xs =>
    rw [List.dropWhile_cons, h x List.mem_cons_self]
    rfl

theorem trim_of_noBlank {s : String} (h : ∀ c ∈ s.toList, isBlank c = false) : trim s = s := by
  unfold trim trimChars trimStartChars
  rw [dropWhile_of_not h, dropWhile_of_not fun c hc => h c (List.mem_reverse.1 hc),
    List.reverse_reverse, String.ofList_toList]

namespace Hex

/-! ## Digits -/

theorem hexValue?_hexDigit : ∀ n < 16, hexValue? (hexDigit n) = some n := by decide

theorem toNat_hexDigit_lt : ∀ n < 16, (hexDigit n).toNat < 128 := by decide

theorem isBlank_hexDigit : ∀ n < 16, isBlank (hexDigit n) = false := by decide

theorem digit_hexDigit {n : Nat} (h : n < 16) (position : Nat) :
    digit (UInt8.ofNat (hexDigit n).toNat) position = .ok n := by
  have hlt := toNat_hexDigit_lt n h
  unfold digit
  rw [Utf8.toNat_ofNat (by omega), Char.ofNat_toNat, hexValue?_hexDigit n h]

/-- Each character of a hexadecimal text is a digit. -/
theorem mem_encodeChars {bs : Bytes} {c : Char} (h : c ∈ encodeChars bs) :
    ∃ n < 16, c = hexDigit n := by
  induction bs with
  | nil => cases h
  | cons b bs ih =>
    have hb := b.toNat_lt
    unfold encodeChars at h
    rcases List.mem_cons.1 h with rfl | h
    · exact ⟨_, by omega, rfl⟩
    rcases List.mem_cons.1 h with rfl | h
    · exact ⟨_, by omega, rfl⟩
    · exact ih h

theorem length_encodeChars (bs : Bytes) : (encodeChars bs).length = 2 * bs.length := by
  induction bs with
  | nil => rfl
  | cons b bs ih =>
    unfold encodeChars
    rw [List.length_cons, List.length_cons, ih, List.length_cons]
    omega

theorem ofString_encode (bs : Bytes) :
    Bytes.ofString (encode bs) = (encodeChars bs).map fun c => UInt8.ofNat c.toNat := by
  unfold encode
  rw [Bytes.ofString_ofList, flatMap_utf8EncodeChar_ascii]
  intro c hc
  obtain ⟨n, hn, rfl⟩ := mem_encodeChars hc
  exact toNat_hexDigit_lt n hn

/-! ## Decoding -/

theorem decodePairs_encodeChars (bs : Bytes) (position : Nat) :
    decodePairs position ((encodeChars bs).map fun c => UInt8.ofNat c.toNat) = .ok bs := by
  induction bs generalizing position with
  | nil => rfl
  | cons b bs ih =>
    have hb := b.toNat_lt
    have hhalves : 16 * (b.toNat / 16) + b.toNat % 16 = b.toNat := Nat.div_add_mod _ _
    unfold encodeChars
    rw [List.map_cons, List.map_cons, decodePairs, digit_hexDigit (by omega),
      digit_hexDigit (by omega), ih]
    simp only [bind, Except.bind, pure, Except.pure, hhalves, UInt8.ofNat_toNat]

theorem decode_encode (bs : Bytes) : decode (encode bs) = .ok bs := by
  unfold decode decodeBytes
  rw [ofString_encode, if_neg, decodePairs_encodeChars]
  rw [List.length_map, length_encodeChars]
  omega

theorem trim_encode (bs : Bytes) : trim (encode bs) = encode bs := by
  refine trim_of_noBlank fun c hc => ?_
  unfold encode at hc
  rw [String.toList_ofList] at hc
  obtain ⟨n, hn, rfl⟩ := mem_encodeChars hc
  exact isBlank_hexDigit n hn

/-! ## What is decoded -/

/-- Is the byte one of `0` to `9`, `A` to `F` and `a` to `f`? -/
def IsDigit (b : UInt8) : Prop :=
  (0x30 ≤ b ∧ b ≤ 0x39) ∨ (0x41 ≤ b ∧ b ≤ 0x46) ∨ (0x61 ≤ b ∧ b ≤ 0x66)

instance (b : UInt8) : Decidable (IsDigit b) :=
  inferInstanceAs (Decidable
    ((0x30 ≤ b ∧ b ≤ 0x39) ∨ (0x41 ≤ b ∧ b ≤ 0x46) ∨ (0x61 ≤ b ∧ b ≤ 0x66)))

/-- A digit is, in lower case, what is written for its value. -/
theorem hexValue?_lower : ∀ n < 256, (hexValue? (Char.ofNat n)).all (fun v => v < 16 &&
    Bytes.lowerByte (UInt8.ofNat n) == UInt8.ofNat (hexDigit v).toNat) = true := by
  decide +kernel

/-- The case of a digit does not matter. -/
theorem hexValue?_lowerByte : ∀ n < 256,
    hexValue? (Char.ofNat (Bytes.lowerByte (UInt8.ofNat n)).toNat) = hexValue? (Char.ofNat n) := by
  decide +kernel

theorem hexValue?_isSome : ∀ n < 256,
    (hexValue? (Char.ofNat n)).isSome = true ↔ IsDigit (UInt8.ofNat n) := by
  decide +kernel

section
variable {b : UInt8} {position v : Nat}

theorem digit_ok_iff : digit b position = .ok v ↔
    v < 16 ∧ Bytes.lowerByte b = UInt8.ofNat (hexDigit v).toNat := by
  constructor
  · intro h
    have hlower := hexValue?_lower b.toNat b.toNat_lt
    unfold digit at h
    split at h
    · rename_i u hu
      cases h
      rw [hu, UInt8.ofNat_toNat] at hlower
      obtain ⟨hlt, hbyte⟩ := Bool.and_eq_true_iff.1 hlower
      exact ⟨of_decide_eq_true hlt, eq_of_beq hbyte⟩
    · cases h
  · rintro ⟨hlt, hbyte⟩
    have hsame := hexValue?_lowerByte b.toNat b.toNat_lt
    have hascii := toNat_hexDigit_lt v hlt
    rw [UInt8.ofNat_toNat, hbyte, Utf8.toNat_ofNat (by omega), Char.ofNat_toNat,
      hexValue?_hexDigit v hlt] at hsame
    unfold digit
    rw [← hsame]

theorem digit_error_iff {f : Fault} : digit b position = .error f ↔
    ¬ IsDigit b ∧ f = .notADigit b position := by
  have hiff := hexValue?_isSome b.toNat b.toNat_lt
  rw [UInt8.ofNat_toNat] at hiff
  rw [← hiff]
  unfold digit
  cases hexValue? (Char.ofNat b.toNat) with
  | none =>
    constructor
    · intro h
      cases h
      exact ⟨Bool.false_ne_true, rfl⟩
    · rintro ⟨-, rfl⟩
      rfl
  | some u =>
    constructor
    · intro h
      cases h
    · rintro ⟨hno, -⟩
      exact absurd rfl hno

theorem exists_digit_iff : (∃ v, digit b position = .ok v) ↔ IsDigit b := by
  cases hd : digit b position with
  | error f =>
    constructor
    · rintro ⟨v, h⟩
      cases h
    · intro h
      exact absurd h (digit_error_iff.1 hd).1
  | ok v =>
    refine ⟨fun _ => ?_, fun _ => ⟨v, rfl⟩⟩
    by_contra hno
    rw [digit_error_iff.2 ⟨hno, rfl⟩] at hd
    cases hd

end

/-- Two digits a byte, high half first, in either case. -/
theorem decodePairs_ok_iff {position : Nat} {text bs : Bytes} : decodePairs position text = .ok bs ↔
    text.map Bytes.lowerByte = (encodeChars bs).map fun c => UInt8.ofNat c.toNat := by
  induction position, text using decodePairs.induct generalizing bs with
  | case1 position =>
    rw [decodePairs]
    cases bs with
    | nil => exact ⟨fun _ => rfl, fun _ => rfl⟩
    | cons b bs => exact ⟨fun h => (nomatch h), fun h => (nomatch h)⟩
  | case2 position b =>
    rw [decodePairs]
    refine ⟨fun h => (nomatch h), fun h => ?_⟩
    have hlength := congrArg List.length h
    rw [List.length_map, List.length_map, length_encodeChars, List.length_singleton] at hlength
    omega
  | case3 position hi lo rest ih =>
    simp only [decodePairs, except_bind_ok_iff, digit_ok_iff]
    cases bs with
    | nil =>
      constructor
      · rintro ⟨_, -, _, -, _, -, h⟩
        cases h
      · intro h
        cases h
    | cons b bs =>
      have hb := b.toNat_lt
      rw [encodeChars, List.map_cons, List.map_cons, List.map_cons, List.map_cons,
        List.cons.injEq, List.cons.injEq, ← ih]
      constructor
      · rintro ⟨h, ⟨hh, hhi⟩, l, ⟨hl, hlo⟩, tail, htail, he⟩
        cases he
        have hbyte : (UInt8.ofNat (16 * h + l)).toNat = 16 * h + l := Utf8.toNat_ofNat (by omega)
        have hhigh : (16 * h + l) / 16 = h := by omega
        have hlow : (16 * h + l) % 16 = l := by omega
        rw [hbyte, hhigh, hlow]
        exact ⟨hhi, hlo, htail⟩
      · rintro ⟨hhi, hlo, htail⟩
        refine ⟨_, ⟨by omega, hhi⟩, _, ⟨by omega, hlo⟩, bs, htail, ?_⟩
        rw [Nat.div_add_mod, UInt8.ofNat_toNat]
        rfl

/-- A text decodes to the bytes whose text it is in lower case. -/
theorem decode_ok_iff {text : String} {bs : Bytes} :
    decode text = .ok bs ↔ asciiLower text = encode bs := by
  rw [← Bytes.ofString_inj, Bytes.ofString_asciiLower, ofString_encode]
  unfold decode decodeBytes
  split
  · rename_i hodd
    refine ⟨fun h => (nomatch h), fun h => ?_⟩
    have hlength := congrArg List.length h
    rw [List.length_map, List.length_map, length_encodeChars] at hlength
    omega
  · exact decodePairs_ok_iff

/-- Pairs of digits are read up to the first byte that is none. -/
theorem decodePairs_error_iff {position : Nat} {text : Bytes} {f : Fault}
    (heven : text.length % 2 = 0) : decodePairs position text = .error f ↔
      ∃ before b after, text = before ++ b :: after ∧ (∀ d ∈ before, IsDigit d) ∧ ¬ IsDigit b ∧
        f = .notADigit b (position + before.length) := by
  induction position, text using decodePairs.induct with
  | case1 position =>
    rw [decodePairs]
    refine ⟨fun h => (nomatch h), ?_⟩
    rintro ⟨before, b, after, hsplit, -⟩
    exact absurd hsplit (by simp)
  | case2 position b => cases heven
  | case3 position hi lo rest ih =>
    have hrest : rest.length % 2 = 0 := by
      rw [List.length_cons, List.length_cons] at heven
      omega
    simp only [decodePairs, except_bind_error_iff, digit_error_iff, ih hrest]
    constructor
    · rintro (⟨hhi, rfl⟩ | ⟨h, hh, ⟨hlo, rfl⟩ | ⟨l, hl, htail | ⟨tail, -, hpure⟩⟩⟩)
      · exact ⟨[], hi, lo :: rest, rfl, fun _ hd => absurd hd List.not_mem_nil, hhi, rfl⟩
      · exact ⟨[hi], lo, rest, rfl, List.forall_mem_singleton.2 (exists_digit_iff.1 ⟨h, hh⟩), hlo,
          rfl⟩
      · obtain ⟨before, b, after, rfl, hbefore, hb, rfl⟩ := htail
        refine ⟨hi :: lo :: before, b, after, rfl, List.forall_mem_cons.2
          ⟨exists_digit_iff.1 ⟨h, hh⟩, List.forall_mem_cons.2
            ⟨exists_digit_iff.1 ⟨l, hl⟩, hbefore⟩⟩, hb, ?_⟩
        rw [List.length_cons, List.length_cons]
        congr 1
        omega
      · cases hpure
    · rintro ⟨before, b, after, hsplit, hbefore, hb, rfl⟩
      -- The first bad byte is one of this pair, or comes after it.
      match before, hsplit, hbefore with
      | [], hsplit, _ =>
        cases hsplit
        exact .inl ⟨hb, rfl⟩
      | [d], hsplit, hbefore =>
        cases hsplit
        obtain ⟨v, hv⟩ := exists_digit_iff.2 (hbefore hi List.mem_cons_self)
        exact .inr ⟨v, hv, .inl ⟨hb, rfl⟩⟩
      | d :: e :: before, hsplit, hbefore =>
        cases hsplit
        obtain ⟨hd, hbefore⟩ := List.forall_mem_cons.1 hbefore
        obtain ⟨he, hbefore⟩ := List.forall_mem_cons.1 hbefore
        obtain ⟨v, hv⟩ := exists_digit_iff.2 hd
        obtain ⟨u, hu⟩ := exists_digit_iff.2 he
        refine .inr ⟨v, hv, .inr ⟨u, hu, .inl ⟨before, b, after, rfl, hbefore, hb, ?_⟩⟩⟩
        rw [List.length_cons, List.length_cons]
        congr 1
        omega

/-- A text is not decoded for its odd length, which is noticed first, or for its first byte that is
no digit. -/
theorem decode_error_iff {text : String} {f : Fault} : decode text = .error f ↔
    ((Bytes.ofString text).length % 2 = 1 ∧ f = .oddLength) ∨
      ((Bytes.ofString text).length % 2 = 0 ∧ ∃ before b after,
        Bytes.ofString text = before ++ b :: after ∧ (∀ d ∈ before, IsDigit d) ∧ ¬ IsDigit b ∧
          f = .notADigit b before.length) := by
  unfold decode decodeBytes
  split
  · rename_i hodd
    constructor
    · intro h
      cases h
      exact .inl ⟨hodd, rfl⟩
    · rintro (⟨-, rfl⟩ | ⟨heven, -⟩)
      · rfl
      · omega
  · rename_i hodd
    have heven : (Bytes.ofString text).length % 2 = 0 := by omega
    rw [decodePairs_error_iff heven]
    simp only [Nat.zero_add]
    constructor
    · exact fun h => .inr ⟨heven, h⟩
    · rintro (⟨hodd', -⟩ | ⟨-, h⟩)
      · exact absurd hodd' hodd
      · exact h

theorem lower_of_decode {text : String} {bs : Bytes} (h : decode text = .ok bs) :
    (Bytes.ofString text).map Bytes.lowerByte =
      (encodeChars bs).map fun c => UInt8.ofNat c.toNat := by
  rw [← Bytes.ofString_asciiLower, decode_ok_iff.1 h, ofString_encode]

theorem length_of_decode {text : String} {bs : Bytes} (h : decode text = .ok bs) :
    (Bytes.ofString text).length = 2 * bs.length := by
  have hlength := congrArg List.length (lower_of_decode h)
  rwa [List.length_map, List.length_map, length_encodeChars] at hlength

/-- What is decoded are digits, an even number of them. -/
theorem exists_decode_iff {text : String} : (∃ bs, decode text = .ok bs) ↔
    (Bytes.ofString text).length % 2 = 0 ∧ ∀ d ∈ Bytes.ofString text, IsDigit d := by
  constructor
  · rintro ⟨bs, h⟩
    have hlength := length_of_decode h
    refine ⟨by omega, fun d hd => ?_⟩
    have hlow := List.mem_map_of_mem (f := Bytes.lowerByte) hd
    rw [lower_of_decode h] at hlow
    obtain ⟨c, hc, hbyte⟩ := List.mem_map.1 hlow
    obtain ⟨n, hn, rfl⟩ := mem_encodeChars hc
    have hvalue : digit d 0 = .ok n := digit_ok_iff.2 ⟨hn, hbyte.symm⟩
    exact exists_digit_iff.1 ⟨n, hvalue⟩
  · rintro ⟨heven, hdigits⟩
    cases hd : decode text with
    | ok bs => exact ⟨bs, rfl⟩
    | error f =>
      rcases decode_error_iff.1 hd with ⟨hodd, -⟩ | ⟨-, before, b, after, htext, -, hb, -⟩
      · omega
      · exact absurd (hdigits b (htext ▸ by simp)) hb

end Hex

end SharedRuntime
