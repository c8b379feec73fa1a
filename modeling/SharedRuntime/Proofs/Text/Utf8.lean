import SharedRuntime.Text.CodePage437
import SharedRuntime.Text.Utf8

/-!
# Texts read back from their bytes

The bytes of a text decode to that text, strictly and lossily (`decode?_ofString`,
`decodeLossy_ofString`), as the front of the bytes of a character is that character (`front_char`).
Below U+0080 the code page of old archives agrees (`CodePage437.decode_ofString`).
-/

set_option autoImplicit false

namespace SharedRuntime

theorem Bytes.ofString_ofList (cs : List Char) :
    ofString (String.ofList cs) = cs.flatMap String.utf8EncodeChar := by
  unfold ofString
  rw [String.toByteArray_ofList, List.utf8Encode, List.toList_data_toByteArray]

theorem Bytes.ofString_eq (s : String) : ofString s = s.toList.flatMap String.utf8EncodeChar := by
  rw [← ofString_ofList, String.ofList_toList]

theorem Bytes.ofString_inj {s t : String} : ofString s = ofString t ↔ s = t := by
  unfold ofString
  rw [Array.toList_inj, ← ByteArray.ext_iff, String.toByteArray_inj]

theorem Bytes.length_ofString_le (s : String) : (ofString s).length ≤ 4 * s.toList.length := by
  rw [ofString_eq]
  induction s.toList with
  | nil => exact Nat.le_refl 0
  | cons c cs ih =>
    have hc : (String.utf8EncodeChar c).length ≤ 4 := by
      rw [String.length_utf8EncodeChar]
      exact c.utf8Size_le_four
    rw [List.flatMap_cons, List.length_append, List.length_cons]
    omega

namespace Utf8

section
variable {n : Nat} (h : n < 256) (k : UInt8)
include h

theorem toNat_ofNat : (UInt8.ofNat n).toNat = n := by
  rw [UInt8.toNat_ofNat', Nat.mod_eq_of_lt h]

theorem ofNat_lt_iff : UInt8.ofNat n < k ↔ n < k.toNat := by
  rw [UInt8.lt_iff_toNat_lt, toNat_ofNat h]

theorem ofNat_le_iff : UInt8.ofNat n ≤ k ↔ n ≤ k.toNat := by
  rw [UInt8.le_iff_toNat_le, toNat_ofNat h]

theorem le_ofNat_iff : k ≤ UInt8.ofNat n ↔ k.toNat ≤ n := by
  rw [UInt8.le_iff_toNat_le, toNat_ofNat h]

theorem between_iff (lo hi : UInt8) :
    (decide (lo ≤ UInt8.ofNat n) && decide (UInt8.ofNat n ≤ hi)) = true ↔
      lo.toNat ≤ n ∧ n ≤ hi.toNat := by
  rw [Bool.and_eq_true, decide_eq_true_iff, decide_eq_true_iff, le_ofNat_iff h, ofNat_le_iff h]

theorem ofNat_eq_iff : UInt8.ofNat n = k ↔ n = k.toNat := by
  rw [← UInt8.toNat_inj, toNat_ofNat h]

end

/-! ## The front of a character -/

/-- The byte with the mark of a continuation and six bits. -/
def continuation (n : Nat) : UInt8 := UInt8.ofNat (n % 64 + 128)

theorem toNat_continuation (n : Nat) : (continuation n).toNat = n % 64 + 128 :=
  toNat_ofNat (by omega)

theorem isContinuation_continuation (n : Nat) : isContinuation (continuation n) = true := by
  have hn : n % 64 + 128 < 256 := by omega
  unfold isContinuation continuation
  simp only [between_iff hn, UInt8.reduceToNat]
  omega

theorem payload_continuation (n : Nat) : payload (continuation n) = n % 64 := by
  unfold payload
  rw [toNat_continuation]
  omega

/-- Four lead bytes restrict the six bits that follow them. -/
theorem secondInRange_continuation {lead : Nat} (h : lead < 256) (b : Nat) :
    secondInRange (UInt8.ofNat lead) (continuation b) = true ↔
      (lead = 224 → 32 ≤ b % 64) ∧ (lead = 237 → b % 64 < 32) ∧ (lead = 240 → 16 ≤ b % 64) ∧
        (lead = 244 → b % 64 < 16) := by
  have hb : b % 64 + 128 < 256 := by omega
  unfold secondInRange isContinuation continuation
  simp only [ofNat_eq_iff h, UInt8.reduceToNat]
  repeat' split
  all_goals
    simp only [between_iff hb, UInt8.reduceToNat]
    omega

theorem front_one {n : Nat} (h : n < 128) (rest : Bytes) :
    front (UInt8.ofNat n) rest = .char (Char.ofNat n) 1 := by
  unfold front
  rw [if_pos ((ofNat_lt_iff (by omega) _).2 h), toNat_ofNat (by omega)]

theorem front_two {a : Nat} (ha : 2 ≤ a) (ha' : a < 32) (b : Nat) (rest : Bytes) :
    front (UInt8.ofNat (a + 192)) (continuation b :: rest) =
      .char (Char.ofNat (a * 64 + b % 64)) 2 := by
  have hlead : a + 192 < 256 := by omega
  have hbits : (a + 192) % 32 = a := by omega
  unfold front
  simp only [ofNat_lt_iff hlead, between_iff hlead, UInt8.reduceToNat]
  rw [if_neg (by omega), if_pos (by omega), if_pos (isContinuation_continuation b),
    payload_continuation, toNat_ofNat hlead, hbits]

/-- Three bytes encode no number that two would, and no half of a surrogate pair. -/
theorem front_three {a b : Nat} (ha : a < 16) (hlow : a = 0 → 32 ≤ b % 64)
    (hsurrogate : a = 13 → b % 64 < 32) (c : Nat) (rest : Bytes) :
    front (UInt8.ofNat (a + 224)) (continuation b :: continuation c :: rest) =
      .char (Char.ofNat ((a * 64 + b % 64) * 64 + c % 64)) 3 := by
  have hlead : a + 224 < 256 := by omega
  have hbits : (a + 224) % 16 = a := by omega
  have hsecond := (secondInRange_continuation hlead b).2 (by omega)
  unfold front
  simp only [ofNat_lt_iff hlead, between_iff hlead, UInt8.reduceToNat]
  rw [if_neg (by omega), if_neg (by omega), if_pos (by omega), if_pos hsecond,
    if_pos (isContinuation_continuation c), payload_continuation, payload_continuation,
    toNat_ofNat hlead, hbits]

/-- Four bytes encode no number that three would, and none above the last character. -/
theorem front_four {a b : Nat} (ha : a < 5) (hlow : a = 0 → 16 ≤ b % 64)
    (hhigh : a = 4 → b % 64 < 16) (c d : Nat) (rest : Bytes) :
    front (UInt8.ofNat (a + 240)) (continuation b :: continuation c :: continuation d :: rest) =
      .char (Char.ofNat (((a * 64 + b % 64) * 64 + c % 64) * 64 + d % 64)) 4 := by
  have hlead : a + 240 < 256 := by omega
  have hbits : (a + 240) % 8 = a := by omega
  have hsecond := (secondInRange_continuation hlead b).2 (by omega)
  unfold front
  simp only [ofNat_lt_iff hlead, between_iff hlead, UInt8.reduceToNat]
  rw [if_neg (by omega), if_neg (by omega), if_neg (by omega), if_pos (by omega), if_pos hsecond,
    if_pos (isContinuation_continuation c), if_pos (isContinuation_continuation d),
    payload_continuation, payload_continuation, payload_continuation, toNat_ofNat hlead, hbits]

/-- The bytes of a character, and what reading them comes to. -/
theorem front_char (c : Char) : ∃ b bs, String.utf8EncodeChar c = b :: bs ∧
    ∀ rest, front b (bs ++ rest) = .char c (bs.length + 1) := by
  have hvalid : c.val.toNat < 0xD800 ∨ 0xDFFF < c.val.toNat ∧ c.val.toNat < 0x110000 := c.valid
  have hchar : ∀ {n : Nat}, n = c.val.toNat → Char.ofNat n = c := by
    rintro n rfl
    exact Char.ofNat_toNat c
  unfold String.utf8EncodeChar
  generalize c.val.toNat = v at hvalid hchar
  dsimp only
  split
  · refine ⟨_, [], rfl, fun rest => ?_⟩
    rw [List.nil_append, front_one (by omega), hchar rfl]
    rfl
  split
  · refine ⟨_, [continuation v], rfl, fun rest => ?_⟩
    rw [List.singleton_append, front_two (by omega) (by omega), hchar (by omega)]
    rfl
  split
  · refine ⟨_, [continuation (v / 64), continuation v], rfl, fun rest => ?_⟩
    rw [List.cons_append, List.singleton_append,
      front_three (by omega) (by omega) (by omega), hchar (by omega)]
    rfl
  · refine ⟨_, [continuation (v / 4096), continuation (v / 64), continuation v], rfl,
      fun rest => ?_⟩
    rw [List.cons_append, List.cons_append, List.singleton_append,
      front_four (by omega) (by omega) (by omega), hchar (by omega)]
    rfl

/-! ## Decoding -/

theorem decodeAux_skip (broken : Char → Option Char) (bs rest : Bytes) :
    decodeAux broken bs.length (bs ++ rest) = decodeAux broken 0 rest := by
  induction bs with
  | nil => rfl
  | cons b bs ih => exact ih

theorem decodeAux_chars (broken : Char → Option Char) (cs : List Char) :
    decodeAux broken 0 (cs.flatMap String.utf8EncodeChar) = some cs := by
  induction cs with
  | nil => rfl
  | cons c cs ih =>
    obtain ⟨b, bs, hbytes, hfront⟩ := front_char c
    rw [List.flatMap_cons, hbytes, List.cons_append, decodeAux, hfront]
    dsimp only
    rw [Nat.add_sub_cancel, decodeAux_skip, ih]
    rfl

/-- The bytes of a text decode to the text. -/
theorem decode?_ofString (s : String) : decode? (Bytes.ofString s) = some s := by
  unfold decode?
  rw [Bytes.ofString_eq, decodeAux_chars, Option.map_some, String.ofList_toList]

theorem decodeLossy_ofString (s : String) : decodeLossy (Bytes.ofString s) = s := by
  unfold decodeLossy
  rw [Bytes.ofString_eq, decodeAux_chars, Option.getD_some, String.ofList_toList]

end Utf8

/-- An ASCII character is the byte of its number. -/
theorem utf8EncodeChar_ascii {c : Char} (h : c.toNat < 128) :
    String.utf8EncodeChar c = [UInt8.ofNat c.toNat] := by
  unfold String.utf8EncodeChar
  exact if_pos (Nat.le_of_lt_succ h)

theorem flatMap_utf8EncodeChar_ascii {cs : List Char} (h : ∀ c ∈ cs, c.toNat < 128) :
    cs.flatMap String.utf8EncodeChar = cs.map fun c => UInt8.ofNat c.toNat := by
  induction cs with
  | nil => rfl
  | cons c cs ih =>
    obtain ⟨hc, hcs⟩ := List.forall_mem_cons.1 h
    rw [List.flatMap_cons, utf8EncodeChar_ascii hc, ih hcs]
    rfl

/-- The code page reads an ASCII text as it is. -/
theorem CodePage437.decode_ofString {s : String} (h : ∀ c ∈ s.toList, c.toNat < 128) :
    decode (Bytes.ofString s) = s := by
  have hchar : ∀ c ∈ s.toList, charOf (UInt8.ofNat c.toNat) = c := by
    intro c hc
    have hlt := h c hc
    unfold charOf
    rw [if_pos ((Utf8.ofNat_lt_iff (by omega) _).2 hlt), Utf8.toNat_ofNat (by omega),
      Char.ofNat_toNat]
  have hmap := (List.map_congr_left hchar).trans (List.map_id' s.toList)
  unfold decode
  rw [Bytes.ofString_eq, flatMap_utf8EncodeChar_ascii h, List.map_map]
  exact (congrArg String.ofList hmap).trans String.ofList_toList

end SharedRuntime
