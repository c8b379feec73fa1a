import SharedRuntime.Proofs.Text.Utf8
import SharedRuntime.Text.Ascii

/-!
# Lower case in bytes

`asciiLower` leaves alone all characters but `A` to `Z`, and so do the bytes of a text tell their
lower case one by one (`Bytes.ofString_asciiLower`): the bytes of the other characters are none of
ASCII.
-/

set_option autoImplicit false

namespace SharedRuntime

namespace Bytes

/-- Lower case for the bytes `A` to `Z`; every other byte stays. -/
def lowerByte (b : UInt8) : UInt8 := if 0x41 ≤ b ∧ b ≤ 0x5A then b + 0x20 else b

theorem lowerByte_of_high {b : UInt8} (h : 128 ≤ b.toNat) : lowerByte b = b := by
  unfold lowerByte
  rw [if_neg]
  rintro ⟨-, hz⟩
  have hle : b.toNat ≤ 90 := UInt8.le_iff_toNat_le.1 hz
  omega

end Bytes

theorem toLower_ascii : ∀ n < 128, (Char.ofNat n).toLower.toNat < 128 ∧
    UInt8.ofNat (Char.ofNat n).toLower.toNat = Bytes.lowerByte (UInt8.ofNat n) := by
  decide +kernel

theorem toLower_of_not_ascii {c : Char} (h : 128 ≤ c.toNat) : c.toLower = c := by
  unfold Char.toLower
  rw [dif_neg]
  rintro ⟨-, hz⟩
  have hle : c.toNat ≤ 90 := UInt32.le_iff_toNat_le.1 hz
  omega

/-- The bytes of a character that is not ASCII are none of ASCII. -/
theorem high_utf8EncodeChar {c : Char} (h : 128 ≤ c.toNat) :
    ∀ b ∈ String.utf8EncodeChar c, 128 ≤ b.toNat := by
  have hvalid : c.val.toNat < 0xD800 ∨ 0xDFFF < c.val.toNat ∧ c.val.toNat < 0x110000 := c.valid
  have hvalue : 128 ≤ c.val.toNat := h
  unfold String.utf8EncodeChar
  generalize c.val.toNat = v at hvalid hvalue
  dsimp only
  repeat' split
  · omega
  all_goals
    simp only [List.mem_cons, List.not_mem_nil, or_false, forall_eq_or_imp, forall_eq,
      UInt8.toNat_ofNat']
    omega

theorem utf8EncodeChar_toLower (c : Char) :
    String.utf8EncodeChar c.toLower = (String.utf8EncodeChar c).map Bytes.lowerByte := by
  by_cases h : c.toNat < 128
  · obtain ⟨hlow, hbyte⟩ := toLower_ascii c.toNat h
    rw [Char.ofNat_toNat] at hlow hbyte
    rw [utf8EncodeChar_ascii h, utf8EncodeChar_ascii hlow, hbyte, List.map_singleton]
  · have hhigh : 128 ≤ c.toNat := by omega
    rw [toLower_of_not_ascii hhigh]
    refine (List.map_id' _).symm.trans (List.map_congr_left fun b hb => ?_)
    exact (Bytes.lowerByte_of_high (high_utf8EncodeChar hhigh b hb)).symm

/-- The bytes of a text in lower case are the bytes of the text, each in lower case. -/
theorem Bytes.ofString_asciiLower (s : String) :
    ofString (asciiLower s) = (ofString s).map lowerByte := by
  unfold asciiLower
  rw [ofString_ofList, ofString_eq, List.flatMap_map, List.map_flatMap]
  simp only [utf8EncodeChar_toLower]

end SharedRuntime
