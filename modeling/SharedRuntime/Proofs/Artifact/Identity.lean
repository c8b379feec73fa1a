import SharedRuntime.Proofs.Artifact.Verification
import SharedRuntime.Proofs.Text.Hex

/-!
# Identities read from texts

A text is read as an identity if it is the text of that identity, apart from blanks around it and
the case of its letters (`Identity.ofHex_ok_iff`). Every other text is refused, with a message about
its first flaw (`Identity.Flaw`, `Identity.ofHex_error_iff`). `Identity.ofHex_reads` puts this
together, for one text and for a list.
-/

set_option autoImplicit false

namespace SharedRuntime.Identity

/-- What is wrong with a trimmed text, given by its bytes, and how it is said: an odd number of
digits comes first, then the first byte that is no digit, with what precedes it counted, and then
the size of the key. -/
inductive Flaw (text : Bytes) : String → Prop
  | oddLength : text.length % 2 = 1 → Flaw text "Odd number of digits"
  | notADigit {before after : Bytes} {b : UInt8} : text.length % 2 = 0 →
      text = before ++ b :: after → (∀ d ∈ before, Hex.IsDigit d) → ¬ Hex.IsDigit b →
      Flaw text
        s!"Invalid character {quotedChar (Char.ofNat b.toNat)} at position {before.length}"
  | size : text.length % 2 = 0 → (∀ d ∈ text, Hex.IsDigit d) → text.length ≠ 2 * keySize →
      Flaw text "expected 32 bytes"

variable {s : String} {i : Identity}

theorem ofHex_ok_iff : ofHex s = .ok i ↔ asciiLower (trim s) = i.text :=
  ofHex_iff.trans Hex.decode_ok_iff

/-- The text of an identity is read as that identity. -/
theorem ofHex_text (i : Identity) : ofHex i.text = .ok i := by
  unfold text
  rw [ofHex_iff, Hex.trim_encode, Hex.decode_encode]

/-- A text that does not decode is refused for that, one that does for the size of the key. -/
theorem ofHex_error_cases {f : IdentityFault} : ofHex s = .error f ↔
    (∃ g, Hex.decode (trim s) = .error g ∧ f = .invalidPublicKey g.message) ∨
      ∃ key, Hex.decode (trim s) = .ok key ∧ key.length ≠ keySize ∧
        f = .invalidPublicKey "expected 32 bytes" := by
  unfold ofHex ofKey
  cases Hex.decode (trim s) with
  | error g =>
    constructor
    · intro h
      cases h
      exact .inl ⟨g, rfl, rfl⟩
    · rintro (⟨g', h, rfl⟩ | ⟨key, h, -⟩)
      · cases h
        rfl
      · cases h
  | ok key =>
    dsimp only
    split
    · rename_i hsize
      constructor
      · intro h
        cases h
      · rintro (⟨g, h, -⟩ | ⟨key', h, hne, -⟩)
        · cases h
        · cases h
          exact absurd hsize hne
    · rename_i hsize
      constructor
      · intro h
        cases h
        exact .inr ⟨key, rfl, hsize, rfl⟩
      · rintro (⟨g, h, -⟩ | ⟨key', h, -, rfl⟩)
        · cases h
        · rfl

/-- What is refused has a flaw, and is refused with the message about it. -/
theorem ofHex_error_iff {f : IdentityFault} : ofHex s = .error f ↔
    ∃ why, f = .invalidPublicKey why ∧ Flaw (Bytes.ofString (trim s)) why := by
  rw [ofHex_error_cases]
  constructor
  · rintro (⟨g, hg, rfl⟩ | ⟨key, hkey, hsize, rfl⟩)
    · rcases Hex.decode_error_iff.1 hg with ⟨hodd, rfl⟩ | ⟨heven, before, b, after, ht, hd, hb, rfl⟩
      · exact ⟨_, rfl, .oddLength hodd⟩
      · exact ⟨_, rfl, .notADigit heven ht hd hb⟩
    · have hlength := Hex.length_of_decode hkey
      obtain ⟨heven, hdigits⟩ := Hex.exists_decode_iff.1 ⟨key, hkey⟩
      exact ⟨_, rfl, .size heven hdigits (by omega)⟩
  · rintro ⟨why, rfl, hflaw⟩
    cases hflaw with
    | oddLength hodd => exact .inl ⟨_, Hex.decode_error_iff.2 (.inl ⟨hodd, rfl⟩), rfl⟩
    | notADigit heven ht hd hb =>
      exact .inl ⟨_, Hex.decode_error_iff.2 (.inr ⟨heven, _, _, _, ht, hd, hb, rfl⟩), rfl⟩
    | size heven hd hsize =>
      obtain ⟨key, hkey⟩ := Hex.exists_decode_iff.2 ⟨heven, hd⟩
      have hlength := Hex.length_of_decode hkey
      exact .inr ⟨key, hkey, by omega, rfl⟩

/-- A text is read as an identity exactly if, without the blanks around it and in lower case, it is
the text of that identity; so the text of an identity is read as that identity. Every other text is
refused as a public key, for its first flaw. Of a list of texts all identities are read, in order,
or the first text that is refused decides. -/
theorem ofHex_reads :
    (∀ s i, ofHex s = .ok i ↔ asciiLower (trim s) = i.text) ∧
      (∀ i : Identity, ofHex i.text = .ok i) ∧
      (∀ s f, ofHex s = .error f ↔
        ∃ why, f = .invalidPublicKey why ∧ Flaw (Bytes.ofString (trim s)) why) ∧
      (∀ texts is, ofHexList texts = .ok is ↔
        List.Forall₂ (fun s i => ofHex s = .ok i) texts is) ∧
      ∀ texts f, ofHexList texts = .error f ↔ ∃ before s after, texts = before ++ s :: after ∧
        (∀ t ∈ before, ∃ i, ofHex t = .ok i) ∧ ofHex s = .error f :=
  ⟨fun _ _ => ofHex_ok_iff, ofHex_text, fun _ _ => ofHex_error_iff, fun _ _ => mapM_ok_iff,
    fun _ _ => mapM_error_iff⟩

end SharedRuntime.Identity
