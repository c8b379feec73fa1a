import SharedRuntime.Json.Reader
import SharedRuntime.Json.Writer
import SharedRuntime.Proofs.Text.Hex

/-!
# Strings and numbers read back

The inside of a string is read back character by character, whatever follows its closing quote
(`string?_escaped`). A number is read back where nothing follows that goes on it
(`number?_append`).
-/

set_option autoImplicit false

namespace SharedRuntime.Json

/-! ## Strings -/

/-- A control character is written with the four digits of its number. -/
theorem hex4?_control {n : Nat} (h : n < 32) (rest : List Char) :
    hex4? ('0' :: '0' :: hexDigit (n / 16) :: hexDigit (n % 16) :: rest) = some (n, rest) := by
  have hzero : hexValue? '0' = some 0 := rfl
  have hvalue : (0 * 16 + 0) * 16 + n / 16 = n / 16 := by omega
  unfold hex4?
  dsimp only
  rw [hzero, Hex.hexValue?_hexDigit _ (by omega), Hex.hexValue?_hexDigit _ (by omega)]
  simp only [Option.bind_eq_bind, Option.bind_some, hvalue]
  rw [Nat.div_add_mod' n 16]
  rfl

/-- What is written for a character is read as that character. -/
theorem stringUnit?_escapeChar (c : Char) (rest : List Char) :
    stringUnit? (escapeChar c ++ rest) = some (.char c, rest) := by
  unfold escapeChar
  split
  · rename_i h
    subst h
    rfl
  split
  · rename_i h
    subst h
    rfl
  split
  · rename_i h
    subst h
    rfl
  split
  · rename_i h
    subst h
    rfl
  split
  · rename_i h
    subst h
    rfl
  split
  · rename_i h
    subst h
    rfl
  split
  · rename_i h
    subst h
    rfl
  rename_i hquote hslash _ _ _ _ _
  split
  · rename_i hcontrol
    have hlow : ¬ (0xD800 ≤ c.toNat ∧ c.toNat ≤ 0xDFFF) := by omega
    simp only [List.cons_append, List.nil_append, stringUnit?, if_neg (show '\\' ≠ '"' by decide),
      if_true, hex4?_control hcontrol, Option.map_some, decide_eq_true_eq, Bool.and_eq_true]
    rw [if_neg hlow, Char.ofNat_toNat]
  · rename_i hcontrol
    rw [List.singleton_append, stringUnit?.eq_def]
    dsimp only
    rw [if_neg hquote, if_neg hslash, if_neg hcontrol]

theorem length_escapeChar (c : Char) : 0 < (escapeChar c).length := by
  unfold escapeChar
  repeat' split
  all_goals exact Nat.succ_pos _

theorem length_escaped (cs : List Char) : cs.length ≤ (cs.flatMap escapeChar).length := by
  induction cs with
  | nil => exact Nat.le_refl 0
  | cons c cs ih =>
    have hc := length_escapeChar c
    rw [List.flatMap_cons, List.length_append, List.length_cons]
    omega

theorem stringBody_escaped {fuel : Nat} {cs : List Char} (h : cs.length < fuel)
    (done rest : List Char) :
    stringBody fuel none (some done) (cs.flatMap escapeChar ++ '"' :: rest) =
      some (some (done.reverse ++ cs), rest) := by
  induction cs generalizing fuel done with
  | nil =>
    cases fuel with
    | zero => cases h
    | succ fuel =>
      rw [List.append_nil]
      rfl
  | cons c cs ih =>
    cases fuel with
    | zero => cases h
    | succ fuel =>
      rw [List.flatMap_cons, List.append_assoc, stringBody, stringUnit?_escapeChar]
      dsimp only
      rw [Option.isSome_none, if_neg Bool.false_ne_true, Option.map_some,
        ih (Nat.lt_of_succ_lt_succ h), List.reverse_cons, List.append_assoc]
      rfl

/-- A string is read back up to its closing quote. -/
theorem string?_escaped {fuel : Nat} {cs : List Char} (h : cs.length < fuel) (rest : List Char) :
    string? fuel (cs.flatMap escapeChar ++ '"' :: rest) = some (some (String.ofList cs), rest) := by
  unfold string?
  rw [stringBody_escaped h]
  rfl

theorem escapeChar_hexDigit : ∀ n < 16, escapeChar (hexDigit n) = [hexDigit n] := by decide

/-- A hexadecimal text is written as it is. -/
theorem escaped_encodeChars (bs : Bytes) :
    (Hex.encodeChars bs).flatMap escapeChar = Hex.encodeChars bs := by
  induction bs with
  | nil => rfl
  | cons b bs ih =>
    have hb := b.toNat_lt
    unfold Hex.encodeChars
    rw [List.flatMap_cons, List.flatMap_cons, escapeChar_hexDigit _ (by omega),
      escapeChar_hexDigit _ (by omega), ih]
    rfl

theorem length_stringChars_encode (bs : Bytes) :
    (stringChars (some (Hex.encode bs))).length = 2 * bs.length + 2 := by
  unfold stringChars quoteChars Hex.encode
  rw [Option.map_some, Option.getD_some, String.toList_ofList, escaped_encodeChars,
    List.length_cons, List.length_append, Hex.length_encodeChars]
  rfl

/-! ## Numbers -/

/-- The text does not go on a number that ends before it. -/
def Ends (rest : List Char) : Prop :=
  ∀ c ∈ rest.head?, isDecimal c = false ∧ c ≠ '.' ∧ c ≠ 'e' ∧ c ≠ 'E'

section
variable {cs ds r rest : List Char} (he : Ends rest)
include he

theorem Ends.takeWhile : rest.takeWhile isDecimal = [] := by
  cases rest with
  | nil => rfl
  | cons c rest =>
    rw [List.takeWhile_cons, (he c rfl).1]
    rfl

theorem Ends.dropWhile : rest.dropWhile isDecimal = rest := by
  cases rest with
  | nil => rfl
  | cons c rest =>
    rw [List.dropWhile_cons, (he c rfl).1]
    rfl

theorem digits?_append (h : digits? cs = some (ds, r)) :
    digits? (cs ++ rest) = some (ds, r ++ rest) := by
  have htake : (cs ++ rest).takeWhile isDecimal = cs.takeWhile isDecimal := by
    rw [List.takeWhile_append, he.takeWhile]
    split
    · rename_i hall
      rw [List.append_nil, (List.takeWhile_prefix isDecimal).eq_of_length hall]
    · rfl
  have hdrop : (cs ++ rest).dropWhile isDecimal = cs.dropWhile isDecimal ++ rest := by
    rw [List.dropWhile_append]
    split
    · rename_i hnil
      rw [List.isEmpty_iff.1 hnil, he.dropWhile, List.nil_append]
    · rfl
  unfold digits? at h ⊢
  rw [htake, hdrop]
  dsimp only at h ⊢
  split at h
  · cases h
  · rename_i hne
    cases h
    exact if_neg hne

theorem wholePart?_append (h : wholePart? cs = some (ds, r)) :
    wholePart? (cs ++ rest) = some (ds, r ++ rest) := by
  unfold wholePart? at h
  split at h
  · split at h
    · rename_i c cs
      split at h
      · cases h
      · rename_i hc
        cases h
        exact if_neg hc
    · cases h
      cases rest with
      | nil => rfl
      | cons c rest => exact if_neg (by rw [(he c rfl).1]; exact Bool.false_ne_true)
  · rename_i hzero
    cases cs with
    | nil => cases h
    | cons c cs =>
      have hc : c ≠ '0' := by
        rintro rfl
        exact hzero cs rfl
      have hdigits := digits?_append he h
      rw [List.cons_append] at hdigits ⊢
      unfold wholePart?
      split
      · rename_i heq
        exact absurd (List.cons.inj heq).1 hc
      · exact hdigits

theorem fraction?_append (h : fraction? cs = some (ds, r)) :
    fraction? (cs ++ rest) = some (ds, r ++ rest) := by
  unfold fraction? at h
  split at h
  · obtain ⟨⟨frac, tail⟩, hdigits, heq⟩ := Option.map_eq_some_iff.1 h
    cases heq
    rw [List.cons_append, fraction?, digits?_append he hdigits]
    rfl
  · rename_i hpoint
    cases h
    unfold fraction?
    split
    · rename_i tail heq
      cases cs with
      | nil =>
        rw [List.nil_append] at heq
        subst heq
        exact absurd rfl (he '.' rfl).2.1
      | cons c cs =>
        obtain ⟨rfl, -⟩ := List.cons.inj heq
        exact absurd rfl (hpoint cs)
    · rfl

theorem exponent?_append (h : exponent? cs = some (ds, r)) :
    exponent? (cs ++ rest) = some (ds, r ++ rest) := by
  cases cs with
  | nil =>
    cases h
    cases rest with
    | nil => rfl
    | cons c rest =>
      -- What follows must not begin an exponent of its own.
      obtain ⟨-, -, hlower, hupper⟩ := he c rfl
      exact if_neg (by simp [hlower, hupper])
  | cons c cs =>
    unfold exponent? at h ⊢
    dsimp only [List.cons_append] at h ⊢
    split at h
    · rename_i hc
      rw [if_pos hc]
      cases cs with
      | nil => cases h
      | cons s more =>
        dsimp only [List.cons_append] at h ⊢
        split at h
        · rename_i hs
          obtain ⟨⟨expo, tail⟩, hdigits, heq⟩ := Option.map_eq_some_iff.1 h
          cases heq
          rw [if_pos hs, digits?_append he hdigits]
          rfl
        · rename_i hs
          obtain ⟨⟨expo, tail⟩, hdigits, heq⟩ := Option.map_eq_some_iff.1 h
          cases heq
          rw [if_neg hs, ← List.cons_append, digits?_append he hdigits]
          rfl
    · rename_i hc
      cases h
      exact if_neg hc

theorem magnitude?_append (h : magnitude? cs = some (ds, r)) :
    magnitude? (cs ++ rest) = some (ds, r ++ rest) := by
  obtain ⟨⟨whole, r1⟩, hwhole, h⟩ := Option.bind_eq_some_iff.1 h
  obtain ⟨⟨frac, r2⟩, hfrac, h⟩ := Option.bind_eq_some_iff.1 h
  obtain ⟨⟨expo, r3⟩, hexpo, h⟩ := Option.bind_eq_some_iff.1 h
  cases h
  exact Option.bind_eq_some_iff.2 ⟨_, wholePart?_append he hwhole, Option.bind_eq_some_iff.2
    ⟨_, fraction?_append he hfrac, Option.bind_eq_some_iff.2 ⟨_, exponent?_append he hexpo, rfl⟩⟩⟩

theorem number?_append (h : number? cs = some (ds, r)) :
    number? (cs ++ rest) = some (ds, r ++ rest) := by
  cases cs with
  | nil => cases h
  | cons c cs =>
    rw [List.cons_append]
    unfold number? at h ⊢
    split at h
    · rename_i heq
      obtain ⟨rfl, rfl⟩ := List.cons.inj heq
      obtain ⟨⟨ms, tail⟩, hm, heq⟩ := Option.map_eq_some_iff.1 h
      cases heq
      show (magnitude? (cs ++ rest)).map _ = _
      rw [magnitude?_append he hm]
      rfl
    · rename_i hsign
      split
      · rename_i heq
        obtain ⟨rfl, -⟩ := List.cons.inj heq
        exact absurd rfl (hsign cs)
      · exact magnitude?_append he h

end

/-- A number starts with its sign or a digit. -/
def startsNumber (c : Char) : Bool := c == '-' || isDecimal c

theorem startsNumber_of_digits? {c : Char} {cs : List Char} {p : List Char × List Char}
    (h : digits? (c :: cs) = some p) : startsNumber c = true := by
  unfold digits? at h
  cases hc : isDecimal c with
  | true =>
    unfold startsNumber
    rw [hc, Bool.or_true]
  | false =>
    rw [List.takeWhile_cons, hc] at h
    cases h

theorem startsNumber_of_number? {cs : List Char} {p : List Char × List Char}
    (h : number? cs = some p) : ∃ c rest, cs = c :: rest ∧ startsNumber c = true := by
  cases cs with
  | nil => cases h
  | cons c cs =>
    refine ⟨c, cs, rfl, ?_⟩
    unfold number? at h
    split at h
    · rename_i heq
      obtain ⟨rfl, -⟩ := List.cons.inj heq
      rfl
    · obtain ⟨⟨whole, r1⟩, hwhole, -⟩ := Option.bind_eq_some_iff.1 h
      unfold wholePart? at hwhole
      split at hwhole
      · rename_i heq
        obtain ⟨rfl, -⟩ := List.cons.inj heq
        rfl
      · exact startsNumber_of_digits? hwhole

end SharedRuntime.Json
