import Mathlib.Data.List.TakeWhile
import SharedRuntime.Proofs.Json.RoundTrip

/-!
# Values on one line

The compact form of a sound value has no line break: strings escape theirs, and a number has none.
-/

set_option autoImplicit false

namespace SharedRuntime.Json

/-! ## Strings -/

theorem newline_escapeChar (c : Char) : '\n' ∉ escapeChar c := by
  have hhex : ∀ n < 16, '\n' ≠ hexDigit n := by decide
  unfold escapeChar
  split
  · decide
  split
  · decide
  split
  · decide
  split
  · decide
  split
  · decide
  split
  · decide
  split
  · decide
  rename_i hnewline _ _
  split
  · rename_i hcontrol
    have hhigh := hhex (c.toNat / 16) (by omega)
    have hlow := hhex (c.toNat % 16) (by omega)
    simp [hhigh, hlow]
  · exact fun h => hnewline (List.mem_singleton.1 h).symm

theorem newline_stringChars (s : Option String) : '\n' ∉ stringChars s := by
  unfold stringChars quoteChars
  simp [newline_escapeChar]

/-! ## Numbers -/

section
variable {cs ds r : List Char}

theorem newline_digits? (h : digits? cs = some (ds, r)) : '\n' ∉ ds := by
  intro hmem
  unfold digits? at h
  dsimp only at h
  split at h
  · cases h
  · cases h
    cases List.mem_takeWhile_imp hmem

theorem newline_wholePart? (h : wholePart? cs = some (ds, r)) : '\n' ∉ ds := by
  unfold wholePart? at h
  split at h
  · split at h
    · split at h
      · cases h
      · cases h
        decide
    · cases h
      decide
  · exact newline_digits? h

theorem newline_fraction? (h : fraction? cs = some (ds, r)) : '\n' ∉ ds := by
  unfold fraction? at h
  split at h
  · obtain ⟨⟨frac, tail⟩, hdigits, heq⟩ := Option.map_eq_some_iff.1 h
    cases heq
    simp [newline_digits? hdigits]
  · cases h
    simp

theorem newline_exponent? (h : exponent? cs = some (ds, r)) : '\n' ∉ ds := by
  cases cs with
  | nil =>
    cases h
    simp
  | cons c cs =>
    unfold exponent? at h
    dsimp only at h
    split at h
    · rename_i hc
      have hc' : '\n' ≠ c := by
        rintro rfl
        cases hc
      cases cs with
      | nil => cases h
      | cons s more =>
        dsimp only at h
        split at h
        · rename_i hs
          have hs' : '\n' ≠ s := by
            rintro rfl
            cases hs
          obtain ⟨⟨expo, tail⟩, hdigits, heq⟩ := Option.map_eq_some_iff.1 h
          cases heq
          simp [hc', hs', newline_digits? hdigits]
        · obtain ⟨⟨expo, tail⟩, hdigits, heq⟩ := Option.map_eq_some_iff.1 h
          cases heq
          simp [hc', newline_digits? hdigits]
    · cases h
      simp

theorem newline_magnitude? (h : magnitude? cs = some (ds, r)) : '\n' ∉ ds := by
  obtain ⟨⟨whole, r1⟩, hwhole, h⟩ := Option.bind_eq_some_iff.1 h
  obtain ⟨⟨frac, r2⟩, hfrac, h⟩ := Option.bind_eq_some_iff.1 h
  obtain ⟨⟨expo, r3⟩, hexpo, h⟩ := Option.bind_eq_some_iff.1 h
  cases h
  simp [newline_wholePart? hwhole, newline_fraction? hfrac, newline_exponent? hexpo]

theorem newline_number? (h : number? cs = some (ds, r)) : '\n' ∉ ds := by
  unfold number? at h
  split at h
  · obtain ⟨⟨ms, tail⟩, hm, heq⟩ := Option.map_eq_some_iff.1 h
    cases heq
    simp [newline_magnitude? hm]
  · exact newline_magnitude? h

end

/-! ## Values -/

mutual

theorem newline_compactChars : ∀ {j : Json}, j.Sound → '\n' ∉ compactChars j
  | .null, _ => by decide
  | .bool true, _ => by decide
  | .bool false, _ => by decide
  | .num _, h => newline_number? h
  | .str s, _ => newline_stringChars s
  | .arr [], _ => by decide
  | .arr (v :: vs), h => by
    have hv := newline_compactChars h.1
    have hvs := newline_compactItems h.2
    simp [compactChars, hv, hvs]
  | .obj [], _ => by decide
  | .obj ((key, v) :: ms), h => by
    have hkey := newline_stringChars key
    have hv := newline_compactChars h.2.1
    have hms := newline_compactMembers h.2.2
    simp [compactChars, hkey, hv, hms]

theorem newline_compactItems : ∀ {vs : List Json}, SoundItems vs → '\n' ∉ compactItems vs
  | [], _ => by decide
  | v :: vs, h => by
    have hv := newline_compactChars h.1
    have hvs := newline_compactItems h.2
    simp [compactItems, hv, hvs]

theorem newline_compactMembers :
    ∀ {ms : List (Option String × Json)}, SoundMembers ms → '\n' ∉ compactMembers ms
  | [], _ => by decide
  | (key, v) :: ms, h => by
    have hkey := newline_stringChars key
    have hv := newline_compactChars h.2.1
    have hms := newline_compactMembers h.2.2
    simp [compactMembers, hkey, hv, hms]

end

/-- A sound value is written on one line. -/
theorem newline_compact {j : Json} (h : j.Sound) : '\n' ∉ j.compact.toList := by
  rw [compact, String.toList_ofList]
  exact newline_compactChars h

end SharedRuntime.Json
