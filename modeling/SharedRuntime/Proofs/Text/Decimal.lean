import Mathlib.Algebra.Group.Nat.Defs
import SharedRuntime.Text.Ascii
import SharedRuntime.Text.Blank

/-!
# Decimal numbers read back

A number that is written with decimal digits, with zeros before it or not, is what its digits say.
-/

set_option autoImplicit false

namespace SharedRuntime

theorem decimalNumber_eq (cs : List Char) : decimalNumber cs = Nat.ofDigitChars 10 cs 0 := by
  rw [Nat.ofDigitChars_eq_foldl]
  rfl

theorem isDecimal_of_isDigit {c : Char} (h : c.isDigit = true) : isDecimal c = true := by
  simp only [Char.isDigit, Bool.and_eq_true, decide_eq_true_eq] at h
  simp only [isDecimal, Bool.and_eq_true, decide_eq_true_eq]
  exact h

theorem isBlank_of_isDecimal {c : Char} (h : isDecimal c = true) : isBlank c = false := by
  simp only [isDecimal, Bool.and_eq_true, decide_eq_true_eq, Char.le_def, UInt32.le_iff_toNat_le]
    at h
  have hlow : 48 ≤ c.toNat := h.1
  have hhigh : c.toNat ≤ 57 := h.2
  unfold isBlank
  simp only [Bool.or_eq_false_iff, Bool.and_eq_false_iff, decide_eq_false_iff_not,
    beq_eq_false_iff_ne]
  omega

theorem decimalValue_le {c : Char} (h : isDecimal c = true) : decimalValue c ≤ 9 := by
  simp only [isDecimal, Bool.and_eq_true, decide_eq_true_eq, Char.le_def, UInt32.le_iff_toNat_le]
    at h
  have hhigh : c.toNat ≤ 57 := h.2
  show c.toNat - 48 ≤ 9
  omega

theorem isDecimal_of_mem_toDigits {c : Char} {n : Nat} (h : c ∈ Nat.toDigits 10 n) :
    isDecimal c = true :=
  isDecimal_of_isDigit (Nat.isDigit_of_mem_toDigits (by decide) (by decide) h)

theorem decimalNumber_toDigits (n : Nat) : decimalNumber (Nat.toDigits 10 n) = n := by
  rw [decimalNumber_eq, Nat.ofDigitChars_ten_toDigits]

section
variable (width n : Nat)

theorem toList_paddedDecimal : (paddedDecimal width n).toList =
    List.replicate (width - (Nat.toDigits 10 n).length) '0' ++ Nat.toDigits 10 n := by
  rw [paddedDecimal, String.toList_ofList]

theorem decimalNumber_paddedDecimal : decimalNumber (paddedDecimal width n).toList = n := by
  rw [decimalNumber_eq, toList_paddedDecimal, Nat.ofDigitChars_append,
    Nat.ofDigitChars_replicate_zero, Nat.mul_zero, Nat.ofDigitChars_ten_toDigits]

theorem isDecimal_of_mem_paddedDecimal :
    ∀ c ∈ (paddedDecimal width n).toList, isDecimal c = true := by
  intro c h
  rw [toList_paddedDecimal] at h
  rcases List.mem_append.1 h with h | h
  · rw [List.eq_of_mem_replicate h]
    rfl
  · exact isDecimal_of_mem_toDigits h

variable {width n}

theorem length_paddedDecimal (hw : 0 < width) (h : n < 10 ^ width) :
    (paddedDecimal width n).toList.length = width := by
  have hlen := (Nat.length_toDigits_le_iff (by decide) hw).2 h
  rw [toList_paddedDecimal, List.length_append, List.length_replicate]
  omega

theorem isEmpty_paddedDecimal (width n : Nat) :
    (paddedDecimal width n).toList.isEmpty = false := by
  rw [toList_paddedDecimal]
  simp

theorem foldl_decimal_lt {ds : List Char} (h : ∀ c ∈ ds, isDecimal c = true) (n : Nat) :
    ds.foldl (fun n c => 10 * n + decimalValue c) n < (n + 1) * 10 ^ ds.length := by
  induction ds generalizing n with
  | nil => simp
  | cons d ds ih =>
    have hd := decimalValue_le (h d List.mem_cons_self)
    calc ds.foldl (fun n c => 10 * n + decimalValue c) (10 * n + decimalValue d)
        < (10 * n + decimalValue d + 1) * 10 ^ ds.length :=
          ih (fun c hc => h c (List.mem_cons_of_mem d hc)) _
      _ ≤ (n + 1) * 10 * 10 ^ ds.length := Nat.mul_le_mul_right _ (by omega)
      _ = (n + 1) * 10 ^ (d :: ds).length := by
        rw [List.length_cons, Nat.pow_succ, Nat.mul_assoc, Nat.mul_comm 10]

/-- A number is below the power of ten that its digits allow. -/
theorem decimalNumber_lt {ds : List Char} (h : ∀ c ∈ ds, isDecimal c = true) :
    decimalNumber ds < 10 ^ ds.length := by
  have hlt := foldl_decimal_lt h 0
  rwa [Nat.zero_add, Nat.one_mul] at hlt

/-- The digits of a number are all that is read as such, if no digit follows. -/
theorem takeWhile_isDecimal_append {ds rest : List Char} (hds : ∀ c ∈ ds, isDecimal c = true)
    (hrest : rest.takeWhile isDecimal = []) : (ds ++ rest).takeWhile isDecimal = ds := by
  rw [List.takeWhile_append_of_pos hds, hrest, List.append_nil]

end

end SharedRuntime
