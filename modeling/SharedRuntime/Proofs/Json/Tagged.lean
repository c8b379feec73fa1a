import Mathlib.Data.List.TakeWhile
import SharedRuntime.Json.Decode
import SharedRuntime.Proofs.Json.RoundTrip
import SharedRuntime.Proofs.Text.Decimal

/-!
# Numbers and tagged unions read back

A natural number that is written with its digits can be read up to any bound that it keeps
(`natUpTo?_nat`), and what is written item by item is read so (`mapM_map`). Of a tagged union whose
tag is written first, the variant that the tag names reads the content, and none of the content is
kept for later (`tagged?_unit`, `tagged?_holds`).
-/

set_option autoImplicit false

namespace SharedRuntime.Json

/-! ## Natural numbers -/

theorem toList_toString (n : Nat) : (toString n).toList = Nat.toDigits 10 n :=
  String.toList_ofList

/-- The digits of a positive number do not start with a zero. -/
theorem toDigits_cons {n : Nat} (h : 0 < n) :
    ∃ c cs, Nat.toDigits 10 n = c :: cs ∧ c ≠ '0' := by
  induction n using Nat.strongRecOn with
  | _ n ih =>
    by_cases hlt : n < 10
    · refine ⟨n.digitChar, [], Nat.toDigits_of_lt_base hlt, ?_⟩
      have hall : ∀ d < 10, 0 < d → d.digitChar ≠ '0' := by decide
      exact hall n hlt h
    · obtain ⟨c, cs, hcs, hc⟩ := ih (n / 10) (by omega) (by omega)
      refine ⟨c, cs ++ [(n % 10).digitChar], ?_, hc⟩
      rw [Nat.toDigits_of_base_le (by decide) (by omega), hcs]
      rfl

theorem digits?_toDigits (n : Nat) :
    digits? (Nat.toDigits 10 n) = some (Nat.toDigits 10 n, []) := by
  have hall : ∀ c ∈ Nat.toDigits 10 n, isDecimal c = true := fun c => isDecimal_of_mem_toDigits
  have htake : (Nat.toDigits 10 n).takeWhile isDecimal = Nat.toDigits 10 n :=
    List.takeWhile_eq_self_iff.2 hall
  have hdrop : (Nat.toDigits 10 n).dropWhile isDecimal = [] := List.dropWhile_eq_nil_iff.2 hall
  have hne : (Nat.toDigits 10 n).isEmpty = false := by
    rw [List.isEmpty_eq_false_iff]
    exact Nat.toDigits_ne_nil
  simp only [digits?, htake, hdrop, hne, Bool.false_eq_true, if_false]

theorem wholePart?_toDigits (n : Nat) :
    wholePart? (Nat.toDigits 10 n) = some (Nat.toDigits 10 n, []) := by
  by_cases h : 0 < n
  · obtain ⟨c, cs, hcs, hc⟩ := toDigits_cons h
    have hdigits := digits?_toDigits n
    rw [hcs] at hdigits ⊢
    unfold wholePart?
    split
    · rename_i heq
      exact absurd (List.cons.inj heq).1 hc
    · exact hdigits
  · obtain rfl : n = 0 := Nat.eq_zero_of_not_pos h
    rfl

theorem number?_toDigits (n : Nat) :
    number? (Nat.toDigits 10 n) = some (Nat.toDigits 10 n, []) := by
  have hmagnitude : magnitude? (Nat.toDigits 10 n) = some (Nat.toDigits 10 n, []) := by
    simp [magnitude?, wholePart?_toDigits, fraction?, exponent?]
  unfold number?
  split
  · rename_i rest heq
    have hminus : '-' ∈ Nat.toDigits 10 n := by
      rw [heq]
      exact List.mem_cons_self
    cases isDecimal_of_mem_toDigits hminus
  · exact hmagnitude

theorem sound_nat (n : Nat) : (nat n).Sound := by
  show number? (toString n).toList = some ((toString n).toList, [])
  rw [toList_toString]
  exact number?_toDigits n

theorem natUpTo?_nat {n max : Nat} (h : n ≤ max) : (nat n).natUpTo? max = some n := by
  have hall : (Nat.toDigits 10 n).all isDecimal = true :=
    List.all_eq_true.2 fun c hc => isDecimal_of_mem_toDigits hc
  simp only [nat, natUpTo?, toList_toString, hall, if_true, decimalNumber_toDigits, if_pos h]

/-! ## Lists and options -/

/-- What is written item by item is read item by item. -/
theorem mapM_map {α β : Type} {write : α → β} {read? : β → Option α}
    (h : ∀ a, read? (write a) = some a) (as : List α) : (as.map write).mapM read? = some as := by
  induction as with
  | nil => rfl
  | cons a as ih =>
    rw [List.map_cons, List.mapM_cons, h, ih]
    rfl

theorem sound_textOrNull (s : Option String) : (textOrNull s).Sound := by
  cases s with
  | none => trivial
  | some s => rfl

theorem nullable?_textOrNull (s : Option String) : nullable? text? (textOrNull s) = some s := by
  cases s <;> rfl

/-! ## Tagged unions -/

section
variable {α : Type} {p : Place} {tag content name : String} {variants : Variants α}

theorem tagged?_unit {a : α} (h : variants.lookup name = some (.unit a)) (hne : tag ≠ content) :
    tagged? p tag content variants (.object [(tag, .text name)]) = some a := by
  simp [tagged?, object, text, single?, namedVariant?, standsBefore, h, hne, Content.read?]

theorem tagged?_holds {f : Place → Json → Option α} {j : Json}
    (h : variants.lookup name = some (.holds f)) (hne : tag ≠ content) :
    tagged? p tag content variants (.object [(tag, .text name), (content, j)]) =
      f (p.content false) j := by
  have hbeq : (tag == content) = false := beq_false_of_ne hne
  simp [tagged?, object, text, single?, namedVariant?, standsBefore, h, hne.symm, hbeq,
    Content.read?]

end

end SharedRuntime.Json
