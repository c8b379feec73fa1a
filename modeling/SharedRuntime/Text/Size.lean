import SharedRuntime.Text.Ascii

/-!
# Sizes for a reader

A size is shown in the largest unit of which it is at least one, up to gigabytes, with two decimal
places. A half of the last place goes to the even neighbour. Sizes are taken with the 53 significant
bits of a double.
-/

set_option autoImplicit false

namespace SharedRuntime.Size

/-- `num / den` to the nearest whole number; a half goes to the even neighbour. -/
def roundHalfEven (num den : Nat) : Nat :=
  let q := num / den
  let r := num % den
  if 2 * r < den then q
  else if den < 2 * r then q + 1
  else if q % 2 = 0 then q else q + 1

/-- The number with its highest 53 bits kept, rounded. -/
def significant (n : Nat) : Nat :=
  let unit := Nat.pow 2 (Nat.log2 n - 52)
  roundHalfEven n unit * unit

/-- The units, each 1024 times the one before. -/
def units : List String := ["B", "KB", "MB", "GB"]

/-- The index of the unit for a size. -/
def unitIndex (n : Nat) : Nat :=
  if n < 1024 then 0
  else if n < Nat.pow 1024 2 then 1
  else if n < Nat.pow 1024 3 then 2
  else 3

/-- The text of a size in bytes. -/
def text (bytes : Nat) : String :=
  let n := significant bytes
  let i := unitIndex n
  let hundredths := roundHalfEven (100 * n) (Nat.pow 1024 i)
  toString (hundredths / 100) ++ "." ++ paddedDecimal 2 (hundredths % 100) ++ " " ++
    (units[i]?).getD ""

end SharedRuntime.Size
