import SharedRuntime.Text.Ascii

/-!
# Quoted characters

A character shown between single quotes, with the escapes of the error texts: the usual control
characters by letter, a quote and a backslash with a backslash before them, and every other
character that has no shape of its own by its number.
-/

set_option autoImplicit false

namespace SharedRuntime

/-- Has the character below U+0100 a shape of its own? -/
def isLatinPrintable (c : Char) : Bool :=
  let n := c.toNat
  (0x20 ≤ n && n < 0x7F) || (0xA1 ≤ n && n != 0xAD)

/-- The inside of a quoted character. -/
def escapedInQuotes (c : Char) : String :=
  if c = '\x00' then "\\0"
  else if c = '\t' then "\\t"
  else if c = '\r' then "\\r"
  else if c = '\n' then "\\n"
  else if c = '\'' then "\\'"
  else if c = '\\' then "\\\\"
  else if isLatinPrintable c then String.singleton c
  else "\\u\x7b" ++ String.ofList (Nat.toDigits 16 c.toNat) ++ "\x7d"

/-- A character of the Latin-1 range between single quotes. -/
def quotedChar (c : Char) : String := "'" ++ escapedInQuotes c ++ "'"

end SharedRuntime
