import SharedRuntime.Json.Basic

/-!
# Writing JSON

`Json.compact` puts no blanks; `Json.pretty` puts each member on a line of its own, two blanks
deeper than the line of its object. Of a string only the quote, the backslash and the control
characters are escaped.
-/

set_option autoImplicit false

namespace SharedRuntime.Json

/-- The written form of one character inside a string. -/
def escapeChar (c : Char) : List Char :=
  if c = '"' then ['\\', '"']
  else if c = '\\' then ['\\', '\\']
  else if c = '\x08' then ['\\', 'b']
  else if c = '\x0c' then ['\\', 'f']
  else if c = '\n' then ['\\', 'n']
  else if c = '\r' then ['\\', 'r']
  else if c = '\t' then ['\\', 't']
  else if c.toNat < 0x20 then
    ['\\', 'u', '0', '0', hexDigit (c.toNat / 16), hexDigit (c.toNat % 16)]
  else [c]

/-- A string with its quotes. -/
def quoteChars (cs : List Char) : List Char := '"' :: (cs.flatMap escapeChar ++ ['"'])

/-- A string value; one that is no text is written empty. -/
def stringChars (s : Option String) : List Char := quoteChars ((s.map String.toList).getD [])

mutual

/-- The characters of a value, without blanks. -/
def compactChars : Json → List Char
  | .null => ['n', 'u', 'l', 'l']
  | .bool true => ['t', 'r', 'u', 'e']
  | .bool false => ['f', 'a', 'l', 's', 'e']
  | .num lexeme => lexeme.toList
  | .str s => stringChars s
  | .arr [] => ['[', ']']
  | .arr (v :: vs) => '[' :: (compactChars v ++ compactItems vs)
  | .obj [] => ['\x7b', '\x7d']
  | .obj (m :: ms) =>
    '\x7b' :: (stringChars m.1 ++ ':' :: (compactChars m.2 ++ compactMembers ms))

/-- The items after the first, and the closing bracket. -/
def compactItems : List Json → List Char
  | [] => [']']
  | v :: vs => ',' :: (compactChars v ++ compactItems vs)

/-- The members after the first, and the closing brace. -/
def compactMembers : List (Option String × Json) → List Char
  | [] => ['\x7d']
  | m :: ms => ',' :: (stringChars m.1 ++ ':' :: (compactChars m.2 ++ compactMembers ms))

end

/-- The text of a value, without blanks. -/
def compact (j : Json) : String := String.ofList (compactChars j)

/-- A line break and the blanks before the next line. -/
def newLine (depth : Nat) : List Char := '\n' :: List.replicate (2 * depth) ' '

mutual

/-- The characters of a value at a depth, one member or item a line. -/
def prettyChars (depth : Nat) : Json → List Char
  | .arr (v :: vs) =>
    '[' :: (newLine (depth + 1) ++ prettyChars (depth + 1) v ++ prettyItems depth vs)
  | .obj (m :: ms) =>
    '\x7b' :: (newLine (depth + 1) ++ stringChars m.1 ++ [':', ' '] ++
      prettyChars (depth + 1) m.2 ++ prettyMembers depth ms)
  | .null => ['n', 'u', 'l', 'l']
  | .bool true => ['t', 'r', 'u', 'e']
  | .bool false => ['f', 'a', 'l', 's', 'e']
  | .num lexeme => lexeme.toList
  | .str s => stringChars s
  | .arr [] => ['[', ']']
  | .obj [] => ['\x7b', '\x7d']

/-- The items after the first, and the closing bracket. -/
def prettyItems (depth : Nat) : List Json → List Char
  | [] => newLine depth ++ [']']
  | v :: vs => ',' :: (newLine (depth + 1) ++ prettyChars (depth + 1) v ++ prettyItems depth vs)

/-- The members after the first, and the closing brace. -/
def prettyMembers (depth : Nat) : List (Option String × Json) → List Char
  | [] => newLine depth ++ ['\x7d']
  | m :: ms =>
    ',' :: (newLine (depth + 1) ++ stringChars m.1 ++ [':', ' '] ++
      prettyChars (depth + 1) m.2 ++ prettyMembers depth ms)

end

/-- The text of a value over several lines. -/
def pretty (j : Json) : String := String.ofList (prettyChars 0 j)

end SharedRuntime.Json
