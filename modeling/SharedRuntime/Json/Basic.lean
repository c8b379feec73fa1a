import SharedRuntime.Text.Ascii

/-!
# JSON values

A value keeps what a reader may need to decide on it: the members of an object in the order of the
text, repeated keys included, and a number as it is written. A string whose escapes name half of a
surrogate pair is no text; it is held as `none`, so that a reader that skips it can still go on.
-/

set_option autoImplicit false

namespace SharedRuntime

/-- A JSON value. -/
inductive Json
  | null
  | bool (b : Bool)
  | num (lexeme : String)
  | str (text : Option String)
  | arr (items : List Json)
  | obj (members : List (Option String × Json))
  deriving Inhabited, Repr

namespace Json

/-- A string value. -/
def text (s : String) : Json := .str (some s)

/-- A natural number. -/
def nat (n : Nat) : Json := .num (toString n)

/-- An object with the given members, in order. -/
def object (members : List (String × Json)) : Json :=
  .obj (members.map fun m => (some m.1, m.2))

/-- A text or null. -/
def textOrNull : Option String → Json
  | some s => text s
  | none => .null

end Json

end SharedRuntime
