import SharedRuntime.Json.Reader

/-!
# From JSON to typed values

The rules by which records, enumerations and tagged unions are read.

* A record is an object with known and unknown members, none of the known ones twice, or an array
  of its fields in order, of which the last may be missing.
* A value of an enumeration without contents is its name, or an object with that one key and null.
* A tagged union is an object with a tag and a content member in either order, or an array of the
  two. Content that stands before its tag has to be kept until the tag is read: then it may not
  hold text that is none, a number beyond the doubles, or deep nesting. In what was kept a tag has
  more forms: an empty object counts as null, and in an array a number counts as a name.
-/

set_option autoImplicit false

namespace SharedRuntime.Json

/-- The text of a string value. -/
def text? : Json → Option String
  | .str s => s
  | _ => none

/-- A truth value. -/
def bool? : Json → Option Bool
  | .bool b => some b
  | _ => none

/-- A natural number up to `max`, written with digits alone. -/
def natUpTo? (max : Nat) : Json → Option Nat
  | .num lexeme =>
    let cs := lexeme.toList
    if cs.all isDecimal then
      let n := decimalNumber cs
      if n ≤ max then some n else none
    else none
  | _ => none

/-- Null, or a value that `f` reads. -/
def nullable? {α : Type} (f : Json → Option α) : Json → Option (Option α)
  | .null => some none
  | j => (f j).map some

/-- An array of values that `f` reads. -/
def list? {α : Type} (f : Json → Option α) : Json → Option (List α)
  | .arr xs => xs.mapM f
  | _ => none

/-- The value of a member that occurs at most once: `none` if it occurs twice. -/
def single? (key : String) (members : List (Option String × Json)) : Option (Option Json) :=
  match members.filter fun m => m.1 == some key with
  | [] => some none
  | [m] => some (some m.2)
  | _ => none

/-- The fields of a record, by position in `names`; a missing field is `none`. -/
def record? (names : List String) : Json → Option (List (Option Json))
  | .obj members =>
    if members.all (fun m => m.1.isSome) then names.mapM fun name => single? name members else none
  | .arr xs =>
    if xs.length ≤ names.length then
      some (xs.map some ++ List.replicate (names.length - xs.length) none)
    else none
  | _ => none

/-- A field that must be there. -/
def required? {α : Type} (f : Json → Option α) (field : Option Json) : Option α := field.bind f

/-- A field with a value to use when it is missing. -/
def optional? {α : Type} (default : α) (f : Json → Option α) : Option Json → Option α
  | none => some default
  | some j => f j

/-- An entry of a map from names to texts. -/
def textEntry? (m : Option String × Json) : Option (String × String) := do
  let key ← m.1
  let value ← m.2.text?
  return (key, value)

/-- A map from names to texts, in the order of the text. -/
def textMap? : Json → Option (List (String × String))
  | .obj members => members.mapM textEntry?
  | _ => none

/-- A value of an enumeration without contents. -/
def variant? {α : Type} (names : List (String × α)) : Json → Option α
  | .str (some s) => names.lookup s
  | .obj [(some s, .null)] => names.lookup s
  | _ => none

/-- The largest number whose digits are all kept. -/
def significandLimit : Nat := 18446744073709551615

/-- Adds digits to a number while it stays within the limit: the number, and how many digits it has
then, where `count` were added before. -/
def addDigits : Nat → (count : Nat) → List Char → Nat × Nat
  | m, count, [] => (m, count)
  | m, count, c :: cs =>
    let next := 10 * m + decimalNumber [c]
    if significandLimit < next then (m, count) else addDigits next (count + 1) cs

/-- The exponent that ends a number, if there is one. -/
def exponentOf : List Char → Int
  | _ :: '-' :: ds => - (decimalNumber ds : Int)
  | _ :: '+' :: ds => decimalNumber ds
  | _ :: ds => decimalNumber ds
  | [] => 0

/-- A number without its sign as `significand · 10 ^ exponent`. Digits for which there is no room
count as zeros. -/
def decimalParts (cs : List Char) : Nat × Int :=
  let whole := cs.takeWhile isDecimal
  let afterWhole := cs.dropWhile isDecimal
  let (frac, rest) := match afterWhole with
    | '.' :: more => (more.takeWhile isDecimal, more.dropWhile isDecimal)
    | _ => ([], afterWhole)
  let (m, added) := addDigits 0 0 whole
  let (m, places) := addDigits m 0 frac
  (m, (whole.length - added : Int) - places + exponentOf rest)

/-- The double that is nearest to a natural number, of two the even one. -/
def nearestDouble (n : Nat) : Nat :=
  let excess := n.log2 - 52
  let unit := Nat.pow 2 excess
  let low := n / unit * unit
  let rest := n - low
  if unit < 2 * rest || (unit = 2 * rest && n / unit % 2 = 1) then low + unit else low

/-- The largest power of ten that is a double. -/
def tenPowerLimit : Int := 308

/-- Is the number finite as a double, where the significand and the power of ten are rounded before
they are multiplied? -/
def fitsDouble (lexeme : String) : Bool :=
  let cs := match lexeme.toList with
    | '-' :: rest => rest
    | all => all
  let (m, e) := decimalParts cs
  if m = 0 || e ≤ 0 then true
  else if tenPowerLimit < e then false
  else nearestDouble m * nearestDouble (Nat.pow 10 e.toNat) < Nat.pow 2 1024 - Nat.pow 2 970

mutual

/-- Can the value be kept for later, with `room` levels of nesting left? -/
def isKeepable : Nat → Json → Bool
  | _, .null => true
  | _, .bool _ => true
  | _, .num lexeme => fitsDouble lexeme
  | _, .str s => s.isSome
  | room, .arr xs => 0 < room && areKeepable (room - 1) xs
  | room, .obj ms => 0 < room && membersKeepable (room - 1) ms

/-- Can all the values be kept for later? -/
def areKeepable : Nat → List Json → Bool
  | _, [] => true
  | room, x :: xs => isKeepable room x && areKeepable room xs

/-- Can all the members be kept for later? -/
def membersKeepable : Nat → List (Option String × Json) → Bool
  | _, [] => true
  | room, m :: ms => m.1.isSome && isKeepable room m.2 && membersKeepable room ms

end

/-- The levels of nesting that a text may have where values are kept. -/
def nestingLimit : Nat := 127

/-- Where a value stands: how many levels below the top of its text, and whether it was kept until
a tag was read. -/
structure Place where
  level : Nat
  kept : Bool
  deriving DecidableEq, Repr

namespace Place

/-- The place of a whole text. -/
def top : Place := ⟨0, false⟩

/-- The place of the content of a tagged union, which may have been kept. -/
def content (p : Place) (kept : Bool) : Place := ⟨p.level + 1, p.kept || kept⟩

end Place

/-- What a variant of a tagged union carries. -/
inductive Content (α : Type)
  | unit (value : α)
  | holds (read : Place → Json → Option α)

/-- Reads the content of a variant at its place. -/
def Content.read? {α : Type} (p : Place) : Content α → Option Json → Option α
  | .unit a, none => some a
  | .unit a, some .null => some a
  | .unit _, some _ => none
  | .holds _, none => none
  | .holds f, some j => f p j

/-- The variants of a tagged union by name, in order. -/
abbrev Variants (α : Type) := List (String × Content α)

/-- The variant that the tag of an object names: by its name, or by an object with that one key. -/
def namedVariant? {α : Type} (p : Place) (variants : Variants α) : Json → Option (Content α)
  | .str (some s) => variants.lookup s
  | .obj [(some s, .null)] => variants.lookup s
  | .obj [(some s, .obj [])] => if p.kept then variants.lookup s else none
  | _ => none

/-- The variant that stands first in an array: by its name, or by its number if it was kept. -/
def firstVariant? {α : Type} (p : Place) (variants : Variants α) : Json → Option (Content α)
  | .str (some s) => variants.lookup s
  | j =>
    if p.kept then do
      let i ← j.natUpTo? variants.length
      let v ← variants[i]?
      return v.2
    else none

/-- Is the first of the two keys before the second? -/
def standsBefore (first second : String) (members : List (Option String × Json)) : Bool :=
  match members.find? fun m => m.1 == some first || m.1 == some second with
  | some m => m.1 == some first
  | none => false

/-- A tagged union at its place. -/
def tagged? {α : Type} (p : Place) (tag content : String) (variants : Variants α) :
    Json → Option α
  | .obj members => do
    if !members.all (fun m => m.1.isSome) then failure
    let tagValue ← single? tag members
    let contentValue ← single? content members
    let name ← tagValue
    let variant ← namedVariant? p variants name
    let kept := standsBefore content tag members
    match contentValue with
    | none => variant.read? (p.content kept) none
    | some j =>
      if kept && !isKeepable (nestingLimit - p.level - 1) j then failure
      variant.read? (p.content kept) (some j)
  | .arr [name, j] => do
    let variant ← firstVariant? p variants name
    variant.read? (p.content false) (some j)
  | _ => none

end SharedRuntime.Json
