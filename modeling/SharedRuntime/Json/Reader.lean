import SharedRuntime.Json.Basic

/-!
# Reading JSON

`Json.parse?` takes a whole text: one value with blanks around it. The grammar is strict: no
leading zeros, no control characters inside strings, no comma before a closing bracket. Values may
be nested to any depth: those that are begun are held in a list, the innermost first.
-/

set_option autoImplicit false

namespace SharedRuntime.Json

/-- The four blanks of JSON. -/
def isSpace (c : Char) : Bool := c == ' ' || c == '\n' || c == '\t' || c == '\r'

/-- Drops blanks. -/
def skipSpace (cs : List Char) : List Char := cs.dropWhile isSpace

/-- A run of at least one digit, and what follows it. -/
def digits? (cs : List Char) : Option (List Char × List Char) :=
  let ds := cs.takeWhile isDecimal
  if ds.isEmpty then none else some (ds, cs.dropWhile isDecimal)

/-- The whole part of a number: a zero, or digits that do not start with one. -/
def wholePart? (cs : List Char) : Option (List Char × List Char) :=
  match cs with
  | '0' :: rest =>
    match rest with
    | c :: _ => if isDecimal c then none else some (['0'], rest)
    | [] => some (['0'], rest)
  | _ => digits? cs

/-- The part after the point, if there is a point. -/
def fraction? : List Char → Option (List Char × List Char)
  | '.' :: rest => (digits? rest).map fun (ds, tail) => ('.' :: ds, tail)
  | cs => some ([], cs)

/-- The part after the letter E, if there is one. -/
def exponent? : List Char → Option (List Char × List Char)
  | c :: rest =>
    if c == 'e' || c == 'E' then
      match rest with
      | s :: more =>
        if s == '+' || s == '-' then (digits? more).map fun (ds, tail) => (c :: s :: ds, tail)
        else (digits? rest).map fun (ds, tail) => (c :: ds, tail)
      | [] => none
    else some ([], c :: rest)
  | [] => some ([], [])

/-- A number without its sign. -/
def magnitude? (cs : List Char) : Option (List Char × List Char) := do
  let (whole, r1) ← wholePart? cs
  let (frac, r2) ← fraction? r1
  let (expo, r3) ← exponent? r2
  return (whole ++ frac ++ expo, r3)

/-- A number. -/
def number? : List Char → Option (List Char × List Char)
  | '-' :: rest => (magnitude? rest).map fun (cs, tail) => ('-' :: cs, tail)
  | cs => magnitude? cs

/-- The value of four digits of base sixteen at the front. -/
def hex4? : List Char → Option (Nat × List Char)
  | a :: b :: c :: d :: rest => do
    let a ← hexValue? a
    let b ← hexValue? b
    let c ← hexValue? c
    let d ← hexValue? d
    return (((a * 16 + b) * 16 + c) * 16 + d, rest)
  | _ => none

/-- One unit of a string: a character, half of a surrogate pair, or the closing quote. -/
inductive StringUnit
  | char (c : Char)
  | surrogate (n : Nat)
  | close

/-- The character of a single-letter escape. -/
def escapeLetter? (c : Char) : Option Char :=
  if c = '"' then some '"'
  else if c = '\\' then some '\\'
  else if c = '/' then some '/'
  else if c = 'b' then some '\x08'
  else if c = 'f' then some '\x0c'
  else if c = 'n' then some '\n'
  else if c = 'r' then some '\r'
  else if c = 't' then some '\t'
  else none

/-- The unit at the front of the inside of a string. -/
def stringUnit? : List Char → Option (StringUnit × List Char)
  | [] => none
  | c :: rest =>
    if c = '"' then some (.close, rest)
    else if c = '\\' then
      match rest with
      | [] => none
      | e :: more =>
        if e = 'u' then
          (hex4? more).map fun (n, tail) =>
            if 0xD800 ≤ n && n ≤ 0xDFFF then (.surrogate n, tail) else (.char (Char.ofNat n), tail)
        else (escapeLetter? e).map fun ch => (.char ch, more)
    else if c.toNat < 0x20 then none
    else some (.char c, rest)

/-- The inside of a string up to its closing quote, where `done` holds the characters before it, the
last first, and `pending` is the first half of a surrogate pair that waits for its second. The text
is `none` if some half stands alone. -/
def stringBody : Nat → (pending : Option Nat) → (done : Option (List Char)) → List Char →
    Option (Option (List Char) × List Char)
  | 0, _, _, _ => none
  | fuel + 1, pending, done, cs =>
    match stringUnit? cs with
    | none => none
    | some (.close, rest) =>
      some (if pending.isSome then none else done.map List.reverse, rest)
    | some (.char c, rest) =>
      stringBody fuel none (if pending.isSome then none else done.map (c :: ·)) rest
    | some (.surrogate n, rest) =>
      match pending with
      | none =>
        if n < 0xDC00 then stringBody fuel (some n) done rest else stringBody fuel none none rest
      | some high =>
        if n < 0xDC00 then stringBody fuel none none rest
        else
          let c := Char.ofNat (0x10000 + (high - 0xD800) * 0x400 + (n - 0xDC00))
          stringBody fuel none (done.map (c :: ·)) rest

/-- The rest of a string whose opening quote is read. `fuel` bounds its length. -/
def string? (fuel : Nat) (cs : List Char) : Option (Option String × List Char) :=
  (stringBody fuel none (some []) cs).map fun (body, tail) => (body.map String.ofList, tail)

/-- Reads `word` at the front. -/
def word? : List Char → List Char → Option (List Char)
  | [], cs => some cs
  | w :: ws, c :: cs => if w = c then word? ws cs else none
  | _ :: _, [] => none

/-- An array or an object that is begun, with what is read of it, the last first. An object waits
for the value of a key. -/
inductive Begun
  | items (done : List Json)
  | members (done : List (Option String × Json)) (key : Option String)

/-- What comes next in a text: the start of a value, or what follows a value that has ended. -/
inductive Upcoming
  | value
  | after (v : Json)

/-- A value that is neither an array nor an object. -/
def simple? (fuel : Nat) : List Char → Option (Json × List Char)
  | [] => none
  | c :: rest =>
    if c = '"' then (string? fuel rest).map fun (s, tail) => (.str s, tail)
    else if c = 'n' then (word? ['u', 'l', 'l'] rest).map fun tail => (.null, tail)
    else if c = 't' then (word? ['r', 'u', 'e'] rest).map fun tail => (.bool true, tail)
    else if c = 'f' then (word? ['a', 'l', 's', 'e'] rest).map fun tail => (.bool false, tail)
    else (number? (c :: rest)).map fun (lexeme, tail) => (.num (String.ofList lexeme), tail)

/-- A key and its colon; blanks before each of them are dropped. -/
def key? (fuel : Nat) (cs : List Char) : Option (Option String × List Char) :=
  match skipSpace cs with
  | '"' :: inside =>
    match string? fuel inside with
    | none => none
    | some (key, rest) =>
      match skipSpace rest with
      | ':' :: tail => some (key, tail)
      | _ => none
  | _ => none

/-- Goes on where a value starts: what comes next, what is begun, and what follows. -/
def start? (fuel : Nat) (begun : List Begun) (cs : List Char) :
    Option (Upcoming × List Begun × List Char) :=
  match skipSpace cs with
  | '[' :: rest =>
    match skipSpace rest with
    | ']' :: tail => some (.after (.arr []), begun, tail)
    | inside => some (.value, .items [] :: begun, inside)
  | '{' :: rest =>
    match skipSpace rest with
    | '}' :: tail => some (.after (.obj []), begun, tail)
    | inside => (key? fuel inside).map fun (key, tail) => (.value, .members [] key :: begun, tail)
  | other => (simple? fuel other).map fun (v, tail) => (.after v, begun, tail)

/-- Goes on where a value that stands in `outer` has ended. -/
def finish? (fuel : Nat) (v : Json) (outer : Begun) (begun : List Begun) (cs : List Char) :
    Option (Upcoming × List Begun × List Char) :=
  match outer, skipSpace cs with
  | .items done, ',' :: rest => some (.value, .items (v :: done) :: begun, rest)
  | .items done, ']' :: rest => some (.after (.arr (v :: done).reverse), begun, rest)
  | .members done key, ',' :: rest =>
    (key? fuel rest).map fun (next, tail) =>
      (.value, .members ((key, v) :: done) next :: begun, tail)
  | .members done key, '}' :: rest => some (.after (.obj ((key, v) :: done).reverse), begun, rest)
  | _, _ => none

/-- Reads on to the end of the text. `limit` bounds the length of a string, and `fuel` the number
of values and brackets. -/
def readOn (limit : Nat) : Nat → Upcoming → List Begun → List Char → Option Json
  | 0, _, _, _ => none
  | fuel + 1, .value, begun, cs =>
    match start? limit begun cs with
    | none => none
    | some (next, begun, rest) => readOn limit fuel next begun rest
  | _ + 1, .after v, [], cs => if (skipSpace cs).isEmpty then some v else none
  | fuel + 1, .after v, outer :: begun, cs =>
    match finish? limit v outer begun cs with
    | none => none
    | some (next, begun, rest) => readOn limit fuel next begun rest

/-- The value that a whole text writes. Each step takes a character at least, except the last. -/
def parseChars? (cs : List Char) : Option Json :=
  let n := cs.length + 2
  readOn n n .value [] cs

/-- The value that a whole text writes. -/
def parse? (s : String) : Option Json := parseChars? s.toList

end SharedRuntime.Json
