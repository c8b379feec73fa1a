import SharedRuntime.Time.Instant
import SharedRuntime.Text.Blank

/-!
# Timestamps as text

`Instant.text` writes a timestamp with as many digits after the second as three, six or nine hold;
a year outside 0 to 9999 has a sign. `Instant.parse?` is more lenient: blanks may stand before
every number and after every separator, numbers may have fewer digits, a year with a sign may have
more, the zone may be `Z`, `UTC` or an offset with or without a colon.
-/

set_option autoImplicit false

namespace SharedRuntime

namespace Date

/-- The year: four digits, or a sign and at least four. -/
def yearText (y : Int) : String :=
  if 0 ≤ y && y ≤ 9999 then paddedDecimal 4 y.toNat
  else if y < 0 then "-" ++ paddedDecimal 4 y.natAbs
  else "+" ++ paddedDecimal 4 y.natAbs

end Date

namespace Instant

/-- The digits after the second: none, three, six or nine. -/
def fractionText (nano : Nat) : String :=
  if nano = 0 then ""
  else if nano % 1000000 = 0 then "." ++ paddedDecimal 3 (nano / 1000000)
  else if nano % 1000 = 0 then "." ++ paddedDecimal 6 (nano / 1000)
  else "." ++ paddedDecimal 9 nano

/-- The timestamp, with `zone` as the text for UTC. -/
def textWith (zone : String) (t : Instant) : String :=
  Date.yearText t.date.year ++ "-" ++ paddedDecimal 2 t.date.month ++ "-" ++
  paddedDecimal 2 t.date.day ++ "T" ++ paddedDecimal 2 t.hour ++ ":" ++
  paddedDecimal 2 t.minute ++ ":" ++ paddedDecimal 2 t.second ++ fractionText t.nano ++ zone

/-- The timestamp as it is stored. -/
def text (t : Instant) : String := textWith "Z" t

/-- The timestamp as it is shown. -/
def offsetText (t : Instant) : String := textWith "+00:00" t

/-- A number of at least one and at most `width` digits, blanks before it dropped. -/
def number? (width : Nat) (cs : List Char) : Option (Nat × List Char) :=
  let cs := trimStartChars cs
  let ds := (cs.take width).takeWhile isDecimal
  if ds.isEmpty then none else some (decimalNumber ds, cs.drop ds.length)

/-- A number within bounds. -/
def bounded? (low high : Nat) (cs : List Char) : Option (Nat × List Char) := do
  let (n, rest) ← number? 2 cs
  if low ≤ n && n ≤ high then some (n, rest) else none

/-- A year: up to four digits, or a sign and any number of digits. -/
def year? (cs : List Char) : Option (Int × List Char) :=
  match trimStartChars cs with
  | '-' :: rest =>
    let ds := rest.takeWhile isDecimal
    if ds.isEmpty then none else some (-(decimalNumber ds : Int), rest.drop ds.length)
  | '+' :: rest =>
    let ds := rest.takeWhile isDecimal
    if ds.isEmpty then none else some ((decimalNumber ds : Int), rest.drop ds.length)
  | cs => (number? 4 cs).map fun (n, rest) => ((n : Int), rest)

/-- A separator, blanks before it dropped. -/
def separator? (c : Char) (cs : List Char) : Option (List Char) :=
  match trimStartChars cs with
  | d :: rest => if c = d then some rest else none
  | [] => none

/-- The digits after a point, as nanoseconds; digits after the ninth are dropped. -/
def nanos? : List Char → Option (Nat × List Char)
  | '.' :: rest =>
    let ds := rest.takeWhile isDecimal
    let kept := ds.take 9
    if ds.isEmpty then none
    else some (decimalNumber kept * Nat.pow 10 (9 - kept.length), rest.drop ds.length)
  | cs => some (0, cs)

/-- The minutes of an offset without its sign. -/
def offsetMinutes? : List Char → Option (Nat × List Char)
  | h1 :: h2 :: rest =>
    if isDecimal h1 && isDecimal h2 then
      match rest.dropWhile (fun c => c == ':' || isBlank c) with
      | m1 :: m2 :: tail =>
        if '0' ≤ m1 && m1 ≤ '5' && isDecimal m2 then
          some (decimalNumber [h1, h2] * 60 + decimalNumber [m1, m2], tail)
        else none
      | _ => none
    else none
  | _ => none

/-- The zone, as minutes ahead of UTC. -/
def zone? (cs : List Char) : Option (Int × List Char) :=
  let cs := trimStartChars cs
  if (cs.take 3).map Char.toLower = ['u', 't', 'c'] then some (0, cs.drop 3)
  else match cs with
  | 'Z' :: rest => some (0, rest)
  | 'z' :: rest => some (0, rest)
  | '+' :: rest => (offsetMinutes? rest).map fun (m, tail) => ((m : Int), tail)
  | '-' :: rest => (offsetMinutes? rest).map fun (m, tail) => (-(m : Int), tail)
  | '\u2212' :: rest => (offsetMinutes? rest).map fun (m, tail) => (-(m : Int), tail)
  | _ => none

/-- Reads a timestamp from the characters of a text. -/
def parseChars? (cs : List Char) : Option Instant := do
  let (year, cs) ← year? cs
  let cs ← separator? '-' cs
  let (month, cs) ← bounded? 1 12 cs
  let cs ← separator? '-' cs
  let (day, cs) ← bounded? 1 31 cs
  let cs ← match cs with
    | c :: rest => if c == 't' || c == 'T' || c == ' ' then some rest else none
    | [] => none
  let (hour, cs) ← bounded? 0 23 cs
  let cs ← separator? ':' cs
  let (minute, cs) ← bounded? 0 59 cs
  let cs ← separator? ':' cs
  let (second, cs) ← bounded? 0 60 cs
  let (nano, cs) ← nanos? cs
  let (ahead, cs) ← zone? cs
  if !(trimStartChars cs).isEmpty then failure
  let date : Date := ⟨year, month, day⟩
  if !date.isValid || 1440 ≤ ahead.natAbs then failure
  shift (-ahead) ⟨date, hour, minute, second, nano⟩

/-- Reads a timestamp. -/
def parse? (s : String) : Option Instant := parseChars? s.toList

end Instant

end SharedRuntime
