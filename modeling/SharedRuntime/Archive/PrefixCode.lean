import SharedRuntime.Archive.Decoding

/-!
# Canonical prefix codes

A canonical code is given by the length of the code of each symbol: shorter codes come first, and
codes of one length are in the order of their symbols.
-/

set_option autoImplicit false

namespace SharedRuntime

/-- A canonical code: the number of codes of each length from one on, and the symbols in the order
of their codes. -/
structure PrefixCode where
  counts : List Nat
  symbols : Array Nat

namespace PrefixCode

/-- The code with codes of up to `limit` bits in which symbol `i` has the length `lengths[i]`; zero
is for a symbol not used. -/
def ofLengths (limit : Nat) (lengths : List Nat) : PrefixCode :=
  let used := lengths.zipIdx.filter fun e => e.1 != 0
  let byLength := (List.range limit).map fun l =>
    (used.filter fun e => e.1 == l + 1).map Prod.snd
  ⟨byLength.map List.length, byLength.flatten.toArray⟩

/-- How much of the code space is taken, in units of the longest code. -/
def weight (c : PrefixCode) : Nat := c.counts.foldl (fun total n => 2 * total + n) 0

/-- Is every sequence of bits the start of exactly one code? -/
def isComplete (c : PrefixCode) : Bool := c.weight == Nat.pow 2 c.counts.length

/-- Does no code begin another? -/
def isSound (c : PrefixCode) : Bool := c.weight ≤ Nat.pow 2 c.counts.length

/-- Is there no code, or one of a single bit? -/
def isTrivial (c : PrefixCode) : Bool :=
  c.symbols.size == 0 || (c.symbols.size == 1 && c.counts.headD 0 == 1)

/-- Reads a symbol bit by bit. At each length `first` is the first code of that length, `index`
the place of its symbol. -/
def readAux (order : Decode.BitOrder) (symbols : Array Nat) :
    List Nat → (code first index : Nat) → Decode Nat
  | [], _, _, _ => Decode.fail .corrupt
  | count :: counts, code, first, index =>
    if symbols.size ≤ index then Decode.fail .corrupt
    else do
      let bit ← Decode.bit order
      let code := 2 * code + bit
      let first := 2 * first
      if code < first + count then
        match symbols[index + (code - first)]? with
        | some s => return s
        | none => Decode.fail .corrupt
      else readAux order symbols counts code (first + count) (index + count)

/-- Reads a symbol. -/
def read (order : Decode.BitOrder) (c : PrefixCode) : Decode Nat :=
  readAux order c.symbols c.counts 0 0 0

end PrefixCode

end SharedRuntime
