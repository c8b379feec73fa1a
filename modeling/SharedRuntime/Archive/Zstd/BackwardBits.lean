import SharedRuntime.Bytes

/-!
# Bits that are read backwards

Numbers are packed into bytes from the low end on. Most of them are read from the end of the bytes
to the start; the highest bit that is set in the last byte is where they end.
-/

set_option autoImplicit false

namespace SharedRuntime.Zstd

/-- The number of the `n` bits, at most 32, from bit `i` of some bytes on. Behind the bytes are
zeros. -/
def bitsAt (bs : Array UInt8) (i n : Nat) : Nat :=
  let byte (k : Nat) := (bs.getD (i / 8 + k) 0).toNat
  (byte 0 + 256 * byte 1 + 65536 * byte 2 + 16777216 * byte 3 + 4294967296 * byte 4) >>> (i % 8) %
    (1 <<< n)

/-- Bytes of which the first `left` bits are to be read, from the last of them to the first. -/
structure BackwardBits where
  data : Array UInt8
  left : Nat

/-- A step that reads bits backwards; none where there are too few or they make no sense. -/
abbrev BackwardRead (α : Type) := StateT BackwardBits Option α

namespace BackwardBits

/-- The bits that some bytes hold; none where there is no bit that marks the end. -/
def ofBytes? (bs : Bytes) : Option BackwardBits :=
  match bs.getLast? with
  | none => none
  | some b => if b = 0 then none else some ⟨bs.toArray, 8 * (bs.length - 1) + b.toNat.log2⟩

/-- Reads a number of `n` bits. -/
def take (n : Nat) : BackwardRead Nat := fun r =>
  if r.left < n then none else some (bitsAt r.data (r.left - n) n, ⟨r.data, r.left - n⟩)

/-- The number of the next `n` bits, with zeros for those that there are too few of. -/
def peek (n : Nat) (r : BackwardBits) : Nat :=
  if r.left < n then bitsAt r.data 0 r.left <<< (n - r.left) else bitsAt r.data (r.left - n) n

/-- Runs a step on bytes whose bits it has to use up. -/
def readAll? {α : Type} (bs : Bytes) (step : BackwardRead α) : Option α := do
  let r ← ofBytes? bs
  let (x, r) ← step.run r
  if r.left = 0 then some x else none

end BackwardBits

end SharedRuntime.Zstd
