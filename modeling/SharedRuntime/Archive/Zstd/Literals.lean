import SharedRuntime.Archive.Zstd.StateTable

/-!
# Literals of a block

The literals of a block are stored as they are, as one byte that is repeated, or with a prefix
code, in one stream or four. The code is given by a weight for each byte, where a higher weight
means a shorter code; it can be used again in the blocks that follow.
-/

set_option autoImplicit false

namespace SharedRuntime.Zstd

/-- A prefix code: for each number of `width` bits the byte that it starts with the code of, and
how many bits the code has. -/
structure PrefixTable where
  width : Nat
  cells : Array (UInt8 × Nat)

namespace PrefixTable

/-- The longest code. -/
def widthLimit : Nat := 12

/-- The most weights, without the one that is not stated. -/
def weightsLimit : Nat := 255

/-- How much of the table a byte of this weight takes. -/
def share (weight : Nat) : Nat := if weight = 0 then 0 else Nat.pow 2 (weight - 1)

/-- The table of the weights of bytes, of which the last is not stated: it makes up the whole. -/
def ofWeights? (weights : List Nat) : Option PrefixTable :=
  let total := weights.foldl (fun n w => n + share w) 0
  let width := total.log2 + 1
  let rest := Nat.pow 2 width - total
  let all := weights ++ [rest.log2 + 1]
  let ones := all.count 1
  if weights.any (widthLimit < ·) || total = 0 || widthLimit < width ||
      rest != Nat.pow 2 rest.log2 || ones < 2 || ones % 2 = 1 then none
  else
    let cells := (List.range width).flatMap fun w =>
      (all.zipIdx.filter fun e => e.1 = w + 1).flatMap fun e =>
        List.replicate (share e.1) (UInt8.ofNat e.2, width - w)
    some ⟨width, cells.toArray⟩

/-- Reads weights that two states tell in turn, until the bits run out; at most `room` of them. -/
def readWeights (t : StateTable) : (room : Nat) → (one other : Nat) → BackwardBits →
    Option (List Nat)
  | room + 2, one, other, r =>
    let weight := (t.cell one).symbol
    match (t.next one).run r with
    | none => some [weight, (t.cell other).symbol]
    | some (one, r) => (readWeights t (room + 1) other one r).map (weight :: ·)
  | _, _, _, _ => none

/-- The weights that are coded with states. -/
def codedWeights? (bs : Bytes) : Option (List Nat) := do
  let (t, rest) ← StateTable.read? (weightsLimit + 1) 6 bs
  let r ← BackwardBits.ofBytes? rest
  let (one, r) ← t.first.run r
  let (other, r) ← t.first.run r
  readWeights t weightsLimit one other r

/-- The first `n` weights of four bits each, two to a byte with the high bits first. -/
def plainWeights (n : Nat) (bs : Bytes) : List Nat :=
  (bs.flatMap fun b => [b.toNat / 16, b.toNat % 16]).take n

/-- Reads a code; what follows it as well. -/
def read? : Bytes → Option (PrefixTable × Bytes)
  | [] => none
  | b :: bs => do
    let n := b.toNat
    let size := if n < 128 then n else (n - 126) / 2
    if bs.length < size then none
    let own := bs.take size
    let weights ← if n < 128 then codedWeights? own else some (plainWeights (n - 127) own)
    let t ← ofWeights? weights
    some (t, bs.drop size)

/-- Decodes `n` bytes; `done` holds those so far, the last first. -/
def decodeFrom (t : PrefixTable) : Nat → Bytes → BackwardRead Bytes
  | 0, done => pure done.reverse
  | n + 1, done => fun r =>
    let (b, bits) := t.cells.getD (r.peek t.width) (0, 0)
    if r.left < bits then none else decodeFrom t n (b :: done) ⟨r.data, r.left - bits⟩

/-- Decodes the `n` bytes of a stream. -/
def decode? (t : PrefixTable) (n : Nat) (bs : Bytes) : Option Bytes :=
  BackwardBits.readAll? bs (t.decodeFrom n [])

/-- The sizes of three streams, which stand before four. -/
def jumpsSize : Nat := 6

/-- Decodes the `n` bytes of four streams. -/
def decodeFour? (t : PrefixTable) (n : Nat) (bs : Bytes) : Option Bytes := do
  let one := Bytes.natLE (bs.take 2)
  let two := Bytes.natLE ((bs.drop 2).take 2)
  let three := Bytes.natLE ((bs.drop 4).take 2)
  let bs := bs.drop jumpsSize
  let part := (n + 3) / 4
  if n < 6 || n < 3 * part then none
  let a ← t.decode? part (bs.take one)
  let b ← t.decode? part ((bs.drop one).take two)
  let c ← t.decode? part ((bs.drop (one + two)).take three)
  let d ← t.decode? (n - 3 * part) (bs.drop (one + two + three))
  some (a ++ b ++ c ++ d)

end PrefixTable

/-- Literals, what follows them, and the code for those that come next. -/
structure Literals where
  bytes : Bytes
  rest : Bytes
  table : Option PrefixTable

namespace Literals

/-- Reads literals that have no code. -/
def readPlain? (limit : Nat) (table : Option PrefixTable) (repeated : Bool) (bs : Bytes) :
    Option Literals :=
  let form := (bs.headD 0).toNat / 4 % 4
  let width := if form = 1 then 2 else if form = 3 then 3 else 1
  let size := Bytes.natLE (bs.take width) / (if width = 1 then 8 else 16)
  let rest := bs.drop width
  let stored := if repeated then 1 else size
  if limit < size || bs.length < width + stored then none
  else some ⟨if repeated then List.replicate size (rest.headD 0) else rest.take size,
    rest.drop stored, table⟩

/-- Reads literals that have a code: their own, or the last if there is one. -/
def readCoded? (limit : Nat) (table : Option PrefixTable) (own : Bool) (bs : Bytes) :
    Option Literals := do
  let form := (bs.headD 0).toNat / 4 % 4
  let bits := if form < 2 then 10 else 4 * form + 6
  let width := if form < 2 then 3 else form + 2
  let head := Bytes.natLE (bs.take width) / 16
  let size := head % Nat.pow 2 bits
  let coded := head / Nat.pow 2 bits
  if bs.length < 5 || limit < size || bs.length < width + coded then none
  let code := (bs.drop width).take coded
  let (t, code) ← if own then PrefixTable.read? code else table.map fun t => (t, code)
  let bytes ← if form = 0 then t.decode? size code else t.decodeFour? size code
  some ⟨bytes, bs.drop (width + coded), some t⟩

/-- Reads the literals of a block, at most `limit` of them, where `table` is the last code. -/
def read? (limit : Nat) (table : Option PrefixTable) (bs : Bytes) : Option Literals :=
  let kind := (bs.headD 0).toNat % 4
  if kind < 2 then readPlain? limit table (kind = 1) bs else readCoded? limit table (kind = 2) bs

end Literals

end SharedRuntime.Zstd
