import SharedRuntime.Archive.Zstd.StateTable

/-!
# Sequences of a block

A sequence says how many literals come next, and which bytes to copy after them. Its three numbers
are told by a code and some more bits each; three tables of states tell the codes.
-/

set_option autoImplicit false

namespace SharedRuntime.Zstd

/-- A sequence. `offset` is the number that stands for the distance of the copy. -/
structure Sequence where
  literals : Nat
  offset : Nat
  length : Nat
  deriving DecidableEq, Repr

/-- The tables of the three numbers of sequences. -/
structure SequenceTables where
  literals : StateTable
  offsets : StateTable
  lengths : StateTable

namespace Sequence

/-- What codes stand for: the lowest number of each, and how many more bits there are. -/
def codesFrom : Nat → List Nat → List (Nat × Nat)
  | _, [] => []
  | n, bits :: more => (n, bits) :: codesFrom (n + Nat.pow 2 bits) more

/-- The codes of numbers of literals. -/
def literalCodes : Array (Nat × Nat) :=
  (codesFrom 0 (List.replicate 16 0 ++
    [1, 1, 1, 1, 2, 2, 3, 3, 4, 6, 7, 8, 9, 10, 11, 12, 13, 14, 15, 16])).toArray

/-- The codes of lengths of copies. -/
def lengthCodes : Array (Nat × Nat) :=
  (codesFrom 3 (List.replicate 32 0 ++
    [1, 1, 1, 1, 2, 2, 3, 3, 4, 4, 5, 7, 8, 9, 10, 11, 12, 13, 14, 15, 16])).toArray

/-- How many codes there are for offsets. -/
def offsetCodeCount : Nat := 32

/-- The table of numbers of literals that need not be stated. -/
def literalTable : StateTable :=
  .ofCounts 6 [5, 4, 3, 3, 3, 3, 3, 3, 3, 3, 3, 3, 3, 2, 2, 2, 3, 3, 3, 3, 3, 3, 3, 3, 3, 4, 3,
    2, 2, 2, 2, 2, 0, 0, 0, 0]

/-- The table of offsets that need not be stated. -/
def offsetTable : StateTable :=
  .ofCounts 5 [2, 2, 2, 2, 2, 2, 3, 3, 3, 2, 2, 2, 2, 2, 2, 2, 2, 2, 2, 2, 2, 2, 2, 2,
    0, 0, 0, 0, 0]

/-- The table of lengths of copies that need not be stated. -/
def lengthTable : StateTable :=
  .ofCounts 6 ([2, 5, 4, 3, 3, 3, 3, 3, 3] ++ List.replicate 37 2 ++ List.replicate 7 0)

/-- Reads a table of the kind that `mode` tells: the known one, one of a single symbol, one that is
stated, or the last one. -/
def readTable? (symbols limit : Nat) (known : StateTable) (last : Option StateTable) (mode : Nat)
    (bs : Bytes) : Option (StateTable × Bytes) :=
  match mode with
  | 0 => some (known, bs)
  | 1 =>
    match bs with
    | [] => none
    | b :: rest => if b.toNat < symbols then some (.single b.toNat, rest) else none
  | 2 => StateTable.read? symbols limit bs
  | _ => last.map fun t => (t, bs)

/-- Reads the three tables behind the byte that tells their kinds. -/
def readTables? (last : Option SequenceTables) : Bytes → Option (SequenceTables × Bytes)
  | [] => none
  | b :: bs => do
    let modes := b.toNat
    if modes % 4 != 0 then none
    let (literals, bs) ← readTable? literalCodes.size 9 literalTable
      (last.map SequenceTables.literals) (modes / 64) bs
    let (offsets, bs) ← readTable? offsetCodeCount 8 offsetTable
      (last.map SequenceTables.offsets) (modes / 16 % 4) bs
    let (lengths, bs) ← readTable? lengthCodes.size 9 lengthTable
      (last.map SequenceTables.lengths) (modes / 4 % 4) bs
    some (⟨literals, offsets, lengths⟩, bs)

/-- Reads how many sequences there are. -/
def readCount? : Bytes → Option (Nat × Bytes)
  | [] => none
  | b :: bs =>
    let n := b.toNat
    let width := if n < 128 then 0 else if n < 255 then 1 else 2
    if bs.length < width then none
    else
      let count := if n < 128 then n
        else if n < 255 then 256 * (n - 128) + (bs.headD 0).toNat
        else Bytes.natLE (bs.take 2) + 32512
      some (count, bs.drop width)

/-- Reads a number by its code. -/
def readNumber (codes : Array (Nat × Nat)) (code : Nat) : BackwardRead Nat := do
  let (base, bits) := codes.getD code (0, 0)
  let n ← BackwardBits.take bits
  return base + n

/-- Reads `n` sequences in the states of the three tables; `done` holds those so far, the last
first. No state follows the last sequence. -/
def readFrom (t : SequenceTables) :
    Nat → (literals offsets lengths : Nat) → List Sequence → BackwardRead (List Sequence)
  | 0, _, _, _, done => pure done.reverse
  | n + 1, literals, offsets, lengths, done => do
    let code := (t.offsets.cell offsets).symbol
    let offset ← BackwardBits.take code
    let length ← readNumber lengthCodes (t.lengths.cell lengths).symbol
    let count ← readNumber literalCodes (t.literals.cell literals).symbol
    let done := ⟨count, Nat.pow 2 code + offset, length⟩ :: done
    if n = 0 then return done.reverse
    else
      let literals ← t.literals.next literals
      let lengths ← t.lengths.next lengths
      let offsets ← t.offsets.next offsets
      readFrom t n literals offsets lengths done

/-- Reads `n` sequences. -/
def readSome (t : SequenceTables) (n : Nat) : BackwardRead (List Sequence) := do
  let literals ← t.literals.first
  let offsets ← t.offsets.first
  let lengths ← t.lengths.first
  readFrom t n literals offsets lengths []

/-- Reads the sequences that bytes hold, where `last` are the last tables; the tables for those
that come next as well. -/
def readAll? (last : Option SequenceTables) (bs : Bytes) :
    Option (List Sequence × Option SequenceTables) := do
  let (n, bs) ← readCount? bs
  if n = 0 then
    if bs = [] then some ([], last) else none
  else
    let (t, bs) ← readTables? last bs
    let sequences ← BackwardBits.readAll? bs (readSome t n)
    some (sequences, some t)

end Sequence

/-- The distances of the last three copies, the latest first. -/
structure Distances where
  first : Nat
  second : Nat
  third : Nat

namespace Distances

/-- The distances before the first copy. -/
def initial : Distances := ⟨1, 4, 8⟩

/-- The distance of the copy of a sequence, and the last three distances with it. Three small
offsets stand for the last distances, and after no literals for the second, the third, and one less
than the first. -/
def use (d : Distances) (s : Sequence) : Nat × Distances :=
  if 3 < s.offset then (s.offset - 3, ⟨s.offset - 3, d.first, d.second⟩)
  else
    let i := if s.literals = 0 then s.offset + 1 else s.offset
    if i = 1 then (d.first, d)
    else if i = 2 then (d.second, ⟨d.second, d.first, d.third⟩)
    else
      let distance := if i = 3 then d.third else d.first - 1
      (distance, ⟨distance, d.first, d.second⟩)

end Distances

end SharedRuntime.Zstd
