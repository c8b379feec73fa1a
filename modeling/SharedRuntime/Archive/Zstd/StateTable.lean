import SharedRuntime.Archive.Zstd.BackwardBits

/-!
# Tables of a finite state code

A state stands for a symbol; the bits that follow choose the next state among those that the table
gives. A table is built from how often each symbol occurs, so that a symbol has as many states as
it has occurrences, spread over the table.
-/

set_option autoImplicit false

namespace SharedRuntime.Zstd

/-- A state: its symbol, and the next state, which is `base` and the number of `bits` bits. -/
structure StateCell where
  symbol : Nat
  bits : Nat
  base : Nat
  deriving Inhabited

/-- A table of states. The first state is a number of `accuracy` bits. -/
structure StateTable where
  accuracy : Nat
  cells : Array StateCell

namespace StateTable

/-- The table of a single symbol. -/
def single (symbol : Nat) : StateTable := ⟨0, #[⟨symbol, 0, 0⟩]⟩

/-- A number of occurrences as it is stated: zero for a symbol that is rarer than one in the whole
table, and one more than the number for the others. -/
abbrev Stated := Nat

/-- The places of states in the order in which symbols get them. -/
def places (size count : Nat) : List Nat :=
  ((List.range size).map fun i => i * (size / 2 + size / 8 + 3) % size).filter (· < count)

/-- The symbol of each state. A rare symbol has a single state, the first of them the last. -/
def symbolsOf (accuracy : Nat) (counts : List Stated) : Array Nat :=
  let size := Nat.pow 2 accuracy
  let rare := (counts.zipIdx.filter fun e => e.1 = 0).map Prod.snd
  let common := counts.zipIdx.flatMap fun e => List.replicate (e.1 - 1) e.2
  let start := (places size (size - rare.length)).zip common
  let blank := Array.replicate (size - rare.length) 0
  start.foldl (fun a e => a.setIfInBounds e.1 e.2) blank ++ rare.reverse.toArray

/-- How many states a symbol has. -/
def statesOf (count : Stated) : Nat := if count = 0 then 1 else count - 1

/-- The cells of states with the given symbols, in order; `next` counts up from the number of
states of each symbol. -/
def cellsOf (accuracy : Nat) : List Nat → Array Nat → List StateCell
  | [], _ => []
  | s :: ss, next =>
    let n := next.getD s 1
    let bits := accuracy - n.log2
    ⟨s, bits, n <<< bits - Nat.pow 2 accuracy⟩ ::
      cellsOf accuracy ss (next.setIfInBounds s (n + 1))

/-- The table of symbols that occur so often. -/
def ofCounts (accuracy : Nat) (counts : List Stated) : StateTable :=
  let next := (counts.map statesOf).toArray
  ⟨accuracy, (cellsOf accuracy (symbolsOf accuracy counts).toList next).toArray⟩

/-- Reads how many more symbols do not occur: twos of bits, of which three says that there may be
more. -/
def readAbsent (bs : Array UInt8) : Nat → Nat → Nat × Nat
  | 0, i => (0, i)
  | fuel + 1, i =>
    let n := bitsAt bs i 2
    if n = 3 then
      let (more, i) := readAbsent bs fuel (i + 2)
      (n + more, i)
    else (n, i + 2)

/-- Reads one number of occurrences from bit `i` on, where `remaining` is one more than the states
that are left; the number as it is stated, and the next bit. Small numbers take a bit less. -/
def readCount (bs : Array UInt8) (i remaining : Nat) : Stated × Nat :=
  let bits := remaining.log2
  let small := 2 * Nat.pow 2 bits - 1 - remaining
  let low := bitsAt bs i bits
  if low < small then (low, i + bits)
  else
    let n := bitsAt bs i (bits + 1)
    (if n < Nat.pow 2 bits then n else n - small, i + bits + 1)

/-- Reads numbers of occurrences of at most `room` symbols until all states are taken; the numbers,
and the next bit. -/
def readCounts (bs : Array UInt8) (room : Nat) (i remaining : Nat) (done : List Stated) :
    Option (List Stated × Nat) :=
  if remaining ≤ 1 then some (done.reverse, i)
  else
    match room with
    | 0 => none
    | room + 1 =>
      let (n, i) := readCount bs i remaining
      if n = 1 then
        let (absent, i) := readAbsent bs room i
        readCounts bs (room - absent) i remaining (List.replicate (absent + 1) 1 ++ done)
      else readCounts bs room i (remaining - statesOf n) (n :: done)
termination_by room

/-- Reads a table of symbols below `symbols`, with at most `limit` bits of accuracy; the table, and
what follows it. -/
def read? (symbols limit : Nat) (bs : Bytes) : Option (StateTable × Bytes) := do
  let a := bs.toArray
  let accuracy := bitsAt a 0 4 + 5
  if limit < accuracy then none
  let (counts, i) ← readCounts a symbols 4 (Nat.pow 2 accuracy + 1) []
  let used := (i + 7) / 8
  if bs.length < used || symbols < counts.length then none
  some (ofCounts accuracy counts, bs.drop used)

/-- The cell of a state. -/
def cell (t : StateTable) (state : Nat) : StateCell := t.cells.getD state default

/-- Reads the first state. -/
def first (t : StateTable) : BackwardRead Nat := BackwardBits.take t.accuracy

/-- Reads the state that follows. -/
def next (t : StateTable) (state : Nat) : BackwardRead Nat := do
  let c := t.cell state
  let n ← BackwardBits.take c.bits
  return c.base + n

end StateTable

end SharedRuntime.Zstd
