import SharedRuntime.Bytes

/-!
# The contents of blocks

A block holds the last column of the sorted rotations of its text, and the place of the text among
them; `unsort` finds the text. In the text a run of four equal bytes is followed by the number of
further ones; `expand` writes the runs out.
-/

set_option autoImplicit false

namespace SharedRuntime.Bzip2

/-- How often each byte occurs. -/
def histogram (column : Array UInt8) : Array Nat :=
  column.foldl (fun counts b => counts.modify b.toNat (· + 1)) (Array.replicate 256 0)

/-- The sums of all numbers before each one. -/
def startsOf (counts : Array Nat) : Array Nat :=
  (counts.foldl (fun (sums, total) n => (sums.push total, total + n)) (#[], 0)).1

/-- For each place in the sorted column the place in the given column that the same byte has. -/
def successors (column : Array UInt8) : Array Nat :=
  let place (s : Array Nat × Array Nat × Nat) (b : UInt8) : Array Nat × Array Nat × Nat :=
    let (next, starts, i) := s
    let k := starts.getD b.toNat 0
    (next.setIfInBounds k i, starts.setIfInBounds b.toNat (k + 1), i + 1)
  (column.foldl place (Array.replicate column.size 0, startsOf (histogram column), 0)).1

/-- Follows successors for `n` bytes. -/
def follow (column : Array UInt8) (next : Array Nat) : Nat → Nat → Array UInt8 → Array UInt8
  | 0, _, done => done
  | n + 1, i, done =>
    follow column next n (next.getD i 0) (done.push (column.getD i 0))

/-- The text whose sorted rotations have the given last column; `origin` is its place among
them. -/
def unsort (column : Array UInt8) (origin : Nat) : Array UInt8 :=
  let next := successors column
  follow column next column.size (next.getD origin 0) #[]

/-- What is known while runs are written out: the bytes so far, the last byte and how often it
stands there, up to four times. -/
structure RunState where
  done : Array UInt8
  last : UInt8
  count : Nat

/-- Takes a byte in: after four equal bytes it is a number. -/
def RunState.step (s : RunState) (b : UInt8) : RunState :=
  if s.count = 4 then ⟨s.done ++ Array.replicate b.toNat s.last, s.last, 0⟩
  else if s.count != 0 && b = s.last then ⟨s.done.push b, b, s.count + 1⟩
  else ⟨s.done.push b, b, 1⟩

/-- The text with its runs written out, and whether the number of the last run is there. -/
def expand (text : Array UInt8) : Array UInt8 × Bool :=
  let s := text.foldl RunState.step ⟨#[], 0, 0⟩
  (s.done, s.count != 4)

/-- Shifts one bit out of the register of the checksum. -/
def shiftBit (r : UInt32) : UInt32 :=
  if r &&& 0x80000000 = 0 then r <<< 1 else (r <<< 1) ^^^ 0x04C11DB7

/-- Takes one byte into the checksum. -/
def checksumStep (r : UInt32) (b : UInt8) : UInt32 :=
  shiftBit (shiftBit (shiftBit (shiftBit (shiftBit (shiftBit (shiftBit (shiftBit
    (r ^^^ (b.toUInt32 <<< 24)))))))))

/-- The checksum of a block. -/
def checksum (block : Array UInt8) : UInt32 :=
  block.foldl checksumStep 0xFFFFFFFF ^^^ 0xFFFFFFFF

/-- Takes the checksum of a block into that of the stream. -/
def combine (stream block : UInt32) : UInt32 := ((stream <<< 1) ||| (stream >>> 31)) ^^^ block

end SharedRuntime.Bzip2
