import SharedRuntime.Archive.Decoding
import SharedRuntime.Archive.Zstd.Literals
import SharedRuntime.Archive.Zstd.Sequences
import SharedRuntime.Digest.XxHash64

/-!
# Zstandard frames

Data are a sequence of frames, each of blocks. A block is stored as it is, is one byte repeated, or
holds literals and sequences that say how the literals and copies of what came before make up the
block. Frames of a certain kind are passed over. The size of a frame and its checksum, where they
are stated, have to be right.

Of a stored block everything is handed out that there is. The last byte of any other block is
handed out together with what follows it.
-/

set_option autoImplicit false

namespace SharedRuntime.Zstd

open Decode

/-- What a frame says of itself: the size of its window, its own size if it is stated, and whether
a checksum ends it. -/
structure FrameHeader where
  window : Nat
  size : Option Nat
  hasChecksum : Bool

/-- What the blocks of a frame pass on: the codes of literals and of sequences, and the distances
of the last copies. -/
structure FrameState where
  literals : Option PrefixTable
  sequences : Option SequenceTables
  distances : Distances

/-- The number that a frame starts with. -/
def frameMagic : Nat := 0xFD2FB528

/-- The sixteen numbers that frames to pass over start with, without the lowest four bits. -/
def skippedMagic : Nat := 0x184D2A5

/-- The largest window. -/
def windowLimit : Nat := 134217729

/-- The largest block. -/
def blockLimit : Nat := 131072

/-- Reads the size of a window: a power of two, and some eighths of it. -/
def readWindow : Decode Nat := do
  let n := (← byte).toNat
  let size := Nat.pow 2 (n / 8 + 10)
  return size + size / 8 * (n % 8)

/-- Reads the size of a frame where it is stated. Sizes of two bytes are stated less 256. -/
def readSize (form : Nat) (isSingle : Bool) : Decode (Option Nat) := do
  match form with
  | 0 =>
    if isSingle then
      let n ← natLE 1
      return some n
    else return none
  | 1 =>
    let n ← natLE 2
    return some (n + 256)
  | form =>
    let n ← natLE (Nat.pow 2 form)
    return some n

/-- Reads the header of a frame. There is no dictionary that it could name, and a frame that is a
single segment has a window of its own size. -/
def readHeader : Decode FrameHeader := do
  let flags := (← byte).toNat
  require (flags / 8 % 2 = 0)
  let isSingle := flags / 32 % 2 = 1
  let window ← if isSingle then pure 0 else readWindow
  let dictionary ← natLE (Nat.pow 2 (flags % 4) / 2)
  let size ← readSize (flags / 64) isSingle
  let window := if isSingle then size.getD 0 else window
  require (dictionary = 0 && window ≤ windowLimit)
  return ⟨window, size, flags / 4 % 2 = 1⟩

/-- Adds `n` bytes of input to the output as they are. -/
def store : Nat → Decode Unit
  | 0 => pure ()
  | n + 1 => do
    let b ← byte
    emit b
    store n

/-- Follows sequences with the literals that are left, in a frame that starts at `start`. The
output may grow up to `limit`. -/
def follow (start limit : Nat) : List Sequence → Bytes → Distances → Decode Distances
  | [], literals, d => do
    emitAll literals
    return d
  | s :: ss, literals, d => do
    let own := literals.take s.literals
    require (own.length = s.literals)
    emitAll own
    let (distance, d) := d.use s
    let size ← outSize
    require (distance != 0 && start + distance ≤ size && size + s.length ≤ limit)
    copyBytes distance s.length
    follow start limit ss (literals.drop s.literals) d

/-- Decodes a block of literals and sequences. -/
def codedBlock (start largest : Nat) (bs : Bytes) (st : FrameState) : Decode FrameState := do
  match Literals.read? largest st.literals bs with
  | none => fail .corrupt
  | some literals =>
    match Sequence.readAll? st.sequences literals.rest with
    | none => fail .corrupt
    | some (sequences, tables) =>
      let limit := (← outSize) + largest
      let distances ← follow start limit sequences literals.bytes st.distances
      require ((← outSize) ≤ limit)
      return ⟨literals.table, tables, distances⟩

/-- Decodes a block of a kind and size. A block of no bytes is empty. -/
def block (start largest kind size : Nat) (st : FrameState) : Decode FrameState := do
  match kind with
  | 0 =>
    require (size ≤ largest)
    store size
    return st
  | 1 =>
    let b ← byte
    require (size ≤ largest)
    emitAll (List.replicate size b)
    return st
  | 2 =>
    require (size ≤ largest)
    if size = 0 then return st
    else
      let bs ← bytes size
      codedBlock start largest bs st
  | _ => fail .corrupt

/-- Decodes blocks up to the last of a frame that starts at `start`. With the last block the frame
has its size. `fuel` bounds the blocks. -/
def blocks (head : FrameHeader) (start : Nat) : Nat → FrameState → Decode Unit
  | 0, _ => fail .truncated
  | fuel + 1, st => do
    let n ← natLE 3
    let st ← block start (min head.window blockLimit) (n / 2 % 4) (n / 8) st
    if n % 2 = 1 then
      let size := (← outSize) - start
      require (head.size.all (· = size))
      holdLast
    else
      holdLast
      blocks head start fuel st

/-- Decodes a frame behind the number that it starts with. -/
def frame (fuel : Nat) : Decode Unit := do
  let head ← readHeader
  let start ← outSize
  blocks head start fuel ⟨none, none, .initial⟩
  if head.hasChecksum then
    let stated ← natLE 4
    let content ← outFrom start
    require (stated = (Digest.XxHash64.hash content).toNat % Nat.pow 2 32)
  endPortion false

/-- Passes over a frame. -/
def skipFrame : Decode Unit := do
  let size ← natLE 4
  skip size

/-- Decodes frames up to the end of the input; there is one at least. -/
def frames : Nat → Decode Unit
  | 0 => fail .truncated
  | fuel + 1 => do
    let magic ← natLE 4
    if magic = frameMagic then frame fuel
    else if magic / 16 = skippedMagic then skipFrame
    else fail .corrupt
    if ← atEnd then pure () else frames fuel

/-- Decodes refills. -/
def decode (refills : List Bytes) : Decoded :=
  (frames (refills.flatten.length + 1)).run refills

end SharedRuntime.Zstd
