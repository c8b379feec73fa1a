import SharedRuntime.Archive.Bzip2.Block
import SharedRuntime.Archive.Bzip2.Scramble
import SharedRuntime.Archive.PrefixCode

/-!
# Bzip2 streams

A stream is a sequence of blocks, each with its checksum, and the checksum of them all. A block is
coded with up to six prefix codes, of which one is chosen for every fifty symbols; the symbols are
places in a list of bytes whose last used byte comes to the front, and runs of its first place.

The end of a block is handed out together with the start of the next one, so that the last byte of
a block is lost when what follows is not sound.
-/

set_option autoImplicit false

namespace SharedRuntime.Bzip2

open Decode

/-- Reads bytes that have to be the given ones. -/
def expect : Bytes → Decode Unit
  | [] => pure ()
  | b :: bs => do
    if (← bitsHigh 8) = b.toNat then expect bs else fail .corrupt

/-- Reads a flag for each of the numbers, and gives the numbers whose flag is set. -/
def flagged : List Nat → Decode (List Nat)
  | [] => pure []
  | n :: ns => do
    let flag ← bit highFirst
    let more ← flagged ns
    return if flag = 1 then n :: more else more

/-- Reads the bytes that occur among those of some groups of sixteen. -/
def usedInGroups : List Nat → Decode (List UInt8)
  | [] => pure []
  | g :: gs => do
    let used ← flagged ((List.range 16).map (16 * g + ·))
    let more ← usedInGroups gs
    return used.map UInt8.ofNat ++ more

/-- Reads a number below `limit` as that many ones and a zero. -/
def unary (limit : Nat) : Nat → Nat → Decode Nat
  | 0, _ => fail .corrupt
  | fuel + 1, n => do
    if (← bit highFirst) = 0 then return n
    else if limit ≤ n + 1 then fail .corrupt
    else unary limit fuel (n + 1)

/-- Reads `n` places in a list of numbers, of which the one last read comes to the front; `done`
holds the numbers with the last first. -/
def selectors : Nat → List Nat → List Nat → Decode (List Nat)
  | 0, _, done => pure done.reverse
  | n + 1, front, done => do
    let i ← unary front.length front.length 0
    let s := front.getD i 0
    selectors n (s :: front.eraseIdx i) (s :: done)

/-- How many selectors count; more of them are read and not used. -/
def selectorLimit : Nat := 18002

/-- The longest code. -/
def codeLimit : Nat := 20

/-- Changes the length of a code step by step; `fuel` bounds the steps. -/
def codeLength : Nat → Nat → Decode Nat
  | 0, _ => fail .truncated
  | fuel + 1, n =>
    if n < 1 || codeLimit < n then fail .corrupt
    else do
      if (← bit highFirst) = 0 then return n
      else if (← bit highFirst) = 0 then codeLength fuel (n + 1)
      else codeLength fuel (n - 1)

/-- Reads the lengths of `count` codes, each told by its difference from the one before. -/
def codeLengths (fuel : Nat) : Nat → Nat → Decode (List Nat)
  | 0, _ => pure []
  | count + 1, n => do
    let n ← codeLength fuel n
    let more ← codeLengths fuel count n
    return n :: more

/-- Reads `groups` codes of `count` symbols. -/
def codes (fuel count : Nat) : Nat → Decode (List PrefixCode)
  | 0 => pure []
  | groups + 1 => do
    let lengths ← codeLengths fuel count (← bitsHigh 5)
    let more ← codes fuel count groups
    return .ofLengths codeLimit lengths :: more

/-- What is known while the symbols of a block are read: the bytes that occur, the last used first,
the block so far, and the run at its end: its length, and the weight of its next digit. -/
structure SymbolState where
  front : List UInt8
  block : Array UInt8
  run : Nat
  weight : Nat

namespace SymbolState

/-- Adds the run to the block, if there is room. -/
def endRun? (limit : Nat) (s : SymbolState) : Option SymbolState :=
  if s.run = 0 then some s
  else if limit < s.block.size + s.run then none
  else some ⟨s.front, s.block ++ Array.replicate s.run (s.front.headD 0), 0, 1⟩

/-- The largest weight of a digit of a run. -/
def weightLimit : Nat := 2097152

/-- Takes a digit of a run in: one or two, the lowest first. -/
def digit? (d : Nat) (s : SymbolState) : Option SymbolState :=
  if weightLimit ≤ s.weight then none
  else some ⟨s.front, s.block, s.run + d * s.weight, 2 * s.weight⟩

/-- Takes a place in the list in. -/
def place? (limit i : Nat) (s : SymbolState) : Option SymbolState := do
  let s ← s.endRun? limit
  if limit ≤ s.block.size then failure
  let b ← s.front[i]?
  return ⟨b :: s.front.eraseIdx i, s.block.push b, 0, 1⟩

end SymbolState

/-- How many symbols are read with a code before the next is chosen. -/
def groupSize : Nat := 50

/-- Reads the symbols of a block. `left` counts down to the choice of the next code. -/
def symbols (table : Array PrefixCode) (limit last : Nat) :
    Nat → List Nat → (left : Nat) → PrefixCode → SymbolState → Decode (Array UInt8)
  | 0, _, _, _, _ => fail .truncated
  | fuel + 1, s :: ss, 0, _, st =>
    symbols table limit last fuel ss groupSize (table.getD s ⟨[], #[]⟩) st
  | _ + 1, [], 0, _, _ => fail .corrupt
  | fuel + 1, ss, left + 1, code, st => do
    let symbol ← code.read highFirst
    if symbol = last then
      match st.endRun? limit with
      | some st => return st.block
      | none => fail .corrupt
    else
      let next := if symbol < 2 then st.digit? (symbol + 1) else st.place? limit (symbol - 1)
      match next with
      | some st => symbols table limit last fuel ss left code st
      | none => fail .corrupt

/-- Reads the last column of a block of at most `limit` bytes. -/
def column (fuel limit : Nat) : Decode (Array UInt8) := do
  let used ← usedInGroups (← flagged (List.range 16))
  let groups ← bitsHigh 3
  if used = [] || groups < 2 || 6 < groups then fail .corrupt
  else
    let count ← bitsHigh 15
    if count = 0 then fail .corrupt
    else
      let chosen ← selectors count (List.range groups) []
      let table ← codes fuel (used.length + 2) groups
      symbols table.toArray limit (used.length + 1) fuel (chosen.take selectorLimit) 0
        ⟨[], #[]⟩ ⟨used, #[], 0, 1⟩

/-- The bytes that a block starts with. -/
def blockMagic : Bytes := [0x31, 0x41, 0x59, 0x26, 0x53, 0x59]

/-- The bytes that the end of a stream starts with. -/
def endMagic : Bytes := [0x17, 0x72, 0x45, 0x38, 0x50, 0x90]

/-- Reads a block of at most `limit` bytes behind its first byte. Gives its checksum. -/
def readBlock (fuel limit : Nat) : Decode UInt32 := do
  expect (blockMagic.drop 1)
  let stated ← bitsHigh 32
  let isScrambled ← bit highFirst
  let origin ← bitsHigh 24
  if limit + 10 < origin then fail .corrupt
  else
    let column ← column fuel limit
    if column.size ≤ origin then fail .corrupt
    else
      let text := unsort column origin
      let (block, isWhole) := expand (if isScrambled = 1 then unscramble text else text)
      emitAll block.toList
      holdLast
      let crc := checksum block
      if isWhole && crc.toNat = stated then return crc else fail .corrupt

/-- Reads blocks up to the end of the stream. `crc` is the checksum of the blocks so far. -/
def readBlocks (fuel limit : Nat) : Nat → UInt32 → Decode Unit
  | 0, _ => fail .truncated
  | n + 1, crc => do
    let start ← bitsHigh 8
    if start = 0x31 then
      let block ← readBlock fuel limit
      readBlocks fuel limit n (combine crc block)
    else if start = 0x17 then
      expect (endMagic.drop 1)
      if (← bitsHigh 32) != crc.toNat then fail .corrupt
    else fail .corrupt

/-- The bytes of a block, in units of the digit that the stream states. -/
def blockUnit : Nat := 100000

/-- Reads a stream. `fuel` bounds its symbols. -/
def readStream (fuel : Nat) : Decode Unit := do
  expect [0x42, 0x5A, 0x68]
  let digit ← bitsHigh 8
  if digit < 0x31 || 0x39 < digit then fail .corrupt
  else readBlocks fuel (blockUnit * (digit - 0x30)) fuel 0

/-- Decodes the first stream in refills. -/
def decode (refills : List Bytes) : Decoded :=
  (readStream (16 * refills.flatten.length + 16)).run refills

end SharedRuntime.Bzip2
