import SharedRuntime.Archive.Decoding

/-!
# LZMA data

A range coder yields bits by adaptive probabilities. A symbol is a literal or a copy; the distance
of a copy is one of the last four or a new one. `LzmaState` holds the coder with its probabilities,
and `LzmaState.symbols` decodes symbols until the output has a wanted size or a mark says that it
ends.

`decodeAlone` decodes data with a header of their own. The output is kept back in a dictionary and
handed out one full dictionary at a time; what does not fill it is not handed out.
-/

set_option autoImplicit false

namespace SharedRuntime

/-- A range coder with the model of the data. `left` is how many bytes it may take, `origin` how
much output there was when the dictionary was emptied. -/
structure LzmaState where
  range : UInt32
  code : UInt32
  left : Nat
  literalBits : Nat
  literalPlaceBits : Nat
  placeBits : Nat
  probabilities : Array UInt16
  state : Nat
  rep0 : Nat
  rep1 : Nat
  rep2 : Nat
  rep3 : Nat
  origin : Nat

/-- A step of the range coder. -/
abbrev LzmaStep (α : Type) := StateT LzmaState Decode α

namespace LzmaState

open Decode

/-- Where the probabilities of each kind of bit start. -/
def isMatchAt : Nat := 0
def isRepAt : Nat := 192
def isRep0At : Nat := 204
def isRep1At : Nat := 216
def isRep2At : Nat := 228
def isLongAt : Nat := 240
def slotAt : Nat := 432
def distanceAt : Nat := 688
def alignAt : Nat := 803
def lengthAt : Nat := 819
def repLengthAt : Nat := 1333
def literalAt : Nat := 1847

/-- The model at its start, with the three numbers of bits that it uses. -/
def fresh (literalBits literalPlaceBits placeBits origin : Nat) : LzmaState where
  range := 0xFFFFFFFF
  code := 0
  left := 0
  literalBits := literalBits
  literalPlaceBits := literalPlaceBits
  placeBits := placeBits
  probabilities :=
    Array.replicate (literalAt + 768 * Nat.pow 2 (literalBits + literalPlaceBits)) 1024
  state := 0
  rep0 := 0
  rep1 := 0
  rep2 := 0
  rep3 := 0
  origin := origin

/-- The next byte of the coded data. -/
def nextByte : LzmaStep UInt8 := do
  let s ← get
  if s.left = 0 then fail .truncated
  else
    modify fun s => { s with left := s.left - 1 }
    byte

/-- Takes `n` bytes into the code. -/
def takeCode : Nat → LzmaStep Unit
  | 0 => pure ()
  | n + 1 => do
    let b ← nextByte
    modify fun s => { s with code := (s.code <<< 8) ||| b.toUInt32 }
    takeCode n

/-- Starts the range coder on `n` bytes of coded data, of which the first does not count. -/
def startCoder (n : Nat) : LzmaStep Unit := do
  modify fun s => { s with range := 0xFFFFFFFF, code := 0, left := n }
  let _ ← nextByte
  takeCode 4

/-- Keeps the range large by taking a byte when it has become small. -/
def normalize : LzmaStep Unit := do
  let s ← get
  if s.range < 0x01000000 then
    modify fun s => { s with range := s.range <<< 8 }
    takeCode 1

/-- Takes a bit with a probability into account: the bit, and the state with the probability
adapted to it. -/
def adapt (s : LzmaState) (i : Nat) : Nat × LzmaState :=
  let p := s.probabilities.getD i 1024
  let bound := (s.range >>> 11) * p.toUInt32
  if s.code < bound then
    (0, { s with
      range := bound
      probabilities := s.probabilities.setIfInBounds i (p + ((2048 - p) >>> 5)) })
  else
    (1, { s with
      range := s.range - bound
      code := s.code - bound
      probabilities := s.probabilities.setIfInBounds i (p - (p >>> 5)) })

/-- A bit with the probability of index `i`. -/
def bit (i : Nat) : LzmaStep Nat := do
  let b ← modifyGet fun s => s.adapt i
  normalize
  return b

/-- A bit that is as likely zero as one. -/
def evenBit : LzmaStep Nat := do
  let b ← modifyGet fun (s : LzmaState) =>
    let half := s.range >>> 1
    if s.code < half then (0, { s with range := half })
    else (1, { s with range := half, code := s.code - half })
  normalize
  return b

/-- Reads `n` bits, each with the probability that those before it lead to; `node` is where they
have led. -/
def treeFrom (base : Nat) : Nat → Nat → LzmaStep Nat
  | 0, node => pure node
  | n + 1, node => do
    let b ← bit (base + node)
    treeFrom base n (2 * node + b)

/-- A number of `n` bits, the highest first. -/
def tree (base n : Nat) : LzmaStep Nat := do
  let node ← treeFrom base n 1
  return node - Nat.pow 2 n

/-- A number of `n` bits, the lowest first, of which `node` tells those that are read. -/
def reverseTree (base : Nat) : Nat → Nat → LzmaStep Nat
  | 0, _ => pure 0
  | n + 1, node => do
    let b ← bit (base + node)
    let high ← reverseTree base n (2 * node + b)
    return b + 2 * high

/-- A number of `n` even bits below `acc`, the highest first. -/
def evenBits : Nat → Nat → LzmaStep Nat
  | 0, acc => pure acc
  | n + 1, acc => do
    let b ← evenBit
    evenBits n (2 * acc + b)

/-- The length of a copy, less two. -/
def copyLength (base place : Nat) : LzmaStep Nat := do
  if (← bit base) = 0 then tree (base + 2 + 8 * place) 3
  else if (← bit (base + 1)) = 0 then return 8 + (← tree (base + 130 + 8 * place) 3)
  else return 16 + (← tree (base + 258) 8)

/-- The distance of a copy, less one, that has the given length less two. -/
def copyDistance (len : Nat) : LzmaStep Nat := do
  let slot ← tree (slotAt + 64 * min len 3) 6
  if slot < 4 then return slot
  else
    let bits := slot / 2 - 1
    let base := (2 + slot % 2) * Nat.pow 2 bits
    if slot < 14 then return base + (← reverseTree (distanceAt + (base - slot)) bits 1)
    else
      let high ← evenBits (bits - 4) 0
      let low ← reverseTree alignAt 4 1
      return base + 16 * high + low

/-- Reads the bits of a literal while they are those of the byte that a copy would give: `node` is
where the bits have led. -/
def matchedLiteral (base : Nat) : Nat → Nat → Nat → LzmaStep Nat
  | 0, _, node => pure node
  | n + 1, other, node => do
    let expected := other / 128 % 2
    let b ← bit (base + 256 * (1 + expected) + node)
    let node := 2 * node + b
    if b = expected then matchedLiteral base n (2 * other) node else treeFrom base n node

/-- The size of the dictionary: of the output since it was emptied. -/
def held : LzmaStep Nat := do
  let s ← get
  let size ← outSize
  return size - s.origin

/-- Decodes a literal. After a copy it is likely to differ from what the copy would go on with. -/
def literal : LzmaStep Unit := do
  let s ← get
  let size ← held
  let last ← lastByte 0
  let previous := if size = 0 then 0 else last.toNat
  let context := size % Nat.pow 2 s.literalPlaceBits * Nat.pow 2 s.literalBits +
    previous / Nat.pow 2 (8 - s.literalBits)
  let base := literalAt + 768 * context
  let node ←
    if s.state < 7 then treeFrom base 8 1
    else if size ≤ s.rep0 then fail .corrupt
    else do
      let other ← lastByte s.rep0
      matchedLiteral base 8 other.toNat 1
  emit (UInt8.ofNat (node - 256))
  modify fun s =>
    { s with state := if s.state < 4 then 0 else if s.state < 10 then s.state - 3 else s.state - 6 }

/-- Copies `n` bytes at the last distance, which has to lie in the dictionary. -/
def copyLast (dictionary n : Nat) : LzmaStep Unit := do
  let s ← get
  let size ← held
  if dictionary ≤ s.rep0 || size ≤ s.rep0 then fail .corrupt
  else copyBytes (s.rep0 + 1) n

/-- Brings one of the last distances to the front. -/
def pickRep : LzmaStep Unit := do
  let s ← get
  if (← bit (isRep1At + s.state)) = 0 then
    modify fun s => { s with rep0 := s.rep1, rep1 := s.rep0 }
  else if (← bit (isRep2At + s.state)) = 0 then
    modify fun s => { s with rep0 := s.rep2, rep1 := s.rep0, rep2 := s.rep1 }
  else
    modify fun s => { s with rep0 := s.rep3, rep1 := s.rep0, rep2 := s.rep1, rep3 := s.rep2 }

/-- A copy at one of the last distances. -/
def repeated (dictionary place : Nat) : LzmaStep Unit := do
  let s ← get
  let isOther ← bit (isRep0At + s.state)
  let isLong ← if isOther = 0 then bit (isLongAt + 16 * s.state + place) else pure 1
  if isLong = 0 then
    modify fun s => { s with state := if s.state < 7 then 9 else 11 }
    copyLast dictionary 1
  else
    if isOther = 1 then pickRep
    let n ← copyLength repLengthAt place
    modify fun s => { s with state := if s.state < 7 then 8 else 11 }
    copyLast dictionary (n + 2)

/-- The distance that marks the end. -/
def endDistance : Nat := 0xFFFFFFFF

/-- A copy at a new distance. Says whether it is the mark of the end, which has to be the last of
the coded data. -/
def copied (dictionary place : Nat) : LzmaStep Bool := do
  let n ← copyLength lengthAt place
  modify fun s =>
    { s with
      state := if s.state < 7 then 7 else 10
      rep1 := s.rep0
      rep2 := s.rep1
      rep3 := s.rep2 }
  let distance ← copyDistance n
  modify fun s => { s with rep0 := distance }
  if distance = endDistance then
    let s ← get
    let more ← hasInput
    if s.code = 0 && (s.left = 0 || !more) then return true else fail .corrupt
  else
    copyLast dictionary (n + 2)
    return false

/-- Decodes a symbol. Says whether it is the mark of the end. -/
def symbol (dictionary : Nat) : LzmaStep Bool := do
  let s ← get
  let size ← held
  let place := size % Nat.pow 2 s.placeBits
  if (← bit (isMatchAt + 16 * s.state + place)) = 0 then
    literal
    return false
  else if (← bit (isRepAt + s.state)) = 1 then
    repeated dictionary place
    return false
  else copied dictionary place

/-- Decodes symbols until the output since the dictionary was emptied has the wanted size, or up to
the mark of the end. `fuel` bounds the symbols. -/
def symbols (dictionary : Nat) (wanted : Option Nat) : Nat → LzmaStep Unit
  | 0 => fail .truncated
  | fuel + 1 => do
    let size ← held
    if wanted.any (· ≤ size) then pure ()
    else if ← symbol dictionary then pure ()
    else symbols dictionary wanted fuel

end LzmaState

namespace Lzma

open Decode LzmaState

/-- The three numbers of bits that a byte tells. -/
def properties? (b : Nat) : Option (Nat × Nat × Nat) :=
  if b < 225 then some (b % 9, b / 9 % 5, b / 45) else none

/-- The header of data that stand alone: the byte of the properties, the size of the dictionary, and
the size of the data where it is stated. -/
def header : Decode (Nat × Nat × Option Nat) := do
  let props := (← byte).toNat
  if 225 ≤ props then fail .corrupt
  else
    let dictionary ← natLE 4
    let size ← natLE 8
    return (props, max dictionary 4096, if size + 1 = Nat.pow 2 64 then none else some size)

/-- Decodes data that stand alone. Nothing may follow them. -/
def alone (fuel : Nat) : Decode Unit := do
  let (props, dictionary, size) ← header
  match properties? props with
  | none => fail .corrupt
  | some (lc, lp, pb) =>
    let step : LzmaStep Unit := do
      startCoder fuel
      symbols dictionary size fuel
    let _ ← step.run (fresh lc lp pb 0)
    if (← remaining) != 0 then fail .corrupt

/-- The size of the dictionary that data state. -/
def dictionaryOf (refills : List Bytes) : Nat :=
  max (Bytes.natLE ((refills.flatten.drop 1).take 4)) 4096

/-- Decodes data that stand alone. Only full dictionaries are handed out. -/
def decodeAlone (refills : List Bytes) : Decoded :=
  let r := (alone (512 * refills.flatten.length + 512)).run refills
  let dictionary := dictionaryOf refills
  let size := r.bytes.length / dictionary * dictionary
  ⟨r.bytes.take size, [⟨size, true⟩], r.rest⟩

end Lzma

end SharedRuntime
