import SharedRuntime.Archive.PrefixCode

/-!
# Deflated data

The decoder of the DEFLATE format: blocks of stored bytes, and blocks of literals and copies under
a fixed or a described pair of canonical codes. The large form of the format has longer copies from
further back.

The decoder of the plain form works through windows of 32768 bytes, that of the large form through
blocks; at the end of either a portion of the output ends. A copy that reaches back over the start
of the data copies zeros.
-/

set_option autoImplicit false

namespace SharedRuntime.Deflate

open Decode

/-- What tells the plain and the large form apart: base and extra bits of the length symbols from
257 on and of the distance symbols, the sizes that a described code may have, and the size of the
window that ends a portion. -/
structure Format where
  lengths : Array (Nat × Nat)
  distances : Array (Nat × Nat)
  literalLimit : Nat
  distanceLimit : Nat
  isUsable : PrefixCode → Bool
  isLengthCodeUsable : PrefixCode → Bool
  window : Option Nat

/-- Base and extra bits of the length symbols from 257 to 284. -/
def lengthTable : List (Nat × Nat) :=
  [(3, 0), (4, 0), (5, 0), (6, 0), (7, 0), (8, 0), (9, 0), (10, 0), (11, 1), (13, 1), (15, 1),
   (17, 1), (19, 2), (23, 2), (27, 2), (31, 2), (35, 3), (43, 3), (51, 3), (59, 3), (67, 4),
   (83, 4), (99, 4), (115, 4), (131, 5), (163, 5), (195, 5), (227, 5)]

/-- Base and extra bits of the first thirty distance symbols. -/
def distanceTable : List (Nat × Nat) :=
  [(1, 0), (2, 0), (3, 0), (4, 0), (5, 1), (7, 1), (9, 2), (13, 2), (17, 3), (25, 3), (33, 4),
   (49, 4), (65, 5), (97, 5), (129, 6), (193, 6), (257, 7), (385, 7), (513, 8), (769, 8),
   (1025, 9), (1537, 9), (2049, 10), (3073, 10), (4097, 11), (6145, 11), (8193, 12), (12289, 12),
   (16385, 13), (24577, 13)]

/-- The plain form. -/
def plain : Format where
  lengths := (lengthTable ++ [(258, 0)]).toArray
  distances := distanceTable.toArray
  literalLimit := 286
  distanceLimit := 30
  isUsable c := c.isComplete || c.isTrivial
  isLengthCodeUsable := PrefixCode.isComplete
  window := some 32768

/-- The large form. -/
def large : Format where
  lengths := (lengthTable ++ [(3, 16)]).toArray
  distances := (distanceTable ++ [(32769, 14), (49153, 14)]).toArray
  literalLimit := 288
  distanceLimit := 32
  isUsable := PrefixCode.isSound
  isLengthCodeUsable := PrefixCode.isSound
  window := none

/-- The longest code. -/
def codeLimit : Nat := 15

/-- The code for literals and lengths, and the code for distances, of a block. -/
structure Codes where
  literals : PrefixCode
  distances : PrefixCode

/-- The codes of a block that describes none. -/
def fixedCodes : Codes :=
  ⟨.ofLengths codeLimit (List.replicate 144 8 ++ List.replicate 112 9 ++ List.replicate 24 7 ++
      List.replicate 8 8),
   .ofLengths codeLimit (List.replicate 32 5)⟩

/-- The order in which the lengths of the length code are given. -/
def lengthCodeOrder : List Nat :=
  [16, 17, 18, 0, 8, 7, 9, 6, 10, 5, 11, 4, 12, 3, 13, 2, 14, 1, 15]

/-- Reads `n` numbers of three bits. -/
def triples : Nat → Decode (List Nat)
  | 0 => pure []
  | n + 1 => do
    let x ← bitsLow 3
    let xs ← triples n
    return x :: xs

/-- Reads code lengths until there are `total`; `done` holds them with the last first. -/
def codeLengths (code : PrefixCode) (total : Nat) : Nat → List Nat → Decode (List Nat)
  | 0, _ => fail .corrupt
  | fuel + 1, done =>
    if done.length = total then pure done.reverse
    else if total < done.length then fail .corrupt
    else do
      let symbol ← code.read lowFirst
      if symbol < 16 then codeLengths code total fuel (symbol :: done)
      else if symbol = 16 then
        match done with
        | [] => fail .corrupt
        | last :: _ =>
          let n ← bitsLow 2
          codeLengths code total fuel (List.replicate (n + 3) last ++ done)
      else if symbol = 17 then
        let n ← bitsLow 3
        codeLengths code total fuel (List.replicate (n + 3) 0 ++ done)
      else
        let n ← bitsLow 7
        codeLengths code total fuel (List.replicate (n + 11) 0 ++ done)

/-- Reads the codes that a block describes. -/
def describedCodes (f : Format) : Decode Codes := do
  let literals := (← bitsLow 5) + 257
  let distances := (← bitsLow 5) + 1
  let given := (← bitsLow 4) + 4
  if f.literalLimit < literals || f.distanceLimit < distances then fail .corrupt
  else
    let given := lengthCodeOrder.zip (← triples given)
    let lengthCode := PrefixCode.ofLengths 7
      ((List.range 19).map fun i => (given.lookup i).getD 0)
    if !f.isLengthCodeUsable lengthCode then fail .corrupt
    else
      let total := literals + distances
      let lengths ← codeLengths lengthCode total (total + 1) []
      let codes : Codes := ⟨.ofLengths codeLimit (lengths.take literals),
        .ofLengths codeLimit (lengths.drop literals)⟩
      if f.isUsable codes.literals && f.isUsable codes.distances then return codes
      else fail .corrupt

/-- Ends a portion where a byte is to be added behind a full window. A reader with room left goes
on only while there is input at hand. -/
def turnWindow (f : Format) : Decode Unit :=
  match f.window with
  | none => pure ()
  | some size => do
    if (← outSize) % size = 0 then endPortion (← hasInput)

/-- Adds a byte to the output. -/
def put (f : Format) (b : UInt8) : Decode Unit := do
  turnWindow f
  emit b

/-- Copies `n` bytes from `distance` bytes back. -/
def copyBack (f : Format) (distance : Nat) : Nat → Decode Unit
  | 0 => pure ()
  | n + 1 => do
    turnWindow f
    copyByte distance
    copyBack f distance n

/-- Reads the rest of a copy whose length symbol is read, and copies. -/
def copy (f : Format) (codes : Codes) (symbol : Nat) : Decode Unit :=
  match f.lengths[symbol - 257]? with
  | none => fail .corrupt
  | some (base, extra) => do
    let n ← bitsLow extra
    let d ← codes.distances.read lowFirst
    match f.distances[d]? with
    | none => fail .corrupt
    | some (distanceBase, distanceExtra) =>
      let m ← bitsLow distanceExtra
      copyBack f (distanceBase + m) (base + n)

/-- Decodes literals and copies up to the end of a block. -/
def inflateCoded (f : Format) (codes : Codes) : Nat → Decode Unit
  | 0 => fail .truncated
  | fuel + 1 => do
    let symbol ← codes.literals.read lowFirst
    if symbol < 256 then
      put f (UInt8.ofNat symbol)
      inflateCoded f codes fuel
    else if symbol = 256 then pure ()
    else
      copy f codes symbol
      inflateCoded f codes fuel

/-- Copies `n` stored bytes. -/
def inflateBytes (f : Format) : Nat → Decode Unit
  | 0 => pure ()
  | n + 1 => do
    turnWindow f
    emit (← byte)
    inflateBytes f n

/-- Copies a block of stored bytes. -/
def inflateStored (f : Format) : Decode Unit := do
  align
  let n ← natLE 2
  let complement ← natLE 2
  if n + complement = 65535 then inflateBytes f n else fail .corrupt

/-- Decodes the contents of a block of the given kind. -/
def inflateBlock (f : Format) (fuel kind : Nat) : Decode Unit :=
  if kind = 0 then inflateStored f
  else if kind = 1 then inflateCoded f fixedCodes fuel
  else if kind = 2 then do
    let codes ← describedCodes f
    inflateCoded f codes fuel
  else fail .corrupt

/-- Decodes blocks up to the last. `room` bounds the symbols of a block. -/
def inflateBlocks (f : Format) (room : Nat) : Nat → Decode Unit
  | 0 => fail .truncated
  | fuel + 1 => do
    let last ← bit lowFirst
    let kind ← bitsLow 2
    inflateBlock f room kind
    if f.window.isNone then endPortion true
    if last = 1 then align else inflateBlocks f room fuel

/-- Decodes deflated data from the front of refills. -/
def inflate (f : Format) (refills : List Bytes) : Decoded :=
  let room := 8 * refills.flatten.length + 1
  (inflateBlocks f room room).run refills

end SharedRuntime.Deflate
