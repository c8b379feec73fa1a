import SharedRuntime.Archive.Lzma

/-!
# LZMA data in chunks

A sequence of chunks, each stored as it is or coded, with a byte before each that says which, and
what of the state of the coder it starts anew. A zero byte ends the sequence.
-/

set_option autoImplicit false

namespace SharedRuntime.Lzma

open Decode LzmaState

/-- A number of two bytes, the highest first. -/
def size16 : Decode Nat := do
  let high ← byte
  let low ← byte
  return 256 * high.toNat + low.toNat

/-- Empties the dictionary. -/
def emptyDictionary : LzmaStep Unit := do
  let size ← outSize
  modify fun s => { s with origin := size }

/-- Starts the model anew, with properties of its own if there are any. -/
def renew (own : Bool) : LzmaStep Unit := do
  let s ← get
  if own then
    let b ← byte
    match properties? b.toNat with
    | some (lc, lp, pb) => if 4 < lc + lp then fail .corrupt else set (fresh lc lp pb s.origin)
    | none => fail .corrupt
  else set (fresh s.literalBits s.literalPlaceBits s.placeBits s.origin)

/-- A chunk that is stored as it is. -/
def storedChunk (empties : Bool) : LzmaStep Unit := do
  let size ← size16
  if empties then emptyDictionary
  let bs ← bytes (size + 1)
  emitAll bs

/-- A chunk that is coded. The sizes of the chunk and of its code are one less than they are
stated; the bits below them tell what starts anew. -/
def codedChunk (status : Nat) : LzmaStep Unit := do
  let low ← size16
  let coded ← size16
  let size := 65536 * (status % 32) + low + 1
  let anew := status / 32 % 4
  if anew = 3 then emptyDictionary
  if 1 ≤ anew then renew (2 ≤ anew)
  let start ← held
  startCoder (coded + 1)
  symbols (Nat.pow 2 32) (some (start + size)) (size + 1)
  if (← held) != start + size then fail .corrupt

/-- Decodes chunks up to the end of the sequence. `fuel` bounds them. -/
def chunks : Nat → LzmaStep Unit
  | 0 => fail .truncated
  | fuel + 1 => do
    let status ← byte
    if status = 0 then pure ()
    else do
      if 128 ≤ status.toNat then codedChunk status.toNat
      else if status = 1 || status = 2 then storedChunk (status = 1)
      else fail .corrupt
      chunks fuel

/-- Decodes a sequence of chunks. -/
def decodeChunks (fuel : Nat) : Decode Unit := do
  let size ← outSize
  let _ ← (chunks fuel).run (fresh 0 0 0 size)

end SharedRuntime.Lzma
