import SharedRuntime.Archive.Lzma.Chunks
import SharedRuntime.Digest.Crc32

/-!
# XZ streams

A stream has a header, blocks, an index of the blocks and a footer. The header, the header of each
block, the index and the footer have checksums of their own; the check value behind a block is
passed over. A block is handed out when it is whole.
-/

set_option autoImplicit false

namespace SharedRuntime.Xz

open Decode

/-- The bytes that a stream starts with. -/
def magic : Bytes := [0xFD, 0x37, 0x7A, 0x58, 0x5A, 0x00]

/-- The bytes that a stream ends with. -/
def endMagic : Bytes := [0x59, 0x5A]

/-- Reads the checksum of bytes. -/
def checksumOf (bs : Bytes) : Decode Unit := do
  let stated ← natLE 4
  require (stated = (Digest.Crc32.checksum bs).toNat)

/-- The size of the check value of a kind: none, then three kinds to a size. -/
def checkSize (kind : Nat) : Nat := if kind = 0 then 0 else Nat.pow 2 ((kind - 1) / 3 + 2)

/-- Reads the header of a stream and gives its flags. -/
def header : Decode Bytes := do
  let start ← bytes 6
  require (start = magic)
  let flags ← bytes 2
  require (flags.headD 0 = 0 && flags.getD 1 0 < 16)
  checksumOf flags
  return flags

/-- A number of seven bits a byte, the lowest first, and its bytes. `count` bounds the bytes. -/
def number : Nat → Decode (Nat × Bytes)
  | 0 => fail .corrupt
  | count + 1 => do
    let b ← byte
    if b < 128 then return (b.toNat, [b])
    else
      let (high, bs) ← number count
      return (b.toNat - 128 + 128 * high, b :: bs)

/-- The most bytes of a number. -/
def numberSize : Nat := 9

/-- What is left of bytes behind a number. -/
def skipNumber (bs : Bytes) : Bytes := (bs.dropWhile (128 ≤ ·)).drop 1

/-- The filter that blocks are coded with, and how many bytes its properties have. -/
def filterBytes : Bytes := [0x21, 1]

/-- What is left of the header of a block behind `n` filters, if they are those that are known. -/
def skipFilters? : Nat → Bytes → Option Bytes
  | 0, bs => some bs
  | n + 1, bs =>
    match bs.drop 2 with
    | [] => none
    | b :: rest => if bs.take 2 = filterBytes && b < 64 then skipFilters? n rest else none

/-- Is this a header of a block, without its size and its checksum? -/
def isBlockHeader : Bytes → Bool
  | [] => false
  | flags :: rest =>
    let n := flags.toNat
    let rest := if n / 64 % 2 = 1 then skipNumber rest else rest
    let rest := if n / 128 % 2 = 1 then skipNumber rest else rest
    n / 4 % 16 = 0 && ((skipFilters? (n % 4 + 1) rest).any fun bs => bs.all (· = 0))

/-- Reads zeros up to a multiple of four bytes, where `n` bytes were read. -/
def padding (n : Nat) : Decode Bytes := do
  let bs ← bytes ((4 - n % 4) % 4)
  require (bs.all (· = 0))
  return bs

/-- Sizes of a block: of its header, code and check value, and of what it holds. -/
structure BlockSizes where
  unpadded : Nat
  size : Nat
  deriving DecidableEq

/-- Reads a block behind the first byte. -/
def block (fuel check : Nat) (first : UInt8) : Decode BlockSizes := do
  let before ← outSize
  let start ← remaining
  let head ← bytes (4 * first.toNat - 1)
  checksumOf (first :: head)
  require (isBlockHeader head)
  Lzma.decodeChunks fuel
  let used := start - (← remaining) + 1
  let _ ← padding used
  let _ ← bytes check
  endPortion false
  return ⟨used + check, (← outSize) - before⟩

/-- Reads the records of an index and gives their bytes. -/
def records : List BlockSizes → Decode Bytes
  | [] => pure []
  | r :: rs => do
    let (unpadded, first) ← number numberSize
    let (size, second) ← number numberSize
    require (unpadded = r.unpadded && size = r.size)
    let more ← records rs
    return first ++ second ++ more

/-- Reads the index, behind its first byte, and the footer. -/
def index (flags : Bytes) (blocks : List BlockSizes) : Decode Unit := do
  let (count, head) ← number numberSize
  require (count = blocks.length)
  let body ← records blocks
  let bs := 0 :: head ++ body
  let pad ← padding bs.length
  checksumOf (bs ++ pad)
  let stated ← natLE 4
  let rest ← bytes 6
  require (stated = (Digest.Crc32.checksum rest).toNat)
  require (4 * (Bytes.natLE (rest.take 4) + 1) = bs.length + pad.length + 4)
  let last ← bytes 2
  require (rest.drop 4 = flags && last = endMagic)

/-- Reads blocks up to the end of the stream. A block that holds nothing ends it as well. -/
def blocks (fuel : Nat) (flags : Bytes) : Nat → List BlockSizes → Decode Unit
  | 0, _ => fail .truncated
  | n + 1, done => do
    let first ← byte
    if first = 0 then index flags done.reverse
    else
      let sizes ← block fuel (checkSize (flags.getD 1 0).toNat) first
      if sizes.size = 0 then pure () else blocks fuel flags n (sizes :: done)

/-- Reads a stream, of which no byte may be missing. -/
def stream (fuel : Nat) : Decode Unit :=
  tryCatch (header >>= fun flags => blocks fuel flags fuel []) fun _ => fail .corrupt

/-- Decodes the first stream in some bytes. -/
def decode (raw : Bytes) : Decoded :=
  if raw = [] then ⟨[], [], .ok []⟩ else (stream (raw.length + 1)).run [raw]

end SharedRuntime.Xz
