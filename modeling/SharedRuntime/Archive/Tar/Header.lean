import SharedRuntime.Archive.ByteStream
import SharedRuntime.Text.Ascii
import SharedRuntime.Text.Blank
import SharedRuntime.Text.Utf8

/-!
# Headers of tar archives

A member of a tar archive starts with a block of 512 bytes whose fields stand at fixed places.
Numbers are octal texts, large ones are bytes after a mark. A header counts only if the sum of its
bytes is the one that it states.
-/

set_option autoImplicit false

namespace SharedRuntime.Tar

/-- The size of a block: headers and contents start at multiples of it. -/
def blockSize : Nat := 512

/-- The block that holds the header of a member. -/
abbrev Block := Bytes

/-- The bytes of a field. -/
def slice (start len : Nat) (block : Block) : Bytes := (block.drop start).take len

/-- A field up to its first zero byte. -/
def untilZero (field : Bytes) : Bytes := field.takeWhile (· != 0)

/-- The largest number plus one. -/
def numberLimit : Nat := Nat.pow 2 64

/-- The value of an octal digit. -/
def octalDigit? (c : Char) : Option Nat :=
  if '0' ≤ c && c ≤ '7' then some (c.toNat - '0'.toNat) else none

/-- The number that octal digits write, if it is below the limit. -/
def octalDigits? (cs : List Char) : Option Nat := do
  let digits ← cs.mapM octalDigit?
  let n := digits.foldl (fun n d => 8 * n + d) 0
  if cs = [] || numberLimit ≤ n then none else some n

/-- The number in a field of octal digits, with blanks around it. -/
def octal? (field : Bytes) : Option Nat := do
  let text ← Utf8.decode? (untilZero field)
  match trimChars text.toList with
  | '+' :: cs => octalDigits? cs
  | cs => octalDigits? cs

/-- The number in a field: octal, or the bytes behind a first byte above 127. -/
def number? (field : Bytes) : Option Nat :=
  match field with
  | b :: bs =>
    if b < 0x80 then octal? field
    else if field.length = 8 then some (Bytes.natBE ((b ^^^ 0x80) :: bs))
    else some (Bytes.natBE (field.drop (field.length - 8)))
  | [] => none

namespace Block

/-- The sum of the bytes, the field of the sum itself taken as blanks. -/
def sum (block : Block) : Nat :=
  (block.take 148 ++ block.drop 156).foldl (fun n b => n + b.toNat) (8 * 32)

/-- Does the header state the sum of its bytes? -/
def isSound (block : Block) : Bool :=
  match octal? (slice 148 8 block) with
  | some n => n % Nat.pow 2 32 == sum block
  | none => false

/-- The letter for the kind of the member. -/
def kind (block : Block) : Char := Char.ofNat ((block.drop 156).headD 0).toNat

/-- Does the header have the fields of the standard of 1988? -/
def isStandard (block : Block) : Bool :=
  slice 257 8 block == [0x75, 0x73, 0x74, 0x61, 0x72, 0, 0x30, 0x30]

/-- Does the header have the fields of the older extended form? -/
def isExtended (block : Block) : Bool :=
  slice 257 8 block == [0x75, 0x73, 0x74, 0x61, 0x72, 0x20, 0x20, 0]

/-- The size of the contents. -/
def size? (block : Block) : Option Nat := number? (slice 124 12 block)

/-- The path of the member. A standard header may give its leading directories in a field of their
own. -/
def path (block : Block) : Bytes :=
  let name := slice 0 100 block
  if isStandard block && (slice 345 1 block != [0] || name.any (· == 0x5C)) then
    let lead := untilZero (slice 345 155 block)
    (if lead = [] then [] else lead ++ [0x2F]) ++ untilZero name
  else untilZero name

/-- The target of a link. -/
def linkTarget? (block : Block) : Option Bytes :=
  let target := untilZero (slice 157 100 block)
  if target = [] then none else some target

end Block

end SharedRuntime.Tar
