import SharedRuntime.Bytes
import SharedRuntime.Text.Ascii
import SharedRuntime.Text.Quoted

/-!
# Hexadecimal text

`Hex.encode` writes two lower-case digits a byte. `Hex.decode` takes digits of either case; an odd
count is reported before a character that is no digit.
-/

set_option autoImplicit false

namespace SharedRuntime.Hex

/-- Why a text is not hexadecimal. -/
inductive Fault
  | oddLength
  /-- The byte at a position, counted in bytes, is no digit. -/
  | notADigit (byte : UInt8) (position : Nat)
  deriving DecidableEq, Repr

/-- The text of a fault. -/
def Fault.message : Fault → String
  | .oddLength => "Odd number of digits"
  | .notADigit byte position =>
    s!"Invalid character {quotedChar (Char.ofNat byte.toNat)} at position {position}"

/-- Two digits a byte, high half first. -/
def encodeChars : Bytes → List Char
  | [] => []
  | b :: bs => hexDigit (b.toNat / 16) :: hexDigit (b.toNat % 16) :: encodeChars bs

/-- The hexadecimal text of the bytes. -/
def encode (bs : Bytes) : String := String.ofList (encodeChars bs)

/-- The value of the byte `b` as a digit at `position`. -/
def digit (b : UInt8) (position : Nat) : Except Fault Nat :=
  match hexValue? (Char.ofNat b.toNat) with
  | some v => .ok v
  | none => .error (.notADigit b position)

/-- Reads pairs of digits from UTF-8 text that starts at `position`. -/
def decodePairs (position : Nat) : Bytes → Except Fault Bytes
  | [] => .ok []
  | [_] => .error .oddLength
  | hi :: lo :: rest => do
    let h ← digit hi position
    let l ← digit lo (position + 1)
    let tail ← decodePairs (position + 2) rest
    return UInt8.ofNat (16 * h + l) :: tail

/-- Reads UTF-8 text as hexadecimal. -/
def decodeBytes (text : Bytes) : Except Fault Bytes :=
  if text.length % 2 = 1 then .error .oddLength else decodePairs 0 text

/-- Reads a text as hexadecimal. -/
def decode (text : String) : Except Fault Bytes := decodeBytes (Bytes.ofString text)

end SharedRuntime.Hex
