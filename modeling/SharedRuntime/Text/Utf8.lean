import SharedRuntime.Bytes

/-!
# UTF-8

`front` reads one character from the front of a byte string. Strict decoding (`decode?`) takes
a byte string that is UTF-8 throughout; lossy decoding puts U+FFFD for every maximal piece that no
character starts with.
-/

set_option autoImplicit false

namespace SharedRuntime.Utf8

/-- What the front of a byte string holds: a character, or bytes to skip that form none. -/
inductive Front
  | char (c : Char) (width : Nat)
  | broken (width : Nat)

/-- Is `b` a continuation byte? -/
def isContinuation (b : UInt8) : Bool := 0x80 ≤ b && b ≤ 0xBF

/-- The range of second bytes that may follow `b`, for lead bytes of three and four byte forms. -/
def secondInRange (lead second : UInt8) : Bool :=
  if lead = 0xE0 then 0xA0 ≤ second && second ≤ 0xBF
  else if lead = 0xED then 0x80 ≤ second && second ≤ 0x9F
  else if lead = 0xF0 then 0x90 ≤ second && second ≤ 0xBF
  else if lead = 0xF4 then 0x80 ≤ second && second ≤ 0x8F
  else isContinuation second

/-- The low six bits of a continuation byte. -/
def payload (b : UInt8) : Nat := b.toNat % 64

/-- Reads the character at the front. A broken piece is the longest start of a character. -/
def front (b : UInt8) (rest : Bytes) : Front :=
  if b < 0x80 then .char (Char.ofNat b.toNat) 1
  else if 0xC2 ≤ b && b ≤ 0xDF then
    match rest with
    | b2 :: _ =>
      if isContinuation b2 then .char (Char.ofNat (b.toNat % 32 * 64 + payload b2)) 2
      else .broken 1
    | [] => .broken 1
  else if 0xE0 ≤ b && b ≤ 0xEF then
    match rest with
    | b2 :: rest2 =>
      if secondInRange b b2 then
        match rest2 with
        | b3 :: _ =>
          if isContinuation b3 then
            .char (Char.ofNat ((b.toNat % 16 * 64 + payload b2) * 64 + payload b3)) 3
          else .broken 2
        | [] => .broken 2
      else .broken 1
    | [] => .broken 1
  else if 0xF0 ≤ b && b ≤ 0xF4 then
    match rest with
    | b2 :: rest2 =>
      if secondInRange b b2 then
        match rest2 with
        | b3 :: rest3 =>
          if isContinuation b3 then
            match rest3 with
            | b4 :: _ =>
              if isContinuation b4 then
                .char (Char.ofNat
                  (((b.toNat % 8 * 64 + payload b2) * 64 + payload b3) * 64 + payload b4)) 4
              else .broken 3
            | [] => .broken 3
          else .broken 2
        | [] => .broken 2
      else .broken 1
    | [] => .broken 1
  else .broken 1

/-- Reads all characters; `skip` counts bytes already read, and `broken` stands for each piece
that forms no character. -/
def decodeAux (broken : Char → Option Char) : Nat → Bytes → Option (List Char)
  | _, [] => some []
  | skip + 1, _ :: rest => decodeAux broken skip rest
  | 0, b :: rest =>
    match front b rest with
    | .char c width => (decodeAux broken (width - 1) rest).map (c :: ·)
    | .broken width =>
      match broken '\uFFFD' with
      | some c => (decodeAux broken (width - 1) rest).map (c :: ·)
      | none => none

/-- The text whose UTF-8 form is given; `none` where the bytes are not UTF-8. -/
def decode? (bs : Bytes) : Option String :=
  (decodeAux (fun _ => none) 0 bs).map String.ofList

/-- The text of the bytes, with U+FFFD for each piece that is not UTF-8. -/
def decodeLossy (bs : Bytes) : String :=
  String.ofList ((decodeAux some 0 bs).getD [])

end SharedRuntime.Utf8
