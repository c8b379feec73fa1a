import SharedRuntime.Archive.Inflate
import SharedRuntime.Digest.Crc32

/-!
# Gzip members

A gzip member is a header with optional fields, deflated data, and a trailer with the checksum and
the length of the data. `unzip` reads the first member of a stream; what follows it is not read.
-/

set_option autoImplicit false

namespace SharedRuntime.Gzip

/-- The bytes that every member starts with. -/
def magic : Bytes := [0x1F, 0x8B]

/-- What the front of a stream is: a header with the bytes behind it, the start of one, or no
header. -/
inductive HeaderFront
  | header (rest : Bytes)
  | short
  | bad (text : String)

/-- The bytes after the first zero byte. -/
def afterZero? : Bytes → Option Bytes
  | [] => none
  | b :: bs => if b = 0 then some bs else afterZero? bs

/-- Is bit `n` of the flags set? -/
def hasFlag (flags : UInt8) (n : Nat) : Bool := flags.toNat / Nat.pow 2 n % 2 == 1

/-- Drops the extra field, if there is one. -/
def afterExtra? (flags : UInt8) (bs : Bytes) : Option Bytes :=
  if hasFlag flags 2 then
    match bs with
    | a :: b :: rest =>
      let n := Bytes.natLE [a, b]
      if n ≤ rest.length then some (rest.drop n) else none
    | _ => none
  else some bs

/-- Drops a text that ends with a zero byte, if flag `n` says that there is one. -/
def afterText? (flags : UInt8) (n : Nat) (bs : Bytes) : Option Bytes :=
  if hasFlag flags n then afterZero? bs else some bs

/-- The text of the fault for a checksum that does not fit the data. -/
def checksumText : String := "corrupt gzip stream does not have a matching checksum"

/-- Reads a header off the front of a member. -/
def header (data : Bytes) : HeaderFront :=
  match data with
  | a :: b :: method :: flags :: m1 :: m2 :: m3 :: m4 :: extra :: system :: rest =>
    if [a, b] != magic || method != 8 then .bad "invalid gzip header"
    else if 32 ≤ flags.toNat then .bad "invalid gzip header"
    else match afterExtra? flags rest with
      | none => .short
      | some r1 => match afterText? flags 3 r1 with
        | none => .short
        | some r2 => match afterText? flags 4 r2 with
          | none => .short
          | some r3 =>
            if hasFlag flags 1 then
              match r3 with
              | c1 :: c2 :: r4 =>
                let fixed := [a, b, method, flags, m1, m2, m3, m4, extra, system]
                let read := fixed ++ rest.take (rest.length - r3.length)
                if Bytes.natLE [c1, c2] = (Digest.Crc32.checksum read).toNat % 65536 then .header r4
                else .bad checksumText
              | _ => .short
            else .header r3
  | _ => .short

/-- The text of the fault for data that end too early. -/
def shortText : String := "unexpected end of file"

/-- The bytes that the decoder takes at a time. -/
def refillSize : Nat := 32768

/-- Drops the first `n` bytes of refills. -/
def dropRefills : Nat → List Bytes → List Bytes
  | _, [] => []
  | n, r :: rs => if r.length ≤ n then dropRefills (n - r.length) rs else r.drop n :: rs

/-- Does the trailer hold the checksum and the length of the data? -/
def trailerFits (trailer data : Bytes) : Bool :=
  Bytes.natLE (trailer.take 4) = (Digest.Crc32.checksum data).toNat &&
    Bytes.natLE ((trailer.drop 4).take 4) = data.length % Nat.pow 2 32

/-- The first member of a stream. Bytes decoded before a fault can be read. The front of the stream
was looked at before, in one read as for a copy. -/
def unzip (s : ByteStream) : ByteStream :=
  let refills := s.reads ByteStream.copySize refillSize
  let data := refills.flatten
  match header data with
  | .short => .withFault [] (s.shortage shortText)
  | .bad text => .withFault [] (.badData text)
  | .header deflated =>
    let i := Deflate.inflate Deflate.plain (dropRefills (data.length - deflated.length) refills)
    match i.rest with
    | .error _ => i.stream (some (s.shortage shortText))
    | .ok trailer =>
      if trailer.length < 8 then ⟨i.bytes, some (s.shortage shortText), i.portions⟩
      else if trailerFits trailer i.bytes then ⟨i.bytes, none, i.portions⟩
      else ⟨i.bytes, some (.badData checksumText), i.portions⟩

end SharedRuntime.Gzip
