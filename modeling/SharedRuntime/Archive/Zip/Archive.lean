import SharedRuntime.Archive.Bzip2
import SharedRuntime.Archive.Inflate
import SharedRuntime.Archive.Xz
import SharedRuntime.Archive.Zip.Directory
import SharedRuntime.Archive.Zstd

/-!
# Zip archives

An archive is opened from the bytes of a file. Its entries are found by name or by place; opening
an entry reads its local header, and reading it decodes the contents. The checksum is compared when
a reader reaches the end of the contents.
-/

set_option autoImplicit false

namespace SharedRuntime

/-- A zip archive: the bytes of its file and the entries of its directory. -/
structure Zip where
  bytes : Bytes
  entries : List Zip.Entry

namespace Zip

/-- Opens the archive that a file holds. -/
def ofBytes (bs : Bytes) : Except Fault Zip :=
  (readDirectory bs).map fun es => ⟨bs, es⟩

/-- The size of a local header, without the name and the extra fields. -/
def localHeaderSize : Nat := 30

/-- The bytes that belong to an entry, by its local header and its recorded size. -/
def rawContents (z : Zip) (e : Entry) : Except Fault Bytes :=
  let block := z.bytes.drop e.start
  if block.length < localHeaderSize then
    .error (.io (.endOfData "end of file"))
  else if !Bytes.startsWith localMagic block then .error .invalid
  else
    let skipped := localHeaderSize + field block 26 2 + field block 28 2
    .ok ((block.drop skipped).take e.compressedSize)

/-- A stream whose end is reached only with the recorded checksum. -/
def checked (crc : UInt32) (s : ByteStream) : ByteStream :=
  match s.fault with
  | some _ => s
  | none =>
    if Digest.Crc32.checksum s.data = crc then s
    else ⟨s.data, some (.other "Invalid checksum"), s.portions⟩

/-- The bytes that a decoder takes at a time. -/
def refillSize : Nat := 8192

/-- The refills of a decoder. -/
def refills (raw : Bytes) : List Bytes := (ByteStream.ofBytes raw).reads refillSize refillSize

/-- The text of the fault for contents that end too early. -/
def shortText : String := "unexpected end of file"

/-- How the contents of entries of a method are decoded; none for a method that is not known. -/
def decoder? (method : Nat) : Option (Bytes → ByteStream) :=
  if method = 0 then some .ofBytes
  else if method = 8 then
    some fun raw => (Deflate.inflate Deflate.plain (refills raw)).stream (some (.badData shortText))
  else if method = 9 then
    some fun raw => (Deflate.inflate Deflate.large (refills raw)).stream none
  else if method = 12 then
    some fun raw => (Bzip2.decode (refills raw)).stream (some (.endOfData shortText))
  else if method = 14 then some fun raw => (Lzma.decodeAlone (refills raw)).stream none
  else if method = 93 then
    some fun raw => (Zstd.decode (refills raw)).stream (some (.endOfData shortText))
  else if method = 95 then some fun raw => (Xz.decode raw).stream none
  else none

/-- The contents of an entry as a reader gets them. -/
def openEntry (z : Zip) (e : Entry) : Except Fault ByteStream :=
  if e.encrypted then .error .unsupported
  else do
    let raw ← z.rawContents e
    match decoder? e.method with
    | none =>
      if e.hasKeyStrength && e.method = encryptedMethod then .error .wrongPassword
      else .error .unsupported
    | some decode =>
      if e.hasKeyStrength then .error .wrongPassword
      else .ok (checked e.crc (decode raw))

/-- The entry of a name. -/
def find? (z : Zip) (name : String) : Option Entry := z.entries.find? fun e => e.name == name

/-- The contents of the entry of a name. -/
def openNamed (z : Zip) (name : String) : Except Fault ByteStream :=
  match z.find? name with
  | none => .error .notFound
  | some e => z.openEntry e

end Zip

end SharedRuntime
