import SharedRuntime.Archive.Zip.Archive
import SharedRuntime.Artifact.Identity
import SharedRuntime.Digest.Sha256

/-!
# The payload of an artifact

An artifact is a zip archive. Its payload is every entry outside `META-INF/` that is no directory.
Signatures are made over the digest of the payload: for every entry in the order of the names its
name, a zero byte, its length in eight bytes and its contents.
-/

set_option autoImplicit false

namespace SharedRuntime

/-- Where the entries stand that are about the artifact and not part of it. -/
def metaDirectory : String := "META-INF/"

/-- Is the name that of an entry about the artifact? -/
def isMetaName (name : String) : Bool := metaDirectory.toList.isPrefixOf name.toList

/-- Is the name that of a directory? -/
def isDirectoryName (name : String) : Bool := name.toList.getLast? == some '/'

/-- Is the name that of a payload entry? -/
def isPayloadName (name : String) : Bool := !isMetaName name && !isDirectoryName name

namespace Payload

/-- An entry with its contents. -/
structure File where
  name : String
  contents : Bytes
  deriving DecidableEq, Repr

/-- Order by the bytes of the name. -/
def nameLe (a b : String) : Bool := Bytes.le (Bytes.ofString a) (Bytes.ofString b)

/-- The names of the payload entries, in order. -/
def names (z : Zip) : List String :=
  ((z.entries.map Zip.Entry.name).filter isPayloadName).mergeSort nameLe

/-- Reads a payload entry, which has to have its recorded size. -/
def readFile (z : Zip) (name : String) : Except IdentityFault File :=
  match z.find? name with
  | none => .error (.archive .notFound)
  | some e =>
    match z.openEntry e with
    | .error f => .error (.archive f)
    | .ok stream =>
      match stream.readAll with
      | .error f => .error (.io f)
      | .ok contents =>
        if contents.length = e.size then .ok ⟨name, contents⟩
        else .error (.malformedSigners ("entry " ++ name ++ " is truncated"))

/-- The payload entries with their contents, in the order of their names. -/
def files (z : Zip) : Except IdentityFault (List File) := (names z).mapM (readFile z)

/-- What an entry adds to the bytes that are signed. -/
def File.signedBytes (f : File) : Bytes :=
  Bytes.ofString f.name ++ 0 :: (Bytes.ofNatLE 8 f.contents.length ++ f.contents)

/-- The bytes whose digest is signed. -/
def signedBytes (fs : List File) : Bytes := fs.flatMap File.signedBytes

/-- The digest that signatures are made over. -/
def digest (z : Zip) : Except IdentityFault Bytes :=
  (files z).map fun fs => Digest.Sha256.hash (signedBytes fs)

end Payload

end SharedRuntime
