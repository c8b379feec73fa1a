import SharedRuntime.Archive.Gzip
import SharedRuntime.Archive.Tar.Unpack
import SharedRuntime.Artifact.Payload

/-!
# Unpacking artifacts

An artifact holds plain files, or files and tarballs that are compressed. Whether it does is told by
the first bytes of its entries. Plain entries are copied; compressed ones are decompressed, a
tarball into the directory where it would stand.

The name of an entry is its path below the destination. A name that leads out of it stops the
unpacking; what was written before stays.
-/

set_option autoImplicit false

namespace SharedRuntime

/-- Why an artifact cannot be unpacked. -/
inductive ArchiveFault
  | io (fault : IoFault)
  | archive (fault : Zip.Fault)
  | unsafePath (name : String)
  deriving DecidableEq, Repr

/-- The text of a fault. -/
def ArchiveFault.message : ArchiveFault → String
  | io f => "IO error: " ++ f.message
  | archive f => "Archive error: " ++ f.message
  | unsafePath name => "Entry escapes the destination: " ++ name

namespace Unpacking

open Script

/-- How deep below its start a path ends; none if it is absolute or climbs above its start. -/
def depth? : Nat → List Path.Step → Option Nat
  | d, [] => some d
  | _, .root :: _ => none
  | d, .current :: steps => depth? d steps
  | 0, .parent :: _ => none
  | d + 1, .parent :: steps => depth? d steps
  | d, .name _ :: steps => depth? (d + 1) steps

/-- The path that a name gives below a directory, if it stays there. -/
def enclosed? (name : String) : Option Path :=
  let p := Path.ofString name
  if p.any (· == 0) then none
  else (depth? 0 (Path.steps p)).map fun _ => p

/-- Where an entry goes; `none` for an entry that is not unpacked. -/
def target? (dest : Path) (name : String) : Except ArchiveFault (Option Path) :=
  if isPayloadName name then
    match enclosed? name with
    | some p => .ok (some (Path.join dest p))
    | none => .error (.unsafePath name)
  else .ok none

/-- Opens the archive at a path. -/
def openZip (fs : FileSystem) (p : Path) : Except ArchiveFault Zip :=
  match fs.locate p with
  | .error f => .error (.io f)
  | .ok (_, .file id) => (Zip.ofBytes (fs.contentsOf id)).mapError .archive
  | .ok _ => .error (.archive (.io (.os .isDirectory)))

/-- Is the entry passed over when compressed entries are looked for? -/
def isSkipped (name : String) : Bool :=
  isDirectoryName name || name.toList.getLast? == some '\\' || isMetaName name

/-- Is one of the entries compressed? Entries after the first such are not read. -/
def anyCompressed (z : Zip) : List Zip.Entry → Except ArchiveFault Bool
  | [] => .ok false
  | e :: es =>
    match z.openEntry e with
    | .error f => .error (.archive f)
    | .ok stream =>
      if isSkipped e.name then anyCompressed z es
      else match stream.peek Gzip.magic.length with
        | .error f => .error (.io f)
        | .ok head => if head = Gzip.magic then .ok true else anyCompressed z es

/-- Does the artifact at a path hold compressed entries? -/
def isCompressed (fs : FileSystem) (artifact : Path) : Except ArchiveFault Bool := do
  let z ← openZip fs artifact
  anyCompressed z z.entries

/-- Makes the directory that a path stands in. -/
def makeParent (p : Path) : Script ArchiveFault Unit :=
  match Path.parent? p with
  | some parent => withFault .io (makeDirAll parent)
  | none => pure ()

/-- Writes what can be read of a stream to a file. -/
def copyTo (p : Path) (s : ByteStream) : Script ArchiveFault Unit := do
  withFault .io (write p s.copied)
  match s.fault with
  | none => pure ()
  | some f => fail (.io f)

/-- Writes a stream to a file whose directory may be missing. -/
def place (p : Path) (s : ByteStream) : Script ArchiveFault Unit := do
  makeParent p
  copyTo p s

/-- Does the name end with the given letters? -/
def hasEnding (ending name : String) : Bool := ending.toList.isSuffixOf name.toList

/-- Is the name that of a compressed tarball? -/
def isTarball (name : String) : Bool := hasEnding ".tar.gz" name || hasEnding ".tgz" name

/-- The file that a compressed entry becomes. -/
def decompressedPath (name : String) (p : Path) : Path :=
  if hasEnding ".gz" name then p.withExtension [] else p

/-- Unpacks one entry, decompressing it if its contents are compressed, which is told by what the
first read of a copy gives. -/
def decompressEntry (name : String) (p : Path) (s : ByteStream) : Script ArchiveFault Unit := do
  let (head, _) ← outcome ((s.read ByteStream.copySize).mapError .io)
  if !Bytes.startsWith Gzip.magic head then place p s
  else if isTarball name then
    let base := (Path.parent? p).getD p
    withFault .io (makeDirAll base)
    withFault .io (Tar.unpack (Gzip.unzip s) base)
  else place (decompressedPath name p) (Gzip.unzip s)

/-- What is done with an entry: its name, its path and its contents. -/
abbrev EntryAction := String → Path → ByteStream → Script ArchiveFault Unit

/-- Goes through entries in order and unpacks those that belong to the payload. -/
def eachEntry (action : EntryAction) (z : Zip) (dest : Path) :
    List Zip.Entry → Script ArchiveFault Unit
  | [] => pure ()
  | e :: es => do
    let stream ← outcome ((z.openEntry e).mapError .archive)
    match ← outcome (target? dest e.name) with
    | none => pure ()
    | some p => action e.name p stream
    eachEntry action z dest es

/-- Unpacks the artifact at a path below a directory, entry by entry. -/
def unpackWith (action : EntryAction) (artifact dest : Path) : Script ArchiveFault Unit := do
  let z ← look fun fs => openZip fs artifact
  withFault .io (makeDirAll dest)
  eachEntry action z dest z.entries

/-- Copies the plain entries of an artifact. -/
def extract (artifact dest : Path) : Script ArchiveFault Unit :=
  unpackWith (fun _ p s => place p s) artifact dest

/-- Unpacks an artifact with compressed entries. -/
def decompress (artifact dest : Path) : Script ArchiveFault Unit :=
  unpackWith decompressEntry artifact dest

end Unpacking

end SharedRuntime
