import SharedRuntime.Text.Utf8

/-!
# Paths

A path is a byte string in which slashes separate names. Joining, the parent and the extension work
on the text alone; what a path leads to is the file system's business.

Empty segments and single dots name nothing, except for a dot at the start of a relative path.
-/

set_option autoImplicit false

namespace SharedRuntime

/-- The text of a path. -/
abbrev Path := Bytes

namespace Path

/-- The byte `/`. -/
def slash : UInt8 := 0x2F

/-- The byte `.`. -/
def fullStop : UInt8 := 0x2E

/-- The name of a directory within itself. -/
def here : Bytes := [fullStop]

/-- The name of the directory above. -/
def up : Bytes := [fullStop, fullStop]

/-- The path written as a text. -/
def ofString (s : String) : Path := Bytes.ofString s

/-- Does the path start at the root? -/
def isAbsolute (p : Path) : Bool := p.head? == some slash

/-- The pieces between slashes, without the slash at the start of an absolute path. -/
def segments (p : Path) : List Bytes :=
  Bytes.splitOn slash (if isAbsolute p then p.tail else p)

/-- The pieces that are not empty. -/
def names (p : Path) : List Bytes := (Bytes.splitOn slash p).filter fun s => s != []

/-- `p / q`, where an absolute `q` stands for itself. -/
def join (p q : Path) : Path :=
  if isAbsolute q then q
  else if p = [] || p.getLast? == some slash then p ++ q
  else p ++ slash :: q

/-- One step of a path. -/
inductive Step
  | root
  | current
  | parent
  | name (n : Bytes)
  deriving DecidableEq, Repr

/-- The step of a segment; `first` says that it stands at the start of a relative path. -/
def stepOf? (first : Bool) (s : Bytes) : Option Step :=
  if s = [] then none
  else if s = here then (if first then some .current else none)
  else if s = up then some .parent
  else some (.name s)

/-- The steps of a path, in order. -/
def steps (p : Path) : List Step :=
  if isAbsolute p then .root :: (segments p).filterMap (stepOf? false)
  else match segments p with
    | [] => []
    | s :: rest => (stepOf? true s).toList ++ rest.filterMap (stepOf? false)

/-- Drops the segments at the end that name nothing. -/
def dropTrivialEnd (first : Bool) : List Bytes → List Bytes
  | [] => []
  | s :: rest =>
    match dropTrivialEnd false rest with
    | [] => if (stepOf? first s).isSome then [s] else []
    | kept => s :: kept

/-- Segments put together again. -/
def ofSegments (absolute : Bool) (segs : List Bytes) : Path :=
  let body := List.intercalate [slash] segs
  if absolute then slash :: body else body

/-- The path without its last step; `none` for the root and for the empty path. -/
def parent? (p : Path) : Option Path :=
  let first := !isAbsolute p
  match dropTrivialEnd first (segments p) with
  | [] => none
  | kept => some (ofSegments (isAbsolute p) (dropTrivialEnd first kept.dropLast))

/-- The path, its parent, the parent of that, and so on. -/
def ancestorsAux : Nat → Path → List Path
  | 0, p => [p]
  | fuel + 1, p =>
    match parent? p with
    | none => [p]
    | some q => p :: ancestorsAux fuel q

/-- The path and all the paths above it, the longest first. -/
def ancestors (p : Path) : List Path := ancestorsAux p.length p

/-- The name at the end; none for paths that end with the root or with `..`. -/
def fileName? (p : Path) : Option Bytes :=
  match (steps p).getLast? with
  | some (.name n) => some n
  | _ => none

/-- Where the last full stop cuts a name in two. A name that has no other full stop than the one
at its start, or that is `..`, is not cut. -/
def cutAtLastStop (name : Bytes) : Bytes × Option Bytes :=
  if name = up then (name, none)
  else
    let tail := name.reverse.takeWhile (· != fullStop)
    let stem := (name.reverse.drop (tail.length + 1)).reverse
    if tail.length = name.length || stem = [] then (name, none) else (stem, some tail.reverse)

/-- What follows the last full stop of the name at the end. -/
def extension? (p : Path) : Option Bytes := (fileName? p).bind fun n => (cutAtLastStop n).2

/-- Drops what stands behind the last occurrence of the name at the end. -/
def endingWithName (p : Path) : Path :=
  ofSegments (isAbsolute p) (dropTrivialEnd (!isAbsolute p) (segments p))

/-- Puts `extension` in place of what follows the stem; a path without a name stays. -/
def setExtension (p : Path) (extension : Bytes) : Path :=
  match fileName? p with
  | none => p
  | some n =>
    let stem := (cutAtLastStop n).1
    let base := endingWithName p
    let cut := base.take (base.length - n.length + stem.length)
    if extension = [] then cut else cut ++ fullStop :: extension

/-- The path with another extension. The old one is cut off first, its full stop stays until the
stem of what is left is known. -/
def withExtension (p : Path) (extension : Bytes) : Path :=
  match extension? p with
  | none => setExtension p extension
  | some old => setExtension (p.take (p.length - old.length)) extension

/-- The path for a reader, with U+FFFD for what is not UTF-8. -/
def display (p : Path) : String := Utf8.decodeLossy p

end Path

end SharedRuntime
