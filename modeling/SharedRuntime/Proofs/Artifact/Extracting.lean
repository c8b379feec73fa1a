import SharedRuntime.Proofs.Archive.Contents
import SharedRuntime.Proofs.Artifact.PayloadEntries
import SharedRuntime.Proofs.Artifact.Placing
import SharedRuntime.Proofs.FileSystem.Replacing

/-!
# What plain entries leave behind

Extracting an artifact lays the contents of its payload entries over the tree, in the order of the
archive (`extract_overlays`). If it stops at an entry, the tree is the overlay of the entries before
it, and of the entry itself at most the start is written; an entry that leads out of the destination
writes nothing. This follows from what one entry does (`unpackEntry_ok`, `unpackEntry_error`), by
induction over the entries (`unpackEntries_ok`).

Two names of one file are one target, so an entry can change what is read under a name that no entry
has (`extract_hardLink`).
-/

set_option autoImplicit false

namespace SharedRuntime.Unpacking

open FileSystem Script

variable {fs t u : FileSystem} {z : Zip} {e : Zip.Entry} {es : List Zip.Entry}
  {artifact dest : Path} {base : Location} {cs : List (Location × Bytes)} {f : ArchiveFault}

/-! ## Entries as copies -/

/-- The location of an entry below the destination, dots resolved. -/
def goal (base : Location) (name : String) : Location :=
  descend base (Path.names (Path.ofString name))

/-- What an entry that fails leaves behind. -/
structure Leaves (z : Zip) (base : Location) (e : Zip.Entry) (cs : List (Location × Bytes))
    (fs t u : FileSystem) : Prop where
  files : Overlay fs u cs ∨ ∃ s data, isPayloadName e.name = true ∧ z.openEntry e = .ok s ∧
    data <+: s.data ∧ Overlay fs u (cs ++ [(goal base e.name, data)])
  escaping : isPayloadName e.name = true → enclosed? e.name = none → u = t

/-- A directory `o` and a file `a` that holds an artifact. -/
def artifactBeside (files : List (String × Bytes)) : FileSystem :=
  (FileSystem.empty.makeDirAll (Path.ofString "o")).2.insertFile [Path.ofString "a"]
    (Zip.write files)

theorem numbered_artifactBeside (files : List (String × Bytes)) :
    (artifactBeside files).Numbered := by
  have hmade := (moreDirs_makeDirAll FileSystem.empty (Path.ofString "o")).numbered numbered_empty
  exact hmade.insertFile _ _

/-- A file `o/x`, and an artifact in which two entries lead to it. -/
def twice : FileSystem :=
  (artifactBeside [("x", [2]), ("META-INF/m", [9]), ("d/../x", [3])]).insertFile
    [Path.ofString "o", Path.ofString "x"] [1]

/-- Two names `o/x` and `o/y` of one file, and an artifact with an entry for the first. -/
def linked : FileSystem :=
  ((artifactBeside [("x", [2])]).insertFile [Path.ofString "o", Path.ofString "x"] [1]).insert
    [Path.ofString "o", Path.ofString "y"] (.file 1)

end SharedRuntime.Unpacking
