import SharedRuntime.FileSystem.Script
import SharedRuntime.Installed.Status
import SharedRuntime.Json.Writer
import SharedRuntime.Time.Rfc3339

/-!
# The marker of an installed runtime

An unpacked runtime carries a file `runtime.json` with its version. The installer notes in it when
the runtime was installed and that it was not yet used. The status of a runtime is read off its
marker.
-/

set_option autoImplicit false

namespace SharedRuntime

/-- The contents of a marker. -/
structure Marker where
  version : String
  pendingFirstUse : Bool
  installedAt : Option Instant
  deriving DecidableEq, Repr

namespace Marker

/-- The name of the marker in the directory of the runtime. -/
def fileName : Path := Path.ofString "runtime.json"

/-- Reads a timestamp. -/
def instantOfJson? (j : Json) : Option Instant := j.text?.bind Instant.parse?

/-- Reads a marker. Only the version has to be there. -/
def ofJson? (j : Json) : Option Marker := do
  match ← Json.record? ["version", "pending_first_use", "installed_at"] j with
  | [version, pending, installed] =>
    return ⟨← Json.required? Json.text? version, ← Json.optional? false Json.bool? pending,
      ← Json.optional? none (Json.nullable? instantOfJson?) installed⟩
  | _ => failure

/-- A marker as JSON. -/
def toJson (m : Marker) : Json :=
  .object [("version", .text m.version), ("pending_first_use", .bool m.pendingFirstUse),
    ("installed_at", .textOrNull (m.installedAt.map Instant.text))]

/-- A marker as JSON, its members in the order of their names. -/
def toSortedJson (m : Marker) : Json :=
  .object [("installed_at", .textOrNull (m.installedAt.map Instant.text)),
    ("pending_first_use", .bool m.pendingFirstUse), ("version", .text m.version)]

/-- The text of a marker. -/
def text (m : Marker) : String := m.toJson.pretty

/-- Reads a marker from its text. -/
def parse? (text : String) : Option Marker := (Json.parse? text).bind ofJson?

/-- The marker at a path; none if nothing is there. -/
def load (fs : FileSystem) (p : Path) : Except IoFault (Option Marker) :=
  if !fs.exists? p then .ok none
  else match fs.readText p with
    | .error f => .error f
    | .ok text =>
      match parse? text with
      | some m => .ok (some m)
      | none => .error (.badData "not a marker")

/-- The file that a marker is written to before it takes its name. -/
def temporary (p : Path) : Path := p.withExtension (Bytes.ofString "tmp")

/-- Saves a marker: it is written beside its place, as far as that goes, and then takes its name. -/
def saveAs (w : Script.Writing) (m : Marker) (p : Path) : Script IoFault Unit := do
  Script.writeAs w (temporary p) (Bytes.ofString m.text)
  Script.change fun fs => fs.rename (temporary p) p

/-- Saves a marker where its whole text can be written. -/
def save (m : Marker) (p : Path) : Script IoFault Unit := saveAs .whole m p

/-- The status that a marker tells. Blanks around a version do not matter. -/
def status (expected : Option String) (m : Marker) : RuntimeStatus :=
  if expected.any fun v => trim m.version != trim v then .versionMismatch
  else if m.pendingFirstUse then .pendingFirstUse
  else .matched

end Marker

/-- The status of the runtime in a directory, where a host expects a version or takes any. -/
def installedStatus (fs : FileSystem) (dir : Path) (expected : Option String) : RuntimeStatus :=
  match Marker.load fs (Path.join dir Marker.fileName) with
  | .ok (some m) => m.status expected
  | .ok none => .absent
  | .error _ => .unknown

end SharedRuntime
