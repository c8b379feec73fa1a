import SharedRuntime.Json.Decode

/-!
# The status of the installed runtime
-/

set_option autoImplicit false

namespace SharedRuntime

/-- What is known of the runtime on this machine. -/
inductive RuntimeStatus
  | absent
  /-- Installed and not yet loaded for the first time. -/
  | pendingFirstUse
  /-- Installed, but not in the version that the host expects. -/
  | versionMismatch
  | matched
  /-- The marker cannot be read. -/
  | unknown
  deriving DecidableEq, Repr

namespace RuntimeStatus

/-- Is no update needed? -/
def isSatisfied : RuntimeStatus → Bool
  | pendingFirstUse => true
  | matched => true
  | _ => false

/-- The name of a status. -/
def name : RuntimeStatus → String
  | absent => "absent"
  | pendingFirstUse => "pending_first_use"
  | versionMismatch => "version_mismatch"
  | matched => "matched"
  | unknown => "unknown"

/-- What a user is told of a status. -/
def label : RuntimeStatus → String
  | absent => "not installed"
  | pendingFirstUse => "installed, not yet used"
  | versionMismatch => "version mismatch"
  | matched => "up to date"
  | unknown => "unknown"

/-- A status as JSON. -/
def toJson (s : RuntimeStatus) : Json := .text s.name

/-- Reads a status. -/
def ofJson? (j : Json) : Option RuntimeStatus :=
  Json.variant? ([absent, pendingFirstUse, versionMismatch, matched, unknown].map
    fun s => (s.name, s)) j

end RuntimeStatus

end SharedRuntime
