import SharedRuntime.Update.Failure
import SharedRuntime.FileSystem.Path

/-!
# States, outcomes and events of an update

What one attempt to update runs against, the state that it is in, how it ended, and what the host
is told on the way.
-/

set_option autoImplicit false

namespace SharedRuntime

/-- Does an artifact have to pass verification? -/
inductive VerificationPolicy
  | enabled
  | disabled
  deriving DecidableEq, Repr

namespace VerificationPolicy

/-- The policy that a text of the configuration asks for. Only `disable` and `false`, in either
case, switch verification off. -/
def ofText : Option String → VerificationPolicy
  | some s => if eqIgnoringCase s "disable" || eqIgnoringCase s "false" then disabled else enabled
  | none => enabled

/-- Does the policy ask for verification? -/
def isEnabled : VerificationPolicy → Bool
  | enabled => true
  | disabled => false

/-- The name of a policy. -/
def name : VerificationPolicy → String
  | enabled => "enabled"
  | disabled => "disabled"

/-- A policy as JSON. -/
def toJson (p : VerificationPolicy) : Json := .text p.name

/-- Reads a policy. -/
def ofJson? (j : Json) : Option VerificationPolicy :=
  Json.variant? [("enabled", enabled), ("disabled", disabled)] j

end VerificationPolicy

/-- What one attempt runs against. -/
structure UpdateRequest where
  /-- The address to load from; empty if none is configured. -/
  url : String
  verification : VerificationPolicy
  /-- Where the runtime is unpacked. -/
  destination : Path
  /-- Where the artifact is loaded to. -/
  downloads : Path
  deriving DecidableEq, Repr

/-- How an attempt ended. -/
inductive UpdateOutcome
  | completed
  | cancelled
  | failed (error : UpdateError)
  deriving DecidableEq, Repr

/-- What the host is told. -/
inductive UpdateEvent
  | started
  | progress (percent : UInt8)
  | cancelled
  | failed (error : UpdateError)
  | completed
  deriving DecidableEq, Repr

/-- Where an attempt is. -/
inductive UpdateState
  | idle
  /-- A dialog waits for the user. -/
  | awaitingUserDecision
  | downloading
  | verifying
  | installing
  | terminal (outcome : UpdateOutcome)
  deriving DecidableEq, Repr, Inhabited

namespace UpdateOutcome

/-- The event that tells an outcome. -/
def event : UpdateOutcome → UpdateEvent
  | completed => .completed
  | cancelled => .cancelled
  | failed e => .failed e

/-- Only a completed attempt is a success. -/
def result : UpdateOutcome → Except UpdateError Unit
  | completed => .ok ()
  | cancelled => .error .userCancelled
  | failed e => .error e

/-- An outcome as JSON. -/
def toJson : UpdateOutcome → Json
  | completed => .object [("outcome", .text "completed")]
  | cancelled => .object [("outcome", .text "cancelled")]
  | failed e => .object [("outcome", .text "failed"), ("error", e.toJson)]

/-- The outcomes by name. -/
def variants : Json.Variants UpdateOutcome :=
  [("completed", .unit completed), ("cancelled", .unit cancelled),
   ("failed", .holds fun p j => (UpdateError.ofJsonAt? p j).map failed)]

/-- Reads an outcome at its place. -/
def ofJsonAt? (p : Json.Place) (j : Json) : Option UpdateOutcome :=
  Json.tagged? p "outcome" "error" variants j

/-- Reads an outcome. -/
def ofJson? (j : Json) : Option UpdateOutcome := ofJsonAt? .top j

end UpdateOutcome

namespace UpdateState

/-- Is no attempt in progress? -/
def isIdle : UpdateState → Bool
  | idle => true
  | _ => false

/-- Has an attempt ended that was not yet told? -/
def isTerminal : UpdateState → Bool
  | terminal _ => true
  | _ => false

/-- A state as JSON. -/
def toJson : UpdateState → Json
  | idle => .object [("state", .text "idle")]
  | awaitingUserDecision => .object [("state", .text "awaiting_user_decision")]
  | downloading => .object [("state", .text "downloading")]
  | verifying => .object [("state", .text "verifying")]
  | installing => .object [("state", .text "installing")]
  | terminal o => .object [("state", .text "terminal"), ("outcome", o.toJson)]

/-- The states by name. -/
def variants : Json.Variants UpdateState :=
  [("idle", .unit idle), ("awaiting_user_decision", .unit awaitingUserDecision),
   ("downloading", .unit downloading), ("verifying", .unit verifying),
   ("installing", .unit installing),
   ("terminal", .holds fun p j => (UpdateOutcome.ofJsonAt? p j).map terminal)]

/-- Reads a state. -/
def ofJson? (j : Json) : Option UpdateState := Json.tagged? .top "state" "outcome" variants j

end UpdateState

namespace UpdateEvent

/-- An event as JSON. -/
def toJson : UpdateEvent → Json
  | started => .object [("event", .text "started")]
  | progress p => .object [("event", .text "progress"), ("data", .nat p.toNat)]
  | cancelled => .object [("event", .text "cancelled")]
  | failed e => .object [("event", .text "failed"), ("data", e.toJson)]
  | completed => .object [("event", .text "completed")]

/-- The events by name. -/
def variants : Json.Variants UpdateEvent :=
  [("started", .unit started),
   ("progress", .holds fun _ j => (j.natUpTo? 255).map fun p => progress (UInt8.ofNat p)),
   ("cancelled", .unit cancelled),
   ("failed", .holds fun p j => (UpdateError.ofJsonAt? p j).map failed),
   ("completed", .unit completed)]

/-- Reads an event. -/
def ofJson? (j : Json) : Option UpdateEvent := Json.tagged? .top "event" "data" variants j

end UpdateEvent

end SharedRuntime
