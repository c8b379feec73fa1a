import SharedRuntime.Json.Decode

/-!
# Failures of an update

Every failure of an attempt to update is one of these. As JSON a failure is an object with the kind
and what belongs to it; `ofJson?` reads that object back with its members in either order.
-/

set_option autoImplicit false

namespace SharedRuntime

/-- Why an update failed. -/
inductive UpdateError
  /-- There is no address to load from, or the directories cannot be used. -/
  | configuration (why : String)
  /-- The transfer failed, with the codes of the transport. -/
  | transport (status : UInt16) (code : UInt32)
  /-- The artifact cannot be read or has the wrong identities. -/
  | invalidArtifact (why : String)
  /-- The artifact cannot be unpacked. -/
  | installation (why : String)
  | userCancelled
  deriving DecidableEq, Repr

namespace UpdateError

/-- The text of a failure. -/
def message : UpdateError → String
  | configuration why => "Configuration error: " ++ why
  | transport status code =>
    "Transport error (status " ++ toString status.toNat ++ ", code " ++ toString code.toNat ++ ")"
  | invalidArtifact why => "Invalid artifact: " ++ why
  | installation why => "Installation error: " ++ why
  | userCancelled => "Update cancelled by the user"

/-- The object of a kind with its contents. -/
def kindJson (kind : String) (detail : Json) : Json :=
  .object [("kind", .text kind), ("detail", detail)]

/-- A failure as JSON. -/
def toJson : UpdateError → Json
  | configuration why => kindJson "configuration" (.text why)
  | transport status code =>
    kindJson "transport" (.object [("status", .nat status.toNat), ("code", .nat code.toNat)])
  | invalidArtifact why => kindJson "invalid_artifact" (.text why)
  | installation why => kindJson "installation" (.text why)
  | userCancelled => .object [("kind", .text "user_cancelled")]

/-- Reads the two codes of a transport failure from an object. -/
def transportOfJson? (j : Json) : Option UpdateError :=
  match j with
  | .obj _ => do
    match ← Json.record? ["status", "code"] j with
    | [status, code] =>
      let s ← Json.required? (Json.natUpTo? 65535) status
      let c ← Json.required? (Json.natUpTo? 4294967295) code
      return transport (UInt16.ofNat s) (UInt32.ofNat c)
    | _ => failure
  | _ => none

/-- The kinds of failures, and how what belongs to them is read. -/
def variants : Json.Variants UpdateError :=
  [("configuration", .holds fun _ j => j.text?.map configuration),
   ("transport", .holds fun _ j => transportOfJson? j),
   ("invalid_artifact", .holds fun _ j => j.text?.map invalidArtifact),
   ("installation", .holds fun _ j => j.text?.map installation),
   ("user_cancelled", .unit userCancelled)]

/-- Reads a failure at its place. -/
def ofJsonAt? (p : Json.Place) (j : Json) : Option UpdateError :=
  Json.tagged? p "kind" "detail" variants j

/-- Reads a failure. -/
def ofJson? (j : Json) : Option UpdateError := ofJsonAt? .top j

end UpdateError

end SharedRuntime
