import SharedRuntime.Text.Blank
import SharedRuntime.Update.State

/-!
# Metadata of the host

The host says by name and value where the runtime is loaded from and whether artifacts are
verified. The address that a download asks for names the architecture in its query.
-/

set_option autoImplicit false

namespace SharedRuntime

/-- Values by name, each name once. -/
abbrev Metadata := List (String × String)

namespace Metadata

/-- Gives a name a value, in place of the one that it had. -/
def put (key value : String) : Metadata → Metadata
  | [] => [(key, value)]
  | (k, v) :: rest => if k = key then (k, value) :: rest else (k, v) :: put key value rest

/-- The metadata that pairs give; of a name that occurs again the last value counts. -/
def ofPairs (pairs : List (String × String)) : Metadata :=
  pairs.foldl (fun m p => put p.1 p.2 m) []

/-- The value of a name. -/
def get? (m : Metadata) (key : String) : Option String := m.lookup key

/-- The name of the address to load from. -/
def downloadUrlKey : String := "runtime_download_url"

/-- The name of the switch for verification. -/
def verifyKey : String := "runtime_verify"

/-- The parameter of the query that names the architecture. -/
def archParameter : String := "arch="

/-- The address with the architecture added to its query. -/
def withArch (url arch : String) : String :=
  url ++ (if url.toList.contains '?' then "&" else "?") ++ archParameter ++ arch

/-- The address to load from for an architecture; empty if none is given. -/
def downloadUrl (m : Metadata) (arch : String) : String :=
  match m.get? downloadUrlKey with
  | some url => if trim url = "" then "" else withArch (trim url) arch
  | none => ""

/-- The policy that the metadata ask for. -/
def verificationPolicy (m : Metadata) : VerificationPolicy :=
  VerificationPolicy.ofText (m.get? verifyKey)

end Metadata

end SharedRuntime
