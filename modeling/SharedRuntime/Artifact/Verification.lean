import SharedRuntime.Artifact.SignerBlock

/-!
# Verification of artifacts

An artifact passes if its identities are those that the host trusts, in the same order.
-/

set_option autoImplicit false

namespace SharedRuntime

/-- The result of a verification. -/
inductive Verdict
  | matching
  | invalidArtifact
  | noSignatures
  | countDiffers
  | differs (index : Nat)
  deriving DecidableEq, Repr

namespace Verdict

/-- Did the artifact pass? -/
def passed : Verdict → Bool
  | matching => true
  | _ => false

/-- The reason for the result. -/
def reason : Verdict → String
  | matching => "signatures match"
  | invalidArtifact => "invalid artifact"
  | noSignatures => "no signatures"
  | countDiffers => "signature count differs"
  | differs i => "signature " ++ toString i ++ " does not match"

end Verdict

/-- The first place, counted from `n`, where two lists differ. -/
def firstDifference? : Nat → List Identity → List Identity → Option Nat
  | n, h :: hs, a :: as => if h = a then firstDifference? (n + 1) hs as else some n
  | _, _, _ => none

/-- Compares the identities of the host with those of an artifact. -/
def compareIdentities (host artifact : List Identity) : Verdict :=
  if host = [] || artifact = [] then .noSignatures
  else if host.length != artifact.length then .countDiffers
  else match firstDifference? 0 host artifact with
    | some i => .differs i
    | none => .matching

/-- The verdict on what the artifact and the host say about their identities. -/
def verdict (artifact host : Except IdentityFault (List Identity)) : Verdict :=
  match artifact, host with
  | .ok a, .ok h => compareIdentities h a
  | _, _ => .invalidArtifact

/-- Verifies the artifact at a path against trusted identities. -/
def verifyArtifact (fs : FileSystem) (trusted : List Identity) (p : Path) : Verdict :=
  verdict (artifactIdentities fs p) (.ok trusted)

end SharedRuntime
