import SharedRuntime.Artifact.Payload
import SharedRuntime.Ed25519
import SharedRuntime.FileSystem.Operations
import SharedRuntime.Json.Decode
import SharedRuntime.Json.Writer

/-!
# The signer block

An artifact carries a JSON text with a public key and a signature for each signer. The identities
of an artifact are the keys of its signers, once every signature was found to hold for the payload.
-/

set_option autoImplicit false

namespace SharedRuntime

/-- The entry that holds the signer block. -/
def signersEntry : String := "META-INF/SIGNERS.json"

/-- A signer: the texts of a public key and of a signature. -/
structure Signer where
  publicKey : String
  signature : String
  deriving DecidableEq, Repr

namespace Signer

/-- Reads a signer from JSON. -/
def ofJson? (j : Json) : Option Signer := do
  match ← Json.record? ["public_key", "signature"] j with
  | [key, signature] =>
    return ⟨← Json.required? Json.text? key, ← Json.required? Json.text? signature⟩
  | _ => failure

/-- A signer as JSON. -/
def toJson (s : Signer) : Json :=
  .object [("public_key", .text s.publicKey), ("signature", .text s.signature)]

/-- The size of a signature. -/
def signatureSize : Nat := 64

/-- The identity of signer number `n`, if its signature holds for the digest. -/
def identity (n : Nat) (s : Signer) (digest : Bytes) : Except IdentityFault Identity := do
  let i ← Identity.ofHex s.publicKey
  if !Ed25519.isKey i.key then
    .error (.invalidPublicKey "signature error: Cannot decompress Edwards point")
  else match Hex.decode (trim s.signature) with
    | .error f => .error (.malformedSigners f.message)
    | .ok signature =>
      if signature.length = signatureSize && Ed25519.verify i.key digest signature then .ok i
      else .error (.invalidSignature n)

end Signer

namespace SignerBlock

/-- Reads a signer block from JSON. -/
def ofJson? (j : Json) : Option (List Signer) := do
  match ← Json.record? ["signers"] j with
  | [signers] => Json.required? (Json.list? Signer.ofJson?) signers
  | _ => failure

/-- A signer block as JSON. -/
def toJson (signers : List Signer) : Json :=
  .object [("signers", .arr (signers.map Signer.toJson))]

/-- The text of a signer block. -/
def text (signers : List Signer) : String := (toJson signers).pretty

/-- The signers of an artifact. -/
def read (z : Zip) : Except IdentityFault (List Signer) :=
  match z.openNamed signersEntry with
  | .error f => .error (.archive f)
  | .ok stream =>
    match stream.readAll with
    | .error f => .error (.io f)
    | .ok bytes =>
      match Utf8.decode? bytes with
      | none => .error (.io .notText)
      | some text =>
        match (Json.parse? text).bind ofJson? with
        | none => .error .notSignerBlock
        | some signers => .ok signers

/-- The identities of signers, whose numbers start at `n`. -/
def identitiesFrom (digest : Bytes) : Nat → List Signer → Except IdentityFault (List Identity)
  | _, [] => .ok []
  | n, s :: ss => do
    let i ← s.identity n digest
    let is ← identitiesFrom digest (n + 1) ss
    return i :: is

end SignerBlock

/-- Opens the artifact at a path. -/
def openArtifact (fs : FileSystem) (p : Path) : Except IdentityFault Zip :=
  match fs.locate p with
  | .error f => .error (.io f)
  | .ok (_, .file id) => (Zip.ofBytes (fs.contentsOf id)).mapError .archive
  | .ok _ => .error (.archive (.io (.os .isDirectory)))

/-- The identities that signed an opened artifact. -/
def signedBy (z : Zip) : Except IdentityFault (List Identity) := do
  let signers ← SignerBlock.read z
  let digest ← Payload.digest z
  SignerBlock.identitiesFrom digest 0 signers

/-- The identities that signed the artifact at a path. -/
def artifactIdentities (fs : FileSystem) (p : Path) : Except IdentityFault (List Identity) := do
  signedBy (← openArtifact fs p)

end SharedRuntime
