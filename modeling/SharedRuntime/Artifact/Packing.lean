import SharedRuntime.Archive.Zip.Writer
import SharedRuntime.Artifact.SignerBlock
import SharedRuntime.FileSystem.Script

/-!
# Packing artifacts

An artifact is packed by writing its payload, reading it back for the digest, and adding the signer
block with a signature under each key. `packArtifactWith` leaves to its `write` how the bytes of an
archive are laid out; `packArtifact` lays them out as `Zip.write` does.
-/

set_option autoImplicit false

namespace SharedRuntime

/-- The signer that a seed makes for a digest. -/
def Signer.ofSeed (digest seed : Bytes) : Signer :=
  ⟨Hex.encode (Ed25519.publicKey seed), Hex.encode (Ed25519.sign seed digest)⟩

section
variable (write : List (String × Bytes) → Bytes)

/-- The archive of the payload alone. Two files of one name cannot be packed; those before them are
written nevertheless. -/
def packPayload (files : List (String × Bytes)) : Bytes × Except IdentityFault Unit :=
  let (kept, all) := Zip.distinctStart [] files
  (write kept, if all then .ok () else .error (.archive .invalid))

/-- The signer block for a payload, under the given seeds. -/
def signPayload (payload : Bytes) (seeds : List Bytes) : Except IdentityFault (List Signer) := do
  let z ← (Zip.ofBytes payload).mapError .archive
  let digest ← Payload.digest z
  return seeds.map (Signer.ofSeed digest)

/-- Writes an artifact of the given files, signed under the given seeds, to a path. -/
def packArtifactWith (files : List (String × Bytes)) (seeds : List Bytes) (p : Path) :
    Script IdentityFault Unit := do
  let (payload, r) := packPayload write files
  Script.withFault .io (Script.write p payload)
  Script.outcome r
  let signers ← Script.outcome (signPayload payload seeds)
  if files.any fun f => f.1 == signersEntry then Script.fail (.archive .invalid)
  else
    let block := (signersEntry, Bytes.ofString (SignerBlock.text signers))
    Script.withFault .io (Script.write p (write (files ++ [block])))

end

/-- Writes an artifact whose files are kept as they are. -/
def packArtifact : List (String × Bytes) → List Bytes → Path → Script IdentityFault Unit :=
  packArtifactWith Zip.write

end SharedRuntime
