import SharedRuntime.Archive.Zip.Fault
import SharedRuntime.Hex
import SharedRuntime.Text.Blank

/-!
# Signing identities

An identity is a public key of thirty-two bytes. It is written as hexadecimal text in lower case,
and read from hexadecimal text in either case with blanks around it.
-/

set_option autoImplicit false

namespace SharedRuntime

/-- Why an identity cannot be told. -/
inductive IdentityFault
  | io (fault : IoFault)
  | archive (fault : Zip.Fault)
  /-- The signer block is no JSON text of its form. -/
  | notSignerBlock
  | malformedSigners (why : String)
  | invalidPublicKey (why : String)
  | invalidSignature (signer : Nat)
  | hostUnavailable (why : String)
  deriving DecidableEq, Repr

/-- The text of a fault. -/
def IdentityFault.message : IdentityFault → String
  | io f => "IO error: " ++ f.message
  | archive f => "Archive error: " ++ f.message
  | notSignerBlock => "Malformed signer block"
  | malformedSigners why => "Malformed signer block: " ++ why
  | invalidPublicKey why => "Invalid public key: " ++ why
  | invalidSignature n => "Signature of signer " ++ toString n ++ " does not verify"
  | hostUnavailable why => "Host identity unavailable: " ++ why

/-- The size of a public key. -/
def keySize : Nat := 32

/-- A public key that signs artifacts. -/
structure Identity where
  key : Bytes
  length_key : key.length = keySize
  deriving DecidableEq

namespace Identity

/-- The key as text. -/
def text (i : Identity) : String := Hex.encode i.key

/-- The identity with the given key. -/
def ofKey (key : Bytes) : Except IdentityFault Identity :=
  if h : key.length = keySize then .ok ⟨key, h⟩
  else .error (.invalidPublicKey "expected 32 bytes")

/-- Reads a key from its text. -/
def ofHex (text : String) : Except IdentityFault Identity :=
  match Hex.decode (trim text) with
  | .error f => .error (.invalidPublicKey f.message)
  | .ok key => ofKey key

/-- Reads keys from their texts; the first that is none stops the reading. -/
def ofHexList (texts : List String) : Except IdentityFault (List Identity) := texts.mapM ofHex

end Identity

end SharedRuntime
