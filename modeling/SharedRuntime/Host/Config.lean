import SharedRuntime.Artifact.Identity
import SharedRuntime.FileSystem.Script
import SharedRuntime.Host.Metadata
import SharedRuntime.Json.Writer

/-!
# The configuration file

The file `updater.config.json` holds the metadata of the host, the keys that it trusts, the version
of the runtime that it expects, and the directory to work in. Every part may be missing.
-/

set_option autoImplicit false

namespace SharedRuntime

/-- Why there is no usable configuration. -/
inductive ConfigFault
  | notFound (file : Path)
  | unreadable (fault : IoFault)
  /-- The file is no JSON text of its form. -/
  | invalidFormat
  | invalidSigner (why : String)
  /-- An update in the background has nobody to tell. -/
  | missingListener
  deriving DecidableEq, Repr

/-- The text of a fault. -/
def ConfigFault.message : ConfigFault → String
  | notFound file => "Config file not found: " ++ file.display
  | unreadable f => "Failed to read config: " ++ f.message
  | invalidFormat => "Invalid config format"
  | invalidSigner why => "Invalid trusted signer: " ++ why
  | missingListener => "Update listener is not set"

/-- The configuration of an updater. -/
structure UpdaterConfig where
  metadata : Metadata
  /-- The texts of the trusted keys. -/
  trustedSigners : List String
  expectedVersion : Option String
  /-- The directory to work in, if it is not the usual one. -/
  baseDir : Option String
  deriving DecidableEq, Repr

namespace UpdaterConfig

/-- A configuration that says nothing. -/
def empty : UpdaterConfig := ⟨[], [], none, none⟩

/-- The name of the file. -/
def fileName : Path := Path.ofString "updater.config.json"

/-- The members of the file. -/
def fieldNames : List String := ["metadata", "trusted_signers", "expected_version", "base_dir"]

/-- Reads a configuration from JSON. -/
def ofJson? (j : Json) : Option UpdaterConfig := do
  match ← Json.record? fieldNames j with
  | [metadata, signers, version, base] =>
    return ⟨Metadata.ofPairs (← Json.optional? [] Json.textMap? metadata),
      ← Json.optional? [] (Json.list? Json.text?) signers,
      ← Json.optional? none (Json.nullable? Json.text?) version,
      ← Json.optional? none (Json.nullable? Json.text?) base⟩
  | _ => failure

/-- A configuration as JSON. -/
def toJson (c : UpdaterConfig) : Json :=
  .object [("metadata", .object (c.metadata.map fun p => (p.1, .text p.2))),
    ("trusted_signers", .arr (c.trustedSigners.map .text)),
    ("expected_version", .textOrNull c.expectedVersion), ("base_dir", .textOrNull c.baseDir)]

/-- The text of a configuration. -/
def text (c : UpdaterConfig) : String := c.toJson.pretty

/-- Reads a configuration from its text. -/
def parse? (text : String) : Option UpdaterConfig := (Json.parse? text).bind ofJson?

/-- Loads a configuration from a file. -/
def loadFile (fs : FileSystem) (p : Path) : Except ConfigFault UpdaterConfig :=
  if !fs.exists? p then .error (.notFound p)
  else match fs.readText p with
    | .error f => .error (.unreadable f)
    | .ok text =>
      match parse? text with
      | some c => .ok c
      | none => .error .invalidFormat

/-- Loads the configuration of a directory. -/
def load (fs : FileSystem) (dir : Path) : Except ConfigFault UpdaterConfig :=
  loadFile fs (Path.join dir fileName)

/-- Saves a configuration in a directory. -/
def save (c : UpdaterConfig) (dir : Path) : Script ConfigFault Unit :=
  Script.withFault .unreadable (Script.write (Path.join dir fileName) (Bytes.ofString c.text))

/-- The identities that the configuration trusts. -/
def trusted (c : UpdaterConfig) : Except ConfigFault (List Identity) :=
  (Identity.ofHexList c.trustedSigners).mapError fun f => .invalidSigner f.message

end UpdaterConfig

end SharedRuntime
