import SharedRuntime.Artifact.Packing
import SharedRuntime.CommandLine.Arguments
import SharedRuntime.CommandLine.Fault
import SharedRuntime.CommandLine.Terminal
import SharedRuntime.Text.Size
import SharedRuntime.Update.Background

/-!
# Commands

What each command does with the files and what it prints. A command that fails early prints
nothing; one that fails with its result prints the result and then fails (`Report.fault`).
-/

set_option autoImplicit false

namespace SharedRuntime

/-- What the program runs in, apart from the files. -/
structure Environment where
  /-- Are colours on? -/
  colors : Bool
  /-- The directory that the user chose for data. -/
  dataHome : Option Path
  /-- The directory of the user. -/
  home : Option Path
  /-- The architecture that an update asks for. -/
  arch : String
  /-- What a transfer meets on its way. -/
  course : Transfer.Course
  /-- A name that no other transfer has. -/
  transferName : String
  now : Instant

/-- What a command did: its output, and why it failed, if it did. -/
structure Report where
  prints : List Print
  fault : Option CommandFault

/-- A command at work. -/
abbrev Work := Script CommandFault Report

/-- Work that went well. -/
def Report.success (prints : List Print) : Report := ⟨prints, none⟩

namespace Environment

/-- The directory for the data of a user. A relative choice of the user does not count. -/
def dataDirectory (env : Environment) : Option Path :=
  (env.dataHome.filter Path.isAbsolute).or
    (env.home.map fun h => Path.join h (Path.ofString ".local/share"))

/-- The directories that the configuration asks for. -/
def layout (env : Environment) (config : UpdaterConfig) : Except LayoutFault Layout :=
  match config.baseDir with
  | some dir => .ok ⟨Path.ofString dir⟩
  | none => Layout.ofDataDirectory env.dataDirectory

end Environment

namespace Commands

/-- Loads the configuration. One that the arguments name has to be there; the usual one may be
missing. -/
def loadConfig (file : Option Path) (fs : FileSystem) : Except CommandFault UpdaterConfig :=
  match file with
  | some p => (UpdaterConfig.loadFile fs p).mapError (.loading p)
  | none =>
    match UpdaterConfig.loadFile fs UpdaterConfig.fileName with
    | .ok config => .ok config
    | .error (.notFound _) => .ok .empty
    | .error f => .error (.config f)

/-- A path as JSON. -/
def pathJson (p : Path) : Json := .text p.display

/-- The lines about an installed runtime. -/
def markerLines (colors : Bool) (m : Marker) : List Print :=
  Terminal.entry colors "Installed" m.version ::
    (m.installedAt.map fun t => Terminal.entry colors "Installed at" t.offsetText).toList

/-- Shows the status of the installed runtime. -/
def status (env : Environment) (config : UpdaterConfig) (layout : Layout) (json : Bool)
    (fs : FileSystem) : Report :=
  let status := installedStatus fs layout.runtime config.expectedVersion
  let marker := (Marker.load fs (Path.join layout.runtime Marker.fileName)).toOption.join
  .success <|
    if json then
      [.json (.object [("expected_version", .textOrNull config.expectedVersion),
        ("marker", (marker.map Marker.toSortedJson).getD .null),
        ("runtime_dir", pathJson layout.runtime), ("status", status.toJson)])]
    else
      Terminal.heading env.colors "Runtime Status" ++
        [Terminal.entry env.colors "Status" status.label,
          Terminal.entry env.colors "Directory" layout.runtime.display] ++
        (config.expectedVersion.map (Terminal.entry env.colors "Expected")).toList ++
        (marker.map (markerLines env.colors)).getD []

/-- What a user is told of an event. -/
def eventLine (colors : Bool) : UpdateEvent → Print
  | .started => Terminal.info colors "Download started"
  | .progress percent => Terminal.progress colors percent.toNat
  | .completed => Terminal.success colors "Runtime updated"
  | .cancelled => Terminal.warning colors "Update cancelled"
  | .failed e => Terminal.failure colors ("Update failed: " ++ e.message)

/-- What a user is told of the end of an attempt. -/
def outcomeLine (colors : Bool) (outcome : Option UpdateOutcome) : Print :=
  Terminal.entry colors "Result" <|
    match outcome with
    | some .completed => Terminal.paint colors .good "completed"
    | some .cancelled => Terminal.paint colors .halted "cancelled"
    | some (.failed e) => Terminal.paint colors .bad e.message
    | none => "nothing to do"

/-- The failure of a command whose attempt came to an outcome. -/
def outcomeFault (outcome : UpdateOutcome) : Option CommandFault :=
  match outcome.result with
  | .ok () => none
  | .error e => some (.incomplete e)

/-- The report on an attempt, or on there being none. -/
def attemptReport (colors json : Bool) : Option BackgroundRun → Report
  | none =>
    .success [if json then .json (.object [("attempted", .bool false)])
      else Terminal.success colors "Runtime is up to date"]
  | some r =>
    let outcome := r.coordinator.lastOutcome
    ⟨if json then r.events.map fun e => .json e.toJson
      else r.events.map (eventLine colors) ++ [outcomeLine colors outcome],
      outcome.bind outcomeFault⟩

/-- The coordinator of updates of the runtime in a layout, with an address that takes precedence
over the configured one. -/
def coordinatorFor (env : Environment) (config : UpdaterConfig) (layout : Layout)
    (url : Option String) : Coordinator :=
  let c := Coordinator.new
    ⟨.background, config.metadata, env.arch, layout.runtime, layout.downloads⟩
  match url with
  | some url => c.overrideUrl url
  | none => c

/-- Makes ready for an attempt: the directories, what the attempt meets, and its coordinator. -/
def prepareUpdate (env : Environment) (config : UpdaterConfig) (layout : Layout)
    (url : Option String) (clean : Bool) : Script CommandFault (Surroundings × Coordinator) := do
  Script.withFault .layout layout.init
  if clean then
    let _ ← Script.withFault .layout layout.cleanup
  let trusted ← Script.outcome (config.trusted.mapError .config)
  return (⟨trusted, config.expectedVersion, env.course, env.transferName, env.now⟩,
    coordinatorFor env config layout url)

/-- Attempts an update. -/
def update (env : Environment) (config : UpdaterConfig) (layout : Layout) (url : Option String)
    (clean json : Bool) : Work := do
  let (surroundings, coordinator) ← prepareUpdate env config layout url clean
  Script.ofStep fun fs =>
    let run := BackgroundRun.attempt? surroundings ⟨coordinator, fs, []⟩
    (.ok (attemptReport env.colors json run), (run.map BackgroundRun.files).getD fs)

/-- The line for the verdict on an artifact. -/
def verdictLine (colors : Bool) (artifact : Path) (v : Verdict) : Print :=
  if v.passed then Terminal.success colors (artifact.display ++ " verified: " ++ v.reason)
  else Terminal.failure colors (artifact.display ++ " rejected: " ++ v.reason)

/-- Verifies an artifact. -/
def verify (env : Environment) (config : UpdaterConfig) (artifact : Path) (json : Bool)
    (fs : FileSystem) : Except CommandFault Report := do
  let trusted ← (Identity.ofHexList config.trustedSigners).mapError .identity
  let v := verifyArtifact fs trusted artifact
  let print := if json then
      .json (.object [("artifact", pathJson artifact), ("passed", .bool v.passed),
        ("reason", .text v.reason)])
    else verdictLine env.colors artifact v
  return ⟨[print], if v.passed then none else some .rejected⟩

/-- Unpacks an artifact into a directory. -/
def install (env : Environment) (artifact dest : Path) (json : Bool) : Work := do
  Script.withFault .io (Script.makeDirAll dest)
  Script.withFault .installation (Installation.install env.now artifact dest)
  return .success [if json then
      .json (.object [("artifact", pathJson artifact), ("dest", pathJson dest),
        ("installed", .bool true)])
    else Terminal.success env.colors ("Installed into " ++ dest.display)]

/-- Reads a secret key. -/
def readKey (fs : FileSystem) (file : Path) : Except CommandFault Bytes := do
  let text ← (fs.readText file).mapError (.readingKey file)
  let key ← (Hex.decode (trim text)).mapError .malformedKey
  if key.length = keySize then return key else .error .wrongKeySize

/-- Reads a file to be packed, under its name. -/
def readPayload (fs : FileSystem) (file : Path) : Except CommandFault (String × Bytes) := do
  match Path.fileName? file with
  | none => .error (.notAFile file)
  | some name => return (Path.display name, ← (fs.read file).mapError (.reading file))

/-- Packs files into an artifact that is signed with one key. -/
def pack (env : Environment) (output key : Path) (files : List Path) (json : Bool) : Work := do
  let seed ← Script.look fun fs => readKey fs key
  let signer := Hex.encode (Ed25519.publicKey seed)
  let payload ← Script.look fun fs => files.mapM (readPayload fs)
  Script.withFault .identity (packArtifact payload [seed] output)
  let size ← Script.withFault .io (Script.look fun fs => (fs.read output).map List.length)
  return .success <|
    if json then
      [.json (.object [("artifact", pathJson output), ("signer", .text signer),
        ("size", .nat size)])]
    else
      [Terminal.success env.colors ("Packed " ++ output.display ++ " (" ++ Size.text size ++ ")"),
        Terminal.entry env.colors "Signer" signer] ++
        files.map fun f => Terminal.item env.colors f.display

/-- Does what the arguments ask for. -/
def run (env : Environment) (i : Invocation) : Work := do
  let config ← Script.look (loadConfig i.config)
  let layout ← Script.outcome ((env.layout config).mapError .layout)
  match i.command with
  | .status => Script.look fun fs => .ok (status env config layout i.json fs)
  | .update url clean => update env config layout url clean i.json
  | .verify artifact => Script.look (verify env config artifact i.json)
  | .install artifact dest => install env artifact (dest.getD layout.runtime) i.json
  | .pack output key files => pack env output key files i.json

end Commands

end SharedRuntime
