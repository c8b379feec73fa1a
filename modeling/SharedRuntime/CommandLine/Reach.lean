import SharedRuntime.CommandLine.Commands

/-!
# What a run reaches

Which files a run reads, which directories it looks through, and which address it loads from.
Whoever runs a command on a disk and a network has to bring only that.
-/

set_option autoImplicit false

namespace SharedRuntime

/-- The part of a disk that a run reaches. -/
structure Reach where
  /-- The files that are read. -/
  files : List Path
  /-- The directories that are looked through, with all below them. -/
  directories : List Path
  /-- The paths that are written to. -/
  targets : List Path

namespace Commands

/-- The file of the configuration. -/
def configFile (i : Invocation) : Path := i.config.getD UpdaterConfig.fileName

/-- What a command reaches besides its configuration. -/
def reachOf (layout : Layout) : Command → Reach
  | .status => ⟨[Path.join layout.runtime Marker.fileName], [], []⟩
  | .update _ _ =>
    ⟨[Path.join layout.runtime Marker.fileName], [layout.downloads, layout.runtime],
      [layout.logs]⟩
  | .verify artifact => ⟨[artifact], [], []⟩
  | .install artifact dest => ⟨[artifact], [dest.getD layout.runtime], []⟩
  | .pack output key files => ⟨key :: files, [], [output]⟩

/-- What a run reaches besides its configuration; nothing if the configuration is not usable. -/
def reach (env : Environment) (i : Invocation) (fs : FileSystem) : Reach :=
  match loadConfig i.config fs with
  | .error _ => ⟨[], [], []⟩
  | .ok config =>
    match env.layout config with
    | .error _ => ⟨[], [], []⟩
    | .ok layout => reachOf layout i.command

/-- The address of a transfer among effects. -/
def transferAddress? (es : List Effect) : Option String :=
  es.findSome? fun e =>
    match e with
    | .startDownload _ request => some request.url
    | _ => none

/-- The address that a run loads from; none if it loads nothing. -/
def plannedAddress? (env : Environment) (i : Invocation) (fs : FileSystem) : Option String := do
  let .update url clean := i.command | failure
  let config ← (loadConfig i.config fs).toOption
  let layout ← (env.layout config).toOption
  match (prepareUpdate env config layout url clean).perform fs with
  | (.ok (s, c), fs) =>
    let (_, t) := c.attemptUpdate (BackgroundRun.answers s ⟨c, fs, []⟩)
    transferAddress? t.2
  | (.error _, _) => none

end Commands

end SharedRuntime
