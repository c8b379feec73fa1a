import SharedRuntime.CommandLine.Commands

/-!
# The program

The program reads its arguments, runs the command that they name and gives an exit code: zero for
success, one for a command that failed, two for arguments that name no command.
-/

set_option autoImplicit false

namespace SharedRuntime

/-- What a run of the program comes to. -/
structure Completion where
  prints : List Print
  exitCode : UInt8
  files : FileSystem

namespace Program

/-- The name and the version. -/
def version : String := "runtime-updater 0.1.0"

/-- How the program is called. -/
def usage : List String :=
  ["Usage: runtime-updater [-c FILE] [-f text|json] COMMAND", "",
    "Commands:",
    "  status                            Show installed runtime status",
    "  update [--url URL] [--clean]      Run a background update attempt",
    "  verify ARTIFACT                   Check an artifact against the trusted signers",
    "  install ARTIFACT [-d DIRECTORY]   Extract an artifact into the runtime directory",
    "  pack -o ARTIFACT -k KEY FILE...   Build a signed artifact"]

/-- What is wrong with the arguments. -/
def complaint : ArgumentFault → String
  | .helpAsked => ""
  | .versionAsked => ""
  | .nothingGiven => "a command is required"
  | .missingCommand => "a command is required"
  | .unknownCommand => "no such command"
  | .unknownArgument => "unexpected argument"
  | .invalidValue => "an option or operand has no valid value"
  | .unexpectedValue => "an option that takes no value has one"
  | .repeated => "an option occurs more than once"
  | .missingArgument => "a required argument is missing"

/-- What is printed where there is nothing to run. -/
def explanation (f : ArgumentFault) : List Print :=
  match f with
  | .helpAsked => usage.map Print.line
  | .versionAsked => [.line version]
  | f => (("error: " ++ complaint f) :: "" :: usage.take 1).map fun t => ⟨.err, t, true⟩

/-- What a command comes to. -/
def completion (colors : Bool) (r : Except CommandFault Report × FileSystem) : Completion :=
  let report : Report := match r.1 with
    | .ok report => report
    | .error f => ⟨[], some f⟩
  ⟨report.prints ++ (report.fault.map fun f => Terminal.failure colors f.message).toList,
    if report.fault.isSome then 1 else 0, r.2⟩

/-- Runs the program. -/
def run (env : Environment) (args : List String) (fs : FileSystem) : Completion :=
  match Arguments.parse args with
  | .error f => ⟨explanation f, f.exitCode, fs⟩
  | .ok i => completion env.colors ((Commands.run env i).perform fs)

end Program

end SharedRuntime
