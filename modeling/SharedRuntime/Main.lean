import SharedRuntime.CommandLine.Disk
import SharedRuntime.CommandLine.Network
import SharedRuntime.CommandLine.Program
import SharedRuntime.CommandLine.Reach
import Std.Time

/-!
# The program on a machine

Takes over from the disk what the run reaches, runs, brings the changes to the disk and prints.
-/

set_option autoImplicit false

namespace SharedRuntime.Machine

/-- Are colours on? -/
def wantsColors : IO Bool := do
  return Terminal.hasColors (← IO.getEnv "CLICOLOR_FORCE") (← IO.getEnv "NO_COLOR")
    (← IO.getEnv "CLICOLOR") (← (← IO.getStdout).isTty)

/-- A name for a transfer, made of random digits. -/
def freshName : IO String := do
  let bytes ← IO.getRandomBytes 16
  let digits := (Hex.encode bytes.toList).toList
  let part (start length : Nat) : String := String.ofList ((digits.drop start).take length)
  return "runtime-" ++ "-".intercalate [part 0 8, part 8 4, part 12 4, part 16 4, part 20 12]

/-- The present. -/
def present : IO Instant := do
  let now ← Std.Time.Timestamp.now
  return Instant.ofNanos now.toNanosecondsSinceUnixEpoch.val.toNat

/-- The surroundings of the program, where no server answers. -/
def environment : IO Environment := do
  let home := (← IO.getEnv "HOME").filter (· != "")
  return ⟨← wantsColors, (← IO.getEnv "XDG_DATA_HOME").map Path.ofString, home.map Path.ofString,
    "x86_64", .unanswered, ← freshName, ← present⟩

/-- Takes over from the disk what a run reaches. -/
def filesFor (env : Environment) (i : Invocation) : IO FileSystem := do
  let fs ← Disk.takeFile (← Disk.start) (Commands.configFile i)
  let reach := Commands.reach env i fs
  let fs ← reach.targets.foldlM (fun fs p => return (← Disk.followPath fs p).1) fs
  let fs ← reach.directories.foldlM Disk.takeDirectory fs
  reach.files.foldlM Disk.takeFile fs

/-- Writes a piece of output. -/
def emit (p : Print) : IO Unit := do
  let stream ← match p.channel with
    | .out => IO.getStdout
    | .err => IO.getStderr
  stream.putStr p.written
  stream.flush

/-- Runs the program on this machine: the exit code. -/
def run (args : List String) : IO UInt32 := do
  let env ← environment
  let (env, fs) ← match Arguments.parse args with
    | .error _ => pure (env, FileSystem.empty)
    | .ok i => do
      let fs ← filesFor env i
      match Commands.plannedAddress? env i fs with
      | some url => pure ({ env with course := ← Network.courseFor url }, fs)
      | none => pure (env, fs)
  let done := Program.run env args fs
  try
    (FileSystem.changes fs done.files).forM Disk.apply
    done.prints.forM emit
    return done.exitCode.toUInt32
  catch e =>
    emit (Terminal.failure env.colors e.toString)
    return 1

end SharedRuntime.Machine

/-- The program. -/
def main (args : List String) : IO UInt32 := SharedRuntime.Machine.run args
