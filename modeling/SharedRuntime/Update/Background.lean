import SharedRuntime.Artifact.Installation
import SharedRuntime.Update.Coordinator
import SharedRuntime.Update.Transfer

/-!
# Attempts in the background

An attempt in the background needs nobody: its transfer, its verification and its installation run
as the coordinator asks for them, and what they come to goes back to it as messages. The run ends
when no message is left to take. The listener was then told the events of the attempt in order.
-/

set_option autoImplicit false

namespace SharedRuntime

/-- What an attempt in the background meets. -/
structure Surroundings where
  /-- The identities that the host trusts. -/
  trusted : List Identity
  /-- The version that the host expects, if it expects one. -/
  expectedVersion : Option String
  /-- What the transfer meets on its way. -/
  course : Transfer.Course
  /-- The name of the file that the transfer writes. -/
  transferName : String
  now : Instant

/-- An attempt on its way: the coordinator, the files, and what the listener was told. -/
structure BackgroundRun where
  coordinator : Coordinator
  files : FileSystem
  events : List UpdateEvent

namespace BackgroundRun

/-- The answers to a call. In the background there is no platform. -/
def answers (s : Surroundings) (r : BackgroundRun) : Answers :=
  ⟨installedStatus r.files r.coordinator.setup.destination s.expectedVersion, true,
    fun uri => .error (.noHandler uri), fun _ => .error (.install "no platform")⟩

/-- Does what an effect asks for. -/
def perform (s : Surroundings) (r : BackgroundRun) : Effect → BackgroundRun
  | .tell event => { r with events := r.events ++ [event] }
  | .startDownload id request =>
    let (outcomes, files) := (Transfer.run s.course request.downloads s.transferName).run r.files
    let reports := outcomes.map (SessionReport.mk id)
    { r with coordinator := reports.foldl Coordinator.receiveReport r.coordinator, files := files }
  | .verify artifact =>
    let verdict := verifyArtifact r.files s.trusted artifact
    { r with coordinator := r.coordinator.receiveWork (.verified verdict) }
  | .install artifact destination =>
    let (result, files) := (Installation.install s.now artifact destination).perform r.files
    { r with coordinator := r.coordinator.receiveWork (.installed result), files := files }
  | .removeFile artifact => { r with files := ((r.files.remove artifact).toOption).getD r.files }
  | _ => r

/-- Goes on with a turn of the coordinator. -/
def take (s : Surroundings) (r : BackgroundRun) (t : Turn) : BackgroundRun :=
  t.2.foldl (perform s) { r with coordinator := t.1 }

/-- Takes messages until none can be taken, at most `fuel` of them. -/
def drain (s : Surroundings) : Nat → BackgroundRun → BackgroundRun
  | 0, r => r
  | fuel + 1, r =>
    match r.coordinator.processNext (r.answers s) with
    | .handled t => drain s fuel (r.take s t)
    | _ => r

/-- The messages that wait. -/
def waiting (r : BackgroundRun) : Nat :=
  r.coordinator.work.length + r.coordinator.reports.length + r.coordinator.actions.length

/-- Takes messages until none can be taken. Those that wait are followed by at most the results of
one verification and one installation. -/
def untilIdle (s : Surroundings) (r : BackgroundRun) : BackgroundRun := drain s (r.waiting + 2) r

/-- Attempts an update: none if the runtime needs no update, else the run once it has ended. -/
def attempt? (s : Surroundings) (r : BackgroundRun) : Option BackgroundRun :=
  match r.coordinator.attemptUpdate (r.answers s) with
  | (true, t) => some (untilIdle s (r.take s t))
  | (false, _) => none

end BackgroundRun

end SharedRuntime
