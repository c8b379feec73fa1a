import SharedRuntime.Artifact.Verification
import SharedRuntime.Host.Metadata
import SharedRuntime.Update.Presentation
import SharedRuntime.Update.Session

/-!
# The coordinator of updates

The coordinator is a state machine for one attempt at a time. A call or a message leads to a new
coordinator and to effects, in order; what transfers and jobs come to reaches it as messages. There
are three queues of messages, each first in first out: results of jobs come before reports of
transfers, and those before choices of the user.

Answers that a call needs at once (the status of the runtime, what the platform says, whether a
transport stops) are given to it as `Answers`.
-/

set_option autoImplicit false

namespace SharedRuntime

/-- What the result of a job says. -/
inductive WorkResult
  | verified (verdict : Verdict)
  | installed (result : Except UpdateError Unit)

/-- What a coordinator works with for all its life. -/
structure Setup where
  presentation : Presentation
  metadata : Metadata
  /-- The architecture that is asked for. -/
  arch : String
  /-- Where the runtime is unpacked. -/
  destination : Path
  /-- Where artifacts are loaded to. -/
  downloads : Path

/-- What the surroundings answer to a call. -/
structure Answers where
  status : RuntimeStatus
  /-- Does the transport take a request to cancel? -/
  cancels : Bool
  openStore : String → Except PlatformFault Unit
  installPackage : Path → Except PlatformFault Unit

/-- The state of the coordinator, with the messages that wait. -/
structure Coordinator where
  setup : Setup
  state : UpdateState
  lastOutcome : Option UpdateOutcome
  urlOverride : Option String
  request : Option UpdateRequest
  session : Option Session
  artifact : Option Path
  /-- The number of the latest session. -/
  lastSession : Nat
  /-- The number of the latest attempt. -/
  attempt : Nat
  work : List WorkResult
  reports : List SessionReport
  actions : List ActionReport

/-- A coordinator with the effects that led to it. -/
abbrev Turn := Coordinator × List Effect

/-- Goes on from the coordinator of a turn; the effects follow one another. -/
def Turn.andThen (t : Turn) (f : Coordinator → Turn) : Turn :=
  let next := f t.1
  (next.1, t.2 ++ next.2)

/-- A message taken from its queue. -/
inductive Incoming
  | work (result : WorkResult)
  | report (report : SessionReport)
  | action (report : ActionReport)

namespace Coordinator

/-- A coordinator before its first attempt. -/
def new (setup : Setup) : Coordinator :=
  ⟨setup, .idle, none, none, none, none, none, 0, 0, [], [], []⟩

/-- Are there dialogs? -/
def isForeground (c : Coordinator) : Bool := c.setup.presentation.isForeground

/-- Does a download run? -/
def isDownloading (c : Coordinator) : Bool := c.state == .downloading

/-- Is a dialog on the screen? -/
def isShowingDialog (c : Coordinator) : Bool :=
  c.isForeground && (c.state == .awaitingUserDecision || c.state == .downloading)

/-- A result of a job arrives. -/
def receiveWork (c : Coordinator) (r : WorkResult) : Coordinator := { c with work := c.work ++ [r] }

/-- A report of a transfer arrives. -/
def receiveReport (c : Coordinator) (r : SessionReport) : Coordinator :=
  { c with reports := c.reports ++ [r] }

/-- A choice of the user arrives. -/
def receiveAction (c : Coordinator) (r : ActionReport) : Coordinator :=
  { c with actions := c.actions ++ [r] }

/-- Loads from `url` instead of the address of the metadata. -/
def overrideUrl (c : Coordinator) (url : String) : Coordinator := { c with urlOverride := some url }

/-- The address to load from. -/
def url (c : Coordinator) : String :=
  c.urlOverride.getD (c.setup.metadata.downloadUrl c.setup.arch)

/-- What the next attempt runs against. -/
def buildRequest (c : Coordinator) : UpdateRequest :=
  ⟨c.url, c.setup.metadata.verificationPolicy, c.setup.destination, c.setup.downloads⟩

/-- Shows or tells an event. -/
def dispatch (event : UpdateEvent) (c : Coordinator) : Turn :=
  (c, c.setup.presentation.present c.attempt event)

/-- How an outcome is shown or told. A failure in the foreground was shown before. -/
def finalEffects (outcome : UpdateOutcome) (c : Coordinator) : List Effect :=
  match outcome with
  | .failed e =>
    if c.isForeground then c.setup.presentation.dismissDialog
    else c.setup.presentation.present c.attempt (.failed e)
  | o => c.setup.presentation.present c.attempt o.event

/-- Ends the attempt: the outcome is told, then the coordinator is idle again. -/
def finish (outcome : UpdateOutcome) (c : Coordinator) : Turn :=
  ({ c with state := .idle, session := none, request := none, lastOutcome := some outcome },
    c.finalEffects outcome)

/-- Ends the attempt with a failure of the configuration. -/
def failConfiguration (why : String) (c : Coordinator) : Turn :=
  c.finish (.failed (.configuration why))

/-- Sends the user to the store. -/
def redirectToStore (a : Answers) (c : Coordinator) : Turn :=
  match c.setup.presentation.openStore a.openStore with
  | (es, some (.ok _)) => ({ c with state := .idle }, es ++ c.setup.presentation.dismissDialog)
  | (es, some (.error f)) => (c, es ++ [.abort f])
  | (_, none) => c.failConfiguration "no store available in background mode"

/-- Begins a download, or does what is left to do without an address. -/
def beginDownload (a : Answers) (c : Coordinator) : Turn :=
  let request := c.buildRequest
  if request.url = "" then
    if c.isForeground then c.redirectToStore a
    else c.failConfiguration "download URL is not configured"
  else
    let id := c.lastSession + 1
    ({ c with state := .downloading, lastSession := id, session := some (Session.new id).start,
              request := some request },
      [.startDownload id request])

/-- Launches an attempt, unless one runs already or the runtime needs no update: then nothing
changes. -/
def attemptUpdate (a : Answers) (c : Coordinator) : Bool × Turn :=
  if !c.state.isIdle || a.status.isSatisfied then (false, c, [])
  else
    let c := { c with attempt := c.attempt + 1 }
    if c.isForeground then
      (true, { c with state := .awaitingUserDecision },
        c.setup.presentation.presentEligibility a.status c.attempt)
    else (true, c.beginDownload a)

/-- Asks the transport to stop the session, if it runs. -/
def cancelSession (c : Coordinator) : List Effect :=
  match c.session with
  | some s => if s.isActive then [.cancelDownload s.id] else []
  | none => []

/-- Cancels a download in the background: whether the transport was asked and takes it. -/
def cancelBackgroundUpdate (a : Answers) (c : Coordinator) : Bool × Turn :=
  if c.isForeground || !c.isDownloading then (false, c, [])
  else
    let es := c.cancelSession
    (!es.isEmpty && a.cancels, c, es)

/-- Takes a choice of the user. One from another attempt is dropped, and so is one that the state
does not offer. -/
def onAction (a : Answers) (r : ActionReport) (c : Coordinator) : Turn :=
  if r.attempt != c.attempt then (c, [])
  else match r.action, c.state with
    | .accept, .awaitingUserDecision => c.beginDownload a
    | .decline, .awaitingUserDecision => c.finish .cancelled
    | .cancelDownload, .downloading => (c, c.cancelSession)
    | _, _ => (c, [])

/-- Shows a failure in the foreground and waits for the user. -/
def offerRetry (error : UpdateError) (c : Coordinator) : Turn :=
  { c with state := .awaitingUserDecision }.dispatch (.failed error)

/-- Hands an artifact to the platform. -/
def handOff (a : Answers) (artifact : Path) (c : Coordinator) : Turn :=
  match c.setup.presentation.handOff a.installPackage artifact with
  | (es, .ok ()) => Turn.andThen (c, es) (finish .completed)
  | (es, .error f) => Turn.andThen (c, es) (offerRetry (.installation f.message))

/-- Ends an attempt that has no artifact to go on with. -/
def failWithoutArtifact (c : Coordinator) : Turn :=
  c.finish (.failed (.invalidArtifact "no artifact"))

/-- Has the artifact unpacked. -/
def startInstall (c : Coordinator) : Turn :=
  match c.artifact with
  | none => c.failWithoutArtifact
  | some p =>
    let destination := (c.request.map UpdateRequest.destination).getD c.setup.destination
    ({ c with state := .installing }, [.install p destination])

/-- Has the artifact verified, or unpacked if it need not be verified. -/
def startVerify (c : Coordinator) : Turn :=
  match c.artifact with
  | none => c.failWithoutArtifact
  | some p =>
    let policy := (c.request.map UpdateRequest.verification).getD .enabled
    if policy.isEnabled then ({ c with state := .verifying }, [.verify p]) else c.startInstall

/-- Acts on an outcome of the running download. -/
def onDownload (a : Answers) (outcome : DownloadOutcome) (c : Coordinator) : Turn :=
  if !c.isDownloading then (c, [])
  else match outcome with
    | .started => c.dispatch .started
    | .progress percent => c.dispatch (.progress percent)
    | .cancelled => { c with session := none }.finish .cancelled
    | .failed status code =>
      let error := UpdateError.transport status code
      let c := { c with session := none }
      if c.isForeground then c.offerRetry error else c.finish (.failed error)
    | .completed artifact =>
      let c := { c with session := none }
      if c.isForeground then c.handOff a artifact
      else { c with artifact := some artifact }.startVerify

/-- Acts on outcomes in order. -/
def onDownloads (a : Answers) : List DownloadOutcome → Coordinator → Turn
  | [], c => (c, [])
  | o :: os, c => (c.onDownload a o).andThen (onDownloads a os)

/-- Takes a report of a transfer. -/
def onReport (a : Answers) (r : SessionReport) (c : Coordinator) : Turn :=
  match c.session with
  | none => (c, [])
  | some s =>
    let (s, outcomes) := s.accept r
    { c with session := some s }.onDownloads a outcomes

/-- Removes the artifact. -/
def deleteArtifact (c : Coordinator) : Turn :=
  match c.artifact with
  | none => (c, [])
  | some p => ({ c with artifact := none }, [.removeFile p])

/-- Takes the result of a job; one that the state does not wait for is dropped. -/
def onWork (r : WorkResult) (c : Coordinator) : Turn :=
  match r, c.state with
  | .verified v, .verifying =>
    if v.passed then c.startInstall
    else c.deleteArtifact.andThen (finish (.failed (.invalidArtifact v.reason)))
  | .installed (.ok ()), .installing => c.deleteArtifact.andThen (finish .completed)
  | .installed (.error e), .installing => c.deleteArtifact.andThen (finish (.failed e))
  | _, _ => (c, [])

/-- The next message, and the coordinator without it. -/
def nextIncoming? (c : Coordinator) : Option (Incoming × Coordinator) :=
  match c.work, c.reports, c.actions with
  | r :: rest, _, _ => some (.work r, { c with work := rest })
  | [], r :: rest, _ => some (.report r, { c with reports := rest })
  | [], [], r :: rest => some (.action r, { c with actions := rest })
  | [], [], [] => none

/-- Takes a message. -/
def handle (a : Answers) (m : Incoming) (c : Coordinator) : Turn :=
  match m with
  | .work r => c.onWork r
  | .report r => c.onReport a r
  | .action r => c.onAction a r

end Coordinator

/-- What comes of taking the next message. -/
inductive Processed
  /-- No attempt runs; nothing was taken. -/
  | idle
  /-- No message waits. -/
  | blocked
  | handled (turn : Turn)

/-- Takes the next message, if an attempt runs. -/
def Coordinator.processNext (a : Answers) (c : Coordinator) : Processed :=
  if c.state.isIdle then .idle
  else match c.nextIncoming? with
    | none => .blocked
    | some (m, c) => .handled (c.handle a m)

end SharedRuntime
