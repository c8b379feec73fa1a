import SharedRuntime.Update.State

/-!
# Download sessions

A session is one transfer as the control side sees it. Whatever a transport reports, in whatever
order, `Session.accept` turns into one stream: the start, rising percentages, and one end.
-/

set_option autoImplicit false

namespace SharedRuntime

/-- What a transfer reports. -/
inductive DownloadOutcome
  | started
  | progress (percent : UInt8)
  | cancelled
  | failed (status : UInt16) (code : UInt32)
  | completed (artifact : Path)
  deriving DecidableEq, Repr

/-- Does nothing follow the outcome? -/
def DownloadOutcome.isTerminal : DownloadOutcome → Bool
  | started => false
  | progress _ => false
  | _ => true

/-- An outcome with the number of the session that it belongs to. -/
structure SessionReport where
  session : Nat
  outcome : DownloadOutcome
  deriving DecidableEq, Repr

/-- How far a session is. -/
inductive SessionPhase
  | notStarted
  | started
  | terminal
  deriving DecidableEq, Repr

/-- A session. -/
structure Session where
  id : Nat
  /-- Was the transport asked to begin? -/
  hasTransfer : Bool
  phase : SessionPhase
  /-- The highest percentage so far. -/
  percent : Option UInt8
  deriving DecidableEq, Repr

namespace Session

/-- A session that has not begun. -/
def new (id : Nat) : Session := ⟨id, false, .notStarted, none⟩

/-- The session once the transport was asked to begin. -/
def start (s : Session) : Session := { s with hasTransfer := true }

/-- May the transfer still report? A request to cancel reaches the transport only then. -/
def isActive (s : Session) : Bool := s.hasTransfer && s.phase != .terminal

/-- The start, if it was not told yet. -/
def opening (s : Session) : List DownloadOutcome :=
  if s.phase = .notStarted then [.started] else []

/-- The percentages that are told: none above a hundred. -/
def percentLimit : UInt8 := 100

/-- Takes in one report: the outcomes to act on, and the session afterwards. Reports of other
sessions and what follows the end are dropped. A start that is missing is put in, a percentage is
at most a hundred, and one that is not higher than those before is dropped. -/
def accept (s : Session) (r : SessionReport) : Session × List DownloadOutcome :=
  if r.session != s.id || s.phase = .terminal then (s, [])
  else
    match r.outcome with
    | .started => ({ s with phase := .started }, s.opening)
    | .progress p =>
      let p := min p percentLimit
      if s.percent.all (· < p) then
        ({ s with phase := .started, percent := some p }, s.opening ++ [.progress p])
      else ({ s with phase := .started }, s.opening)
    | final => ({ s with phase := .terminal }, s.opening ++ [final])

end Session

end SharedRuntime
