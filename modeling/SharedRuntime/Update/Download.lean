import SharedRuntime.Update.Session

/-!
# Downloads

The control side of a transfer: a session together with the handle that the transport gave for it.
The transport itself is not here. What it answers stands in the calls, so that every transport and
every order of calls is covered.
-/

set_option autoImplicit false

namespace SharedRuntime

/-- A session and the handle of its transfer. -/
structure Download where
  session : Session
  /-- What the transport answered when it was last asked to begin. -/
  handle : Option Nat
  agree : session.hasTransfer = handle.isSome

/-- One call on a download, with the transport's part in it. -/
inductive DownloadCall
  /-- The transport is asked to begin and gives a handle. -/
  | start (handle : Nat)
  | accept (report : SessionReport)
  /-- For each handle: does the transport take a request to stop it? -/
  | cancel (takes : Nat → Bool)

/-- What one call gives back. -/
inductive DownloadReply
  | began (handle : Nat)
  | accepted (outcomes : List DownloadOutcome)
  /-- The handle that the transport was asked to stop, if it was asked, and the result. -/
  | cancelled (asked : Option Nat) (result : Bool)
  deriving DecidableEq, Repr

theorem Session.accept_hasTransfer (s : Session) (r : SessionReport) :
    (s.accept r).1.hasTransfer = s.hasTransfer := by
  unfold accept
  split
  · rfl
  · split
    · rfl
    · dsimp only
      split <;> rfl
    · rfl

namespace Download

/-- A download that has not begun. -/
def new (id : Nat) : Download := ⟨.new id, none, rfl⟩

/-- The download once the transport began and gave a handle. -/
def start (d : Download) (handle : Nat) : Download := ⟨d.session.start, some handle, rfl⟩

/-- Takes in one report. -/
def accept (d : Download) (r : SessionReport) : Download × List DownloadOutcome :=
  (⟨(d.session.accept r).1, d.handle, (d.session.accept_hasTransfer r).trans d.agree⟩,
    (d.session.accept r).2)

/-- Asks for a cancellation: the handle that the transport is asked to stop and what it answers.
When nothing runs, the transport is not asked and the answer is no. -/
def cancel (d : Download) (takes : Nat → Bool) : Option Nat × Bool :=
  match d.handle with
  | some h => if d.session.phase != .terminal then (some h, takes h) else (none, false)
  | none => (none, false)

/-- One call: the download afterwards and what the call gives back. -/
def call (d : Download) : DownloadCall → Download × DownloadReply
  | .start handle => (d.start handle, .began handle)
  | .accept r => ((d.accept r).1, .accepted (d.accept r).2)
  | .cancel takes => (d, .cancelled (d.cancel takes).1 (d.cancel takes).2)

/-- Calls in order. -/
def calls (d : Download) : List DownloadCall → Download × List DownloadReply
  | [] => (d, [])
  | c :: cs => (((d.call c).1.calls cs).1, (d.call c).2 :: ((d.call c).1.calls cs).2)

end Download

end SharedRuntime
