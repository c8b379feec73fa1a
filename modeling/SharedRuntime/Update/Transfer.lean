import SharedRuntime.FileSystem.Script
import SharedRuntime.Update.Session

/-!
# Transfers

A transfer loads an artifact into a directory. It is written under a name of its own that ends in
`.partial` and takes its final name once it is complete. What a transfer meets on its way is given
to it as a `Course`: the reply of the server, piece by piece, when a request to cancel becomes
visible, and which file operations the disk refuses.

A transfer reports its start, its progress where the server announced a size, and one end.
-/

set_option autoImplicit false

namespace SharedRuntime

namespace Transfer

/-- The code of a failure that is not known further. -/
def unknownFailure : UInt32 := 1000

/-- The code of a failure of the disk. -/
def fileFailure : UInt32 := 1001

/-- The code of a reply that is no success. -/
def statusFailure : UInt32 := 1002

/-- The code of a broken connection. -/
def dataFailure : UInt32 := 1004

/-- A successful or unsuccessful reply of a server. -/
structure Reply where
  status : UInt16
  /-- The announced size; zero if there is none. -/
  size : Nat
  /-- The pieces of the body as they arrive. -/
  chunks : List Bytes
  /-- Does the body break off after the pieces? -/
  breaksOff : Bool

/-- A step at which the disk may refuse. -/
inductive FileStep
  | makeDirectory
  | create
  /-- Writing the piece of that number. -/
  | write (chunk : Nat)
  | flush
  | rename

/-- What a transfer meets on its way. -/
structure Course where
  /-- The reply, or the status that goes with its absence. -/
  reply : Except UInt16 Reply
  /-- Is a request to cancel visible at the check of that number? The reply is waited for at check
  zero, piece `n` at check `n + 1`. -/
  cancelledAt : Nat → Bool
  refuses : FileStep → Bool

/-- A course without any reply, in which nobody cancels. -/
def Course.unanswered : Course := ⟨.error 0, fun _ => false, fun _ => false⟩

/-- How loading ended. -/
inductive Ending
  | done
  | cancelled
  | failed (status : UInt16) (code : UInt32)
  deriving DecidableEq, Repr

/-- The largest number of sixty-four bits. -/
def countLimit : Nat := Nat.pow 2 64 - 1

/-- The percentage for `loaded` of `size` bytes. -/
def percentOf (loaded size : Nat) : UInt8 :=
  UInt8.ofNat (min (min (loaded * 100) countLimit / size) 100)

/-- The status codes of a success. -/
def isSuccess (status : UInt16) : Bool := 200 ≤ status && status < 300

/-- The percentage to report after a piece, unless it was reported just before. -/
def progressAfter (loaded size : Nat) (last : Option UInt8) : Option UInt8 :=
  if size = 0 then none
  else
    let p := percentOf loaded size
    if last = some p then none else some p

/-- Runs a file operation that the disk may refuse: whether it was done. -/
def attempt (refused : Bool) (op : Script IoFault Unit) : StateM FileSystem Bool := do
  if refused then return false
  match ← op.run with
  | .ok () => return true
  | .error _ => return false

/-- Loads the pieces of a body into a file. `index` counts the pieces, `loaded` is what was
written, `last` the percentage reported last. Gives the percentages and the ending. -/
def loadBody (course : Course) (r : Reply) (file : Path) :
    Nat → Bytes → Option UInt8 → List Bytes → StateM FileSystem (List UInt8 × Ending)
  | index, _, _, [] =>
    if course.cancelledAt (index + 1) then return ([], .cancelled)
    else if r.breaksOff then return ([], .failed r.status dataFailure)
    else if course.refuses .flush then return ([], .failed r.status fileFailure)
    else return ([], .done)
  | index, loaded, last, chunk :: chunks => do
    if course.cancelledAt (index + 1) then return ([], .cancelled)
    else
      let loaded := loaded ++ chunk
      if !(← attempt (course.refuses (.write index)) (Script.write file loaded)) then
        return ([], .failed r.status fileFailure)
      else
        let step := progressAfter loaded.length r.size last
        let (ps, e) ← loadBody course r file (index + 1) loaded (step.or last) chunks
        return (step.toList ++ ps, e)

/-- Loads the reply to a request into a file. -/
def load (course : Course) (file : Path) : StateM FileSystem (List UInt8 × Ending) := do
  let made ← match Path.parent? file with
    | some dir => attempt (course.refuses .makeDirectory) (Script.makeDirAll dir)
    | none => pure true
  if !made then return ([], .failed 0 fileFailure)
  else if course.cancelledAt 0 then return ([], .cancelled)
  else match course.reply with
    | .error status => return ([], .failed status dataFailure)
    | .ok r =>
      if !isSuccess r.status then return ([], .failed r.status statusFailure)
      else if !(← attempt (course.refuses .create) (Script.write file [])) then
        return ([], .failed r.status fileFailure)
      else loadBody course r file 0 [] none r.chunks

/-- Removes an unfinished file, if it is there. -/
def removePartial (file : Path) : StateM FileSystem Unit :=
  modify fun fs => ((fs.remove file).toOption).getD fs

/-- The file while it is written. -/
def partialPath (dir : Path) (name : String) : Path :=
  Path.join dir (Path.ofString (name ++ ".partial"))

/-- The file once it is complete. -/
def finalPath (dir : Path) (name : String) : Path := Path.join dir (Path.ofString (name ++ ".pkg"))

/-- Runs a transfer into a directory, under a name that no other transfer has: all that it
reports. -/
def run (course : Course) (dir : Path) (name : String) :
    StateM FileSystem (List DownloadOutcome) := do
  let file := partialPath dir name
  let (ps, e) ← load course file
  let opening := DownloadOutcome.started :: ps.map .progress
  match e with
  | .done =>
    if ← attempt (course.refuses .rename)
        (Script.change fun fs => fs.rename file (finalPath dir name)) then
      return opening ++ [.completed (finalPath dir name)]
    else
      removePartial file
      return opening ++ [.failed 0 fileFailure]
  | .cancelled =>
    removePartial file
    return opening ++ [.cancelled]
  | .failed status code =>
    removePartial file
    return opening ++ [.failed status code]

/-- What a transfer reports that nothing can run. -/
def withoutRunner : List DownloadOutcome := [.started, .failed 0 unknownFailure]

end Transfer

/-- What a transport knows of its transfers. -/
structure Transport where
  /-- The session that began last. -/
  latest : Option Nat
  /-- Is its transfer on the way? -/
  isRunning : Bool
  deriving DecidableEq, Repr

namespace Transport

/-- A transport that nobody has used. -/
def new : Transport := ⟨none, false⟩

/-- Begins a transfer. It is on its way only if something can run it. -/
def start (hasRunner : Bool) (session : Nat) : Transport := ⟨some session, hasRunner⟩

/-- The transport once its transfer has ended. -/
def finish (t : Transport) : Transport := { t with isRunning := false }

/-- Is a request to cancel the transfer of a session taken? Only the latest one can be cancelled,
and only while it is on its way. -/
def cancels (t : Transport) (session : Nat) : Bool := t.isRunning && t.latest == some session

end Transport

end SharedRuntime
