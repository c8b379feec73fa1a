import SharedRuntime.FileSystem.Operations

/-!
# Scripts of file operations

A script is a run of file operations that stops at the first fault and keeps what was changed until
then.
-/

set_option autoImplicit false

namespace SharedRuntime

/-- A run of file operations with faults in `ε`. -/
abbrev Script (ε α : Type) := ExceptT ε (StateM FileSystem) α

namespace Script

/-- Runs a script: what it gives, and the file system afterwards. -/
def perform {ε α : Type} (s : Script ε α) (fs : FileSystem) : Except ε α × FileSystem := s fs

/-- A script made of its effect. -/
def ofStep {ε α : Type} (step : FileSystem → Except ε α × FileSystem) : Script ε α :=
  fun fs => step fs

/-- An operation that changes the tree, as a script. -/
def change (op : FileSystem → Except IoFault FileSystem) : Script IoFault Unit :=
  ofStep fun fs =>
    match op fs with
    | .ok fs' => (.ok (), fs')
    | .error f => (.error f, fs)

/-- An operation that only looks at the tree, as a script. -/
def look {ε α : Type} (op : FileSystem → Except ε α) : Script ε α :=
  ofStep fun fs => (op fs, fs)

/-- A result that does not depend on the tree, as a script. -/
def outcome {ε α : Type} (r : Except ε α) : Script ε α := ofStep fun fs => (r, fs)

/-- Stops with a fault. -/
def fail {ε α : Type} (f : ε) : Script ε α := outcome (.error f)

/-- The same script with other faults. -/
def withFault {ε δ α : Type} (f : ε → δ) (s : Script ε α) : Script δ α :=
  ofStep fun fs =>
    match s.perform fs with
    | (.ok a, fs') => (.ok a, fs')
    | (.error e, fs') => (.error (f e), fs')

/-- Goes on after a fault with what it was. -/
def caught {ε δ α : Type} (s : Script ε α) : Script δ (Except ε α) :=
  ofStep fun fs =>
    match s.perform fs with
    | (r, fs') => (.ok r, fs')

/-- Makes a directory with all above it. -/
def makeDirAll (p : Path) : Script IoFault Unit := ofStep fun fs => fs.makeDirAll p

/-- Writes a file. -/
def write (p : Path) (data : Bytes) : Script IoFault Unit := change fun fs => fs.write p data

/-- How the writing of a file that could be opened goes. -/
inductive Writing
  | whole
  /-- It stops with a fault after so many bytes. -/
  | cut (bytes : Nat) (fault : IoFault)
  deriving DecidableEq, Repr

/-- Writes a file as far as the writing goes. What was there before is lost in any case. -/
def writeAs (w : Writing) (p : Path) (data : Bytes) : Script IoFault Unit :=
  match w with
  | .whole => write p data
  | .cut bytes fault => do
    write p (data.take bytes)
    fail fault

end Script

end SharedRuntime
