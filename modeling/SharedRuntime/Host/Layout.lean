import SharedRuntime.FileSystem.Script

/-!
# The directories of the updater

Below one directory there are places for what is being loaded, for the runtime and for logs.
Cleaning up removes the files among what is being loaded; it goes through the directory in any
order.
-/

set_option autoImplicit false

namespace SharedRuntime

/-- Why the directories cannot be used. -/
inductive LayoutFault
  /-- It is not known where data of a user belong. -/
  | noDataDirectory
  | io (fault : IoFault)
  deriving DecidableEq, Repr

/-- The text of a fault. -/
def LayoutFault.message : LayoutFault → String
  | noDataDirectory => "Could not determine data directory"
  | io f => "IO error: " ++ f.message

/-- The directories of an updater, by the one that holds them all. -/
structure Layout where
  base : Path
  deriving DecidableEq, Repr

namespace Layout

/-- The name of the directory among the data of a user. -/
def directoryName : Path := Path.ofString "runtime-updater"

/-- The layout in the directory for the data of a user. -/
def ofDataDirectory : Option Path → Except LayoutFault Layout
  | some dir => .ok ⟨Path.join dir directoryName⟩
  | none => .error .noDataDirectory

/-- Where artifacts are loaded to. -/
def downloads (l : Layout) : Path := Path.join l.base (Path.ofString "downloads")

/-- Where the runtime is unpacked. -/
def runtime (l : Layout) : Path := Path.join l.base (Path.ofString "runtime")

/-- Where logs are kept. -/
def logs (l : Layout) : Path := Path.join l.base (Path.ofString "logs")

/-- Makes all directories. -/
def init (l : Layout) : Script LayoutFault Unit :=
  Script.withFault .io do
    Script.makeDirAll l.downloads
    Script.makeDirAll l.runtime
    Script.makeDirAll l.logs

/-- Removes the files among some names of a directory, in order, and counts them. -/
def removeFiles (dir : Path) : List Bytes → Script IoFault Nat
  | [] => pure 0
  | name :: names => do
    let p := Path.join dir name
    let isFile ← Script.look (ε := IoFault) fun fs => .ok (fs.isFile p)
    if isFile then do
      Script.change fun fs => fs.remove p
      let n ← removeFiles dir names
      return n + 1
    else removeFiles dir names

/-- Removes what an interrupted update left behind, going through the directory in the given order
of its names: how many files were removed. -/
def cleanupInOrder (l : Layout) (order : List Bytes → List Bytes) : Script LayoutFault Nat := do
  let isThere ← Script.look (ε := LayoutFault) fun fs => .ok (fs.exists? l.downloads)
  if isThere then
    Script.withFault .io do
      let names ← Script.look fun fs => fs.list l.downloads
      removeFiles l.downloads (order names)
  else return 0

/-- Removes what an interrupted update left behind: how many files were removed. -/
def cleanup (l : Layout) : Script LayoutFault Nat := l.cleanupInOrder id

end Layout

end SharedRuntime
