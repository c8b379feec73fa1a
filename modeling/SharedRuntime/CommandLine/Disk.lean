import SharedRuntime.FileSystem.Changes
import SharedRuntime.FileSystem.Operations

/-!
# The disk

Takes over from the disk what a run reaches, and brings the changes of the run to the disk. Links
keep what they lead to; new ones cannot be made.
-/

set_option autoImplicit false

namespace SharedRuntime.Disk

/-- The name of a location for the operating system. -/
def nameOf (loc : Location) : String := Path.display (FileSystem.pathOf loc)

/-- What kind of node is at a location, if any. -/
def kindAt (loc : Location) : IO (Option IO.FS.FileType) := do
  let root ← IO.currentDir
  try
    let data ← (root / nameOf loc).symlinkMetadata
    return some data.type
  catch _ => return none

/-- The names in the directory at a location. -/
def namesAt (loc : Location) : IO (List Bytes) := do
  let root ← IO.currentDir
  try
    let entries ← (root / nameOf loc).readDir
    return entries.toList.map fun e => Bytes.ofString e.fileName
  catch _ => return []

/-- What a link leads to in the end. -/
def targetAt (loc : Location) : IO (Option Path) := do
  try
    let target ← IO.FS.realPath (nameOf loc)
    return some (Path.ofString target.toString)
  catch _ => return none

/-- Puts a node where nothing is known yet. -/
def learn (fs : FileSystem) (loc : Location) (put : FileSystem → FileSystem) : FileSystem :=
  if (fs.node? loc).isSome then fs else put fs

/-- Takes over the nodes on the way along names, from a location: where the way ends. Links on the
way are followed, at most `links` of them. -/
partial def follow (links : Nat) (fs : FileSystem) (here : Location) :
    List Bytes → IO (FileSystem × Option Location)
  | [] => return (fs, some here)
  | name :: rest => do
    if name = Path.here then follow links fs here rest
    else if name = Path.up then follow links fs here.dropLast rest
    else
      let loc := here ++ [name]
      match ← kindAt loc with
      | none => return (fs, none)
      | some .dir => follow links (learn fs loc fun fs => fs.insert loc .dir) loc rest
      | some .symlink =>
        match links, ← targetAt loc with
        | links + 1, some target =>
          let fs := learn fs loc fun fs => fs.insert loc (.link target)
          follow links fs [] (Path.names target ++ rest)
        | _, _ => return (fs, none)
      | some _ => return (learn fs loc fun fs => fs.insertUnread loc, some loc)

/-- Takes over the nodes on the way to a path. -/
def followPath (fs : FileSystem) (p : Path) : IO (FileSystem × Option Location) :=
  follow 40 fs (if Path.isAbsolute p then [] else fs.working) (Path.names p)

/-- Takes over all nodes below a location. -/
partial def lookThrough (fs : FileSystem) (loc : Location) : IO FileSystem := do
  let names ← namesAt loc
  names.foldlM (fun fs name => do
    let (fs, _) ← follow 40 fs loc [name]
    let sub := loc ++ [name]
    if fs.node? sub == some .dir then lookThrough fs sub else return fs) fs

/-- Takes over a file with its contents. -/
def takeFile (fs : FileSystem) (p : Path) : IO FileSystem := do
  let (fs, loc) ← followPath fs p
  match loc.bind fs.node?, loc with
  | some (.file id), some loc =>
    try
      let data ← IO.FS.readBinFile (nameOf loc)
      return fs.setContents id data.toList
    catch _ => return fs
  | _, _ => return fs

/-- Takes over a directory with all below it. -/
def takeDirectory (fs : FileSystem) (p : Path) : IO FileSystem := do
  let (fs, loc) ← followPath fs p
  match loc with
  | some loc => if fs.node? loc == some .dir then lookThrough fs loc else return fs
  | none => return fs

/-- Nothing but the working directory. -/
def start : IO FileSystem := do
  let here ← IO.currentDir
  let working := Path.names (Path.ofString here.toString)
  let (fs, _) ← follow 40 { FileSystem.empty with working := working } [] working
  return fs

/-- Brings a change to the disk. -/
def apply (c : Change) : IO Unit :=
  match c with
  | .remove loc => IO.FS.removeFile (nameOf loc)
  | .makeDir loc => IO.FS.createDir (nameOf loc)
  | .write loc data => IO.FS.writeBinFile (nameOf loc) (ByteArray.mk data.toArray)
  | .nameAgain loc first => IO.FS.hardLink (nameOf first) (nameOf loc)
  | .makeLink loc _ => throw (IO.userError ("cannot make the link " ++ nameOf loc))

end SharedRuntime.Disk
