import SharedRuntime.FileSystem.Walk

/-!
# File operations

What the operating system does for a path. An operation that changes the tree gives the file system
afterwards or a fault, and a fault means that nothing changed.
-/

set_option autoImplicit false

namespace SharedRuntime.FileSystem

/-- The node that a path leads to, all links followed, with its location. -/
def locate (fs : FileSystem) (p : Path) : Except IoFault (Location × Node) := do
  let w ← fs.resolve .always p
  match w.place with
  | .free _ _ => .error (.os .noEntry)
  | .node loc node =>
    if w.slash && !node.isDir then .error (.os .notDirectory) else .ok (loc, node)

/-- The node that a path names; a link at the end stands for itself. -/
def inspect (fs : FileSystem) (p : Path) : Except IoFault Node := do
  let w ← fs.resolve .beforeSlash p
  match w.place with
  | .free _ _ => .error (.os .noEntry)
  | .node _ node =>
    if w.slash && !node.isDir then .error (.os .notDirectory) else .ok node

/-- Does the path lead to anything? -/
def exists? (fs : FileSystem) (p : Path) : Bool := (fs.locate p).toOption.isSome

/-- Does the path lead to a directory? -/
def isDir (fs : FileSystem) (p : Path) : Bool :=
  match fs.locate p with
  | .ok (_, node) => node.isDir
  | .error _ => false

/-- Does the path lead to a regular file? -/
def isFile (fs : FileSystem) (p : Path) : Bool :=
  match fs.locate p with
  | .ok (_, node) => node.isFile
  | .error _ => false

/-- The bytes of the file that a path leads to. -/
def read (fs : FileSystem) (p : Path) : Except IoFault Bytes := do
  match ← fs.locate p with
  | (_, .file id) => .ok (fs.contentsOf id)
  | _ => .error (.os .isDirectory)

/-- The text of the file that a path leads to. -/
def readText (fs : FileSystem) (p : Path) : Except IoFault String := do
  match Utf8.decode? (← fs.read p) with
  | some s => .ok s
  | none => .error .notText

/-- Writes a file: one that is there loses its contents, one that is not is made. -/
def write (fs : FileSystem) (p : Path) (data : Bytes) : Except IoFault FileSystem := do
  let w ← fs.resolve .always p
  if w.slash then .error (.os .isDirectory)
  else match w.place with
    | .node _ (.file id) => .ok (fs.setContents id data)
    | .node _ _ => .error (.os .isDirectory)
    | .free dir name => .ok (fs.insertFile (dir ++ [name]) data)

/-- Writes a file where nothing is yet. -/
def writeNew (fs : FileSystem) (p : Path) (data : Bytes) : Except IoFault FileSystem := do
  let w ← fs.resolve .never p
  if w.slash && !w.dots then .error (.os .isDirectory)
  else match w.place with
    | .node _ _ => .error (.os .exists)
    | .free dir name => .ok (fs.insertFile (dir ++ [name]) data)

/-- Makes a directory where nothing is yet. -/
def makeDir (fs : FileSystem) (p : Path) : Except IoFault FileSystem := do
  let w ← fs.resolve .never p
  match w.place with
  | .node _ _ => .error (.os .exists)
  | .free dir name => .ok (fs.insert (dir ++ [name]) .dir)

/-- Removes a file or a link. -/
def remove (fs : FileSystem) (p : Path) : Except IoFault FileSystem := do
  let w ← fs.resolve .never p
  if w.dots then .error (.os .isDirectory)
  else match w.place with
    | .free _ _ => .error (.os .noEntry)
    | .node _ .dir => .error (.os .isDirectory)
    | .node loc _ => if w.slash then .error (.os .notDirectory) else .ok (fs.erase loc)

/-- Makes a link with the given target. -/
def makeLink (fs : FileSystem) (target p : Path) : Except IoFault FileSystem := do
  if target.any (· == 0) then .error .nulInPath
  else if target = [] then .error (.os .noEntry)
  else if pathLimit ≤ target.length then .error (.os .nameTooLong)
  else
    let w ← fs.resolve .never p
    match w.place with
    | .node _ _ => .error (.os .exists)
    | .free dir name =>
      if w.slash then .error (.os .noEntry) else .ok (fs.insert (dir ++ [name]) (.link target))

/-- Gives the file at `old` a second name. A link at the end of `old` is not followed. -/
def makeHardLink (fs : FileSystem) (old p : Path) : Except IoFault FileSystem := do
  let source ← fs.inspect old
  let w ← fs.resolve .never p
  match w.place with
  | .node _ _ => .error (.os .exists)
  | .free dir name =>
    if w.slash then .error (.os .noEntry)
    else if source.isDir then .error (.os .notPermitted)
    else .ok (fs.insert (dir ++ [name]) source)

/-- Gives a file or link another name, in place of what had that name before. Directories do not
move. -/
def rename (fs : FileSystem) (old new : Path) : Except IoFault FileSystem := do
  let w ← fs.resolve .never old
  let v ← fs.resolve .never new
  if w.dots || v.dots then .error (.os .busy)
  else match w.place with
    | .free _ _ => .error (.os .noEntry)
    | .node _ .dir => .error (.os .invalid)
    | .node source node =>
      if w.slash || v.slash then .error (.os .notDirectory)
      else match v.place with
        | .free dir name => .ok ((fs.erase source).insert (dir ++ [name]) node)
        | .node _ .dir => .error (.os .isDirectory)
        | .node target other =>
          if node.isFile && node = other then .ok fs
          else .ok ((fs.erase source).insert target node)

/-- The names in a directory. -/
def children (fs : FileSystem) (loc : Location) : List Bytes :=
  fs.nodes.filterMap fun e =>
    match e.1.getLast? with
    | some name => if e.1.dropLast = loc then some name else none
    | none => none

/-- The names in the directory that a path leads to, in no particular order. -/
def list (fs : FileSystem) (p : Path) : Except IoFault (List Bytes) := do
  match ← fs.locate p with
  | (loc, .dir) => .ok (fs.children loc)
  | _ => .error (.os .notDirectory)

/-- Makes the first of the paths a directory, and before that those of the others that are
missing. `paths` is a path with all that are above it. The file system comes back on a fault too,
with the directories made until then. -/
def makeDirs (fs : FileSystem) : List Path → Except IoFault Unit × FileSystem
  | [] => (.error (.other "failed to create whole tree"), fs)
  | p :: above =>
    if p = [] then (.ok (), fs)
    else match fs.makeDir p with
      | .ok fs' => (.ok (), fs')
      | .error f =>
        if !f.isMissing then
          if fs.isDir p then (.ok (), fs) else (.error f, fs)
        else match makeDirs fs above with
          | (.error f, fs') => (.error f, fs')
          | (.ok (), fs') =>
            match fs'.makeDir p with
            | .ok fs'' => (.ok (), fs'')
            | .error f => if fs'.isDir p then (.ok (), fs') else (.error f, fs')

/-- Makes a path a directory, with all the directories above it that are missing. -/
def makeDirAll (fs : FileSystem) (p : Path) : Except IoFault Unit × FileSystem :=
  fs.makeDirs p.ancestors

/-- Is `a` the location `b` or above it? -/
def isAbove (a b : Location) : Bool := a.isPrefixOf b

/-- The path of a location. -/
def pathOf (loc : Location) : Path := Path.slash :: List.intercalate [Path.slash] loc

/-- All nodes below a location, with their paths from there, sorted by the bytes of the path. -/
def below (fs : FileSystem) (loc : Location) : List (Path × Node) :=
  let entries := fs.nodes.filterMap fun e =>
    if isAbove loc e.1 && e.1 != loc then
      some (List.intercalate [Path.slash] (e.1.drop loc.length), e.2)
    else none
  entries.mergeSort fun a b => Bytes.le a.1 b.1

end SharedRuntime.FileSystem
