import SharedRuntime.Archive.Tar.Members
import SharedRuntime.FileSystem.Script

/-!
# Unpacking tar archives

Members are put below a directory in order; directories come last, those with the greater path
first. A member whose path goes up is left out. Before a member is made, its directory has to lie
inside the destination, all links followed; the target of a hard link has to lie inside as well.
The target of a symbolic link may be anything.
-/

set_option autoImplicit false

namespace SharedRuntime.Tar

open Script

/-- The names below the destination that a member's path gives; none if the path goes up. -/
def relativeNames? (path : Path) : Option (List Bytes) :=
  (Path.steps path).foldr (fun step names =>
    match step with
    | .name n => names.map (n :: ·)
    | .parent => none
    | _ => names) (some [])

/-- The fault of unpacking, by its text. -/
def unpackFault (_ : IoFault) : IoFault := .other "failed to unpack"

/-- Requires that the path, all links followed, lies in the destination. -/
def requireInside (base : Location) (p : Path) : Script IoFault Unit :=
  look fun fs =>
    match fs.locate p with
    | .error f => .error f
    | .ok (loc, _) =>
      if FileSystem.isAbove base loc then .ok ()
      else .error (.other "trying to unpack outside of destination path")

/-- Does the path name something, be it a dangling link? -/
def isThere (fs : FileSystem) (p : Path) : Bool := (fs.inspect p).toOption.isSome

/-- Makes each of the directories, from the one nearest to the root, after its parent was found
inside the destination. -/
def makeInside (base : Location) : List Path → Script IoFault Unit
  | [] => pure ()
  | p :: ps => do
    match Path.parent? p with
    | some parent => requireInside base parent
    | none => pure ()
    makeDirAll p
    makeInside base ps

/-- Makes the directories from `p` upwards that are missing. -/
def ensureDir (base : Location) (p : Path) : Script IoFault Unit := do
  let missing ← look (ε := IoFault) fun fs => .ok (p.ancestors.takeWhile fun a => !isThere fs a)
  makeInside base missing.reverse

/-- Is the path that of a directory, and not of a link to one? -/
def isOwnDir (fs : FileSystem) (p : Path) : Bool :=
  match fs.inspect p with
  | .ok node => node.isDir
  | .error _ => false

/-- Makes a directory, or finds one. -/
def unpackDir (p : Path) : Script IoFault Unit := do
  match ← caught (change fun fs => fs.makeDir p) with
  | .ok () => pure ()
  | .error f =>
    let isDir ← look (ε := IoFault) fun fs => .ok (isOwnDir fs p)
    if f == .os .exists && isDir then pure () else fail f

/-- Runs an operation on a path; if something is there, it is removed first. -/
def replacing (p : Path) (op : Script IoFault Unit) : Script IoFault Unit := do
  match ← caught op with
  | .ok () => pure ()
  | .error f =>
    if f == .os .exists then do
      change fun fs => fs.remove p
      op
    else fail f

/-- The bytes of the pieces up to the first that is cut short, and whether there is one. -/
def pieceBytes : List Piece → Bytes × Bool
  | [] => ([], true)
  | .hole n :: ps =>
    let (bs, whole) := pieceBytes ps
    (List.replicate n 0 ++ bs, whole)
  | .data bytes wanted :: ps =>
    if bytes.length < wanted then (bytes, false)
    else
      let (bs, whole) := pieceBytes ps
      (bytes ++ bs, whole)

/-- Writes the contents of a member to a new file. -/
def unpackFile (p : Path) (m : Member) : Script IoFault Unit := do
  let (bytes, whole) := pieceBytes m.pieces
  replacing p (change fun fs => fs.writeNew p bytes)
  if whole then pure () else fail (fault "failed to write entire file")

/-- The target of a link member. -/
def linkTarget (m : Member) : Script IoFault Path :=
  outcome <|
    match m.link with
    | none => .error (fault "hard link listed but no link name found")
    | some l => if Path.steps l = [] then .error (fault "symlink destination is empty") else .ok l

/-- Makes what a member stands for at a path. -/
def unpackMember (base : Location) (p : Path) (m : Member) : Script IoFault Unit :=
  if m.kind = '5' then unpackDir p
  else if m.kind = '1' then do
    let target ← linkTarget m
    let source := Path.join (FileSystem.pathOf base) target
    requireInside base source
    change fun fs => fs.makeHardLink source p
  else if m.kind = '2' then do
    let target ← linkTarget m
    replacing p (change fun fs => fs.makeLink target p)
  else if isDescribing m.kind then pure ()
  else if !m.isStandard && m.path.getLast? == some Path.slash then unpackDir p
  else unpackFile p m

/-- Unpacks a member below the destination. -/
def unpackInside (base : Location) (m : Member) : Script IoFault Unit :=
  match relativeNames? m.path with
  | none => pure ()
  | some [] => pure ()
  | some names => do
    let root := FileSystem.pathOf base
    let p := names.foldl Path.join root
    let parent := names.dropLast.foldl Path.join root
    withFault unpackFault (ensureDir base parent)
    requireInside base parent
    withFault unpackFault (unpackMember base p m)

/-- Unpacks members in order. -/
def unpackAll (base : Location) : List Member → Script IoFault Unit
  | [] => pure ()
  | m :: ms => do
    unpackInside base m
    unpackAll base ms

/-- Is the member a directory? -/
def Member.isDir (m : Member) : Bool := m.kind == '5'

/-- The directories among the members, the greatest path first; members of one path stay in
order. -/
def directories (ms : List Member) : List Member :=
  (ms.filter Member.isDir).mergeSort fun a b => Bytes.le b.path a.path

/-- Unpacks an archive into a directory that exists. -/
def unpack (s : ByteStream) (dir : Path) : Script IoFault Unit := do
  let (base, _) ← look fun fs => fs.locate dir
  let (ms, f) := members s
  unpackAll base (ms.filter fun m => !m.isDir)
  match f with
  | some _ => fail (fault "failed to iterate over archive")
  | none => unpackAll base (directories ms)

end SharedRuntime.Tar
