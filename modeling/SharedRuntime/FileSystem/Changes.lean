import SharedRuntime.FileSystem.Basic

/-!
# Changes between file systems

What has to be done to a tree so that it looks like another one. Of a file whose contents are not
known only its existence is compared.
-/

set_option autoImplicit false

namespace SharedRuntime

/-- A single change of a tree. -/
inductive Change
  | remove (loc : Location)
  | makeDir (loc : Location)
  | makeLink (loc : Location) (target : Path)
  | write (loc : Location) (data : Bytes)
  /-- A second name for the file at `first`. -/
  | nameAgain (loc first : Location)
  deriving DecidableEq, Repr

namespace FileSystem

/-- Puts a file at a location whose contents are not known. -/
def insertUnread (fs : FileSystem) (loc : Location) : FileSystem :=
  { fs.insert loc (.file fs.fresh) with fresh := fs.fresh + 1 }

/-- The first location of a file. -/
def locationOf? (fs : FileSystem) (id : Nat) : Option Location :=
  (fs.nodes.find? fun e => e.2 == .file id).map Prod.fst

/-- Removes what is gone or has become something else. -/
def removals (before after : FileSystem) : List Change :=
  before.nodes.filterMap fun (loc, node) =>
    if node.isDir || after.node? loc == some node then none else some (.remove loc)

/-- What makes the node at a location of the tree afterwards. -/
def change? (before after : FileSystem) (loc : Location) (node : Node) : Option Change :=
  let kept := before.node? loc == some node
  match node with
  | .dir => if kept then none else some (.makeDir loc)
  | .link target => if kept then none else some (.makeLink loc target)
  | .file id =>
    match after.locationOf? id with
    | some first =>
      if first != loc then (if kept then none else some (.nameAgain loc first))
      else if kept && before.contents.lookup id == after.contents.lookup id then none
      else some (.write loc (after.contentsOf id))
    | none => none

/-- The changes that lead from one tree to another, in an order in which they can be done. -/
def changes (before after : FileSystem) : List Change :=
  removals before after ++ after.nodes.filterMap fun (loc, node) => change? before after loc node

end FileSystem

end SharedRuntime
