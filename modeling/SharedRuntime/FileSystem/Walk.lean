import SharedRuntime.FileSystem.Basic

/-!
# Walking along a path

`resolve` follows a path from the root or the working directory to the location that it names. A
link on the way is replaced by its target; at the end of the path the operation decides whether a
link is followed. At most forty links are followed.
-/

set_option autoImplicit false

namespace SharedRuntime.FileSystem

/-- Is a link at the end of a path followed? -/
inductive Follow
  | always
  | beforeSlash
  | never
  deriving DecidableEq

/-- What stands at the end of a path: a node, or a name that its directory does not hold. -/
inductive Place
  | node (loc : Location) (node : Node)
  | free (dir : Location) (name : Bytes)

/-- The end of a walk. `slash` says that the path asks for a directory, `dots` that it ends with
no name of its own. -/
structure Walked where
  place : Place
  slash : Bool
  dots : Bool

/-- The longest name that a directory takes. -/
def nameLimit : Nat := 255

/-- Paths have to be shorter than this. -/
def pathLimit : Nat := 4096

/-- How many links a walk may follow. -/
def linkLimit : Nat := 40

/-- How a walk goes on after a link: the directory, the names that remain, and whether a directory
is asked for. -/
abbrev Jump := Location → List Bytes → Bool → Except IoFault Walked

/-- Walks along names from a directory; `jump` goes on behind a link. -/
def walkNames (fs : FileSystem) (follow : Follow) (jump : Jump) :
    Location → List Bytes → Bool → Except IoFault Walked
  | dir, [], slash => .ok ⟨.node dir .dir, slash, true⟩
  | dir, name :: rest, slash =>
    if name = Path.here then walkNames fs follow jump dir rest slash
    else if name = Path.up then walkNames fs follow jump dir.dropLast rest slash
    else if nameLimit < name.length then .error (.os .nameTooLong)
    else
      let loc := dir ++ [name]
      match fs.node? loc with
      | none =>
        if rest = [] then .ok ⟨.free dir name, slash, false⟩ else .error (.os .noEntry)
      | some .dir =>
        if rest = [] then .ok ⟨.node loc .dir, slash, false⟩
        else walkNames fs follow jump loc rest slash
      | some (.file id) =>
        if rest = [] then .ok ⟨.node loc (.file id), slash, false⟩
        else .error (.os .notDirectory)
      | some (.link target) =>
        if rest = [] && (follow == .never || (follow == .beforeSlash && !slash)) then
          .ok ⟨.node loc (.link target), slash, false⟩
        else
          jump (if Path.isAbsolute target then [] else dir) (Path.names target ++ rest)
            (slash || (rest = [] && target.getLast? == some Path.slash))

/-- Walks along names; `links` more links may be followed. -/
def walk (fs : FileSystem) (follow : Follow) : Nat → Jump
  | 0 => walkNames fs follow fun _ _ _ => .error (.os .linkLoop)
  | links + 1 => walkNames fs follow (walk fs follow links)

/-- Where a path leads. -/
def resolve (fs : FileSystem) (follow : Follow) (p : Path) : Except IoFault Walked :=
  if p.any (· == 0) then .error .nulInPath
  else if p = [] then .error (.os .noEntry)
  else if pathLimit ≤ p.length then .error (.os .nameTooLong)
  else walk fs follow linkLimit (if Path.isAbsolute p then [] else fs.working) (Path.names p)
    (p.getLast? == some Path.slash)

end SharedRuntime.FileSystem
