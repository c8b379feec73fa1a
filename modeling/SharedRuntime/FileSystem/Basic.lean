import SharedRuntime.FileSystem.Path
import SharedRuntime.FileSystem.Fault

/-!
# File systems

A file system assigns nodes to locations. A location is the list of names that leads from the root
to a node, so it holds no dots and passes through no link. Files carry an identity under which
their contents are kept, so that two names of one file share them.

Each change of the tree is `insert`, `erase` or `setContents`; the lemmas beside them say what
`node?` and `contentsOf` give afterwards.
-/

set_option autoImplicit false

namespace SharedRuntime

/-- Where a node is: the names from the root down. -/
abbrev Location := List Bytes

/-- What a location holds. -/
inductive Node
  | dir
  | file (id : Nat)
  | link (target : Path)
  deriving DecidableEq, Repr

namespace Node

/-- Is the node a directory? -/
def isDir : Node → Bool
  | dir => true
  | _ => false

/-- Is the node a regular file? -/
def isFile : Node → Bool
  | file _ => true
  | _ => false

end Node

/-- The nodes below the root, the contents of the files, the next unused identity, and the
directory where relative paths start. -/
structure FileSystem where
  nodes : List (Location × Node)
  contents : List (Nat × Bytes)
  fresh : Nat
  working : Location
  deriving DecidableEq

namespace FileSystem

/-- A file system with nothing but its root. -/
def empty : FileSystem := ⟨[], [], 0, []⟩

/-- The node at a location. -/
def node? (fs : FileSystem) (loc : Location) : Option Node :=
  if loc = [] then some .dir else fs.nodes.lookup loc

/-- The contents of a file by its identity. -/
def contentsOf (fs : FileSystem) (id : Nat) : Bytes := (fs.contents.lookup id).getD []

/-- The file system without a location. -/
def erase (fs : FileSystem) (loc : Location) : FileSystem :=
  { fs with nodes := fs.nodes.filter fun e => e.1 != loc }

/-- Puts a node at a location. -/
def insert (fs : FileSystem) (loc : Location) (node : Node) : FileSystem :=
  { fs with nodes := (fs.nodes.filter fun e => e.1 != loc) ++ [(loc, node)] }

/-- Gives a file new contents. -/
def setContents (fs : FileSystem) (id : Nat) (data : Bytes) : FileSystem :=
  { fs with contents := (id, data) :: fs.contents.filter fun e => e.1 != id }

/-- Puts a new file at a location. -/
def insertFile (fs : FileSystem) (loc : Location) (data : Bytes) : FileSystem :=
  { ((fs.insert loc (.file fs.fresh)).setContents fs.fresh data) with fresh := fs.fresh + 1 }

theorem lookup_filter_ne {β : Type} (l : List (Location × β)) (a b : Location) :
    (l.filter fun e => e.1 != a).lookup b = if b = a then none else l.lookup b := by
  induction l with
  | nil => simp
  | cons e l ih =>
    obtain ⟨k, v⟩ := e
    by_cases hk : k = a
    · subst hk
      by_cases hb : b = k
      · simpa [hb] using ih
      · have hbk : (b == k) = false := by simp [hb]
        simpa [hb, List.lookup_cons, hbk] using ih
    · rw [List.filter_cons_of_pos (by simpa using hk), List.lookup_cons, List.lookup_cons, ih]
      by_cases hb : b = k
      · subst hb
        simp [hk]
      · have hbk : (b == k) = false := by simp [hb]
        simp [hbk]

theorem node?_erase (fs : FileSystem) (loc l : Location) :
    (fs.erase loc).node? l =
      if l = [] then some .dir else if l = loc then none else fs.node? l := by
  by_cases h : l = [] <;> simp [node?, erase, h, lookup_filter_ne]

theorem node?_insert (fs : FileSystem) (loc l : Location) (n : Node) :
    (fs.insert loc n).node? l =
      if l = [] then some .dir else if l = loc then some n else fs.node? l := by
  by_cases h : l = []
  · simp [node?, h]
  · by_cases hl : l = loc
    · subst hl
      simp [node?, insert, h, List.lookup_append, lookup_filter_ne]
    · have hb : (l == loc) = false := by simp [hl]
      simp [node?, insert, h, hl, List.lookup_append, lookup_filter_ne, List.lookup_cons, hb]

@[simp] theorem node?_setContents (fs : FileSystem) (id : Nat) (data : Bytes) (l : Location) :
    (fs.setContents id data).node? l = fs.node? l := rfl

@[simp] theorem contentsOf_insert (fs : FileSystem) (loc : Location) (n : Node) (id : Nat) :
    (fs.insert loc n).contentsOf id = fs.contentsOf id := rfl

@[simp] theorem contentsOf_erase (fs : FileSystem) (loc : Location) (id : Nat) :
    (fs.erase loc).contentsOf id = fs.contentsOf id := rfl

end FileSystem

end SharedRuntime
