import Mathlib.Data.List.Pairwise
import SharedRuntime.Proofs.FileSystem.Alike
import SharedRuntime.Proofs.FileSystem.Directories

/-!
# Effects at given locations

An effect changes a tree at given locations: it makes directories that are missing, puts data into a
file, puts something new in place of what is no directory, or gives a file another name. Which paths
lead to the locations is no matter here.
-/

set_option autoImplicit false

namespace SharedRuntime

namespace FileSystem

/-- What can take the place of a file or a link. -/
inductive Item
  | file (data : Bytes)
  | link (target : Path)
  deriving DecidableEq

/-- The tree with something new at a location. -/
def putItem (s : FileSystem) (l : Location) : Item → FileSystem
  | .file data => s.insertFile l data
  | .link target => s.insert l (.link target)

/-- A change at given locations. -/
inductive Effect
  | dirs (locs : List Location)
  | put (loc : Location) (data : Bytes)
  | renew (loc : Location) (item : Item)
  /-- What is at the one location comes to the other as well. -/
  | share (source loc : Location)

/-- The effect leads from one tree to another: directories come where nothing was, data are put into
a file that is there or into a new one, no directory is replaced, and a file gets another name where
nothing was. -/
def Effect.Does : Effect → FileSystem → FileSystem → Prop
  | .dirs locs, s, t => Grown locs s t ∧ ∀ l ∈ locs, t.node? l ≠ none
  | .put l data, s, t => (∃ i, s.node? l = some (.file i) ∧ t = s.setContents i data) ∨
      (s.node? l = none ∧ t = s.insertFile l data)
  | .renew l item, s, t => s.node? l ≠ some .dir ∧ t = s.putItem l item
  | .share m l, s, t => s.node? l = none ∧ ∃ n, s.node? m = some n ∧ n ≠ .dir ∧ t = s.insert l n

/-- One after the other. -/
def Run {α : Type} (does : α → FileSystem → FileSystem → Prop) :
    List α → FileSystem → FileSystem → Prop
  | [], s, t => s = t
  | a :: as, s, t => ∃ u, does a s u ∧ Run does as u t

theorem run_append {α : Type} {does : α → FileSystem → FileSystem → Prop} {as bs : List α}
    {s t : FileSystem} : Run does (as ++ bs) s t ↔ ∃ u, Run does as s u ∧ Run does bs u t := by
  induction as generalizing s with
  | nil => exact ⟨fun h => ⟨s, rfl, h⟩, fun ⟨_, hs, h⟩ => hs ▸ h⟩
  | cons a as ih =>
    constructor
    · rintro ⟨u, ha, h⟩
      obtain ⟨v, hv, h⟩ := ih.1 h
      exact ⟨v, ⟨u, ha, hv⟩, h⟩
    · rintro ⟨v, ⟨u, ha, hv⟩, h⟩
      exact ⟨u, ha, ih.2 ⟨v, hv, h⟩⟩

/-! ## Effects that write -/

/-- The location at which something is written or put. -/
def Effect.target? : Effect → Option Location
  | .dirs _ => none
  | .put l _ => some l
  | .renew l _ => some l
  | .share _ l => some l

/-- Are data put into the file that is there? -/
def Effect.isPut : Effect → Bool
  | .put _ _ => true
  | _ => false

/-- If one of the effects writes to a file, then the other does nothing at its location. -/
def Clear (d e : Effect) : Prop :=
  d.isPut = true ∨ e.isPut = true → ∀ l, d.target? = some l → e.target? ≠ some l

/-- Files that are written to are written to once, and neither replaced nor linked to. -/
def Once (es : List Effect) : Prop := es.Pairwise Clear

theorem Clear.symm {d e : Effect} (h : Clear d e) : Clear e d :=
  fun hput l he hd => h hput.symm l hd he

instance : Std.Symm Clear := ⟨fun _ _ => Clear.symm⟩

/-! ## New things -/

variable {s t : FileSystem} {l x : Location} {i : Nat} {data : Bytes} {item : Item}

/-- The node of something new. -/
def Item.node (fresh : Nat) : Item → Node
  | .file _ => .file fresh
  | .link target => .link target

theorem node?_putItem_ne (s : FileSystem) (item : Item) (h : x ≠ l) :
    (s.putItem l item).node? x = s.node? x := by
  cases item with
  | file data => exact node?_insert_ne s _ h
  | link target => exact node?_insert_ne s _ h

theorem node?_putItem_self (s : FileSystem) (item : Item) (h : l ≠ []) :
    (s.putItem l item).node? l = some (item.node s.fresh) := by
  cases item with
  | file data => exact node?_insert_self s _ h
  | link target => exact node?_insert_self s _ h

/-! ## Identities in use -/

/-- Every file has an identity that was given out. -/
def Numbered (s : FileSystem) : Prop := ∀ l i, s.node? l = some (.file i) → i < s.fresh

theorem numbered_empty : Numbered FileSystem.empty := by
  intro l i hl
  unfold FileSystem.empty node? at hl
  split at hl <;> cases hl

theorem Numbered.insertFile (h : Numbered s) (l : Location) (data : Bytes) :
    Numbered (s.insertFile l data) := by
  intro x i hx
  rw [node?_insertFile] at hx
  split at hx
  · cases hx
  split at hx
  · cases hx
    exact Nat.lt_succ_self _
  · exact Nat.lt_succ_of_lt (h x i hx)

end FileSystem

end SharedRuntime
