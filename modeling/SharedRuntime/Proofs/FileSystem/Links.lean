import SharedRuntime.Proofs.FileSystem.Operations
import SharedRuntime.Proofs.FileSystem.Script

/-!
# Changes that make no link

Only `makeLink`, `makeHardLink` and `rename` put a link where none was. All other operations, and
the scripts made of them, keep `NoNewLinks`.
-/

set_option autoImplicit false

namespace SharedRuntime.FileSystem

/-- Every link was there before. -/
structure NoNewLinks (fs fs' : FileSystem) : Prop where
  link : ∀ l target, fs'.node? l = some (.link target) → fs.node? l = some (.link target)
  working : fs'.working = fs.working

variable {fs fs' : FileSystem} {p : Path}

theorem NoNewLinks.refl : NoNewLinks fs fs := ⟨fun _ _ h => h, rfl⟩

instance : Script.Frame NoNewLinks := by
  refine ⟨fun _ => .refl, fun h k => ⟨fun l target hl => ?_, k.working.trans h.working⟩⟩
  exact h.link l target (k.link l target hl)

theorem noNewLinks_insert {l : Location} {node : Node} (hnode : ∀ target, node ≠ .link target) :
    NoNewLinks fs (fs.insert l node) := by
  refine ⟨fun m target hm => ?_, rfl⟩
  rw [node?_insert] at hm
  split at hm
  · cases hm
  · split at hm
    · exact absurd (Option.some.inj hm) (hnode target)
    · exact hm

theorem noNewLinks_insertFile {l : Location} {data : Bytes} :
    NoNewLinks fs (fs.insertFile l data) := by
  have h : NoNewLinks fs (fs.insert l (.file fs.fresh)) :=
    noNewLinks_insert fun target ht => by cases ht
  exact ⟨h.link, rfl⟩

theorem noNewLinks_erase {l : Location} : NoNewLinks fs (fs.erase l) := by
  refine ⟨fun m target hm => ?_, rfl⟩
  rw [node?_erase] at hm
  split at hm
  · cases hm
  · split at hm
    · cases hm
    · exact hm

theorem noNewLinks_write {data : Bytes} (h : fs.write p data = .ok fs') : NoNewLinks fs fs' := by
  obtain ⟨place, d, -, ⟨loc, id, -, rfl⟩ | ⟨dir, name, -, rfl⟩⟩ := write_ok h
  · exact ⟨fun _ _ hl => hl, rfl⟩
  · exact noNewLinks_insertFile

theorem noNewLinks_writeNew {data : Bytes} (h : fs.writeNew p data = .ok fs') :
    NoNewLinks fs fs' := by
  obtain ⟨dir, name, s, d, -, rfl⟩ := writeNew_ok h
  exact noNewLinks_insertFile

theorem noNewLinks_makeDir (h : fs.makeDir p = .ok fs') : NoNewLinks fs fs' := by
  obtain ⟨dir, name, s, d, -, rfl⟩ := makeDir_ok h
  exact noNewLinks_insert fun target ht => by cases ht

theorem noNewLinks_remove (h : fs.remove p = .ok fs') : NoNewLinks fs fs' := by
  obtain ⟨loc, node, s, -, -, rfl⟩ := remove_ok h
  exact noNewLinks_erase

/-- What making a directory keeps is kept when all that are missing are made. -/
theorem makeDirs_keeps {R : FileSystem → FileSystem → Prop} [Script.Frame R]
    (hmake : ∀ {s t : FileSystem} {p : Path}, s.makeDir p = .ok t → R s t) (paths : List Path) :
    R fs (fs.makeDirs paths).2 := by
  induction paths with
  | nil => exact Script.Frame.refl fs
  | cons a above ih =>
    unfold makeDirs
    split
    · exact Script.Frame.refl fs
    · cases hm : fs.makeDir a with
      | ok t => exact hmake hm
      | error f =>
        dsimp only
        split
        · split <;> exact Script.Frame.refl fs
        · cases hinner : fs.makeDirs above with
          | mk r t =>
            rw [hinner] at ih
            cases r with
            | error g => exact ih
            | ok u =>
              dsimp only
              cases hm' : t.makeDir a with
              | ok t' => exact Script.Frame.trans ih (hmake hm')
              | error g =>
                dsimp only
                split <;> exact ih

theorem noNewLinks_makeDirAll (p : Path) : NoNewLinks fs (fs.makeDirAll p).2 :=
  makeDirs_keeps noNewLinks_makeDir p.ancestors

end SharedRuntime.FileSystem
