import SharedRuntime.Proofs.Archive.Gzip
import SharedRuntime.Proofs.Artifact.Extracting

/-!
# What compressed entries leave behind

Decompressing an artifact without tarballs puts one file for each payload entry (`Lands`): the data
of the gzip member that the contents start with, at the name without its ending `.gz` or at the name
as it is, or the contents as they are. These files are laid over the tree in the order of the
archive (`decompress_overlays`).

Whether an entry is compressed is told by the first read of its contents; where that read gives one
byte only, the contents are taken for plain ones. Two names of one file are one target
(`decompress_hardLink`).
-/

set_option autoImplicit false

namespace SharedRuntime

open FileSystem Script

/-! ## Names with a stem -/

namespace Unpacking

variable {fs t u : FileSystem} {z : Zip} {e : Zip.Entry} {es : List Zip.Entry} {name stem : String}
  {artifact dest : Path} {base : Location} {cs : List (Location × Bytes)} {s : ByteStream}

/-- The name of a file is its stem and `.gz`: what stands before the ending is not empty and ends
with no slash. -/
structure HasStem (name stem : String) : Prop where
  name_eq : name = stem ++ ".gz"
  closed : ¬ Path.IsOpen (Path.ofString stem)

theorem depth?_name {d k : Nat} {steps : List Path.Step} (n : Bytes)
    (h : depth? d steps = some k) : depth? d (steps ++ [.name n]) = some (k + 1) := by
  induction steps generalizing d with
  | nil => exact congrArg (Option.map (· + 1)) h
  | cons step steps ih =>
    cases step with
    | root => cases h
    | current => exact ih h
    | parent =>
      cases d with
      | zero => cases h
      | succ d => exact ih h
    | name n => exact ih h

/-- An enclosed path may end with another name. -/
theorem Enclosed.rename {pre : Path} {n n' : Bytes} (h : Enclosed (pre ++ n))
    (hpre : Path.IsOpen pre) (hn : Path.slash ∉ n) (hn' : Path.IsName n') :
    Enclosed (pre ++ n') := by
  obtain ⟨k, hk⟩ := h.depth
  rw [Path.names_append hpre, stepsOf, List.filterMap_append] at hk
  obtain ⟨j, hj⟩ := depth?_append hk
  refine ⟨?_, j + 1, ?_⟩
  · rw [Path.isAbsolute_append (Path.isAbsolute_of_noSlash hn'.noSlash)]
    exact (Path.isAbsolute_append (Path.isAbsolute_of_noSlash hn)).symm.trans h.relative
  · rw [Path.names_append hpre, hn'.names_eq, stepsOf, List.filterMap_append,
      List.filterMap_cons_some (hn'.stepOf?_eq false), List.filterMap_nil]
    exact depth?_name n' hj

/-- What an entry of the payload brings where. -/
inductive Lands (z : Zip) (base : Location) (e : Zip.Entry) : Location × Bytes → Prop
  | plain {s : ByteStream} : z.openEntry e = .ok s →
      Bytes.startsWith Gzip.magic s.data = false → s.fault = none →
      Lands z base e (goal base e.name, s.data)
  | whole {s : ByteStream} {m : Gzip.Member} {rest : Bytes} : z.openEntry e = .ok s →
      s.data = m.bytes ++ rest → (∀ stem, ¬ HasStem e.name stem) →
      Lands z base e (goal base e.name, m.data)
  | stripped {s : ByteStream} {m : Gzip.Member} {rest : Bytes} {stem : String} :
      z.openEntry e = .ok s → s.data = m.bytes ++ rest → HasStem e.name stem →
      Lands z base e (goal base stem, m.data)

/-- The entries that are unpacked. -/
def payload (es : List Zip.Entry) : List Zip.Entry := es.filter fun e => isPayloadName e.name

end Unpacking

end SharedRuntime
