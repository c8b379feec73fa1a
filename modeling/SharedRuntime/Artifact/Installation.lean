import SharedRuntime.Artifact.Unpacking
import SharedRuntime.Installed.Marker
import SharedRuntime.Update.Failure

/-!
# Installing artifacts

An artifact is installed by removing the marker of the earlier runtime, unpacking the new one and
stamping the marker that it brings. An installation that fails leaves what it wrote, and the
artifact stays where it is on every path.
-/

set_option autoImplicit false

namespace SharedRuntime

namespace Installation

open Script

/-- Removes the marker of an earlier installation, if there is one. -/
def clearMarker (dest : Path) : Script IoFault Unit := do
  match ← caught (change fun fs => fs.remove (Path.join dest Marker.fileName)) with
  | .ok () => pure ()
  | .error f => if f.isMissing then pure () else fail f

/-- Notes in the marker that the runtime was installed `now` and is not yet used. A marker that is
missing, unreadable or cannot be saved is left alone. -/
def stampMarker (now : Instant) (dest : Path) : Script IoFault Unit := do
  let p := Path.join dest Marker.fileName
  match ← caught (look fun fs => Marker.load fs p) with
  | .ok (some m) => do
    let _ ← caught (ε := IoFault) (Marker.save ⟨m.version, true, some now⟩ p)
    pure ()
  | _ => pure ()

/-- An installation, with the probe of compressed entries and the two ways of unpacking given. -/
def installWith (probe : FileSystem → Path → Except ArchiveFault Bool)
    (decompress extract : Path → Path → Script ArchiveFault Unit) (now : Instant)
    (artifact dest : Path) : Script UpdateError Unit := do
  let compressed ← withFault (fun f => .installation (ArchiveFault.message f))
    (look fun fs => probe fs artifact)
  withFault (fun f => .installation (IoFault.message f)) (clearMarker dest)
  withFault (fun f => .installation (ArchiveFault.message f))
    (if compressed then decompress artifact dest else extract artifact dest)
  withFault (fun f => .installation (IoFault.message f)) (stampMarker now dest)

/-- Installs the artifact at a path into a directory. -/
def install (now : Instant) (artifact dest : Path) : Script UpdateError Unit :=
  installWith Unpacking.isCompressed Unpacking.decompress Unpacking.extract now artifact dest

end Installation

end SharedRuntime
