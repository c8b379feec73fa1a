import SharedRuntime.Artifact.Installation
import SharedRuntime.Proofs.FileSystem.Path
import SharedRuntime.Proofs.FileSystem.Script

/-!
# The marker in an installation

What clearing and stamping the marker do, and where the marker and its temporary file are.
-/

set_option autoImplicit false

namespace SharedRuntime

namespace Installation

open Script

theorem perform_clearMarker (dest : Path) (fs : FileSystem) :
    (clearMarker dest).perform fs =
      match fs.remove (Path.join dest Marker.fileName) with
      | .ok fs' => (.ok (), fs')
      | .error f => if f.isMissing then (.ok (), fs) else (.error f, fs) := by
  rw [clearMarker, perform_bind, perform_caught, perform_change]
  cases fs.remove (Path.join dest Marker.fileName) with
  | ok fs' => rfl
  | error f =>
    dsimp only
    split <;> rfl

/-- Stamping cannot fail. -/
theorem stampMarker_ok (now : Instant) (dest : Path) (fs : FileSystem) :
    ((stampMarker now dest).perform fs).1 = .ok () := by
  unfold stampMarker
  rw [perform_bind, perform_caught, perform_look]
  dsimp only
  split
  · rw [perform_bind, perform_caught]
    rfl
  · rfl

end Installation

namespace Marker

/-- A marker is written to its temporary file, which is then renamed. -/
theorem perform_save (m : Marker) (p : Path) (fs : FileSystem) :
    (save m p).perform fs =
      match fs.write (temporary p) (Bytes.ofString m.text) with
      | .error f => (.error f, fs)
      | .ok t =>
        match t.rename (temporary p) p with
        | .error f => (.error f, t)
        | .ok u => (.ok (), u) := by
  unfold save saveAs Script.writeAs Script.write
  rw [Script.perform_bind, Script.perform_change]
  cases fs.write (temporary p) (Bytes.ofString m.text) with
  | error f => rfl
  | ok t =>
    dsimp only
    rw [Script.perform_change]
    cases t.rename (temporary p) p <;> rfl

theorem isName_fileName : Path.IsName fileName := by
  refine ⟨?_, ?_, ?_, ?_⟩ <;> decide

/-- The name of the temporary file. -/
def temporaryName : Path := Path.ofString "runtime.tmp"

theorem isName_temporaryName : Path.IsName temporaryName := by
  refine ⟨?_, ?_, ?_, ?_⟩ <;> decide

/-- Both files stand in the directory of the runtime, under their names. -/
theorem names_fileName (dest : Path) :
    Path.names (Path.join dest fileName) = Path.names dest ++ [fileName] ∧
      Path.isAbsolute (Path.join dest fileName) = Path.isAbsolute dest := by
  have hrel := Path.isAbsolute_of_noSlash isName_fileName.noSlash
  rw [Path.names_join hrel, isName_fileName.names_eq]
  exact ⟨rfl, Path.isAbsolute_join hrel⟩

theorem names_temporary (dest : Path) :
    Path.names (temporary (Path.join dest fileName)) = Path.names dest ++ [temporaryName] ∧
      Path.isAbsolute (temporary (Path.join dest fileName)) = Path.isAbsolute dest := by
  have hrel := Path.isAbsolute_of_noSlash isName_fileName.noSlash
  obtain ⟨front, hjoin, hopen, hnames, habs⟩ := Path.join_eq_append (p := dest) hrel
  have hsplit : fileName = Bytes.ofString "runtime" ++ Path.fullStop :: Bytes.ofString "json" := by
    decide
  have htemp : temporary (Path.join dest fileName) = front ++ temporaryName := by
    have hn := isName_fileName
    rw [hsplit] at hn
    unfold temporary
    rw [hjoin, hsplit, Path.withExtension_append hopen hn (by decide) (by decide),
      if_neg (by decide), if_neg (by decide), List.append_assoc]
    rfl
  rw [htemp, Path.names_append hopen, isName_temporaryName.names_eq, hnames,
    Path.isAbsolute_append (Path.isAbsolute_of_noSlash isName_temporaryName.noSlash)]
  exact ⟨rfl, habs⟩

end Marker

end SharedRuntime
