import SharedRuntime.Proofs.Artifact.Marker
import SharedRuntime.Proofs.FileSystem.Replacing
import SharedRuntime.Proofs.Installed.Marker

/-!
# A marker that is saved over another

A marker is saved by writing it beside its place and renaming it. Where neither of the two names is
a link, what stands there afterwards is what was saved (`Marker.Stands.saved`).
-/

set_option autoImplicit false

namespace SharedRuntime

open Script

namespace Marker

variable {fs u : FileSystem} {dest : Path} {m m' : Marker}

theorem temporary_join (dest : Path) :
    temporary (Path.join dest fileName) = Path.join dest temporaryName := by
  obtain ⟨pre, hopen, -, -, hjoin⟩ := Path.join_open dest
  have hsplit : fileName = Bytes.ofString "runtime" ++ Path.fullStop :: Bytes.ofString "json" := by
    decide
  have hn := isName_fileName
  rw [hjoin _ (Path.isAbsolute_of_noSlash isName_fileName.noSlash),
    hjoin _ (Path.isAbsolute_of_noSlash isName_temporaryName.noSlash), temporary]
  rw [hsplit] at hn ⊢
  rw [Path.withExtension_append hopen hn (by decide) (by decide), if_neg (by decide),
    if_neg (by decide), List.append_assoc]
  rfl

theorem save_ok {p : Path} (h : (save m p).perform fs = (.ok (), u)) : ∃ t,
    fs.write (temporary p) (Bytes.ofString m.text) = .ok t ∧ t.rename (temporary p) p = .ok u := by
  obtain ⟨x, t, hwrite, hrename⟩ := bind_ok_iff.1 h
  exact ⟨t, change_ok_iff.1 hwrite, change_ok_iff.1 hrename⟩

/-- What stands at the path after a marker was saved over another is what was saved. -/
theorem Stands.saved (h : Stands fs (Path.join dest fileName) m')
    (hp : fs.NoLink (Path.join dest fileName))
    (hq : fs.NoLink (temporary (Path.join dest fileName))) (hm : ∀ t ∈ m.installedAt, t.IsValid)
    (hsave : (save m (Path.join dest fileName)).perform fs = (.ok (), u)) :
    Stands u (Path.join dest fileName) m := by
  obtain ⟨l, i, hfound⟩ := h.file
  obtain ⟨t, hwrite, hrename⟩ := save_ok hsave
  rw [temporary_join] at hq hwrite hrename
  obtain ⟨dir, hbeside⟩ := FileSystem.beside_of_write isName_fileName isName_temporaryName
    (by decide) (by decide) (fun _ => by decide) hp hq hfound hwrite
  exact stands_of_read hm (hbeside.read_replaced hwrite hrename)

end Marker

end SharedRuntime
