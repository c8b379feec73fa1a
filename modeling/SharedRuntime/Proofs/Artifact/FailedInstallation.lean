import SharedRuntime.Archive.Zip.Writer
import SharedRuntime.Proofs.Artifact.Marker
import SharedRuntime.Proofs.Artifact.Unpacking
import SharedRuntime.Proofs.FileSystem.Operations

/-!
# What a failed installation leaves

An installation removes the marker of the earlier runtime before it unpacks anything
(`clearMarker_ok`). What a failed one leaves passes for an installed runtime in two cases only: if
nothing changed and it passed before, or if some stage of the unpacking brought a marker that passes
(`failed_install_passes_iff`). The second does happen: `failed_install_matched` is an artifact whose
marker comes before an entry that is refused.
-/

set_option autoImplicit false

namespace SharedRuntime

namespace Installation

open Script

variable {fs fs' : FileSystem} {dest : Path}

/-- Once the marker is cleared, its path leads to nothing. -/
theorem clearMarker_ok (h : (clearMarker dest).perform fs = (.ok (), fs')) :
    fs'.exists? (Path.join dest Marker.fileName) = false := by
  rw [Bool.eq_false_iff]
  intro hex
  obtain ⟨loc, node, s, d, hnode⟩ := FileSystem.exists?_ok hex
  rw [perform_clearMarker] at h
  cases hrem : fs.remove (Path.join dest Marker.fileName) with
  | ok fs₁ =>
    rw [hrem] at h
    cases h
    obtain ⟨x, n, s', hwalk, -, rfl⟩ := FileSystem.remove_ok hrem
    exact FileSystem.walk_erase (FileSystem.resolve_eq hwalk) loc node s d
      (FileSystem.resolve_eq hnode)
  | error f =>
    rw [hrem] at h
    dsimp only at h
    split at h
    · rename_i hmiss
      cases h
      have hf : f = .os .noEntry := by simpa [IoFault.isMissing] using hmiss
      subst hf
      have hno := FileSystem.remove_missing hrem
      exact hno loc node s d
        ((FileSystem.resolve_always rfl fun l t => hno l (.link t)).symm.trans hnode)
    · cases h

/-- A marker that cannot be cleared leaves everything as it was. -/
theorem clearMarker_error {f : IoFault}
    (h : (clearMarker dest).perform fs = (.error f, fs')) : fs' = fs := by
  rw [perform_clearMarker] at h
  cases hrem : fs.remove (Path.join dest Marker.fileName) with
  | ok fs₁ =>
    rw [hrem] at h
    cases h
  | error g =>
    rw [hrem] at h
    dsimp only at h
    split at h <;> cases h
    rfl

theorem installedStatus_absent (h : fs.exists? (Path.join dest Marker.fileName) = false)
    (expected : Option String) : installedStatus fs dest expected = .absent := by
  unfold installedStatus Marker.load
  rw [h]
  rfl

/-! ## Where an installation fails -/

variable {now : Instant} {artifact : Path} {e : UpdateError} {compressed : Bool}
  {cleared : FileSystem}

/-- An installation that gets as far as unpacking fails there or not at all. -/
theorem unpack_error (hprobe : Unpacking.isCompressed fs artifact = .ok compressed)
    (hclear : (clearMarker dest).perform fs = (.ok (), cleared))
    (h : (install now artifact dest).perform fs = (.error e, fs')) :
    ∃ f, (Unpacking.unpackWith (Unpacking.entryAction compressed) artifact dest).perform
      cleared = (.error f, fs') := by
  unfold install installWith at h
  rw [perform_bind, perform_withFault, perform_look, hprobe] at h
  dsimp only [Except.mapError] at h
  rw [perform_bind, perform_withFault, hclear] at h
  dsimp only [Except.mapError] at h
  rw [Unpacking.unpack_eq] at h
  rcases bind_error_iff.1 h with h | ⟨u, t, -, h⟩
  · obtain ⟨f, hf, -⟩ := withFault_error_iff.1 h
    exact ⟨f, hf⟩
  · obtain ⟨f, hf, -⟩ := withFault_error_iff.1 h
    have hok := stampMarker_ok now dest t
    rw [hf] at hok
    cases hok

/-- An installation fails before it changes anything, or while it unpacks. -/
theorem install_error (h : (install now artifact dest).perform fs = (.error e, fs')) :
    fs' = fs ∨ ∃ compressed cleared, Unpacking.isCompressed fs artifact = .ok compressed ∧
      (clearMarker dest).perform fs = (.ok (), cleared) := by
  rcases bind_error_iff.1 h with hprobe | ⟨compressed, t, hprobe, h⟩
  · obtain ⟨f, hf, -⟩ := withFault_error_iff.1 hprobe
    rw [perform_look] at hf
    obtain ⟨-, rfl⟩ := Prod.mk.inj hf
    exact .inl rfl
  · have hlook := withFault_ok_iff.1 hprobe
    rw [perform_look] at hlook
    obtain ⟨hcompressed, rfl⟩ := Prod.mk.inj hlook
    rcases bind_error_iff.1 h with hclear | ⟨u, cleared, hclear, -⟩
    · obtain ⟨f, hf, -⟩ := withFault_error_iff.1 hclear
      exact .inl (clearMarker_error hf)
    · exact .inr ⟨compressed, cleared, hcompressed, withFault_ok_iff.1 hclear⟩

/-! ## What passes -/

/-- Does the runtime in a directory pass for an installed one? -/
def Passes (dest : Path) (expected : Option String) (fs : FileSystem) : Prop :=
  (installedStatus fs dest expected).isSatisfied = true

variable {expected : Option String}

theorem not_passes_cleared (h : (clearMarker dest).perform fs = (.ok (), cleared)) :
    ¬ Passes dest expected cleared := by
  intro hp
  unfold Passes at hp
  rw [installedStatus_absent (clearMarker_ok h)] at hp
  cases hp

/-- Some stage of the unpacking brings a marker that passes, and what is unpacked after it leaves
it there. -/
def BringsMarker (fs : FileSystem) (artifact dest : Path) (expected : Option String) : Prop :=
  ∃ compressed cleared z, Unpacking.isCompressed fs artifact = .ok compressed ∧
    (clearMarker dest).perform fs = (.ok (), cleared) ∧
      Unpacking.openZip cleared artifact = .ok z ∧
        Turns (Passes dest expected)
          (Unpacking.stages (Unpacking.entryAction compressed) z dest z.entries) cleared

/-- What a failed installation leaves passes for an installed runtime only if it is what was there
before, or if the marker came with the part of the artifact that was unpacked. -/
theorem failed_install_passes_iff
    (h : (install now artifact dest).perform fs = (.error e, fs')) (expected : Option String) :
    Passes dest expected fs' ↔
      (fs' = fs ∧ Passes dest expected fs) ∨ BringsMarker fs artifact dest expected := by
  constructor
  · intro hpass
    rcases install_error h with rfl | ⟨compressed, cleared, hprobe, hclear⟩
    · exact .inl ⟨rfl, hpass⟩
    · obtain ⟨f, hf⟩ := unpack_error hprobe hclear h
      rw [Unpacking.perform_unpackWith] at hf
      cases hz : Unpacking.openZip cleared artifact with
      | error g =>
        rw [hz] at hf
        cases hf
        exact absurd hpass (not_passes_cleared hclear)
      | ok z =>
        rw [hz] at hf
        dsimp only at hf
        refine .inr ⟨compressed, cleared, z, hprobe, hclear, hz, ?_⟩
        -- The marker is gone at first, so some stage has brought the one that passes.
        refine (inOrder_turn_iff (not_passes_cleared hclear)).1 ?_
        rw [hf]
        exact hpass
  · rintro (⟨rfl, hpass⟩ | ⟨compressed, cleared, z, hprobe, hclear, hz, hturns⟩)
    · exact hpass
    · obtain ⟨f, hf⟩ := unpack_error hprobe hclear h
      rw [Unpacking.perform_unpackWith, hz] at hf
      dsimp only at hf
      have hend := (inOrder_turn_iff (not_passes_cleared hclear)).2 hturns
      rw [hf] at hend
      exact hend

/-- A file `a` that holds an artifact: its marker, then an entry that would leave the
destination. -/
def markerThenEscape : FileSystem :=
  FileSystem.empty.insertFile [Path.ofString "a"]
    (Zip.write [("runtime.json", Bytes.ofString "\x7b\"version\":\"1\"\x7d"),
      ("../x", Bytes.ofString "x")])

/-- The installation of that artifact into `o`. -/
def refusedRun : Except UpdateError Unit × FileSystem :=
  (install ⟨⟨2024, 1, 1⟩, 0, 0, 0, 0⟩ (Path.ofString "a") (Path.ofString "o")).perform
    markerThenEscape

/-- Where nothing was installed before, this installation fails and leaves a runtime that
matches. -/
theorem failed_install_matched : ∃ e fs', refusedRun = (.error e, fs') ∧
    installedStatus markerThenEscape (Path.ofString "o") none = .absent ∧
      installedStatus fs' (Path.ofString "o") none = .matched ∧
        BringsMarker markerThenEscape (Path.ofString "a") (Path.ofString "o") none := by
  have hrun : refusedRun.1.toOption = none ∧
      installedStatus markerThenEscape (Path.ofString "o") none = .absent ∧
        installedStatus refusedRun.2 (Path.ofString "o") none = .matched := by
    decide +kernel
  obtain ⟨herror, habsent, hmatched⟩ := hrun
  cases hr : refusedRun with
  | mk r fs' =>
    rw [hr] at herror hmatched
    cases r with
    | ok u => cases herror
    | error e =>
      refine ⟨e, fs', rfl, habsent, hmatched, ?_⟩
      have hpass : Passes (Path.ofString "o") none fs' :=
        congrArg RuntimeStatus.isSatisfied hmatched
      rcases (failed_install_passes_iff hr none).1 hpass with ⟨-, h⟩ | h
      · unfold Passes at h
        rw [habsent] at h
        cases h
      · exact h

end Installation

end SharedRuntime
