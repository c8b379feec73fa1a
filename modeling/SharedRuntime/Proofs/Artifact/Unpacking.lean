import SharedRuntime.Artifact.Unpacking
import SharedRuntime.Proofs.FileSystem.Script

/-!
# Unpacking in stages

An artifact is unpacked in stages: the destination is made, then each entry is put in its place
(`perform_unpackEntry`). The unpacking runs its stages in order (`perform_unpackWith`), so what
holds of all stages holds of it.
-/

set_option autoImplicit false

namespace SharedRuntime.Unpacking

open Script

/-- Unpacks one entry, if it belongs to the payload. -/
def unpackEntry (action : EntryAction) (z : Zip) (dest : Path) (e : Zip.Entry) :
    Script ArchiveFault Unit := do
  let stream ← outcome ((z.openEntry e).mapError .archive)
  match ← outcome (target? dest e.name) with
  | none => pure ()
  | some p => action e.name p stream

/-- The stages of unpacking entries of an archive. -/
def stages (action : EntryAction) (z : Zip) (dest : Path) (es : List Zip.Entry) :
    List (Script ArchiveFault Unit) :=
  withFault .io (makeDirAll dest) :: es.map (unpackEntry action z dest)

/-- How the entries of an artifact are unpacked. -/
def entryAction (compressed : Bool) : EntryAction :=
  if compressed then decompressEntry else fun _ p s => place p s

theorem unpack_eq (compressed : Bool) (artifact dest : Path) :
    (if compressed then decompress artifact dest else extract artifact dest) =
      unpackWith (entryAction compressed) artifact dest := by
  cases compressed <;> rfl

variable {action : EntryAction} {z : Zip} {dest : Path}

/-- An entry is opened and its target found before anything is done. -/
theorem perform_unpackEntry (e : Zip.Entry) (fs : FileSystem) :
    (unpackEntry action z dest e).perform fs =
      match z.openEntry e with
      | .error f => (.error (.archive f), fs)
      | .ok s =>
        match target? dest e.name with
        | .error f => (.error f, fs)
        | .ok none => (.ok (), fs)
        | .ok (some p) => (action e.name p s).perform fs := by
  unfold unpackEntry
  rw [perform_bind, perform_outcome]
  cases z.openEntry e with
  | error f => rfl
  | ok s =>
    dsimp only [Except.mapError]
    rw [perform_bind, perform_outcome]
    cases target? dest e.name with
    | error f => rfl
    | ok target => cases target <;> rfl

/-- Where a plain entry was placed, its directory was made and all of its contents were written. -/
theorem perform_place_ok {p : Path} {s : ByteStream} {fs t : FileSystem}
    (h : (place p s).perform fs = (.ok (), t)) : s.fault = none ∧
      ∃ u, (makeParent p).perform fs = (.ok (), u) ∧ u.write p s.copied = .ok t := by
  obtain ⟨x, u, hparent, h⟩ := bind_ok_iff.1 h
  obtain ⟨y, v, hwrite, h⟩ := bind_ok_iff.1 h
  have hwrite' := change_ok_iff.1 (withFault_ok_iff.1 hwrite)
  split at h <;> cases h
  rename_i hfault
  exact ⟨hfault, u, hparent, hwrite'⟩

theorem perform_eachEntry (es : List Zip.Entry) (fs : FileSystem) :
    (eachEntry action z dest es).perform fs =
      (inOrder (es.map (unpackEntry action z dest))).perform fs := by
  induction es generalizing fs with
  | nil => rfl
  | cons e es ih =>
    rw [eachEntry, List.map_cons, perform_inOrder_cons, unpackEntry]
    rw [perform_bind, perform_bind, perform_outcome]
    cases (z.openEntry e).mapError ArchiveFault.archive with
    | error f => rfl
    | ok stream =>
      dsimp only
      rw [perform_bind, perform_bind, perform_outcome]
      cases target? dest e.name with
      | error f => rfl
      | ok target =>
        cases target with
        | none => exact ih fs
        | some p =>
          dsimp only
          rw [perform_bind]
          cases (action e.name p stream).perform fs with
          | mk r t =>
            cases r with
            | error f => rfl
            | ok x => exact ih t

theorem perform_unpackWith (artifact : Path) (fs : FileSystem) :
    (unpackWith action artifact dest).perform fs =
      match openZip fs artifact with
      | .ok z => (inOrder (stages action z dest z.entries)).perform fs
      | .error f => (.error f, fs) := by
  rw [unpackWith, perform_bind, perform_look]
  cases openZip fs artifact with
  | error f => rfl
  | ok z =>
    dsimp only
    rw [stages, perform_inOrder_cons, perform_bind]
    cases (withFault ArchiveFault.io (makeDirAll dest)).perform fs with
    | mk r t =>
      cases r with
      | error f => rfl
      | ok x => exact perform_eachEntry z.entries t

end SharedRuntime.Unpacking
