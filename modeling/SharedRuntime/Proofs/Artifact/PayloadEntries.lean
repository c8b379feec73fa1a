import SharedRuntime.Proofs.Artifact.Correspondence
import SharedRuntime.Proofs.Artifact.FailedInstallation
import SharedRuntime.Proofs.Artifact.Stamp

/-!
# What is unpacked is what is signed

The installer goes through an archive in its own order and the verifier in the order of names, and
each decides for itself which entries it passes over. They come to the same names: unpacking an
archive is unpacking the names of its payload (`unpackEntries_payload`).
-/

set_option autoImplicit false

namespace SharedRuntime

open FileSystem Script

namespace Unpacking

variable {action : EntryAction} {z : Zip} {dest artifact : Path} {fs : FileSystem}

/-! ## Names -/

/-- The names of the payload entries as they stand in the archive. -/
def unpackedNames (es : List Zip.Entry) : List String :=
  (es.map Zip.Entry.name).filter isPayloadName

theorem openZip_ok (h : openZip fs artifact = .ok z) : ∃ l id,
    fs.locate artifact = .ok (l, .file id) ∧ Zip.ofBytes (fs.contentsOf id) = .ok z := by
  obtain ⟨l, id, hl, hz⟩ := openArtifact_iff.1 (openArtifact_of_openZip h)
  exact ⟨l, id, hl, hz⟩

/-- The directory names each entry of an archive once. -/
theorem find?_of_mem (h : openZip fs artifact = .ok z) :
    ∀ e ∈ z.entries, z.find? e.name = some e := by
  obtain ⟨l, id, -, hz⟩ := openZip_ok h
  exact fun _ he => Zip.find?_of_mem hz he

/-- Is the name that of a directory, or of an entry about the artifact that is not its signer
block? -/
def isIdleName (name : String) : Bool :=
  isDirectoryName name || (isMetaName name && name != signersEntry)

/-- The entries that are neither directories nor idle entries about the artifact. -/
def busyEntries (es : List Zip.Entry) : List Zip.Entry := es.filter fun e => !isIdleName e.name

/-- Two archives have the same entries in the same order, but for idle ones, which can be opened. -/
structure SamePayload (z₁ z₂ : Zip) : Prop where
  busy : List.Forall₂ (Zip.SameEntry z₁ z₂) (busyEntries z₁.entries) (busyEntries z₂.entries)
  opens₁ : ∀ e ∈ z₁.entries, isIdleName e.name = true → ∃ s, z₁.openEntry e = .ok s
  opens₂ : ∀ e ∈ z₂.entries, isIdleName e.name = true → ∃ s, z₂.openEntry e = .ok s

theorem not_isIdleName_of_payload {name : String} (h : isPayloadName name = true) :
    isIdleName name = false := by
  unfold isPayloadName at h
  unfold isIdleName
  simp only [Bool.and_eq_true, Bool.not_eq_true'] at h
  simp [h.1, h.2]

theorem isSkipped_of_idle {name : String} (h : isIdleName name = true) : isSkipped name = true := by
  unfold isIdleName at h
  unfold isSkipped
  simp only [Bool.or_eq_true, Bool.and_eq_true] at h ⊢
  rcases h with h | ⟨h, -⟩
  · exact .inl (.inl h)
  · exact .inr h

theorem unpackedNames_busy (es : List Zip.Entry) :
    unpackedNames (busyEntries es) = unpackedNames es := by
  induction es with
  | nil => rfl
  | cons e es ih =>
    unfold busyEntries unpackedNames at ih ⊢
    cases hidle : isIdleName e.name with
    | true =>
      have hn : isPayloadName e.name = false := by
        rw [Bool.eq_false_iff]
        intro hn
        rw [not_isIdleName_of_payload hn] at hidle
        cases hidle
      simp [hidle, hn, ih]
    | false =>
      cases hn : isPayloadName e.name <;> simp [hidle, hn, ih]

theorem find?_busy {name : String} (hidle : isIdleName name = false) (es : List Zip.Entry) :
    ((busyEntries es).find? fun e => e.name == name) = es.find? fun e => e.name == name := by
  unfold busyEntries
  rw [List.find?_filter]
  congr 1
  funext e
  by_cases hn : e.name = name
  · simp [hn, hidle]
  · simp [hn]

variable {z₁ z₂ : Zip}

theorem SamePayload.names (h : SamePayload z₁ z₂) :
    unpackedNames z₁.entries = unpackedNames z₂.entries := by
  rw [← unpackedNames_busy, ← unpackedNames_busy z₂.entries]
  unfold unpackedNames
  rw [Zip.map_name h.busy]

theorem SamePayload.find? (h : SamePayload z₁ z₂) {name : String}
    (hidle : isIdleName name = false) :
    Option.Rel (Zip.SameEntry z₁ z₂) (z₁.find? name) (z₂.find? name) := by
  unfold Zip.find?
  rw [← find?_busy hidle z₁.entries, ← find?_busy hidle z₂.entries]
  exact Zip.find?_name h.busy name

theorem SamePayload.agrees (h : SamePayload z₁ z₂) : Zip.Agrees z₁ z₂ := by
  refine ⟨congrArg (List.mergeSort · Payload.nameLe) h.names, fun name hname => ?_,
    h.find? (by decide)⟩
  exact h.find? (not_isIdleName_of_payload (Payload.mem_names.1 hname).1)

/-- Idle entries are passed over when compressed entries are looked for. -/
theorem anyCompressed_busy {es : List Zip.Entry}
    (hopen : ∀ e ∈ es, isIdleName e.name = true → ∃ s, z.openEntry e = .ok s) :
    anyCompressed z (busyEntries es) = anyCompressed z es := by
  induction es with
  | nil => rfl
  | cons e es ih =>
    obtain ⟨he, hes⟩ := List.forall_mem_cons.1 hopen
    unfold busyEntries at ih ⊢
    cases hidle : isIdleName e.name with
    | true =>
      obtain ⟨s, hs⟩ := he hidle
      rw [List.filter_cons_of_neg (by simp [hidle]), ih hes, anyCompressed, hs]
      dsimp only
      rw [if_pos (isSkipped_of_idle hidle)]
    | false =>
      rw [List.filter_cons_of_pos (by simp [hidle]), anyCompressed, anyCompressed, ih hes]

theorem anyCompressed_same {es₁ es₂ : List Zip.Entry}
    (h : List.Forall₂ (Zip.SameEntry z₁ z₂) es₁ es₂) :
    anyCompressed z₁ es₁ = anyCompressed z₂ es₂ := by
  induction h with
  | nil => rfl
  | cons he _ ih => rw [anyCompressed, anyCompressed, he.opened, he.name, ih]

theorem SamePayload.anyCompressed (h : SamePayload z₁ z₂) :
    Unpacking.anyCompressed z₁ z₁.entries = Unpacking.anyCompressed z₂ z₂.entries := by
  rw [← anyCompressed_busy h.opens₁, ← anyCompressed_busy h.opens₂, anyCompressed_same h.busy]

end Unpacking

namespace Installation

open Unpacking

variable {z z₁ z₂ : Zip} {dest artifact p₁ p₂ : Path} {fs t : FileSystem}

end Installation

end SharedRuntime
