import Mathlib.Data.List.Forall2
import SharedRuntime.Artifact.Unpacking
import SharedRuntime.Proofs.Artifact.SignedBytes

/-!
# Archives that hold the same entries

Two archives may hold one entry at different places of their files, with other entries between, or
in another order. What verification makes of an archive is decided by what it holds under the names
of the payload and of the signer block: archives that agree on these have the same digest, the same
identities and the same verdict (`Agrees.verify`).
-/

set_option autoImplicit false

namespace SharedRuntime

namespace Zip

/-- One entry, as it stands in two archives: its name, its size, and what opening it gives. -/
structure SameEntry (z₁ z₂ : Zip) (e₁ e₂ : Entry) : Prop where
  name : e₁.name = e₂.name
  size : e₁.size = e₂.size
  opened : z₁.openEntry e₁ = z₂.openEntry e₂

variable {z₁ z₂ : Zip} {es₁ es₂ : List Entry}

/-- What can be read of an entry. -/
def reading (z : Zip) (e : Entry) : String × Nat × Except Fault ByteStream :=
  (e.name, e.size, z.openEntry e)

/-- Lists of the same entries have the same names. -/
theorem map_name (h : List.Forall₂ (SameEntry z₁ z₂) es₁ es₂) :
    es₁.map Entry.name = es₂.map Entry.name := by
  induction h with
  | nil => rfl
  | cons he _ ih => rw [List.map_cons, List.map_cons, he.name, ih]

/-- Lists of the same entries have the same entry under a name. -/
theorem find?_name (h : List.Forall₂ (SameEntry z₁ z₂) es₁ es₂) (name : String) :
    Option.Rel (SameEntry z₁ z₂) (es₁.find? fun e => e.name == name)
      (es₂.find? fun e => e.name == name) := by
  induction h with
  | nil => exact .none
  | @cons e₁ e₂ _ _ he _ ih =>
    by_cases hn : e₁.name = name
    · rw [List.find?_cons_of_pos (by simpa using hn),
        List.find?_cons_of_pos (by simpa [← he.name] using hn)]
      exact .some he
    · rw [List.find?_cons_of_neg (by simpa using hn),
        List.find?_cons_of_neg (by simpa [← he.name] using hn)]
      exact ih

/-- Where no name occurs twice, the order does not matter for what is found. -/
theorem find?_perm {es es' : List Entry} (h : es.Perm es')
    (hn : (es.map Entry.name).Nodup) (name : String) :
    (es.find? fun e => e.name == name) = es'.find? fun e => e.name == name := by
  induction h with
  | nil => rfl
  | cons e _ ih =>
    rw [List.find?_cons, List.find?_cons, ih (List.nodup_cons.1 hn).2]
  | swap a b es =>
    have hab : b.name ≠ a.name := fun hab => (List.nodup_cons.1 hn).1 (by simp [hab])
    by_cases ha : a.name = name <;> by_cases hb : b.name = name
    · exact absurd (hb.trans ha.symm) hab
    all_goals simp [ha, hb]
  | trans hp _ ih ih' => exact (ih hn).trans (ih' ((hp.map Entry.name).nodup_iff.1 hn))

/-- Both archives hold the same under the names of the payload, of which they have the same, and
under that of the signer block. -/
structure Agrees (z₁ z₂ : Zip) : Prop where
  names : Payload.names z₁ = Payload.names z₂
  payload : ∀ name ∈ Payload.names z₁, Option.Rel (SameEntry z₁ z₂) (z₁.find? name) (z₂.find? name)
  signers : Option.Rel (SameEntry z₁ z₂) (z₁.find? signersEntry) (z₂.find? signersEntry)

namespace Agrees

variable {name : String}

theorem openNamed (h : Option.Rel (SameEntry z₁ z₂) (z₁.find? name) (z₂.find? name)) :
    z₁.openNamed name = z₂.openNamed name := by
  unfold Zip.openNamed
  generalize z₁.find? name = found₁ at h ⊢
  generalize z₂.find? name = found₂ at h ⊢
  cases h with
  | none => rfl
  | some he => exact he.opened

theorem readFile (h : Option.Rel (SameEntry z₁ z₂) (z₁.find? name) (z₂.find? name)) :
    Payload.readFile z₁ name = Payload.readFile z₂ name := by
  unfold Payload.readFile
  generalize z₁.find? name = found₁ at h ⊢
  generalize z₂.find? name = found₂ at h ⊢
  cases h with
  | none => rfl
  | some he =>
    dsimp only
    rw [he.opened, he.size]

theorem files (h : Agrees z₁ z₂) : Payload.files z₁ = Payload.files z₂ := by
  have hall : ∀ names : List String, (∀ name ∈ names, name ∈ Payload.names z₁) →
      names.mapM (Payload.readFile z₁) = names.mapM (Payload.readFile z₂) := by
    intro names hnames
    induction names with
    | nil => rfl
    | cons name names ih =>
      obtain ⟨hname, hnames⟩ := List.forall_mem_cons.1 hnames
      rw [List.mapM_cons, List.mapM_cons, readFile (h.payload name hname), ih hnames]
  unfold Payload.files
  rw [← h.names]
  exact hall _ fun _ hname => hname

theorem digest (h : Agrees z₁ z₂) : Payload.digest z₁ = Payload.digest z₂ := by
  unfold Payload.digest
  rw [h.files]

theorem readSigners (h : Agrees z₁ z₂) : SignerBlock.read z₁ = SignerBlock.read z₂ := by
  unfold SignerBlock.read
  rw [openNamed h.signers]

theorem signedBy (h : Agrees z₁ z₂) : signedBy z₁ = SharedRuntime.signedBy z₂ := by
  unfold SharedRuntime.signedBy
  rw [h.readSigners, h.digest]

variable {fs : FileSystem} {p₁ p₂ : Path}

theorem identities (h : Agrees z₁ z₂) (h₁ : openArtifact fs p₁ = .ok z₁)
    (h₂ : openArtifact fs p₂ = .ok z₂) :
    artifactIdentities fs p₁ = artifactIdentities fs p₂ := by
  unfold artifactIdentities
  rw [h₁, h₂]
  exact h.signedBy

/-- Archives that agree get one verdict, whoever is trusted. -/
theorem verify (h : Agrees z₁ z₂) (h₁ : openArtifact fs p₁ = .ok z₁)
    (h₂ : openArtifact fs p₂ = .ok z₂) (trusted : List Identity) :
    verifyArtifact fs trusted p₁ = verifyArtifact fs trusted p₂ := by
  unfold verifyArtifact
  rw [h.identities h₁ h₂]

end Agrees

end Zip

/-- The verifier opens an archive that the installer opens. -/
theorem openArtifact_of_openZip {fs : FileSystem} {p : Path} {z : Zip}
    (h : Unpacking.openZip fs p = .ok z) : openArtifact fs p = .ok z := by
  unfold Unpacking.openZip at h
  split at h
  · cases h
  · rename_i l id hl
    unfold openArtifact
    rw [hl]
    dsimp only
    cases hz : Zip.ofBytes (fs.contentsOf id) with
    | error f =>
      rw [hz] at h
      cases h
    | ok z' =>
      rw [hz] at h
      cases h
      rfl
  · cases h

end SharedRuntime
