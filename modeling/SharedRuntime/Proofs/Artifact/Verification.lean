import SharedRuntime.Artifact.Verification
import SharedRuntime.Proofs.Archive.Contents

/-!
# What a verification stands for

What it means that an artifact is signed by a list of identities, without the order in which it is
read: `SignedBy`. Reading comes to the identities exactly when the artifact is signed by them
(`artifactIdentities_iff`), and `verifyArtifact_spec` says which verdict follows.
-/

set_option autoImplicit false

namespace SharedRuntime

/-! ## What an artifact holds -/

/-- The signer block of an archive is a JSON text with these signers. -/
def SignerBlock.In (z : Zip) (signers : List Signer) : Prop :=
  ∃ e contents text json, z.find? signersEntry = some e ∧ z.ReadsAs e contents ∧
    Utf8.decode? contents = some text ∧ Json.parse? text = some json ∧
      SignerBlock.ofJson? json = some signers

theorem SignerBlock.read_iff {z : Zip} {signers : List Signer} :
    SignerBlock.read z = .ok signers ↔ SignerBlock.In z signers := by
  unfold SignerBlock.read SignerBlock.In Zip.openNamed
  constructor
  · intro h
    cases he : z.find? signersEntry with
    | none =>
      rw [he] at h
      cases h
    | some e =>
      simp only [he] at h
      split at h
      · cases h
      · rename_i s hs
        split at h
        · cases h
        · rename_i contents hc
          split at h
          · cases h
          · rename_i text ht
            split at h
            · cases h
            · rename_i found hj
              cases h
              obtain ⟨json, hp, ho⟩ := Option.bind_eq_some_iff.1 hj
              exact ⟨e, contents, text, json, rfl, Zip.readsAs_iff.2 ⟨s, hs, hc⟩, ht, hp, ho⟩
  · rintro ⟨e, contents, text, json, he, hr, ht, hp, ho⟩
    obtain ⟨s, hs, hc⟩ := Zip.readsAs_iff.1 hr
    simp only [he, hs, hc, ht, hp, Option.bind_some, ho]

namespace Payload

/-- The file is what the entry of the name holds, and that has its recorded size. -/
def Holds (z : Zip) (name : String) (f : File) : Prop :=
  f.name = name ∧ ∃ e, z.find? name = some e ∧ z.ReadsAs e f.contents ∧ f.contents.length = e.size

theorem readFile_iff {z : Zip} {name : String} {f : File} :
    readFile z name = .ok f ↔ Holds z name f := by
  unfold readFile Holds
  constructor
  · intro h
    split at h
    · cases h
    · rename_i e he
      split at h
      · cases h
      · rename_i s hs
        split at h
        · cases h
        · rename_i contents hc
          split at h
          · rename_i hlen
            cases h
            exact ⟨rfl, e, he, Zip.readsAs_iff.2 ⟨s, hs, hc⟩, hlen⟩
          · cases h
  · rintro ⟨rfl, e, he, hr, hlen⟩
    obtain ⟨s, hs, hc⟩ := Zip.readsAs_iff.1 hr
    simp only [he, hs, hc, if_pos hlen]

/-- The files are the payload entries, in the order of their names. -/
def In (z : Zip) (fs : List File) : Prop := List.Forall₂ (Holds z) (names z) fs

theorem files_iff {z : Zip} {fs : List File} : files z = .ok fs ↔ In z fs := by
  unfold files In
  rw [mapM_ok_iff]
  simp only [readFile_iff]

/-- The digest of a payload. -/
def digestOf (fs : List File) : Bytes := Digest.Sha256.hash (signedBytes fs)

theorem digest_iff {z : Zip} {d : Bytes} : digest z = .ok d ↔ ∃ fs, In z fs ∧ d = digestOf fs := by
  unfold digest
  constructor
  · intro h
    cases hf : files z with
    | error e =>
      rw [hf] at h
      cases h
    | ok fs =>
      rw [hf] at h
      cases h
      exact ⟨fs, files_iff.1 hf, rfl⟩
  · rintro ⟨fs, hf, rfl⟩
    rw [files_iff.2 hf]
    rfl

end Payload

/-! ## Who signed an artifact -/

namespace Signer

/-- The signer has this identity, a key under which its signature of the digest holds. -/
structure Signs (digest : Bytes) (s : Signer) (i : Identity) : Prop where
  key : Hex.decode (trim s.publicKey) = .ok i.key
  isKey : Ed25519.isKey i.key = true
  signature : ∃ signature, Hex.decode (trim s.signature) = .ok signature ∧
    signature.length = signatureSize ∧ Ed25519.verify i.key digest signature = true

end Signer

theorem Identity.ofHex_iff {text : String} {i : Identity} :
    Identity.ofHex text = .ok i ↔ Hex.decode (trim text) = .ok i.key := by
  unfold Identity.ofHex Identity.ofKey
  constructor
  · intro h
    split at h
    · cases h
    · rename_i key hk
      split at h
      · cases h
        exact hk
      · cases h
  · intro h
    simp only [h, dif_pos i.length_key]

theorem Signer.identity_iff {n : Nat} {s : Signer} {digest : Bytes} {i : Identity} :
    s.identity n digest = .ok i ↔ s.Signs digest i := by
  unfold Signer.identity
  rw [except_bind_ok_iff]
  constructor
  · rintro ⟨j, hj, h⟩
    split at h
    · cases h
    · rename_i hkey
      split at h
      · cases h
      · rename_i signature hs
        split at h
        · rename_i hv
          cases h
          obtain ⟨hlen, hver⟩ := Bool.and_eq_true_iff.1 hv
          exact ⟨Identity.ofHex_iff.1 hj, by simpa using hkey, signature, hs,
            of_decide_eq_true hlen, hver⟩
        · cases h
  · rintro ⟨hk, hi, signature, hs, hlen, hver⟩
    refine ⟨i, Identity.ofHex_iff.2 hk, ?_⟩
    simp only [hi, hs, hlen, hver, Bool.not_true, Bool.false_eq_true, if_false, decide_true,
      Bool.and_self, if_true]

theorem SignerBlock.identitiesFrom_iff {digest : Bytes} {n : Nat} {signers : List Signer}
    {ids : List Identity} : identitiesFrom digest n signers = .ok ids ↔
      List.Forall₂ (Signer.Signs digest) signers ids := by
  induction signers generalizing n ids with
  | nil =>
    rw [List.forall₂_nil_left_iff]
    exact ⟨fun h => (Except.ok.inj h).symm, fun h => congrArg Except.ok h.symm⟩
  | cons s ss ih =>
    unfold identitiesFrom
    rw [except_bind_ok_iff, List.forall₂_cons_left_iff]
    constructor
    · rintro ⟨i, hi, h⟩
      obtain ⟨is, his, h⟩ := except_bind_ok_iff.1 h
      cases h
      exact ⟨i, is, Signer.identity_iff.1 hi, ih.1 his, rfl⟩
    · rintro ⟨i, is, hi, his, rfl⟩
      exact ⟨i, Signer.identity_iff.2 hi, except_bind_ok_iff.2 ⟨is, ih.2 his, rfl⟩⟩

/-- The file at the path is an archive with these signers and this payload. -/
def ArtifactHolds (fs : FileSystem) (p : Path) (signers : List Signer)
    (payload : List Payload.File) : Prop :=
  ∃ l id z, fs.locate p = .ok (l, .file id) ∧ Zip.ofBytes (fs.contentsOf id) = .ok z ∧
    SignerBlock.In z signers ∧ Payload.In z payload

theorem openArtifact_iff {fs : FileSystem} {p : Path} {z : Zip} : openArtifact fs p = .ok z ↔
    ∃ l id, fs.locate p = .ok (l, .file id) ∧ Zip.ofBytes (fs.contentsOf id) = .ok z := by
  unfold openArtifact
  constructor
  · intro h
    split at h
    · cases h
    · rename_i l id hl
      refine ⟨l, id, hl, ?_⟩
      cases hz : Zip.ofBytes (fs.contentsOf id) with
      | error e =>
        rw [hz] at h
        cases h
      | ok z' =>
        rw [hz] at h
        cases h
        rfl
    · cases h
  · rintro ⟨l, id, hl, hz⟩
    simp only [hl, hz]
    rfl

/-- The artifact at the path is signed by these identities: it has as many signers, and each of
them has the identity at its place and a signature of the payload. -/
def SignedBy (fs : FileSystem) (p : Path) (ids : List Identity) : Prop :=
  ∃ signers payload, ArtifactHolds fs p signers payload ∧ signers.length = ids.length ∧
    ∀ n (hs : n < signers.length) (hi : n < ids.length),
      signers[n].Signs (Payload.digestOf payload) ids[n]

/-- Reading comes to the identities that signed the artifact. -/
theorem artifactIdentities_iff {fs : FileSystem} {p : Path} {ids : List Identity} :
    artifactIdentities fs p = .ok ids ↔ SignedBy fs p ids := by
  unfold artifactIdentities SignedBy signedBy
  rw [except_bind_ok_iff]
  constructor
  · rintro ⟨z, hz, h⟩
    obtain ⟨signers, hs, h⟩ := except_bind_ok_iff.1 h
    obtain ⟨digest, hd, h⟩ := except_bind_ok_iff.1 h
    obtain ⟨payload, hp, rfl⟩ := Payload.digest_iff.1 hd
    obtain ⟨l, id, hl, hz⟩ := openArtifact_iff.1 hz
    obtain ⟨hlen, hall⟩ := List.forall₂_iff_get.1 (SignerBlock.identitiesFrom_iff.1 h)
    exact ⟨signers, payload, ⟨l, id, z, hl, hz, SignerBlock.read_iff.1 hs, hp⟩, hlen, hall⟩
  · rintro ⟨signers, payload, ⟨l, id, z, hl, hz, hs, hp⟩, hlen, hall⟩
    refine ⟨z, openArtifact_iff.2 ⟨l, id, hl, hz⟩, except_bind_ok_iff.2 ⟨signers, ?_, ?_⟩⟩
    · exact SignerBlock.read_iff.2 hs
    · exact except_bind_ok_iff.2 ⟨_, Payload.digest_iff.2 ⟨payload, hp, rfl⟩,
        SignerBlock.identitiesFrom_iff.2 (List.forall₂_iff_get.2 ⟨hlen, hall⟩)⟩

/-! ## The verdict -/

/-- Lists of one length that differ nowhere are equal. -/
theorem firstDifference?_eq_none_iff {n : Nat} {hs as : List Identity}
    (hlen : hs.length = as.length) : firstDifference? n hs as = none ↔ hs = as := by
  induction hs generalizing as n with
  | nil =>
    obtain rfl : as = [] := List.length_eq_zero_iff.1 hlen.symm
    exact ⟨fun _ => rfl, fun _ => rfl⟩
  | cons h hs ih =>
    cases as with
    | nil => cases hlen
    | cons a as =>
      unfold firstDifference?
      by_cases hha : h = a
      · rw [if_pos hha, ih (Nat.succ.inj hlen), hha, List.cons.injEq]
        exact ⟨fun h => ⟨rfl, h⟩, fun h => h.2⟩
      · rw [if_neg hha]
        refine ⟨(fun h => by cases h), fun h => ?_⟩
        exact absurd (List.cons.inj h).1 hha

/-- The first difference is at the least place where the lists differ. -/
theorem firstDifference?_eq_some {n i : Nat} {hs as : List Identity}
    (hlen : hs.length = as.length) (hbefore : ∀ j < i, hs[j]? = as[j]?) (hat : hs[i]? ≠ as[i]?) :
    firstDifference? n hs as = some (n + i) := by
  induction hs generalizing as n i with
  | nil =>
    obtain rfl : as = [] := List.length_eq_zero_iff.1 hlen.symm
    exact absurd rfl hat
  | cons h hs ih =>
    cases as with
    | nil => cases hlen
    | cons a as =>
      unfold firstDifference?
      cases i with
      | zero =>
        have hha : h ≠ a := fun hha => hat (congrArg some hha)
        rw [if_neg hha]
        rfl
      | succ i =>
        have hha : h = a := Option.some.inj (hbefore 0 (Nat.succ_pos i))
        have hrest := ih (n := n + 1) (Nat.succ.inj hlen)
          (fun j hj => hbefore (j + 1) (Nat.succ_lt_succ hj)) hat
        rw [if_pos hha, hrest, Nat.add_right_comm]
        rfl

theorem compareIdentities_passed_iff {host artifact : List Identity} :
    (compareIdentities host artifact).passed = true ↔ host ≠ [] ∧ artifact = host := by
  unfold compareIdentities
  split
  · rename_i h
    simp only [Bool.or_eq_true, decide_eq_true_eq] at h
    refine ⟨(fun hp => by cases hp), ?_⟩
    rintro ⟨hne, rfl⟩
    exact absurd h (by simp [hne])
  · rename_i h
    simp only [Bool.or_eq_true, decide_eq_true_eq, not_or] at h
    split
    · rename_i hlen
      refine ⟨(fun hp => by cases hp), ?_⟩
      rintro ⟨-, rfl⟩
      simp at hlen
    · rename_i hlen
      have hlen' : host.length = artifact.length := by simpa using hlen
      split
      · rename_i i hi
        refine ⟨(fun hp => by cases hp), ?_⟩
        rintro ⟨-, rfl⟩
        rw [(firstDifference?_eq_none_iff rfl).2 rfl] at hi
        cases hi
      · rename_i hi
        exact ⟨fun _ => ⟨h.1, ((firstDifference?_eq_none_iff hlen').1 hi).symm⟩, fun _ => rfl⟩

/-- An artifact passes exactly when it is signed by the trusted identities, at least one. Where it
is signed by no list, that is the reason why it does not pass; else whether there is no signature,
another number of them, or another identity at a place, the least of which is named. -/
theorem verifyArtifact_spec (fs : FileSystem) (trusted : List Identity) (p : Path) :
    ((verifyArtifact fs trusted p).passed = true ↔ trusted ≠ [] ∧ SignedBy fs p trusted) ∧
      ((∀ ids, ¬ SignedBy fs p ids) →
        (verifyArtifact fs trusted p).passed = false ∧
          (verifyArtifact fs trusted p).reason = "invalid artifact") ∧
      ∀ ids, SignedBy fs p ids →
        (trusted = [] ∨ ids = [] →
          (verifyArtifact fs trusted p).passed = false ∧
            (verifyArtifact fs trusted p).reason = "no signatures") ∧
        (trusted ≠ [] → ids ≠ [] → ids.length ≠ trusted.length →
          (verifyArtifact fs trusted p).passed = false ∧
            (verifyArtifact fs trusted p).reason = "signature count differs") ∧
        (ids.length = trusted.length →
          ∀ i : Nat, (∀ j < i, ids[j]? = trusted[j]?) → ids[i]? ≠ trusted[i]? →
            (verifyArtifact fs trusted p).passed = false ∧
              (verifyArtifact fs trusted p).reason =
                "signature " ++ toString i ++ " does not match") := by
  have hread : ∀ {ids}, SignedBy fs p ids →
      verifyArtifact fs trusted p = compareIdentities trusted ids := by
    intro ids h
    unfold verifyArtifact verdict
    rw [artifactIdentities_iff.2 h]
  have hnone : (∀ ids, ¬ SignedBy fs p ids) → verifyArtifact fs trusted p = .invalidArtifact := by
    intro h
    unfold verifyArtifact verdict
    cases ha : artifactIdentities fs p with
    | error e => rfl
    | ok ids => exact absurd (artifactIdentities_iff.1 ha) (h ids)
  refine ⟨⟨fun hp => ?_, fun ⟨hne, h⟩ => ?_⟩, fun h => ?_, fun ids h => ⟨fun hor => ?_, ?_, ?_⟩⟩
  · by_cases h : ∃ ids, SignedBy fs p ids
    · obtain ⟨ids, h⟩ := h
      rw [hread h] at hp
      obtain ⟨hne, rfl⟩ := compareIdentities_passed_iff.1 hp
      exact ⟨hne, h⟩
    · rw [hnone (not_exists.1 h)] at hp
      cases hp
  · rw [hread h]
    exact compareIdentities_passed_iff.2 ⟨hne, rfl⟩
  · rw [hnone h]
    exact ⟨rfl, rfl⟩
  · rw [hread h]
    unfold compareIdentities
    rw [if_pos (by simpa using hor)]
    exact ⟨rfl, rfl⟩
  · intro hne hids hlen
    rw [hread h]
    unfold compareIdentities
    rw [if_neg (by simp [hne, hids]), if_pos (by simpa using hlen.symm)]
    exact ⟨rfl, rfl⟩
  · intro hlen i hbefore hat
    have hdiff := firstDifference?_eq_some (n := 0) hlen.symm
      (fun j hj => (hbefore j hj).symm) (Ne.symm hat)
    have hne : trusted ≠ [] ∧ ids ≠ [] := by
      refine ⟨fun hnil => hat ?_, fun hnil => hat ?_⟩
      · rw [hnil, List.length_eq_zero_iff.1 (hlen.trans (congrArg List.length hnil))]
      · rw [hnil, List.length_eq_zero_iff.1 (hlen.symm.trans (congrArg List.length hnil))]
    rw [hread h]
    unfold compareIdentities
    rw [if_neg (by simp [hne]), if_neg (by simp [hlen]), hdiff, Nat.zero_add]
    exact ⟨rfl, rfl⟩

end SharedRuntime
