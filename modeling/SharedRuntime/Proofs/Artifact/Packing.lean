import SharedRuntime.Artifact.Packing
import SharedRuntime.Proofs.Archive.ZipWriter
import SharedRuntime.Proofs.Artifact.SignedBytes
import SharedRuntime.Proofs.Artifact.Verification
import SharedRuntime.Proofs.FileSystem.Script
import SharedRuntime.Proofs.FileSystem.Vacant
import SharedRuntime.Proofs.Json.RoundTrip
import SharedRuntime.Proofs.Json.Tagged

/-!
# Packing and verifying agree

What `packArtifactWith` leaves at a path is read back as what was packed: the files, the signers and
the digest that they signed (`packed_verifies`). How an archive is laid out does not matter, as long
as it is read back as the files that it was made from (`Zip.Holds`); what `Zip.write` lays out is,
if the files leave room for the signers (`fits_packedFiles`).
-/

set_option autoImplicit false

namespace SharedRuntime

/-! ## The payload of given files -/

/-- The payload among the files, in the order of the names. -/
def Payload.ofFiles (files : List (String × Bytes)) : List Payload.File :=
  ((files.filter fun f => isPayloadName f.1).mergeSort fun f g => nameLe f.1 g.1).map fun f =>
    ⟨f.1, f.2⟩

/-- The digest that the signers of the files sign. -/
def payloadDigest (files : List (String × Bytes)) : Bytes :=
  Payload.digestOf (Payload.ofFiles files)

section
variable {bs : Bytes} {z : Zip} {files : List (String × Bytes)}

theorem Payload.mem_ofFiles {g : Payload.File} :
    g ∈ ofFiles files ↔ (g.name, g.contents) ∈ files ∧ isPayloadName g.name = true := by
  unfold ofFiles
  rw [List.mem_map]
  constructor
  · rintro ⟨f, hf, rfl⟩
    exact List.mem_filter.1 (List.mem_mergeSort.1 hf)
  · intro hg
    exact ⟨(g.name, g.contents), List.mem_mergeSort.2 (List.mem_filter.2 hg), rfl⟩

theorem Payload.names_ofFiles (h : z.Holds files) :
    Payload.names z = (ofFiles files).map File.name := by
  have hmap : (ofFiles files).map File.name =
      ((files.filter fun f => isPayloadName f.1).mergeSort fun f g => nameLe f.1 g.1).map
        Prod.fst := by
    unfold ofFiles
    rw [List.map_map]
    rfl
  rw [hmap]
  refine names_eq (List.pairwise_map.2 (List.pairwise_mergeSort ?_ ?_ _)) ?_
  · exact fun f g k => nameLe_trans f.1 g.1 k.1
  · exact fun f g => nameLe_total f.1 g.1
  · unfold Payload.names
    rw [h.names, List.filter_map]
    exact (List.mergeSort_perm _ _).trans ((List.mergeSort_perm _ _).symm.map Prod.fst)

/-- The payload of an archive of files is the payload among them. -/
theorem Payload.in_ofFiles (h : z.Holds files) (hz : Zip.ofBytes bs = .ok z) :
    Payload.In z (ofFiles files) := by
  unfold Payload.In
  rw [names_ofFiles h, List.forall₂_map_left_iff, List.forall₂_same]
  intro g hg
  exact ⟨rfl, h.find? hz (mem_ofFiles.1 hg).1⟩

theorem Payload.digest_ofFiles (h : z.Holds files) (hz : Zip.ofBytes bs = .ok z) :
    Payload.digest z = .ok (payloadDigest files) :=
  digest_iff.2 ⟨_, in_ofFiles h hz, rfl⟩

end

/-! ## Signers read back -/

namespace Ed25519

theorem Point.length_encode (a : Point) : a.encode.length = 32 := by
  unfold encode
  exact Bytes.length_ofNatLE 32 _

theorem length_publicKey (seed : Bytes) : (publicKey seed).length = keySize := by
  unfold publicKey
  exact Point.length_encode _

theorem length_sign (seed msg : Bytes) : (sign seed msg).length = Signer.signatureSize := by
  unfold sign
  dsimp only
  rw [List.length_append, Point.length_encode, Bytes.length_ofNatLE]
  rfl

theorem isKey_of_verify {key msg sig : Bytes} (h : verify key msg sig = true) :
    isKey key = true := by
  unfold verify at h
  obtain ⟨hkey, -⟩ := (Option.any_eq_true_iff_get _ _).1 h
  unfold isKey
  exact hkey

end Ed25519

/-- The identity of a seed. -/
def Identity.ofSeed (seed : Bytes) : Identity :=
  ⟨Ed25519.publicKey seed, Ed25519.length_publicKey seed⟩

/-- A signer made from a seed signs for the identity of the seed. -/
theorem Signer.signs_ofSeed {digest seed : Bytes}
    (h : Ed25519.verify (Ed25519.publicKey seed) digest (Ed25519.sign seed digest) = true) :
    (Signer.ofSeed digest seed).Signs digest (Identity.ofSeed seed) where
  key := by
    unfold ofSeed Identity.ofSeed
    rw [Hex.trim_encode, Hex.decode_encode]
  isKey := Ed25519.isKey_of_verify h
  signature := by
    refine ⟨Ed25519.sign seed digest, ?_, Ed25519.length_sign seed digest, h⟩
    unfold ofSeed
    rw [Hex.trim_encode, Hex.decode_encode]

theorem Signer.sound_toJson (s : Signer) : s.toJson.Sound := ⟨rfl, rfl, rfl, rfl, trivial⟩

theorem Signer.ofJson?_toJson (s : Signer) : ofJson? s.toJson = some s := rfl

theorem SignerBlock.sound_toJson (signers : List Signer) : (toJson signers).Sound := by
  refine ⟨rfl, Json.soundItems_iff.2 fun j hj => ?_, trivial⟩
  obtain ⟨s, -, rfl⟩ := List.mem_map.1 hj
  exact s.sound_toJson

theorem SignerBlock.ofJson?_toJson (signers : List Signer) :
    ofJson? (toJson signers) = some signers :=
  Json.mapM_map Signer.ofJson?_toJson signers

/-- The entry that holds a signer block. -/
def SignerBlock.entry (signers : List Signer) : String × Bytes :=
  (signersEntry, Bytes.ofString (text signers))

/-- The signers are read from the entry that was made of them. -/
theorem SignerBlock.in_of_holds {bs : Bytes} {z : Zip} {files : List (String × Bytes)}
    {signers : List Signer} (h : z.Holds files) (hz : Zip.ofBytes bs = .ok z)
    (hf : entry signers ∈ files) : In z signers := by
  obtain ⟨e, he, hreads, -⟩ := h.find? hz hf
  exact ⟨e, Bytes.ofString (text signers), text signers, toJson signers, he, hreads,
    Utf8.decode?_ofString _, Json.parse?_pretty (sound_toJson signers), ofJson?_toJson signers⟩

/-! ## The files of a packed artifact -/

/-- What a packed artifact holds: the files, and behind them the block of their signers. -/
def packedFiles (files : List (String × Bytes)) (seeds : List Bytes) : List (String × Bytes) :=
  files ++ [SignerBlock.entry (seeds.map (Signer.ofSeed (payloadDigest files)))]

/-- The signer block is no part of what is signed. -/
theorem payloadDigest_packedFiles (files : List (String × Bytes)) (seeds : List Bytes) :
    payloadDigest (packedFiles files seeds) = payloadDigest files := by
  have hmeta : isPayloadName signersEntry = false := by decide
  unfold payloadDigest Payload.ofFiles packedFiles SignerBlock.entry
  rw [List.filter_append, List.filter_cons, hmeta]
  simp only [Bool.false_eq_true, if_false, List.filter_nil, List.append_nil]

theorem Signer.length_prettyChars_ofSeed (digest seed : Bytes) :
    (Json.prettyChars 2 (ofSeed digest seed).toJson).length = 245 := by
  simp only [ofSeed, toJson, Json.object, Json.text, List.map_cons, List.map_nil, Json.prettyChars,
    Json.prettyMembers, List.length_cons, List.length_append, Json.length_stringChars_encode,
    Ed25519.length_publicKey, Ed25519.length_sign]
  rfl

/-- The signers after the first, and the end of their list. -/
theorem SignerBlock.length_prettyItems (digest : Bytes) (seeds : List Bytes) :
    (Json.prettyItems 1 ((seeds.map (Signer.ofSeed digest)).map Signer.toJson)).length =
      251 * seeds.length + 4 := by
  induction seeds with
  | nil => rfl
  | cons seed seeds ih =>
    have hline : (Json.newLine (1 + 1)).length = 5 := rfl
    rw [List.map_cons, List.map_cons, Json.prettyItems, List.length_cons, List.length_append,
      List.length_append, hline, Signer.length_prettyChars_ofSeed, ih, List.length_cons]
    omega

theorem SignerBlock.length_text_le (digest : Bytes) (seeds : List Bytes) :
    (text (seeds.map (Signer.ofSeed digest))).toList.length ≤ 256 * (seeds.length + 1) := by
  have hline : (Json.newLine 2).length = 5 := rfl
  have hfirst : (Json.newLine 1).length = 3 := rfl
  have hkey : (Json.stringChars (some "signers")).length = 9 := by decide
  have hend : (Json.newLine 0).length = 1 := rfl
  unfold text toJson Json.pretty
  rw [String.toList_ofList]
  simp only [Json.object, List.map_cons, List.map_nil, Json.prettyChars, Json.prettyMembers,
    List.length_cons, List.length_append, List.length_nil, Nat.zero_add]
  cases seeds with
  | nil =>
    simp only [List.map_nil, Json.prettyChars, List.length_cons, List.length_nil]
    omega
  | cons seed seeds =>
    simp only [List.map_cons, Json.prettyChars, List.length_cons, List.length_append,
      Nat.reduceAdd, Signer.length_prettyChars_ofSeed, length_prettyItems]
    omega

/-- Files that leave room for a kilobyte a signer fit into the format with the signer block behind
them. -/
theorem fits_packedFiles {files : List (String × Bytes)} {seeds : List Bytes} (h : Zip.Fits files)
    (hnames : ∀ f ∈ files, f.1 ≠ signersEntry) (hcount : files.length + 1 < 0xFFFF)
    (hsize : (Zip.localRecords files).length + 1024 * (seeds.length + 2) < 0xFFFFFFFF) :
    Zip.Fits (packedFiles files seeds) where
  distinct := by
    unfold packedFiles
    rw [List.map_append, List.nodup_append]
    refine ⟨h.distinct, List.pairwise_singleton _ _, fun a ha b hb => ?_⟩
    obtain ⟨f, hf, rfl⟩ := List.mem_map.1 ha
    rw [List.mem_singleton.1 hb]
    exact hnames f hf
  names := by
    unfold packedFiles
    rw [List.forall_mem_append]
    refine ⟨h.names, List.forall_mem_singleton.2 ?_⟩
    show (Bytes.ofString signersEntry).length < 256 ^ 2
    decide
  count := by
    unfold packedFiles
    rw [List.length_append]
    exact hcount
  size := by
    have htext := SignerBlock.length_text_le (payloadDigest files) seeds
    have hbytes := Bytes.length_ofString_le
      (SignerBlock.text (seeds.map (Signer.ofSeed (payloadDigest files))))
    have hname : (Bytes.ofString signersEntry).length = 21 := by decide
    unfold packedFiles SignerBlock.entry
    rw [Zip.localRecords_append, List.length_append, Zip.localRecords_cons, List.length_append,
      Zip.length_localRecord, hname]
    show _ + (_ + 0) < _
    omega

/-! ## Packing -/

/-- All files are kept if their names are distinct, and none was seen before. -/
theorem Zip.distinctStart_all_iff {seen : List String} {files kept : List (String × Bytes)} :
    distinctStart seen files = (kept, true) ↔
      kept = files ∧ (files.map Prod.fst).Nodup ∧ ∀ f ∈ files, f.1 ∉ seen := by
  -- On the files; the names before them are in `seen`.
  induction files generalizing seen kept with
  | nil =>
    constructor
    · intro h
      exact ⟨(Prod.mk.inj h).1.symm, List.nodup_nil, fun _ hf => absurd hf List.not_mem_nil⟩
    · rintro ⟨rfl, -⟩
      rfl
  | cons f fs ih =>
    rw [List.map_cons, List.nodup_cons, List.forall_mem_cons]
    unfold distinctStart
    constructor
    · intro h
      split at h
      · cases h
      · rename_i hf
        cases hrest : distinctStart (f.1 :: seen) fs with
        | mk more all =>
          rw [hrest] at h
          obtain ⟨rfl, rfl⟩ := Prod.mk.inj h
          obtain ⟨rfl, hnodup, hnew⟩ := ih.1 hrest
          refine ⟨rfl, ⟨fun hmem => ?_, hnodup⟩, by simpa using hf, fun g hg hseen => ?_⟩
          · obtain ⟨g, hg, hname⟩ := List.mem_map.1 hmem
            exact hnew g hg (hname ▸ List.mem_cons_self)
          · exact hnew g hg (List.mem_cons_of_mem _ hseen)
    · rintro ⟨rfl, ⟨hf, hnodup⟩, hfirst, hseen⟩
      have hnew : ∀ g ∈ fs, g.1 ∉ f.1 :: seen := by
        intro g hg hmem
        rcases List.mem_cons.1 hmem with hname | hmem
        · exact hf (hname ▸ List.mem_map_of_mem hg)
        · exact hseen g hg hmem
      rw [if_neg (by simpa using hfirst), ih.2 ⟨rfl, hnodup, hnew⟩]

section
variable {write : List (String × Bytes) → Bytes} {files : List (String × Bytes)}
  {seeds : List Bytes} {p : Path} {fs fs' : FileSystem}

theorem signPayload_ofFiles {bs : Bytes} {z : Zip} (h : z.Holds files)
    (hz : Zip.ofBytes bs = .ok z) :
    signPayload bs seeds = .ok (seeds.map (Signer.ofSeed (payloadDigest files))) := by
  unfold signPayload
  rw [hz]
  show (Payload.digest z >>= fun digest => pure (seeds.map (Signer.ofSeed digest))) = _
  rw [Payload.digest_ofFiles h hz]
  rfl

/-- Packing succeeds if no two files have one name, no file has that of the signer block, and the
path can be written to: with the payload, which can be signed, and then with the signer block
behind it. -/
theorem packArtifactWith_ok_iff :
    (packArtifactWith write files seeds p).perform fs = (.ok (), fs') ↔
      (files.map Prod.fst).Nodup ∧ (∀ f ∈ files, f.1 ≠ signersEntry) ∧ ∃ t signers,
        fs.write p (write files) = .ok t ∧ signPayload (write files) seeds = .ok signers ∧
          t.write p (write (files ++ [SignerBlock.entry signers])) = .ok fs' := by
  have hany : (files.any fun f => f.1 == signersEntry) = true ↔
      ¬ ∀ f ∈ files, f.1 ≠ signersEntry := by simp
  unfold packArtifactWith packPayload
  constructor
  · -- The script stops at a name that comes twice, so what is left after it has distinct names.
    intro h
    cases hstart : Zip.distinctStart [] files with
    | mk kept all =>
      rw [hstart] at h
      obtain ⟨_, t, hwrite, h⟩ := Script.bind_ok_iff.1 h
      obtain ⟨_, t', hall, h⟩ := Script.bind_ok_iff.1 h
      cases all with
      | false => cases hall
      | true =>
        obtain ⟨-, rfl⟩ := Prod.mk.inj hall
        obtain ⟨signers, t'', hsign, h⟩ := Script.bind_ok_iff.1 h
        obtain ⟨hsigners, rfl⟩ := Prod.mk.inj hsign
        obtain ⟨rfl, hnodup, -⟩ := Zip.distinctStart_all_iff.1 hstart
        split at h
        · cases h
        · rename_i hnone
          refine ⟨hnodup, not_not.1 fun hnames => hnone (hany.2 hnames), t, signers, ?_, hsigners,
            ?_⟩
          · exact Script.change_ok_iff.1 (Script.withFault_ok_iff.1 hwrite)
          · exact Script.change_ok_iff.1 (Script.withFault_ok_iff.1 h)
  · rintro ⟨hnodup, hnames, t, signers, hwrite, hsigners, hagain⟩
    have hstart : Zip.distinctStart [] files = (files, true) :=
      Zip.distinctStart_all_iff.2 ⟨rfl, hnodup, fun _ _ => List.not_mem_nil⟩
    rw [hstart]
    refine Script.bind_ok_iff.2 ⟨(), t, ?_, Script.bind_ok_iff.2 ⟨(), t, rfl, ?_⟩⟩
    · exact Script.withFault_ok_iff.2 (Script.change_ok_iff.2 hwrite)
    · refine Script.bind_ok_iff.2 ⟨signers, t, by rw [hsigners]; rfl, ?_⟩
      rw [if_neg fun h => hany.1 h hnames]
      exact Script.withFault_ok_iff.2 (Script.change_ok_iff.2 hagain)

/-- Where packing succeeds, the path leads to an archive of the files and of the block of their
signers. Its digest is that of the payload alone, which was signed; its identities are those of the
seeds, in order; and it passes for a host that trusts them, unless there are none. For the two
archives that are written it is assumed that they are read back as the files that they were made of,
and for the seeds that the signatures made with them hold. -/
theorem packed_verifies (hpack : (packArtifactWith write files seeds p).perform fs = (.ok (), fs'))
    (hpayload : Zip.IsArchive (write files) files)
    (hpacked : Zip.IsArchive (write (packedFiles files seeds)) (packedFiles files seeds))
    (hsigns : ∀ seed ∈ seeds, Ed25519.verify (Ed25519.publicKey seed) (payloadDigest files)
      (Ed25519.sign seed (payloadDigest files)) = true) :
    (∀ f ∈ files, f.1 ≠ signersEntry) ∧
    (∃ payload z, Zip.ofBytes (write files) = .ok payload ∧ openArtifact fs' p = .ok z ∧
      z.Holds (packedFiles files seeds) ∧
      Payload.digest payload = .ok (payloadDigest files) ∧
      Payload.digest z = .ok (payloadDigest files)) ∧
    artifactIdentities fs' p = .ok (seeds.map Identity.ofSeed) ∧
    ((verifyArtifact fs' (seeds.map Identity.ofSeed) p).passed = true ↔ seeds ≠ []) := by
  obtain ⟨-, hnames, t, signers, -, hsign, hwrite⟩ := packArtifactWith_ok_iff.1 hpack
  obtain ⟨payload, hofPayload, hholdsPayload⟩ := hpayload
  obtain ⟨z, hz, hholds⟩ := hpacked
  have hsigners : signers = seeds.map (Signer.ofSeed (payloadDigest files)) :=
    Except.ok.inj (hsign.symm.trans (signPayload_ofFiles hholdsPayload hofPayload))
  subst hsigners
  obtain ⟨l, id, hlocate, hcontents⟩ := FileSystem.locate_written hwrite
  have hopen : openArtifact fs' p = .ok z :=
    openArtifact_iff.2 ⟨l, id, hlocate, by rw [hcontents]; exact hz⟩
  -- The signer block is no payload, so the packed archive has the digest that was signed.
  have hdigest : Payload.digest z = .ok (payloadDigest files) := by
    rw [← payloadDigest_packedFiles files seeds]
    exact Payload.digest_ofFiles hholds hz
  have hread : SignerBlock.read z = .ok (seeds.map (Signer.ofSeed (payloadDigest files))) :=
    SignerBlock.read_iff.2 (SignerBlock.in_of_holds hholds hz (List.mem_concat_self))
  have hids : artifactIdentities fs' p = .ok (seeds.map Identity.ofSeed) := by
    refine except_bind_ok_iff.2 ⟨z, hopen, except_bind_ok_iff.2 ⟨_, hread, ?_⟩⟩
    refine except_bind_ok_iff.2 ⟨_, hdigest, SignerBlock.identitiesFrom_iff.2 ?_⟩
    rw [List.forall₂_map_left_iff, List.forall₂_map_right_iff, List.forall₂_same]
    exact fun seed hseed => Signer.signs_ofSeed (hsigns seed hseed)
  refine ⟨hnames, ⟨payload, z, hofPayload, hopen, hholds, ?_, hdigest⟩, hids, ?_⟩
  · exact Payload.digest_ofFiles hholdsPayload hofPayload
  · unfold verifyArtifact
    rw [hids]
    exact compareIdentities_passed_iff.trans (by simp)

end

/-- An archive of a library, an entry about the artifact and a directory, for one signer. -/
theorem packed_verifies_oneSigner : ∃ fs',
    (packArtifactWith Zip.write [("a.so", [1, 2]), ("META-INF/x", [3]), ("d/", [])]
      [List.replicate 32 1] [47, 97]).perform .empty = (.ok (), fs') ∧
    artifactIdentities fs' [47, 97] = .ok [Identity.ofSeed (List.replicate 32 1)] ∧
    (verifyArtifact fs' [Identity.ofSeed (List.replicate 32 1)] [47, 97]).passed = true := by
  have hpayload : Zip.IsArchive _ [("a.so", [1, 2]), ("META-INF/x", [3]), ("d/", [])] :=
    Zip.isArchive_write ⟨by decide, by decide, by decide, by decide⟩
  have hpacked : Zip.IsArchive _
      (packedFiles [("a.so", [1, 2]), ("META-INF/x", [3]), ("d/", [])] [List.replicate 32 1]) :=
    Zip.isArchive_write (fits_packedFiles ⟨by decide, by decide, by decide, by decide⟩
      (by decide) (by decide) (by decide))
  have hwrite : ∀ data, FileSystem.empty.write [47, 97] data =
      .ok (FileSystem.empty.insertFile [[97]] data) := fun _ => rfl
  have hagain : ∀ data data', (FileSystem.empty.insertFile [[97]] data).write [47, 97] data' =
      .ok (FileSystem.empty.insertFile [[97]] data') := fun _ _ => rfl
  obtain ⟨z, hz, hholds⟩ := hpayload
  have hsign : signPayload _ [List.replicate 32 1] = .ok _ := signPayload_ofFiles hholds hz
  have hpack := packArtifactWith_ok_iff.2 ⟨by decide, by decide, _, _, hwrite _, hsign, hagain _ _⟩
  obtain ⟨-, -, hids, hpassed⟩ :=
    packed_verifies hpack ⟨z, hz, hholds⟩ hpacked (by decide +kernel)
  exact ⟨_, hpack, hids, hpassed.2 (List.cons_ne_nil _ _)⟩

end SharedRuntime
