import SharedRuntime.Host.Config
import SharedRuntime.Proofs.FileSystem.Script
import SharedRuntime.Proofs.FileSystem.Texts
import SharedRuntime.Proofs.Host.Metadata
import SharedRuntime.Proofs.Json.Reordered

/-!
# A configuration that is saved and loaded

A configuration whose names differ is read back from its text, entry by entry
(`UpdaterConfig.parse?_text`). One that was loaded is such a configuration, in whatever order its
metadata are written, and so nothing that is made of it changes when it is saved and loaded again
(`UpdaterConfig.loadFile_save`).
-/

set_option autoImplicit false

namespace SharedRuntime.UpdaterConfig

variable {c : UpdaterConfig} {fs t : FileSystem} {p : Path}

/-! ## Text -/

theorem sound_toJson (c : UpdaterConfig) : c.toJson.Sound := by
  have hmetadata : (Json.object (c.metadata.map fun p => (p.1, .text p.2))).Sound := by
    refine Json.soundMembers_iff.2 fun m hm => ?_
    obtain ⟨_, hp, rfl⟩ := List.mem_map.1 hm
    obtain ⟨p, -, rfl⟩ := List.mem_map.1 hp
    exact ⟨rfl, rfl⟩
  have hsigners : (Json.arr (c.trustedSigners.map .text)).Sound := by
    refine Json.soundItems_iff.2 fun v hv => ?_
    obtain ⟨s, -, rfl⟩ := List.mem_map.1 hv
    rfl
  exact ⟨rfl, hmetadata, rfl, hsigners, rfl, Json.sound_textOrNull c.expectedVersion, rfl,
    Json.sound_textOrNull c.baseDir, trivial⟩

theorem record?_toJson (c : UpdaterConfig) : Json.record? fieldNames c.toJson =
    some [some (.object (c.metadata.map fun p => (p.1, .text p.2))),
      some (.arr (c.trustedSigners.map .text)), some (.textOrNull c.expectedVersion),
      some (.textOrNull c.baseDir)] := rfl

theorem textMap?_object (m : Metadata) :
    Json.textMap? (.object (m.map fun p => (p.1, .text p.2))) = some m := by
  have hentry : ∀ p : String × String, Json.textEntry? (some p.1, .text p.2) = some p :=
    fun _ => rfl
  show ((m.map _).map _).mapM Json.textEntry? = some m
  rw [List.map_map]
  exact Json.mapM_map hentry m

theorem ofJson?_toJson (h : c.metadata.keys.Nodup) : ofJson? c.toJson = some c := by
  have htext : ∀ s : String, Json.text? (.text s) = some s := fun _ => rfl
  have hsigners : Json.list? Json.text? (.arr (c.trustedSigners.map .text)) =
      some c.trustedSigners := Json.mapM_map htext c.trustedSigners
  unfold ofJson?
  rw [record?_toJson]
  simp only [Option.bind_eq_bind, Option.bind_some, Json.optional?, textMap?_object, hsigners,
    Json.nullable?_textOrNull, Metadata.ofPairs_eq h]
  rfl

/-- A configuration whose names differ is read back from its text. -/
theorem parse?_text (h : c.metadata.keys.Nodup) : parse? c.text = some c := by
  rw [parse?, text, Json.parse?_pretty c.sound_toJson]
  exact ofJson?_toJson h

/-- A configuration that was read has no name twice. -/
theorem nodup_of_ofJson? {j : Json} (h : ofJson? j = some c) : c.metadata.keys.Nodup := by
  unfold ofJson? at h
  simp only [Option.bind_eq_bind, Option.bind_eq_some_iff] at h
  obtain ⟨fields, -, h⟩ := h
  split at h
  · simp only [Option.bind_eq_some_iff] at h
    obtain ⟨pairs, -, signers, -, version, -, base, -, h⟩ := h
    cases h
    exact Metadata.nodup_ofPairs pairs
  · cases h

theorem nodup_of_parse? {text : String} (h : parse? text = some c) : c.metadata.keys.Nodup := by
  obtain ⟨j, -, hj⟩ := Option.bind_eq_some_iff.1 h
  exact nodup_of_ofJson? hj

/-! ## Files -/

/-- What is loaded is what the text of the file says. -/
theorem loadFile_ok_iff :
    loadFile fs p = .ok c ↔ ∃ text, fs.readText p = .ok text ∧ parse? text = some c := by
  constructor
  · intro h
    unfold loadFile at h
    split at h
    · cases h
    · split at h
      · cases h
      · rename_i text hread
        split at h
        · rename_i c' hparse
          cases h
          exact ⟨text, hread, hparse⟩
        · cases h
  · rintro ⟨text, hread, hparse⟩
    obtain ⟨l, i, hfile⟩ := FileSystem.locate_of_readText hread
    unfold loadFile
    rw [FileSystem.exists?_of_locate hfile, hread]
    dsimp only
    rw [hparse]
    rfl

theorem load_of_save {dir : Path} (hnodup : c.metadata.keys.Nodup)
    (h : (save c dir).perform fs = (.ok (), t)) : load t dir = .ok c := by
  have hwrite := Script.change_ok_iff.1 (Script.withFault_ok_iff.1 h)
  exact loadFile_ok_iff.2 ⟨_, FileSystem.readText_written hwrite, parse?_text hnodup⟩

/-- A configuration that was loaded is saved, its metadata in any order, and loaded again: it has
the same metadata, names and values, the same texts of keys in their order, the same version and the
same directory. So runtimes are loaded from the same addresses, the same policy of verification
holds, and the same keys are trusted, or refused for the same reason. -/
theorem loadFile_save {fs v u : FileSystem} {file dir : Path} {c : UpdaterConfig} {order : Metadata}
    (hload : loadFile fs file = .ok c) (horder : order.Perm c.metadata)
    (hsave : (save { c with metadata := order } dir).perform v = (.ok (), u)) :
    ∃ c', load u dir = .ok c' ∧ c'.metadata.Perm c.metadata ∧
      (∀ key, c'.metadata.get? key = c.metadata.get? key) ∧
      c'.trustedSigners = c.trustedSigners ∧ c'.expectedVersion = c.expectedVersion ∧
      c'.baseDir = c.baseDir ∧
      (∀ arch, c'.metadata.downloadUrl arch = c.metadata.downloadUrl arch) ∧
      c'.metadata.verificationPolicy = c.metadata.verificationPolicy ∧ c'.trusted = c.trusted := by
  obtain ⟨text, -, hparse⟩ := loadFile_ok_iff.1 hload
  have hnodup : order.keys.Nodup := (horder.map Prod.fst).nodup_iff.2 (nodup_of_parse? hparse)
  exact ⟨_, load_of_save hnodup hsave, horder, Metadata.get?_perm horder hnodup, rfl, rfl, rfl,
    Metadata.downloadUrl_perm horder hnodup, Metadata.verificationPolicy_perm horder hnodup, rfl⟩

/-- A configuration with its parts in another order, a part that is unknown, a name that occurs
twice and escapes in a key. -/
def storedConfig : FileSystem :=
  ((FileSystem.empty.insert [Path.ofString "d"] .dir).insertFile [Path.ofString "d", fileName]
    (Bytes.ofString
      "\x7b\"trusted_signers\":[\"\\u0041b\"],\"x\":\x7b\x7d,\"metadata\":\x7b\"runtime_verify\":\"true\",\"a\":\"1\",\"runtime_verify\":\"disable\"\x7d,\"base_dir\":null\x7d")).insert
    [Path.ofString "e"] .dir

/-- It is saved elsewhere, the names in another order, and the switch for verification is still
off. -/
theorem loadFile_save_stored :
    loadFile storedConfig (Path.ofString "/d/updater.config.json") =
        .ok ⟨[("runtime_verify", "disable"), ("a", "1")], ["Ab"], none, none⟩ ∧
      ∃ u c', (save ⟨[("a", "1"), ("runtime_verify", "disable")], ["Ab"], none, none⟩
          (Path.ofString "/e")).perform storedConfig = (.ok (), u) ∧
        load u (Path.ofString "/e") = .ok c' ∧
        c'.metadata.get? "runtime_verify" = some "disable" ∧ c'.trustedSigners = ["Ab"] := by
  have hload : loadFile storedConfig (Path.ofString "/d/updater.config.json") =
      .ok ⟨[("runtime_verify", "disable"), ("a", "1")], ["Ab"], none, none⟩ := by decide +kernel
  have hsave : ((save ⟨[("a", "1"), ("runtime_verify", "disable")], ["Ab"], none, none⟩
      (Path.ofString "/e")).perform storedConfig).1 = .ok () := by decide +kernel
  obtain ⟨c', hagain, -, hget, hsigners, -⟩ :=
    loadFile_save hload (.swap _ _ []) (Prod.ext hsave rfl)
  refine ⟨hload, _, c', Prod.ext hsave rfl, hagain, ?_, hsigners⟩
  rw [hget]
  decide +kernel

end SharedRuntime.UpdaterConfig
