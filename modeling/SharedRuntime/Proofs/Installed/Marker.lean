import SharedRuntime.Installed.Marker
import SharedRuntime.Proofs.FileSystem.Texts
import SharedRuntime.Proofs.Json.RoundTrip
import SharedRuntime.Proofs.Json.Tagged
import SharedRuntime.Proofs.Time.Rfc3339

/-!
# Markers read back

A marker whose timestamp is a point in time is read back from its text (`Marker.parse?_text`). What
is loaded from a path is the marker that stands there (`Marker.load_some_iff`).
-/

set_option autoImplicit false

namespace SharedRuntime

namespace Marker

theorem sound_toJson (m : Marker) : m.toJson.Sound := by
  have hinstalled := Json.sound_textOrNull (m.installedAt.map Instant.text)
  exact ⟨rfl, rfl, rfl, trivial, rfl, hinstalled, trivial⟩

theorem record?_toJson (m : Marker) :
    Json.record? ["version", "pending_first_use", "installed_at"] m.toJson =
      some [some (.text m.version), some (.bool m.pendingFirstUse),
        some (.textOrNull (m.installedAt.map Instant.text))] := rfl

theorem nullable?_installedAt {installed : Option Instant} (h : ∀ t ∈ installed, t.IsValid) :
    Json.nullable? instantOfJson? (.textOrNull (installed.map Instant.text)) = some installed := by
  cases installed with
  | none => rfl
  | some t =>
    have ht := Instant.parse?_text (h t rfl)
    simp only [Option.map_some, Json.textOrNull, Json.text, Json.nullable?, instantOfJson?,
      Json.text?, Option.bind_some, ht]

theorem ofJson?_toJson {m : Marker} (h : ∀ t ∈ m.installedAt, t.IsValid) :
    ofJson? m.toJson = some m := by
  unfold ofJson?
  rw [record?_toJson]
  simp only [Option.bind_eq_bind, Option.bind_some, Json.optional?, nullable?_installedAt h]
  rfl

theorem parse?_text {m : Marker} (h : ∀ t ∈ m.installedAt, t.IsValid) :
    parse? m.text = some m := by
  rw [parse?, text, Json.parse?_pretty m.sound_toJson]
  exact ofJson?_toJson h

theorem nullable?_isValid {j : Json} {installed : Option Instant}
    (h : Json.nullable? instantOfJson? j = some installed) : ∀ t ∈ installed, t.IsValid := by
  intro t ht
  unfold Json.nullable? at h
  split at h
  · cases h
    cases ht
  · obtain ⟨u, hu, rfl⟩ := Option.map_eq_some_iff.1 h
    obtain rfl := Option.some.inj ht
    obtain ⟨s, -, hs⟩ := Option.bind_eq_some_iff.1 hu
    exact Instant.parse?_isValid hs

/-- The timestamp of a marker that was read is a point in time. -/
theorem ofJson?_isValid {j : Json} {m : Marker} (h : ofJson? j = some m) :
    ∀ t ∈ m.installedAt, t.IsValid := by
  unfold ofJson? at h
  simp only [Option.bind_eq_bind, Option.bind_eq_some_iff] at h
  obtain ⟨fields, -, h⟩ := h
  split at h
  · obtain ⟨version, -, h⟩ := Option.bind_eq_some_iff.1 h
    obtain ⟨pending, -, h⟩ := Option.bind_eq_some_iff.1 h
    obtain ⟨installed, hinstalled, h⟩ := Option.bind_eq_some_iff.1 h
    cases h
    unfold Json.optional? at hinstalled
    split at hinstalled
    · cases hinstalled
      exact fun t ht => by cases ht
    · exact nullable?_isValid hinstalled
  · cases h

/-- Writing what was read and reading it again changes nothing. -/
theorem parse?_text_of_parse? {text : String} {m : Marker} (h : parse? text = some m) :
    parse? m.text = some m := by
  obtain ⟨j, -, hj⟩ := Option.bind_eq_some_iff.1 h
  exact parse?_text (ofJson?_isValid hj)

variable {fs : FileSystem} {p : Path} {m : Marker}

/-- The file at a path holds the text of a marker. -/
def Stands (fs : FileSystem) (p : Path) (m : Marker) : Prop :=
  ∃ text, fs.readText p = .ok text ∧ parse? text = some m

/-- What is loaded is the marker that stands at the path. -/
theorem load_some_iff : load fs p = .ok (some m) ↔ Stands fs p m := by
  constructor
  · intro h
    unfold load at h
    split at h
    · cases h
    · split at h
      · cases h
      · rename_i text hread
        split at h
        · rename_i m' hparse
          cases h
          exact ⟨text, hread, hparse⟩
        · cases h
  · rintro ⟨text, hread, hparse⟩
    obtain ⟨l, i, hfile⟩ := FileSystem.locate_of_readText hread
    unfold load
    rw [FileSystem.exists?_of_locate hfile, hread]
    dsimp only
    rw [hparse]
    rfl

theorem Stands.unique {other : Marker} (h : Stands fs p m) (h' : Stands fs p other) :
    m = other := by
  rw [← load_some_iff] at h h'
  cases h.symm.trans h'
  rfl

/-- Where something is that is no marker, loading fails. -/
theorem load_error (hexists : fs.exists? p = true) (h : ∀ m, ¬ Stands fs p m) :
    ∃ f, load fs p = .error f := by
  cases hl : load fs p with
  | error f => exact ⟨f, rfl⟩
  | ok m? =>
    cases m? with
    | some m => exact absurd (load_some_iff.1 hl) (h m)
    | none =>
      unfold load at hl
      rw [hexists, if_neg (by decide)] at hl
      split at hl
      · cases hl
      · split at hl <;> cases hl

/-- A file with the text of a marker is that marker. -/
theorem stands_of_read (h : ∀ t ∈ m.installedAt, t.IsValid)
    (hread : fs.read p = .ok (Bytes.ofString m.text)) : Stands fs p m :=
  ⟨m.text, FileSystem.readText_of_read hread, parse?_text h⟩

/-- A marker stands in a file. -/
theorem Stands.file (h : Stands fs p m) : ∃ l i, fs.locate p = .ok (l, .file i) := by
  obtain ⟨text, hread, -⟩ := h
  exact FileSystem.locate_of_readText hread

/-- A marker that is pending its first use says so, unless another version is expected. -/
theorem status_pending (version : String) (installed : Option Instant)
    (expected : Option String) :
    ((∃ v ∈ expected, trim version ≠ trim v) ∧
        status expected ⟨version, true, installed⟩ = .versionMismatch) ∨
      ((∀ v ∈ expected, trim version = trim v) ∧
        status expected ⟨version, true, installed⟩ = .pendingFirstUse) := by
  unfold status
  cases expected with
  | none => exact .inr ⟨fun v hv => (by cases hv), rfl⟩
  | some v =>
    by_cases hv : trim version = trim v
    · refine .inr ⟨fun w hw => ?_, by simp [hv]⟩
      cases hw
      exact hv
    · exact .inl ⟨⟨v, rfl, hv⟩, by simp [hv]⟩

end Marker

end SharedRuntime
