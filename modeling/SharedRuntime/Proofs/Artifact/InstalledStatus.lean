import SharedRuntime.Archive.Zip.Writer
import SharedRuntime.Proofs.Artifact.EntryOrder
import SharedRuntime.Proofs.Artifact.FailedInstallation
import SharedRuntime.Proofs.Installed.Saving

/-!
# The status after an installation

An installation removes the marker of the earlier runtime, unpacks the artifact and stamps the marker
that came with it. So the status afterwards is told by what was unpacked alone
(`install_status`): no marker, one that cannot be read, or one that is now pending its first use, in
the version that the artifact brought.
-/

set_option autoImplicit false

namespace SharedRuntime

namespace Installation

open FileSystem Script Unpacking

variable {fs fs' unpacked : FileSystem} {artifact dest : Path} {now : Instant}

/-- What the unpacking of an artifact leaves, which starts once the earlier marker is gone. -/
def Unpacks (fs : FileSystem) (artifact dest : Path) (unpacked : FileSystem) : Prop :=
  ∃ compressed cleared, isCompressed fs artifact = .ok compressed ∧
    (clearMarker dest).perform fs = (.ok (), cleared) ∧
      cleared.exists? (Path.join dest Marker.fileName) = false ∧
        (if compressed then decompress artifact dest else extract artifact dest).perform cleared =
          (.ok (), unpacked)

/-- An installation that succeeds unpacks the artifact and stamps what was unpacked. -/
theorem unpacks_of_install (h : (install now artifact dest).perform fs = (.ok (), fs')) :
    ∃ unpacked, Unpacks fs artifact dest unpacked ∧
      ((stampMarker now dest).perform unpacked).2 = fs' := by
  obtain ⟨compressed, cleared, u, hprobe, hclear, hunpack, hstamp⟩ := install_ok h
  refine ⟨u, ⟨compressed, cleared, hprobe, hclear, clearMarker_ok hclear, ?_⟩, hstamp⟩
  rw [unpack_eq]
  exact hunpack

theorem Unpacks.unique {other : FileSystem} (h : Unpacks fs artifact dest unpacked)
    (h' : Unpacks fs artifact dest other) : unpacked = other := by
  obtain ⟨compressed, cleared, hprobe, hclear, -, hunpack⟩ := h
  obtain ⟨compressed', cleared', hprobe', hclear', -, hunpack'⟩ := h'
  cases hprobe.symm.trans hprobe'
  cases hclear.symm.trans hclear'
  cases hunpack.symm.trans hunpack'
  rfl

/-! ## What stamping does -/

theorem perform_stampMarker (now : Instant) (dest : Path) (fs : FileSystem) :
    ((stampMarker now dest).perform fs).2 =
      match Marker.load fs (Path.join dest Marker.fileName) with
      | .ok (some m) =>
        ((Marker.save ⟨m.version, true, some now⟩ (Path.join dest Marker.fileName)).perform fs).2
      | _ => fs := by
  unfold stampMarker
  rw [perform_bind, perform_caught, perform_look]
  dsimp only
  cases Marker.load fs (Path.join dest Marker.fileName) with
  | error f => rfl
  | ok m? => cases m? <;> rfl

theorem installedStatus_unknown {expected : Option String}
    (hexists : fs.exists? (Path.join dest Marker.fileName) = true)
    (h : ∀ m, ¬ Marker.Stands fs (Path.join dest Marker.fileName) m) :
    installedStatus fs dest expected = .unknown := by
  obtain ⟨f, hf⟩ := Marker.load_error hexists h
  unfold installedStatus
  rw [hf]

theorem installedStatus_stands {expected : Option String} {m : Marker}
    (h : Marker.Stands fs (Path.join dest Marker.fileName) m) :
    installedStatus fs dest expected = m.status expected := by
  have hload := Marker.load_some_iff.2 h
  unfold installedStatus
  rw [hload]

/-- A marker that was unpacked is stamped where it stands. -/
theorem stands_stamped {m : Marker} (h : Marker.Stands fs (Path.join dest Marker.fileName) m)
    (hp : fs.NoLink (Path.join dest Marker.fileName))
    (hq : fs.NoLink (Marker.temporary (Path.join dest Marker.fileName))) (hnow : now.IsValid)
    (hsave : ((Marker.save ⟨m.version, true, some now⟩
      (Path.join dest Marker.fileName)).perform fs).1 = .ok ()) :
    Marker.Stands ((stampMarker now dest).perform fs).2 (Path.join dest Marker.fileName)
      ⟨m.version, true, some now⟩ := by
  rw [perform_stampMarker, Marker.load_some_iff.2 h]
  refine h.saved hp hq ?_ (Prod.ext hsave rfl)
  intro t ht
  cases ht
  exact hnow

/-- After an installation the status is told by what was unpacked, whatever was installed before. If
no marker was unpacked, the runtime is absent; if what was unpacked in its place cannot be read, its
status is unknown; else it is pending its first use, unless a version is expected that is not the
version of the artifact. The marker keeps that version and tells when it was installed. The runtime
never passes for one that was used before. -/
theorem install_status (h : (install now artifact dest).perform fs = (.ok (), fs'))
    (hunpacks : Unpacks fs artifact dest unpacked)
    (hlink : unpacked.NoLink (Path.join dest Marker.fileName))
    (hlink' : unpacked.NoLink (Marker.temporary (Path.join dest Marker.fileName)))
    (hsave : ∀ m, Marker.Stands unpacked (Path.join dest Marker.fileName) m →
      ((Marker.save ⟨m.version, true, some now⟩
        (Path.join dest Marker.fileName)).perform unpacked).1 = .ok ())
    (hnow : now.IsValid) (expected : Option String) :
    (unpacked.exists? (Path.join dest Marker.fileName) = false →
        installedStatus fs' dest expected = .absent) ∧
      (unpacked.exists? (Path.join dest Marker.fileName) = true →
        (∀ m, ¬ Marker.Stands unpacked (Path.join dest Marker.fileName) m) →
          installedStatus fs' dest expected = .unknown) ∧
      (∀ m, Marker.Stands unpacked (Path.join dest Marker.fileName) m →
        Marker.Stands fs' (Path.join dest Marker.fileName) ⟨m.version, true, some now⟩ ∧
          ((∃ v ∈ expected, trim m.version ≠ trim v) ∧
              installedStatus fs' dest expected = .versionMismatch ∨
            (∀ v ∈ expected, trim m.version = trim v) ∧
              installedStatus fs' dest expected = .pendingFirstUse)) ∧
      installedStatus fs' dest expected ≠ .matched := by
  obtain ⟨u, hu, rfl⟩ := unpacks_of_install h
  obtain rfl := hunpacks.unique hu
  have habsent (hex : unpacked.exists? (Path.join dest Marker.fileName) = false) :
      installedStatus ((stampMarker now dest).perform unpacked).2 dest expected = .absent := by
    rw [perform_stampMarker, Marker.load, hex]
    exact installedStatus_absent hex expected
  have hunknown (hex : unpacked.exists? (Path.join dest Marker.fileName) = true)
      (hno : ∀ m, ¬ Marker.Stands unpacked (Path.join dest Marker.fileName) m) :
      installedStatus ((stampMarker now dest).perform unpacked).2 dest expected = .unknown := by
    obtain ⟨f, hf⟩ := Marker.load_error hex hno
    rw [perform_stampMarker, hf]
    exact installedStatus_unknown hex hno
  have hstamped (m : Marker) (hm : Marker.Stands unpacked (Path.join dest Marker.fileName) m) :
      Marker.Stands ((stampMarker now dest).perform unpacked).2 (Path.join dest Marker.fileName)
          ⟨m.version, true, some now⟩ ∧
        ((∃ v ∈ expected, trim m.version ≠ trim v) ∧
            installedStatus ((stampMarker now dest).perform unpacked).2 dest expected =
              .versionMismatch ∨
          (∀ v ∈ expected, trim m.version = trim v) ∧
            installedStatus ((stampMarker now dest).perform unpacked).2 dest expected =
              .pendingFirstUse) := by
    have hstands := stands_stamped hm hlink hlink' hnow (hsave m hm)
    rw [installedStatus_stands hstands]
    exact ⟨hstands, Marker.status_pending m.version (some now) expected⟩
  refine ⟨habsent, hunknown, hstamped, ?_⟩
  cases hex : unpacked.exists? (Path.join dest Marker.fileName) with
  | false =>
    rw [habsent hex]
    decide
  | true =>
    by_cases hm : ∃ m, Marker.Stands unpacked (Path.join dest Marker.fileName) m
    · obtain ⟨m, hm⟩ := hm
      rcases (hstamped m hm).2 with ⟨-, hs⟩ | ⟨-, hs⟩ <;> rw [hs] <;> decide
    · rw [hunknown hex fun m hm' => hm ⟨m, hm'⟩]
      decide

/-- A file `a` that holds an artifact with a marker, and a runtime in `o` with another. -/
def replacing : FileSystem :=
  ((FileSystem.empty.insertFile [Path.ofString "a"]
    (Zip.write [("lib", [1]), ("runtime.json", Bytes.ofString "\x7b\"version\":\"2\"\x7d")])).insert
      [Path.ofString "o"] .dir).insertFile [Path.ofString "o", Path.ofString "runtime.json"]
        (Bytes.ofString "\x7b\"version\":\"1\"\x7d")

/-- A runtime that matched is replaced by one of another version. -/
theorem install_status_replaced : ∃ fs',
    (install ⟨⟨2024, 1, 1⟩, 0, 0, 0, 0⟩ (Path.ofString "a") (Path.ofString "o")).perform replacing =
      (.ok (), fs') ∧
    installedStatus replacing (Path.ofString "o") (some "1") = .matched ∧
    installedStatus fs' (Path.ofString "o") (some "1") = .versionMismatch ∧
    installedStatus fs' (Path.ofString "o") (some " 2") = .pendingFirstUse := by
  generalize hfs : replacing = fs
  generalize hnow : (⟨⟨2024, 1, 1⟩, 0, 0, 0, 0⟩ : Instant) = now
  have hvalid : now.IsValid := by
    subst hnow
    exact ⟨by decide, by decide, by decide, by decide, by decide⟩
  generalize hcleared : ((clearMarker (Path.ofString "o")).perform fs).2 = cleared
  generalize hunpacked : ((extract (Path.ofString "a") (Path.ofString "o")).perform cleared).2 =
    unpacked
  have hrun : ((install now (Path.ofString "a") (Path.ofString "o")).perform fs).1 = .ok () := by
    subst hnow hfs
    decide +kernel
  have hunpacks : Unpacks fs (Path.ofString "a") (Path.ofString "o") unpacked := by
    refine ⟨false, cleared, ?_, Prod.ext ?_ hcleared, ?_, Prod.ext ?_ hunpacked⟩
    all_goals
      subst hunpacked hcleared hfs
      decide +kernel
  have hstands : Marker.Stands unpacked (Path.join (Path.ofString "o") Marker.fileName)
      ⟨"2", false, none⟩ := by
    refine ⟨"\x7b\"version\":\"2\"\x7d", ?_, by decide +kernel⟩
    subst hunpacked hcleared hfs
    decide +kernel
  have hnolinks : unpacked.nodes.all (fun e => e.2.isDir || e.2.isFile) = true := by
    subst hunpacked hcleared hfs
    decide +kernel
  have hsave : ((Marker.save ⟨"2", true, some now⟩
      (Path.join (Path.ofString "o") Marker.fileName)).perform unpacked).1 = .ok () := by
    subst hunpacked hcleared hfs hnow
    decide +kernel
  have hsaved : ∀ m, Marker.Stands unpacked (Path.join (Path.ofString "o") Marker.fileName) m →
      ((Marker.save ⟨m.version, true, some now⟩
        (Path.join (Path.ofString "o") Marker.fileName)).perform unpacked).1 = .ok () := by
    intro m hm
    rw [← hstands.unique hm]
    exact hsave
  have hmatched : installedStatus fs (Path.ofString "o") (some "1") = .matched := by
    subst hfs
    decide +kernel
  have hstatus := fun expected => (install_status (Prod.ext hrun rfl) hunpacks
    (noLink_of_nodes hnolinks _) (noLink_of_nodes hnolinks _)
    hsaved hvalid expected).2.2.1 _ hstands
  refine ⟨_, Prod.ext hrun rfl, hmatched, ?_, ?_⟩
  · rcases (hstatus (some "1")).2 with ⟨-, h⟩ | ⟨h, -⟩
    · exact h
    · exact absurd (h "1" rfl) (by decide)
  · rcases (hstatus (some " 2")).2 with ⟨⟨v, hv, h⟩, -⟩ | ⟨-, h⟩
    · cases hv
      exact absurd rfl h
    · exact h

end Installation

end SharedRuntime
