import SharedRuntime.Archive.Zip.Writer
import SharedRuntime.Proofs.Artifact.Entries
import SharedRuntime.Proofs.Artifact.Marker

/-!
# Installations stay in their directory

An installation changes nothing outside its directory as long as no link stands in the way of what
it writes (`install_confined`). The way is clear if no link is there before and none comes with the
artifact (`clearWay_of_noLinks`). But a tarball may put a link into the directory, and nothing looks
for links on the way to a later entry, nor for one under the name of the temporary marker.
-/

set_option autoImplicit false

namespace SharedRuntime

open FileSystem Script

namespace Installation

open Unpacking

variable {base : Location} {made : List Location} {fs : FileSystem} {artifact dest : Path}

/-! ## The marker -/

theorem leadsInto_fileName (hd : fs.Direct dest) :
    fs.LeadsInto (fs.routeEnd dest) .never (Path.join dest Marker.fileName) := by
  obtain ⟨hnames, habs⟩ := Marker.names_fileName dest
  exact leadsInto_last hd hnames (start_congr fs habs) Marker.isName_fileName

theorem leadsInto_temporary (hd : fs.Direct dest) : fs.LeadsInto (fs.routeEnd dest) .never
    (Marker.temporary (Path.join dest Marker.fileName)) := by
  obtain ⟨hnames, habs⟩ := Marker.names_temporary dest
  exact leadsInto_last hd hnames (start_congr fs habs) Marker.isName_temporaryName

theorem stays_clearMarker (hd : fs.Direct dest) :
    Stays (fs.routeEnd dest) made (clearMarker dest) fs := by
  unfold Stays Keeps
  rw [perform_clearMarker]
  cases hrem : fs.remove (Path.join dest Marker.fileName) with
  | ok t => exact within_remove (leadsInto_fileName hd) hrem
  | error f =>
    dsimp only
    split <;> exact .refl

/-- Clearing the marker puts no link on the way to the destination. -/
theorem direct_cleared {t : FileSystem} (hd : fs.Direct dest)
    (h : (clearMarker dest).perform fs = (.ok (), t)) :
    t.Direct dest ∧ t.working = fs.working := by
  rw [perform_clearMarker] at h
  cases hrem : fs.remove (Path.join dest Marker.fileName) with
  | ok fs₁ =>
    rw [hrem] at h
    cases h
    obtain ⟨loc, node, s, -, -, rfl⟩ := remove_ok hrem
    refine ⟨fun l hl target hlink => ?_, rfl⟩
    exact hd l hl target (erase_partOf fs loc l _ hlink)
  | error f =>
    rw [hrem] at h
    dsimp only at h
    split at h
    · cases h
      exact ⟨hd, rfl⟩
    · cases h

theorem stays_save (h : Ready base dest fs)
    (hd : fs.Direct (Marker.temporary (Path.join dest Marker.fileName))) (m : Marker) :
    Stays base made (Marker.save m (Path.join dest Marker.fileName)) fs := by
  have hwrite : Stays base made (Script.write (Marker.temporary (Path.join dest Marker.fileName))
      (Bytes.ofString m.text)) fs := by
    obtain ⟨hnames, habs⟩ := Marker.names_temporary dest
    exact keeps_change fun t ht => within_write (h.leadsInto hd
      (below_last hnames (start_congr fs habs) Marker.isName_temporaryName)) ht
  intro hs
  refine Keeps.bind hwrite (fun u t ht => ?_) hs
  have hready : Ready base dest t := by
    obtain ⟨-, hconfined⟩ := hwrite hs
    rw [ht] at hconfined
    exact h.confined hconfined
  refine keeps_change fun t' ht' => within_rename ?_ ?_ ht'
  · exact hready.ends ▸ leadsInto_temporary hready.direct
  · exact hready.ends ▸ leadsInto_fileName hready.direct

theorem stays_stampMarker (now : Instant) (h : Ready base dest fs)
    (hd : fs.Direct (Marker.temporary (Path.join dest Marker.fileName))) :
    Stays base made (stampMarker now dest) fs := by
  unfold stampMarker
  refine .bind (.caught (keeps_look _)) fun r t ht => ?_
  rw [perform_caught, perform_look] at ht
  obtain ⟨-, rfl⟩ := Prod.mk.inj ht
  split
  · exact .bind (.caught (stays_save h hd _)) fun _ t _ => keeps_pure ()
  · exact keeps_pure ()

/-! ## Installations -/

/-- An installation came as far as having unpacked the entries, and left the tree like this. -/
def Unpacked (fs : FileSystem) (artifact dest : Path) (compressed : Bool) (z : Zip)
    (es : List Zip.Entry) (t : FileSystem) : Prop :=
  ∃ cleared, isCompressed fs artifact = .ok compressed ∧
    (clearMarker dest).perform fs = (.ok (), cleared) ∧ openZip cleared artifact = .ok z ∧
      (inOrder (stages (entryAction compressed) z dest es)).perform cleared = (.ok (), t)

/-- No link stands in the way of what an installation writes: of each entry when its turn comes,
and of the temporary file of the marker when all are unpacked. -/
structure ClearWay (fs : FileSystem) (artifact dest : Path) : Prop where
  entry : ∀ compressed z before e after t, Unpacked fs artifact dest compressed z before t →
    z.entries = before ++ e :: after → ∀ s p, z.openEntry e = .ok s →
      target? dest e.name = .ok (some p) → t.Direct (landing compressed e.name p s)
  marker : ∀ compressed z t, Unpacked fs artifact dest compressed z z.entries t →
    t.Direct (Marker.temporary (Path.join dest Marker.fileName))

/-- No entry of the artifact is a tarball with a link in it. -/
def NoLinks (fs : FileSystem) (artifact dest : Path) : Prop :=
  ∀ compressed cleared z, isCompressed fs artifact = .ok compressed →
    (clearMarker dest).perform fs = (.ok (), cleared) → openZip cleared artifact = .ok z →
      ∀ e ∈ z.entries, ∀ s, z.openEntry e = .ok s → holdsLink compressed e.name s = false

theorem Unpacked.noNewLinks {compressed : Bool} {z : Zip} {es : List Zip.Entry} {t : FileSystem}
    (h : Unpacked fs artifact dest compressed z es t) (hno : NoLinks fs artifact dest)
    (hes : ∀ e ∈ es, e ∈ z.entries) : NoNewLinks fs t := by
  obtain ⟨cleared, hcompressed, hc, hz, hrun⟩ := h
  have hclear : NoNewLinks fs cleared := by
    rw [perform_clearMarker] at hc
    cases hrem : fs.remove (Path.join dest Marker.fileName) with
    | ok fs₁ =>
      rw [hrem] at hc
      cases hc
      exact noNewLinks_remove hrem
    | error f =>
      rw [hrem] at hc
      dsimp only at hc
      split at hc
      · cases hc
        exact .refl
      · cases hc
  have hstages : Keeps NoNewLinks (inOrder (stages (entryAction compressed) z dest es))
      cleared := by
    refine keeps_inOrder fun stage hstage u => ?_
    rcases List.mem_cons.1 hstage with rfl | hstage
    · exact .withFault _ (noNewLinks_makeDirAll dest)
    · obtain ⟨e, he, rfl⟩ := List.mem_map.1 hstage
      exact unpackEntry_noNewLinks (hno compressed cleared z hcompressed hc hz e (hes e he))
  unfold Keeps at hstages
  rw [hrun] at hstages
  exact Frame.trans hclear hstages

/-- Where no link is in the destination and none comes with the artifact, the way is clear. -/
theorem clearWay_of_noLinks (hd : fs.Direct dest)
    (hlinks : ∀ l target, fs.routeEnd dest <+: l → fs.node? l ≠ some (.link target))
    (hno : NoLinks fs artifact dest) : ClearWay fs artifact dest := by
  have hdirect : ∀ t q, NoNewLinks fs t → Below t dest q → t.Direct q := by
    intro t q h hb l hl target hlink
    obtain ⟨hroute, hend⟩ := routeOf_congr h.working dest
    have hold := h.link l target hlink
    rcases hb l hl with hdest | hin
    · rw [hroute] at hdest
      exact hd l hdest target hold
    · rw [hend] at hin
      exact hlinks l target hin hold
  refine ⟨fun compressed z before e after t h hsplit s p hs hp => ?_, fun compressed z t h => ?_⟩
  · obtain ⟨henc, hp⟩ := target?_some hp
    refine hdirect t _ (h.noNewLinks hno fun e he => ?_) (below_landing henc hp)
    rw [hsplit]
    exact List.mem_append_left _ he
  · obtain ⟨hnames, habs⟩ := Marker.names_temporary dest
    exact hdirect t _ (h.noNewLinks hno fun e he => he)
      (below_last hnames (start_congr t habs) Marker.isName_temporaryName)

/-- Where the destination is and can be reached, unpacking stays inside. -/
theorem unpack_within {compressed : Bool} {z : Zip} (hd : fs.Direct dest)
    (hbase : fs.routeEnd dest = base) (hmade : fs.routeOf dest = made)
    (hway : ∀ before e after t, z.entries = before ++ e :: after →
      (inOrder (stages (entryAction compressed) z dest before)).perform fs = (.ok (), t) →
      ∀ s p, z.openEntry e = .ok s → target? dest e.name = .ok (some p) →
        t.Direct (landing compressed e.name p s)) :
    Stays base made (inOrder (stages (entryAction compressed) z dest z.entries)) fs ∧
      (Sealed base fs → ∀ t,
        (inOrder (stages (entryAction compressed) z dest z.entries)).perform fs = (.ok (), t) →
          Ready base dest t) := by
  have hg := makeDirAll_grown hd
  have hmake : Within base made fs (fs.makeDirAll dest).2 :=
    hg.within fun l hl => .inr (.inl (hmade ▸ hl))
  have hentries : ∀ t, fs.makeDirAll dest = (.ok (), t) → Ready base dest t ∧
      Stays base made
        (inOrder (z.entries.map (unpackEntry (entryAction compressed) z dest))) t := by
    intro t ht
    rw [ht] at hg
    obtain ⟨hroute, hend⟩ := routeOf_congr hg.working dest
    have hready : Ready base dest t := by
      refine ⟨hend.trans hbase, fun l hl => makeDirAll_ok hd ht l ?_⟩
      rw [← hroute]
      exact hl
    refine ⟨hready, stays_entries hready fun before e after u hsplit hrun => ?_⟩
    refine hway before e after u hsplit ?_
    rw [stages, perform_inOrder_cons, perform_withFault, perform_makeDirAll, ht]
    exact hrun
  unfold Stays Keeps
  rw [stages, perform_inOrder_cons, perform_withFault, perform_makeDirAll]
  cases hrun : fs.makeDirAll dest with
  | mk r t =>
    rw [hrun] at hmake
    cases r with
    | error f => exact ⟨hmake, fun _ t' h => by cases h⟩
    | ok u =>
      obtain ⟨hready, hstays⟩ := hentries t hrun
      refine ⟨hmake.trans hstays, fun hs t' h => ?_⟩
      obtain ⟨-, hconfined⟩ := hstays (hmake hs).1
      have h' : (inOrder (z.entries.map (unpackEntry (entryAction compressed) z dest))).perform t =
          (.ok (), t') := h
      rw [h'] at hconfined
      exact hready.confined hconfined

/-- An installation, whether it succeeds or fails, changes nothing outside the destination but that
directories on the way to it are made. The destination is reached without links, no file inside
is also named outside, and no link stands in the way of what is written. -/
theorem install_confined (now : Instant) (hs : Sealed (fs.routeEnd dest) fs)
    (hd : fs.Direct dest) (hway : ClearWay fs artifact dest) :
    Confined (fs.routeEnd dest) (fs.routeOf dest) fs
      ((install now artifact dest).perform fs).2 := by
  have hclear : Stays (fs.routeEnd dest) (fs.routeOf dest) (clearMarker dest) fs :=
    stays_clearMarker hd
  have hstays : Stays (fs.routeEnd dest) (fs.routeOf dest) (install now artifact dest) fs := by
    unfold install installWith
    -- Probing changes nothing, clearing and unpacking stay inside, and so does the stamp of what
    -- they leave.
    refine .bind (.withFault _ (keeps_look _)) fun compressed t hprobe => ?_
    have hlook := withFault_ok_iff.1 hprobe
    rw [perform_look] at hlook
    obtain ⟨hcompressed, rfl⟩ := Prod.mk.inj hlook
    refine .bind (.withFault _ hclear) fun _ cleared hc => ?_
    have hc' := withFault_ok_iff.1 hc
    obtain ⟨hdirect, hworking⟩ := direct_cleared hd hc'
    obtain ⟨hroute, hend⟩ := routeOf_congr hworking dest
    have hsealed : Sealed (fs.routeEnd dest) cleared := by
      have := (hclear hs).1
      rw [hc'] at this
      exact this
    rw [unpack_eq]
    -- No link stands in the way of an entry in the tree that the entries before it have left.
    have hunpack := fun (z : Zip) (hz : openZip cleared artifact = .ok z) =>
      unpack_within hdirect hend hroute fun before e after u hsplit hrun =>
        hway.entry compressed z before e after u ⟨cleared, hcompressed, hc', hz, hrun⟩ hsplit
    refine .bind (.withFault _ ?_) fun _ t ht => .withFault _ ?_
    · unfold Keeps
      rw [perform_unpackWith]
      cases hz : openZip cleared artifact with
      | error f => exact .refl
      | ok z => exact (hunpack z hz).1
    · have ht' := withFault_ok_iff.1 ht
      rw [perform_unpackWith] at ht'
      cases hz : openZip cleared artifact with
      | error f =>
        rw [hz] at ht'
        cases ht'
      | ok z =>
        rw [hz] at ht'
        exact stays_stampMarker now ((hunpack z hz).2 hsealed t ht')
          (hway.marker compressed z t ⟨cleared, hcompressed, hc', hz, ht'⟩)
  exact (hstays hs).2

/-- A file `a` that holds an artifact with one plain entry. -/
def plainArtifact : FileSystem :=
  FileSystem.empty.insertFile [Path.ofString "a"]
    (Zip.write [("lib/x", Bytes.ofString "x")])

theorem node?_plainArtifact (l : Location) : plainArtifact.node? l =
    if l = [] then some .dir
    else if l = [Path.ofString "a"] then some (.file 0) else none := by
  unfold plainArtifact
  rw [node?_insertFile]
  split
  · rfl
  · split
    · rfl
    · rename_i hnil _
      unfold FileSystem.node?
      rw [if_neg hnil]
      rfl

/-- Its installation into `o` makes `o/lib/x`, and nothing outside `o`. -/
theorem install_confined_plain :
    ((install ⟨⟨2024, 1, 1⟩, 0, 0, 0, 0⟩ (Path.ofString "a") (Path.ofString "o")).perform
        plainArtifact).2.node? [Path.ofString "o", Path.ofString "lib", Path.ofString "x"] =
      some (.file 1) ∧
    Confined [Path.ofString "o"] [[Path.ofString "o"]] plainArtifact
      ((install ⟨⟨2024, 1, 1⟩, 0, 0, 0, 0⟩ (Path.ofString "a") (Path.ofString "o")).perform
        plainArtifact).2 := by
  have hfile : ∀ l id, plainArtifact.node? l = some (.file id) →
      l = [Path.ofString "a"] ∧ id = 0 := by
    intro l id h
    rw [node?_plainArtifact] at h
    split at h
    · cases h
    · split at h
      · rename_i hl
        cases h
        exact ⟨hl, rfl⟩
      · cases h
  have hlink : ∀ l target, plainArtifact.node? l ≠ some (.link target) := by
    intro l target h
    rw [node?_plainArtifact] at h
    split at h
    · cases h
    · split at h <;> cases h
  have hsealed : Sealed (plainArtifact.routeEnd (Path.ofString "o")) plainArtifact := by
    refine ⟨fun l id h => ?_, fun l m id hl h _ => ?_, fun n hn => by cases hn⟩
    · rw [(hfile l id h).2]
      decide
    · rw [(hfile l id h).1] at hl
      exact absurd hl (by decide)
  have hplain : (isCompressed plainArtifact (Path.ofString "a")).toOption = some false := by
    decide +kernel
  refine ⟨by decide +kernel, ?_⟩
  refine install_confined _ hsealed (fun l _ target => hlink l target) ?_
  refine clearWay_of_noLinks (fun l _ target => hlink l target)
    (fun l target _ => hlink l target) fun compressed cleared z hc _ _ e _ s _ => ?_
  rw [hc] at hplain
  cases hplain
  rfl

end Installation

end SharedRuntime
