import SharedRuntime.Proofs.Artifact.Extracting
import SharedRuntime.Proofs.Artifact.InstalledStatus

/-!
# What stamping leaves alone

A marker is stamped by writing a file beside it that takes its name. If that file's own name is free
before, or a directory's, or if there is no marker to stamp, then nothing but the marker changes, and
an installation leaves what unpacking alone does (`install_framed`). A file of that name, which the
artifact or an earlier installation brought, is lost.
-/

set_option autoImplicit false

namespace SharedRuntime

open FileSystem Script

/-! ## Identities -/

namespace FileSystem

variable {s t : FileSystem}

theorem Makes.numbered {ps : List Path} (h : Makes ps s t) (hn : s.Numbered) : t.Numbered := by
  induction h with
  | none => exact hn
  | one _ _ hmake ih => exact (moreDirs_makeDir hmake).numbered ih

theorem Act.Does.numbered {a : Act} (h : a.Does s t) (hn : s.Numbered) : t.Numbered := by
  cases a with
  | need p => exact h.1.numbered hn
  | enter p base => exact h.1.numbered hn
  | write p data =>
    obtain ⟨place, d, -, ⟨loc, id, -, rfl⟩ | ⟨dir, name, -, rfl⟩⟩ := write_ok h
    · exact hn
    · exact hn.insertFile _ data
  | renew p item =>
    obtain ⟨w, -, -, rfl⟩ := h
    cases item with
    | file data => exact hn.insertFile _ data
    | link target => exact hn.insert _ fun i he => by cases he
  | share source p =>
    obtain ⟨loc, n, b, d, dir, name, b', d', hsource, hdir, -, rfl⟩ := h
    refine hn.insert _ fun i he => ?_
    rcases resolve_holds hsource with hnode | hnode
    · exact absurd hnode hdir
    · exact hn loc i (he ▸ hnode)

theorem run_numbered {as : List Act} (h : Run Act.Does as s t) (hn : s.Numbered) :
    t.Numbered := by
  induction as generalizing s with
  | nil =>
    cases h
    exact hn
  | cons a as ih =>
    obtain ⟨u, ha, h⟩ := h
    exact ih h (ha.numbered hn)

end FileSystem

namespace Unpacking

variable {fs t : FileSystem} {z : Zip} {es : List Zip.Entry} {artifact dest : Path}
  {compressed : Bool}

theorem entries_numbered
    (h : (inOrder (es.map (unpackEntry (entryAction compressed) z dest))).perform fs =
      (.ok (), t)) (hn : fs.Numbered) : t.Numbered := by
  induction es generalizing fs with
  | nil =>
    cases h
    exact hn
  | cons e es ih =>
    obtain ⟨x, u, hentry, h⟩ := bind_ok_iff.1 h
    obtain ⟨base, hrun⟩ := unpackEntry_acts hentry
    exact ih h (run_numbered hrun hn)

theorem unpack_numbered
    (h : (unpackWith (entryAction compressed) artifact dest).perform fs = (.ok (), t))
    (hn : fs.Numbered) : t.Numbered := by
  cases hz : openZip fs artifact with
  | error f =>
    rw [perform_unpackWith, hz] at h
    cases h
  | ok z =>
    obtain ⟨u, hneed, h⟩ := unpackWith_ok hz h
    exact entries_numbered h (hneed.numbered hn)

end Unpacking

/-! ## Stamping -/

namespace FileSystem

variable {u v : FileSystem} {p q : Path} {x l : Location} {node : Node}

/-- The trees are the same but for one location, where a file took the place of a file or a link. -/
structure OnlyAt (l : Location) (u v : FileSystem) : Prop where
  nodes : ∀ y, y ≠ l → v.node? y = u.node? y
  contents : ∀ y, y ≠ l → ∀ id, u.node? y = some (.file id) → v.contentsOf id = u.contentsOf id
  working : v.working = u.working
  there : (∃ node, u.node? l = some node ∧ node ≠ .dir) ∧ ∃ id, v.node? l = some (.file id)

theorem OnlyAt.holds {data : Bytes} (h : OnlyAt l u v) (hne : x ≠ l) :
    v.Holds x data ↔ u.Holds x data := by
  unfold Holds
  rw [h.nodes x hne]
  refine exists_congr fun id => and_congr_right fun hid => ?_
  rw [h.contents x hne id hid]

/-- A new file that was moved over a file or a link. -/
theorem onlyAt_moved (hn : u.Numbered) (hnone : u.node? x = none) (hnode : u.node? l = some node)
    (hdir : node ≠ .dir) (data : Bytes) : OnlyAt l u (u.moved x l data) := by
  have hsame := sameBut_moved hnone l data
  have hnil : l ≠ [] := by
    rintro rfl
    exact hdir (Option.some.inj hnode).symm
  refine ⟨hsame.node, fun y _ id hid => ?_, hsame.working, ⟨node, hnode, hdir⟩, u.fresh,
    node?_moved_self u x data hnil⟩
  exact contentsOf_insertFile u x data (Nat.ne_of_lt (hn y id hid))

/-- A file that was just written where nothing was is renamed over another file or a link. -/
theorem FreeAt.rename_over (h : u.FreeAt q x)
    (hp : u.resolve .never p = .ok ⟨.node l node, false, false⟩) (hne : l ≠ x) (hdir : node ≠ .dir)
    (hother : node ≠ .file u.fresh) (data : Bytes) :
    (u.insertFile x data).rename q p = .ok (u.moved x l data) := by
  have hsame := sameBut_insertFile u x data
  exact FileSystem.rename_over (h.filled hsame (node?_insertFile_self u data h.ne_nil))
    (resolve_away hsame (not_passable_none h.none) hp hne) hdir hother

end FileSystem

namespace Marker

variable {u v : FileSystem} {dest : Path} {m : Marker}

theorem places_ne (loc : Location) : loc ++ [fileName] ≠ loc ++ [temporaryName] := fun he =>
  absurd (List.cons.inj (List.append_cancel_left he)).1 (by decide)

/-- The place of a marker that can be read, a file or a link, and of the file beside it. -/
theorem Stands.place (h : Stands u (Path.join dest fileName) m) : ∃ loc node,
    u.resolve .never (Path.join dest fileName) =
        .ok ⟨.node (loc ++ [fileName]) node, false, false⟩ ∧
      u.node? (loc ++ [fileName]) = some node ∧ node ≠ .dir ∧
        u.resolve .never (Path.join dest temporaryName) =
          .ok ⟨u.placeAt loc temporaryName, false, false⟩ := by
  obtain ⟨l, i, hfound⟩ := h.file
  obtain ⟨s, d, hr⟩ := locate_ok hfound
  obtain ⟨w, hnever, hends⟩ := resolve_never hr
  obtain ⟨loc, rfl, hother⟩ := resolve_join isName_fileName hnever
  have hbeside := hother temporaryName isName_temporaryName (by decide) fun _ => by decide
  cases hnode : u.node? (loc ++ [fileName]) with
  | none =>
    rw [placeAt_free hnode] at hends
    rcases hends with he | ⟨_, _, _, he, -⟩ <;> cases he
  | some node =>
    rw [placeAt_node hnode] at hnever hends
    refine ⟨loc, node, hnever, hnode, ?_, hbeside⟩
    rintro rfl
    rcases hends with he | ⟨_, _, _, he, -⟩ <;> cases he

end Marker

namespace Installation

open Unpacking

variable {u fs fs' : FileSystem} {artifact dest : Path} {m : Marker} {now : Instant}

/-- The name of the file that the stamp is written to is free, or a directory has it. -/
def Unhindered (dest : Path) (u : FileSystem) : Prop :=
  ∀ x node s d, u.resolve .never (Path.join dest Marker.temporaryName) = .ok ⟨.node x node, s, d⟩ →
    node = .dir

/-- A check that the name is free. -/
def isUnhindered (dest : Path) (u : FileSystem) : Bool :=
  match u.resolve .never (Path.join dest Marker.temporaryName) with
  | .ok ⟨.node _ node, _, _⟩ => node.isDir
  | _ => true

theorem unhindered_of_check (h : isUnhindered dest u = true) : Unhindered dest u := by
  intro x node s d hr
  unfold isUnhindered at h
  rw [hr] at h
  cases node with
  | dir => rfl
  | file i | link target => cases h

/-- Where the file can be written, nothing was there. -/
theorem Unhindered.vacant {data : Bytes} {t : FileSystem} (h : Unhindered dest u)
    (hwrite : u.write (Path.join dest Marker.temporaryName) data = .ok t) :
    u.Vacant (Path.join dest Marker.temporaryName) := by
  intro x node s d hr
  obtain rfl := h x node s d hr
  have halways := resolve_always hr fun _ _ _ _ he => by cases he
  obtain ⟨place, d', hr', hplace⟩ := write_ok hwrite
  rw [halways] at hr'
  cases hr'
  rcases hplace with ⟨_, _, he, -⟩ | ⟨_, _, he, -⟩ <;> cases he

/-- Stamping changes nothing, or the marker alone. -/
theorem stamp_framed (now : Instant) (hn : u.Numbered)
    (hfree : ∀ m, Marker.Stands u (Path.join dest Marker.fileName) m → Unhindered dest u) :
    ((stampMarker now dest).perform u).2 = u ∨
      ∃ l node, u.resolve .never (Path.join dest Marker.fileName) =
        .ok ⟨.node l node, false, false⟩ ∧ OnlyAt l u ((stampMarker now dest).perform u).2 := by
  rw [perform_stampMarker]
  split
  · rename_i m hload
    have hstands := Marker.load_some_iff.1 hload
    obtain ⟨loc, node, hmarker, hnode, hdir, hbeside⟩ := hstands.place
    rw [Marker.perform_save, Marker.temporary_join]
    cases hwrite : u.write (Path.join dest Marker.temporaryName)
        (Bytes.ofString (Marker.text ⟨m.version, true, some now⟩)) with
    | error f => exact .inl rfl
    | ok t =>
      right
      obtain ⟨dir, name, d, hfound, rfl⟩ := ((hfree m hstands).vacant hwrite).write_ok hwrite
      rw [hbeside] at hfound
      obtain ⟨hnone, rfl, rfl⟩ := placeAt_eq_free (congrArg Walked.place (Except.ok.inj hfound))
      rw [placeAt_free hnone] at hbeside
      have hplace : u.FreeAt (Path.join dest Marker.temporaryName)
          (loc ++ [Marker.temporaryName]) := ⟨loc, _, hbeside, rfl⟩
      have hnew : node ≠ .file u.fresh := fun he => Nat.lt_irrefl _ (hn _ _ (he ▸ hnode))
      have hrename := hplace.rename_over hmarker (Marker.places_ne loc) hdir hnew
        (Bytes.ofString (Marker.text ⟨m.version, true, some now⟩))
      dsimp only
      rw [hrename]
      exact ⟨_, node, hmarker, onlyAt_moved hn hnone hnode hdir _⟩
  · exact .inl rfl

/-! ## Installing -/

/-- Clearing takes away what has the name of the marker, and nothing else. -/
theorem clearMarker_framed {cleared : FileSystem}
    (h : (clearMarker dest).perform fs = (.ok (), cleared)) {x : Location}
    (hx : x ≠ fs.endOf .never (Path.join dest Marker.fileName)) : Spares x fs cleared := by
  rw [perform_clearMarker] at h
  cases hremove : fs.remove (Path.join dest Marker.fileName) with
  | ok t =>
    rw [hremove] at h
    cases h
    obtain ⟨l, node, s, hr, -, rfl⟩ := remove_ok hremove
    refine fun id hid => ⟨?_, rfl⟩
    have hend : fs.endOf .never (Path.join dest Marker.fileName) = l := endOf_of_resolve hr
    rw [(sameBut_erase fs l).node x (hend ▸ hx), hid]
  | error f =>
    rw [hremove] at h
    dsimp only at h
    split at h
    · cases h
      exact .refl x fs
    · cases h

/-- If the name of the file that the stamp is written to is free once the artifact is unpacked, or no
marker was unpacked, then an installation leaves what unpacking alone does, but for the marker. Files
that were unpacked are there with their contents, and so are those from before that the unpacking
spares. -/
theorem install_framed (hn : fs.Numbered)
    (hrun : (install now artifact dest).perform fs = (.ok (), fs')) :
    ∃ cleared u, (clearMarker dest).perform fs = (.ok (), cleared) ∧
      Unpacks fs artifact dest u ∧
      ((∀ m, Marker.Stands u (Path.join dest Marker.fileName) m → Unhindered dest u) →
        (fs' = u ∨ ∃ l node, u.resolve .never (Path.join dest Marker.fileName) =
          .ok ⟨.node l node, false, false⟩ ∧ OnlyAt l u fs') ∧
        ∀ x data, x ≠ u.endOf .never (Path.join dest Marker.fileName) →
          (u.Holds x data → fs'.Holds x data) ∧
            (x ≠ fs.endOf .never (Path.join dest Marker.fileName) → fs.Holds x data →
              Spares x cleared u → fs'.Holds x data)) := by
  obtain ⟨u, hunpacks, rfl⟩ := unpacks_of_install hrun
  obtain ⟨compressed, cleared, hprobe, hclear, hgone, hunpack⟩ := hunpacks
  -- Clearing and unpacking number each new file once, so the file beside the marker is a new one.
  have hu : u.Numbered := by
    rw [unpack_eq] at hunpack
    exact unpack_numbered hunpack (numbered_cleared hn hclear)
  refine ⟨cleared, u, hclear, ⟨compressed, cleared, hprobe, hclear, hgone, hunpack⟩, fun hfree => ?_⟩
  have hframed := stamp_framed now hu hfree
  refine ⟨hframed, fun x data hx => ?_⟩
  have hkept : u.Holds x data → ((stampMarker now dest).perform u).2.Holds x data := by
    rcases hframed with hsame | ⟨l, node, hr, honly⟩
    · rw [hsame]
      exact id
    · have hend : u.endOf .never (Path.join dest Marker.fileName) = l := endOf_of_resolve hr
      exact (honly.holds (hend ▸ hx)).2
  exact ⟨hkept, fun hx' hold hspare => hkept (((clearMarker_framed hclear hx').trans hspare).holds hold)⟩

/-- A file `a` that holds an artifact with a marker, and in `o` another marker and a file. -/
def besideOld : FileSystem :=
  ((artifactBeside [("lib", [1]), ("runtime.json", Bytes.ofString "\x7b\"version\":\"2\"\x7d")]).insertFile
    [Path.ofString "o", Path.ofString "runtime.json"]
      (Bytes.ofString "\x7b\"version\":\"1\"\x7d")).insertFile
        [Path.ofString "o", Path.ofString "old"] [7]

/-- Both files are there afterwards, and the marker is stamped. -/
theorem install_framed_old : ∃ cleared u fs',
    besideOld.Numbered ∧
    (install ⟨⟨2024, 1, 1⟩, 0, 0, 0, 0⟩ (Path.ofString "a") (Path.ofString "o")).perform
      besideOld = (.ok (), fs') ∧
    (clearMarker (Path.ofString "o")).perform besideOld = (.ok (), cleared) ∧
    Unpacks besideOld (Path.ofString "a") (Path.ofString "o") u ∧
    Unhindered (Path.ofString "o") u ∧
    fs'.Holds [Path.ofString "o", Path.ofString "lib"] [1] ∧
    fs'.Holds [Path.ofString "o", Path.ofString "old"] [7] := by
  have hn : besideOld.Numbered :=
    ((numbered_artifactBeside _).insertFile _ _).insertFile _ _
  generalize hfs : besideOld = fs at hn ⊢
  generalize hnow : (⟨⟨2024, 1, 1⟩, 0, 0, 0, 0⟩ : Instant) = now
  generalize hcleared : ((clearMarker (Path.ofString "o")).perform fs).2 = cleared
  generalize hunpacked : ((extract (Path.ofString "a") (Path.ofString "o")).perform cleared).2 =
    unpacked
  have hrun : ((install now (Path.ofString "a") (Path.ofString "o")).perform fs).1 = .ok () := by
    subst hnow hfs
    decide +kernel
  have hunpacks : Unpacks fs (Path.ofString "a") (Path.ofString "o") unpacked := by
    refine ⟨false, cleared, ?_, Prod.ext ?_ hcleared, ?_, Prod.ext ?_ hunpacked⟩
    all_goals
      subst hunpacked hcleared hfs
      decide +kernel
  have hfree : isUnhindered (Path.ofString "o") unpacked = true := by
    subst hunpacked hcleared hfs
    decide +kernel
  have hends : unpacked.endOf .never (Path.join (Path.ofString "o") Marker.fileName) =
        [Path.ofString "o", Path.ofString "runtime.json"] ∧
      fs.endOf .never (Path.join (Path.ofString "o") Marker.fileName) =
        [Path.ofString "o", Path.ofString "runtime.json"] := by
    subst hunpacked hcleared hfs
    decide +kernel
  have hfiles : unpacked.Holds [Path.ofString "o", Path.ofString "lib"] [1] ∧
      fs.Holds [Path.ofString "o", Path.ofString "old"] [7] ∧
      Spares [Path.ofString "o", Path.ofString "old"] cleared unpacked := by
    subst hunpacked hcleared hfs
    decide +kernel
  obtain ⟨hlib, hold, hspared⟩ := hfiles
  obtain ⟨c, u, hclear, hu, hframed⟩ := install_framed hn (Prod.ext hrun rfl)
  obtain rfl := hunpacks.unique hu
  obtain rfl : c = cleared := by rw [← hcleared, hclear]
  have hkept := (hframed fun _ _ => unhindered_of_check hfree).2
  rw [hends.1, hends.2] at hkept
  exact ⟨c, unpacked, _, hn, Prod.ext hrun rfl, hclear, hunpacks, unhindered_of_check hfree,
    (hkept _ _ (by decide)).1 hlib, (hkept _ _ (by decide)).2 (by decide) hold hspared⟩

end Installation

end SharedRuntime
