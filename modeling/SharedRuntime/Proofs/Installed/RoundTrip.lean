import SharedRuntime.Proofs.FileSystem.Overlay
import SharedRuntime.Proofs.FileSystem.Siblings
import SharedRuntime.Proofs.Installed.Saving

/-!
# A marker that is loaded and saved

A marker that is loaded, saved and loaded again is the same marker, and from then on its file holds
the same bytes (`Marker.load_save`). The text is the business of `Marker.parse?_text_of_parse?`, the
files that of `FileSystem.read_replaced`.

A save that fails leaves what is loaded as it was, for two reasons: a temporary file that was
written is not found under the name of the marker (`FileSystem.locate_beside`), and it can always be
renamed to a marker that is there (`FileSystem.locate_unrenamed`). The writing may also stop in the
middle of the text. Then the marker is lost if it and its temporary file are two names of one file,
and only then; a temporary file that is a link is written through, so that every save may lose the
marker (`Marker.load_save_linked`).
-/

set_option autoImplicit false

namespace SharedRuntime

open FileSystem

namespace Marker

variable {fs t u : FileSystem} {p dest : Path} {m : Marker}

/-- What is loaded depends on where the path leads and on what the file there holds. -/
theorem load_congr (hlocate : ∀ l n, t.locate p = .ok (l, n) ↔ fs.locate p = .ok (l, n))
    (hcontents : ∀ l i, t.locate p = .ok (l, .file i) → t.contentsOf i = fs.contentsOf i) :
    load t p = load fs p := by
  cases ht : t.locate p with
  | ok found =>
    obtain ⟨l, n⟩ := found
    have hfs := (hlocate l n).1 ht
    have hread : t.readText p = fs.readText p := by
      unfold FileSystem.readText FileSystem.read
      rw [ht, hfs]
      cases n with
      | file i =>
        have hsame := hcontents l i ht
        simp only [bind, Except.bind, hsame]
      | dir | link _ => rfl
    unfold load
    rw [exists?_of_locate ht, exists?_of_locate hfs, hread]
  | error f =>
    cases hfs : fs.locate p with
    | ok found =>
      rw [(hlocate found.1 found.2).2 hfs] at ht
      cases ht
    | error g =>
      have hnone : ∀ {s : FileSystem} {g : IoFault}, s.locate p = .error g →
          load s p = .ok none := by
        intro s g hs
        unfold load exists?
        rw [hs]
        rfl
      rw [hnone ht, hnone hfs]

theorem isValid_of_load (h : load fs p = .ok (some m)) : ∀ t ∈ m.installedAt, t.IsValid := by
  obtain ⟨text, -, hparse⟩ := load_some_iff.1 h
  obtain ⟨j, -, hj⟩ := Option.bind_eq_some_iff.1 hparse
  exact ofJson?_isValid hj

/-- A marker that was loaded is saved and loaded again, unless the temporary file cannot be
written. -/
theorem save_of_load (h : load fs p = .ok (some m)) (hq : fs.NoLink (temporary p)) :
    (∃ f, fs.write (temporary p) (Bytes.ofString m.text) = .error f ∧
        (save m p).perform fs = (.error f, fs)) ∨
      ∃ u, (save m p).perform fs = (.ok (), u) ∧ load u p = .ok (some m) ∧
        u.read p = .ok (Bytes.ofString m.text) ∧ u.NoLink (temporary p) := by
  obtain ⟨l, j, hfile⟩ := (load_some_iff.1 h).file
  rw [perform_save]
  cases hwrite : fs.write (temporary p) (Bytes.ofString m.text) with
  | error f => exact .inl ⟨f, rfl, rfl⟩
  | ok t =>
    obtain ⟨u, hrename, hread, hq'⟩ := read_replaced hfile hq hwrite
    dsimp only
    rw [hrename]
    exact .inr ⟨u, rfl, load_some_iff.2 (stands_of_read (isValid_of_load h) hread), hread, hq'⟩

/-- A save that fails changes nothing of what is loaded. -/
theorem load_of_save_error {f : IoFault} (hp : fs.NoLink p) (hq : fs.NoLink (temporary p))
    (h : (save m p).perform fs = (.error f, u)) : load u p = load fs p := by
  rw [perform_save] at h
  cases hwrite : fs.write (temporary p) (Bytes.ofString m.text) with
  | error f =>
    rw [hwrite] at h
    cases h
    rfl
  | ok t =>
    obtain ⟨x, i, hput⟩ := hq.put hwrite
    rw [hwrite] at h
    dsimp only at h
    cases hrename : t.rename (temporary p) p with
    | ok v =>
      rw [hrename] at h
      cases h
    | error g =>
      rw [hrename] at h
      cases h
      have hkept := locate_unrenamed hp hput hrename
      refine load_congr (fun l n => (hkept l n).1) fun l i hl => ?_
      cases (hkept l _).2 hl

/-- The temporary file of a path has another last name. -/
theorem endApart_temporary (hext : Path.extension? p ≠ some (Bytes.ofString "tmp")) :
    EndApart p (temporary p) := by
  obtain ⟨pre, n, rfl, hpre, hn⟩ := Path.exists_lastSegment p
  by_cases hname : Path.IsName n
  · obtain ⟨m, htemporary, hm, hne⟩ :=
      Path.withExtension_name (e := Bytes.ofString "tmp") hpre hname (by decide) (by decide)
    exact ⟨pre, n, pre, m, rfl, htemporary, hpre, hpre, hn, hm, fun _ => (hne hext).symm⟩
  · obtain ⟨pre', m, htemporary, hpre', hm⟩ := Path.exists_lastSegment (temporary (pre ++ n))
    exact ⟨pre, n, pre', m, rfl, htemporary, hpre, hpre', hn, hm, fun h => absurd h hname⟩

/-- Whatever the temporary file holds, what is loaded is the same, unless the two files are one. -/
theorem load_of_write {data : Bytes} (hext : Path.extension? p ≠ some (Bytes.ofString "tmp"))
    (hp : fs.NoLink p) (hq : fs.NoLink (temporary p)) (hn : fs.Numbered)
    (hother : ¬ fs.OneFile p (temporary p)) (hwrite : fs.write (temporary p) data = .ok t) :
    load t p = load fs p := by
  obtain ⟨x, i, hput⟩ := hq.put hwrite
  have hkept := locate_beside (endApart_temporary hext) hp hput
  exact load_congr hkept fun l j hj => hput.others j (hput.other hn ((hkept l _).1 hj) hother)

/-- A save whose writing stops leaves what was written in the temporary file. -/
theorem perform_saveAs_cut (m : Marker) (p : Path) (n : Nat) (f : IoFault) (fs : FileSystem) :
    (saveAs (.cut n f) m p).perform fs =
      match fs.write (temporary p) ((Bytes.ofString m.text).take n) with
      | .error g => (.error g, fs)
      | .ok t => (.error f, t) := by
  unfold saveAs Script.writeAs Script.write
  rw [Script.perform_bind, Script.perform_bind, Script.perform_change]
  cases fs.write (temporary p) ((Bytes.ofString m.text).take n) <;> rfl

/-- A save that fails, whatever part of the text was written, changes nothing of what is loaded,
unless the two files are one. -/
theorem load_of_saveAs_error {w : Script.Writing} {f : IoFault}
    (hext : Path.extension? p ≠ some (Bytes.ofString "tmp")) (hp : fs.NoLink p)
    (hq : fs.NoLink (temporary p)) (hn : fs.Numbered) (hother : ¬ fs.OneFile p (temporary p))
    (h : (saveAs w m p).perform fs = (.error f, u)) : load u p = load fs p := by
  cases w with
  | whole => exact load_of_save_error hp hq h
  | cut n g =>
    rw [perform_saveAs_cut] at h
    cases hwrite : fs.write (temporary p) ((Bytes.ofString m.text).take n) with
    | error g' =>
      rw [hwrite] at h
      cases h
      rfl
    | ok t =>
      rw [hwrite] at h
      cases h
      exact load_of_write hext hp hq hn hother hwrite

/-- A marker survives being saved. Whatever text it was read from, its own text reads as the same
marker. If its temporary file can be written, then saving it where it was loaded from succeeds, the
same marker is loaded from there, the status of the runtime is the same, and saving it once more
leaves the same bytes. A save that fails when it opens or renames the temporary file leaves what is
loaded as it was, and so does one that stops after any part of the text, as long as the temporary
file is not the marker's own. -/
theorem load_save :
    (∀ {text : String} {m : Marker}, parse? text = some m → parse? m.text = some m) ∧
      (∀ {fs : FileSystem} {p : Path} {m : Marker}, load fs p = .ok (some m) →
        fs.NoLink (temporary p) →
          (∃ f, fs.write (temporary p) (Bytes.ofString m.text) = .error f ∧
              (save m p).perform fs = (.error f, fs)) ∨
            ∃ u, (save m p).perform fs = (.ok (), u) ∧ load u p = .ok (some m) ∧
              u.read p = .ok (Bytes.ofString m.text) ∧
              (∀ {v}, (save m p).perform u = (.ok (), v) → v.read p = u.read p) ∧
              ∀ dest expected, p = Path.join dest fileName →
                installedStatus u dest expected = installedStatus fs dest expected) ∧
      (∀ {fs u : FileSystem} {p : Path} {m : Marker} {f : IoFault}, fs.NoLink p →
        fs.NoLink (temporary p) → (save m p).perform fs = (.error f, u) → load u p = load fs p) ∧
      ∀ {w : Script.Writing} {fs u : FileSystem} {p : Path} {m : Marker} {f : IoFault},
        Path.extension? p ≠ some (Bytes.ofString "tmp") → fs.NoLink p → fs.NoLink (temporary p) →
        fs.Numbered → ¬ fs.OneFile p (temporary p) →
        (saveAs w m p).perform fs = (.error f, u) → load u p = load fs p := by
  refine ⟨parse?_text_of_parse?, fun {fs p m} h hq => ?_, load_of_save_error,
    load_of_saveAs_error⟩
  rcases save_of_load h hq with hfault | ⟨u, hsave, hload, hread, hq'⟩
  · exact .inl hfault
  · refine .inr ⟨u, hsave, hload, hread, fun {v} hagain => ?_, fun dest expected hdest => ?_⟩
    · rcases save_of_load hload hq' with ⟨f, -, hfault⟩ | ⟨v', hv, -, hread', -⟩
      · rw [hagain] at hfault
        cases hfault
      · rw [hagain] at hv
        cases hv
        rw [hread', hread]
    · subst hdest
      unfold installedStatus
      rw [hload, h]

/-- A marker of a leap second. -/
def leapSecond : Marker := ⟨" 1.2 ", false, some ⟨⟨2016, 12, 31⟩, 23, 59, 60, 250000000⟩⟩

/-- In the directory `d` a marker that is written in another way, in `e` a directory in its place. -/
def storedLeapSecond : FileSystem :=
  ((((FileSystem.empty.insert [Path.ofString "d"] .dir).insertFile
    [Path.ofString "d", fileName] (Bytes.ofString
      "\x7b\"extra\":[1],\"installed_at\":\"2016-12-31T18:59:60.25-05:00\",\"version\":\" 1.2 \"\x7d")).insert
    [Path.ofString "e"] .dir).insert [Path.ofString "e", fileName] .dir)

/-- The fault of a disk that is full. -/
def diskFull : IoFault := .other "No space left on device (os error 28)"

/-- The marker of a leap second is loaded and saved; it cannot be saved over a directory, and it is
still there when the disk is full after the first byte. -/
theorem load_save_leapSecond :
    load storedLeapSecond (Path.ofString "/d/runtime.json") = .ok (some leapSecond) ∧
      (∃ u, (save leapSecond (Path.ofString "/d/runtime.json")).perform storedLeapSecond =
          (.ok (), u) ∧
        load u (Path.ofString "/d/runtime.json") = .ok (some leapSecond) ∧
        installedStatus u (Path.ofString "/d") (some "1.2") = .matched) ∧
      (∃ f u, (save leapSecond (Path.ofString "/e/runtime.json")).perform storedLeapSecond =
          (.error f, u) ∧
        load u (Path.ofString "/e/runtime.json") =
          load storedLeapSecond (Path.ofString "/e/runtime.json")) ∧
      ∃ u, (saveAs (.cut 1 diskFull) leapSecond (Path.ofString "/d/runtime.json")).perform
          storedLeapSecond = (.error diskFull, u) ∧
        load u (Path.ofString "/d/runtime.json") = .ok (some leapSecond) := by
  have hnolinks : storedLeapSecond.nodes.all (fun e => e.2.isDir || e.2.isFile) = true := by
    decide +kernel
  have hload : load storedLeapSecond (Path.ofString "/d/runtime.json") = .ok (some leapSecond) := by
    decide +kernel
  refine ⟨hload, ?_, ?_, ?_⟩
  · rcases load_save.2.1 hload (noLink_of_nodes hnolinks _) with
      ⟨f, hwrite, -⟩ | ⟨u, hsave, hagain, -, -, hstatus⟩
    · have hok : (storedLeapSecond.write (temporary (Path.ofString "/d/runtime.json"))
          (Bytes.ofString leapSecond.text)).toOption.isSome = true := by decide +kernel
      rw [hwrite] at hok
      cases hok
    · refine ⟨u, hsave, hagain, ?_⟩
      rw [hstatus (Path.ofString "/d") _ (by decide +kernel)]
      decide +kernel
  · have hfault : ((save leapSecond (Path.ofString "/e/runtime.json")).perform
        storedLeapSecond).1 = .error (.os .isDirectory) := by decide +kernel
    exact ⟨_, _, Prod.ext hfault rfl, load_save.2.2.1 (noLink_of_nodes hnolinks _)
      (noLink_of_nodes hnolinks _) (Prod.ext hfault rfl)⟩
  · have hcut : ((saveAs (.cut 1 diskFull) leapSecond (Path.ofString "/d/runtime.json")).perform
        storedLeapSecond).1 = .error diskFull := by decide +kernel
    -- Directories have no number, and the one file has the first.
    have hdir {s : FileSystem} (hs : s.Numbered) (l : Location) : (s.insert l .dir).Numbered :=
      hs.insert l nofun
    have hnumbered : storedLeapSecond.Numbered :=
      hdir (hdir ((hdir numbered_empty _).insertFile _ _) _) _
    have hother : ¬ storedLeapSecond.OneFile (Path.ofString "/d/runtime.json")
        (temporary (Path.ofString "/d/runtime.json")) := by
      have hfree : storedLeapSecond.locate (temporary (Path.ofString "/d/runtime.json")) =
          .error (.os .noEntry) := by decide +kernel
      rintro ⟨l, l', i, -, htemporary⟩
      cases hfree.symm.trans htemporary
    refine ⟨_, Prod.ext hcut rfl, ?_⟩
    rw [← hload]
    exact load_save.2.2.2 (by decide +kernel) (noLink_of_nodes hnolinks _)
      (noLink_of_nodes hnolinks _) hnumbered hother (Prod.ext hcut rfl)

/-- In the directory `d` a marker, and a node in the place of its temporary file. -/
def markerBeside (node : Node) : FileSystem :=
  ((FileSystem.empty.insert [Path.ofString "d"] .dir).insertFile [Path.ofString "d", fileName]
    (Bytes.ofString "\x7b\"version\":\"1\"\x7d")).insert
    [Path.ofString "d", temporaryName] node

/-- A marker is lost when it is saved over a link that leads to it. One that is its own temporary
file is lost when it is saved on a full disk. -/
theorem load_save_linked :
    (load (markerBeside (.link fileName)) (Path.ofString "/d/runtime.json") =
        .ok (some ⟨"1", false, none⟩) ∧
      ∃ u, (save ⟨"1", false, none⟩ (Path.ofString "/d/runtime.json")).perform
          (markerBeside (.link fileName)) = (.ok (), u) ∧
        load u (Path.ofString "/d/runtime.json") = .ok none) ∧
      load (markerBeside (.file 0)) (Path.ofString "/d/runtime.json") =
        .ok (some ⟨"1", false, none⟩) ∧
      Path.extension? (Path.ofString "/d/runtime.json") ≠ some (Bytes.ofString "tmp") ∧
      (markerBeside (.file 0)).NoLink (Path.ofString "/d/runtime.json") ∧
      (markerBeside (.file 0)).NoLink (temporary (Path.ofString "/d/runtime.json")) ∧
      ∃ u, (saveAs (.cut 0 diskFull) ⟨"1", false, none⟩ (Path.ofString "/d/runtime.json")).perform
          (markerBeside (.file 0)) = (.error diskFull, u) ∧
        load u (Path.ofString "/d/runtime.json") ≠
          load (markerBeside (.file 0)) (Path.ofString "/d/runtime.json") := by
  have hnolinks : (markerBeside (.file 0)).nodes.all (fun e => e.2.isDir || e.2.isFile) = true := by
    decide +kernel
  have hsave : ((save ⟨"1", false, none⟩ (Path.ofString "/d/runtime.json")).perform
      (markerBeside (.link fileName))).1 = .ok () := by decide +kernel
  have hcut : ((saveAs (.cut 0 diskFull) ⟨"1", false, none⟩
      (Path.ofString "/d/runtime.json")).perform (markerBeside (.file 0))).1 =
        .error diskFull := by decide +kernel
  refine ⟨⟨by decide +kernel, _, Prod.ext hsave rfl, by decide +kernel⟩, by decide +kernel,
    by decide +kernel, noLink_of_nodes hnolinks _, noLink_of_nodes hnolinks _, _,
    Prod.ext hcut rfl, by decide +kernel⟩

end Marker

end SharedRuntime
