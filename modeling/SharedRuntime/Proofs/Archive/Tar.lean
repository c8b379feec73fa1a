import SharedRuntime.Archive.Tar.Unpack
import SharedRuntime.Proofs.FileSystem.Directories
import SharedRuntime.Proofs.FileSystem.Links

/-!
# Tarballs stay where they are unpacked

Whatever its members are, and whatever links they make and pass, an archive changes nothing outside
the directory that it is unpacked into (`stays_unpack`). Each member is made in a directory that was
found inside with all links followed, and no operation follows a link at the end of its path. If no
member is a link, no link is made (`unpack_noNewLinks`).
-/

set_option autoImplicit false

namespace SharedRuntime

theorem Path.names_pathOf {loc : Location} (h : ∀ n ∈ loc, IsName n) :
    names (FileSystem.pathOf loc) = loc := by
  have hnames : names (ofSegments true loc) = loc.filter (· != []) :=
    names_ofSegments fun s hs => (h s hs).noSlash
  refine hnames.trans (List.filter_eq_self.2 fun s hs => ?_)
  simpa using (h s hs).ne_nil

namespace Tar

open FileSystem Script

variable {base root : Location} {made : List Location} {fs : FileSystem}

/-- The names of a member's path are proper ones. -/
theorem isName_of_relativeNames? {path : Path} {ns : List Bytes}
    (h : relativeNames? path = some ns) : ∀ n ∈ ns, Path.IsName n := by
  have hsteps : ∀ n ∈ ns, Path.Step.name n ∈ Path.steps path := by
    unfold relativeNames? at h
    revert h
    generalize Path.steps path = steps
    intro h
    induction steps generalizing ns with
    | nil =>
      intro n hn
      cases h
      cases hn
    | cons step steps ih =>
      intro n hn
      rw [List.foldr_cons] at h
      cases step with
      | name m =>
        obtain ⟨ms, hms, rfl⟩ := Option.map_eq_some_iff.1 h
        rcases List.mem_cons.1 hn with rfl | hn
        · exact List.mem_cons_self
        · exact List.mem_cons_of_mem _ (ih hms n hn)
      | parent => cases h
      | root => exact List.mem_cons_of_mem _ (ih h n hn)
      | current => exact List.mem_cons_of_mem _ (ih h n hn)
  intro n hn
  exact Path.isName_of_mem_steps (hsteps n hn)

theorem requireInside_ok {p : Path} {t : FileSystem}
    (h : (requireInside root p).perform fs = (.ok (), t)) : t = fs ∧ fs.LiesIn root p := by
  unfold requireInside at h
  rw [perform_look] at h
  obtain ⟨hr, rfl⟩ := Prod.mk.inj h
  refine ⟨rfl, ?_⟩
  split at hr
  · cases hr
  · rename_i loc node hl
    split at hr
    · rename_i habove
      exact ⟨loc, node, hl, List.isPrefixOf_iff_prefix.1 habove⟩
    · cases hr

/-! ## What the steps keep -/

section
variable {R : FileSystem → FileSystem → Prop} [Frame R]

/-- What each directory that is made keeps, once its parent was found inside. -/
theorem keeps_makeInside {ps : List Path}
    (h : ∀ p ∈ ps, ∀ t : FileSystem, (∀ q, Path.parent? p = some q → t.LiesIn root q) →
      R t (t.makeDirAll p).2) : Keeps R (makeInside root ps) fs := by
  induction ps generalizing fs with
  | nil => exact keeps_pure ()
  | cons p ps ih =>
    have hp := h p List.mem_cons_self
    have hrest : ∀ t, Keeps R (makeInside root ps) t :=
      fun t => ih fun q hq => h q (List.mem_cons_of_mem _ hq)
    unfold makeInside
    cases hq : Path.parent? p with
    | none =>
      refine .bind (hp fs fun q hq' => ?_) fun _ t _ => hrest t
      rw [hq] at hq'
      cases hq'
    | some q =>
      refine .bind (keeps_look _) fun _ t ht => ?_
      obtain ⟨rfl, hin⟩ := requireInside_ok ht
      refine .bind (hp _ fun q' hq' => ?_) fun _ t _ => hrest t
      rw [hq] at hq'
      cases hq'
      exact hin

theorem keeps_ensureDir {p : Path}
    (h : ∀ a ∈ p.ancestors, ∀ t : FileSystem,
      (∀ q, Path.parent? a = some q → t.LiesIn root q) → R t (t.makeDirAll a).2) :
    Keeps R (ensureDir root p) fs := by
  refine .bind (keeps_look _) fun missing t ht => keeps_makeInside fun q hq => h q ?_
  rw [perform_look] at ht
  cases ht
  exact (List.takeWhile_prefix _).subset (List.mem_reverse.1 hq)

/-- If something is in the way, it is removed, and the operation is done once more. -/
theorem keeps_replacing {p : Path} {op : FileSystem → Except IoFault FileSystem}
    (hop : ∀ t t', t.PartOf fs → op t = .ok t' → R t t')
    (hremove : ∀ t, fs.remove p = .ok t → R fs t) :
    Keeps R (replacing p (change op)) fs := by
  unfold replacing
  refine .bind (.caught (keeps_change fun t h => hop fs t (fun _ _ h => h) h)) fun r t h => ?_
  rw [perform_caught, perform_change] at h
  cases hr : op fs with
  | ok t' =>
    rw [hr] at h
    cases h
    exact keeps_pure ()
  | error f =>
    rw [hr] at h
    cases h
    dsimp only
    split
    · refine .bind (keeps_change hremove) fun _ t h => ?_
      rw [perform_change] at h
      cases hrem : fs.remove p with
      | error g =>
        rw [hrem] at h
        cases h
      | ok t' =>
        rw [hrem] at h
        cases h
        obtain ⟨loc, node, s, -, -, rfl⟩ := remove_ok hrem
        exact keeps_change fun t h => hop _ t (erase_partOf fs loc) h
    · exact keeps_fail f

theorem keeps_unpackDir {p : Path} (h : ∀ t, fs.makeDir p = .ok t → R fs t) :
    Keeps R (unpackDir p) fs := by
  unfold unpackDir
  refine .bind (.caught (keeps_change h)) fun r t _ => ?_
  cases r with
  | ok u => exact keeps_pure ()
  | error f =>
    refine .bind (keeps_look _) fun isDir t' _ => ?_
    split
    · exact keeps_pure ()
    · exact keeps_fail f

theorem keeps_unpackFile {p : Path}
    (h : ∀ t t' bytes, t.PartOf fs → t.writeNew p bytes = .ok t' → R t t')
    (hremove : ∀ t, fs.remove p = .ok t → R fs t) (m : Member) :
    Keeps R (unpackFile p m) fs := by
  unfold unpackFile
  refine .bind (keeps_replacing (fun t t' ht hw => h t t' _ ht hw) hremove) fun _ t _ => ?_
  split
  · exact keeps_pure ()
  · exact keeps_fail _

end

/-! ## Nothing changes outside -/

theorem LiesIn.mono {p : Path} (hbase : base <+: root) (h : fs.LiesIn root p) :
    fs.LiesIn base p := by
  obtain ⟨loc, node, hl, hr⟩ := h
  exact ⟨loc, node, hl, hbase.trans hr⟩

/-- An absolute path of proper names. -/
structure Plain (p : Path) : Prop where
  absolute : Path.isAbsolute p = true
  named : ∀ n ∈ Path.names p, Path.IsName n

theorem Plain.comps_eq {p : Path} (h : Plain p) : Path.comps p = Path.names p := by
  refine List.filter_eq_self.2 fun n hn => ?_
  simpa using (h.named n hn).ne_here

theorem start_of_absolute (whole : FileSystem) {p q : Path} (hp : Path.isAbsolute p = true)
    (hq : Path.isAbsolute q = true) : fs.start p = whole.start q := by
  unfold FileSystem.start
  rw [hp, hq, if_pos rfl, if_pos rfl]

theorem Plain.parent? {p q : Path} (hp : Plain p) (h : Path.parent? p = some q) :
    Plain q ∧ Path.names q = (Path.names p).dropLast := by
  obtain ⟨hcomps, habs⟩ := Path.comps_parent? h
  have hq : Plain q :=
    ⟨habs.trans hp.absolute, fun n hn => hp.named n (Path.mem_names_parent? h hn)⟩
  refine ⟨hq, ?_⟩
  rw [← hq.comps_eq, ← hp.comps_eq]
  exact hcomps

/-- Nothing that was made below a parent inside leads outside. -/
theorem leadsInto_below {whole : FileSystem} {p q : Path} {n : Bytes} (hsub : fs.PartOf whole)
    (hp : Plain p) (hq : Plain q) (hnames : Path.names p = Path.names q ++ [n])
    (hin : whole.LiesIn base q) : fs.LeadsInto base .never p := by
  refine leadsInto_child hsub (start_of_absolute whole hp.absolute hq.absolute) hnames
    (hp.named n ?_) hin
  rw [hnames]
  simp

theorem stays_ensureDir {p : Path} (hbase : base <+: root) (hp : Plain p) :
    Stays base made (ensureDir root p) fs := by
  refine keeps_ensureDir fun a ha t hin => ?_
  obtain ⟨-, habs, hmem⟩ := Path.mem_ancestors ha
  have hplain : Plain a := ⟨habs.trans hp.absolute, fun n hn => hp.named n (hmem n hn)⟩
  by_cases hnil : Path.names a = []
  · obtain ⟨above, habove⟩ := Path.ancestors_eq_cons a
    rw [FileSystem.makeDirAll, habove, makeDirs_nameless hnil]
    exact .refl
  cases hq : Path.parent? a with
  | none =>
    rw [← hplain.comps_eq, Path.comps_of_parent?_none hq] at hnil
    exact absurd rfl hnil
  | some q =>
    obtain ⟨hq', hnames⟩ := hplain.parent? hq
    have hlies := LiesIn.mono hbase (hin q hq)
    have hlast : Path.names a = Path.names q ++ [(Path.names a).getLast hnil] := by
      rw [hnames, List.dropLast_concat_getLast]
    exact within_makeDirAll hq hlies
      (leadsInto_below (fun _ _ h => h) hplain hq' hlast hlies)

theorem stays_unpackMember {p : Path}
    (hp : ∀ t : FileSystem, t.PartOf fs → t.LeadsInto base .never p) (hbase : base <+: root)
    (m : Member) : Stays base made (unpackMember root p m) fs := by
  have hself := hp fs fun _ _ h => h
  unfold unpackMember
  split
  · exact keeps_unpackDir fun t h => within_makeDir hself h
  split
  · refine .bind (keeps_outcome _) fun target t h => ?_
    rw [linkTarget, perform_outcome] at h
    obtain ⟨-, rfl⟩ := Prod.mk.inj h
    refine .bind (keeps_look _) fun _ t h => ?_
    obtain ⟨rfl, hin⟩ := requireInside_ok h
    refine keeps_change fun t h => within_makeHardLink hself (fun id hi => ?_) h
    exact (LiesIn.mono hbase hin).file hi
  split
  · refine .bind (keeps_outcome _) fun target t h => ?_
    rw [linkTarget, perform_outcome] at h
    obtain ⟨-, rfl⟩ := Prod.mk.inj h
    exact keeps_replacing (fun t t' ht h => within_makeLink (hp t ht) h)
      fun t h => within_remove hself h
  split
  · exact keeps_pure ()
  split
  · exact keeps_unpackDir fun t h => within_makeDir hself h
  · exact keeps_unpackFile (fun t t' bytes ht h => within_writeNew (hp t ht) h)
      (fun t h => within_remove hself h) m

theorem stays_unpackInside (hbase : base <+: root) (hroot : ∀ n ∈ root, Path.IsName n)
    (m : Member) : Stays base made (unpackInside root m) fs := by
  unfold unpackInside
  split
  · exact keeps_pure ()
  · exact keeps_pure ()
  rename_i ns hne hns
  have hnamed := isName_of_relativeNames? hns
  have hplain : ∀ ms : List Bytes, (∀ n ∈ ms, Path.IsName n) →
      Plain (ms.foldl Path.join (pathOf root)) ∧
        Path.names (ms.foldl Path.join (pathOf root)) = root ++ ms := by
    intro ms hms
    obtain ⟨h1, h2⟩ := Path.names_foldl_join (p := pathOf root) hms
    rw [Path.names_pathOf hroot] at h1
    refine ⟨⟨h2, fun n hn => ?_⟩, h1⟩
    rw [h1] at hn
    rcases List.mem_append.1 hn with hn | hn
    · exact hroot n hn
    · exact hms n hn
  have hne' : ns ≠ [] := fun h => hne (by rw [h])
  obtain ⟨hp, hpn⟩ := hplain ns hnamed
  obtain ⟨hq, hqn⟩ := hplain ns.dropLast fun n hn => hnamed n (List.dropLast_subset ns hn)
  have hnames : Path.names (ns.foldl Path.join (pathOf root)) =
      Path.names (ns.dropLast.foldl Path.join (pathOf root)) ++ [ns.getLast hne'] := by
    rw [hpn, hqn, List.append_assoc, List.dropLast_concat_getLast]
  refine .bind (.withFault _ (stays_ensureDir hbase hq)) fun _ t _ => ?_
  refine .bind (keeps_look _) fun _ t' h => ?_
  obtain ⟨rfl, hin⟩ := requireInside_ok h
  exact .withFault _ (stays_unpackMember
    (fun u hu => leadsInto_below hu hp hq hnames (LiesIn.mono hbase hin)) hbase m)

theorem stays_unpackAll (hbase : base <+: root) (hroot : ∀ n ∈ root, Path.IsName n)
    (ms : List Member) : Stays base made (unpackAll root ms) fs := by
  induction ms generalizing fs with
  | nil => exact keeps_pure ()
  | cons m ms ih => exact .bind (stays_unpackInside hbase hroot m) fun _ t _ => ih

/-- An archive is unpacked without any change outside. -/
theorem stays_unpack {s : ByteStream} {dir : Path}
    (h : ∀ loc node, fs.locate dir = .ok (loc, node) →
      base <+: loc ∧ ∀ n ∈ loc, Path.IsName n) :
    Stays base made (unpack s dir) fs := by
  unfold unpack
  refine .bind (keeps_look _) fun found t hl => ?_
  rw [perform_look] at hl
  obtain ⟨hlocate, rfl⟩ := Prod.mk.inj hl
  obtain ⟨hbase, hroot⟩ := h found.1 found.2 hlocate
  refine .bind (stays_unpackAll hbase hroot _) fun _ t _ => ?_
  split
  · exact keeps_fail _
  · exact stays_unpackAll hbase hroot _

/-! ## Archives without links -/

/-- Is the member a symbolic or a hard link? -/
def Member.isLink (m : Member) : Bool := m.kind == '1' || m.kind == '2'

theorem unpackInside_noNewLinks {m : Member} (hm : m.isLink = false) :
    Keeps NoNewLinks (unpackInside root m) fs := by
  obtain ⟨hhard, hsymbolic⟩ : ¬ m.kind = '1' ∧ ¬ m.kind = '2' := by
    simpa [Member.isLink] using hm
  unfold unpackInside
  split
  · exact keeps_pure ()
  · exact keeps_pure ()
  refine .bind (.withFault _ (keeps_ensureDir fun _ _ _ _ => noNewLinks_makeDirAll _))
    fun _ t _ => .bind (keeps_look _) fun _ t' _ => .withFault _ ?_
  unfold unpackMember
  rw [if_neg hhard, if_neg hsymbolic]
  split
  · exact keeps_unpackDir fun t h => noNewLinks_makeDir h
  split
  · exact keeps_pure ()
  split
  · exact keeps_unpackDir fun t h => noNewLinks_makeDir h
  · exact keeps_unpackFile (fun _ _ _ _ h => noNewLinks_writeNew h)
      (fun _ h => noNewLinks_remove h) m

theorem unpackAll_noNewLinks {ms : List Member} (hms : ∀ m ∈ ms, m.isLink = false) :
    Keeps NoNewLinks (unpackAll root ms) fs := by
  induction ms generalizing fs with
  | nil => exact keeps_pure ()
  | cons m ms ih =>
    exact .bind (unpackInside_noNewLinks (hms m List.mem_cons_self)) fun _ t _ =>
      ih fun x hx => hms x (List.mem_cons_of_mem _ hx)

/-- An archive whose members are no links makes none. -/
theorem unpack_noNewLinks {s : ByteStream} {dir : Path}
    (hms : ∀ m ∈ (members s).1, m.isLink = false) :
    Keeps NoNewLinks (unpack s dir) fs := by
  unfold unpack
  refine .bind (keeps_look _) fun found t _ => ?_
  refine .bind (unpackAll_noNewLinks fun m hm => hms m (List.mem_filter.1 hm).1) fun _ t _ => ?_
  split
  · exact keeps_fail _
  · refine unpackAll_noNewLinks fun m hm => hms m ?_
    exact (List.mem_filter.1 (List.mem_mergeSort.1 hm)).1

end Tar

end SharedRuntime
