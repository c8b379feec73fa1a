import SharedRuntime.Host.Layout
import SharedRuntime.Proofs.FileSystem.Removing
import SharedRuntime.Proofs.FileSystem.Texts

/-!
# What cleaning up removes

Cleaning up goes through the names of a directory and removes those whose paths lead to files. What
a link leads to may be removed before it is the link's turn, so what is removed depends on the order
of the names. `Swept` is what holds in every order: `Swept.skip` and `Swept.take` add a name in
front, and `removeFiles_sweeps` is about the whole run. `Layout.cleanup_sweeps` is about the
directory of a layout.
-/

set_option autoImplicit false

namespace SharedRuntime

open FileSystem

variable {fs fs' : FileSystem} {p : Path} {dir : Location} {n : Bytes} {names removed : List Bytes}

/-! ## Going through the names -/

/-- Of the names of a directory those were removed whose paths led to files when it was their
turn. -/
structure Swept (fs fs' : FileSystem) (p : Path) (dir : Location) (names removed : List Bytes) :
    Prop where
  visited : removed.Sublist names
  nodup : removed.Nodup
  first : ∀ n ∈ removed, fs.isFile (Path.join p n) = true
  /-- When it was the turn of `n`, the names removed before it were gone. -/
  led : ∀ before n after, removed = before ++ n :: after →
    (fs.without dir before).isFile (Path.join p n) = true
  tree : fs' = fs.without dir removed
  stays : fs'.locate p = .ok (dir, .dir)
  rest : ∀ n ∈ names, fs'.isFile (Path.join p n) = false

theorem Swept.nil (hdir : fs.locate p = .ok (dir, .dir)) : Swept fs fs p dir [] [] where
  visited := .slnil
  nodup := .nil
  first := fun n hn => absurd hn List.not_mem_nil
  led := fun before n after h => by simp at h
  tree := rfl
  stays := hdir
  rest := fun n hn => absurd hn List.not_mem_nil

/-- A name whose path leads to no file is left, and the path does not come to lead to one. -/
theorem Swept.skip (hdir : fs.locate p = .ok (dir, .dir)) (hnames : ∀ m ∈ names, Path.IsName m)
    (hn : fs.isFile (Path.join p n) = false) (h : Swept fs fs' p dir names removed) :
    Swept fs fs' p dir (n :: names) removed := by
  refine { h with visited := h.visited.cons n, rest := fun m hm => ?_ }
  rcases List.mem_cons.1 hm with rfl | hm
  · refine Bool.eq_false_iff.2 fun hfile => ?_
    rw [h.tree] at hfile
    have hbefore : fs.isFile (Path.join p m) = true := by
      refine isFile_of_without (fun k hk => ?_) hfile
      exact (remove_child hdir (hnames k (h.visited.subset hk)) (h.first k hk)).2.1.not_dir
    cases hn.symm.trans hbefore
  · exact h.rest m hm

/-- A name that is removed leads nowhere from then on. -/
theorem Swept.take (hdir : fs.locate p = .ok (dir, .dir)) (hn : Path.IsName n)
    (hfile : fs.isFile (Path.join p n) = true)
    (h : Swept (fs.erase (dir ++ [n])) fs' p dir names removed) :
    Swept fs fs' p dir (n :: names) (n :: removed) := by
  obtain ⟨-, hheld, -⟩ := remove_child hdir hn hfile
  -- Names in a directory are those that it holds, so an erased one leads nowhere through it.
  have hgone : ∀ {t : FileSystem}, t.node? (dir ++ [n]) = none →
      t.locate p = .ok (dir, .dir) → t.isFile (Path.join p n) = false := by
    intro t hnone ht
    refine Bool.eq_false_iff.2 fun hfile => ?_
    obtain ⟨node, hnode⟩ := mem_children_iff.1 (remove_child ht hn hfile).1
    cases hnone.symm.trans hnode
  have herased : (fs.erase (dir ++ [n])).node? (dir ++ [n]) = none := by
    simp [node?_erase]
  constructor
  case visited => exact h.visited.cons_cons n
  case nodup =>
    refine List.nodup_cons.2 ⟨fun hmem => ?_, h.nodup⟩
    cases (hgone herased (locate_erase_child hdir hheld)).symm.trans (h.first n hmem)
  case first =>
    intro m hm
    rcases List.mem_cons.1 hm with rfl | hm
    · exact hfile
    · exact isFile_of_erase hheld.not_dir (h.first m hm)
  case led =>
    intro before m after hsplit
    cases before with
    | nil =>
      cases hsplit
      exact hfile
    | cons k before =>
      obtain ⟨rfl, htail⟩ := List.cons.inj hsplit
      exact h.led before m after htail
  case tree => exact h.tree
  case stays => exact h.stays
  case rest =>
    intro m hm
    rcases List.mem_cons.1 hm with rfl | hm
    · refine hgone ?_ h.stays
      rw [h.tree, node?_without, herased, ite_self]
    · exact h.rest m hm

/-- Going through the names never fails, and removes what leads to a file when it is met. -/
theorem removeFiles_sweeps (hdir : fs.locate p = .ok (dir, .dir))
    (hnames : ∀ n ∈ names, Path.IsName n) : ∃ fs' removed,
      (Layout.removeFiles p names).perform fs = (.ok removed.length, fs') ∧
        Swept fs fs' p dir names removed := by
  induction names generalizing fs with
  | nil => exact ⟨fs, [], rfl, .nil hdir⟩
  | cons n names ih =>
    have hn := hnames n List.mem_cons_self
    have htail : ∀ m ∈ names, Path.IsName m := fun m hm => hnames m (List.mem_cons_of_mem n hm)
    rw [Layout.removeFiles, Script.perform_bind, Script.perform_look]
    dsimp only
    cases hfile : fs.isFile (Path.join p n) with
    | false =>
      obtain ⟨fs', removed, hrun, hswept⟩ := ih hdir htail
      exact ⟨fs', removed, hrun, hswept.skip hdir htail hfile⟩
    | true =>
      obtain ⟨-, hheld, hremove⟩ := remove_child hdir hn hfile
      obtain ⟨fs', removed, hrun, hswept⟩ := ih (locate_erase_child hdir hheld) htail
      refine ⟨fs', n :: removed, ?_, .take hdir hn hfile hswept⟩
      rw [if_pos rfl, Script.perform_bind, Script.perform_change, hremove]
      dsimp only
      rw [Script.perform_bind, hrun]
      rfl

/-- Where no name leads to a file nothing is removed. -/
theorem removeFiles_none (hnames : ∀ n ∈ names, fs.isFile (Path.join p n) = false) :
    (Layout.removeFiles p names).perform fs = (.ok 0, fs) := by
  induction names with
  | nil => rfl
  | cons n names ih =>
    rw [Layout.removeFiles, Script.perform_bind, Script.perform_look]
    dsimp only
    rw [hnames n List.mem_cons_self]
    exact ih fun m hm => hnames m (List.mem_cons_of_mem n hm)

/-! ## The directory of a layout -/

namespace Layout

/-- A directory after files were removed: what it still holds leads to no file, and all else is
what it was. -/
structure CleanedUp (fs fs' : FileSystem) (p : Path) (dir : Location)
    (names removed : List Bytes) : Prop extends Swept fs fs' p dir names removed where
  none_left : ∀ n ∈ fs'.children dir, fs'.isFile (Path.join p n) = false
  /-- A file is left only if the operating system does not take its path. -/
  untaken : ∀ n id, fs'.node? (dir ++ [n]) = some (.file id) →
    ¬ Usable (Path.join p n) ∨ nameLimit < n.length
  gone : ∀ n ∈ removed, fs'.node? (dir ++ [n]) = none
  kept : ∀ loc, (∀ n ∈ removed, loc ≠ dir ++ [n]) → fs'.node? loc = fs.node? loc
  contents : fs'.contents = fs.contents
  working : fs'.working = fs.working

/-- Only names of the directory went, so all that is left there was among the names. -/
theorem cleanedUp_of_swept (hnamed : fs.Named) (hall : ∀ n ∈ fs.children dir, n ∈ names)
    (h : Swept fs fs' p dir names removed) : CleanedUp fs fs' p dir names removed := by
  have hnode : ∀ loc, fs'.node? loc =
      if ∃ n ∈ removed, loc = dir ++ [n] then none else fs.node? loc := by
    rw [h.tree]
    exact node?_without
  have hnone : ∀ n ∈ fs'.children dir, fs'.isFile (Path.join p n) = false := by
    intro n hn
    obtain ⟨node, hfound⟩ := mem_children_iff.1 hn
    rw [hnode] at hfound
    split at hfound
    · cases hfound
    · exact h.rest n (hall n (mem_children_iff.2 ⟨node, hfound⟩))
  refine { h with
    none_left := hnone
    untaken := fun n id hfile => ?_
    gone := fun n hn => ?_
    kept := fun loc hloc => ?_
    contents := ?_
    working := ?_ }
  · have hn : n ∈ fs'.children dir := mem_children_iff.2 ⟨_, hfile⟩
    have hname : Path.IsName n := (h.tree ▸ hnamed.without : fs'.Named).isName hn
    by_contra htaken
    rw [not_or, not_not, Nat.not_lt] at htaken
    cases (hnone n hn).symm.trans (isFile_child h.stays hname hfile htaken.1 htaken.2)
  · rw [hnode, if_pos ⟨n, hn, rfl⟩]
  · rw [hnode, if_neg]
    rintro ⟨n, hn, he⟩
    exact hloc n hn he
  · rw [h.tree, contents_without]
  · rw [h.tree, working_without]

variable {l : Layout} {order again : List Bytes → List Bytes}

theorem perform_cleanupInOrder : (l.cleanupInOrder order).perform fs =
    if fs.exists? l.downloads then
      match fs.list l.downloads with
      | .ok names => ((removeFiles l.downloads (order names)).perform fs).map (·.mapError .io) id
      | .error f => (.error (.io f), fs)
    else (.ok 0, fs) := by
  rw [cleanupInOrder, Script.perform_bind, Script.perform_look]
  dsimp only
  split
  · rw [Script.perform_withFault, Script.perform_bind, Script.perform_look]
    cases fs.list l.downloads <;> rfl
  · rfl

theorem perform_of_dir (hdir : fs.locate l.downloads = .ok (dir, .dir)) :
    (l.cleanupInOrder order).perform fs =
      ((removeFiles l.downloads (order (fs.children dir))).perform fs).map (·.mapError .io) id := by
  rw [perform_cleanupInOrder, if_pos (exists?_of_locate hdir), list_of_locate hdir]

/-- A directory whose entries lead to no files stays as it is. -/
theorem perform_of_none (horder : ∀ names, (order names).Perm names)
    (hdir : fs.locate l.downloads = .ok (dir, .dir))
    (hnone : ∀ n ∈ fs.children dir, fs.isFile (Path.join l.downloads n) = false) :
    (l.cleanupInOrder order).perform fs = (.ok 0, fs) := by
  rw [perform_of_dir hdir, removeFiles_none fun n hn => hnone n ((horder _).subset hn)]
  rfl

theorem perform_of_absent (h : fs.exists? l.downloads = false) :
    (l.cleanupInOrder order).perform fs = (.ok 0, fs) := by
  rw [perform_cleanupInOrder, h]
  rfl

/-- There is a directory to clean up, or nothing. -/
theorem absent_or_dir {k : Nat}
    (hrun : (l.cleanupInOrder order).perform fs = (.ok k, fs')) :
    fs.exists? l.downloads = false ∨ ∃ dir, fs.locate l.downloads = .ok (dir, .dir) := by
  cases hexists : fs.exists? l.downloads with
  | false => exact .inl rfl
  | true =>
    rw [perform_cleanupInOrder, hexists, if_pos rfl] at hrun
    split at hrun
    · rename_i names hlist
      exact .inr (locate_of_list hlist)
    · cases hrun

theorem exists_cleanedUp (hnamed : fs.Named) (horder : ∀ names, (order names).Perm names)
    (hdir : fs.locate l.downloads = .ok (dir, .dir)) : ∃ fs' removed,
      (l.cleanupInOrder order).perform fs = (.ok removed.length, fs') ∧
        CleanedUp fs fs' l.downloads dir (order (fs.children dir)) removed := by
  have hnames : ∀ n ∈ order (fs.children dir), Path.IsName n :=
    fun n hn => hnamed.isName ((horder _).subset hn)
  have hall : ∀ n ∈ fs.children dir, n ∈ order (fs.children dir) :=
    fun n hn => (horder _).symm.subset hn
  obtain ⟨fs', removed, hrun, hswept⟩ := removeFiles_sweeps hdir hnames
  refine ⟨fs', removed, ?_, cleanedUp_of_swept hnamed hall hswept⟩
  rw [perform_of_dir hdir, hrun]
  rfl

/-- In whatever order the directory is listed, its files are removed and nothing else; doing so
again, in another order, removes nothing. -/
theorem cleanup_sweeps (l : Layout) (hnamed : fs.Named)
    (horder : ∀ names, (order names).Perm names) (hagain : ∀ names, (again names).Perm names) :
    ((∃ n fs', (l.cleanupInOrder order).perform fs = (.ok n, fs')) ↔
      fs.exists? l.downloads = false ∨ fs.isDir l.downloads = true) ∧
    ∀ n fs', (l.cleanupInOrder order).perform fs = (.ok n, fs') →
      (fs.exists? l.downloads = false ∧ n = 0 ∧ fs' = fs ∨
        ∃ dir removed, fs.locate l.downloads = .ok (dir, .dir) ∧ removed.length = n ∧
          CleanedUp fs fs' l.downloads dir (order (fs.children dir)) removed) ∧
      (l.cleanupInOrder again).perform fs' = (.ok 0, fs') := by
  refine ⟨⟨?_, ?_⟩, fun n fs' hrun => ?_⟩
  · rintro ⟨n, fs', hrun⟩
    exact (absent_or_dir hrun).imp_right isDir_iff.2
  · rintro (h | h)
    · exact ⟨0, fs, perform_of_absent h⟩
    · obtain ⟨dir, hdir⟩ := isDir_iff.1 h
      obtain ⟨fs', removed, hrun, -⟩ := exists_cleanedUp hnamed horder hdir
      exact ⟨removed.length, fs', hrun⟩
  · rcases absent_or_dir hrun with h | ⟨dir, hdir⟩
    · rw [perform_of_absent h] at hrun
      cases hrun
      exact ⟨.inl ⟨h, rfl, rfl⟩, perform_of_absent h⟩
    · -- No file is left in the directory, so sweeping once more finds none.
      obtain ⟨t, removed, hclean, hcleaned⟩ := exists_cleanedUp hnamed horder hdir
      rw [hclean] at hrun
      cases hrun
      exact ⟨.inr ⟨dir, removed, hdir, rfl, hcleaned⟩,
        perform_of_none hagain hcleaned.stays hcleaned.none_left⟩

/-- An update left two files, one of them in a directory, and links to the first, to a file
elsewhere, to the directory and to nothing. -/
def leftovers : FileSystem where
  nodes := [(["u"], .dir), (["u", "out"], .file 0), (["u", "downloads"], .dir),
    (["u", "downloads", "first"], .file 1),
    (["u", "downloads", "again"], .link (Path.ofString "first")),
    (["u", "downloads", "above"], .link (Path.ofString "../out")),
    (["u", "downloads", "nothing"], .link (Path.ofString "missing")),
    (["u", "downloads", "inside"], .dir), (["u", "downloads", "inside", "second"], .file 2),
    (["u", "downloads", "within"], .link (Path.ofString "inside"))].map
      fun e => (e.1.map Path.ofString, e.2)
  contents := [(0, [1]), (1, [2]), (2, [3])]
  fresh := 3
  working := [Path.ofString "u"]

/-- From the end of the list, the link to the first file is met before the file, and both go; from
its start the file goes first, and the link stays. -/
theorem cleanup_sweeps_links :
    (∃ fs' removed, (cleanupInOrder ⟨[]⟩ List.reverse).perform leftovers = (.ok 3, fs') ∧
      removed.length = 3 ∧
      CleanedUp leftovers fs' (downloads ⟨[]⟩) [Path.ofString "u", Path.ofString "downloads"]
        (leftovers.children [Path.ofString "u", Path.ofString "downloads"]).reverse removed ∧
      (cleanupInOrder ⟨[]⟩ id).perform fs' = (.ok 0, fs')) ∧
    ((cleanupInOrder ⟨[]⟩ id).perform leftovers).1 = .ok 2 := by
  have hnamed : leftovers.Named := by
    unfold Named
    decide +kernel
  have hcount : ((cleanupInOrder ⟨[]⟩ List.reverse).perform leftovers).1 = .ok 3 := by
    decide +kernel
  have hdir : leftovers.locate (downloads ⟨[]⟩) =
      .ok ([Path.ofString "u", Path.ofString "downloads"], .dir) := by decide +kernel
  have hrun := Prod.ext hcount rfl
  obtain ⟨hends, hagain⟩ := (cleanup_sweeps ⟨[]⟩ hnamed List.reverse_perm fun _ => .refl _).2 3
    ((cleanupInOrder ⟨[]⟩ List.reverse).perform leftovers).2 hrun
  refine ⟨?_, by decide +kernel⟩
  rcases hends with ⟨hnone, -, -⟩ | ⟨dir, removed, hdir', hlength, hclean⟩
  · rw [exists?_of_locate hdir] at hnone
    cases hnone
  · cases hdir.symm.trans hdir'
    exact ⟨_, removed, hrun, hlength, hclean, hagain⟩

end Layout

end SharedRuntime
