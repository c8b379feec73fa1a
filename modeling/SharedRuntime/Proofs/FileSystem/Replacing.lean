import SharedRuntime.Proofs.FileSystem.Alike
import SharedRuntime.Proofs.FileSystem.Vacant

/-!
# A file that replaces another

A file is replaced by writing the new one beside it and renaming it. Where both names stand in one
directory and neither is a link or a directory (`Beside`), what is read afterwards is what was
written, also if the two names were one file before (`Beside.read_replaced`).
-/

set_option autoImplicit false

namespace SharedRuntime.FileSystem

variable {fs t u : FileSystem} {p q : Path} {dir : Location} {n m : Bytes} {data : Bytes}

/-- The two paths are names of one directory. What stands there are files, if anything. -/
structure Beside (fs : FileSystem) (p q : Path) (dir : Location) (n m : Bytes) : Prop where
  ne : n ≠ m
  first : fs.resolve .never p = .ok ⟨fs.placeAt dir n, false, false⟩
  second : fs.resolve .never q = .ok ⟨fs.placeAt dir m, false, false⟩
  first_ends : ¬ fs.Passable (dir ++ [n])
  second_ends : ¬ fs.Passable (dir ++ [m])

/-- The path itself is not a link. -/
def NoLink (fs : FileSystem) (p : Path) : Prop :=
  ∀ loc target s d, fs.resolve .never p ≠ .ok ⟨.node loc (.link target), s, d⟩

theorem NoLink.resolve_always (h : fs.NoLink p) : fs.resolve .always p = fs.resolve .never p :=
  FileSystem.resolve_always rfl h

/-- A tree of directories and files has no links. -/
theorem not_link_of_nodes (h : fs.nodes.all (fun e => e.2.isDir || e.2.isFile) = true)
    (l : Location) (target : Path) : fs.node? l ≠ some (.link target) := by
  intro hnode
  unfold node? at hnode
  split at hnode
  · cases hnode
  · obtain ⟨before, after, hsplit, -⟩ := List.lookup_eq_some_iff.1 hnode
    have hlink := List.all_eq_true.1 h (l, .link target) (by simp [hsplit])
    cases hlink

/-- In a tree without links no path is one. -/
theorem noLink_of_nodes (h : fs.nodes.all (fun e => e.2.isDir || e.2.isFile) = true) (p : Path) :
    fs.NoLink p := by
  intro loc target s d hr
  rcases resolve_holds hr with he | hnode
  · cases he
  · exact not_link_of_nodes h loc target hnode

theorem placeAt_node {node : Node} (h : fs.node? (dir ++ [n]) = some node) :
    fs.placeAt dir n = .node (dir ++ [n]) node := by
  unfold placeAt
  rw [h]

theorem placeAt_free (h : fs.node? (dir ++ [n]) = none) : fs.placeAt dir n = .free dir n := by
  unfold placeAt
  rw [h]

theorem placeAt_eq_free {loc : Location} {name : Bytes}
    (h : fs.placeAt dir n = .free loc name) : fs.node? (dir ++ [n]) = none ∧ dir = loc ∧ n = name := by
  unfold placeAt at h
  split at h
  · cases h
  · rename_i hnone
    cases h
    exact ⟨hnone, rfl, rfl⟩

theorem not_passable_file {x : Location} {i : Nat} (h : fs.node? x = some (.file i)) :
    ¬ fs.Passable x := by
  rintro (hdir | ⟨target, hlink⟩)
  · rw [h] at hdir
    cases hdir
  · rw [h] at hlink
    cases hlink

theorem not_passable_none {x : Location} (h : fs.node? x = none) : ¬ fs.Passable x := by
  rintro (hdir | ⟨target, hlink⟩)
  · rw [h] at hdir
    cases hdir
  · rw [h] at hlink
    cases hlink

/-- What comes to the end of a path in place of a file or of nothing is what it leads to. -/
theorem resolve_put {i : Nat} (h : fs.resolve .never p = .ok ⟨fs.placeAt dir n, false, false⟩)
    (hends : ¬ fs.Passable (dir ++ [n])) (hsame : SameBut (dir ++ [n]) fs t)
    (hn : t.node? (dir ++ [n]) = some (.file i)) :
    t.resolve .never p = .ok ⟨.node (dir ++ [n]) (.file i), false, false⟩ := by
  cases hnode : fs.node? (dir ++ [n]) with
  | none =>
    rw [placeAt_free hnode] at h
    exact resolve_filled h hsame hn (.inl rfl)
  | some node =>
    rw [placeAt_node hnode] at h
    cases node with
    | dir => exact absurd (.inl hnode) hends
    | link target => exact absurd (.inr ⟨target, hnode⟩) hends
    | file j =>
      have hshape : SameShape fs t := by
        refine ⟨hsame.working.symm, fun l => ?_⟩
        by_cases hl : l = dir ++ [n]
        · rw [hl, hnode, hn]
          rfl
        · rw [hsame.node l hl]
      have hwalk := resolve_same hshape .never p
      rw [h] at hwalk
      generalize t.resolve .never p = r at hwalk
      cases hwalk with
      | file _ hfound =>
        cases hn.symm.trans hfound
        rfl

theorem locate_of_never {x : Location} {i : Nat}
    (h : fs.resolve .never p = .ok ⟨.node x (.file i), false, false⟩) :
    fs.locate p = .ok (x, .file i) := by
  unfold locate
  rw [resolve_always h fun _ _ _ _ he => by cases he]
  rfl

/-- Writing to a path that is not a link puts a file with the data at its end. -/
theorem write_put (h : fs.resolve .never p = .ok ⟨fs.placeAt dir n, false, false⟩)
    (hends : ¬ fs.Passable (dir ++ [n])) (hwrite : fs.write p data = .ok t) : ∃ i,
      t.node? (dir ++ [n]) = some (.file i) ∧ t.contentsOf i = data ∧
        SameBut (dir ++ [n]) fs t := by
  have halways : fs.resolve .always p = .ok ⟨fs.placeAt dir n, false, false⟩ := by
    refine resolve_always h fun loc target s d he => hends (.inr ⟨target, ?_⟩)
    unfold placeAt at he
    split at he
    · rename_i hnode
      cases he
      exact hnode
    · cases he
  obtain ⟨place, d, hr, hdone⟩ := write_ok hwrite
  rw [halways] at hr
  cases hnode : fs.node? (dir ++ [n]) with
  | none =>
    rw [placeAt_free hnode] at hr
    cases hr
    rcases hdone with ⟨_, _, he, -⟩ | ⟨_, _, he, rfl⟩
    · cases he
    · cases he
      exact ⟨fs.fresh, node?_insertFile_self fs data (by simp),
        contentsOf_insertFile_self fs _ data, sameBut_insertFile fs _ data⟩
  | some node =>
    rw [placeAt_node hnode] at hr
    cases hr
    rcases hdone with ⟨_, i, he, rfl⟩ | ⟨_, _, he, -⟩
    · cases he
      exact ⟨i, hnode, contentsOf_setContents_self fs i data, fun _ _ => rfl, rfl⟩
    · cases he

theorem locate_placeAt {i : Nat} (h : fs.resolve .never p = .ok ⟨fs.placeAt dir n, false, false⟩)
    (hn : fs.node? (dir ++ [n]) = some (.file i)) :
    fs.locate p = .ok (dir ++ [n], .file i) := by
  rw [placeAt_node hn] at h
  exact locate_of_never h

/-- A path leads to the same place in a tree that differs elsewhere. -/
theorem resolve_placeAt_away {x : Location}
    (h : fs.resolve .never p = .ok ⟨fs.placeAt dir n, false, false⟩) (hsame : SameBut x fs t)
    (hx : ¬ fs.Passable x) (hne : dir ++ [n] ≠ x) :
    t.resolve .never p = .ok ⟨t.placeAt dir n, false, false⟩ ∧
      t.node? (dir ++ [n]) = fs.node? (dir ++ [n]) := by
  have hnode := hsame.node _ hne
  refine ⟨?_, hnode⟩
  rw [resolve_away hsame hx h (by rw [location_placeAt]; exact hne)]
  unfold placeAt
  rw [hnode]

theorem Beside.locations_ne (h : fs.Beside p q dir n m) : dir ++ [n] ≠ dir ++ [m] := fun he =>
  h.ne (List.cons.inj (List.append_cancel_left he)).1

/-- Writing to the one name leaves the other as it was. -/
theorem Beside.write (h : fs.Beside p q dir n m) (hwrite : fs.write q data = .ok t) : ∃ i,
    t.Beside p q dir n m ∧ t.node? (dir ++ [m]) = some (.file i) ∧ t.contentsOf i = data := by
  obtain ⟨i, hi, hdata, hsame⟩ := write_put h.second h.second_ends hwrite
  obtain ⟨hp, hnode⟩ := resolve_placeAt_away h.first hsame h.second_ends h.locations_ne
  refine ⟨i, ⟨h.ne, hp, ?_, ?_, not_passable_file hi⟩, hi, hdata⟩
  · rw [placeAt_node hi]
    exact resolve_put h.second h.second_ends hsame hi
  · unfold Passable
    rw [hnode]
    exact h.first_ends

/-- A file that is renamed is moved, unless both names are that file already. -/
theorem Beside.rename_ok {i : Nat} (h : fs.Beside p q dir n m)
    (hi : fs.node? (dir ++ [m]) = some (.file i)) (hrename : fs.rename q p = .ok t) :
    t = (fs.erase (dir ++ [m])).insert (dir ++ [n]) (.file i) ∨
      (t = fs ∧ fs.node? (dir ++ [n]) = some (.file i)) := by
  unfold rename at hrename
  rw [h.second, placeAt_node hi, h.first] at hrename
  cases hn : fs.node? (dir ++ [n]) with
  | none =>
    rw [placeAt_free hn] at hrename
    cases hrename
    exact .inl rfl
  | some node =>
    rw [placeAt_node hn] at hrename
    cases node with
    | dir => exact absurd (.inl hn) h.first_ends
    | link target => exact absurd (.inr ⟨target, hn⟩) h.first_ends
    | file j =>
      have hif : (if (Node.isFile (.file i) && decide (Node.file i = .file j)) = true then .ok fs
          else .ok ((fs.erase (dir ++ [m])).insert (dir ++ [n]) (.file i)) :
            Except IoFault FileSystem) = .ok t := hrename
      split at hif
      · rename_i heq
        cases hif
        obtain rfl : i = j := by simpa [Node.isFile] using heq
        exact .inr ⟨rfl, rfl⟩
      · cases hif
        exact .inl rfl

theorem sameBut_erase (fs : FileSystem) (x : Location) : SameBut x fs (fs.erase x) := by
  refine ⟨fun l hl => ?_, rfl⟩
  rw [node?_erase, if_neg hl]
  split
  · rename_i hnil
    rw [hnil]
    rfl
  · rfl

/-- A renamed file is found under its new name. -/
theorem Beside.locate_renamed {i : Nat} (h : fs.Beside p q dir n m)
    (hi : fs.node? (dir ++ [m]) = some (.file i)) (hrename : fs.rename q p = .ok t) :
    t.locate p = .ok (dir ++ [n], .file i) ∧ t.contents = fs.contents := by
  rcases h.rename_ok hi hrename with rfl | ⟨rfl, hboth⟩
  · obtain ⟨hp, hnode⟩ := resolve_placeAt_away h.first (sameBut_erase fs (dir ++ [m]))
      (not_passable_file hi) h.locations_ne
    refine ⟨locate_of_never (resolve_put hp ?_ (sameBut_insert _ _ _) ?_), rfl⟩
    · unfold Passable
      rw [hnode]
      exact h.first_ends
    · exact node?_insert_self _ _ (by simp)
  · exact ⟨locate_placeAt h.first hboth, rfl⟩

theorem resolve_setContents {x : Location} {node : Node} {i : Nat}
    (h : fs.resolve .never p = .ok ⟨.node x node, false, false⟩) :
    (fs.setContents i data).resolve .never p = .ok ⟨.node x node, false, false⟩ := by
  have hpart : fs.PartOf (fs.setContents i data) := fun _ _ hl => hl
  have hworking : (fs.setContents i data).working = fs.working := rfl
  exact resolve_of_walks hworking h (walk_mono hpart (resolve_eq h))

/-- A file is renamed over another file or a link. -/
theorem rename_over {x y : Location} {node : Node} {i : Nat}
    (hq : fs.resolve .never q = .ok ⟨.node x (.file i), false, false⟩)
    (hp : fs.resolve .never p = .ok ⟨.node y node, false, false⟩) (hdir : node ≠ .dir)
    (hother : node ≠ .file i) : fs.rename q p = .ok ((fs.erase x).insert y (.file i)) := by
  unfold rename
  rw [hq, hp]
  cases node with
  | dir => exact absurd rfl hdir
  | link target => rfl
  | file j =>
    refine if_neg ?_
    simpa [Node.isFile] using fun he : i = j => hother (by rw [he])

/-- What was written beside a file and renamed to it is what is read. -/
theorem Beside.read_replaced (h : fs.Beside p q dir n m) (hwrite : fs.write q data = .ok t)
    (hrename : t.rename q p = .ok u) : u.read p = .ok data := by
  obtain ⟨i, hbeside, hi, hdata⟩ := h.write hwrite
  obtain ⟨hlocate, hcontents⟩ := hbeside.locate_renamed hi hrename
  have hdata' : u.contentsOf i = data := by
    unfold contentsOf
    rw [hcontents]
    exact hdata
  unfold read
  rw [hlocate]
  exact congrArg Except.ok hdata'

/-- A file that is found under one name and can be written under another, where neither is a link,
stands beside it. -/
theorem beside_of_write {dest : Path} (hn : Path.IsName n) (hm : Path.IsName m) (hne : n ≠ m)
    (hlen : m.length ≤ n.length) (hnul : (0 : UInt8) ∉ n → (0 : UInt8) ∉ m)
    (hp : fs.NoLink (Path.join dest n)) (hq : fs.NoLink (Path.join dest m)) {l : Location} {i : Nat}
    (hfound : fs.locate (Path.join dest n) = .ok (l, .file i))
    (hwrite : fs.write (Path.join dest m) data = .ok t) :
    ∃ dir, fs.Beside (Path.join dest n) (Path.join dest m) dir n m := by
  obtain ⟨s, d, hr⟩ := locate_ok hfound
  rw [hp.resolve_always] at hr
  obtain ⟨dir, hw, hother⟩ := resolve_join hn hr
  have hsecond := hother m hm hlen hnul
  refine ⟨dir, hne, hw ▸ hr, hsecond, ?_, ?_⟩
  · have hfile : fs.node? (dir ++ [n]) = some (.file i) := by
      have hplace := congrArg Walked.place hw
      dsimp only at hplace
      unfold placeAt at hplace
      split at hplace
      · rename_i hnode
        cases hplace
        exact hnode
      · cases hplace
    exact not_passable_file hfile
  · obtain ⟨place, d', hr', hdone⟩ := write_ok hwrite
    rw [hq.resolve_always, hsecond] at hr'
    rintro (hdir | ⟨target, hlink⟩)
    · rw [placeAt_node hdir] at hr'
      cases hr'
      rcases hdone with ⟨_, _, he, -⟩ | ⟨_, _, he, -⟩ <;> cases he
    · exact hq _ _ _ _ (placeAt_node hlink ▸ hsecond)

end SharedRuntime.FileSystem
