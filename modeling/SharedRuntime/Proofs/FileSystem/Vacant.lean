import SharedRuntime.Proofs.FileSystem.Effects
import SharedRuntime.Proofs.FileSystem.Links

/-!
# A file that comes and goes

A path is vacant if nothing is there, not even a link, and stays so in a tree with less
(`Vacant.of_partOf`). What a write puts at a vacant path can be written again, removed or renamed
(`FreeAt.write_again`, `FreeAt.remove_written`, `FreeAt.rename_written`), and what comes to one
location changes nothing for paths that lead elsewhere. Two names in one directory are found
alike (`resolve_join`).
-/

set_option autoImplicit false

namespace SharedRuntime.FileSystem

variable {fs t : FileSystem} {p q : Path} {x y : Location} {data : Bytes}

/-! ## New directories -/

/-- The tree afterwards has directories where nothing was, and is otherwise the same. -/
structure MoreDirs (fs fs' : FileSystem) : Prop where
  node : ∀ l, fs'.node? l = fs.node? l ∨ (fs.node? l = none ∧ fs'.node? l = some .dir)
  contents : fs'.contents = fs.contents
  fresh : fs'.fresh = fs.fresh
  working : fs'.working = fs.working

theorem MoreDirs.partOf (h : MoreDirs fs t) : fs.PartOf t := by
  intro l node hl
  rcases h.node l with hsame | ⟨hnone, -⟩
  · exact hsame.trans hl
  · rw [hnone] at hl
    cases hl

theorem MoreDirs.refl (fs : FileSystem) : MoreDirs fs fs := ⟨fun _ => .inl rfl, rfl, rfl, rfl⟩

theorem MoreDirs.contentsOf (h : MoreDirs fs t) (id : Nat) :
    t.contentsOf id = fs.contentsOf id := by
  unfold FileSystem.contentsOf
  rw [h.contents]

instance : Script.Frame MoreDirs := by
  refine ⟨.refl, fun h k => ⟨fun l => ?_, k.contents.trans h.contents, k.fresh.trans h.fresh,
    k.working.trans h.working⟩⟩
  rcases h.node l with hsame | ⟨hnone, hdir⟩
  · rw [← hsame]
    exact k.node l
  · exact .inr ⟨hnone, k.partOf l .dir hdir⟩

theorem moreDirs_makeDir (h : fs.makeDir p = .ok t) : MoreDirs fs t := by
  obtain ⟨dir, name, s, d, hr, rfl⟩ := makeDir_ok h
  refine ⟨fun l => ?_, rfl, rfl, rfl⟩
  by_cases hl : l = dir ++ [name]
  · subst hl
    exact .inr ⟨resolve_holds hr, node?_insert_self fs .dir (by simp)⟩
  · exact .inl (node?_insert_ne fs .dir hl)

theorem moreDirs_makeDirAll (fs : FileSystem) (p : Path) : MoreDirs fs (fs.makeDirAll p).2 :=
  makeDirs_keeps moreDirs_makeDir p.ancestors

/-! ## Vacant paths -/

/-- Nothing is at the path. -/
def Vacant (fs : FileSystem) (p : Path) : Prop :=
  ∀ loc node s d, fs.resolve .never p ≠ .ok ⟨.node loc node, s, d⟩

theorem Vacant.of_partOf {whole : FileSystem} (h : whole.Vacant p) (hpart : fs.PartOf whole)
    (hw : whole.working = fs.working) : fs.Vacant p := by
  intro loc node s d hr
  exact h loc node s d (resolve_of_walks hw hr (walk_mono hpart (resolve_eq hr)))

theorem Vacant.remove (h : fs.Vacant p) : (fs.remove p).toOption = none := by
  cases hr : fs.remove p with
  | error f => rfl
  | ok t =>
    obtain ⟨loc, node, s, hnode, -, -⟩ := remove_ok hr
    exact absurd hnode (h loc node s false)

theorem Vacant.resolve_always (h : fs.Vacant p) : fs.resolve .always p = fs.resolve .never p :=
  FileSystem.resolve_always rfl fun loc target s d => h loc (.link target) s d

/-- What is written to a vacant path is a new file. -/
theorem Vacant.write_ok (h : fs.Vacant p) (hwrite : fs.write p data = .ok t) : ∃ dir name d,
    fs.resolve .never p = .ok ⟨.free dir name, false, d⟩ ∧
      t = fs.insertFile (dir ++ [name]) data := by
  obtain ⟨place, d, hr, ⟨loc, id, rfl, -⟩ | ⟨dir, name, rfl, rfl⟩⟩ := FileSystem.write_ok hwrite
  · rw [h.resolve_always] at hr
    exact absurd hr (h loc _ false d)
  · rw [h.resolve_always] at hr
    exact ⟨dir, name, d, hr, rfl⟩

/-! ## Names of one directory -/

theorem Usable.congr_append {pre n m : Path} (h : Usable (pre ++ n)) (hm : m ≠ [])
    (hnul : (0 : UInt8) ∉ n → (0 : UInt8) ∉ m) (hlen : m.length ≤ n.length) :
    Usable (pre ++ m) := by
  have hshort := h.short
  rw [List.length_append] at hshort
  refine ⟨fun hz => ?_, by simp [hm], by rw [List.length_append]; omega⟩
  rcases List.mem_append.1 hz with hz | hz
  · exact h.noNul (List.mem_append_left n hz)
  · exact hnul (fun hn => h.noNul (List.mem_append_right pre hn)) hz

theorem endsWithSlash_append_name (pre : Path) {n : Bytes} (hn : Path.IsName n) :
    ((pre ++ n).getLast? == some Path.slash) = false := by
  have hlast : (pre ++ n).getLast? = n.getLast? := by
    rw [List.getLast?_append]
    cases hl : n.getLast? with
    | none => exact absurd (List.getLast?_eq_none_iff.1 hl) hn.ne_nil
    | some b => rfl
  rw [hlast, beq_eq_false_iff_ne]
  exact fun hl => hn.noSlash (List.mem_of_getLast? hl)

theorem resolve_join_iff {follow : Follow} {dir : Path} {n : Bytes} {w : Walked}
    (hn : Path.IsName n) : fs.resolve follow (Path.join dir n) = .ok w ↔
      Usable (Path.join dir n) ∧
        walk fs follow linkLimit (fs.start dir) (Path.names dir ++ [n]) false = .ok w := by
  have hrel := Path.isAbsolute_of_noSlash hn.noSlash
  obtain ⟨pre, -, -, -, hjoin⟩ := Path.join_open dir
  have hslash : ((Path.join dir n).getLast? == some Path.slash) = false := by
    rw [hjoin n hrel]
    exact endsWithSlash_append_name pre hn
  rw [resolve_ok_iff, Path.names_join hrel, hn.names_eq, hslash,
    start_congr fs (Path.isAbsolute_join hrel)]

/-- A name in a directory leads to what is there, and then so does every other name that is no
longer. -/
theorem resolve_join {dir : Path} {n : Bytes} {w : Walked} (hn : Path.IsName n)
    (h : fs.resolve .never (Path.join dir n) = .ok w) : ∃ loc,
      w = ⟨fs.placeAt loc n, false, false⟩ ∧
        ∀ m, Path.IsName m → m.length ≤ n.length → ((0 : UInt8) ∉ n → (0 : UInt8) ∉ m) →
          fs.resolve .never (Path.join dir m) = .ok ⟨fs.placeAt loc m, false, false⟩ := by
  obtain ⟨husable, hwalk⟩ := (resolve_join_iff hn).1 h
  obtain ⟨k, loc, -, hafter⟩ := walk_prefix (List.cons_ne_nil n []) hwalk
  rw [hafter [n] (List.cons_ne_nil n [])] at hwalk
  have hs := sought_of_walk hn hwalk
  rw [walk_single hs] at hwalk
  cases hwalk
  refine ⟨loc, rfl, fun m hm hlen hnul => (resolve_join_iff hm).2 ⟨?_, ?_⟩⟩
  · obtain ⟨pre, -, -, -, hjoin⟩ := Path.join_open dir
    rw [hjoin n (Path.isAbsolute_of_noSlash hn.noSlash)] at husable
    rw [hjoin m (Path.isAbsolute_of_noSlash hm.noSlash)]
    exact husable.congr_append hm.ne_nil hnul hlen
  · rw [hafter [m] (List.cons_ne_nil m [])]
    have hshort := hs.short
    exact walk_single ⟨hm.ne_here, hm.ne_up, by omega⟩ k

/-! ## Where nothing is yet -/

/-- The path leads to a location where nothing is. -/
def FreeAt (fs : FileSystem) (p : Path) (x : Location) : Prop :=
  ∃ dir name, fs.resolve .never p = .ok ⟨.free dir name, false, false⟩ ∧ x = dir ++ [name]

theorem FreeAt.none (h : fs.FreeAt p x) : fs.node? x = none := by
  obtain ⟨dir, name, hr, rfl⟩ := h
  exact resolve_holds hr

theorem FreeAt.ne_nil (h : fs.FreeAt p x) : x ≠ [] := by
  obtain ⟨dir, name, -, rfl⟩ := h
  simp

theorem FreeAt.vacant (h : fs.FreeAt p x) : fs.Vacant p := by
  obtain ⟨dir, name, hr, -⟩ := h
  intro loc node s d hnode
  rw [hr] at hnode
  cases hnode

/-- The path leads to what comes to its location. -/
theorem FreeAt.filled {full : FileSystem} {node : Node} (h : fs.FreeAt p x)
    (hsame : SameBut x fs full) (hn : full.node? x = some node) :
    full.resolve .never p = .ok ⟨.node x node, false, false⟩ := by
  obtain ⟨dir, name, hr, rfl⟩ := h
  exact resolve_filled hr hsame hn (.inl rfl)

theorem FreeAt.filled_file {full : FileSystem} {id : Nat} (h : fs.FreeAt p x)
    (hsame : SameBut x fs full) (hn : full.node? x = some (.file id)) :
    full.resolve .always p = .ok ⟨.node x (.file id), false, false⟩ :=
  FileSystem.resolve_always (h.filled hsame hn) fun _ _ _ _ he => by cases he

/-- What comes to another location does not matter. -/
theorem FreeAt.away {other : FileSystem} (h : fs.FreeAt p x) (hsame : SameBut y fs other)
    (hy : fs.node? y = .none) (hne : x ≠ y) : other.FreeAt p x := by
  obtain ⟨dir, name, hr, rfl⟩ := h
  have himpassable : ¬ fs.Passable y := by
    rintro (hdir | ⟨target, hlink⟩)
    · rw [hy] at hdir
      cases hdir
    · rw [hy] at hlink
      cases hlink
  exact ⟨dir, name, resolve_away hsame himpassable hr hne, rfl⟩

/-! ## A file that was just written -/

theorem sameBut_insertFile (fs : FileSystem) (x : Location) (data : Bytes) :
    SameBut x fs (fs.insertFile x data) :=
  ⟨fun _ h => node?_insert_ne fs _ h, rfl⟩

theorem node?_insertFile_self (fs : FileSystem) (data : Bytes) (hx : x ≠ []) :
    (fs.insertFile x data).node? x = some (.file fs.fresh) :=
  node?_insert_self fs _ hx

/-- A path that was written to leads to a file with what was written. -/
theorem resolve_written {data : Bytes} (h : fs.write p data = .ok t) : ∃ l id d,
    t.resolve .always p = .ok ⟨.node l (.file id), false, d⟩ ∧ t.contentsOf id = data := by
  obtain ⟨place, d, hr, ⟨l, id, rfl, rfl⟩ | ⟨dir, name, rfl, rfl⟩⟩ := write_ok h
  · have hsame : fs.PartOf (fs.setContents id data) := fun _ _ hl => hl
    have hworking : (fs.setContents id data).working = fs.working := rfl
    exact ⟨l, id, d, resolve_of_walks hworking hr (walk_mono hsame (resolve_eq hr)),
      contentsOf_setContents_self fs id data⟩
  · have hne : dir ++ [name] ≠ [] := by simp
    exact ⟨dir ++ [name], fs.fresh, d, resolve_filled hr (sameBut_insertFile fs _ data)
      (node?_insertFile_self fs data hne) (.inr fun _ hlink => by cases hlink),
      contentsOf_insertFile_self fs _ data⟩

theorem locate_written {data : Bytes} (h : fs.write p data = .ok t) :
    ∃ l id, t.locate p = .ok (l, .file id) ∧ t.contentsOf id = data := by
  obtain ⟨l, id, d, hr, hdata⟩ := resolve_written h
  refine ⟨l, id, ?_, hdata⟩
  unfold locate
  rw [hr]
  rfl

/-- What was written once can be written again. -/
theorem write_written {data : Bytes} (h : fs.write p data = .ok t) (data' : Bytes) :
    ∃ u, t.write p data' = .ok u := by
  obtain ⟨l, id, d, hr, -⟩ := resolve_written h
  unfold write
  rw [hr]
  exact ⟨_, rfl⟩

theorem setContents_insertFile (fs : FileSystem) (x : Location) (data data' : Bytes) :
    (fs.insertFile x data).setContents fs.fresh data' = fs.insertFile x data' := by
  simp [insertFile, setContents, insert]

theorem FreeAt.write_again (h : fs.FreeAt p x) (data data' : Bytes) :
    (fs.insertFile x data).write p data' = .ok (fs.insertFile x data') := by
  unfold write
  rw [h.filled_file (sameBut_insertFile fs x data) (node?_insertFile_self fs data h.ne_nil)]
  exact congrArg Except.ok (setContents_insertFile fs x data data')

theorem FreeAt.remove_written (h : fs.FreeAt p x) (data : Bytes) :
    (fs.insertFile x data).remove p = .ok ((fs.insertFile x data).erase x) := by
  unfold remove
  rw [h.filled (sameBut_insertFile fs x data) (node?_insertFile_self fs data h.ne_nil)]
  rfl

/-- The tree after a file came to one location and was moved to another. -/
def moved (fs : FileSystem) (x y : Location) (data : Bytes) : FileSystem :=
  ((fs.insertFile x data).erase x).insert y (.file fs.fresh)

theorem FreeAt.rename_written (h : fs.FreeAt p x) (k : fs.FreeAt q y) (hne : x ≠ y)
    (data : Bytes) : (fs.insertFile x data).rename p q = .ok (fs.moved x y data) := by
  have hsource := h.filled (sameBut_insertFile fs x data) (node?_insertFile_self fs data h.ne_nil)
  obtain ⟨dir, name, hfree, rfl⟩ := k.away (sameBut_insertFile fs x data) h.none hne.symm
  unfold rename
  rw [hsource, hfree]
  rfl

theorem node?_erase_written (h : fs.node? x = none) (data : Bytes) (l : Location) :
    ((fs.insertFile x data).erase x).node? l = fs.node? l := by
  rw [node?_erase]
  split
  · rename_i hl
    rw [hl, node?, if_pos rfl]
  · split
    · rename_i hl
      rw [hl, h]
    · rename_i hl
      exact node?_insert_ne fs _ hl

theorem sameBut_moved (h : fs.node? x = none) (y : Location) (data : Bytes) :
    SameBut y fs (fs.moved x y data) :=
  ⟨fun l hl => (node?_insert_ne _ _ hl).trans (node?_erase_written h data l), rfl⟩

theorem node?_moved_self (fs : FileSystem) (x : Location) (data : Bytes) (hy : y ≠ []) :
    (fs.moved x y data).node? y = some (.file fs.fresh) :=
  node?_insert_self _ _ hy

theorem FreeAt.locate_moved (k : fs.FreeAt q y) (h : fs.node? x = .none) (data : Bytes) :
    (fs.moved x y data).locate q = .ok (y, .file fs.fresh) := by
  unfold locate
  rw [k.filled_file (sameBut_moved h y data) (node?_moved_self fs x data k.ne_nil)]
  rfl

theorem FreeAt.read_moved (k : fs.FreeAt q y) (h : fs.node? x = .none) (data : Bytes) :
    (fs.moved x y data).read q = .ok data := by
  unfold read
  rw [k.locate_moved h data]
  exact congrArg Except.ok (contentsOf_insertFile_self fs x data)

/-- A file that is written where it and its sibling are vacant leaves the sibling's place free. -/
theorem Vacant.write_beside {dir : Path} {n m : Bytes} (hn : Path.IsName n) (hm : Path.IsName m)
    (hne : n ≠ m) (hlen : m.length ≤ n.length) (hnul : (0 : UInt8) ∉ n → (0 : UInt8) ∉ m)
    (hp : fs.Vacant (Path.join dir n)) (hq : fs.Vacant (Path.join dir m))
    (hwrite : fs.write (Path.join dir n) data = .ok t) : ∃ x y, fs.FreeAt (Path.join dir n) x ∧
      fs.FreeAt (Path.join dir m) y ∧ x ≠ y ∧ t = fs.insertFile x data := by
  obtain ⟨d, name, b, hr, rfl⟩ := hp.write_ok hwrite
  obtain ⟨loc, hw, hother⟩ := resolve_join hn hr
  have hbeside := hother m hm hlen hnul
  have hplace : ∀ k, (∀ node, fs.placeAt loc k ≠ .node (loc ++ [k]) node) →
      fs.placeAt loc k = .free loc k := by
    intro k hk
    unfold placeAt at hk ⊢
    split
    · rename_i node hnode
      rw [hnode] at hk
      exact absurd rfl (hk node)
    · rfl
  rw [hplace m fun node hnode => hq (loc ++ [m]) node false false (hnode ▸ hbeside)] at hbeside
  rw [hplace n fun node hnode => by rw [hnode] at hw; cases hw] at hw
  cases hw
  refine ⟨d ++ [n], d ++ [m], ⟨d, n, hr, rfl⟩, ⟨d, m, hbeside, rfl⟩, ?_, rfl⟩
  intro he
  exact hne (List.cons.inj (List.append_cancel_left he)).1

end SharedRuntime.FileSystem
