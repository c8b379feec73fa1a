import SharedRuntime.Proofs.FileSystem.Siblings

/-!
# Files that are removed from a directory

What the path of an entry leads to is a file, or a link that leads to one; either is removed under
the entry's own name (`remove_child`). No walk to a directory passes such an entry, so the path of
the directory leads where it did (`locate_erase_child`), and no path comes to lead to a file
(`isFile_of_without`). The tree `without` some names of a directory is what is left once they were
removed one after the other.
-/

set_option autoImplicit false

namespace SharedRuntime.FileSystem

variable {fs t : FileSystem} {p q : Path} {dir d x : Location} {n : Bytes} {names ns : List Bytes}
  {links : Nat} {slash : Bool} {w : Walked} {node : Node}

/-! ## The entries of a directory -/

/-- All locations are made of names that a directory may hold. -/
def Named (fs : FileSystem) : Prop := ∀ e ∈ fs.nodes, ∀ n ∈ e.1, Path.IsName n

theorem mem_nodes_of_node? {loc : Location} (hloc : loc ≠ []) (h : fs.node? loc = some node) :
    (loc, node) ∈ fs.nodes := by
  unfold node? at h
  rw [if_neg hloc] at h
  obtain ⟨before, after, hsplit, -⟩ := List.lookup_eq_some_iff.1 h
  rw [hsplit]
  simp

theorem exists_node? {loc : Location} (h : (loc, node) ∈ fs.nodes) :
    ∃ found, fs.node? loc = some found := by
  unfold node?
  split
  · exact ⟨.dir, rfl⟩
  · cases hl : fs.nodes.lookup loc with
    | some found => exact ⟨found, rfl⟩
    | none =>
      have hne := List.lookup_eq_none_iff.1 hl (loc, node) h
      simp at hne

theorem mem_children_iff : n ∈ fs.children dir ↔ ∃ node, fs.node? (dir ++ [n]) = some node := by
  unfold children
  rw [List.mem_filterMap]
  constructor
  · rintro ⟨⟨loc, node⟩, hmem, hn⟩
    dsimp only at hn
    split at hn
    · rename_i name hlast
      split at hn
      · rename_i hdrop
        cases hn
        obtain ⟨parent, rfl⟩ := List.getLast?_eq_some_iff.1 hlast
        rw [List.dropLast_concat] at hdrop
        exact exists_node? (hdrop ▸ hmem)
      · cases hn
    · cases hn
  · rintro ⟨node, h⟩
    exact ⟨_, mem_nodes_of_node? (by simp) h, by simp⟩

theorem Named.isName (h : fs.Named) (hn : n ∈ fs.children dir) : Path.IsName n := by
  obtain ⟨node, hnode⟩ := mem_children_iff.1 hn
  exact h _ (mem_nodes_of_node? (by simp) hnode) n (by simp)

theorem list_of_locate (h : fs.locate p = .ok (dir, .dir)) :
    fs.list p = .ok (fs.children dir) := by
  unfold list
  rw [h]
  rfl

theorem locate_of_list (h : fs.list p = .ok names) : ∃ dir, fs.locate p = .ok (dir, .dir) := by
  unfold list at h
  cases hl : fs.locate p with
  | error f =>
    rw [hl] at h
    cases h
  | ok found =>
    obtain ⟨loc, node⟩ := found
    rw [hl] at h
    cases node with
    | dir => exact ⟨loc, rfl⟩
    | file _ | link _ => cases h

theorem isDir_iff : fs.isDir p = true ↔ ∃ dir, fs.locate p = .ok (dir, .dir) := by
  unfold isDir
  constructor
  · intro h
    split at h
    · rename_i loc node hl
      cases node with
      | dir => exact ⟨loc, hl⟩
      | file _ | link _ => cases h
    · cases h
  · rintro ⟨dir, h⟩
    rw [h]
    rfl

theorem isFile_iff : fs.isFile p = true ↔ ∃ loc id, fs.locate p = .ok (loc, .file id) := by
  unfold isFile
  constructor
  · intro h
    split at h
    · rename_i loc node hl
      cases node with
      | file id => exact ⟨loc, id, hl⟩
      | dir | link _ => cases h
    · cases h
  · rintro ⟨loc, id, h⟩
    rw [h]
    rfl

/-! ## Walks to a directory -/

/-- A link that leads to a file leads to no directory. -/
theorem LeadsToFile.not_dir {target : Path} {loc : Location} {s e : Bool}
    (h : fs.LeadsToFile dir target) :
    ¬ Walks fs .always links (if Path.isAbsolute target then [] else dir) (Path.names target) slash
      ⟨.node loc .dir, s, e⟩ := by
  intro hdir
  obtain ⟨k, b, l, i, b', e', hfile⟩ := h
  obtain ⟨s', hdir⟩ := hdir.anySlash b
  have hfile' := ((walks_of_walk hfile).moreLinks (Nat.le_max_left k links)).walk_eq
  rw [(hdir.moreLinks (Nat.le_max_right k links)).walk_eq] at hfile'
  cases hfile'

/-- A file stands at the location, or a link that leads to one. -/
structure HoldsFile (fs : FileSystem) (x : Location) : Prop where
  not_dir : fs.node? x ≠ some .dir
  link : ∀ target, fs.node? x = some (.link target) → fs.LeadsToFile x.dropLast target

/-- A walk to a directory passes no file and no link to one. -/
theorem Walks.past (hsame : SameBut x fs t) (hx : fs.HoldsFile x)
    (h : Walks fs .always links d ns slash w) (hw : w.place = .node dir .dir) :
    Walks t .always links d ns slash w := by
  induction h with
  | nil => exact .nil
  | here _ ih => exact .here (ih hw)
  | up _ ih => exact .up (ih hw)
  | free _ _ => cases hw
  | last hm hnode hlink =>
    cases hw
    exact .last hm ((hsame.node _ fun he => hx.not_dir (he ▸ hnode)).trans hnode) hlink
  | into hm hnode hrest _ ih =>
    exact .into hm ((hsame.node _ fun he => hx.not_dir (he ▸ hnode)).trans hnode) hrest (ih hw)
  | @jump _ d m rest _ w target hm hnode hstop hwalk ih =>
    refine .jump hm ((hsame.node _ ?_).trans hnode) hstop (ih hw)
    rintro rfl
    have hfile := hx.link target hnode
    rw [List.dropLast_concat] at hfile
    by_cases hrest : rest = []
    · subst hrest
      obtain ⟨place, s, e⟩ := w
      cases hw
      rw [List.append_nil] at hwalk
      exact hfile.not_dir hwalk
    · exact hfile.stuck hrest hwalk.walk_eq

/-- A walk to a directory goes on to what it holds. -/
theorem Walks.child (h : Walks fs .always links d ns slash w) (hw : w.place = .node dir .dir)
    (hn : Sought n) (hnode : fs.node? (dir ++ [n]) = some node)
    (hlink : ∀ target, node ≠ .link target) (b : Bool) :
    Walks fs .always links d (ns ++ [n]) b ⟨.node (dir ++ [n]) node, b, false⟩ := by
  have hend : ∀ {k}, Walks fs .always k dir [n] b ⟨.node (dir ++ [n]) node, b, false⟩ :=
    .last hn hnode fun target he => absurd he (hlink target)
  induction h generalizing b with
  | nil =>
    cases hw
    exact hend
  | here _ ih => exact .here (ih hw b hend)
  | up _ ih => exact .up (ih hw b hend)
  | free _ _ => cases hw
  | last hm hdir _ =>
    cases hw
    exact .into hm hdir (List.cons_ne_nil n []) hend
  | into hm hdir _ _ ih => exact .into hm hdir (by simp) (ih hw b hend)
  | @jump _ _ _ rest _ _ _ hm hl _ _ ih =>
    have hb : ∀ c, (b || (decide (rest ++ [n] = []) && c)) = b := by simp
    rw [List.cons_append]
    refine .jump hm hl Follow.stopsAt_always ?_
    rw [hb, ← List.append_assoc]
    exact ih hw b hend

/-! ## Removing an entry -/

/-- The path of an entry leads to the directory's location of that name. -/
theorem resolve_child (hdir : fs.locate p = .ok (dir, .dir)) (hn : Path.IsName n)
    (h : fs.resolve .never (Path.join p n) = .ok w) : w = ⟨fs.placeAt dir n, false, false⟩ := by
  obtain ⟨-, hwalk⟩ := (resolve_join_iff hn).1 h
  obtain ⟨k, loc, hpath, hlast⟩ := walk_prefix (List.cons_ne_nil n []) hwalk
  obtain ⟨s, e, hr⟩ := locate_ok hdir
  obtain ⟨s', e', hloc⟩ := hpath (p.getLast? == some Path.slash)
  rw [resolve_eq hr] at hloc
  cases hloc
  rw [hlast [n] (List.cons_ne_nil n [])] at hwalk
  rw [walk_single (sought_of_walk hn hwalk)] at hwalk
  cases hwalk
  rfl

/-- An entry that leads to a file is removed, be it a link. -/
theorem remove_child (hdir : fs.locate p = .ok (dir, .dir)) (hn : Path.IsName n)
    (hfile : fs.isFile (Path.join p n) = true) :
    n ∈ fs.children dir ∧ fs.HoldsFile (dir ++ [n]) ∧
      fs.remove (Path.join p n) = .ok (fs.erase (dir ++ [n])) := by
  obtain ⟨l, i, hl⟩ := isFile_iff.1 hfile
  obtain ⟨y, node, hnever, hne, hlink⟩ := never_of_file hl
  have hplace := congrArg Walked.place (resolve_child hdir hn hnever)
  dsimp only at hplace
  cases hnode : fs.node? (dir ++ [n]) with
  | none =>
    rw [placeAt_free hnode] at hplace
    cases hplace
  | some found =>
    rw [placeAt_node hnode] at hplace
    cases hplace
    refine ⟨mem_children_iff.2 ⟨node, hnode⟩, ⟨fun he => ?_, fun target he => ?_⟩, ?_⟩
    · exact hne (Option.some.inj (hnode.symm.trans he))
    · exact hlink target (Option.some.inj (hnode.symm.trans he))
    · unfold remove
      rw [hnever]
      cases node with
      | dir => exact absurd rfl hne
      | file _ | link _ => rfl

/-- Without a file, or a link to one, the path of a directory leads to it as before. -/
theorem locate_erase_child (hdir : fs.locate p = .ok (dir, .dir)) (hx : fs.HoldsFile x) :
    (fs.erase x).locate p = .ok (dir, .dir) := by
  obtain ⟨s, e, hr⟩ := locate_ok hdir
  have hsame := sameBut_erase fs x
  have hr' : (fs.erase x).resolve .always p = .ok ⟨.node dir .dir, s, e⟩ :=
    resolve_of_walks hsame.working hr ((resolve_walks hr).past hsame hx rfl).walk_eq
  unfold locate at hdir ⊢
  rw [hr] at hdir
  rw [hr']
  exact hdir

/-- No path comes to lead to a file when something else is removed than a directory. -/
theorem isFile_of_erase (hx : fs.node? x ≠ some .dir) (h : (fs.erase x).isFile q = true) :
    fs.isFile q = true := by
  obtain ⟨loc, id, hl⟩ := isFile_iff.1 h
  rcases locate_erase hx q with he | he
  · exact isFile_iff.2 ⟨loc, id, he.symm.trans hl⟩
  · rw [he] at hl
    cases hl

/-- A file in a directory is found under its name if the operating system takes the path. -/
theorem isFile_child {id : Nat} (hdir : fs.locate p = .ok (dir, .dir)) (hn : Path.IsName n)
    (hnode : fs.node? (dir ++ [n]) = some (.file id)) (husable : Usable (Path.join p n))
    (hshort : n.length ≤ nameLimit) : fs.isFile (Path.join p n) = true := by
  obtain ⟨s, e, hr⟩ := locate_ok hdir
  have hs : Sought n := ⟨hn.ne_here, hn.ne_up, by omega⟩
  have hwalk := (resolve_walks hr).child rfl hs hnode (by simp) false
  refine isFile_iff.2 ⟨dir ++ [n], id, ?_⟩
  unfold locate
  rw [(resolve_join_iff hn).2 ⟨husable, hwalk.walk_eq⟩]
  rfl

/-! ## Removing several entries -/

/-- The tree without some names of a directory. -/
def without (fs : FileSystem) (dir : Location) : List Bytes → FileSystem
  | [] => fs
  | n :: names => without (fs.erase (dir ++ [n])) dir names

theorem node?_without (loc : Location) : (fs.without dir names).node? loc =
    if ∃ n ∈ names, loc = dir ++ [n] then none else fs.node? loc := by
  induction names generalizing fs with
  | nil => simp [without]
  | cons n names ih =>
    rw [without, ih, node?_erase]
    by_cases hloc : loc = dir ++ [n]
    · simp [hloc]
    · by_cases hnil : loc = []
      · simp [hnil, node?]
      · simp [hloc, hnil]

@[simp] theorem contents_without : (fs.without dir names).contents = fs.contents := by
  induction names generalizing fs with
  | nil => rfl
  | cons n names ih => exact ih

@[simp] theorem working_without : (fs.without dir names).working = fs.working := by
  induction names generalizing fs with
  | nil => rfl
  | cons n names ih => exact ih

theorem Named.without (h : fs.Named) : (fs.without dir names).Named := by
  induction names generalizing fs with
  | nil => exact h
  | cons n names ih => exact ih fun e he => h e (List.mem_filter.1 he).1

theorem isFile_of_without (hnames : ∀ n ∈ names, fs.node? (dir ++ [n]) ≠ some .dir)
    (h : (fs.without dir names).isFile q = true) : fs.isFile q = true := by
  induction names generalizing fs with
  | nil => exact h
  | cons n names ih =>
    refine isFile_of_erase (hnames n List.mem_cons_self) (ih (fun m hm => ?_) h)
    rw [node?_erase, if_neg (by simp)]
    split
    · simp
    · exact hnames m (List.mem_cons_of_mem n hm)

end SharedRuntime.FileSystem
