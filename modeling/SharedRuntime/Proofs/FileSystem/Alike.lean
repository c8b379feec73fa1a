import SharedRuntime.Proofs.FileSystem.Confined

/-!
# Trees that look the same

The identities of files are no part of what a tree looks like. Two trees are alike if they have the
same directories and links, and files at the same locations which have the same other names
(`Alike`). Every path leads to the same place in both (`resolve_same`), so operations do the same
to both (`Alike.write`, `Written.rename`).
-/

set_option autoImplicit false

namespace SharedRuntime

/-- A node without the identity of its file. -/
def Node.shape : Node → Node
  | .file _ => .file 0
  | n => n

namespace FileSystem

variable {s t : FileSystem}

/-- Both trees have the same directories and links, and files at the same locations. -/
structure SameShape (s t : FileSystem) : Prop where
  working : s.working = t.working
  node : ∀ l, (s.node? l).map Node.shape = (t.node? l).map Node.shape

theorem SameShape.refl (s : FileSystem) : SameShape s s := ⟨rfl, fun _ => rfl⟩

section
variable (h : SameShape s t) {l : Location}
include h

theorem SameShape.free (hs : s.node? l = none) : t.node? l = none := by
  have hl := h.node l
  rw [hs] at hl
  exact Option.map_eq_none_iff.1 hl.symm

theorem SameShape.found {n : Node} (hs : s.node? l = some n) :
    ∃ m, t.node? l = some m ∧ m.shape = n.shape := by
  have hl := h.node l
  rw [hs] at hl
  exact Option.map_eq_some_iff.1 hl.symm

theorem SameShape.dir (hs : s.node? l = some .dir) : t.node? l = some .dir := by
  obtain ⟨m, ht, hshape⟩ := h.found hs
  cases m <;> cases hshape
  exact ht

theorem SameShape.file {i : Nat} (hs : s.node? l = some (.file i)) :
    ∃ j, t.node? l = some (.file j) := by
  obtain ⟨m, ht, hshape⟩ := h.found hs
  cases m <;> cases hshape
  exact ⟨_, ht⟩

theorem SameShape.link {target : Path} (hs : s.node? l = some (.link target)) :
    t.node? l = some (.link target) := by
  obtain ⟨m, ht, hshape⟩ := h.found hs
  cases m <;> cases hshape
  exact ht

end

/-! ## Walks -/

/-- Two walks end with one fault, or at one location with what each tree has there. -/
inductive SameWalk (s t : FileSystem) : Except IoFault Walked → Except IoFault Walked → Prop
  | fault {f : IoFault} : SameWalk s t (.error f) (.error f)
  | free {dir : Location} {name : Bytes} {b d : Bool} :
      SameWalk s t (.ok ⟨.free dir name, b, d⟩) (.ok ⟨.free dir name, b, d⟩)
  | dir {loc : Location} {b d : Bool} :
      SameWalk s t (.ok ⟨.node loc .dir, b, d⟩) (.ok ⟨.node loc .dir, b, d⟩)
  | file {loc : Location} {i j : Nat} {b d : Bool} : s.node? loc = some (.file i) →
      t.node? loc = some (.file j) →
      SameWalk s t (.ok ⟨.node loc (.file i), b, d⟩) (.ok ⟨.node loc (.file j), b, d⟩)
  | link {loc : Location} {target : Path} {b d : Bool} : s.node? loc = some (.link target) →
      t.node? loc = some (.link target) →
      SameWalk s t (.ok ⟨.node loc (.link target), b, d⟩) (.ok ⟨.node loc (.link target), b, d⟩)

variable {follow : Follow} {dir : Location} {ns : List Bytes} {slash : Bool}

theorem walk_same (h : SameShape s t) (links : Nat) :
    SameWalk s t (walk s follow links dir ns slash) (walk t follow links dir ns slash) := by
  -- Of a file the walks see only that it is one, and all other nodes are the same in both trees.
  induction links, dir, ns using walk_induct s generalizing slash with
  | nil links dir =>
    rw [walk_nil, walk_nil]
    exact .dir
  | here links dir rest ih =>
    rw [walk_here, walk_here]
    exact ih
  | up links dir rest ih =>
    rw [walk_up, walk_up]
    exact ih
  | long links dir n rest hh hu hl =>
    rw [walk_long _ _ _ _ _ _ hh hu hl, walk_long _ _ _ _ _ _ hh hu hl]
    exact .fault
  | free links dir n rest hn hs =>
    rw [walk_free _ _ _ _ _ _ hn hs, walk_free _ _ _ _ _ _ hn (h.free hs)]
    split
    · exact .free
    · exact .fault
  | dir links dir n rest hn hs ih =>
    rw [walk_dir _ _ _ _ _ _ hn hs, walk_dir _ _ _ _ _ _ hn (h.dir hs)]
    split
    · exact .dir
    · exact ih
  | file links dir n rest id hn hs =>
    obtain ⟨j, ht⟩ := h.file hs
    rw [walk_file _ _ _ _ _ _ hn hs, walk_file _ _ _ _ _ _ hn ht]
    split
    · exact .file hs ht
    · exact .fault
  | link links dir n rest target hn hs ih =>
    rw [walk_link _ _ _ _ _ _ hn hs, walk_link _ _ _ _ _ _ hn (h.link hs)]
    split
    · exact .link hs (h.link hs)
    · cases links with
      | zero => exact .fault
      | succ links => exact ih links rfl

/-- A path leads to the same place in both trees. -/
theorem resolve_same (h : SameShape s t) (follow : Follow) (p : Path) :
    SameWalk s t (s.resolve follow p) (t.resolve follow p) := by
  unfold resolve
  split
  · exact .fault
  split
  · exact .fault
  split
  · exact .fault
  rw [h.working]
  exact walk_same h linkLimit

/-! ## Files -/

/-- Trees of one shape whose files have the same other names. -/
structure SameTree (s t : FileSystem) : Prop extends SameShape s t where
  shared : ∀ {l l' i i' j j'}, s.node? l = some (.file i) → t.node? l = some (.file j) →
    s.node? l' = some (.file i') → t.node? l' = some (.file j') → (i = i' ↔ j = j')

/-- Trees that cannot be told apart by looking at them. -/
structure Alike (s t : FileSystem) : Prop extends SameTree s t where
  contents : ∀ {l i j}, s.node? l = some (.file i) → t.node? l = some (.file j) →
    s.contentsOf i = t.contentsOf j

/-- Trees that differ in the contents of one file at most. -/
structure AlikeBut (i j : Nat) (s t : FileSystem) : Prop extends SameTree s t where
  contents : ∀ {l i' j'}, s.node? l = some (.file i') → t.node? l = some (.file j') →
    (i' = i ∧ j' = j) ∨ s.contentsOf i' = t.contentsOf j'

/-- A file has the identity that is next in one of the trees only if it has it in both. -/
def SameUnused (s t : FileSystem) : Prop :=
  ∀ {l i j}, s.node? l = some (.file i) → t.node? l = some (.file j) →
    (i = s.fresh ↔ j = t.fresh)

theorem file_inj {l : Location} {i j : Nat} (hi : s.node? l = some (.file i))
    (hj : s.node? l = some (.file j)) : i = j := by
  rw [hi] at hj
  cases hj
  rfl

theorem Alike.refl (s : FileSystem) : Alike s s :=
  ⟨⟨.refl s, fun hi hj hi' hj' => by rw [file_inj hi hj, file_inj hi' hj']⟩,
    fun hi hj => by rw [file_inj hi hj]⟩

/-- Two ways to look for a file find the same. -/
inductive SameFound (s t : FileSystem) :
    Except IoFault (Location × Node) → Except IoFault (Location × Node) → Prop
  | same {r : Except IoFault (Location × Node)} : (∀ loc i, r ≠ .ok (loc, .file i)) →
      SameFound s t r r
  | file {loc : Location} {i j : Nat} : s.contentsOf i = t.contentsOf j →
      SameFound s t (.ok (loc, .file i)) (.ok (loc, .file j))

theorem Alike.locate (h : Alike s t) (p : Path) : SameFound s t (s.locate p) (t.locate p) := by
  unfold FileSystem.locate
  have hwalk := resolve_same h.toSameShape .always p
  generalize s.resolve .always p = ws at hwalk ⊢
  generalize t.resolve .always p = wt at hwalk ⊢
  cases hwalk with
  | fault => exact .same fun _ _ => by simp [bind, Except.bind]
  | free => exact .same fun _ _ => by simp [bind, Except.bind]
  | dir => exact .same fun _ _ => by simp [bind, Except.bind, Node.isDir]
  | @link _ _ b =>
    cases b <;> exact .same fun _ _ => by simp [bind, Except.bind, Node.isDir]
  | @file loc i j b d hi hj =>
    cases b with
    | true => exact .same fun _ _ => by simp [bind, Except.bind, Node.isDir]
    | false => exact .file (h.contents hi hj)

theorem Alike.exists? (h : Alike s t) (p : Path) : s.exists? p = t.exists? p := by
  unfold FileSystem.exists?
  have hfound := h.locate p
  generalize s.locate p = rs at hfound ⊢
  generalize t.locate p = rt at hfound ⊢
  cases hfound <;> rfl

theorem Alike.readText (h : Alike s t) (p : Path) : s.readText p = t.readText p := by
  unfold FileSystem.readText FileSystem.read
  have hfound := h.locate p
  generalize s.locate p = rs at hfound ⊢
  generalize t.locate p = rt at hfound ⊢
  cases hfound with
  | file hc => simp [bind, Except.bind, hc]
  | same hr =>
    match rs with
    | .error f => rfl
    | .ok (loc, .file i) => exact absurd rfl (hr loc i)
    | .ok (loc, .dir) => rfl
    | .ok (loc, .link target) => rfl

/-! ## Operations -/

theorem contentsOf_setContents_self (fs : FileSystem) (id : Nat) (data : Bytes) :
    (fs.setContents id data).contentsOf id = data := by
  simp [FileSystem.contentsOf, FileSystem.setContents]

theorem contentsOf_insertFile (fs : FileSystem) (l : Location) (data : Bytes) {id : Nat}
    (h : id ≠ fs.fresh) : (fs.insertFile l data).contentsOf id = fs.contentsOf id :=
  contentsOf_setContents fs data h

theorem contentsOf_insertFile_self (fs : FileSystem) (l : Location) (data : Bytes) :
    (fs.insertFile l data).contentsOf fs.fresh = data :=
  contentsOf_setContents_self _ _ _

/-- What is a file in both trees after one was put there is that one, or was a file before. -/
theorem insertFile_both {x l : Location} (hx : x ≠ []) {cs ct : Bytes} {i j : Nat}
    (hi : (s.insertFile x cs).node? l = some (.file i))
    (hj : (t.insertFile x ct).node? l = some (.file j)) :
    (l = x ∧ i = s.fresh ∧ j = t.fresh) ∨
      (s.node? l = some (.file i) ∧ t.node? l = some (.file j)) := by
  rw [node?_insertFile] at hi hj
  by_cases hl : l = x
  · subst hl
    rw [if_neg hx, if_pos rfl] at hi hj
    cases hi
    cases hj
    exact .inl ⟨rfl, rfl, rfl⟩
  · rw [if_neg hl] at hi hj
    split at hi
    · cases hi
    · rename_i hnil
      rw [if_neg hnil] at hj
      exact .inr ⟨hi, hj⟩

/-- A new file is put at one location of two trees. -/
theorem SameTree.insertFile (h : SameTree s t) (hu : SameUnused s t) {x : Location} (hx : x ≠ [])
    (cs ct : Bytes) : SameTree (s.insertFile x cs) (t.insertFile x ct) := by
  refine ⟨⟨h.working, fun l => ?_⟩, fun {l l' i i' j j'} hi hj hi' hj' => ?_⟩
  · rw [node?_insertFile, node?_insertFile]
    split
    · rfl
    split
    · rfl
    · exact h.node l
  · rcases insertFile_both hx hi hj with ⟨-, rfl, rfl⟩ | ⟨hi, hj⟩ <;>
      rcases insertFile_both hx hi' hj' with ⟨-, rfl, rfl⟩ | ⟨hi', hj'⟩
    · simp
    · exact eq_comm.trans ((hu hi' hj').trans eq_comm)
    · exact hu hi hj
    · exact h.shared hi hj hi' hj'

/-- Both operations fail with one fault, or both succeed and leave trees that are related. -/
inductive Both (R : FileSystem → FileSystem → Prop) :
    Except IoFault FileSystem → Except IoFault FileSystem → Prop
  | fault {f : IoFault} : Both R (.error f) (.error f)
  | done {s' t' : FileSystem} : R s' t' → Both R (.ok s') (.ok t')

/-- Trees that are alike but for one file, which holds `cs` in one of them and `ct` in the other. -/
def Written (cs ct : Bytes) (s t : FileSystem) : Prop :=
  ∃ i j, AlikeBut i j s t ∧ s.contentsOf i = cs ∧ t.contentsOf j = ct

/-- Something written to a path of two trees goes to one file, whatever is written. -/
theorem Alike.write (h : Alike s t) (hu : SameUnused s t) (p : Path) (cs ct : Bytes) :
    Both (Written cs ct) (s.write p cs) (t.write p ct) := by
  unfold FileSystem.write
  have hwalk := resolve_same h.toSameShape .always p
  generalize s.resolve .always p = ws at hwalk ⊢
  generalize t.resolve .always p = wt at hwalk ⊢
  cases hwalk with
  | fault => exact .fault
  | @dir _ b => cases b <;> exact .fault
  | @link _ _ b => cases b <;> exact .fault
  | @file loc i j b d hi hj =>
    cases b with
    | true => exact .fault
    | false =>
      refine .done ⟨i, j, ⟨⟨⟨h.working, h.node⟩, h.shared⟩, fun {l i' j'} hi' hj' => ?_⟩,
        contentsOf_setContents_self _ _ _, contentsOf_setContents_self _ _ _⟩
      have hsame := h.shared hi hj hi' hj'
      by_cases hii : i' = i
      · exact .inl ⟨hii, (hsame.1 hii.symm).symm⟩
      · rw [contentsOf_setContents s cs hii,
          contentsOf_setContents t ct fun hjj => hii (hsame.2 hjj.symm).symm]
        exact .inr (h.contents hi' hj')
  | @free dir name b d =>
    cases b with
    | true => exact .fault
    | false =>
      have hx : dir ++ [name] ≠ [] := by simp
      refine .done ⟨s.fresh, t.fresh, ⟨h.toSameTree.insertFile hu hx cs ct,
        fun {l i' j'} hi' hj' => ?_⟩, contentsOf_insertFile_self _ _ _,
        contentsOf_insertFile_self _ _ _⟩
      rcases insertFile_both hx hi' hj' with ⟨-, hi, hj⟩ | ⟨hi', hj'⟩
      · exact .inl ⟨hi, hj⟩
      have hsame := hu hi' hj'
      by_cases hii : i' = s.fresh
      · exact .inl ⟨hii, hsame.1 hii⟩
      · rw [contentsOf_insertFile s _ cs hii,
          contentsOf_insertFile t _ ct fun hjj => hii (hsame.2 hjj)]
        exact .inr (h.contents hi' hj')

/-- A node is moved from one location to another in both trees. -/
theorem Written.move {cs ct : Bytes} (h : Written cs ct s t) {x y : Location} {n m : Node}
    (hy : y ≠ []) (hn : s.node? x = some n) (hm : t.node? x = some m) :
    Written cs ct ((s.erase x).insert y n) ((t.erase x).insert y m) := by
  have hback : ∀ l, (((s.erase x).insert y n).node? l = none ∧
      ((t.erase x).insert y m).node? l = none) ∨ ∃ l₀,
        ((s.erase x).insert y n).node? l = s.node? l₀ ∧
          ((t.erase x).insert y m).node? l = t.node? l₀ := by
    intro l
    rw [node?_insert, node?_insert, node?_erase, node?_erase]
    by_cases hnil : l = []
    · exact .inr ⟨[], by simp [hnil, node?], by simp [hnil, node?]⟩
    by_cases hl : l = y
    · exact .inr ⟨x, by simp [hl, hy, hn], by simp [hl, hy, hm]⟩
    by_cases hlx : l = x
    · left
      subst hlx
      simp [hnil, hl]
    · exact .inr ⟨l, by simp [hnil, hl, hlx], by simp [hnil, hl, hlx]⟩
  have hfile : ∀ {l i' j'}, ((s.erase x).insert y n).node? l = some (.file i') →
      ((t.erase x).insert y m).node? l = some (.file j') →
      ∃ l₀, s.node? l₀ = some (.file i') ∧ t.node? l₀ = some (.file j') := by
    intro l i' j' hi hj
    rcases hback l with ⟨hs, -⟩ | ⟨l₀, hs, ht⟩
    · rw [hs] at hi
      cases hi
    · exact ⟨l₀, hs ▸ hi, ht ▸ hj⟩
  obtain ⟨i, j, h, hi, hj⟩ := h
  refine ⟨i, j, ⟨⟨⟨h.working, fun l => ?_⟩, fun hi hj hi' hj' => ?_⟩, fun hi hj => ?_⟩, hi, hj⟩
  · rcases hback l with ⟨hs, ht⟩ | ⟨l₀, hs, ht⟩
    · rw [hs, ht]
    · rw [hs, ht]
      exact h.node l₀
  · obtain ⟨l, hi, hj⟩ := hfile hi hj
    obtain ⟨l', hi', hj'⟩ := hfile hi' hj'
    exact h.shared hi hj hi' hj'
  · obtain ⟨l, hi, hj⟩ := hfile hi hj
    exact h.contents hi hj

/-- What is not a directory is not the root. -/
theorem ne_nil_of_node {l : Location} {n : Node} (h : s.node? l = some n) (hn : n ≠ .dir) :
    l ≠ [] := by
  rintro rfl
  exact hn (Option.some.inj (h.symm.trans (by simp [node?])))

/-- A path is renamed in both trees, or in neither. -/
theorem Written.rename {cs ct : Bytes} (h : Written cs ct s t) (p q : Path) :
    Both (Written cs ct) (s.rename p q) (t.rename p q) := by
  have ⟨_, _, halike, _, _⟩ := h
  unfold FileSystem.rename
  have hwalk := resolve_same halike.toSameShape .never p
  generalize s.resolve .never p = ws at hwalk ⊢
  generalize t.resolve .never p = wt at hwalk ⊢
  have hwalk' := resolve_same halike.toSameShape .never q
  generalize s.resolve .never q = vs at hwalk' ⊢
  generalize t.resolve .never q = vt at hwalk' ⊢
  have hmove : ∀ {x y : Location} {n m : Node}, y ≠ [] → s.node? x = some n →
      t.node? x = some m → Both (Written cs ct) (.ok ((s.erase x).insert y n))
        (.ok ((t.erase x).insert y m)) :=
    fun hy hn hm => .done (h.move hy hn hm)
  -- The walks of both trees end alike, so every check of `rename` goes the same way in both.
  cases hwalk with
  | fault => exact .fault
  | free | dir =>
    cases hwalk' with
    | fault => exact .fault
    | free | dir | file | link =>
      simp only [bind, Except.bind]
      split <;> exact .fault
  | file hi hj =>
    cases hwalk' with
    | fault => exact .fault
    | dir =>
      simp only [bind, Except.bind]
      split
      · exact .fault
      split <;> exact .fault
    | free =>
      simp only [bind, Except.bind]
      split
      · exact .fault
      split
      · exact .fault
      · exact hmove (by simp) hi hj
    | link hi' hj' =>
      simp only [bind, Except.bind, reduceCtorEq, decide_false, Bool.and_false]
      split
      · exact .fault
      split
      · exact .fault
      · exact hmove (ne_nil_of_node hi' (by simp)) hi hj
    | file hi' hj' =>
      have hsame := halike.shared hi hj hi' hj'
      simp only [bind, Except.bind, Node.isFile, Bool.true_and, Node.file.injEq, hsame]
      split
      · exact .fault
      split
      · exact .fault
      split
      · exact .done h
      · exact hmove (ne_nil_of_node hi' (by simp)) hi hj
  | link hi hj =>
    cases hwalk' with
    | fault => exact .fault
    | dir =>
      simp only [bind, Except.bind]
      split
      · exact .fault
      split <;> exact .fault
    | free =>
      simp only [bind, Except.bind]
      split
      · exact .fault
      split
      · exact .fault
      · exact hmove (by simp) hi hj
    | link hi' hj' | file hi' hj' =>
      simp only [bind, Except.bind, Node.isFile, Bool.false_and]
      split
      · exact .fault
      split
      · exact .fault
      · exact hmove (ne_nil_of_node hi' (by simp)) hi hj

end FileSystem

end SharedRuntime
