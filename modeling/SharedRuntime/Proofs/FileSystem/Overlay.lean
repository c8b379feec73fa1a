import SharedRuntime.Proofs.FileSystem.Vacant

/-!
# Copies laid over a tree

A list of copies says what is put where, in order. A tree is the overlay of another one if each copy
has become a file, each file has the data that were put into it last or what it held before, and no
other file and no link is new (`Overlay`). Directories that are made change nothing of this
(`Overlay.moreDirs`), and each effect that puts data adds a copy at the end (`Overlay.put`).

Files are told apart by their identity: if two locations are one file, then a copy to either is read
at both. Where a file has only one location, it holds the last copy to that location
(`Overlay.contents_of_alone`).
-/

set_option autoImplicit false

namespace SharedRuntime.FileSystem

variable {fs t u : FileSystem} {l : Location} {data : Bytes} {cs : List (Location × Bytes)}

/-- The data that copies put into a file last, if the files are where the tree has them. -/
def lastCopy (fs : FileSystem) (cs : List (Location × Bytes)) (id : Nat) : Option Bytes :=
  ((cs.filter fun c => fs.node? c.1 = some (.file id)).getLast?).map Prod.snd

/-- The tree afterwards has copies in place and is otherwise the same, but for new directories. -/
structure Overlay (fs fs' : FileSystem) (cs : List (Location × Bytes)) : Prop where
  kept : fs.PartOf fs'
  links : NoNewLinks fs fs'
  files : ∀ l id, fs'.node? l = some (.file id) →
    fs.node? l = some (.file id) ∨ l ∈ cs.map Prod.fst
  targets : ∀ c ∈ cs, ∃ id, fs'.node? c.1 = some (.file id)
  /-- Only locations that were one file before are one file. -/
  alone : ∀ x y id, fs'.node? x = some (.file id) → fs'.node? y = some (.file id) →
    x = y ∨ (fs.node? x = some (.file id) ∧ fs.node? y = some (.file id))
  contents : ∀ id, fs'.contentsOf id = (fs'.lastCopy cs id).getD (fs.contentsOf id)

/-! ## The last copy -/

theorem lastCopy_congr (h : ∀ c ∈ cs, t.node? c.1 = fs.node? c.1) (id : Nat) :
    t.lastCopy cs id = fs.lastCopy cs id := by
  unfold lastCopy
  rw [List.filter_congr fun c hc => by rw [h c hc]]

theorem lastCopy_append_self {id : Nat} (h : fs.node? l = some (.file id)) :
    fs.lastCopy (cs ++ [(l, data)]) id = some data := by
  unfold lastCopy
  rw [List.filter_append, List.filter_cons_of_pos (by simpa using h), List.filter_nil,
    List.getLast?_concat]
  rfl

theorem lastCopy_append_ne {id : Nat} (h : fs.node? l ≠ some (.file id)) :
    fs.lastCopy (cs ++ [(l, data)]) id = fs.lastCopy cs id := by
  unfold lastCopy
  rw [List.filter_append, List.filter_cons_of_neg (by simpa using h), List.filter_nil,
    List.append_nil]

/-! ## Trees with the same files -/

theorem MoreDirs.file_iff (h : MoreDirs fs t) (l : Location) (id : Nat) :
    t.node? l = some (.file id) ↔ fs.node? l = some (.file id) := by
  rcases h.node l with hsame | ⟨hnone, hdir⟩
  · rw [hsame]
  · rw [hnone, hdir]
    constructor <;> intro he <;> cases he

theorem MoreDirs.numbered (h : MoreDirs fs t) (hn : fs.Numbered) : t.Numbered := by
  intro l id hl
  rw [h.fresh]
  exact hn l id ((h.file_iff l id).1 hl)

theorem MoreDirs.noNewLinks (h : MoreDirs fs t) : NoNewLinks fs t := by
  refine ⟨fun l target hl => ?_, h.working⟩
  rcases h.node l with hsame | ⟨-, hdir⟩
  · exact hsame.symm.trans hl
  · rw [hdir] at hl
    cases hl

theorem PartOf.trans (h : fs.PartOf t) (k : t.PartOf u) : fs.PartOf u :=
  fun l node hl => k l node (h l node hl)

theorem Overlay.refl (fs : FileSystem) : Overlay fs fs [] :=
  ⟨fun _ _ h => h, .refl, fun _ _ h => .inl h, fun _ hc => absurd hc List.not_mem_nil,
    fun _ _ _ hx hy => .inr ⟨hx, hy⟩, fun _ => rfl⟩

theorem put_partOf (h : (Effect.put l data).Does t u) : t.PartOf u := by
  rcases h with ⟨id, -, rfl⟩ | ⟨hnone, rfl⟩
  · exact fun _ _ hx => hx
  · intro x node hx
    rwa [(sameBut_insertFile t l data).node x fun he => by rw [he, hnone] at hx; cases hx]

theorem put_noNewLinks (h : (Effect.put l data).Does t u) : NoNewLinks t u := by
  rcases h with ⟨id, -, rfl⟩ | ⟨-, rfl⟩
  · exact ⟨fun _ _ hx => hx, rfl⟩
  · exact noNewLinks_insertFile

theorem put_numbered (h : (Effect.put l data).Does t u) (hn : t.Numbered) : u.Numbered := by
  rcases h with ⟨id, -, rfl⟩ | ⟨-, rfl⟩
  · exact hn
  · exact hn.insertFile l data

theorem ne_nil_of_none (h : t.node? l = none) : l ≠ [] := by
  rintro rfl
  cases h

/-- A new file has no other location. -/
theorem Numbered.eq_of_fresh (hn : t.Numbered) {x : Location}
    (hx : (t.insertFile l data).node? x = some (.file t.fresh)) : x = l := by
  by_contra hxl
  rw [(sameBut_insertFile t l data).node x hxl] at hx
  exact Nat.lt_irrefl _ (hn x t.fresh hx)

/-- Nothing new is numbered by a node that is a directory, a link or another name of a file. -/
theorem Numbered.insert {node : Node} (hn : t.Numbered) (l : Location)
    (hnode : ∀ i, node = .file i → i < t.fresh) : (t.insert l node).Numbered := by
  intro x i hx
  rw [node?_insert] at hx
  split at hx
  · cases hx
  split at hx
  · exact hnode i (Option.some.inj hx)
  · exact hn x i hx

/-- A file that is there gets new contents. -/
theorem Overlay.rewrite {id : Nat} (h : Overlay fs t cs) (hl : t.node? l = some (.file id)) :
    Overlay fs (t.setContents id data) (cs ++ [(l, data)]) where
  kept := h.kept
  links := ⟨h.links.link, h.links.working⟩
  files x i hx := (h.files x i hx).imp_right fun hmem => by simp [hmem]
  targets c hc := by
    rcases List.mem_append.1 hc with hc | hc
    · exact h.targets c hc
    · rw [List.mem_singleton.1 hc]
      exact ⟨id, hl⟩
  alone := h.alone
  contents i := by
    have hself : (t.setContents id data).node? l = some (.file id) := hl
    by_cases hi : i = id
    · rw [hi, contentsOf_setContents_self, lastCopy_append_self hself]
      rfl
    · have hne : (t.setContents id data).node? l ≠ some (.file i) := by
        rw [hself]
        exact fun he => hi (Node.file.inj (Option.some.inj he)).symm
      rw [contentsOf_setContents t data hi, lastCopy_append_ne hne]
      exact h.contents i

/-- A new file comes where nothing was. No other location has its identity. -/
theorem Overlay.create (h : Overlay fs t cs) (hn : t.Numbered) (hl : t.node? l = none) :
    Overlay fs (t.insertFile l data) (cs ++ [(l, data)]) := by
  have hself : (t.insertFile l data).node? l = some (.file t.fresh) :=
    node?_insertFile_self t data (ne_nil_of_none hl)
  have hother : ∀ x, x ≠ l → (t.insertFile l data).node? x = t.node? x :=
    (sameBut_insertFile t l data).node
  have hcopies : ∀ c ∈ cs, (t.insertFile l data).node? c.1 = t.node? c.1 := by
    intro c hc
    obtain ⟨id, hid⟩ := h.targets c hc
    exact hother c.1 fun he => by rw [he, hl] at hid; cases hid
  have hput : (Effect.put l data).Does t (t.insertFile l data) := .inr ⟨hl, rfl⟩
  refine ⟨h.kept.trans (put_partOf hput), Script.Frame.trans h.links (put_noNewLinks hput),
    fun x id hx => ?_, fun c hc => ?_, fun x y id hx hy => ?_, fun id => ?_⟩
  · by_cases hxl : x = l
    · exact .inr (by simp [hxl])
    · rw [hother x hxl] at hx
      exact (h.files x id hx).imp_right fun hmem => by simp [hmem]
  · rcases List.mem_append.1 hc with hc | hc
    · rw [hcopies c hc]
      exact h.targets c hc
    · rw [List.mem_singleton.1 hc]
      exact ⟨t.fresh, hself⟩
  · by_cases hid : id = t.fresh
    · subst hid
      exact .inl ((hn.eq_of_fresh hx).trans (hn.eq_of_fresh hy).symm)
    · have hne : ∀ z, (t.insertFile l data).node? z = some (.file id) → z ≠ l := by
        rintro z hz rfl
        rw [hself] at hz
        exact hid (Node.file.inj (Option.some.inj hz)).symm
      rw [hother x (hne x hx)] at hx
      rw [hother y (hne y hy)] at hy
      exact h.alone x y id hx hy
  · by_cases hid : id = t.fresh
    · rw [hid, contentsOf_insertFile_self, lastCopy_append_self hself]
      rfl
    · have hne : (t.insertFile l data).node? l ≠ some (.file id) := by
        rw [hself]
        exact fun he => hid (Node.file.inj (Option.some.inj he)).symm
      rw [contentsOf_insertFile t l data hid, lastCopy_append_ne hne, lastCopy_congr hcopies]
      exact h.contents id

theorem Overlay.put (h : Overlay fs t cs) (hn : t.Numbered)
    (hput : (Effect.put l data).Does t u) : Overlay fs u (cs ++ [(l, data)]) := by
  rcases hput with ⟨id, hl, rfl⟩ | ⟨hl, rfl⟩
  · exact h.rewrite hl
  · exact h.create hn hl

/-- A file at a location has the given contents. -/
def Holds (fs : FileSystem) (l : Location) (data : Bytes) : Prop :=
  ∃ id, fs.node? l = some (.file id) ∧ fs.contentsOf id = data

instance (fs : FileSystem) (l : Location) (data : Bytes) : Decidable (fs.Holds l data) :=
  match h : fs.node? l with
  | some (.file id) => decidable_of_iff (fs.contentsOf id = data) (by simp [Holds, h])
  | some .dir => isFalse (by simp [Holds, h])
  | some (.link _) => isFalse (by simp [Holds, h])
  | none => isFalse (by simp [Holds, h])

/-- The locations differ, and no two are names of one file. -/
def Separate (fs : FileSystem) (ls : List Location) : Prop :=
  ls.Pairwise fun x y => x ≠ y ∧ ∀ id, fs.node? x = some (.file id) → fs.node? y ≠ some (.file id)

/-- The tree holds each of the copies, where none falls on another. -/
theorem Overlay.holds (h : Overlay fs t cs) (hseparate : Separate fs (cs.map Prod.fst)) :
    ∀ c ∈ cs, t.Holds c.1 c.2 := by
  intro c hc
  obtain ⟨id, hid⟩ := h.targets c hc
  obtain ⟨before, after, rfl⟩ := List.append_of_mem hc
  have hafter : after.filter (fun c => t.node? c.1 = some (.file id)) = [] := by
    refine List.filter_eq_nil_iff.2 fun d hd hfile => ?_
    have hpair : ∀ d ∈ after, c.1 ≠ d.1 ∧
        ∀ id, fs.node? c.1 = some (.file id) → fs.node? d.1 ≠ some (.file id) := by
      rw [Separate, List.pairwise_map] at hseparate
      exact (List.pairwise_cons.1 (List.pairwise_append.1 hseparate).2.1).1
    obtain ⟨hne, hother⟩ := hpair d hd
    rcases h.alone c.1 d.1 id hid (of_decide_eq_true hfile) with he | ⟨hx, hy⟩
    · exact hne he
    · exact hother id hx hy
  refine ⟨id, hid, ?_⟩
  rw [h.contents, lastCopy, List.filter_append, List.filter_cons_of_pos (by simpa using hid),
    hafter, List.getLast?_concat]
  rfl

theorem Holds.unique {data data' : Bytes} (h : t.Holds l data) (h' : t.Holds l data') :
    data = data' := by
  obtain ⟨id, hid, rfl⟩ := h
  obtain ⟨id', hid', rfl⟩ := h'
  rw [hid] at hid'
  cases hid'
  rfl

/-! ## Files that are spared -/

/-- A file at the location stays, with its contents. -/
def Spares (l : Location) (t u : FileSystem) : Prop :=
  ∀ id, t.node? l = some (.file id) →
    u.node? l = some (.file id) ∧ u.contentsOf id = t.contentsOf id

instance (l : Location) (t u : FileSystem) : Decidable (Spares l t u) :=
  match h : t.node? l with
  | some (.file id) => decidable_of_iff
      (u.node? l = some (.file id) ∧ u.contentsOf id = t.contentsOf id) (by simp [Spares, h])
  | some .dir => isTrue (by simp [Spares, h])
  | some (.link _) => isTrue (by simp [Spares, h])
  | none => isTrue (by simp [Spares, h])

theorem Spares.refl (l : Location) (t : FileSystem) : Spares l t t := fun _ h => ⟨h, rfl⟩

theorem Spares.trans {v : FileSystem} (h : Spares l t u) (k : Spares l u v) : Spares l t v := by
  intro id hid
  obtain ⟨hu, hcontents⟩ := h id hid
  obtain ⟨hv, hcontents'⟩ := k id hu
  exact ⟨hv, hcontents'.trans hcontents⟩

theorem Spares.holds (h : Spares l t u) (hl : t.Holds l data) : u.Holds l data := by
  obtain ⟨id, hid, rfl⟩ := hl
  exact ⟨id, h id hid⟩

end SharedRuntime.FileSystem
