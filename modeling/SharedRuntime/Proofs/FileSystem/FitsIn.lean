import SharedRuntime.Proofs.FileSystem.Directories

/-!
# Trees on the way to another

A tree fits in another if that one can come of it by making directories and files and by putting
other things in place of files and links (`FitsIn`). A path that leads somewhere in both trees leads
to one location, unless it ends at a link which the other tree does not have (`resolve_agrees`). So
what operations make in a tree can be read off the tree that comes of it in the end.
-/

set_option autoImplicit false

namespace SharedRuntime.FileSystem

variable {fs s t whole : FileSystem}

/-- The directories of the tree are not missing in the whole and no links there; its files are
files, or missing; its links are the same links, or files, or missing. The whole has no other
links. -/
structure FitsIn (s whole : FileSystem) : Prop where
  working : s.working = whole.working
  dir : ∀ {l}, s.node? l = some .dir →
    whole.node? l = some .dir ∨ ∃ j, whole.node? l = some (.file j)
  file : ∀ {l i}, s.node? l = some (.file i) →
    whole.node? l = none ∨ ∃ j, whole.node? l = some (.file j)
  link : ∀ {l target}, s.node? l = some (.link target) → whole.node? l = some (.link target) ∨
    whole.node? l = none ∨ ∃ j, whole.node? l = some (.file j)
  keeps : ∀ {l target}, whole.node? l = some (.link target) → s.node? l = some (.link target)

/-! ## Walks -/

section
variable {follow : Follow} {dir : Location} {ns : List Bytes} {slash : Bool} {w v : Walked}

/-- Only a walk that ends with dots ends at a directory that it did not look up. -/
def Walked.Listed (fs : FileSystem) (w : Walked) : Prop :=
  match w.place with
  | .node loc n => w.dots = true ∨ fs.node? loc = some n
  | .free _ _ => w.dots = false

theorem Walks.listed {links : Nat} (h : Walks fs follow links dir ns slash w) : w.Listed fs := by
  induction h with
  | nil => exact .inl rfl
  | here _ ih | up _ ih => exact ih
  | free _ _ => exact rfl
  | last _ hnode _ => exact .inr hnode
  | into _ _ _ _ ih => exact ih
  | jump _ _ _ _ ih => exact ih

theorem resolve_listed {p : Path} (h : fs.resolve follow p = .ok w) : w.Listed fs :=
  (resolve_walks h).listed

/-- The location is that of a link, which the whole does not have. -/
def Replaced (s whole : FileSystem) (l : Location) : Prop :=
  ∃ target, s.node? l = some (.link target) ∧ whole.node? l ≠ some (.link target)

/-- Two walks end at one location; or the one in the whole ends where the other followed a link. -/
def Agrees (s whole : FileSystem) (follow : Follow) (w v : Walked) : Prop :=
  (w.place.location = v.place.location ∧ w.dots = v.dots) ∨
    (follow ≠ .never ∧ v.dots = false ∧ Replaced s whole v.place.location)

/-- A walk along a single name ends there, unless it meets a link. -/
theorem walk_last {links : Nat} {n : Bytes} (hn : Sought n)
    (hlink : ∀ target, fs.node? (dir ++ [n]) ≠ some (.link target))
    (h : walk fs follow links dir [n] slash = .ok w) :
    w.place.location = dir ++ [n] ∧ w.dots = false := by
  cases met fs dir n with
  | here hh => exact absurd hh hn.ne_here
  | up hu => exact absurd hu hn.ne_up
  | long hh hu hl => exact absurd hl hn.short
  | free _ hnode =>
    rw [walk_free _ _ _ _ _ _ hn hnode, if_pos rfl] at h
    cases h
    exact ⟨rfl, rfl⟩
  | dir _ hnode =>
    rw [walk_dir _ _ _ _ _ _ hn hnode, if_pos rfl] at h
    cases h
    exact ⟨rfl, rfl⟩
  | file _ hnode =>
    rw [walk_file _ _ _ _ _ _ hn hnode, if_pos rfl] at h
    cases h
    exact ⟨rfl, rfl⟩
  | link _ hnode => exact absurd hnode (hlink _)

/-- Behind a file or nothing no walk goes on. -/
theorem walk_stuck {links : Nat} {n : Bytes} {rest : List Bytes} (hn : Sought n)
    (hnode : fs.node? (dir ++ [n]) = none ∨ ∃ id, fs.node? (dir ++ [n]) = some (.file id))
    (h : walk fs follow links dir (n :: rest) slash = .ok w) : rest = [] := by
  rcases hnode with hnode | ⟨id, hnode⟩
  · rw [walk_free _ _ _ _ _ _ hn hnode] at h
    split at h
    · assumption
    · cases h
  · rw [walk_file _ _ _ _ _ _ hn hnode] at h
    split at h
    · assumption
    · cases h

theorem Walks.agrees (h : FitsIn s whole) {links : Nat} (hs : Walks s follow links dir ns slash w)
    (ht : walk whole follow links dir ns slash = .ok v) : Agrees s whole follow w v := by
  -- On the walk in the smaller tree. The other walk follows it until it meets something else than
  -- it.
  induction hs with
  | nil =>
    rw [walk_nil] at ht
    cases ht
    exact .inl ⟨rfl, rfl⟩
  | here _ ih =>
    rw [walk_here] at ht
    exact ih ht
  | up _ ih =>
    rw [walk_up] at ht
    exact ih ht
  | free hm hnode =>
    obtain ⟨hloc, hdots⟩ := walk_last hm (fun target hw => by
      rw [h.keeps hw] at hnode
      cases hnode) ht
    exact .inl ⟨hloc.symm, hdots.symm⟩
  | @last _ dir m _ _ hm hnode hstop =>
    by_cases hw : ∃ target, whole.node? (dir ++ [m]) = some (.link target)
    · obtain ⟨target, hw⟩ := hw
      obtain rfl := Option.some.inj (hnode.symm.trans (h.keeps hw))
      rw [walk_link _ _ _ _ _ _ hm hw, if_pos (hstop target rfl)] at ht
      cases ht
      exact .inl ⟨rfl, rfl⟩
    · obtain ⟨hloc, hdots⟩ := walk_last hm (not_exists.1 hw) ht
      exact .inl ⟨hloc.symm, hdots.symm⟩
  | into hm hnode hrest _ ih =>
    rcases h.dir hnode with hw | hw
    · rw [walk_dir _ _ _ _ _ _ hm hw, if_neg hrest] at ht
      exact ih ht
    · exact absurd (walk_stuck hm (.inr hw) ht) hrest
  | @jump _ dir m _ _ _ target hm hnode hstop _ ih =>
    rcases h.link hnode with hw | hw
    · rw [walk_link _ _ _ _ _ _ hm hw, hstop, if_neg Bool.false_ne_true] at ht
      exact ih ht
    · -- The whole has no link here, so the walk there has to end.
      obtain rfl := walk_stuck hm hw ht
      have hnone : ∀ target, whole.node? (dir ++ [m]) ≠ some (.link target) := by
        rcases hw with hw | ⟨j, hw⟩ <;> simp [hw]
      obtain ⟨hloc, hdots⟩ := walk_last hm hnone ht
      refine .inr ⟨?_, hdots, target, hloc ▸ hnode, hloc ▸ hnone target⟩
      rintro rfl
      cases hstop

/-- Where a path leads in a tree and in the whole. -/
theorem resolve_agrees (h : FitsIn s whole) {p : Path} (hs : s.resolve follow p = .ok w)
    (ht : whole.resolve follow p = .ok v) : Agrees s whole follow w v := by
  have hs' := resolve_walks hs
  have ht' := resolve_eq ht
  have hstart : s.start p = whole.start p := by
    unfold FileSystem.start
    rw [h.working]
  rw [hstart] at hs'
  exact hs'.agrees h ht'

/-- The end of a walk with no link at its end followed, for one with all links followed. -/
def EndsOrLinks (fs : FileSystem) (w v : Walked) : Prop :=
  v = w ∨ ∃ x target b, v = ⟨.node x (.link target), b, false⟩ ∧ fs.node? x = some (.link target)

theorem Walks.never {links : Nat} (h : Walks fs .always links dir ns slash w) :
    ∃ v, Walks fs .never links dir ns slash v ∧ EndsOrLinks fs w v := by
  induction h with
  | nil => exact ⟨_, .nil, .inl rfl⟩
  | here _ ih =>
    obtain ⟨v, hv, hends⟩ := ih
    exact ⟨v, .here hv, hends⟩
  | up _ ih =>
    obtain ⟨v, hv, hends⟩ := ih
    exact ⟨v, .up hv, hends⟩
  | free hm hnode => exact ⟨_, .free hm hnode, .inl rfl⟩
  | last hm hnode _ => exact ⟨_, .last hm hnode fun _ _ => Follow.stopsAt_never, .inl rfl⟩
  | into hm hnode hrest _ ih =>
    obtain ⟨v, hv, hends⟩ := ih
    exact ⟨v, .into hm hnode hrest hv, hends⟩
  | @jump _ _ _ rest _ _ _ hm hnode _ _ ih =>
    by_cases hrest : rest = []
    · subst hrest
      exact ⟨_, .last hm hnode fun _ _ => Follow.stopsAt_never, .inr ⟨_, _, _, rfl, hnode⟩⟩
    · obtain ⟨v, hv, hends⟩ := ih
      exact ⟨v, .jump hm hnode (Follow.stopsAt_cons hrest) hv, hends⟩

/-- What is found with all links followed is found without, or a link is found. -/
theorem resolve_never {p : Path} (h : fs.resolve .always p = .ok w) :
    ∃ v, fs.resolve .never p = .ok v ∧ EndsOrLinks fs w v := by
  obtain ⟨v, hv, hends⟩ := (resolve_walks h).never
  exact ⟨v, resolve_of_walk h hv.walk_eq, hends⟩

end

/-- Where nothing is yet in the tree, there is no link in the whole. -/
theorem free_agrees (h : FitsIn s whole) {p : Path} {dir : Location} {name : Bytes} {b d : Bool}
    {v : Walked} (hs : s.resolve .never p = .ok ⟨.free dir name, b, d⟩)
    (ht : whole.resolve .always p = .ok v) :
    v.place.location = dir ++ [name] ∧ v.dots = false := by
  have hnone : s.node? (dir ++ [name]) = none := resolve_holds hs
  have hd : d = false := resolve_listed hs
  obtain ⟨u, hu, hends⟩ := resolve_never ht
  rcases resolve_agrees h hs hu with ⟨hloc, hdots⟩ | ⟨hnever, -⟩
  · rcases hends with rfl | ⟨x, target, b', rfl, hlink⟩
    · exact ⟨hloc.symm, hdots.symm.trans hd⟩
    · have hx : dir ++ [name] = x := hloc
      rw [hx, h.keeps hlink] at hnone
      cases hnone
  · exact absurd rfl hnever

end SharedRuntime.FileSystem
