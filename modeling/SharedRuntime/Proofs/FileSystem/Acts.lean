import SharedRuntime.Proofs.FileSystem.Effects
import SharedRuntime.Proofs.FileSystem.FitsIn
import SharedRuntime.Proofs.FileSystem.MakeDirs

/-!
# Acts and where they take effect

An act is done at a path. Where it takes effect is decided by the tree when its turn comes, so it
depends on what was done before: links come and go. But if every path is found in the tree that is
left in the end, by way of no link that came or went (`Act.Stands` in `steady`), then each act takes
effect at the location that its path leads to there, in whatever order acts are done
(`run_effects`).
-/

set_option autoImplicit false

namespace SharedRuntime

namespace FileSystem

/-- Something that is done at a path. -/
inductive Act
  /-- The path is made a directory with all above it, unless it leads somewhere. -/
  | need (p : Path)
  /-- The same, and the path leads to the location. -/
  | enter (p : Path) (base : Location)
  | write (p : Path) (data : Bytes)
  /-- What the path names, its links not followed, is replaced. -/
  | renew (p : Path) (item : Item)
  /-- What the one path names is given the other as a name. -/
  | share (source p : Path)

/-- The act leads from one tree to another. -/
def Act.Does : Act → FileSystem → FileSystem → Prop
  | .need p, s, t => Makes p.ancestors s t ∧ (p = [] ∨ ∃ found, t.locate p = .ok found)
  | .enter p base, s, t => Makes p.ancestors s t ∧ ∃ n, t.locate p = .ok (base, n)
  | .write p data, s, t => s.write p data = .ok t
  | .renew p item, s, t => ∃ w, s.resolve .never p = .ok w ∧
      s.node? w.place.location ≠ some .dir ∧ t = s.putItem w.place.location item
  | .share source p, s, t => ∃ loc n b d dir name b' d',
      s.resolve .never source = .ok ⟨.node loc n, b, d⟩ ∧ n ≠ .dir ∧
        s.resolve .never p = .ok ⟨.free dir name, b', d'⟩ ∧ t = s.insert (dir ++ [name]) n

/-- The path of the act is found in the tree: it leads somewhere, to a directory that is entered, to
a file that is written. What is put in some other way may be missing; a link is the one that was put
there. -/
def Act.Stands (whole : FileSystem) : Act → Prop
  | .need p => p = [] ∨ ∃ found, whole.locate p = .ok found
  | .enter p base => whole.locate p = .ok (base, .dir)
  | .write p _ => ∃ l i, whole.locate p = .ok (l, .file i)
  | .renew p item => ∃ w, whole.resolve .never p = .ok w ∧
      whole.node? w.place.location ≠ some .dir ∧
        ∀ target, whole.node? w.place.location = some (.link target) → item = .link target
  | .share source p => ∃ v, whole.resolve .never source = .ok v ∧
      ∃ w, whole.resolve .never p = .ok w ∧ whole.node? w.place.location ≠ some .dir ∧
        ∀ target, whole.node? w.place.location = some (.link target) →
          whole.node? v.place.location = some (.link target)

instance {ε α : Type} (r : Except ε α) (q : α → Prop) [DecidablePred q] :
    Decidable (∃ a, r = .ok a ∧ q a) :=
  match r with
  | .ok a => decidable_of_iff (q a) (by simp)
  | .error f => isFalse (by simp)

instance (r : Option Node) (q : Path → Prop) [DecidablePred q] :
    Decidable (∀ target, r = some (.link target) → q target) :=
  match r with
  | some (.link target) => decidable_of_iff (q target) (by simp)
  | some (.file _) | some .dir | none => isTrue (by simp)

instance (n : Node) : Decidable (∃ i, n = .file i) :=
  match n with
  | .file i => isTrue ⟨i, rfl⟩
  | .dir | .link _ => isFalse (by simp)

instance (whole : FileSystem) : DecidablePred (Act.Stands whole)
  | .need p => decidable_of_iff (p = [] ∨ ∃ found, whole.locate p = .ok found ∧ True) <| by
    simp [Act.Stands]
  | .enter p base => decidable_of_iff
      (∃ found, whole.locate p = .ok found ∧ found = (base, .dir)) <| by
    simp [Act.Stands]
  | .write p _ => decidable_of_iff
      (∃ found, whole.locate p = .ok found ∧ ∃ i, found.2 = .file i) <| by
    simp only [Prod.exists, Act.Stands]
    exact exists_congr fun l => ⟨fun ⟨_, h, i, hi⟩ => ⟨i, hi ▸ h⟩, fun ⟨i, h⟩ => ⟨_, h, i, rfl⟩⟩
  | .renew p item => inferInstanceAs (Decidable (∃ w, whole.resolve .never p = .ok w ∧
      whole.node? w.place.location ≠ some .dir ∧
        ∀ target, whole.node? w.place.location = some (.link target) → item = .link target))
  | .share source p => inferInstanceAs (Decidable (∃ v, whole.resolve .never source = .ok v ∧
      ∃ w, whole.resolve .never p = .ok w ∧ whole.node? w.place.location ≠ some .dir ∧
        ∀ target, whole.node? w.place.location = some (.link target) →
          whole.node? v.place.location = some (.link target)))

/-- The location that a path leads to. -/
def endOf (s : FileSystem) (follow : Follow) (p : Path) : Location :=
  match s.resolve follow p with
  | .ok w => w.place.location
  | .error _ => []

/-- The location that is looked up at the end of a path; none if the path ends with dots. -/
def lookedUp? (s : FileSystem) (p : Path) : Option Location :=
  match s.resolve .always p with
  | .ok w => if w.dots then none else some w.place.location
  | .error _ => none

/-- The locations that the paths above a path lead to. -/
def wayTo (s : FileSystem) (p : Path) : List Location :=
  (p.ancestors.filter fun a => a != []).filterMap s.lookedUp?

/-- Where the act takes effect, if its path leads where it leads in the tree. -/
def Act.effect (whole : FileSystem) : Act → Effect
  | .need p => .dirs (whole.wayTo p)
  | .enter p _ => .dirs (whole.wayTo p)
  | .write p data => .put (whole.endOf .always p) data
  | .renew p item => .renew (whole.endOf .never p) item
  | .share source p => .share (whole.endOf .never source) (whole.endOf .never p)

variable {s t whole : FileSystem} {p : Path} {l : Location} {item : Item}

theorem endOf_of_resolve {follow : Follow} {w : Walked} (h : s.resolve follow p = .ok w) :
    s.endOf follow p = w.place.location := by
  unfold endOf
  rw [h]

theorem lookedUp?_of_resolve {w : Walked} (h : s.resolve .always p = .ok w)
    (hd : w.dots = false) : s.lookedUp? p = some w.place.location := by
  unfold lookedUp?
  rw [h]
  simp [hd]

theorem lookedUp?_some (h : s.lookedUp? p = some l) :
    ∃ w, s.resolve .always p = .ok w ∧ w.dots = false ∧ w.place.location = l := by
  unfold lookedUp? at h
  split at h
  · rename_i w hr
    split at h
    · cases h
    · rename_i hd
      cases h
      exact ⟨w, hr, by simpa using hd, rfl⟩
  · cases h

/-! ## Growing into the whole -/

theorem FitsIn.insert_dir (h : FitsIn s whole)
    (hw : whole.node? l = some .dir ∨ ∃ j, whole.node? l = some (.file j)) :
    FitsIn (s.insert l .dir) whole := by
  have hother : ∀ {x n}, (s.insert l .dir).node? x = some n → n ≠ .dir → s.node? x = some n := by
    intro x n hx hn
    rw [node?_insert] at hx
    split at hx
    · exact absurd (Option.some.inj hx).symm hn
    split at hx
    · exact absurd (Option.some.inj hx).symm hn
    · exact hx
  refine ⟨h.working, fun {x} hx => ?_, fun hx => h.file (hother hx (by simp)),
    fun hx => h.link (hother hx (by simp)), fun {x target} hx => ?_⟩
  · rw [node?_insert] at hx
    split at hx
    · rename_i hnil
      exact .inl (by simp [hnil, node?])
    split at hx
    · rename_i hxl
      rw [hxl]
      exact hw
    · exact h.dir hx
  · rw [node?_insert]
    split
    · rename_i hnil
      rw [hnil] at hx
      simp [node?] at hx
    split
    · rename_i hxl
      rw [hxl] at hx
      rcases hw with hw | ⟨j, hw⟩ <;> rw [hx] at hw <;> cases hw
    · exact h.keeps hx

/-- Something else than a directory comes to a location at which the whole has no directory, and no
other link. -/
theorem FitsIn.put {n : Node} (h : FitsIn s whole) (hself : t.node? l = some n) (hn : n ≠ .dir)
    (hne : ∀ x, x ≠ l → t.node? x = s.node? x) (hworking : t.working = s.working)
    (hw : whole.node? l ≠ some .dir)
    (hlink : ∀ target, whole.node? l = some (.link target) → n = .link target) :
    FitsIn t whole := by
  have hwhole : whole.node? l = none ∨ (∃ j, whole.node? l = some (.file j)) ∨
      ∃ target, whole.node? l = some (.link target) ∧ n = .link target := by
    cases hl : whole.node? l with
    | none => exact .inl rfl
    | some m =>
      cases m with
      | dir => exact absurd hl hw
      | file j => exact .inr (.inl ⟨j, rfl⟩)
      | link target => exact .inr (.inr ⟨target, rfl, hlink target hl⟩)
  refine ⟨hworking.trans h.working, fun {x} hx => ?_, fun {x i} hx => ?_, fun {x target} hx => ?_,
    fun {x target} hx => ?_⟩ <;> by_cases hxl : x = l
  · subst hxl
    rw [hself] at hx
    exact absurd (Option.some.inj hx) hn
  · exact h.dir ((hne x hxl).symm.trans hx)
  · subst hxl
    rcases hwhole with hnone | hfile | ⟨target, -, rfl⟩
    · exact .inl hnone
    · exact .inr hfile
    · rw [hself] at hx
      cases hx
  · exact h.file ((hne x hxl).symm.trans hx)
  · subst hxl
    rcases hwhole with hnone | hfile | ⟨target', hlink', rfl⟩
    · exact .inr (.inl hnone)
    · exact .inr (.inr hfile)
    · rw [hself] at hx
      cases hx
      exact .inl hlink'
  · exact h.link ((hne x hxl).symm.trans hx)
  · subst hxl
    rw [hself, hlink target hx]
  · exact (hne x hxl).trans (h.keeps hx)

theorem FitsIn.putItem (h : FitsIn s whole) (hl : l ≠ []) (hw : whole.node? l ≠ some .dir)
    (hlink : ∀ target, whole.node? l = some (.link target) → item = .link target) :
    FitsIn (s.putItem l item) whole := by
  refine h.put (node?_putItem_self s item hl) (by cases item <;> simp [Item.node])
    (fun x hx => node?_putItem_ne s item hx) (by cases item <;> rfl) hw fun target ht => ?_
  rw [hlink target ht]
  rfl

/-- Directories are made where the whole has a directory or a file. -/
theorem makes_grown {ps : List Path} (hfit : s.FitsIn whole)
    (hps : ∀ a ∈ ps, a ≠ [] → ∃ found, whole.locate a = .ok found) (h : Makes ps s t) :
    Grown ((ps.filter fun a => a != []).filterMap whole.lookedUp?) s t ∧ t.FitsIn whole := by
  -- On the directories that are made. Each is one that the whole has, or a file of it.
  induction h with
  | none => exact ⟨.refl, hfit⟩
  | @one u v a _ ha hmake ih =>
    obtain ⟨hgrown, hfit⟩ := ih
    obtain ⟨dir, name, b, d, hr, rfl⟩ := makeDir_ok hmake
    have hnil : a ≠ [] := by
      rintro rfl
      cases hr
    obtain ⟨found, hfound⟩ := hps a ha hnil
    obtain ⟨b', d', hr'⟩ := locate_ok hfound
    obtain ⟨hloc, hdots⟩ := free_agrees hfit hr hr'
    have hnone : u.node? (dir ++ [name]) = none := resolve_holds hr
    have hnode : whole.node? (dir ++ [name]) = some found.2 := by
      rcases resolve_listed hr' with hd | hn
      · rw [hdots] at hd
        cases hd
      · rw [← hloc]
        exact hn
    have hin : dir ++ [name] ∈ (ps.filter fun a => a != []).filterMap whole.lookedUp? := by
      refine List.mem_filterMap.2 ⟨a, List.mem_filter.2 ⟨ha, by simpa using hnil⟩, ?_⟩
      rw [lookedUp?_of_resolve hr' hdots, hloc]
    refine ⟨hgrown.trans ⟨fun x => ?_, rfl, rfl, rfl⟩, hfit.insert_dir ?_⟩
    · by_cases hx : x = dir ++ [name]
      · subst hx
        exact .inr ⟨hin, hnone, node?_insert_self u .dir (by simp)⟩
      · exact .inl (node?_insert_ne u .dir hx)
    · rw [hnode]
      cases hn : found.2 with
      | dir => exact .inl rfl
      | file j => exact .inr ⟨j, rfl⟩
      | link target =>
        rw [hn] at hnode
        rw [hfit.keeps hnode] at hnone
        cases hnone

/-- Where a path leads is looked up on the way. -/
theorem wayTo_there (hfit : t.FitsIn whole) (h : p = [] ∨ ∃ found, t.locate p = .ok found) :
    ∀ l ∈ whole.wayTo p, t.node? l ≠ none := by
  intro l hl
  obtain ⟨a, ha, hlook⟩ := List.mem_filterMap.1 hl
  obtain ⟨ha, hnil⟩ := List.mem_filter.1 ha
  have hnil : a ≠ [] := by simpa using hnil
  obtain ⟨v, hv, hdots, rfl⟩ := lookedUp?_some hlook
  rcases h with rfl | ⟨found, hfound⟩
  · exact absurd (List.mem_singleton.1 ha) hnil
  obtain ⟨found', hfound'⟩ := locate_ancestors hfound ha hnil
  obtain ⟨b, d, hr⟩ := locate_ok hfound'
  rcases resolve_agrees hfit hr hv with ⟨hloc, hd⟩ | ⟨-, -, target, hlink, -⟩
  · have hd' : d = false := hd.trans hdots
    subst hd'
    rcases resolve_listed hr with hd | hn
    · cases hd
    · have hloc' : found'.1 = v.place.location := hloc
      rw [← hloc', hn]
      simp
  · rw [hlink]
    simp

/-- The tree fits in the whole, and has no links where files are written. -/
structure Fits (whole : FileSystem) (acts : List Act) (s : FileSystem) : Prop where
  fits : s.FitsIn whole
  clear : ∀ p data, Act.write p data ∈ acts →
    ∀ target, s.node? (whole.endOf .always p) ≠ some (.link target)

variable {acts as : List Act}

theorem Fits.makes (hs : Fits whole acts s) (h : Makes p.ancestors s t)
    (hw : p = [] ∨ ∃ found, whole.locate p = .ok found)
    (ht : p = [] ∨ ∃ found, t.locate p = .ok found) :
    (Effect.dirs (whole.wayTo p)).Does s t ∧ Fits whole acts t := by
  have hall : ∀ a ∈ p.ancestors, a ≠ [] → ∃ found, whole.locate a = .ok found := by
    intro a ha hnil
    rcases hw with rfl | ⟨found, hfound⟩
    · exact absurd (List.mem_singleton.1 ha) hnil
    · exact locate_ancestors hfound ha hnil
  obtain ⟨hgrown, hfit⟩ := makes_grown hs.fits hall h
  refine ⟨⟨hgrown, wayTo_there hfit ht⟩, hfit, fun q data hq target hlink => ?_⟩
  rcases hgrown.node (whole.endOf .always q) with hsame | ⟨-, -, hdir⟩
  · exact hs.clear q data hq target (hsame.symm.trans hlink)
  · rw [hdir] at hlink
    cases hlink

theorem Fits.write {data : Bytes} (hs : Fits whole acts s) (ha : Act.write p data ∈ acts)
    (hw : ∃ l i, whole.locate p = .ok (l, .file i)) (h : s.write p data = .ok t) :
    (Effect.put (whole.endOf .always p) data).Does s t ∧ Fits whole acts t := by
  obtain ⟨l, i, hw⟩ := hw
  obtain ⟨b, d, hr'⟩ := locate_ok hw
  have hend := endOf_of_resolve hr'
  have hnode : whole.node? l = some (.file i) := (resolve_holds hr').resolve_left (by simp)
  obtain ⟨place, d', hr, hplace⟩ := write_ok h
  have hloc : place.location = l := by
    rcases resolve_agrees hs.fits hr hr' with ⟨hloc, -⟩ | ⟨-, -, target, hlink, -⟩
    · exact hloc
    · exact absurd (hend ▸ hlink) (hs.clear p data ha target)
  rw [hend]
  show (Effect.put l data).Does s t ∧ _
  rcases hplace with ⟨loc, id, rfl, rfl⟩ | ⟨dir, name, rfl, rfl⟩
  · have hfile : s.node? loc = some (.file id) := (resolve_holds hr).resolve_left (by simp)
    have hloc : loc = l := hloc
    exact ⟨.inl ⟨id, hloc ▸ hfile, rfl⟩, ⟨hs.fits.working, hs.fits.dir, hs.fits.file, hs.fits.link,
      hs.fits.keeps⟩, hs.clear⟩
  · have hfree : s.node? (dir ++ [name]) = none := resolve_holds hr
    have hloc : dir ++ [name] = l := hloc
    have hnil : l ≠ [] := by simp [← hloc]
    rw [hloc] at hfree ⊢
    refine ⟨.inr ⟨hfree, rfl⟩, ?_, fun q data' hq target => ?_⟩
    · have hfit : (s.putItem l (.file data)).FitsIn whole := by
        refine hs.fits.putItem hnil (by simp [hnode]) fun target hl => ?_
        rw [hnode] at hl
        cases hl
      exact hfit
    · have hput := node?_insertFile s l (whole.endOf .always q) data
      rw [hput]
      split
      · simp
      split
      · simp
      · exact hs.clear q data' hq target

/-- No act puts something at a location that is written to. -/
theorem Once.writes {q : Path} {data : Bytes} {a : Act}
    (honce : Once (acts.map (Act.effect whole))) (hq : Act.write q data ∈ acts) (ha : a ∈ acts)
    (hput : (a.effect whole).isPut = false) (hl : (a.effect whole).target? = some l) :
    whole.endOf .always q ≠ l := by
  have hne : (Act.write q data).effect whole ≠ a.effect whole := by
    intro heq
    rw [← heq] at hput
    cases hput
  have hclear := honce.forall (List.mem_map_of_mem hq) (List.mem_map_of_mem ha) hne
  rintro rfl
  exact hclear (.inl rfl) _ rfl hl

/-- Two paths whose ends are not followed lead to one location. -/
theorem FitsIn.never_eq {w v : Walked} (h : FitsIn s whole) (hs : s.resolve .never p = .ok w)
    (hw : whole.resolve .never p = .ok v) : w.place.location = v.place.location := by
  rcases resolve_agrees h hs hw with ⟨hloc, -⟩ | ⟨hnever, -⟩
  · exact hloc
  · exact absurd rfl hnever

theorem Fits.renew (hs : Fits whole acts s) (ha : Act.renew p item ∈ acts)
    (honce : Once (acts.map (Act.effect whole))) (hw : (Act.renew p item).Stands whole)
    (h : (Act.renew p item).Does s t) :
    (Effect.renew (whole.endOf .never p) item).Does s t ∧ Fits whole acts t := by
  obtain ⟨v, hr', hdir', hlink'⟩ := hw
  obtain ⟨w, hr, hdir, rfl⟩ := h
  have hend := endOf_of_resolve hr'
  have hloc := hs.fits.never_eq hr hr'
  have hnil : v.place.location ≠ [] := by
    intro hnil
    rw [hloc, hnil] at hdir
    exact hdir (by simp [node?])
  have htarget : ((Act.renew p item).effect whole).target? = some v.place.location := by
    rw [← hend]
    rfl
  rw [hend]
  rw [hloc] at hdir ⊢
  refine ⟨⟨hdir, rfl⟩, hs.fits.putItem hnil hdir' hlink', fun q data hq target => ?_⟩
  rw [node?_putItem_ne s item (honce.writes hq ha rfl htarget)]
  exact hs.clear q data hq target

theorem Fits.share {source : Path} (hs : Fits whole acts s) (ha : Act.share source p ∈ acts)
    (honce : Once (acts.map (Act.effect whole))) (hw : (Act.share source p).Stands whole)
    (h : (Act.share source p).Does s t) :
    (Effect.share (whole.endOf .never source) (whole.endOf .never p)).Does s t ∧
      Fits whole acts t := by
  obtain ⟨v, hv, w, hw, hdir', hlink'⟩ := hw
  obtain ⟨loc, n, b, d, dir, name, b', d', hsource, hn, hp, rfl⟩ := h
  have hloc : loc = v.place.location := hs.fits.never_eq hsource hv
  have hfree : dir ++ [name] = w.place.location := hs.fits.never_eq hp hw
  have hnone : s.node? (dir ++ [name]) = none := resolve_holds hp
  have hnode : s.node? loc = some n := (resolve_holds hsource).resolve_left hn
  have htarget : ((Act.share source p).effect whole).target? = some (dir ++ [name]) := by
    rw [hfree, ← endOf_of_resolve hw]
    rfl
  rw [endOf_of_resolve hv, endOf_of_resolve hw, ← hloc, ← hfree]
  refine ⟨⟨hnone, n, hnode, hn, rfl⟩, ?_, fun q data hq target => ?_⟩
  · refine hs.fits.put (node?_insert_self s n (by simp)) hn (fun x hx => node?_insert_ne s n hx) rfl
      (hfree ▸ hdir') fun target ht => ?_
    have hlink := hlink' target (hfree ▸ ht)
    rw [← hloc] at hlink
    rw [hs.fits.keeps hlink] at hnode
    exact (Option.some.inj hnode).symm
  · rw [node?_insert_ne s n (honce.writes hq ha rfl htarget)]
    exact hs.clear q data hq target

/-- An act takes effect where its path leads in the whole. -/
theorem Fits.step {a : Act} (hs : Fits whole acts s) (ha : a ∈ acts)
    (honce : Once (acts.map (Act.effect whole))) (hw : a.Stands whole) (h : a.Does s t) :
    (a.effect whole).Does s t ∧ Fits whole acts t := by
  cases a with
  | need p => exact hs.makes h.1 hw h.2
  | enter p base =>
    obtain ⟨hmakes, n, hn⟩ := h
    exact hs.makes hmakes (.inr ⟨_, hw⟩) (.inr ⟨_, hn⟩)
  | write p data => exact hs.write ha hw h
  | renew p item => exact hs.renew ha honce hw h
  | share source p => exact hs.share ha honce hw h

/-- Is there a link at the location in one of the trees, and not the same in the other? -/
def linkMoved (before after : FileSystem) (l : Location) : Bool :=
  let isLink (n : Option Node) : Bool := n.any fun
    | .link _ => true
    | _ => false
  before.node? l != after.node? l && (isLink (before.node? l) || isLink (after.node? l))

/-- The tree afterwards without what stands where links came or went. -/
def steady (before after : FileSystem) : FileSystem :=
  { after with nodes := after.nodes.filter fun e => !linkMoved before after e.1 }

theorem lookup_filter_key {β : Type} (keep : Location → Bool) (es : List (Location × β))
    (l : Location) : (es.filter fun e => keep e.1).lookup l =
      if keep l then es.lookup l else none := by
  induction es with
  | nil => simp
  | cons e es ih =>
    obtain ⟨m, v⟩ := e
    by_cases hl : l = m
    · subst hl
      cases hk : keep l <;> simp [hk, ih]
    · have hb : (l == m) = false := by simp [hl]
      cases hk : keep m <;> simp [hk, ih, List.lookup_cons, hb]

theorem node?_steady (before after : FileSystem) (l : Location) :
    (steady before after).node? l = if linkMoved before after l then none else after.node? l := by
  unfold node? steady
  by_cases hl : l = []
  · subst hl
    simp [linkMoved, node?]
  · rw [if_neg hl, if_neg hl]
    simp only [lookup_filter_key fun l => !linkMoved before after l]
    cases linkMoved before after l <;> rfl

/-- What a tree has afterwards: its directories, and files or links in place of files and links. -/
structure Lasts (s t : FileSystem) : Prop where
  working : s.working = t.working
  dir : ∀ {l}, s.node? l = some .dir → t.node? l = some .dir
  other : ∀ {l n}, s.node? l = some n → n ≠ .dir → ∃ m, t.node? l = some m ∧ m ≠ .dir

theorem Lasts.refl (s : FileSystem) : Lasts s s := ⟨rfl, fun h => h, fun h hn => ⟨_, h, hn⟩⟩

theorem Lasts.trans {u : FileSystem} (h : Lasts s t) (k : Lasts t u) : Lasts s u := by
  refine ⟨h.working.trans k.working, fun hl => k.dir (h.dir hl), fun hl hn => ?_⟩
  obtain ⟨m, hm, hd⟩ := h.other hl hn
  exact k.other hm hd

/-- Before anything is done, the tree fits in what lasts of it. -/
theorem Lasts.fits (h : Lasts s t) (hstands : ∀ a ∈ acts, a.Stands (steady s t)) :
    Fits (steady s t) acts s := by
  have hnode := node?_steady s t
  refine ⟨⟨h.working, fun {l} hl => ?_, fun {l i} hl => ?_, fun {l target} hl => ?_,
    fun {l target} hl => ?_⟩, fun p data ha target hl => ?_⟩
  · -- Directories stay. Elsewhere the steady tree has what is there afterwards, unless a link came
    -- or went.
    left
    rw [hnode, h.dir hl]
    simp [linkMoved, hl, h.dir hl]
  · obtain ⟨m, hm, hd⟩ := h.other hl (by simp)
    rw [hnode, hm]
    cases m with
    | dir => exact absurd rfl hd
    | file j => exact .inr ⟨j, by simp [linkMoved, hl, hm]⟩
    | link target => exact .inl (by simp [linkMoved, hl, hm])
  · obtain ⟨m, hm, hd⟩ := h.other hl (by simp)
    rw [hnode, hm]
    by_cases hsame : m = .link target
    · exact .inl (by simp [linkMoved, hl, hm, hsame])
    · exact .inr (.inl (by simp [linkMoved, hl, hm, Ne.symm hsame]))
  · rw [hnode] at hl
    split at hl
    · cases hl
    · rename_i hmoved
      have hsame : s.node? l = t.node? l := by
        simpa [linkMoved, hl] using hmoved
      exact hsame.trans hl
  · obtain ⟨l', i, hlocate⟩ := hstands _ ha
    obtain ⟨b, d, hr⟩ := locate_ok hlocate
    rw [endOf_of_resolve hr] at hl
    have hl : s.node? l' = some (.link target) := hl
    have hfile : (steady s t).node? l' = some (.file i) :=
      (resolve_holds hr).resolve_left (by simp)
    rw [hnode] at hfile
    split at hfile
    · cases hfile
    · rename_i hmoved
      simp [linkMoved, hl, hfile] at hmoved

end FileSystem

end SharedRuntime
