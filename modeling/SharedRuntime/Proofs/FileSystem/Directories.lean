import SharedRuntime.Proofs.FileSystem.Confined

/-!
# Making directories

Where no link is on the way, making a path a directory with all above it adds directories on the
route of the path and nothing else (`makeDirAll_grown`). If it succeeds, the whole route consists of
directories (`makeDirAll_ok`).
-/

set_option autoImplicit false

namespace SharedRuntime

namespace Path

theorem mem_ancestorsAux {n : Nat} {p a : Path} (h : a ∈ ancestorsAux n p) :
    comps a <+: comps p ∧ isAbsolute a = isAbsolute p ∧ ∀ s ∈ names a, s ∈ names p := by
  induction n generalizing p with
  | zero =>
    rw [List.mem_singleton.1 h]
    exact ⟨List.prefix_rfl, rfl, fun _ hs => hs⟩
  | succ n ih =>
    unfold ancestorsAux at h
    split at h
    · rw [List.mem_singleton.1 h]
      exact ⟨List.prefix_rfl, rfl, fun _ hs => hs⟩
    · rename_i q hq
      rcases List.mem_cons.1 h with rfl | h
      · exact ⟨List.prefix_rfl, rfl, fun _ hs => hs⟩
      · obtain ⟨hcomps, habs⟩ := comps_parent? hq
        obtain ⟨h1, h2, h3⟩ := ih h
        rw [hcomps] at h1
        exact ⟨h1.trans (List.dropLast_prefix _), h2.trans habs,
          fun s hs => mem_names_parent? hq (h3 s hs)⟩

/-- What is above a path has the first of its names. -/
theorem mem_ancestors {p a : Path} (h : a ∈ ancestors p) :
    comps a <+: comps p ∧ isAbsolute a = isAbsolute p ∧ ∀ s ∈ names a, s ∈ names p :=
  mem_ancestorsAux h

theorem ancestors_eq_cons (p : Path) : ∃ above, ancestors p = p :: above := by
  unfold ancestors
  cases p.length with
  | zero => exact ⟨[], rfl⟩
  | succ n =>
    unfold ancestorsAux
    cases parent? p with
    | none => exact ⟨[], rfl⟩
    | some q => exact ⟨_, rfl⟩

end Path

namespace FileSystem

/-- The tree has some more directories, all of them at the given locations. -/
structure Grown (locs : List Location) (fs fs' : FileSystem) : Prop where
  node : ∀ l, fs'.node? l = fs.node? l ∨
    (l ∈ locs ∧ fs.node? l = none ∧ fs'.node? l = some .dir)
  contents : fs'.contents = fs.contents
  fresh : fs'.fresh = fs.fresh
  working : fs'.working = fs.working

variable {locs : List Location} {fs fs' : FileSystem} {p : Path}

theorem Grown.refl : Grown locs fs fs := ⟨fun _ => .inl rfl, rfl, rfl, rfl⟩

theorem Grown.dir (h : Grown locs fs fs') {l : Location} (hl : fs.node? l = some .dir) :
    fs'.node? l = some .dir := by
  rcases h.node l with hsame | ⟨-, -, hdir⟩
  · exact hsame.trans hl
  · exact hdir

theorem Grown.trans {t : FileSystem} (h : Grown locs fs t) (k : Grown locs t fs') :
    Grown locs fs fs' := by
  refine ⟨fun l => ?_, k.contents.trans h.contents, k.fresh.trans h.fresh,
    k.working.trans h.working⟩
  rcases h.node l with h1 | ⟨hin, hnone, hdir⟩
  · rcases k.node l with k1 | ⟨hin, hnone, hdir⟩
    · exact .inl (k1.trans h1)
    · exact .inr ⟨hin, h1.symm.trans hnone, hdir⟩
  · exact .inr ⟨hin, hnone, k.dir hdir⟩

theorem Grown.linkFree {ls : List Location} (h : Grown locs fs fs') (hf : LinkFree fs ls) :
    LinkFree fs' ls := by
  intro l hl target hlink
  rcases h.node l with hsame | ⟨-, -, hdir⟩
  · exact hf l hl target (hsame.symm.trans hlink)
  · rw [hdir] at hlink
    cases hlink

theorem Grown.start (h : Grown locs fs fs') (p : Path) : fs'.start p = fs.start p := by
  unfold FileSystem.start
  rw [h.working]

theorem Grown.direct (h : Grown locs fs fs') (hd : fs.Direct p) : fs'.Direct p := by
  unfold Direct routeOf
  rw [h.start]
  exact h.linkFree hd

/-- New directories are confined if they are inside, allowed or not new. -/
theorem Grown.within {base : Location} {made : List Location} (h : Grown locs fs fs')
    (hlocs : ∀ l ∈ locs, base <+: l ∨ l ∈ made ∨ fs.node? l = some .dir) :
    Within base made fs fs' := by
  intro hs
  have hfile : ∀ l id, fs'.node? l = some (.file id) → fs.node? l = some (.file id) := by
    intro l id hl
    rcases h.node l with hsame | ⟨-, -, hdir⟩
    · exact hsame.symm.trans hl
    · rw [hdir] at hl
      cases hl
  refine ⟨⟨fun l id hl => ?_, fun l m id hin h1 h2 => hs.apart l m id hin (hfile l id h1)
    (hfile m id h2), ?_⟩, ⟨fun l hl => ?_, fun l id _ _ => ?_, fun l hl => h.dir hl, h.working⟩⟩
  · rw [h.fresh]
    exact hs.fresh l id (hfile l id hl)
  · rw [h.working]
    exact hs.named
  · rcases h.node l with hsame | ⟨hin, hnone, hdir⟩
    · exact .inl hsame
    · rcases hlocs l hin with hb | hm | hd
      · exact absurd hb hl
      · exact .inr ⟨hm, hnone, hdir⟩
      · rw [hnone] at hd
        cases hd
  · unfold contentsOf
    rw [h.contents]

theorem route_prefix {dir : Location} {ns ms : List Bytes} (h : ns <+: ms) :
    ∀ l ∈ route dir ns, l ∈ route dir ms := by
  obtain ⟨rest, rfl⟩ := h
  intro l hl
  rw [route_append]
  exact List.mem_append_left _ hl

theorem routeOf_eq_comps (fs : FileSystem) (p : Path) :
    fs.routeOf p = route (fs.start p) (Path.comps p) :=
  (route_filter (fs.start p) (Path.names p)).symm

theorem routeOf_congr (h : fs'.working = fs.working) (p : Path) :
    fs'.routeOf p = fs.routeOf p ∧ fs'.routeEnd p = fs.routeEnd p := by
  unfold routeOf routeEnd FileSystem.start
  rw [h]
  exact ⟨rfl, rfl⟩

theorem start_congr (fs : FileSystem) {p q : Path} (h : Path.isAbsolute q = Path.isAbsolute p) :
    fs.start q = fs.start p := by
  unfold FileSystem.start
  rw [h]

/-- A path with the first of the names of another leads through the same locations. -/
theorem routeOf_of_comps {q : Path} (hcomps : Path.comps q <+: Path.comps p)
    (habs : Path.isAbsolute q = Path.isAbsolute p) : ∀ l ∈ fs.routeOf q, l ∈ fs.routeOf p := by
  rw [routeOf_eq_comps, routeOf_eq_comps, start_congr fs habs]
  exact route_prefix hcomps

theorem routeOf_ancestor {a : Path} (h : a ∈ p.ancestors) :
    ∀ l ∈ fs.routeOf a, l ∈ fs.routeOf p := by
  obtain ⟨hcomps, habs, -⟩ := Path.mem_ancestors h
  exact routeOf_of_comps hcomps habs

theorem makeDir_grown (hp : ∀ l ∈ fs.routeOf p, l ∈ locs) (hfree : LinkFree fs locs)
    (h : fs.makeDir p = .ok fs') :
    Grown locs fs fs' ∧ ∀ l ∈ fs.routeOf p, fs'.node? l = some .dir := by
  obtain ⟨dir, name, s, d, hr, rfl⟩ := makeDir_ok h
  have hd : fs.Direct p := fun l hl => hfree l (hp l hl)
  have hends := resolve_ends hd hr
  cases hends with
  | free heq hin hnone hbefore =>
    have hnode : ∀ l, (fs.insert (dir ++ [name]) .dir).node? l =
        if l = [] then some .dir else if l = dir ++ [name] then some .dir else fs.node? l :=
      fun l => node?_insert fs (dir ++ [name]) l .dir
    refine ⟨⟨fun l => ?_, rfl, rfl, rfl⟩, fun l hl => ?_⟩
    · rw [hnode]
      by_cases hnil : l = []
      · rw [if_pos hnil, hnil]
        exact .inl rfl
      · rw [if_neg hnil]
        by_cases hl : l = dir ++ [name]
        · rw [if_pos hl, hl]
          exact .inr ⟨hp _ hin, hnone, rfl⟩
        · rw [if_neg hl]
          exact .inl rfl
    · rw [hnode]
      rcases hbefore l hl with rfl | hdir
      · simp
      · split
        · rfl
        · split
          · rfl
          · exact hdir

theorem isDir_route (hd : fs.Direct p) (h : fs.isDir p = true) :
    ∀ l ∈ fs.routeOf p, fs.node? l = some .dir := by
  obtain ⟨loc, s, d, hr⟩ := isDir_ok h
  have hends := resolve_ends hd hr
  cases hends with
  | dots hall => exact hall
  | node hin hnode hall =>
    intro l hl
    rcases hall l hl with rfl | hdir
    · exact hnode
    · exact hdir

theorem makeDirs_grown {paths : List Path}
    (hpaths : ∀ a ∈ paths, ∀ l ∈ fs.routeOf a, l ∈ locs) (hfree : LinkFree fs locs) :
    Grown locs fs (fs.makeDirs paths).2 := by
  induction paths with
  | nil => exact .refl
  -- Those above are made first, which leaves the route to `a` as it was.
  | cons a above ih =>
    have ha := hpaths a List.mem_cons_self
    have hgrown := ih fun b hb => hpaths b (List.mem_cons_of_mem _ hb)
    unfold makeDirs
    split
    · exact .refl
    · cases hm : fs.makeDir a with
      | ok t => exact (makeDir_grown ha hfree hm).1
      | error f =>
        dsimp only
        split
        · split <;> exact .refl
        · cases hinner : fs.makeDirs above with
          | mk r t =>
            rw [hinner] at hgrown
            cases r with
            | error g => exact hgrown
            | ok u =>
              dsimp only
              cases hm' : t.makeDir a with
              | ok t' =>
                have hroute : ∀ l ∈ t.routeOf a, l ∈ locs := by
                  unfold routeOf
                  rw [hgrown.start]
                  exact ha
                exact hgrown.trans (makeDir_grown hroute (hgrown.linkFree hfree) hm').1
              | error g =>
                dsimp only
                split <;> exact hgrown

/-- Directories are made on the route of the path only. -/
theorem makeDirAll_grown (hd : fs.Direct p) :
    Grown (fs.routeOf p) fs (fs.makeDirAll p).2 :=
  makeDirs_grown (fun _ ha => routeOf_ancestor ha) hd

/-- A path that was made a directory leads through directories. -/
theorem makeDirAll_ok (hd : fs.Direct p) (h : fs.makeDirAll p = (.ok (), fs')) :
    ∀ l ∈ fs.routeOf p, fs'.node? l = some .dir := by
  have hall : ∀ a ∈ p.ancestors, ∀ l ∈ fs.routeOf a, l ∈ fs.routeOf p :=
    fun _ ha => routeOf_ancestor ha
  unfold makeDirAll at h
  obtain ⟨above, habove⟩ := Path.ancestors_eq_cons p
  rw [habove] at h hall
  unfold makeDirs at h
  split at h
  · rename_i hnil
    subst hnil
    intro l hl
    cases hl
  · -- The directory is made at once, was there, or is made after those above it.
    cases hm : fs.makeDir p with
    | ok t =>
      rw [hm] at h
      cases h
      exact (makeDir_grown (fun _ hl => hl) hd hm).2
    | error f =>
      rw [hm] at h
      dsimp only at h
      split at h
      · split at h
        · rename_i hdir
          cases h
          exact isDir_route hd hdir
        · cases h
      · have hgrown : Grown (fs.routeOf p) fs (fs.makeDirs above).2 :=
          makeDirs_grown (fun a ha => hall a (List.mem_cons_of_mem _ ha)) hd
        cases hinner : fs.makeDirs above with
        | mk r t =>
          rw [hinner] at h hgrown
          cases r with
          | error g => cases h
          | ok u =>
            have hroute : t.routeOf p = fs.routeOf p := by
              unfold routeOf
              rw [hgrown.start]
            dsimp only at h
            rw [← hroute]
            cases hm' : t.makeDir p with
            | ok t' =>
              rw [hm'] at h
              cases h
              exact (makeDir_grown (fun _ hl => hl) (hgrown.direct hd) hm').2
            | error g =>
              rw [hm'] at h
              dsimp only at h
              split at h
              · rename_i hdir
                cases h
                exact isDir_route (hgrown.direct hd) hdir
              · cases h

/-! ## Below a directory that links may lead to -/

theorem makeDir_of_locate {loc : Location} {node : Node} (h : fs.locate p = .ok (loc, node)) :
    fs.makeDir p = .error (.os .exists) := by
  obtain ⟨s, d, hr⟩ := locate_ok h
  have hnode : ∃ l n t b, fs.resolve .never p = .ok ⟨.node l n, t, b⟩ := by
    by_cases hlink : ∃ l target t b, fs.resolve .never p = .ok ⟨.node l (.link target), t, b⟩
    · obtain ⟨l, target, t, b, hl⟩ := hlink
      exact ⟨l, _, t, b, hl⟩
    · refine ⟨loc, node, s, d, ?_⟩
      rw [← hr]
      refine (resolve_always rfl fun l target t b hl => hlink ⟨l, target, t, b, hl⟩).symm
  obtain ⟨l, n, t, b, hl⟩ := hnode
  exact makeDir_exists hl

/-- What cannot be made, and not for want of its parent, changes nothing. -/
theorem makeDirs_of_makeDir {above : List Path} {f : IoFault} (h : fs.makeDir p = .error f)
    (hf : f.isMissing = false) : (fs.makeDirs (p :: above)).2 = fs := by
  unfold makeDirs
  split
  · rfl
  · rw [h]
    dsimp only
    rw [hf, if_pos Bool.not_false]
    split <;> rfl

/-- If the parent is there, only the last directory is made. -/
theorem within_makeDirAll {base : Location} {made : List Location} {parent : Path}
    (hparent : Path.parent? p = some parent) (hin : fs.LiesIn base parent)
    (hp : fs.LeadsInto base .never p) : Within base made fs (fs.makeDirAll p).2 := by
  obtain ⟨loc, node, hlocate, -⟩ := hin
  obtain ⟨above, habove⟩ : ∃ above, p.ancestors = p :: above ∧
      (above = [] ∨ ∃ rest, above = parent :: rest) := by
    unfold Path.ancestors
    cases p.length with
    | zero => exact ⟨[], rfl, .inl rfl⟩
    | succ n =>
      unfold Path.ancestorsAux
      rw [hparent]
      refine ⟨_, rfl, .inr ?_⟩
      cases n with
      | zero => exact ⟨[], rfl⟩
      | succ n =>
        unfold Path.ancestorsAux
        cases Path.parent? parent with
        | none => exact ⟨[], rfl⟩
        | some q => exact ⟨_, rfl⟩
  have habove' : (fs.makeDirs above).2 = fs := by
    rcases habove.2 with rfl | ⟨rest, rfl⟩
    · rfl
    · exact makeDirs_of_makeDir (makeDir_of_locate hlocate) rfl
  unfold makeDirAll
  rw [habove.1]
  unfold makeDirs
  split
  · exact .refl
  · cases hm : fs.makeDir p with
    | ok t => exact within_makeDir hp hm
    | error f =>
      dsimp only
      split
      · split <;> exact .refl
      · cases hinner : fs.makeDirs above with
        | mk r t =>
          rw [hinner] at habove'
          dsimp only at habove'
          subst habove'
          cases r with
          | error g => exact .refl
          | ok u =>
            dsimp only
            rw [hm]
            dsimp only
            split <;> exact .refl

/-- A path without names is never made. -/
theorem makeDirs_nameless {above : List Path} (hnames : Path.names p = []) :
    (fs.makeDirs (p :: above)).2 = fs := by
  by_cases hp : p = []
  · unfold makeDirs
    rw [if_pos hp]
  have hresolve : ∃ f, fs.makeDir p = .error f ∧ f.isMissing = false := by
    unfold makeDir resolve
    rw [hnames, if_neg hp]
    split
    · exact ⟨_, rfl, rfl⟩
    · split
      · exact ⟨_, rfl, rfl⟩
      · exact ⟨_, rfl, rfl⟩
  obtain ⟨f, hf, hmissing⟩ := hresolve
  exact makeDirs_of_makeDir hf hmissing

end FileSystem

end SharedRuntime
