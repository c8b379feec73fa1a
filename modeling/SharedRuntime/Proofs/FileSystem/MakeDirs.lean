import SharedRuntime.Proofs.FileSystem.Directories

/-!
# Directories that links may lead to

A path that leads anywhere passes by all paths above it (`locate_ancestors`), whatever links are on
the way. Making a path a directory makes some of the paths above it directories, one after the
other, and afterwards the path leads to a directory (`makeDirAll_makes`).
-/

set_option autoImplicit false

namespace SharedRuntime

namespace Path

/-- The first segments make the start of a path. -/
theorem ofSegments_prefix (absolute : Bool) {segs segs' : List Bytes} (h : segs <+: segs') :
    ofSegments absolute segs <+: ofSegments absolute segs' := by
  have hbody : List.intercalate [slash] segs <+: List.intercalate [slash] segs' := by
    obtain ⟨rest, rfl⟩ := h
    induction segs with
    | nil => exact List.nil_prefix
    | cons s segs ih =>
      cases segs with
      | nil =>
        cases rest with
        | nil => exact List.prefix_rfl
        | cons r rest =>
          rw [List.intercalate_singleton, List.singleton_append, List.intercalate_cons_cons,
            List.append_assoc]
          exact List.prefix_append _ _
      | cons s' segs =>
        rw [List.cons_append, List.cons_append, List.intercalate_cons_cons,
          List.intercalate_cons_cons]
        exact (List.prefix_append_right_inj _).2 ih
  unfold ofSegments
  cases absolute with
  | true => exact List.cons_prefix_cons.2 ⟨rfl, hbody⟩
  | false => exact hbody

/-- The parent is the start of the path, and has at least one name less. -/
theorem parent?_prefix {p q : Path} (h : parent? p = some q) :
    q <+: p ∧ ∃ ns, ns ≠ [] ∧ names p = names q ++ ns := by
  obtain ⟨init, s, dropped, -, hs, hsegs, rfl, hmem⟩ := parent?_some h
  obtain ⟨more, hinit, -, -⟩ := dropTrivialEnd_spec (!isAbsolute p) init
  generalize dropTrivialEnd (!isAbsolute p) init = kept at hinit hmem ⊢
  have hsegs' : segments p = kept ++ (more ++ s :: dropped) := by
    rw [hsegs, hinit]
    simp
  refine ⟨?_, (more ++ s :: dropped).filter (· != []), ?_, ?_⟩
  · have hpre := ofSegments_prefix (isAbsolute p) (hsegs' ▸ List.prefix_append kept _)
    rwa [ofSegments_segments] at hpre
  · have hne : s ≠ [] := by
      rintro rfl
      cases hs
    simp [hne]
  · rw [names_ofSegments fun x hx => notMem_of_mem_segments (hmem x hx), names_eq_segments, hsegs',
      List.filter_append]

theorem length_parent? {p q : Path} (h : parent? p = some q) : q.length < p.length := by
  obtain ⟨hpre, ns, hns, hnames⟩ := parent?_prefix h
  refine Nat.lt_of_le_of_ne hpre.length_le fun hlen => ?_
  rw [hpre.eq_of_length hlen] at hnames
  exact hns (List.append_right_eq_self.1 hnames.symm)

/-- Enough fuel gives all that is above. -/
theorem ancestorsAux_subset {n m : Nat} {p : Path} (hm : p.length ≤ m) :
    ∀ a ∈ ancestorsAux n p, a ∈ ancestorsAux m p := by
  have hself : ∀ k q, q ∈ ancestorsAux k q := by
    intro k q
    cases k with
    | zero => exact List.mem_singleton_self q
    | succ k =>
      rw [ancestorsAux]
      cases parent? q <;> exact List.mem_cons_self
  induction n generalizing p m with
  | zero =>
    intro a ha
    rw [List.mem_singleton.1 ha]
    exact hself m p
  | succ n ih =>
    intro a ha
    unfold ancestorsAux at ha
    cases hq : parent? p with
    | none =>
      rw [hq] at ha
      rw [List.mem_singleton.1 ha]
      exact hself m p
    | some q =>
      rw [hq] at ha
      rcases List.mem_cons.1 ha with rfl | ha
      · exact hself m a
      have hlength := length_parent? hq
      cases m with
      | zero => omega
      | succ m =>
        unfold ancestorsAux
        rw [hq]
        exact List.mem_cons_of_mem _ (ih (by omega) a ha)

/-- What is above a path that is above another is above that. -/
theorem ancestors_trans {p a b : Path} (ha : a ∈ p.ancestors) (hb : b ∈ a.ancestors) :
    b ∈ p.ancestors := by
  have haux : ∀ n p, p.length ≤ n → a ∈ ancestorsAux n p → b ∈ ancestorsAux n p := by
    intro n
    induction n with
    | zero =>
      intro p hp h
      obtain rfl := List.mem_singleton.1 h
      exact ancestorsAux_subset hp b hb
    | succ n ih =>
      intro p hp h
      unfold ancestorsAux at h
      cases hq : parent? p with
      | none =>
        rw [hq] at h
        obtain rfl := List.mem_singleton.1 h
        exact ancestorsAux_subset hp b hb
      | some q =>
        rw [hq] at h
        rcases List.mem_cons.1 h with rfl | h
        · exact ancestorsAux_subset hp b hb
        have hlength := length_parent? hq
        unfold ancestorsAux
        rw [hq]
        exact List.mem_cons_of_mem _ (ih q (by omega) h)
  exact haux p.length p (Nat.le_refl _) ha

end Path

namespace FileSystem

variable {fs s t u : FileSystem} {p : Path} {ps : List Path}

/-! ## Above a path that leads somewhere -/

/-- A path that ends anywhere passes by its parent, which leads to a directory. -/
theorem locate_parent {follow : Follow} {q : Path} {w : Walked}
    (hq : Path.parent? p = some q) (hne : q ≠ []) (h : fs.resolve follow p = .ok w) :
    ∃ loc, fs.locate q = .ok (loc, .dir) := by
  obtain ⟨hpre, ns, hns, hnames⟩ := Path.parent?_prefix hq
  obtain ⟨-, habs⟩ := Path.comps_parent? hq
  have hwalk := resolve_eq h
  rw [hnames] at hwalk
  obtain ⟨links, loc, hparent, -⟩ := walk_append hns hwalk
  obtain ⟨b, d, hparent⟩ := hparent (q.getLast? == some Path.slash)
  rw [start_congr fs habs.symm] at hparent
  have husable := (resolve_ok_iff.1 h).1
  have hlength := hpre.length_le
  have hresolve : fs.resolve .always q = .ok ⟨.node loc .dir, b, d⟩ := by
    refine resolve_ok_iff.2 ⟨⟨fun hz => husable.noNul (hpre.subset hz), hne, ?_⟩, hparent⟩
    exact Nat.lt_of_le_of_lt hlength husable.short
  unfold locate
  rw [hresolve]
  exact ⟨loc, by simp [bind, Except.bind, Node.isDir]⟩

/-- All paths above one that leads somewhere lead somewhere. -/
theorem locate_ancestors {a : Path} {found : Location × Node} (h : fs.locate p = .ok found)
    (ha : a ∈ p.ancestors) (hne : a ≠ []) : ∃ found, fs.locate a = .ok found := by
  unfold Path.ancestors at ha
  generalize p.length = n at ha
  induction n generalizing p found with
  | zero =>
    rw [List.mem_singleton.1 ha]
    exact ⟨found, h⟩
  | succ n ih =>
    unfold Path.ancestorsAux at ha
    split at ha
    · rw [List.mem_singleton.1 ha]
      exact ⟨found, h⟩
    · rename_i q hq
      rcases List.mem_cons.1 ha with rfl | ha
      · exact ⟨found, h⟩
      by_cases hnil : q = []
      · subst hnil
        have hall : ∀ n, Path.ancestorsAux n [] = [[]] := by
          intro n
          cases n <;> rfl
        rw [hall] at ha
        exact absurd (List.mem_singleton.1 ha) hne
      · obtain ⟨b, d, hr⟩ := locate_ok h
        obtain ⟨loc, hloc⟩ := locate_parent hq hnil hr
        exact ih hloc ha

/-! ## Making directories -/

/-- A directory that was just made is found. -/
theorem locate_makeDir (h : fs.makeDir p = .ok t) : ∃ loc, t.locate p = .ok (loc, .dir) := by
  obtain ⟨dir, name, b, d, hr, rfl⟩ := makeDir_ok h
  have hmade := resolve_filled hr (sameBut_insert fs _ .dir) (node?_insert_self fs .dir (by simp))
    (.inl rfl)
  have hfilled := resolve_always hmade fun _ _ _ _ he => by cases he
  unfold locate
  rw [hfilled]
  exact ⟨dir ++ [name], by simp [bind, Except.bind, Node.isDir]⟩

theorem locate_of_isDir (h : fs.isDir p = true) : ∃ loc, fs.locate p = .ok (loc, .dir) := by
  unfold isDir at h
  split at h
  · rename_i loc node hl
    cases node with
    | dir => exact ⟨loc, hl⟩
    | file id => cases h
    | link target => cases h
  · cases h

/-- Directories are made at some of the paths, one after the other. -/
inductive Makes (ps : List Path) : FileSystem → FileSystem → Prop
  | none {s : FileSystem} : Makes ps s s
  | one {s t u : FileSystem} {p : Path} : Makes ps s t → p ∈ ps → t.makeDir p = .ok u → Makes ps s u

theorem Makes.trans (h : Makes ps s t) (k : Makes ps t u) : Makes ps s u := by
  induction k with
  | none => exact h
  | one _ hp hmake ih => exact .one ih hp hmake

theorem Makes.mono {qs : List Path} (h : Makes ps s t) (hsub : ∀ p ∈ ps, p ∈ qs) :
    Makes qs s t := by
  induction h with
  | none => exact .none
  | one _ hp hmake ih => exact .one ih (hsub _ hp) hmake

theorem makeDirs_makes (h : fs.makeDirs ps = (.ok (), t)) : Makes ps fs t := by
  -- On the paths above. At most two calls make a directory here, before and after those.
  induction ps generalizing t with
  | nil => cases h
  | cons p above ih =>
    unfold makeDirs at h
    split at h
    · cases h
      exact .none
    cases hm : fs.makeDir p with
    | ok fs' =>
      rw [hm] at h
      cases h
      exact .one .none List.mem_cons_self hm
    | error f =>
      rw [hm] at h
      dsimp only at h
      split at h
      · split at h <;> cases h
        exact .none
      cases hinner : fs.makeDirs above with
      | mk r v =>
        rw [hinner] at h
        cases r with
        | error g => cases h
        | ok x =>
          have hmade : Makes (p :: above) fs v :=
            (ih hinner).mono fun q hq => List.mem_cons_of_mem _ hq
          dsimp only at h
          cases hm' : v.makeDir p with
          | ok v' =>
            rw [hm'] at h
            cases h
            exact .one hmade List.mem_cons_self hm'
          | error g =>
            rw [hm'] at h
            dsimp only at h
            split at h <;> cases h
            exact hmade

theorem makeDirs_leads {above : List Path} (h : fs.makeDirs (p :: above) = (.ok (), t)) :
    p = [] ∨ ∃ loc, t.locate p = .ok (loc, .dir) := by
  unfold makeDirs at h
  split at h
  · rename_i hnil
    exact .inl hnil
  right
  cases hm : fs.makeDir p with
  | ok fs' =>
    rw [hm] at h
    cases h
    exact locate_makeDir hm
  | error f =>
    rw [hm] at h
    dsimp only at h
    split at h
    · split at h
      · rename_i hdir
        cases h
        exact locate_of_isDir hdir
      · cases h
    cases hinner : fs.makeDirs above with
    | mk r v =>
      rw [hinner] at h
      cases r with
      | error g => cases h
      | ok x =>
        dsimp only at h
        cases hm' : v.makeDir p with
        | ok v' =>
          rw [hm'] at h
          cases h
          exact locate_makeDir hm'
        | error g =>
          rw [hm'] at h
          dsimp only at h
          split at h
          · rename_i hdir
            cases h
            exact locate_of_isDir hdir
          · cases h

/-- Making a path a directory makes directories at the path and above it, until it leads to one. -/
theorem makeDirAll_makes (h : fs.makeDirAll p = (.ok (), t)) :
    Makes p.ancestors fs t ∧ (p = [] ∨ ∃ loc, t.locate p = .ok (loc, .dir)) := by
  obtain ⟨above, habove⟩ := Path.ancestors_eq_cons p
  unfold makeDirAll at h
  rw [habove] at h ⊢
  exact ⟨makeDirs_makes h, makeDirs_leads h⟩

end FileSystem

end SharedRuntime
