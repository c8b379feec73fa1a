import SharedRuntime.Artifact.Unpacking
import SharedRuntime.Proofs.FileSystem.Directories

/-!
# Where the entries of an artifact go

The name of an entry that does not climb above its start leads, from the destination on and as long
as no link is met, through locations inside the destination only (`route_inside`). So do the
directory of a tarball and the file that a compressed entry becomes (`below_parent`,
`below_decompressedPath`).
-/

set_option autoImplicit false

namespace SharedRuntime

namespace Unpacking

open FileSystem SharedRuntime.Path

/-! ## Depth -/

theorem depth?_append {d k : Nat} {a b : List Step} (h : depth? d (a ++ b) = some k) :
    ∃ j, depth? d a = some j := by
  induction a generalizing d with
  | nil => exact ⟨d, rfl⟩
  | cons step a ih =>
    cases step with
    | root => cases h
    | current => exact ih h
    | parent =>
      cases d with
      | zero => cases h
      | succ d => exact ih h
    | name n => exact ih h

/-- The steps that names make. -/
def stepsOf (ns : List Bytes) : List Step := ns.filterMap (stepOf? false)

/-- The depth is that of the names; a dot at the start counts for nothing. -/
theorem depth?_steps {p : Path} (hp : isAbsolute p = false) (d : Nat) :
    depth? d (steps p) = depth? d (stepsOf (names p)) := by
  have hsegs : stepsOf (names p) = (segments p).filterMap (stepOf? false) := by
    unfold stepsOf
    rw [names_eq_segments, List.filterMap_filter]
    congr 1
    funext s
    by_cases hs : s = []
    · subst hs
      rfl
    · rw [if_pos (by simpa using hs)]
  rw [hsegs]
  unfold steps
  rw [hp, if_neg Bool.false_ne_true]
  cases segments p with
  | nil => rfl
  | cons s rest =>
    dsimp only
    rw [List.filterMap_cons]
    unfold stepOf?
    by_cases h1 : s = []
    · rw [if_pos h1, if_pos h1]
      rfl
    by_cases h2 : s = here
    · rw [if_neg h1, if_neg h1, if_pos h2, if_pos h2, if_pos rfl, if_neg Bool.false_ne_true]
      rfl
    · rw [if_neg h1, if_neg h1, if_neg h2, if_neg h2]
      split <;> rfl

/-- Names that never climb above their start stay inside. The induction goes from a location that is
as far inside as the names have come. -/
theorem route_inside {base xs : Location} {ns : List Bytes} {k : Nat} (hne : ∀ n ∈ ns, n ≠ [])
    (h : depth? xs.length (stepsOf ns) = some k) :
    (∀ l ∈ route (base ++ xs) ns, base <+: l) ∧
      ∃ ys, descend (base ++ xs) ns = base ++ ys := by
  induction ns generalizing xs with
  | nil => exact ⟨fun l hl => absurd hl List.not_mem_nil, xs, rfl⟩
  | cons n ns ih =>
    have hrest : ∀ m ∈ ns, m ≠ [] := fun m hm => hne m (List.mem_cons_of_mem _ hm)
    by_cases hh : n = here
    · subst hh
      rw [route_here, descend_here]
      exact ih hrest h
    by_cases hu : n = up
    · subst hu
      have hsteps : stepsOf (up :: ns) = .parent :: stepsOf ns := rfl
      rw [hsteps] at h
      rw [route_up, descend_up]
      -- Above the start there is no step up, for the depth would be lost.
      rcases List.eq_nil_or_concat xs with rfl | ⟨zs, z, rfl⟩
      · cases h
      · rw [List.concat_eq_append, List.length_append, List.length_singleton] at h
        rw [List.concat_eq_append, ← List.append_assoc, List.dropLast_concat]
        exact ih hrest h
    · have hsteps : stepsOf (n :: ns) = .name n :: stepsOf ns := by
        unfold stepsOf
        refine List.filterMap_cons_some ?_
        unfold stepOf?
        rw [if_neg (hne n List.mem_cons_self), if_neg hh, if_neg hu]
      rw [hsteps] at h
      have hlen : (xs ++ [n]).length = xs.length + 1 := by simp
      have h' : depth? (xs ++ [n]).length (stepsOf ns) = some k := by
        rw [hlen]
        exact h
      obtain ⟨hroute, ys, hys⟩ := ih hrest h'
      rw [← List.append_assoc] at hroute hys
      rw [route_cons _ _ hh hu, descend_cons _ _ hh hu]
      refine ⟨fun l hl => ?_, ys, hys⟩
      rcases List.mem_cons.1 hl with rfl | hl
      · rw [List.append_assoc]
        exact List.prefix_append base _
      · exact hroute l hl

/-! ## Enclosed names -/

/-- A relative path that stays at or below its start. -/
structure Enclosed (rel : Path) : Prop where
  relative : isAbsolute rel = false
  depth : ∃ k, depth? 0 (stepsOf (names rel)) = some k

theorem enclosed?_some {name : String} {rel : Path} (h : enclosed? name = some rel) :
    rel = Path.ofString name ∧ Enclosed rel := by
  unfold enclosed? at h
  dsimp only at h
  split at h
  · cases h
  · obtain ⟨k, hk, rfl⟩ := Option.map_eq_some_iff.1 h
    refine ⟨rfl, ?_⟩
    have hrel : isAbsolute (Path.ofString name) = false := by
      cases habs : isAbsolute (Path.ofString name) with
      | false => rfl
      | true =>
        unfold steps at hk
        rw [habs, if_pos rfl] at hk
        cases hk
    exact ⟨hrel, k, (depth?_steps hrel 0).symm.trans hk⟩

/-- The first of the names stay inside as well. -/
theorem Enclosed.inside {rel : Path} (h : Enclosed rel) (base : Location) {ns : List Bytes}
    (hns : ns <+: names rel) :
    (∀ l ∈ route base ns, base <+: l) ∧ ∃ ys, descend base ns = base ++ ys := by
  obtain ⟨k, hk⟩ := h.depth
  obtain ⟨ms, hms⟩ := hns
  have hsplit : stepsOf (names rel) = stepsOf ns ++ stepsOf ms := by
    rw [← hms]
    exact List.filterMap_append
  rw [hsplit] at hk
  obtain ⟨j, hj⟩ := depth?_append hk
  have hne : ∀ n ∈ ns, n ≠ [] := by
    intro n hn
    refine (mem_names (p := rel) ?_).1
    rw [← hms]
    exact List.mem_append_left _ hn
  have hinside : (∀ l ∈ route (base ++ []) ns, base <+: l) ∧
      ∃ ys, descend (base ++ []) ns = base ++ ys := route_inside hne hj
  rw [List.append_nil] at hinside
  exact hinside

/-! ## Paths below a destination -/

/-- Where no link is met, the path leads through the destination and then inside it. -/
def Below (fs : FileSystem) (dest q : Path) : Prop :=
  ∀ l ∈ fs.routeOf q, l ∈ fs.routeOf dest ∨ fs.routeEnd dest <+: l

variable {fs : FileSystem} {dest rel : Path}

theorem below_join (h : Enclosed rel) : Below fs dest (join dest rel) := by
  intro l hl
  unfold routeOf at hl
  rw [names_join h.relative, start_congr fs (isAbsolute_join h.relative), route_append] at hl
  rcases List.mem_append.1 hl with hl | hl
  · exact .inl hl
  · exact .inr ((h.inside _ List.prefix_rfl).1 l hl)

/-- An enclosed path that ends with a name, below the destination. What stands in front of the name
leads inside, so any other name there does too. -/
theorem join_split (fs : FileSystem) (dest : Path) {pre : Path} {n : Bytes}
    (h : Enclosed (pre ++ n)) (hpre : IsOpen pre) (hn : IsName n) :
    ∃ front, join dest (pre ++ n) = front ++ n ∧ IsOpen front ∧
      (∃ ys, fs.routeEnd front = fs.routeEnd dest ++ ys) ∧ Below fs dest front ∧
        ∀ s, s ≠ [] → slash ∉ s → Below fs dest (front ++ s) := by
  obtain ⟨top, hjoin, htop, hnames, habs⟩ := join_eq_append (p := dest) h.relative
  have hfront : names (top ++ pre) = names dest ++ names pre := by
    rw [names_append htop, hnames]
  have hprefix : names pre <+: names (pre ++ n) := by
    rw [names_append hpre]
    exact List.prefix_append _ _
  have hrel : isAbsolute pre = false :=
    (isAbsolute_append (isAbsolute_of_noSlash hn.noSlash)).symm.trans h.relative
  have hstart : fs.start (top ++ pre) = fs.start dest :=
    start_congr fs ((isAbsolute_append hrel).trans habs)
  obtain ⟨hroute, ys, hys⟩ := h.inside (fs.routeEnd dest) hprefix
  have hend : fs.routeEnd (top ++ pre) = fs.routeEnd dest ++ ys := by
    rw [← hys]
    unfold routeEnd
    rw [hfront, hstart, descend_append]
  have hbelow : Below fs dest (top ++ pre) := by
    intro l hl
    unfold routeOf at hl
    rw [hfront, hstart, route_append] at hl
    rcases List.mem_append.1 hl with hl | hl
    · exact .inl hl
    · exact .inr (hroute l hl)
  refine ⟨top ++ pre, by rw [hjoin, List.append_assoc], htop.append hpre, ⟨ys, hend⟩, hbelow,
    fun s hne hs l hl => ?_⟩
  have hopen : IsOpen (top ++ pre) := htop.append hpre
  unfold routeOf at hl
  rw [names_append hopen, names_of_noSlash hne hs,
    start_congr fs (isAbsolute_append (isAbsolute_of_noSlash hs)), route_append] at hl
  rcases List.mem_append.1 hl with hl | hl
  · exact hbelow l hl
  · right
    have hlast : l = fs.routeEnd (top ++ pre) ++ [s] := by
      unfold route at hl
      split at hl
      · cases hl
      · split at hl
        · cases hl
        · exact List.mem_singleton.1 hl
    rw [hlast, hend, List.append_assoc]
    exact List.prefix_append _ _

/-- A name with an ending, cut at its last slash. -/
theorem ending_split {ending name : String} (h : hasEnding ending name = true)
    (hslash : slash ∉ Bytes.ofString ending) (hlen : 2 < (Bytes.ofString ending).length) :
    ∃ pre s, Path.ofString name = pre ++ (s ++ Bytes.ofString ending) ∧ IsOpen pre ∧ slash ∉ s ∧
      IsName (s ++ Bytes.ofString ending) := by
  obtain ⟨cs, hcs⟩ := List.isSuffixOf_iff_suffix.1 h
  have hname : name = String.ofList cs ++ ending := by
    rw [← String.ofList_toList (s := name), ← hcs, String.ofList_append, String.ofList_toList]
  obtain ⟨pre, s, hsplit, hpre, hs⟩ := exists_lastSegment (Bytes.ofString (String.ofList cs))
  refine ⟨pre, s, ?_, hpre, hs, isName_append hs hslash hlen⟩
  unfold Path.ofString
  rw [hname, Bytes.ofString_append, hsplit, List.append_assoc]

/-- The directory that a tarball goes to. -/
theorem below_parent {name : String} (h : Enclosed (Path.ofString name))
    (ht : isTarball name = true) {p : Path} (hp : p = join dest (Path.ofString name)) :
    Below fs dest ((parent? p).getD p) ∧
      ∃ ys, fs.routeEnd ((parent? p).getD p) = fs.routeEnd dest ++ ys := by
  have hlast : ∃ pre n, Path.ofString name = pre ++ n ∧ IsOpen pre ∧ IsName n := by
    unfold isTarball at ht
    rcases Bool.or_eq_true_iff.1 ht with ht | ht
    · obtain ⟨pre, s, hsplit, hpre, -, hn⟩ := ending_split ht (by decide) (by decide)
      exact ⟨pre, _, hsplit, hpre, hn⟩
    · obtain ⟨pre, s, hsplit, hpre, -, hn⟩ := ending_split ht (by decide) (by decide)
      exact ⟨pre, _, hsplit, hpre, hn⟩
  obtain ⟨pre, n, hsplit, hpre, hn⟩ := hlast
  rw [hsplit] at h hp
  obtain ⟨front, hjoin, hfront, hend, hbelow, -⟩ := join_split fs dest h hpre hn
  rw [hjoin] at hp
  subst hp
  -- The parent is a text of its own; what it shares with the part in front is where its names lead.
  have hcomps : comps (front ++ n) = comps front ++ [n] := by
    unfold comps
    rw [names_append hfront, hn.names_eq, List.filter_append]
    congr 1
    exact List.filter_eq_self.2 fun s hs => by
      rw [List.mem_singleton.1 hs]
      simpa using hn.ne_here
  cases hq : parent? (front ++ n) with
  | none =>
    have hnil := comps_of_parent?_none hq
    rw [hcomps] at hnil
    simp at hnil
  | some q =>
    obtain ⟨hcq, habs⟩ := comps_parent? hq
    rw [hcomps, List.dropLast_concat] at hcq
    rw [isAbsolute_append (isAbsolute_of_noSlash hn.noSlash)] at habs
    have hstart := start_congr fs habs
    refine ⟨fun l hl => ?_, ?_⟩
    · exact hbelow l (routeOf_of_comps (hcq ▸ List.prefix_rfl) habs l hl)
    · have hends : fs.routeEnd q = fs.routeEnd front := by
        unfold routeEnd
        rw [← descend_filter (fs.start q), ← descend_filter (fs.start front), hstart]
        exact congrArg _ hcq
      show ∃ ys, fs.routeEnd q = _
      rw [hends]
      exact hend

/-- The file that a compressed entry becomes. -/
theorem below_decompressedPath {name : String} (h : Enclosed (Path.ofString name)) :
    Below fs dest (decompressedPath name (join dest (Path.ofString name))) := by
  unfold decompressedPath
  split
  · rename_i hgz
    obtain ⟨pre, s, hsplit, hpre, hs, hn⟩ := ending_split hgz (by decide) (by decide)
    rw [hsplit] at h ⊢
    obtain ⟨front, hjoin, hfront, -, -, hsibling⟩ :=
      join_split fs dest h hpre hn
    rw [hjoin]
    have hgz : Bytes.ofString ".gz" = fullStop :: [0x67, 0x7A] := by decide
    rw [hgz] at hn ⊢
    by_cases hnil : s = []
    · subst hnil
      rw [List.nil_append] at hn ⊢
      rw [withExtension_dot hfront hn (by decide), if_pos rfl, List.append_nil]
      exact hsibling _ hn.ne_nil hn.noSlash
    · rw [withExtension_append hfront hn hnil (by decide)]
      split
      · exact hsibling up (by decide) (by decide)
      · rw [if_pos rfl, List.append_nil]
        exact hsibling s hnil hs
  · exact below_join h

end Unpacking

end SharedRuntime
