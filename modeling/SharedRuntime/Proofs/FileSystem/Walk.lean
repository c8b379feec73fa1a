import SharedRuntime.FileSystem.Operations
import SharedRuntime.Proofs.FileSystem.Path

/-!
# Facts about walks

`route` lists the locations that names lead through if no link is met, and `resolve_ends` says where
such a walk ends. What holds of all walks is proved by `walk_induct`; what holds of those that end
somewhere, by induction on `Walks`. So the walk to a path passes by its parent (`walk_append`), a
walk that reaches a node reaches it in every tree that has as much (`walk_mono`), and a walk that
does not end at a link ends the same if a link there is followed (`walk_always`).
-/

set_option autoImplicit false

namespace SharedRuntime.FileSystem

/-! ## Walks that meet no link -/

/-- Where names lead from a directory if no link is met. -/
def descend : Location → List Bytes → Location
  | dir, [] => dir
  | dir, n :: ns =>
    if n = Path.here then descend dir ns
    else if n = Path.up then descend dir.dropLast ns
    else descend (dir ++ [n]) ns

/-- The locations that names lead through if no link is met. -/
def route : Location → List Bytes → List Location
  | _, [] => []
  | dir, n :: ns =>
    if n = Path.here then route dir ns
    else if n = Path.up then route dir.dropLast ns
    else (dir ++ [n]) :: route (dir ++ [n]) ns

/-- None of the locations holds a link. -/
def LinkFree (fs : FileSystem) (locs : List Location) : Prop :=
  ∀ l ∈ locs, ∀ target, fs.node? l ≠ some (.link target)

section
variable (dir : Location) (ns ms : List Bytes)

theorem descend_here : descend dir (Path.here :: ns) = descend dir ns := by
  rw [descend, if_pos rfl]

theorem descend_up : descend dir (Path.up :: ns) = descend dir.dropLast ns := by
  rw [descend, if_neg (by decide), if_pos rfl]

theorem descend_cons {n : Bytes} (hh : n ≠ Path.here) (hu : n ≠ Path.up) :
    descend dir (n :: ns) = descend (dir ++ [n]) ns := by
  rw [descend, if_neg hh, if_neg hu]

theorem route_here : route dir (Path.here :: ns) = route dir ns := by
  rw [route, if_pos rfl]

theorem route_up : route dir (Path.up :: ns) = route dir.dropLast ns := by
  rw [route, if_neg (by decide), if_pos rfl]

theorem route_cons {n : Bytes} (hh : n ≠ Path.here) (hu : n ≠ Path.up) :
    route dir (n :: ns) = (dir ++ [n]) :: route (dir ++ [n]) ns := by
  rw [route, if_neg hh, if_neg hu]

theorem descend_append : descend dir (ns ++ ms) = descend (descend dir ns) ms := by
  induction ns generalizing dir with
  | nil => rfl
  | cons n ns ih =>
    rw [List.cons_append]
    by_cases hh : n = Path.here
    · rw [hh, descend_here, descend_here, ih]
    · by_cases hu : n = Path.up
      · rw [hu, descend_up, descend_up, ih]
      · rw [descend_cons _ _ hh hu, descend_cons _ _ hh hu, ih]

theorem route_append : route dir (ns ++ ms) = route dir ns ++ route (descend dir ns) ms := by
  induction ns generalizing dir with
  | nil => rfl
  | cons n ns ih =>
    rw [List.cons_append]
    by_cases hh : n = Path.here
    · rw [hh, route_here, route_here, descend_here, ih]
    · by_cases hu : n = Path.up
      · rw [hu, route_up, route_up, descend_up, ih]
      · rw [route_cons _ _ hh hu, route_cons _ _ hh hu, descend_cons _ _ hh hu, ih,
          List.cons_append]

/-- Single dots lead nowhere. -/
theorem descend_filter : descend dir (ns.filter (· != Path.here)) = descend dir ns := by
  induction ns generalizing dir with
  | nil => rfl
  | cons n ns ih =>
    by_cases hh : n = Path.here
    · rw [List.filter_cons_of_neg (by simpa using hh), ih, hh, descend_here]
    · rw [List.filter_cons_of_pos (by simpa using hh)]
      by_cases hu : n = Path.up
      · rw [hu, descend_up, descend_up, ih]
      · rw [descend_cons _ _ hh hu, descend_cons _ _ hh hu, ih]

theorem route_filter : route dir (ns.filter (· != Path.here)) = route dir ns := by
  induction ns generalizing dir with
  | nil => rfl
  | cons n ns ih =>
    by_cases hh : n = Path.here
    · rw [List.filter_cons_of_neg (by simpa using hh), ih, hh, route_here]
    · rw [List.filter_cons_of_pos (by simpa using hh)]
      by_cases hu : n = Path.up
      · rw [hu, route_up, route_up, ih]
      · rw [route_cons _ _ hh hu, route_cons _ _ hh hu, ih]

end

/-- The end of a walk that meets no link. All before the end are directories. -/
inductive Ends (fs : FileSystem) (dir : Location) (ns : List Bytes) (slash : Bool) : Walked → Prop
  | dots : (∀ l ∈ route dir ns, fs.node? l = some .dir) →
      Ends fs dir ns slash ⟨.node (descend dir ns) .dir, slash, true⟩
  | node {node : Node} : descend dir ns ∈ route dir ns → fs.node? (descend dir ns) = some node →
      (∀ l ∈ route dir ns, l = descend dir ns ∨ fs.node? l = some .dir) →
      Ends fs dir ns slash ⟨.node (descend dir ns) node, slash, false⟩
  | free {d : Location} {n : Bytes} : d ++ [n] = descend dir ns → d ++ [n] ∈ route dir ns →
      fs.node? (d ++ [n]) = none →
      (∀ l ∈ route dir ns, l = d ++ [n] ∨ fs.node? l = some .dir) →
      Ends fs dir ns slash ⟨.free d n, slash, false⟩

variable {fs : FileSystem} {follow : Follow} {jump : Jump} {dir : Location} {ns : List Bytes}
  {slash : Bool} {w : Walked}

/-- One name further. -/
theorem Ends.cons {n : Bytes} (hh : n ≠ Path.here) (hu : n ≠ Path.up)
    (hd : fs.node? (dir ++ [n]) = some .dir) (h : Ends fs (dir ++ [n]) ns slash w) :
    Ends fs dir (n :: ns) slash w := by
  have hdesc := descend_cons dir ns hh hu
  have hroute := route_cons dir ns hh hu
  have hall : ∀ {P : Location → Prop}, (∀ l ∈ route (dir ++ [n]) ns, P l ∨ fs.node? l = some .dir) →
      ∀ l ∈ route dir (n :: ns), P l ∨ fs.node? l = some .dir := by
    intro P h l hl
    rw [hroute] at hl
    rcases List.mem_cons.1 hl with rfl | hl
    · exact .inr hd
    · exact h l hl
  cases h with
  | dots h =>
    rw [← hdesc]
    refine .dots fun l hl => ?_
    rw [hroute] at hl
    rcases List.mem_cons.1 hl with rfl | hl
    · exact hd
    · exact h l hl
  | node hin hnode h =>
    rw [← hdesc]
    refine .node ?_ (by rw [hdesc]; exact hnode) (hall fun l hl => by rw [hdesc]; exact h l hl)
    rw [hroute, hdesc]
    exact List.mem_cons_of_mem _ hin
  | free heq hin hnode h =>
    refine .free (heq.trans hdesc.symm) ?_ hnode (hall h)
    rw [hroute]
    exact List.mem_cons_of_mem _ hin

/-- A walk ends the same when a name leads nowhere new. -/
theorem Ends.congr {dir' : Location} {ns' : List Bytes} (hd : descend dir' ns' = descend dir ns)
    (hr : route dir' ns' = route dir ns) (h : Ends fs dir ns slash w) :
    Ends fs dir' ns' slash w := by
  cases h with
  | dots h1 =>
    rw [← hd]
    exact .dots (hr ▸ h1)
  | node h1 h2 h3 =>
    rw [← hd]
    exact .node (hr ▸ hd ▸ h1) (hd ▸ h2) (hr ▸ hd ▸ h3)
  | free h1 h2 h3 h4 => exact .free (h1.trans hd.symm) (hr ▸ h2) h3 (hr ▸ h4)

/-- The last name. -/
theorem Ends.last {n : Bytes} {node : Node} (hh : n ≠ Path.here) (hu : n ≠ Path.up)
    (hnode : fs.node? (dir ++ [n]) = some node) :
    Ends fs dir [n] slash ⟨.node (dir ++ [n]) node, slash, false⟩ := by
  have hd : descend dir [n] = dir ++ [n] := descend_cons dir [] hh hu
  have hr : route dir [n] = [dir ++ [n]] := route_cons dir [] hh hu
  rw [← hd] at hnode ⊢
  refine .node ?_ hnode fun l hl => ?_
  · rw [hr, hd]
    exact List.mem_singleton_self _
  · rw [hr] at hl
    rw [hd]
    exact .inl (List.mem_singleton.1 hl)

theorem Ends.last_free {n : Bytes} (hh : n ≠ Path.here) (hu : n ≠ Path.up)
    (hnode : fs.node? (dir ++ [n]) = none) :
    Ends fs dir [n] slash ⟨.free dir n, slash, false⟩ := by
  have hd : descend dir [n] = dir ++ [n] := descend_cons dir [] hh hu
  have hr : route dir [n] = [dir ++ [n]] := route_cons dir [] hh hu
  refine .free hd.symm ?_ hnode fun l hl => ?_
  · rw [hr]
    exact List.mem_singleton_self _
  · rw [hr] at hl
    exact .inl (List.mem_singleton.1 hl)

/-! ## One name of a walk -/

/-- A name that a walk looks up. -/
structure Sought (n : Bytes) : Prop where
  ne_here : n ≠ Path.here
  ne_up : n ≠ Path.up
  short : ¬ nameLimit < n.length

/-- What a walk meets at a name. -/
inductive Met (fs : FileSystem) (dir : Location) (n : Bytes) : Prop
  | here : n = Path.here → Met fs dir n
  | up : n = Path.up → Met fs dir n
  | long : n ≠ Path.here → n ≠ Path.up → nameLimit < n.length → Met fs dir n
  | free : Sought n → fs.node? (dir ++ [n]) = none → Met fs dir n
  | dir : Sought n → fs.node? (dir ++ [n]) = some .dir → Met fs dir n
  | file {id : Nat} : Sought n → fs.node? (dir ++ [n]) = some (.file id) → Met fs dir n
  | link {target : Path} : Sought n → fs.node? (dir ++ [n]) = some (.link target) → Met fs dir n

theorem met (fs : FileSystem) (dir : Location) (n : Bytes) : Met fs dir n := by
  by_cases hh : n = Path.here
  · exact .here hh
  by_cases hu : n = Path.up
  · exact .up hu
  by_cases hl : nameLimit < n.length
  · exact .long hh hu hl
  have hn : Sought n := ⟨hh, hu, hl⟩
  cases hnode : fs.node? (dir ++ [n]) with
  | none => exact .free hn hnode
  | some node =>
    cases node with
    | dir => exact .dir hn hnode
    | file id => exact .file hn hnode
    | link target => exact .link hn hnode

/-- Does a walk end at a link that it meets before the names that remain? -/
def Follow.stopsAt (follow : Follow) (rest : List Bytes) (slash : Bool) : Bool :=
  rest = [] && (follow == .never || (follow == .beforeSlash && !slash))

section
variable {rest : List Bytes}

theorem Follow.stopsAt_always : Follow.always.stopsAt rest slash = false := by
  simp [Follow.stopsAt]

theorem Follow.stopsAt_never : Follow.never.stopsAt [] slash = true := rfl

theorem Follow.eq_nil_of_stopsAt (h : follow.stopsAt rest slash = true) : rest = [] := by
  rcases Bool.and_eq_true_iff.1 h with ⟨hrest, -⟩
  exact of_decide_eq_true hrest

theorem Follow.stopsAt_cons (h : rest ≠ []) : follow.stopsAt rest slash = false :=
  Bool.eq_false_iff.2 fun hstop => h (eq_nil_of_stopsAt hstop)

end

/-- The jumps of a walk that may follow some links. -/
def jumps (fs : FileSystem) (follow : Follow) : Nat → Jump
  | 0 => fun _ _ _ => .error (.os .linkLoop)
  | links + 1 => walk fs follow links

theorem walk_eq (links : Nat) :
    walk fs follow links = walkNames fs follow (jumps fs follow links) := by
  cases links <;> rfl

section
variable (fs : FileSystem) (follow : Follow) (links : Nat) (dir : Location) (rest : List Bytes)
  (slash : Bool)

theorem walk_nil : walk fs follow links dir [] slash = .ok ⟨.node dir .dir, slash, true⟩ := by
  rw [walk_eq, walkNames]

theorem walk_here : walk fs follow links dir (Path.here :: rest) slash =
    walk fs follow links dir rest slash := by
  rw [walk_eq, walkNames, if_pos rfl]

theorem walk_up : walk fs follow links dir (Path.up :: rest) slash =
    walk fs follow links dir.dropLast rest slash := by
  rw [walk_eq, walkNames, if_neg (by decide), if_pos rfl]

variable {n : Bytes}

theorem walk_long (hh : n ≠ Path.here) (hu : n ≠ Path.up) (hl : nameLimit < n.length) :
    walk fs follow links dir (n :: rest) slash = .error (.os .nameTooLong) := by
  rw [walk_eq, walkNames, if_neg hh, if_neg hu, if_pos hl]

variable (h : Sought n)
include h

theorem walk_free (hn : fs.node? (dir ++ [n]) = none) :
    walk fs follow links dir (n :: rest) slash =
      if rest = [] then .ok ⟨.free dir n, slash, false⟩ else .error (.os .noEntry) := by
  rw [walk_eq, walkNames, if_neg h.ne_here, if_neg h.ne_up, if_neg h.short]
  dsimp only
  rw [hn]

theorem walk_dir (hn : fs.node? (dir ++ [n]) = some .dir) :
    walk fs follow links dir (n :: rest) slash =
      if rest = [] then .ok ⟨.node (dir ++ [n]) .dir, slash, false⟩
      else walk fs follow links (dir ++ [n]) rest slash := by
  rw [walk_eq, walkNames, if_neg h.ne_here, if_neg h.ne_up, if_neg h.short]
  dsimp only
  rw [hn]

theorem walk_file {id : Nat} (hn : fs.node? (dir ++ [n]) = some (.file id)) :
    walk fs follow links dir (n :: rest) slash =
      if rest = [] then .ok ⟨.node (dir ++ [n]) (.file id), slash, false⟩
      else .error (.os .notDirectory) := by
  rw [walk_eq, walkNames, if_neg h.ne_here, if_neg h.ne_up, if_neg h.short]
  dsimp only
  rw [hn]

theorem walk_link {target : Path} (hn : fs.node? (dir ++ [n]) = some (.link target)) :
    walk fs follow links dir (n :: rest) slash =
      if follow.stopsAt rest slash then .ok ⟨.node (dir ++ [n]) (.link target), slash, false⟩
      else
        jumps fs follow links (if Path.isAbsolute target then [] else dir)
          (Path.names target ++ rest)
          (slash || (rest = [] && target.getLast? == some Path.slash)) := by
  rw [walk_eq, walkNames, if_neg h.ne_here, if_neg h.ne_up, if_neg h.short]
  dsimp only
  rw [hn]
  rfl

end

/-- What holds of all walks holds of the walks along a name if it does so of those along the names
behind it, and, with one link less to follow, of those behind a link. -/
@[elab_as_elim]
theorem walk_induct (fs : FileSystem) {motive : Nat → Location → List Bytes → Prop}
    (nil : ∀ links dir, motive links dir [])
    (here : ∀ links dir rest, motive links dir rest → motive links dir (Path.here :: rest))
    (up : ∀ links (dir : Location) rest, motive links dir.dropLast rest →
      motive links dir (Path.up :: rest))
    (long : ∀ links dir n rest, n ≠ Path.here → n ≠ Path.up → nameLimit < n.length →
      motive links dir (n :: rest))
    (free : ∀ links dir n rest, Sought n → fs.node? (dir ++ [n]) = none →
      motive links dir (n :: rest))
    (dir : ∀ links dir n rest, Sought n → fs.node? (dir ++ [n]) = some .dir →
      motive links (dir ++ [n]) rest → motive links dir (n :: rest))
    (file : ∀ links dir n rest id, Sought n → fs.node? (dir ++ [n]) = some (.file id) →
      motive links dir (n :: rest))
    (link : ∀ links dir n rest target, Sought n → fs.node? (dir ++ [n]) = some (.link target) →
      (∀ k, links = k + 1 →
        motive k (if Path.isAbsolute target then [] else dir) (Path.names target ++ rest)) →
      motive links dir (n :: rest))
    (links : Nat) (d : Location) (ns : List Bytes) : motive links d ns := by
  induction links using Nat.strongRecOn generalizing d ns with
  | ind links fewer =>
    induction ns generalizing d with
    | nil => exact nil links d
    | cons n ns ih =>
      cases met fs d n with
      | here hn => exact hn ▸ here links d ns (ih d)
      | up hn => exact hn ▸ up links d ns (ih d.dropLast)
      | long hh hu hl => exact long links d n ns hh hu hl
      | free hn hnode => exact free links d n ns hn hnode
      | dir hn hnode => exact dir links d n ns hn hnode (ih (d ++ [n]))
      | file hn hnode => exact file links d n ns _ hn hnode
      | link hn hnode =>
        exact link links d n ns _ hn hnode fun k hk => fewer k (by omega) _ _

/-! ## Walks that end somewhere -/

/-- A walk that ends somewhere, name by name. -/
inductive Walks (fs : FileSystem) (follow : Follow) :
    Nat → Location → List Bytes → Bool → Walked → Prop
  | nil {links : Nat} {dir : Location} {slash : Bool} :
      Walks fs follow links dir [] slash ⟨.node dir .dir, slash, true⟩
  | here {links : Nat} {dir : Location} {rest : List Bytes} {slash : Bool} {w : Walked} :
      Walks fs follow links dir rest slash w →
        Walks fs follow links dir (Path.here :: rest) slash w
  | up {links : Nat} {dir : Location} {rest : List Bytes} {slash : Bool} {w : Walked} :
      Walks fs follow links dir.dropLast rest slash w →
        Walks fs follow links dir (Path.up :: rest) slash w
  | free {links : Nat} {dir : Location} {n : Bytes} {slash : Bool} : Sought n →
      fs.node? (dir ++ [n]) = none →
        Walks fs follow links dir [n] slash ⟨.free dir n, slash, false⟩
  /-- A link at the end is not followed. -/
  | last {links : Nat} {dir : Location} {n : Bytes} {slash : Bool} {node : Node} : Sought n →
      fs.node? (dir ++ [n]) = some node →
      (∀ target, node = .link target → follow.stopsAt [] slash = true) →
        Walks fs follow links dir [n] slash ⟨.node (dir ++ [n]) node, slash, false⟩
  | into {links : Nat} {dir : Location} {n : Bytes} {rest : List Bytes} {slash : Bool}
      {w : Walked} : Sought n → fs.node? (dir ++ [n]) = some .dir → rest ≠ [] →
      Walks fs follow links (dir ++ [n]) rest slash w →
        Walks fs follow links dir (n :: rest) slash w
  | jump {links : Nat} {dir : Location} {n : Bytes} {rest : List Bytes} {slash : Bool}
      {w : Walked} {target : Path} : Sought n → fs.node? (dir ++ [n]) = some (.link target) →
      follow.stopsAt rest slash = false →
      Walks fs follow links (if Path.isAbsolute target then [] else dir)
        (Path.names target ++ rest)
        (slash || (rest = [] && target.getLast? == some Path.slash)) w →
        Walks fs follow (links + 1) dir (n :: rest) slash w

theorem walks_of_walk {links : Nat} (h : walk fs follow links dir ns slash = .ok w) :
    Walks fs follow links dir ns slash w := by
  induction links, dir, ns using walk_induct fs generalizing slash w with
  | nil links dir =>
    rw [walk_nil] at h
    cases h
    exact .nil
  | here links dir rest ih =>
    rw [walk_here] at h
    exact .here (ih h)
  | up links dir rest ih =>
    rw [walk_up] at h
    exact .up (ih h)
  | long links dir n rest hh hu hl =>
    rw [walk_long _ _ _ _ _ _ hh hu hl] at h
    cases h
  | free links dir n rest hn hnode =>
    rw [walk_free _ _ _ _ _ _ hn hnode] at h
    split at h <;> cases h
    rename_i hrest
    subst hrest
    exact .free hn hnode
  | dir links dir n rest hn hnode ih =>
    rw [walk_dir _ _ _ _ _ _ hn hnode] at h
    split at h
    · rename_i hrest
      subst hrest
      cases h
      exact .last hn hnode fun _ he => by cases he
    · rename_i hrest
      exact .into hn hnode hrest (ih h)
  | file links dir n rest id hn hnode =>
    rw [walk_file _ _ _ _ _ _ hn hnode] at h
    split at h <;> cases h
    rename_i hrest
    subst hrest
    exact .last hn hnode fun _ he => by cases he
  | link links dir n rest target hn hnode ih =>
    rw [walk_link _ _ _ _ _ _ hn hnode] at h
    split at h
    · rename_i hstop
      obtain rfl := Follow.eq_nil_of_stopsAt hstop
      cases h
      exact .last hn hnode fun _ _ => hstop
    · rename_i hstop
      cases links with
      | zero => cases h
      | succ links => exact .jump hn hnode (Bool.eq_false_iff.2 hstop) (ih links rfl h)

theorem Walks.walk_eq {links : Nat} (h : Walks fs follow links dir ns slash w) :
    walk fs follow links dir ns slash = .ok w := by
  induction h with
  | nil => exact walk_nil _ _ _ _ _
  | here _ ih => rwa [walk_here]
  | up _ ih => rwa [walk_up]
  | free hn hnode => rw [walk_free _ _ _ _ _ _ hn hnode, if_pos rfl]
  | @last _ _ _ _ node hn hnode hlink =>
    cases node with
    | dir => rw [walk_dir _ _ _ _ _ _ hn hnode, if_pos rfl]
    | file id => rw [walk_file _ _ _ _ _ _ hn hnode, if_pos rfl]
    | link target => rw [walk_link _ _ _ _ _ _ hn hnode, if_pos (hlink target rfl)]
  | into hn hnode hrest _ ih => rwa [walk_dir _ _ _ _ _ _ hn hnode, if_neg hrest]
  | jump hn hnode hstop _ ih =>
    rw [walk_link _ _ _ _ _ _ hn hnode, hstop, if_neg Bool.false_ne_true]
    exact ih

theorem Walks.ends {links : Nat} (h : Walks fs follow links dir ns slash w)
    (hfree : LinkFree fs (route dir ns)) : Ends fs dir ns slash w := by
  induction h with
  | nil => exact .dots fun l hl => absurd hl List.not_mem_nil
  | @here _ dir rest _ _ _ ih =>
    rw [route_here] at hfree
    exact (ih hfree).congr (descend_here dir rest) (route_here dir rest)
  | @up _ dir rest _ _ _ ih =>
    rw [route_up] at hfree
    exact (ih hfree).congr (descend_up dir rest) (route_up dir rest)
  | free hn hnode => exact .last_free hn.ne_here hn.ne_up hnode
  | last hn hnode _ => exact .last hn.ne_here hn.ne_up hnode
  | into hn hnode _ _ ih =>
    rw [route_cons _ _ hn.ne_here hn.ne_up] at hfree
    exact .cons hn.ne_here hn.ne_up hnode (ih fun l hl => hfree l (List.mem_cons_of_mem _ hl))
  | jump hn hnode _ _ _ =>
    rw [route_cons _ _ hn.ne_here hn.ne_up] at hfree
    exact absurd hnode (hfree _ List.mem_cons_self _)

/-- Where relative or absolute paths start. -/
def start (fs : FileSystem) (p : Path) : Location := if Path.isAbsolute p then [] else fs.working

/-- The locations that a path leads through if no link is met. -/
def routeOf (fs : FileSystem) (p : Path) : List Location := route (fs.start p) (Path.names p)

/-- Where a path leads if no link is met. -/
def routeEnd (fs : FileSystem) (p : Path) : Location := descend (fs.start p) (Path.names p)

/-- Does no location that the path leads through hold a link? -/
def Direct (fs : FileSystem) (p : Path) : Prop := LinkFree fs (fs.routeOf p)

/-- The operating system takes the path. -/
structure Usable (p : Path) : Prop where
  noNul : (0 : UInt8) ∉ p
  ne_nil : p ≠ []
  short : p.length < pathLimit

/-- A path leads where its walk does, if it is taken. -/
theorem resolve_ok_iff {p : Path} : fs.resolve follow p = .ok w ↔ Usable p ∧
    walk fs follow linkLimit (fs.start p) (Path.names p) (p.getLast? == some Path.slash) =
      .ok w := by
  unfold resolve
  constructor
  · intro h
    split at h
    · cases h
    · rename_i hnul
      split at h
      · cases h
      · rename_i hnil
        split at h
        · cases h
        · rename_i hlong
          refine ⟨⟨fun hmem => hnul ?_, hnil, by omega⟩, h⟩
          exact List.any_eq_true.2 ⟨0, hmem, rfl⟩
  · rintro ⟨⟨hnul, hnil, hshort⟩, h⟩
    rw [if_neg, if_neg hnil, if_neg (by omega)]
    · exact h
    · intro hany
      obtain ⟨b, hb, hz⟩ := List.any_eq_true.1 hany
      have hb0 : b = 0 := by simpa using hz
      exact hnul (hb0 ▸ hb)

theorem resolve_eq {p : Path} (h : fs.resolve follow p = .ok w) :
    walk fs follow linkLimit (fs.start p) (Path.names p) (p.getLast? == some Path.slash) =
      .ok w :=
  (resolve_ok_iff.1 h).2

theorem resolve_walks {p : Path} (h : fs.resolve follow p = .ok w) :
    Walks fs follow linkLimit (fs.start p) (Path.names p) (p.getLast? == some Path.slash) w :=
  walks_of_walk (resolve_eq h)

/-- A path that leads somewhere leads where its walk does with links treated in another way, and in
another tree. -/
theorem resolve_of_walks {full : FileSystem} {p : Path} {other : Follow} {v : Walked}
    (hw : full.working = fs.working) (h : fs.resolve follow p = .ok w)
    (hv : walk full other linkLimit (fs.start p) (Path.names p)
      (p.getLast? == some Path.slash) = .ok v) : full.resolve other p = .ok v := by
  refine resolve_ok_iff.2 ⟨(resolve_ok_iff.1 h).1, ?_⟩
  unfold start at hv ⊢
  rwa [hw]

theorem resolve_of_walk {p : Path} {other : Follow} {v : Walked} (h : fs.resolve follow p = .ok w)
    (hv : walk fs other linkLimit (fs.start p) (Path.names p) (p.getLast? == some Path.slash) =
      .ok v) : fs.resolve other p = .ok v :=
  resolve_of_walks rfl h hv

theorem resolve_ends {p : Path} (hd : fs.Direct p) (h : fs.resolve follow p = .ok w) :
    Ends fs (fs.start p) (Path.names p) (p.getLast? == some Path.slash) w :=
  (resolve_walks h).ends hd

/-! ## Walks that follow links -/

/-- The location of a place. -/
def Place.location : Place → Location
  | .node loc _ => loc
  | .free dir name => dir ++ [name]

/-- Does the tree have there what the place says? Directories are not looked up. -/
def Place.Holds (fs : FileSystem) : Place → Prop
  | .node loc found => found = .dir ∨ fs.node? loc = some found
  | .free dir name => fs.node? (dir ++ [name]) = none

theorem Walks.holds {links : Nat} (h : Walks fs follow links dir ns slash w) :
    w.place.Holds fs := by
  induction h with
  | nil => exact .inl rfl
  | here _ ih | up _ ih => exact ih
  | free _ hnode => exact hnode
  | last _ hnode _ => exact .inr hnode
  | into _ _ _ _ ih => exact ih
  | jump _ _ _ _ ih => exact ih

theorem resolve_holds {p : Path} (h : fs.resolve follow p = .ok w) : w.place.Holds fs :=
  (resolve_walks h).holds

/-- A walk that follows all links ends at the same place whether or not a directory is asked
for. -/
theorem Walks.anySlash {links : Nat} (h : Walks fs .always links dir ns slash w) (b : Bool) :
    ∃ b', Walks fs .always links dir ns b ⟨w.place, b', w.dots⟩ := by
  induction h generalizing b with
  | nil => exact ⟨b, .nil⟩
  | here _ ih => exact (ih b).imp fun _ => .here
  | up _ ih => exact (ih b).imp fun _ => .up
  | free hn hnode => exact ⟨b, .free hn hnode⟩
  | last hn hnode hlink =>
    refine ⟨b, .last hn hnode fun target he => ?_⟩
    cases hlink target he
  | into hn hnode hrest _ ih => exact (ih b).imp fun _ => .into hn hnode hrest
  | jump hn hnode _ _ ih => exact (ih _).imp fun _ => .jump hn hnode Follow.stopsAt_always

/-- Has the other tree all the nodes of a tree? -/
def PartOf (fs whole : FileSystem) : Prop :=
  ∀ l node, fs.node? l = some node → whole.node? l = some node

/-- A walk that reaches a node reaches it in every tree that has all of these nodes. -/
theorem Walks.mono {a b : FileSystem} (hab : a.PartOf b) {links : Nat}
    (h : Walks a follow links dir ns slash w) (hnode : ∀ d n, w.place ≠ .free d n) :
    Walks b follow links dir ns slash w := by
  induction h with
  | nil => exact .nil
  | here _ ih => exact .here (ih hnode)
  | up _ ih => exact .up (ih hnode)
  | free _ _ => exact absurd rfl (hnode _ _)
  | last hn hl hlink => exact .last hn (hab _ _ hl) hlink
  | into hn hl hrest _ ih => exact .into hn (hab _ _ hl) hrest (ih hnode)
  | jump hn hl hstop _ ih => exact .jump hn (hab _ _ hl) hstop (ih hnode)

theorem walk_mono {a b : FileSystem} (hab : a.PartOf b) {links : Nat} {loc : Location}
    {node : Node} {s' d' : Bool}
    (h : walk a follow links dir ns slash = .ok ⟨.node loc node, s', d'⟩) :
    walk b follow links dir ns slash = .ok ⟨.node loc node, s', d'⟩ :=
  ((walks_of_walk h).mono hab fun _ _ he => by cases he).walk_eq

/-- The walk passes by the directory that the first names lead to, and goes on from there whatever
names follow. -/
theorem walk_prefix {ms : List Bytes} (hms : ms ≠ []) {links : Nat}
    (h : walk fs follow links dir (ns ++ ms) slash = .ok w) : ∃ k loc,
      (∀ s, ∃ s' d', walk fs .always links dir ns s = .ok ⟨.node loc .dir, s', d'⟩) ∧
        ∀ ms', ms' ≠ [] → walk fs follow links dir (ns ++ ms') slash =
          walk fs follow k loc ms' slash := by
  have hmore : ∀ {ns ms' : List Bytes}, ms' ≠ [] → ns ++ ms' ≠ [] :=
    fun hne he => hne (List.append_eq_nil_iff.1 he).2
  -- Behind the first names there are more, so no case for a node at the end applies.
  induction links, dir, ns using walk_induct fs generalizing slash w with
  | nil links dir => exact ⟨links, dir, fun s => ⟨s, true, walk_nil ..⟩, fun _ _ => rfl⟩
  | here links dir rest ih =>
    simp only [List.cons_append, walk_here] at h ⊢
    exact ih h
  | up links dir rest ih =>
    simp only [List.cons_append, walk_up] at h ⊢
    exact ih h
  | long links dir n rest hh hu hl =>
    rw [List.cons_append, walk_long _ _ _ _ _ _ hh hu hl] at h
    cases h
  | free links dir n rest hn hnode =>
    rw [List.cons_append, walk_free _ _ _ _ _ _ hn hnode, if_neg (hmore hms)] at h
    cases h
  | dir links dir n rest hn hnode ih =>
    rw [List.cons_append, walk_dir _ _ _ _ _ _ hn hnode, if_neg (hmore hms)] at h
    obtain ⟨k, loc, hwalk, hafter⟩ := ih h
    refine ⟨k, loc, fun s => ?_, fun ms' hms' => ?_⟩
    · rw [walk_dir _ _ _ _ _ _ hn hnode]
      split
      · rename_i hnil
        subst hnil
        obtain ⟨s', d', hw⟩ := hwalk s
        rw [walk_nil] at hw
        cases hw
        exact ⟨s, false, rfl⟩
      · exact hwalk s
    · rw [List.cons_append, walk_dir _ _ _ _ _ _ hn hnode, if_neg (hmore hms')]
      exact hafter ms' hms'
  | file links dir n rest id hn hnode =>
    rw [List.cons_append, walk_file _ _ _ _ _ _ hn hnode, if_neg (hmore hms)] at h
    cases h
  | link links dir n rest target hn hnode ih =>
    have hgo : ∀ {ms' : List Bytes}, ms' ≠ [] →
        walk fs follow links dir (n :: rest ++ ms') slash =
          jumps fs follow links (if Path.isAbsolute target then [] else dir)
            (Path.names target ++ rest ++ ms') slash := by
      intro ms' hne
      rw [List.cons_append, walk_link _ _ _ _ _ _ hn hnode, Follow.stopsAt_cons (hmore hne)]
      simp only [hmore hne, decide_false, Bool.false_and, Bool.or_false, List.append_assoc]
      rfl
    rw [hgo hms] at h
    cases links with
    | zero => cases h
    | succ links =>
      obtain ⟨k, loc, hwalk, hafter⟩ := ih links rfl h
      refine ⟨k, loc, fun s => ?_, fun ms' hms' => ?_⟩
      · rw [walk_link _ _ _ _ _ _ hn hnode, Follow.stopsAt_always, if_neg Bool.false_ne_true]
        exact hwalk _
      · rw [hgo hms']
        exact hafter ms' hms'

theorem walk_append {ms : List Bytes} (hms : ms ≠ []) {links : Nat}
    (h : walk fs follow links dir (ns ++ ms) slash = .ok w) : ∃ k loc,
      (∀ s, ∃ s' d', walk fs .always links dir ns s = .ok ⟨.node loc .dir, s', d'⟩) ∧
        walk fs follow k loc ms slash = .ok w := by
  obtain ⟨k, loc, hwalk, hafter⟩ := walk_prefix hms h
  exact ⟨k, loc, hwalk, (hafter ms hms).symm.trans h⟩

/-- What stands at a name of a directory. -/
def placeAt (fs : FileSystem) (dir : Location) (n : Bytes) : Place :=
  match fs.node? (dir ++ [n]) with
  | some node => .node (dir ++ [n]) node
  | none => .free dir n

theorem location_placeAt (fs : FileSystem) (dir : Location) (n : Bytes) :
    (fs.placeAt dir n).location = dir ++ [n] := by
  unfold placeAt
  split <;> rfl

/-- A walk along a single name, no link followed, ends at that name. -/
theorem walk_single {n : Bytes} (hn : Sought n) (links : Nat) :
    walk fs .never links dir [n] slash = .ok ⟨fs.placeAt dir n, slash, false⟩ := by
  unfold placeAt
  cases met fs dir n with
  | here hh => exact absurd hh hn.ne_here
  | up hu => exact absurd hu hn.ne_up
  | long hh hu hl => exact absurd hl hn.short
  | free hs hnode =>
    rw [walk_free _ _ _ _ _ _ hs hnode, hnode]
    rfl
  | dir hs hnode =>
    rw [walk_dir _ _ _ _ _ _ hs hnode, hnode]
    rfl
  | file hs hnode =>
    rw [walk_file _ _ _ _ _ _ hs hnode, hnode]
    rfl
  | link hs hnode =>
    rw [walk_link _ _ _ _ _ _ hs hnode, hnode]
    rfl

theorem sought_of_walk {links : Nat} {n : Bytes} (hn : Path.IsName n)
    (h : walk fs follow links dir [n] slash = .ok w) : Sought n := by
  refine ⟨hn.ne_here, hn.ne_up, fun hl => ?_⟩
  rw [walk_long _ _ _ _ _ _ hn.ne_here hn.ne_up hl] at h
  cases h

theorem walk_name {links : Nat} {n : Bytes} (hn : Path.IsName n)
    (h : walk fs .never links dir [n] slash = .ok w) : w.place.location = dir ++ [n] := by
  rw [walk_single (sought_of_walk hn h)] at h
  cases h
  exact location_placeAt fs dir n

/-- A walk that does not end at a link ends the same if a link there is followed. -/
theorem walk_always {links : Nat} {r : Except IoFault Walked}
    (h : walk fs follow links dir ns slash = r)
    (hr : ∀ loc target s' d', r ≠ .ok ⟨.node loc (.link target), s', d'⟩) :
    walk fs .always links dir ns slash = r := by
  -- Only a link at the end is treated differently, and there the walk would have ended.
  induction links, dir, ns using walk_induct fs generalizing slash with
  | nil links dir =>
    rw [walk_nil] at h ⊢
    exact h
  | here links dir rest ih =>
    rw [walk_here] at h ⊢
    exact ih h
  | up links dir rest ih =>
    rw [walk_up] at h ⊢
    exact ih h
  | long links dir n rest hh hu hl =>
    rw [walk_long _ _ _ _ _ _ hh hu hl] at h ⊢
    exact h
  | free links dir n rest hn hnode =>
    rw [walk_free _ _ _ _ _ _ hn hnode] at h ⊢
    exact h
  | dir links dir n rest hn hnode ih =>
    rw [walk_dir _ _ _ _ _ _ hn hnode] at h ⊢
    split
    · rename_i hrest
      rwa [if_pos hrest] at h
    · rename_i hrest
      rw [if_neg hrest] at h
      exact ih h
  | file links dir n rest id hn hnode =>
    rw [walk_file _ _ _ _ _ _ hn hnode] at h ⊢
    exact h
  | link links dir n rest target hn hnode ih =>
    rw [walk_link _ _ _ _ _ _ hn hnode] at h ⊢
    rw [Follow.stopsAt_always, if_neg Bool.false_ne_true]
    split at h
    · exact absurd h.symm (hr _ _ _ _)
    · cases links with
      | zero => exact h
      | succ links => exact ih links rfl h

/-- A walk that does not ask for a directory ends the same if no link at the end is followed. -/
theorem Walks.noSlash {links : Nat} (h : Walks fs .beforeSlash links dir ns slash w)
    (hw : w.slash = false) : slash = false ∧ Walks fs .never links dir ns slash w := by
  induction h with
  | nil => exact ⟨hw, .nil⟩
  | here _ ih => exact ⟨(ih hw).1, .here (ih hw).2⟩
  | up _ ih => exact ⟨(ih hw).1, .up (ih hw).2⟩
  | free hn hnode => exact ⟨hw, .free hn hnode⟩
  | last hn hnode _ => exact ⟨hw, .last hn hnode fun _ _ => Follow.stopsAt_never⟩
  | into hn hnode hrest _ ih => exact ⟨(ih hw).1, .into hn hnode hrest (ih hw).2⟩
  | @jump _ _ _ rest _ _ _ hn hnode hstop _ ih =>
    obtain ⟨hslash, hwalk⟩ := ih hw
    have hfalse := (Bool.or_eq_false_iff.1 hslash).1
    have hrest : rest ≠ [] := by
      rintro rfl
      rw [hfalse] at hstop
      cases hstop
    exact ⟨hfalse, .jump hn hnode (Follow.stopsAt_cons hrest) hwalk⟩

theorem resolve_noSlash {p : Path} (h : fs.resolve .beforeSlash p = .ok w)
    (hw : w.slash = false) : fs.resolve .never p = .ok w :=
  resolve_of_walk h ((resolve_walks h).noSlash hw).2.walk_eq

/-- Once the node that a path names is erased, the path leads to none. -/
theorem walk_erase {x : Location} {links : Nat} {node : Node} {s' : Bool}
    (h : walk fs .never links dir ns slash = .ok ⟨.node x node, s', false⟩) (loc : Location)
    (n : Node) (t d : Bool) :
    walk (fs.erase x) .always links dir ns slash ≠ .ok ⟨.node loc n, t, d⟩ := by
  have hstop : ∀ {links dir m ns slash}, Sought m → dir ++ [m] = x →
      walk (fs.erase x) .always links dir (m :: ns) slash ≠ .ok ⟨.node loc n, t, d⟩ := by
    intro links dir m ns slash hm hx
    have hnone : (fs.erase x).node? (dir ++ [m]) = none := by
      rw [node?_erase, if_neg (by simp), if_pos hx]
    rw [walk_free _ _ _ _ _ _ hm hnone]
    split <;> exact fun he => by cases he
  have hsame : ∀ {dir m}, dir ++ [m] ≠ x →
      (fs.erase x).node? (dir ++ [m]) = fs.node? (dir ++ [m]) := by
    intro dir m hx
    rw [node?_erase, if_neg (by simp), if_neg hx]
  have hwalks := walks_of_walk h
  clear h
  generalize hw : (⟨.node x node, s', false⟩ : Walked) = w at hwalks
  induction hwalks with
  | nil | free _ _ => cases hw
  | here _ ih =>
    rw [walk_here]
    exact ih hw
  | up _ ih =>
    rw [walk_up]
    exact ih hw
  | last hm _ _ =>
    cases hw
    exact hstop hm rfl
  | @into _ dir m _ _ _ hm hnode hrest _ ih =>
    by_cases hx : dir ++ [m] = x
    · exact hstop hm hx
    · rw [walk_dir _ _ _ _ _ _ hm ((hsame hx).trans hnode), if_neg hrest]
      exact ih hw
  | @jump _ dir m _ _ _ _ hm hnode _ _ ih =>
    by_cases hx : dir ++ [m] = x
    · exact hstop hm hx
    · rw [walk_link _ _ _ _ _ _ hm ((hsame hx).trans hnode), Follow.stopsAt_always,
        if_neg Bool.false_ne_true]
      exact ih hw

/-- How a walk may end once a location on its way was erased: as before, or with nothing there. -/
inductive EndsOrMisses (x : Location) (before : Except IoFault Walked) :
    Except IoFault Walked → Prop
  | ends : EndsOrMisses x before before
  | missing : EndsOrMisses x before (.error (.os .noEntry))
  | free {d : Location} {n : Bytes} {s d' : Bool} : d ++ [n] = x →
      EndsOrMisses x before (.ok ⟨.free d n, s, d'⟩)

/-- Without a file or a link a walk ends where it ended before, or finds nothing. -/
theorem walk_erase_misses {x : Location} (hx : fs.node? x ≠ some .dir) (links : Nat) :
    EndsOrMisses x (walk fs follow links dir ns slash)
      (walk (fs.erase x) follow links dir ns slash) := by
  have hmisses : ∀ {links dir m ns slash before}, Sought m → dir ++ [m] = x →
      EndsOrMisses x before (walk (fs.erase x) follow links dir (m :: ns) slash) := by
    intro links dir m ns slash before hm hd
    have hnone : (fs.erase x).node? (dir ++ [m]) = none := by
      rw [node?_erase, if_neg (by simp), if_pos hd]
    rw [walk_free _ _ _ _ _ _ hm hnone]
    split
    · exact .free hd
    · exact .missing
  have hsame : ∀ {dir m}, dir ++ [m] ≠ x →
      (fs.erase x).node? (dir ++ [m]) = fs.node? (dir ++ [m]) := by
    intro dir m hd
    rw [node?_erase, if_neg (by simp), if_neg hd]
  -- The walks keep together until they seek `x`; from there the second one finds nothing.
  induction links, dir, ns using walk_induct fs generalizing slash with
  | nil links dir =>
    rw [walk_nil, walk_nil]
    exact .ends
  | here links dir rest ih =>
    rw [walk_here, walk_here]
    exact ih
  | up links dir rest ih =>
    rw [walk_up, walk_up]
    exact ih
  | long links dir m rest hh hu hl =>
    rw [walk_long _ _ _ _ _ _ hh hu hl, walk_long _ _ _ _ _ _ hh hu hl]
    exact .ends
  | free links dir m rest hm hnode =>
    by_cases hd : dir ++ [m] = x
    · exact hmisses hm hd
    · rw [walk_free _ _ _ _ _ _ hm hnode, walk_free _ _ _ _ _ _ hm ((hsame hd).trans hnode)]
      exact .ends
  | dir links dir m rest hm hnode ih =>
    have hd : dir ++ [m] ≠ x := by
      rintro rfl
      exact hx hnode
    rw [walk_dir _ _ _ _ _ _ hm hnode, walk_dir _ _ _ _ _ _ hm ((hsame hd).trans hnode)]
    split
    · exact .ends
    · exact ih
  | file links dir m rest id hm hnode =>
    by_cases hd : dir ++ [m] = x
    · exact hmisses hm hd
    · rw [walk_file _ _ _ _ _ _ hm hnode, walk_file _ _ _ _ _ _ hm ((hsame hd).trans hnode)]
      exact .ends
  | link links dir m rest target hm hnode ih =>
    by_cases hd : dir ++ [m] = x
    · exact hmisses hm hd
    · rw [walk_link _ _ _ _ _ _ hm hnode, walk_link _ _ _ _ _ _ hm ((hsame hd).trans hnode)]
      split
      · exact .ends
      · cases links with
        | zero => exact .ends
        | succ links => exact ih links rfl

theorem resolve_erase_misses {x : Location} (hx : fs.node? x ≠ some .dir) (p : Path) :
    EndsOrMisses x (fs.resolve follow p) ((fs.erase x).resolve follow p) := by
  unfold resolve
  split
  · exact .ends
  split
  · exact .ends
  split
  · exact .ends
  · exact walk_erase_misses hx linkLimit

/-! ## Walks to what was made -/

theorem node?_insert_self (fs : FileSystem) {l : Location} (n : Node) (h : l ≠ []) :
    (fs.insert l n).node? l = some n := by
  rw [node?_insert, if_neg h, if_pos rfl]

theorem node?_insert_ne (fs : FileSystem) {l x : Location} (n : Node) (h : x ≠ l) :
    (fs.insert l n).node? x = fs.node? x := by
  rw [node?_insert, if_neg h]
  split
  · rename_i hnil
    simp [hnil, node?]
  · rfl

/-- What is there stays if something comes where nothing was. -/
theorem node?_insert_of_node {l x : Location} {n m : Node} (hl : fs.node? l = none)
    (hx : fs.node? x = some m) : (fs.insert l n).node? x = some m := by
  rw [node?_insert_ne, hx]
  rintro rfl
  rw [hl] at hx
  cases hx

/-- The trees have the same nodes, except for one location. -/
structure SameBut (x : Location) (fs fs' : FileSystem) : Prop where
  node : ∀ l, l ≠ x → fs'.node? l = fs.node? l
  working : fs'.working = fs.working

theorem sameBut_insert (fs : FileSystem) (x : Location) (n : Node) : SameBut x fs (fs.insert x n) :=
  ⟨fun _ h => node?_insert_ne fs n h, rfl⟩

/-- Once something is put where a walk ended at nothing, the walk ends at it; a link is not
followed. -/
theorem Walks.filled {full : FileSystem} {x : Location} {node : Node} (hx : fs.node? x = none)
    (hsame : SameBut x fs full) (hn : full.node? x = some node)
    (hlink : follow = .never ∨ ∀ target, node ≠ .link target) {links : Nat} {b e : Bool}
    {d : Location} {n : Bytes} (h : Walks fs follow links dir ns slash ⟨.free d n, b, e⟩)
    (hd : d ++ [n] = x) : Walks full follow links dir ns slash ⟨.node x node, b, e⟩ := by
  have hnode : ∀ {l found}, fs.node? l = some found → full.node? l = some found := by
    intro l found hl
    rw [hsame.node l, hl]
    rintro rfl
    rw [hx] at hl
    cases hl
  generalize hw : (⟨.free d n, b, e⟩ : Walked) = w at h
  induction h with
  | nil | last _ _ _ => cases hw
  | here _ ih => exact .here (ih hw)
  | up _ ih => exact .up (ih hw)
  | free hm _ =>
    cases hw
    subst hd
    refine .last hm hn fun target he => ?_
    rcases hlink with rfl | hlink
    · exact Follow.stopsAt_never
    · exact absurd he (hlink target)
  | into hm hdir hrest _ ih => exact .into hm (hnode hdir) hrest (ih hw)
  | jump hm hl hstop _ ih => exact .jump hm (hnode hl) hstop (ih hw)

theorem resolve_filled {full : FileSystem} {p : Path} {d : Location} {n : Bytes} {b e : Bool}
    {node : Node} (h : fs.resolve follow p = .ok ⟨.free d n, b, e⟩)
    (hsame : SameBut (d ++ [n]) fs full) (hn : full.node? (d ++ [n]) = some node)
    (hlink : follow = .never ∨ ∀ target, node ≠ .link target) :
    full.resolve follow p = .ok ⟨.node (d ++ [n]) node, b, e⟩ := by
  have hx : fs.node? (d ++ [n]) = none := resolve_holds h
  exact resolve_of_walks hsame.working h ((resolve_walks h).filled hx hsame hn hlink rfl).walk_eq

/-- A walk can go on behind a location: it holds a directory or a link. -/
def Passable (fs : FileSystem) (x : Location) : Prop :=
  fs.node? x = some .dir ∨ ∃ target, fs.node? x = some (.link target)

/-- What a walk that ends elsewhere comes to does not depend on a location that it cannot pass. -/
theorem Walks.away {other : FileSystem} {x : Location} (hsame : SameBut x fs other)
    (hx : ¬ fs.Passable x) {links : Nat} (h : Walks fs follow links dir ns slash w)
    (hw : w.dots = false → w.place.location ≠ x) : Walks other follow links dir ns slash w := by
  induction h with
  | nil => exact .nil
  | here _ ih => exact .here (ih hw)
  | up _ ih => exact .up (ih hw)
  | free hm hnode => exact .free hm ((hsame.node _ (hw rfl)).trans hnode)
  | last hm hnode hlink => exact .last hm ((hsame.node _ (hw rfl)).trans hnode) hlink
  | @into _ dir m _ _ _ hm hnode hrest _ ih =>
    have hne : dir ++ [m] ≠ x := fun he => hx (.inl (he ▸ hnode))
    exact .into hm ((hsame.node _ hne).trans hnode) hrest (ih hw)
  | @jump _ dir m _ _ _ _ hm hnode hstop _ ih =>
    have hne : dir ++ [m] ≠ x := fun he => hx (.inr ⟨_, he ▸ hnode⟩)
    exact .jump hm ((hsame.node _ hne).trans hnode) hstop (ih hw)

theorem resolve_away {other : FileSystem} {x : Location} {p : Path} (hsame : SameBut x fs other)
    (hx : ¬ fs.Passable x) (h : fs.resolve follow p = .ok w) (hw : w.place.location ≠ x) :
    other.resolve follow p = .ok w :=
  resolve_of_walks hsame.working h ((resolve_walks h).away hsame hx fun _ => hw).walk_eq

end SharedRuntime.FileSystem
