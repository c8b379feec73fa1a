import SharedRuntime.Proofs.FileSystem.FitsIn
import SharedRuntime.Proofs.FileSystem.Replacing

/-!
# A file that is written beside another

A file is replaced by writing its new contents under another name and renaming that file. Whatever
stands between a path and the file that it leads to, the new contents are read there afterwards
(`read_replaced`). Until the file is renamed, nothing changes of where a path leads that ends with
another name (`locate_beside`); and where it cannot be renamed to, there is no file to replace
(`locate_unrenamed`).

A link that leads to a file is the hard case: the file takes the place of the link, and it has to be
known that the walk to the link did not pass the link before (`LeadsToFile.stuck`).
-/

set_option autoImplicit false

namespace SharedRuntime.FileSystem

variable {fs t u : FileSystem} {follow : Follow} {dir x y : Location} {ns : List Bytes}
  {slash : Bool} {v w : Walked} {links : Nat} {p q : Path} {data : Bytes}

/-! ## The end of a walk -/

/-- A walk for a directory stays one. -/
theorem Walks.asks (h : Walks fs follow links dir ns slash w) (hs : slash = true) :
    w.slash = true := by
  induction h with
  | nil | free _ _ | last _ _ _ => exact hs
  | here _ ih | up _ ih | into _ _ _ _ ih => exact ih hs
  | jump _ _ _ _ ih => exact ih (by rw [hs, Bool.true_or])

/-- A walk ends with dots at a directory, or else at a name. -/
inductive Lands (fs : FileSystem) : Walked → Prop
  | dots {l : Location} {b : Bool} : Lands fs ⟨.node l .dir, b, true⟩
  | name {d : Location} {n : Bytes} {b : Bool} : Lands fs ⟨fs.placeAt d n, b, false⟩

theorem Walks.lands (h : Walks fs follow links dir ns slash w) : Lands fs w := by
  induction h with
  | nil => exact .dots
  | here _ ih | up _ ih | into _ _ _ _ ih | jump _ _ _ _ ih => exact ih
  | free _ hnode => exact placeAt_free hnode ▸ .name
  | last _ hnode _ => exact placeAt_node hnode ▸ .name

theorem resolve_lands (h : fs.resolve follow p = .ok w) : Lands fs w := (resolve_walks h).lands

theorem Lands.dots_eq (h : Lands fs w) (hw : ∀ l, w.place ≠ .node l .dir) : w.dots = false := by
  cases h with
  | dots => exact absurd rfl (hw _)
  | name => rfl

/-- What a walk that ends with a name ends at was looked up. -/
theorem Lands.node_eq {n : Node} (h : Lands fs w) (hw : w.place = .node x n)
    (hd : w.dots = false) : fs.node? x = some n := by
  cases h with
  | dots => cases hd
  | @name d m _ =>
    have hplace : fs.placeAt d m = .node x n := hw
    cases hnode : fs.node? (d ++ [m]) with
    | none =>
      rw [placeAt_free hnode] at hplace
      cases hplace
    | some found =>
      rw [placeAt_node hnode] at hplace
      cases hplace
      exact hnode

/-- A path that does not ask for a directory ends with a name, and leads to that name. -/
theorem resolve_last {pre n : Bytes} (hpre : Path.IsOpen pre) (hn : Path.slash ∉ n)
    (h : fs.resolve .never (pre ++ n) = .ok w) (hslash : w.slash = false) (hdots : w.dots = false) :
    Path.IsName n ∧ ∃ d, w = ⟨fs.placeAt d n, false, false⟩ := by
  have hnil : n ≠ [] := by
    rintro rfl
    rw [List.append_nil] at h
    rcases hpre with rfl | ⟨r, rfl⟩
    · exact (resolve_ok_iff.1 h).1.ne_nil rfl
    · rw [(resolve_walks h).asks (by simp)] at hslash
      cases hslash
  have hwalk := resolve_eq h
  rw [Path.names_append hpre, Path.names_of_noSlash hnil hn] at hwalk
  obtain ⟨k, d, -, hlast⟩ := walk_append (List.cons_ne_nil n []) hwalk
  have hname : Path.IsName n := by
    refine ⟨hnil, ?_, ?_, hn⟩
    · rintro rfl
      rw [walk_here, walk_nil] at hlast
      cases hlast
      cases hdots
    · rintro rfl
      rw [walk_up, walk_nil] at hlast
      cases hlast
      cases hdots
  refine ⟨hname, d, ?_⟩
  rw [walk_single (sought_of_walk hname hlast)] at hlast
  cases hlast
  exact congrArg (Walked.mk (fs.placeAt d n) · false) hslash

/-! ## Where a link leads -/

/-- A walk that ends somewhere ends there if it may follow more links. -/
theorem Walks.moreLinks (h : Walks fs follow links dir ns slash w) {k : Nat} (hk : links ≤ k) :
    Walks fs follow k dir ns slash w := by
  induction h generalizing k with
  | nil => exact .nil
  | here _ ih => exact .here (ih hk)
  | up _ ih => exact .up (ih hk)
  | free hm hnode => exact .free hm hnode
  | last hm hnode hlink => exact .last hm hnode hlink
  | into hm hnode hrest _ ih => exact .into hm hnode hrest (ih hk)
  | jump hm hnode hstop _ ih =>
    obtain ⟨k, rfl⟩ : ∃ j, k = j + 1 := ⟨k - 1, by omega⟩
    exact .jump hm hnode hstop (ih (Nat.le_of_succ_le_succ hk))

/-- A link in the directory leads to a file. -/
def LeadsToFile (fs : FileSystem) (dir : Location) (target : Path) : Prop :=
  ∃ k b l i b' d, walk fs .always k (if Path.isAbsolute target then [] else dir)
    (Path.names target) b = .ok ⟨.node l (.file i), b', d⟩

theorem LeadsToFile.mono {target : Path} (h : fs.LeadsToFile dir target) (hpart : fs.PartOf t) :
    t.LeadsToFile dir target := by
  obtain ⟨k, b, l, i, b', d, hwalk⟩ := h
  exact ⟨k, b, l, i, b', d, walk_mono hpart hwalk⟩

/-- No walk goes on behind a link that leads to a file. -/
theorem LeadsToFile.stuck {target : Path} {rest : List Bytes} (h : fs.LeadsToFile dir target)
    (hrest : rest ≠ []) : walk fs follow links (if Path.isAbsolute target then [] else dir)
      (Path.names target ++ rest) slash ≠ .ok w := by
  intro hwalk
  obtain ⟨k, b, _, _, _, _, hfile⟩ := h
  obtain ⟨-, l, hdir, -⟩ := walk_append hrest hwalk
  obtain ⟨b', d', hdir⟩ := hdir b
  have hfile' := ((walks_of_walk hfile).moreLinks (Nat.le_max_left k links)).walk_eq
  rw [((walks_of_walk hdir).moreLinks (Nat.le_max_right k links)).walk_eq] at hfile'
  cases hfile'

/-- Where a link at the end of a walk leads is where the walk ends that follows it. -/
theorem Walks.behindLink {target : Path} (hv : Walks fs .never links dir ns slash v)
    (hlink : v.place = .node x (.link target)) (hw : walk fs .always links dir ns slash = .ok w) :
    ∃ k b, walk fs .always k (if Path.isAbsolute target then [] else x.dropLast)
      (Path.names target) (v.slash || b) = .ok w := by
  induction hv with
  | nil => cases hlink
  | free _ _ => cases hlink
  | here _ ih =>
    rw [walk_here] at hw
    exact ih hlink hw
  | up _ ih =>
    rw [walk_up] at hw
    exact ih hlink hw
  | @last more _ _ _ _ hm hnode _ =>
    cases hlink
    rw [walk_link _ _ _ _ _ _ hm hnode, Follow.stopsAt_always, if_neg Bool.false_ne_true,
      List.append_nil] at hw
    cases more with
    | zero => cases hw
    | succ more =>
      rw [List.dropLast_concat]
      exact ⟨more, _, hw⟩
  | into hm hnode hrest _ ih =>
    rw [walk_dir _ _ _ _ _ _ hm hnode, if_neg hrest] at hw
    exact ih hlink hw
  | jump hm hnode _ _ ih =>
    rw [walk_link _ _ _ _ _ _ hm hnode, Follow.stopsAt_always, if_neg Bool.false_ne_true] at hw
    exact ih hlink hw

/-! ## A file that takes a place -/

/-- Once a file takes the place of a file or of a link to one, and what no walk passes is gone, the
path ends at the file. -/
theorem Walks.replaced {i : Nat} {n : Node} (hsame : ∀ l, l ≠ x → l ≠ y → u.node? l = t.node? l)
    (hy : u.node? y = some (.file i)) (hx : ¬ t.Passable x) (hn : n ≠ .dir)
    (hlink : ∀ target, t.node? y = some (.link target) → t.LeadsToFile y.dropLast target)
    (h : Walks t .never links dir ns slash w) (hw : w.place = .node y n) :
    Walks u .never links dir ns slash ⟨.node y (.file i), w.slash, w.dots⟩ := by
  -- On the old walk. It passes neither of the two locations, so it goes the same way until its end.
  induction h with
  | nil =>
    cases hw
    exact absurd rfl hn
  | free _ _ => cases hw
  | here _ ih => exact .here (ih hw)
  | up _ ih => exact .up (ih hw)
  | last hm _ _ =>
    cases hw
    exact .last hm hy fun _ _ => Follow.stopsAt_never
  | @into _ d m _ _ _ hm hnode hrest hwalk ih =>
    have hxm : d ++ [m] ≠ x := fun he => hx (.inl (he ▸ hnode))
    have hym : d ++ [m] ≠ y := by
      rintro rfl
      have hholds := hwalk.holds
      rw [hw] at hholds
      rcases hholds with rfl | hfound
      · exact hn rfl
      · rw [hnode] at hfound
        exact hn (Option.some.inj hfound).symm
    exact .into hm ((hsame _ hxm hym).trans hnode) hrest (ih hw)
  | @jump _ d m rest _ _ target hm hnode hstop hwalk ih =>
    have hxm : d ++ [m] ≠ x := fun he => hx (.inr ⟨target, he ▸ hnode⟩)
    have hym : d ++ [m] ≠ y := by
      rintro rfl
      have hrest : rest ≠ [] := by
        rintro rfl
        cases hstop
      have hfile := hlink target hnode
      rw [List.dropLast_concat] at hfile
      exact hfile.stuck hrest hwalk.walk_eq
    exact .jump hm ((hsame _ hxm hym).trans hnode) hstop (ih hw)

/-- What is found and is no directory stands at the end of the path. -/
theorem resolve_of_locate {l : Location} {n : Node} (h : fs.locate p = .ok (l, n))
    (hn : n ≠ .dir) : fs.resolve .always p = .ok ⟨.node l n, false, false⟩ := by
  obtain ⟨b, d, hr⟩ := locate_ok h
  obtain rfl : d = false := (resolve_lands hr).dots_eq fun _ he => hn (by cases he; rfl)
  unfold locate at h
  rw [hr] at h
  cases b with
  | false => exact hr
  | true => cases n <;> first | exact absurd rfl hn | cases h

/-- A path to a file ends at the file, or at a link that leads to it. -/
theorem never_of_file {l : Location} {j : Nat} (h : fs.locate p = .ok (l, .file j)) : ∃ y n,
    fs.resolve .never p = .ok ⟨.node y n, false, false⟩ ∧ n ≠ .dir ∧
      ∀ target, n = .link target → fs.LeadsToFile y.dropLast target := by
  have hr := resolve_of_locate h (by simp)
  obtain ⟨v, hv, rfl | ⟨y, target, b, rfl, -⟩⟩ := resolve_never hr
  · exact ⟨l, .file j, hv, by simp, fun _ he => by cases he⟩
  · obtain ⟨k, b', hwalk⟩ := (resolve_walks hv).behindLink rfl (resolve_eq hr)
    have hb : b = false := by
      by_contra hb
      have hasks := (walks_of_walk hwalk).asks (by simp [hb])
      cases hasks
    subst hb
    refine ⟨y, .link target, hv, by simp, fun target' he => ?_⟩
    cases he
    exact ⟨k, _, l, j, _, _, hwalk⟩

/-- A file takes the place of a file or of a link, unless it is there already. -/
theorem rename_file {i : Nat} {n : Node}
    (hq : t.resolve .never q = .ok ⟨.node x (.file i), false, false⟩)
    (hp : t.resolve .never p = .ok ⟨.node y n, false, false⟩) (hn : n ≠ .dir) :
    t.rename q p = .ok (if n = .file i then t else (t.erase x).insert y (.file i)) := by
  split
  · rename_i hsame
    subst hsame
    unfold rename
    rw [hq, hp]
    exact if_pos (by simp [Node.isFile])
  · rename_i hother
    exact rename_over hq hp hn hother

/-- The data were put into a file, which is at the path itself. -/
structure Put (fs t : FileSystem) (q : Path) (data : Bytes) (x : Location) (i : Nat) : Prop where
  before : ∃ place, fs.resolve .never q = .ok ⟨place, false, false⟩ ∧ place.location = x
  known : fs.locate q = .ok (x, .file i) ∨ i = fs.fresh
  after : t.resolve .never q = .ok ⟨.node x (.file i), false, false⟩
  same : SameBut x fs t
  ends : ¬ fs.Passable x
  contents : t.contentsOf i = data
  others : ∀ j, j ≠ i → t.contentsOf j = fs.contentsOf j
  partOf : fs.PartOf t

theorem NoLink.put (hq : fs.NoLink q) (hwrite : fs.write q data = .ok t) :
    ∃ x i, Put fs t q data x i := by
  obtain ⟨place, d, hr, hdone⟩ := write_ok hwrite
  rw [hq.resolve_always] at hr
  obtain rfl : d = false := by
    refine (resolve_lands hr).dots_eq fun l he => ?_
    cases he
    rcases hdone with ⟨_, _, he, -⟩ | ⟨_, _, he, -⟩ <;> cases he
  rcases hdone with ⟨l, i, rfl, rfl⟩ | ⟨dir, name, rfl, rfl⟩
  · have hnode : fs.node? l = some (.file i) :=
      (resolve_lands hr).node_eq rfl rfl
    exact ⟨l, i, ⟨_, hr, rfl⟩, .inl (locate_of_never hr), resolve_setContents hr,
      ⟨fun _ _ => rfl, rfl⟩,
      not_passable_file hnode, contentsOf_setContents_self fs i data,
      fun j hj => contentsOf_setContents fs data hj, fun _ _ h => h⟩
  · have hnone : fs.node? (dir ++ [name]) = none := resolve_holds hr
    have hself := node?_insertFile_self fs data (x := dir ++ [name]) (by simp)
    exact ⟨dir ++ [name], fs.fresh, ⟨_, hr, rfl⟩, .inr rfl,
      resolve_filled hr (sameBut_insertFile fs _ data) hself (.inl rfl),
      sameBut_insertFile fs _ data, not_passable_none hnone,
      contentsOf_insertFile_self fs _ data, fun j hj => contentsOf_insertFile fs _ data hj,
      fun _ _ hl => node?_insert_of_node hnone hl⟩

theorem SameBut.symm (h : SameBut x fs t) : SameBut x t fs :=
  ⟨fun l hl => (h.node l hl).symm, h.working.symm⟩

theorem Put.node {i : Nat} (h : Put fs t q data x i) : t.node? x = some (.file i) :=
  (resolve_lands h.after).node_eq rfl rfl

/-- The paths lead to one file. -/
def OneFile (fs : FileSystem) (p q : Path) : Prop :=
  ∃ l l' i, fs.locate p = .ok (l, .file i) ∧ fs.locate q = .ok (l', .file i)

/-- Another file than the one that is written to is not written. -/
theorem Put.other {i j : Nat} {l : Location} (h : Put fs t q data x i) (hn : fs.Numbered)
    (hp : fs.locate p = .ok (l, .file j)) (hother : ¬ fs.OneFile p q) : j ≠ i := by
  rintro rfl
  rcases h.known with hold | rfl
  · exact hother ⟨l, x, j, hp, hold⟩
  · have hfile := (resolve_lands (resolve_of_locate hp (by simp))).node_eq rfl rfl
    exact Nat.lt_irrefl _ (hn l fs.fresh hfile)

/-- Neither writing a file nor renaming it makes its path a link. -/
theorem noLink_moved {i : Nat} (hq : t.resolve .never q = .ok ⟨.node x (.file i), false, false⟩)
    (hx : t.node? x ≠ some .dir) (hy : y ≠ []) :
    ((t.erase x).insert y (.file i)).NoLink q := by
  intro loc target b d hlink
  have hfile : ((t.erase x).insert y (.file i)).node? y = some (.file i) :=
    node?_insert_self _ _ hy
  have hne : loc ≠ y := by
    rintro rfl
    have hnode := (resolve_lands hlink).node_eq rfl
      ((resolve_lands hlink).dots_eq fun _ he => by cases he)
    rw [hfile] at hnode
    cases hnode
  have hback := resolve_away (sameBut_insert (t.erase x) y (.file i)).symm (not_passable_file hfile)
    hlink hne
  have hmiss : EndsOrMisses x (t.resolve .never q) ((t.erase x).resolve .never q) :=
    resolve_erase_misses hx q
  rw [hq, hback] at hmiss
  cases hmiss

/-- A file that is written, and renamed to a path that leads to a file, is read there. -/
theorem read_replaced {l : Location} {j : Nat} (hfile : fs.locate p = .ok (l, .file j))
    (hq : fs.NoLink q) (hwrite : fs.write q data = .ok t) :
    ∃ u, t.rename q p = .ok u ∧ u.read p = .ok data ∧ u.NoLink q := by
  obtain ⟨x, i, hput⟩ := hq.put hwrite
  obtain ⟨y, n, hnever, hn, hleads⟩ := never_of_file hfile
  have hp : t.resolve .never p = .ok ⟨.node y n, false, false⟩ :=
    resolve_of_walks hput.same.working hnever (walk_mono hput.partOf (resolve_eq hnever))
  have hread : ∀ {u : FileSystem}, u.resolve .never p = .ok ⟨.node y (.file i), false, false⟩ →
      u.contents = t.contents → u.read p = .ok data := by
    intro u hu hcontents
    unfold read
    rw [locate_of_never hu, ← hput.contents]
    unfold contentsOf
    rw [hcontents]
    rfl
  refine ⟨_, rename_file hput.after hp hn, ?_⟩
  split
  · rename_i hsame
    subst hsame
    exact ⟨hread hp rfl, fun _ _ _ _ he => by cases hput.after.symm.trans he⟩
  · rename_i hne
    have hnode := (resolve_lands hp).node_eq rfl rfl
    have hy := ne_nil_of_node hnode hn
    have hends : ¬ t.Passable x := not_passable_file hput.node
    refine ⟨hread ?_ rfl, noLink_moved hput.after (fun hd => hends (.inl hd)) hy⟩
    have hworking : ((t.erase x).insert y (.file i)).working = t.working := rfl
    refine resolve_of_walks hworking hp (Walks.walk_eq ((resolve_walks hp).replaced ?_
      (node?_insert_self _ _ hy) hends hn ?_ rfl))
    · intro l hlx hly
      rw [node?_insert_ne _ _ hly, (sameBut_erase t x).node l hlx]
    · intro target htarget
      exact (hleads target (Option.some.inj (hnode.symm.trans htarget))).mono hput.partOf

/-! ## What is not replaced -/

/-- What stands elsewhere than what changed is found as before. -/
theorem locate_away {l : Location} {n : Node} (hsame : SameBut x fs t) (hx : ¬ fs.Passable x)
    (h : fs.locate p = .ok (l, n)) (hl : n ≠ .dir → l ≠ x) : t.locate p = .ok (l, n) := by
  obtain ⟨b, d, hr⟩ := locate_ok h
  have hr' : t.resolve .always p = .ok ⟨.node l n, b, d⟩ := by
    refine resolve_of_walks hsame.working hr
      ((resolve_walks hr).away hsame hx fun hd he => ?_).walk_eq
    have he' : l = x := he
    subst he'
    have hnode := (resolve_lands hr).node_eq rfl hd
    cases n with
    | dir => exact hx (.inl hnode)
    | file _ | link _ => exact hl (by simp) rfl
  unfold locate at h ⊢
  rw [hr] at h
  rw [hr']
  exact h

/-- The paths do not end with the same name. -/
def EndApart (p q : Path) : Prop :=
  ∃ pre n pre' m, p = pre ++ n ∧ q = pre' ++ m ∧ Path.IsOpen pre ∧ Path.IsOpen pre' ∧
    Path.slash ∉ n ∧ Path.slash ∉ m ∧ (Path.IsName n → n ≠ m)

/-- Paths that end with different names lead to different locations. -/
theorem EndApart.location_ne (h : EndApart p q) (hv : fs.resolve .never p = .ok v)
    (hw : fs.resolve .never q = .ok w) (hvs : v.slash = false) (hvd : v.dots = false)
    (hws : w.slash = false) (hwd : w.dots = false) : v.place.location ≠ w.place.location := by
  obtain ⟨pre, n, pre', m, rfl, rfl, hpre, hpre', hn, hm, hne⟩ := h
  obtain ⟨hname, d, rfl⟩ := resolve_last hpre hn hv hvs hvd
  obtain ⟨-, d', rfl⟩ := resolve_last hpre' hm hw hws hwd
  rw [location_placeAt, location_placeAt]
  intro he
  exact hne hname (List.cons.inj (List.append_inj' he rfl).2).1

/-- A path that is no link is none after something was put elsewhere or into a file. -/
theorem Put.noLink {i : Nat} (h : Put fs t q data x i) (hp : fs.NoLink p) : t.NoLink p := by
  intro loc target b d hlink
  have hnode := (resolve_lands hlink).node_eq rfl
    ((resolve_lands hlink).dots_eq fun _ he => by cases he)
  refine hp loc target b d (resolve_away h.same.symm (not_passable_file h.node) hlink ?_)
  intro he
  have hloc : loc = x := he
  rw [hloc, h.node] at hnode
  cases hnode

theorem NoLink.resolve_of_locate {l : Location} {n : Node} (hp : fs.NoLink p)
    (h : fs.locate p = .ok (l, n)) (hn : n ≠ .dir) :
    fs.resolve .never p = .ok ⟨.node l n, false, false⟩ :=
  hp.resolve_always.symm.trans (FileSystem.resolve_of_locate h hn)

/-- What is written to a path changes nothing of where a path leads that ends with another name. -/
theorem locate_beside {i : Nat} (hends : EndApart p q) (hp : fs.NoLink p)
    (h : Put fs t q data x i) (l : Location) (n : Node) :
    t.locate p = .ok (l, n) ↔ fs.locate p = .ok (l, n) := by
  obtain ⟨place, hbefore, rfl⟩ := h.before
  constructor
  · intro hl
    refine locate_away h.same.symm (not_passable_file h.node) hl fun hn => ?_
    exact hends.location_ne ((h.noLink hp).resolve_of_locate hl hn) h.after rfl rfl rfl rfl
  · intro hl
    refine locate_away h.same h.ends hl fun hn => ?_
    exact hends.location_ne (hp.resolve_of_locate hl hn) hbefore rfl rfl rfl rfl

/-- Where a file that was written cannot be renamed to, there is a directory or nothing, as there
was before. -/
theorem locate_unrenamed {i : Nat} {f : IoFault} (hp : fs.NoLink p) (h : Put fs t q data x i)
    (hrename : t.rename q p = .error f) (l : Location) (n : Node) :
    (t.locate p = .ok (l, n) ↔ fs.locate p = .ok (l, n)) ∧ (t.locate p = .ok (l, n) → n = .dir) := by
  have hdir (hl : t.locate p = .ok (l, n)) : n = .dir := by
    by_contra hn
    have hend := (h.noLink hp).resolve_of_locate hl hn
    rw [rename_file h.after hend hn] at hrename
    cases hrename
  refine ⟨⟨fun hl => ?_, fun hl => ?_⟩, hdir⟩
  · exact locate_away h.same.symm (not_passable_file h.node) hl fun hn => absurd (hdir hl) hn
  · refine locate_away h.same h.ends hl fun hn => ?_
    have hend := hp.resolve_of_locate hl hn
    have hend' := resolve_of_walks h.same.working hend (walk_mono h.partOf (resolve_eq hend))
    rw [rename_file h.after hend' hn] at hrename
    cases hrename

end SharedRuntime.FileSystem
