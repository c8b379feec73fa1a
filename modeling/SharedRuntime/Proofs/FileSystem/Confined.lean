import SharedRuntime.Proofs.FileSystem.Operations
import SharedRuntime.Proofs.FileSystem.Script

/-!
# Changes that stay inside a directory

`Confined base made fs fs'` says that from `fs` to `fs'` nothing changed outside the location
`base`, but that directories may have come where nothing was, at the locations in `made`. It is
kept by every operation on a path that leads inside (`LeadsInto`), as long as no file has one name
inside and another outside (`Sealed`); the operations keep that as well. `Within` is both together,
and it goes along scripts (`Stays`).
-/

set_option autoImplicit false

namespace SharedRuntime

namespace FileSystem

/-- A tree in which no file below a location is also named outside. New files get identities of
their own, and relative paths start at a location that has proper names. -/
structure Sealed (base : Location) (fs : FileSystem) : Prop where
  fresh : ∀ l id, fs.node? l = some (.file id) → id < fs.fresh
  apart : ∀ l m id, base <+: l → fs.node? l = some (.file id) → fs.node? m = some (.file id) →
    base <+: m
  named : ∀ n ∈ fs.working, Path.IsName n

/-- Nothing changed outside a location, except for directories that were missing and allowed. -/
structure Confined (base : Location) (made : List Location) (fs fs' : FileSystem) : Prop where
  node : ∀ l, ¬ base <+: l → fs'.node? l = fs.node? l ∨
    (l ∈ made ∧ fs.node? l = none ∧ fs'.node? l = some .dir)
  contents : ∀ l id, ¬ base <+: l → fs.node? l = some (.file id) →
    fs'.contentsOf id = fs.contentsOf id
  dir : ∀ l, fs.node? l = some .dir → fs'.node? l = some .dir
  working : fs'.working = fs.working

/-- A sealed tree stays sealed, and the changes are confined. -/
def Within (base : Location) (made : List Location) (fs fs' : FileSystem) : Prop :=
  Sealed base fs → Sealed base fs' ∧ Confined base made fs fs'

variable {base : Location} {made : List Location} {fs fs' : FileSystem}

theorem Confined.refl : Confined base made fs fs :=
  ⟨fun _ _ => .inl rfl, fun _ _ _ _ => rfl, fun _ h => h, rfl⟩

theorem Confined.trans {t : FileSystem} (h : Confined base made fs t)
    (k : Confined base made t fs') : Confined base made fs fs' := by
  refine ⟨fun l hl => ?_, fun l id hl hn => ?_, fun l hn => k.dir l (h.dir l hn),
    k.working.trans h.working⟩
  · rcases h.node l hl with h1 | ⟨hin, hnone, hdir⟩
    · rcases k.node l hl with k1 | ⟨hin, hnone, hdir⟩
      · exact .inl (k1.trans h1)
      · exact .inr ⟨hin, h1.symm.trans hnone, hdir⟩
    · exact .inr ⟨hin, hnone, k.dir l hdir⟩
  · have hn' : t.node? l = some (.file id) := by
      rcases h.node l hl with h1 | ⟨-, hnone, -⟩
      · exact h1.trans hn
      · rw [hnone] at hn
        cases hn
    exact (k.contents l id hl hn').trans (h.contents l id hl hn)

theorem Within.refl : Within base made fs fs := fun h => ⟨h, .refl⟩

theorem Within.trans {t : FileSystem} (h : Within base made fs t) (k : Within base made t fs') :
    Within base made fs fs' := by
  intro hs
  obtain ⟨ht, h1⟩ := h hs
  obtain ⟨hs', k1⟩ := k ht
  exact ⟨hs', h1.trans k1⟩

/-! ## Changes at one location -/

theorem contentsOf_setContents (fs : FileSystem) (data : Bytes) {id other : Nat}
    (h : other ≠ id) : (fs.setContents id data).contentsOf other = fs.contentsOf other := by
  have hlookup : ∀ es : List (Nat × Bytes),
      (es.filter fun e => e.1 != id).lookup other = es.lookup other := by
    intro es
    induction es with
    | nil => rfl
    | cons e es ih =>
      obtain ⟨k, bytes⟩ := e
      by_cases hk : k = id
      · rw [List.filter_cons_of_neg (by simpa using hk), ih, List.lookup_cons, hk,
          beq_eq_false_iff_ne.2 h]
      · rw [List.filter_cons_of_pos (by simpa using hk), List.lookup_cons, List.lookup_cons, ih]
  unfold contentsOf setContents
  dsimp only
  rw [List.lookup_cons, beq_eq_false_iff_ne.2 h]
  dsimp only
  rw [hlookup]

theorem node?_insertFile (fs : FileSystem) (l m : Location) (data : Bytes) :
    (fs.insertFile l data).node? m =
      if m = [] then some .dir else if m = l then some (.file fs.fresh) else fs.node? m :=
  node?_insert fs l m (.file fs.fresh)

section
variable {l : Location} (hl : base <+: l)
include hl

theorem ne_of_outside {m : Location} (hm : ¬ base <+: m) : m ≠ l := by
  rintro rfl
  exact hm hl

/-- A node may be put inside, but a file only if it has no name outside. -/
theorem within_insert {node : Node} (hfree : fs.node? l ≠ some .dir)
    (hnode : Sealed base fs → ∀ id, node = .file id →
      id < fs.fresh ∧ ∀ m, fs.node? m = some (.file id) → base <+: m) :
    Within base made fs (fs.insert l node) := by
  intro hs
  have hfile := hnode hs
  have hold : ∀ m id, (fs.insert l node).node? m = some (.file id) →
      (m = l ∧ node = .file id) ∨ fs.node? m = some (.file id) := by
    intro m id hm
    rw [node?_insert] at hm
    split at hm
    · cases hm
    · split at hm
      · rename_i hml
        exact .inl ⟨hml, Option.some.inj hm⟩
      · exact .inr hm
  refine ⟨⟨fun m id hm => ?_, fun m m' id hm h1 h2 => ?_, hs.named⟩,
    ⟨fun m hm => .inl ?_, fun _ _ _ _ => rfl, fun m hm => ?_, rfl⟩⟩
  · rcases hold m id hm with ⟨-, hid⟩ | hm
    · exact (hfile id hid).1
    · exact hs.fresh m id hm
  · rcases hold m' id h2 with ⟨rfl, -⟩ | h2
    · exact hl
    · rcases hold m id h1 with ⟨-, hid⟩ | h1
      · exact (hfile id hid).2 m' h2
      · exact hs.apart m m' id hm h1 h2
  · rw [node?_insert, if_neg (ne_of_outside hl hm)]
    split
    · rename_i hnil
      rw [hnil]
      rfl
    · rfl
  · rw [node?_insert]
    split
    · rfl
    · split
      · rename_i hml
        rw [hml] at hm
        exact absurd hm hfree
      · exact hm

theorem within_setContents {id : Nat} {data : Bytes} (hn : fs.node? l = some (.file id)) :
    Within base made fs (fs.setContents id data) := by
  intro hs
  refine ⟨⟨hs.fresh, hs.apart, hs.named⟩, ⟨fun m _ => .inl rfl, fun m id' hm hn' => ?_,
    fun m hm => hm, rfl⟩⟩
  refine contentsOf_setContents fs data ?_
  rintro rfl
  exact hm (hs.apart l m id' hl hn hn')

theorem within_insertFile {data : Bytes} (hfree : fs.node? l ≠ some .dir) :
    Within base made fs (fs.insertFile l data) := by
  intro hs
  have hold : ∀ m id, (fs.insertFile l data).node? m = some (.file id) →
      (m = l ∧ id = fs.fresh) ∨ fs.node? m = some (.file id) := by
    intro m id hm
    rw [node?_insertFile] at hm
    split at hm
    · cases hm
    · split at hm
      · rename_i hml
        cases hm
        exact .inl ⟨hml, rfl⟩
      · exact .inr hm
  refine ⟨⟨fun m id hm => ?_, fun m m' id hm h1 h2 => ?_, hs.named⟩,
    ⟨fun m hm => .inl ?_, fun m id hm hn => ?_, fun m hm => ?_, rfl⟩⟩
  · have hlt : id < fs.fresh + 1 := by
      rcases hold m id hm with ⟨-, hid⟩ | hm
      · omega
      · have := hs.fresh m id hm
        omega
    exact hlt
  · rcases hold m' id h2 with ⟨rfl, -⟩ | h2
    · exact hl
    · rcases hold m id h1 with ⟨-, hid⟩ | h1
      · have := hs.fresh m' id h2
        omega
      · exact hs.apart m m' id hm h1 h2
  · rw [node?_insertFile, if_neg (ne_of_outside hl hm)]
    split
    · rename_i hnil
      rw [hnil]
      rfl
    · rfl
  · have hlt := hs.fresh m id hn
    exact contentsOf_setContents _ data (by omega)
  · rw [node?_insertFile]
    split
    · rfl
    · rw [if_neg]
      · exact hm
      · rintro rfl
        exact hfree hm

theorem within_erase (hfree : fs.node? l ≠ some .dir) : Within base made fs (fs.erase l) := by
  intro hs
  have hold : ∀ m id, (fs.erase l).node? m = some (.file id) →
      fs.node? m = some (.file id) := by
    intro m id hm
    rw [node?_erase] at hm
    split at hm
    · cases hm
    · split at hm
      · cases hm
      · exact hm
  refine ⟨⟨fun m id hm => hs.fresh m id (hold m id hm), fun m m' id hm h1 h2 =>
    hs.apart m m' id hm (hold m id h1) (hold m' id h2), hs.named⟩,
    ⟨fun m hm => .inl ?_, fun _ _ _ _ => rfl, fun m hm => ?_, rfl⟩⟩
  · rw [node?_erase, if_neg (ne_of_outside hl hm)]
    split
    · rename_i hnil
      rw [hnil]
      rfl
    · rfl
  · rw [node?_erase]
    split
    · rfl
    · rw [if_neg]
      · exact hm
      · rintro rfl
        exact hfree hm

end

/-! ## Operations on paths that lead inside -/

/-- Does the path lead inside a location? A directory that is there may be outside, for no
operation changes one. -/
def LeadsInto (fs : FileSystem) (base : Location) (follow : Follow) (p : Path) : Prop :=
  ∀ w, fs.resolve follow p = .ok w → (∃ l, w.place = .node l .dir) ∨ base <+: w.place.location

section
variable {p : Path}

theorem LeadsInto.free {follow : Follow} {dir : Location} {name : Bytes} {s d : Bool}
    (hp : fs.LeadsInto base follow p) (h : fs.resolve follow p = .ok ⟨.free dir name, s, d⟩) :
    base <+: dir ++ [name] ∧ fs.node? (dir ++ [name]) ≠ some .dir := by
  refine ⟨?_, ?_⟩
  · rcases hp _ h with ⟨l, hl⟩ | hin
    · cases hl
    · exact hin
  · have hnone : fs.node? (dir ++ [name]) = none := resolve_holds h
    rw [hnone]
    simp

theorem LeadsInto.node {follow : Follow} {loc : Location} {node : Node} {s d : Bool}
    (hp : fs.LeadsInto base follow p) (h : fs.resolve follow p = .ok ⟨.node loc node, s, d⟩)
    (hn : node ≠ .dir) : base <+: loc ∧ fs.node? loc = some node := by
  refine ⟨?_, ?_⟩
  · rcases hp _ h with ⟨l, hl⟩ | hin
    · cases hl
      exact absurd rfl hn
    · exact hin
  · rcases resolve_holds h with hdir | hnode
    · exact absurd hdir hn
    · exact hnode

/-- Does the path, all links followed, lead to something inside a location? -/
def LiesIn (fs : FileSystem) (base : Location) (p : Path) : Prop :=
  ∃ loc node, fs.locate p = .ok (loc, node) ∧ base <+: loc

theorem erase_partOf (fs : FileSystem) (loc : Location) : (fs.erase loc).PartOf fs := by
  intro l node h
  rw [node?_erase] at h
  split at h
  · rename_i hnil
    rw [hnil]
    exact h
  · split at h
    · cases h
    · exact h

/-- A path leads inside if the one above it does, be it in a tree that has more nodes. -/
theorem leadsInto_child {whole : FileSystem} {parent : Path} {n : Bytes} (hsub : fs.PartOf whole)
    (hstart : fs.start p = whole.start parent) (hnames : Path.names p = Path.names parent ++ [n])
    (hn : Path.IsName n) (hin : whole.LiesIn base parent) : fs.LeadsInto base .never p := by
  intro w hr
  have hwalk := resolve_eq hr
  rw [hnames] at hwalk
  obtain ⟨k, loc, hparent, hlast⟩ := walk_append (List.cons_ne_nil n []) hwalk
  obtain ⟨loc', node, hlocate, hbase⟩ := hin
  obtain ⟨s, d, hr'⟩ := locate_ok hlocate
  have hsame : loc' = loc := by
    have h1 := resolve_eq hr'
    obtain ⟨s', d', h2⟩ := hparent (parent.getLast? == some Path.slash)
    rw [hstart] at h2
    have h3 := walk_mono hsub h2
    rw [h1] at h3
    cases h3
    rfl
  subst hsame
  right
  rw [walk_name hn hlast]
  exact hbase.trans (List.prefix_append loc' [n])

theorem within_write {data : Bytes} (hp : fs.LeadsInto base .always p)
    (h : fs.write p data = .ok fs') : Within base made fs fs' := by
  obtain ⟨place, d, hr, ⟨loc, id, rfl, rfl⟩ | ⟨dir, name, rfl, rfl⟩⟩ := write_ok h
  · obtain ⟨hin, hnode⟩ := hp.node hr (fun hn => by cases hn)
    exact within_setContents hin hnode
  · obtain ⟨hin, hfree⟩ := hp.free hr
    exact within_insertFile hin hfree

theorem within_writeNew {data : Bytes} (hp : fs.LeadsInto base .never p)
    (h : fs.writeNew p data = .ok fs') : Within base made fs fs' := by
  obtain ⟨dir, name, s, d, hr, rfl⟩ := writeNew_ok h
  obtain ⟨hin, hfree⟩ := hp.free hr
  exact within_insertFile hin hfree

theorem within_makeDir (hp : fs.LeadsInto base .never p) (h : fs.makeDir p = .ok fs') :
    Within base made fs fs' := by
  obtain ⟨dir, name, s, d, hr, rfl⟩ := makeDir_ok h
  obtain ⟨hin, hfree⟩ := hp.free hr
  exact within_insert hin hfree fun _ id hid => by cases hid

theorem within_remove (hp : fs.LeadsInto base .never p) (h : fs.remove p = .ok fs') :
    Within base made fs fs' := by
  obtain ⟨loc, node, s, hr, hn, rfl⟩ := remove_ok h
  obtain ⟨hin, hnode⟩ := hp.node hr hn
  refine within_erase hin fun hdir => hn ?_
  rw [hnode] at hdir
  exact Option.some.inj hdir

theorem within_makeLink {target : Path} (hp : fs.LeadsInto base .never p)
    (h : fs.makeLink target p = .ok fs') : Within base made fs fs' := by
  obtain ⟨dir, name, d, hr, rfl⟩ := makeLink_ok h
  obtain ⟨hin, hfree⟩ := hp.free hr
  exact within_insert hin hfree fun _ id hid => by cases hid

/-- A file that is found inside has its name there. -/
theorem LiesIn.file {id : Nat} (hin : fs.LiesIn base p) (h : fs.inspect p = .ok (.file id)) :
    ∃ l, base <+: l ∧ fs.node? l = some (.file id) := by
  obtain ⟨loc, s, d, hr⟩ := inspect_ok h
  have halways := resolve_always hr fun l target t b hl => by cases hl
  obtain ⟨loc', node, hl, hbase⟩ := hin
  obtain ⟨s', d', hr'⟩ := locate_ok hl
  rw [halways] at hr'
  cases hr'
  refine ⟨loc, hbase, ?_⟩
  rcases resolve_holds hr with hdir | hnode
  · cases hdir
  · exact hnode

theorem within_makeHardLink {old : Path} (hp : fs.LeadsInto base .never p)
    (hold : ∀ id, fs.inspect old = .ok (.file id) →
      ∃ l, base <+: l ∧ fs.node? l = some (.file id))
    (h : fs.makeHardLink old p = .ok fs') : Within base made fs fs' := by
  obtain ⟨source, dir, name, d, hi, -, hr, rfl⟩ := makeHardLink_ok h
  obtain ⟨hin, hfree⟩ := hp.free hr
  refine within_insert hin hfree fun hs id hid => ?_
  subst hid
  obtain ⟨l, hl, hn⟩ := hold id hi
  exact ⟨hs.fresh l id hn, fun m hm => hs.apart l m id hl hn hm⟩

theorem within_rename {new : Path} (hp : fs.LeadsInto base .never p)
    (hq : fs.LeadsInto base .never new) (h : fs.rename p new = .ok fs') :
    Within base made fs fs' := by
  obtain ⟨source, node, place, hr, hn, hr', hcase⟩ := rename_ok h
  obtain ⟨hsource, hnode⟩ := hp.node hr hn
  have hsdir : fs.node? source ≠ some .dir := by
    intro hdir
    rw [hnode] at hdir
    exact hn (Option.some.inj hdir)
  -- The name goes first; what it stood for is still of no other place than inside.
  have hmove : ∀ target, base <+: target → fs.node? target ≠ some .dir →
      Within base made fs ((fs.erase source).insert target node) := by
    intro target ht htdir hs
    have herase : Within base made fs (fs.erase source) := within_erase hsource hsdir
    refine herase.trans (within_insert ht ?_ fun _ id hid => ?_) hs
    · rw [node?_erase]
      split
      · rename_i hnil
        rw [hnil] at htdir
        exact absurd rfl htdir
      · split
        · simp
        · exact htdir
    · subst hid
      refine ⟨hs.fresh source id hnode, fun m hm => ?_⟩
      rw [node?_erase] at hm
      split at hm
      · cases hm
      · split at hm
        · cases hm
        · exact hs.apart source m id hsource hnode hm
  rcases hcase with ⟨dir, name, rfl, rfl⟩ | ⟨target, other, rfl, ho, rfl | rfl⟩
  · obtain ⟨hin, hfree⟩ := hq.free hr'
    exact hmove _ hin hfree
  · exact .refl
  · obtain ⟨hin, hother⟩ := hq.node hr' ho
    refine hmove _ hin fun hdir => ho ?_
    rw [hother] at hdir
    exact Option.some.inj hdir

end

end FileSystem

/-! ## Scripts -/

namespace Script

open FileSystem

instance (base : Location) (made : List Location) : Frame (Within base made) :=
  ⟨fun _ => .refl, .trans⟩

/-- Whatever a script changes when it runs on a tree is confined. -/
abbrev Stays {ε α : Type} (base : Location) (made : List Location) (s : Script ε α)
    (fs : FileSystem) : Prop := Keeps (Within base made) s fs

end Script

end SharedRuntime
