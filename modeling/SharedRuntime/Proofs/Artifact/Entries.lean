import SharedRuntime.Proofs.Archive.Tar
import SharedRuntime.Proofs.Artifact.Enclosed
import SharedRuntime.Proofs.Artifact.Unpacking

/-!
# Entries stay in the destination

An entry is unpacked inside the destination if no link stands in the way of where it goes
(`stays_unpackEntry`), and so are entries one after the other as long as this holds of each in its
turn (`stays_entries`). Entries other than tarballs with links make none (`unpackEntry_noNewLinks`).
-/

set_option autoImplicit false

namespace SharedRuntime

open FileSystem Script

theorem FileSystem.isName_descend {dir : Location} {ns : List Bytes}
    (hdir : ∀ n ∈ dir, Path.IsName n) (hns : ∀ n ∈ ns, n ≠ [] ∧ Path.slash ∉ n) :
    ∀ n ∈ descend dir ns, Path.IsName n := by
  induction ns generalizing dir with
  | nil => exact hdir
  | cons m ns ih =>
    have hrest : ∀ n ∈ ns, n ≠ [] ∧ Path.slash ∉ n := fun n hn => hns n (List.mem_cons_of_mem _ hn)
    obtain ⟨hne, hs⟩ := hns m List.mem_cons_self
    by_cases hh : m = Path.here
    · rw [hh, descend_here]
      exact ih hdir hrest
    by_cases hu : m = Path.up
    · rw [hu, descend_up]
      exact ih (fun n hn => hdir n (List.dropLast_subset _ hn)) hrest
    · rw [descend_cons _ _ hh hu]
      refine ih (fun n hn => ?_) hrest
      rcases List.mem_append.1 hn with hn | hn
      · exact hdir n hn
      · rw [List.mem_singleton.1 hn]
        exact ⟨hne, hh, hu, hs⟩

theorem FileSystem.isName_routeEnd {fs : FileSystem} (hw : ∀ n ∈ fs.working, Path.IsName n)
    (p : Path) : ∀ n ∈ fs.routeEnd p, Path.IsName n := by
  refine isName_descend (fun n hn => ?_) fun n hn => Path.mem_names hn
  unfold FileSystem.start at hn
  split at hn
  · cases hn
  · exact hw n hn

namespace Unpacking

variable {base : Location} {made : List Location} {fs fs' : FileSystem} {dest p : Path}

/-! ## Paths without links on the way -/

/-- The destination is there, and the way to it is one of directories. -/
structure Ready (base : Location) (dest : Path) (fs : FileSystem) : Prop where
  ends : fs.routeEnd dest = base
  dirs : ∀ l ∈ fs.routeOf dest, fs.node? l = some .dir

theorem Ready.keep (h : Ready base dest fs) (hw : fs'.working = fs.working)
    (hdir : ∀ l, fs.node? l = some .dir → fs'.node? l = some .dir) : Ready base dest fs' := by
  obtain ⟨hroute, hend⟩ := routeOf_congr hw dest
  refine ⟨hend.trans h.ends, fun l hl => hdir l (h.dirs l ?_)⟩
  rw [← hroute]
  exact hl

theorem Ready.confined (h : Ready base dest fs) (hc : Confined base made fs fs') :
    Ready base dest fs' := h.keep hc.working hc.dir

theorem Ready.grown {locs : List Location} (h : Ready base dest fs) (hg : Grown locs fs fs') :
    Ready base dest fs' := h.keep hg.working fun _ hl => hg.dir hl

theorem Below.congr (h : Below fs dest p) (hw : fs'.working = fs.working) :
    Below fs' dest p := by
  intro l hl
  rw [(routeOf_congr hw dest).1, (routeOf_congr hw dest).2]
  rw [(routeOf_congr hw p).1] at hl
  exact h l hl

/-- What is on the way to the destination is a directory, the rest is inside. -/
theorem Ready.route (h : Ready base dest fs) (hb : Below fs dest p) :
    ∀ l ∈ fs.routeOf p, base <+: l ∨ fs.node? l = some .dir := by
  intro l hl
  rcases hb l hl with hdest | hin
  · exact .inr (h.dirs l hdest)
  · rw [h.ends] at hin
    exact .inl hin

theorem Ready.leadsInto (h : Ready base dest fs) (hd : fs.Direct p) (hb : Below fs dest p) :
    fs.LeadsInto base .always p := by
  intro w hr
  have hends := resolve_ends hd hr
  cases hends with
  | dots hall => exact .inl ⟨_, rfl⟩
  | node hin hnode hall =>
    rcases h.route hb _ hin with hbase | hdir
    · exact .inr hbase
    · rw [hdir] at hnode
      cases hnode
      exact .inl ⟨_, rfl⟩
  | free heq hin hnone hall =>
    rcases h.route hb _ hin with hbase | hdir
    · exact .inr hbase
    · rw [hnone] at hdir
      cases hdir

theorem Ready.within_grown {locs : List Location} (h : Ready base dest fs) (hb : Below fs dest p)
    (hg : Grown locs fs fs') (hlocs : ∀ l ∈ locs, l ∈ fs.routeOf p) :
    Within base made fs fs' := by
  refine hg.within fun l hl => ?_
  rcases h.route hb l (hlocs l hl) with hbase | hdir
  · exact .inl hbase
  · exact .inr (.inr hdir)

/-- A path whose parent is reached without links, itself not followed, leads into the parent. -/
theorem leadsInto_last {n : Bytes} (hd : fs.Direct dest)
    (hnames : Path.names p = Path.names dest ++ [n]) (hstart : fs.start p = fs.start dest)
    (hn : Path.IsName n) : fs.LeadsInto (fs.routeEnd dest) .never p := by
  intro w hr
  have hwalk := resolve_eq hr
  rw [hnames, hstart] at hwalk
  obtain ⟨k, loc, hparent, hlast⟩ := walk_append (List.cons_ne_nil n []) hwalk
  obtain ⟨s', d', h⟩ := hparent false
  have hloc : loc = fs.routeEnd dest := by
    have hends := (walks_of_walk h).ends hd
    cases hends with
    | dots hall => rfl
    | node hin hnode hall => rfl
  right
  rw [walk_name hn hlast, hloc]
  exact List.prefix_append _ _

theorem Ready.direct (h : Ready base dest fs) : fs.Direct dest := by
  intro l hl target hlink
  rw [h.dirs l hl] at hlink
  cases hlink

theorem below_last {n : Bytes} (hnames : Path.names p = Path.names dest ++ [n])
    (hstart : fs.start p = fs.start dest) (hn : Path.IsName n) : Below fs dest p := by
  intro l hl
  unfold routeOf at hl
  rw [hnames, hstart, route_append, route_cons _ _ hn.ne_here hn.ne_up] at hl
  rcases List.mem_append.1 hl with hl | hl
  · exact .inl hl
  · rw [List.mem_singleton.1 hl]
    exact .inr (List.prefix_append _ _)

/-! ## Entries -/

/-- Are the contents of an entry compressed, by the first read of a copy? -/
def isGzip (s : ByteStream) : Bool :=
  match s.read ByteStream.copySize with
  | .ok (head, _) => Bytes.startsWith Gzip.magic head
  | .error _ => false

theorem isGzip_of_read {s rest : ByteStream} {head : Bytes}
    (h : (s.read ByteStream.copySize).mapError ArchiveFault.io = .ok (head, rest)) :
    isGzip s = Bytes.startsWith Gzip.magic head := by
  unfold isGzip
  cases hr : s.read ByteStream.copySize with
  | error f =>
    rw [hr] at h
    cases h
  | ok x =>
    rw [hr] at h
    cases h
    rfl

theorem openEntry_of_mapError {z : Zip} {e : Zip.Entry} {s : ByteStream}
    (h : (z.openEntry e).mapError ArchiveFault.archive = .ok s) : z.openEntry e = .ok s := by
  cases ho : z.openEntry e with
  | error f =>
    rw [ho] at h
    cases h
  | ok s' =>
    rw [ho] at h
    cases h
    rfl

theorem target?_some {name : String} (h : target? dest name = .ok (some p)) :
    Enclosed (Path.ofString name) ∧ p = Path.join dest (Path.ofString name) := by
  unfold target? at h
  split at h
  · split at h
    · rename_i rel hrel
      obtain ⟨rfl, henc⟩ := enclosed?_some hrel
      cases h
      exact ⟨henc, rfl⟩
    · cases h
  · cases h

/-- Where an entry is unpacked: the file that is written, or the directory of a tarball. -/
def landing (compressed : Bool) (name : String) (p : Path) (s : ByteStream) : Path :=
  if compressed && isGzip s then
    if isTarball name then (Path.parent? p).getD p else decompressedPath name p
  else p

theorem below_landing {compressed : Bool} {name : String} {s : ByteStream}
    (henc : Enclosed (Path.ofString name)) (hp : p = Path.join dest (Path.ofString name)) :
    Below fs dest (landing compressed name p s) := by
  unfold landing
  split
  · split
    · rename_i ht
      exact (below_parent henc ht hp).1
    · exact hp ▸ below_decompressedPath henc
  · exact hp ▸ below_join henc

theorem makeParent_grown (hd : fs.Direct p) :
    Grown (fs.routeOf p) fs ((makeParent p).perform fs).2 := by
  unfold makeParent
  cases hq : Path.parent? p with
  | none => exact .refl
  | some q =>
    obtain ⟨hcomps, habs⟩ := Path.comps_parent? hq
    have hsub : ∀ l ∈ fs.routeOf q, l ∈ fs.routeOf p :=
      routeOf_of_comps (hcomps ▸ List.dropLast_prefix _) habs
    have hg : Grown (fs.routeOf q) fs (fs.makeDirAll q).2 :=
      makeDirAll_grown fun l hl => hd l (hsub l hl)
    dsimp only
    rw [perform_withFault, perform_makeDirAll]
    exact ⟨fun l => (hg.node l).imp id fun ⟨hin, h⟩ => ⟨hsub l hin, h⟩, hg.contents, hg.fresh,
      hg.working⟩

theorem stays_copyTo (h : Ready base dest fs) (hd : fs.Direct p) (hb : Below fs dest p)
    (s : ByteStream) : Stays base made (copyTo p s) fs := by
  unfold copyTo
  refine .bind (.withFault _ (keeps_change fun t ht => ?_)) fun _ t _ => ?_
  · exact within_write (h.leadsInto hd hb) ht
  · split
    · exact keeps_pure ()
    · exact keeps_fail _

/-- A plain file lands inside. -/
theorem stays_place (h : Ready base dest fs) (hd : fs.Direct p) (hb : Below fs dest p)
    (s : ByteStream) : Stays base made (place p s) fs := by
  have hg := makeParent_grown hd
  unfold place
  refine .bind (h.within_grown hb hg fun _ hl => hl) fun _ t ht => ?_
  rw [ht] at hg
  exact stays_copyTo (h.grown hg) (hg.direct hd) (hb.congr hg.working) s

/-- The members of a tarball land inside. -/
theorem stays_tarball (h : Ready base dest fs) (hd : fs.Direct p) (hb : Below fs dest p)
    (hend : ∃ ys, fs.routeEnd p = fs.routeEnd dest ++ ys) (s : ByteStream) :
    Stays base made (do
      withFault ArchiveFault.io (makeDirAll p)
      withFault ArchiveFault.io (Tar.unpack s p)) fs := by
  have hg := makeDirAll_grown hd
  refine .bind (.withFault _ ?_) fun _ t ht => .withFault _ ?_
  · exact h.within_grown hb hg fun _ hl => hl
  rw [perform_withFault, perform_makeDirAll] at ht
  obtain ⟨-, rfl⟩ := Prod.mk.inj ht
  intro hs
  refine Tar.stays_unpack (fun loc node hl => ?_) hs
  obtain ⟨s', d', hr⟩ := locate_ok hl
  have hloc : loc = (fs.makeDirAll p).2.routeEnd p := by
    have hends := resolve_ends (hg.direct hd) hr
    cases hends with
    | dots hall => rfl
    | node hin hnode hall => rfl
  refine ⟨?_, fun n hn => isName_routeEnd hs.named p n (hloc ▸ hn)⟩
  obtain ⟨ys, hys⟩ := hend
  rw [hloc, (routeOf_congr hg.working p).2, hys, h.ends]
  exact List.prefix_append _ _

theorem stays_decompressEntry {name : String} {s : ByteStream} (h : Ready base dest fs)
    (henc : Enclosed (Path.ofString name)) (hp : p = Path.join dest (Path.ofString name))
    (hd : fs.Direct (landing true name p s)) :
    Stays base made (decompressEntry name p s) fs := by
  unfold decompressEntry
  refine .bind (keeps_outcome _) fun x t ht => ?_
  rw [perform_outcome] at ht
  obtain ⟨hread, rfl⟩ := Prod.mk.inj ht
  obtain ⟨head, rest⟩ := x
  unfold landing at hd
  rw [Bool.true_and, isGzip_of_read hread] at hd
  dsimp only
  cases hhead : Bytes.startsWith Gzip.magic head with
  | false =>
    rw [hhead, if_neg Bool.false_ne_true] at hd
    rw [if_pos Bool.not_false]
    exact stays_place h hd (hp ▸ below_join henc) s
  | true =>
    rw [hhead, if_pos rfl] at hd
    rw [Bool.not_true, if_neg Bool.false_ne_true]
    cases ht : isTarball name with
    | true =>
      rw [ht, if_pos rfl] at hd
      rw [if_pos rfl]
      obtain ⟨hb, hend⟩ := below_parent henc ht hp
      exact stays_tarball h hd hb hend _
    | false =>
      rw [ht, if_neg Bool.false_ne_true] at hd
      rw [if_neg Bool.false_ne_true]
      exact stays_place h hd (hp ▸ below_decompressedPath henc) _

/-- An entry is unpacked inside if no link stands in the way of where it goes. -/
theorem stays_unpackEntry {compressed : Bool} {z : Zip} {e : Zip.Entry} (h : Ready base dest fs)
    (hd : ∀ s p, z.openEntry e = .ok s → target? dest e.name = .ok (some p) →
      fs.Direct (landing compressed e.name p s)) :
    Stays base made (unpackEntry (entryAction compressed) z dest e) fs := by
  unfold unpackEntry
  refine .bind (keeps_outcome _) fun s t ht => ?_
  rw [perform_outcome] at ht
  obtain ⟨hopen, rfl⟩ := Prod.mk.inj ht
  refine .bind (keeps_outcome _) fun target t ht => ?_
  rw [perform_outcome] at ht
  obtain ⟨htarget, rfl⟩ := Prod.mk.inj ht
  cases target with
  | none => exact keeps_pure ()
  | some p =>
    have hdirect := hd s p (openEntry_of_mapError hopen) htarget
    obtain ⟨henc, rfl⟩ := target?_some htarget
    cases compressed with
    | true => exact stays_decompressEntry h henc rfl hdirect
    | false => exact stays_place h hdirect (below_join henc) s

/-- Entry by entry, as long as no link stands in the way of the next. -/
theorem stays_entries {compressed : Bool} {z : Zip} {es : List Zip.Entry}
    (h : Ready base dest fs)
    (hd : ∀ before e after t, es = before ++ e :: after →
      (inOrder (before.map (unpackEntry (entryAction compressed) z dest))).perform fs =
        (.ok (), t) →
      ∀ s p, z.openEntry e = .ok s → target? dest e.name = .ok (some p) →
        t.Direct (landing compressed e.name p s)) :
    Stays base made (inOrder (es.map (unpackEntry (entryAction compressed) z dest))) fs := by
  induction es generalizing fs with
  | nil => exact keeps_pure ()
  | cons e es ih =>
    have hentry : Stays base made (unpackEntry (entryAction compressed) z dest e) fs :=
      stays_unpackEntry h (hd [] e es fs rfl rfl)
    intro hs
    refine Keeps.bind hentry (fun u t ht => ih ?_ fun before e' after t' hsplit hrun => ?_) hs
    · obtain ⟨-, hconfined⟩ := hentry hs
      rw [ht] at hconfined
      exact h.confined hconfined
    · refine hd (e :: before) e' after t' (by rw [hsplit, List.cons_append]) ?_
      rw [List.map_cons, perform_inOrder_cons, ht]
      exact hrun

/-! ## Entries without links -/

/-- Does an entry hold a tarball with a link in it? -/
def holdsLink (compressed : Bool) (name : String) (s : ByteStream) : Bool :=
  compressed && isGzip s && isTarball name &&
    (Tar.members (Gzip.unzip s)).1.any Tar.Member.isLink

theorem place_noNewLinks (s : ByteStream) : Keeps NoNewLinks (place p s) fs := by
  have hparent : Keeps NoNewLinks (makeParent p) fs := by
    unfold makeParent
    split
    · exact .withFault _ (noNewLinks_makeDirAll _)
    · exact keeps_pure ()
  refine .bind hparent fun _ t _ => .bind (.withFault _ ?_) fun _ t _ => ?_
  · exact keeps_change fun t h => noNewLinks_write h
  · split
    · exact keeps_pure ()
    · exact keeps_fail _

theorem decompressEntry_noNewLinks {name : String} {s : ByteStream}
    (h : holdsLink true name s = false) : Keeps NoNewLinks (decompressEntry name p s) fs := by
  unfold decompressEntry
  refine .bind (keeps_outcome _) fun x t ht => ?_
  rw [perform_outcome] at ht
  obtain ⟨hread, rfl⟩ := Prod.mk.inj ht
  obtain ⟨head, rest⟩ := x
  unfold holdsLink at h
  rw [Bool.true_and, isGzip_of_read hread] at h
  dsimp only
  split
  · exact place_noNewLinks s
  rename_i hhead
  have hgzip : Bytes.startsWith Gzip.magic head = true := by simpa using hhead
  split
  · rename_i ht
    have hmembers : ∀ m ∈ (Tar.members (Gzip.unzip s)).1, m.isLink = false := by
      simpa [ht, hgzip] using h
    refine .bind (.withFault _ (noNewLinks_makeDirAll _)) fun _ t _ => .withFault _ ?_
    exact Tar.unpack_noNewLinks hmembers
  · exact place_noNewLinks _

theorem unpackEntry_noNewLinks {compressed : Bool} {z : Zip} {e : Zip.Entry}
    (h : ∀ s, z.openEntry e = .ok s → holdsLink compressed e.name s = false) :
    Keeps NoNewLinks (unpackEntry (entryAction compressed) z dest e) fs := by
  unfold unpackEntry
  refine .bind (keeps_outcome _) fun s t ht => .bind (keeps_outcome _) fun target t' _ => ?_
  rw [perform_outcome] at ht
  obtain ⟨hopen, rfl⟩ := Prod.mk.inj ht
  have hlink := h s (openEntry_of_mapError hopen)
  cases target with
  | none => exact keeps_pure ()
  | some p =>
    cases compressed with
    | true => exact decompressEntry_noNewLinks hlink
    | false => exact place_noNewLinks s

end Unpacking

end SharedRuntime
