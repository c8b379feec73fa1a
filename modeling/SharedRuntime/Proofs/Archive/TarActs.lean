import SharedRuntime.Proofs.Archive.Tar
import SharedRuntime.Proofs.FileSystem.Acts

/-!
# What unpacking a tarball does

An archive is unpacked by acts that its members and the location of its directory decide
(`unpack_acts`): the directory of each member is needed, a member that is a directory is needed, a
hard link is another name for what it points to, any other takes the place of what its path names.
-/

set_option autoImplicit false

namespace SharedRuntime

namespace Tar

open FileSystem Script

variable {base : Location} {fs t : FileSystem} {p : Path}

/-- What is done for a member that stands in a directory. -/
def ownActs (base : Location) (p : Path) (m : Member) : List Act :=
  if m.kind = '5' then [.need p]
  else if m.kind = '1' then [.share (Path.join (pathOf base) (m.link.getD [])) p]
  else if m.kind = '2' then [.renew p (.link (m.link.getD []))]
  else if isDescribing m.kind then []
  else if !m.isStandard && m.path.getLast? == some Path.slash then [.need p]
  else [.renew p (.file (pieceBytes m.pieces).1)]

/-- What is done for a member below the location of the archive's directory. -/
def memberActs (base : Location) (m : Member) : List Act :=
  match relativeNames? m.path with
  | none => []
  | some [] => []
  | some names =>
    .need (names.dropLast.foldl Path.join (pathOf base)) ::
      ownActs base (names.foldl Path.join (pathOf base)) m

/-- What is done for the members of an archive, directories last. -/
def unpackActs (s : ByteStream) (base : Location) : List Act :=
  ((members s).1.filter (fun m => !m.isDir) ++ directories (members s).1).flatMap (memberActs base)

/-! ## Steps that succeed -/

theorem makeInside_makes {ps as : List Path} (h : (makeInside base ps).perform fs = (.ok (), t))
    (hps : ∀ p ∈ ps, ∀ a ∈ p.ancestors, a ∈ as) : Makes as fs t := by
  induction ps generalizing fs with
  | nil =>
    cases h
    exact .none
  | cons p ps ih =>
    obtain ⟨hp, hps⟩ := List.forall_mem_cons.1 hps
    have hmake : ∃ x v, (makeDirAll p).perform fs = (.ok x, v) ∧
        (makeInside base ps).perform v = (.ok (), t) := by
      unfold makeInside at h
      split at h
      · obtain ⟨x, u, hparent, hrest⟩ := bind_ok_iff.1 h
        obtain ⟨rfl, -⟩ := requireInside_ok hparent
        exact bind_ok_iff.1 hrest
      · exact bind_ok_iff.1 h
    obtain ⟨x, v, hmake, h⟩ := hmake
    exact ((makeDirAll_makes hmake).1.mono hp).trans (ih h hps)

theorem ensureDir_makes (h : (ensureDir base p).perform fs = (.ok (), t)) :
    Makes p.ancestors fs t := by
  obtain ⟨missing, u, hlook, h⟩ := bind_ok_iff.1 h
  rw [perform_look] at hlook
  cases hlook
  refine makeInside_makes h fun q hq a ha => Path.ancestors_trans ?_ ha
  exact (List.takeWhile_prefix _).subset (List.mem_reverse.1 hq)

theorem replacing_ok {op : FileSystem → Except IoFault FileSystem}
    (h : (replacing p (change op)).perform fs = (.ok (), t)) :
    op fs = .ok t ∨ ∃ u, fs.remove p = .ok u ∧ op u = .ok t := by
  obtain ⟨r, u, hfirst, h⟩ := bind_ok_iff.1 h
  rw [perform_caught, perform_change] at hfirst
  cases hop : op fs with
  | ok v =>
    rw [hop] at hfirst
    cases hfirst
    cases h
    exact .inl rfl
  | error f =>
    rw [hop] at hfirst
    cases hfirst
    dsimp only at h
    split at h
    · obtain ⟨x, v, hremove, hagain⟩ := bind_ok_iff.1 h
      exact .inr ⟨v, change_ok_iff.1 hremove, change_ok_iff.1 hagain⟩
    · cases h

end Tar

namespace FileSystem

variable {s t : FileSystem} {p : Path} {item : Item}

theorem putItem_erase (s : FileSystem) (l : Location) (item : Item) :
    (s.erase l).putItem l item = s.putItem l item := by
  have hnodes : ∀ n, (s.erase l).insert l n = s.insert l n := by
    intro n
    simp [erase, insert, List.filter_filter]
  cases item with
  | file data =>
    show ({ ((s.erase l).insert l _).setContents _ _ with fresh := _ } : FileSystem) = _
    rw [hnodes]
    rfl
  | link target => exact hnodes _

/-- Something new where nothing was, or where something was removed. -/
theorem renew_does {op : FileSystem → Except IoFault FileSystem}
    (hop : ∀ u v, op u = .ok v → ∃ dir name b d,
      u.resolve .never p = .ok ⟨.free dir name, b, d⟩ ∧ v = u.putItem (dir ++ [name]) item)
    (h : op s = .ok t ∨ ∃ u, s.remove p = .ok u ∧ op u = .ok t) : (Act.renew p item).Does s t := by
  rcases h with h | ⟨u, hremove, h⟩
  · obtain ⟨dir, name, b, d, hr, rfl⟩ := hop s t h
    have hnone : s.node? (dir ++ [name]) = none := resolve_holds hr
    exact ⟨_, hr, by simp [Place.location, hnone], rfl⟩
  · obtain ⟨x, n, b, hr, hn, rfl⟩ := remove_ok hremove
    obtain ⟨dir, name, b', d, hr', rfl⟩ := hop _ t h
    have hx : s.node? x = some n := (resolve_holds hr).resolve_left hn
    have hdir : s.node? x ≠ some .dir := by
      rw [hx]
      simpa using hn
    have hends : EndsOrMisses x (s.resolve .never p) ((s.erase x).resolve .never p) :=
      resolve_erase_misses hdir p
    rw [hr, hr'] at hends
    cases hends with
    | free hloc =>
      rw [hloc, putItem_erase]
      exact ⟨_, hr, hdir, rfl⟩

end FileSystem

namespace Tar

open FileSystem Script

variable {base : Location} {fs t : FileSystem} {p : Path}

theorem unpackDir_does (h : (unpackDir p).perform fs = (.ok (), t)) : (Act.need p).Does fs t := by
  obtain ⟨r, u, hmake, h⟩ := bind_ok_iff.1 h
  rw [perform_caught, perform_change] at hmake
  cases hm : fs.makeDir p with
  | ok v =>
    rw [hm] at hmake
    dsimp only at hmake
    cases hmake
    cases h
    obtain ⟨above, habove⟩ := Path.ancestors_eq_cons p
    obtain ⟨loc, hloc⟩ := locate_makeDir hm
    exact ⟨.one .none (habove ▸ List.mem_cons_self) hm, .inr ⟨_, hloc⟩⟩
  | error f =>
    rw [hm] at hmake
    dsimp only at hmake
    cases hmake
    -- It could not be made; this is no fault if a directory is there, and no link to one.
    obtain ⟨isDir, v, hlook, h⟩ := bind_ok_iff.1 h
    rw [perform_look] at hlook
    cases hlook
    split at h
    · rename_i hown
      cases h
      refine ⟨.none, .inr ?_⟩
      have hdir : isOwnDir fs p = true := (Bool.and_eq_true_iff.1 hown).2
      unfold isOwnDir at hdir
      split at hdir
      · rename_i n hinspect
        obtain ⟨loc, b, d, hr⟩ := inspect_ok hinspect
        cases n with
        | dir =>
          have hr' := resolve_always hr fun _ _ _ _ he => by cases he
          unfold locate
          rw [hr']
          exact ⟨_, by simp [bind, Except.bind, Node.isDir]; rfl⟩
        | file i => cases hdir
        | link target => cases hdir
      · cases hdir
    · cases h

/-- A link member that can be unpacked has a target. -/
theorem linkTarget_ok {m : Member} {target : Path}
    (h : (linkTarget m).perform fs = (.ok target, t)) : m.link.getD [] = target ∧ fs = t := by
  rw [linkTarget, perform_outcome] at h
  obtain ⟨hl, ht⟩ := Prod.mk.inj h
  refine ⟨?_, ht⟩
  split at hl
  · cases hl
  · rename_i l hlink
    split at hl <;> cases hl
    rw [hlink]
    rfl

theorem unpackMember_acts {m : Member} (h : (unpackMember base p m).perform fs = (.ok (), t)) :
    Run Act.Does (ownActs base p m) fs t := by
  unfold unpackMember at h
  unfold ownActs
  split at h
  · rename_i hkind
    rw [if_pos hkind]
    exact ⟨t, unpackDir_does h, rfl⟩
  rename_i hkind
  rw [if_neg hkind]
  split at h
  · rename_i hhard
    rw [if_pos hhard]
    obtain ⟨target, u, htarget, hrest⟩ := bind_ok_iff.1 h
    obtain ⟨rfl, rfl⟩ := linkTarget_ok htarget
    obtain ⟨x, v, hinside, hshare⟩ := bind_ok_iff.1 hrest
    obtain ⟨rfl, -⟩ := requireInside_ok hinside
    obtain ⟨n, dir, name, d, hinspect, hn, hr, rfl⟩ := makeHardLink_ok (change_ok_iff.1 hshare)
    obtain ⟨loc, d', hsource⟩ := inspect_ok_never hinspect hn
    exact ⟨_, ⟨loc, n, _, d', dir, name, _, d, hsource, hn, hr, rfl⟩, rfl⟩
  rename_i hhard
  rw [if_neg hhard]
  split at h
  · rename_i hlink
    rw [if_pos hlink]
    obtain ⟨target, u, htarget, h⟩ := bind_ok_iff.1 h
    obtain ⟨rfl, rfl⟩ := linkTarget_ok htarget
    refine ⟨t, renew_does (fun u v hop => ?_) (replacing_ok h), rfl⟩
    obtain ⟨dir, name, d, hr, rfl⟩ := makeLink_ok hop
    exact ⟨dir, name, _, d, hr, rfl⟩
  rename_i hlink
  rw [if_neg hlink]
  split at h
  · rename_i hdescribing
    rw [if_pos hdescribing]
    cases h
    rfl
  rename_i hdescribing
  rw [if_neg hdescribing]
  split at h
  · rename_i hslash
    rw [if_pos hslash]
    exact ⟨t, unpackDir_does h, rfl⟩
  · rename_i hslash
    rw [if_neg hslash]
    unfold unpackFile at h
    obtain ⟨x, u, hreplace, h⟩ := bind_ok_iff.1 h
    have hu : u = t := by
      split at h <;> cases h
      rfl
    subst hu
    refine ⟨u, renew_does (fun v w hop => ?_) (replacing_ok hreplace), rfl⟩
    obtain ⟨dir, name, b, d, hr, rfl⟩ := writeNew_ok hop
    exact ⟨dir, name, b, d, hr, rfl⟩

theorem unpackInside_acts {m : Member} (h : (unpackInside base m).perform fs = (.ok (), t)) :
    Run Act.Does (memberActs base m) fs t := by
  unfold unpackInside at h
  split at h
  · rename_i hnames
    unfold memberActs
    rw [hnames]
    cases h
    rfl
  · rename_i hnames
    unfold memberActs
    rw [hnames]
    cases h
    rfl
  · rename_i ns hne hns
    obtain ⟨x, u, hensure, hrest⟩ := bind_ok_iff.1 h
    obtain ⟨y, v, hinside, hmember⟩ := bind_ok_iff.1 hrest
    obtain ⟨rfl, loc, n, hlocate, -⟩ := requireInside_ok hinside
    unfold memberActs
    rw [hns]
    cases ns with
    | nil => exact absurd rfl hne
    | cons name names =>
      exact ⟨v, ⟨ensureDir_makes (withFault_ok_iff.1 hensure), .inr ⟨_, hlocate⟩⟩,
        unpackMember_acts (withFault_ok_iff.1 hmember)⟩

theorem unpackAll_acts {ms : List Member} (h : (unpackAll base ms).perform fs = (.ok (), t)) :
    Run Act.Does (ms.flatMap (memberActs base)) fs t := by
  induction ms generalizing fs with
  | nil =>
    cases h
    rfl
  | cons m ms ih =>
    obtain ⟨x, u, hmember, h⟩ := bind_ok_iff.1 h
    rw [List.flatMap_cons]
    exact run_append.2 ⟨u, unpackInside_acts hmember, ih h⟩

/-- An archive is unpacked by the acts of its members. -/
theorem unpack_acts {s : ByteStream} {dir : Path} (h : (unpack s dir).perform fs = (.ok (), t)) :
    ∃ base n, fs.locate dir = .ok (base, n) ∧ Run Act.Does (unpackActs s base) fs t := by
  obtain ⟨⟨base, n⟩, u, hlook, h⟩ := bind_ok_iff.1 h
  rw [perform_look] at hlook
  obtain ⟨hlocate, rfl⟩ := Prod.mk.inj hlook
  obtain ⟨x, v, hfiles, h⟩ := bind_ok_iff.1 h
  refine ⟨base, n, hlocate, ?_⟩
  unfold unpackActs
  rw [List.flatMap_append]
  refine run_append.2 ⟨v, unpackAll_acts hfiles, ?_⟩
  split at h
  · cases h
  · exact unpackAll_acts h

end Tar

end SharedRuntime
