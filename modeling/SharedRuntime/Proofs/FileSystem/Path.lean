import Mathlib.Data.List.TakeWhile
import SharedRuntime.FileSystem.Path

/-!
# The names along a path

`Path.names` is what a walk follows. Joining paths joins their names (`names_join`), and the parent
of a path has all names but the last (`comps_parent?`); a single dot counts for nothing in `comps`.
`withExtension_append` is about the extension of a path that ends with a name.
-/

set_option autoImplicit false

namespace SharedRuntime

theorem Bytes.splitOn_eq (sep : UInt8) (bs : Bytes) : splitOn sep bs = List.splitOn sep bs := by
  induction bs with
  | nil => rfl
  | cons b bs ih =>
    unfold splitOn
    rw [List.splitOn_cons_eq_if_modifyHead, ih]
    by_cases hb : b = sep
    · simp [hb]
    · rw [if_neg hb, if_neg (by simpa using hb)]
      cases hs : List.splitOn sep bs with
      | nil => exact absurd hs (List.splitOn_ne_nil sep bs)
      | cons part parts => rfl

theorem Bytes.notMem_of_mem_splitOn {sep : UInt8} {bs part : Bytes} (h : part ∈ splitOn sep bs) :
    sep ∉ part := by
  induction bs generalizing part with
  | nil =>
    rw [List.mem_singleton.1 h]
    exact List.not_mem_nil
  | cons b bs ih =>
    unfold splitOn at h
    split at h
    · rcases List.mem_cons.1 h with rfl | h
      · exact List.not_mem_nil
      · exact ih h
    · rename_i hb
      split at h
      · rw [List.mem_singleton.1 h]
        simpa using Ne.symm hb
      · rename_i first parts hs
        rcases List.mem_cons.1 h with rfl | h
        · have hfirst : sep ∉ first := ih (by rw [hs]; exact List.mem_cons_self)
          simp [Ne.symm hb, hfirst]
        · exact ih (by rw [hs]; exact List.mem_cons_of_mem _ h)

namespace Path

/-- A name that a directory may hold. -/
structure IsName (n : Bytes) : Prop where
  ne_nil : n ≠ []
  ne_here : n ≠ here
  ne_up : n ≠ up
  noSlash : slash ∉ n

instance (n : Bytes) : Decidable (IsName n) :=
  decidable_of_iff (n ≠ [] ∧ n ≠ here ∧ n ≠ up ∧ slash ∉ n)
    ⟨fun ⟨h1, h2, h3, h4⟩ => ⟨h1, h2, h3, h4⟩, fun ⟨h1, h2, h3, h4⟩ => ⟨h1, h2, h3, h4⟩⟩

/-! ## Names -/

theorem names_nil : names [] = [] := rfl

theorem names_append_slash (p q : Path) : names (p ++ slash :: q) = names p ++ names q := by
  unfold names
  rw [Bytes.splitOn_eq, Bytes.splitOn_eq, Bytes.splitOn_eq, List.splitOn_append_cons_self,
    List.filter_append]

theorem names_of_noSlash {n : Bytes} (hne : n ≠ []) (hs : slash ∉ n) : names n = [n] := by
  unfold names
  rw [Bytes.splitOn_eq, List.splitOn_eq_singleton hs]
  simp [hne]

theorem IsName.names_eq {n : Bytes} (h : IsName n) : names n = [n] :=
  names_of_noSlash h.ne_nil h.noSlash

theorem mem_names {p : Path} {n : Bytes} (h : n ∈ names p) : n ≠ [] ∧ slash ∉ n := by
  obtain ⟨hm, hne⟩ := List.mem_filter.1 h
  exact ⟨by simpa using hne, Bytes.notMem_of_mem_splitOn hm⟩

theorem isAbsolute_cons (b : UInt8) (p : Path) : isAbsolute (b :: p) = (b == slash) := rfl

theorem eq_of_endsWithSlash {p : Path} (h : (p.getLast? == some slash) = true) :
    ∃ q, p = q ++ [slash] := by
  have hl : p.getLast? = some slash := by simpa using h
  obtain ⟨q, rfl⟩ := List.getLast?_eq_some_iff.1 hl
  exact ⟨q, rfl⟩

/-- Joining a relative path keeps the names of both. -/
theorem names_join {p q : Path} (hq : isAbsolute q = false) :
    names (join p q) = names p ++ names q := by
  unfold join
  rw [hq, if_neg Bool.false_ne_true]
  split
  · rename_i h
    rcases Bool.or_eq_true_iff.1 h with h | h
    · rw [of_decide_eq_true h]
      rfl
    · obtain ⟨r, rfl⟩ := eq_of_endsWithSlash h
      rw [List.append_assoc, List.singleton_append, names_append_slash, names_append_slash,
        names_nil, List.append_nil]
  · exact names_append_slash p q

theorem isAbsolute_join {p q : Path} (hq : isAbsolute q = false) :
    isAbsolute (join p q) = isAbsolute p := by
  unfold join
  rw [hq, if_neg Bool.false_ne_true]
  cases p with
  | nil => exact hq
  | cons b p =>
    split
    · rfl
    · rfl

theorem isAbsolute_of_noSlash {n : Bytes} (hs : slash ∉ n) : isAbsolute n = false := by
  cases n with
  | nil => rfl
  | cons b n =>
    rw [isAbsolute_cons]
    simp only [List.mem_cons, not_or] at hs
    simpa using Ne.symm hs.1

/-- A name can follow: the path is empty or ends with a slash. -/
def IsOpen (pre : Path) : Prop := pre = [] ∨ ∃ q, pre = q ++ [slash]

/-- What comes before all relative paths that a path is joined with. -/
theorem join_open (p : Path) : ∃ pre, IsOpen pre ∧ names pre = names p ∧
    isAbsolute pre = isAbsolute p ∧ ∀ q, isAbsolute q = false → join p q = pre ++ q := by
  by_cases h : (decide (p = []) || p.getLast? == some slash) = true
  · refine ⟨p, ?_, rfl, rfl, fun q hq => ?_⟩
    · rcases Bool.or_eq_true_iff.1 h with h | h
      · exact .inl (of_decide_eq_true h)
      · exact .inr (eq_of_endsWithSlash h)
    · unfold join
      rw [hq, if_neg Bool.false_ne_true, if_pos h]
  · refine ⟨p ++ [slash], .inr ⟨p, rfl⟩, ?_, ?_, fun q hq => ?_⟩
    · rw [names_append_slash, names_nil, List.append_nil]
    · cases p with
      | nil => exact absurd rfl h
      | cons b p => rfl
    · unfold join
      rw [hq, if_neg Bool.false_ne_true, if_neg h, List.append_assoc]
      rfl

/-- A path joined with a relative one ends with it. -/
theorem join_eq_append {p q : Path} (hq : isAbsolute q = false) :
    ∃ pre, join p q = pre ++ q ∧ IsOpen pre ∧ names pre = names p ∧
      isAbsolute pre = isAbsolute p := by
  obtain ⟨pre, hopen, hnames, habs, hjoin⟩ := join_open p
  exact ⟨pre, hjoin q hq, hopen, hnames, habs⟩

/-- Names that follow one another below a path. -/
theorem names_foldl_join {p : Path} {ns : List Bytes} (h : ∀ n ∈ ns, IsName n) :
    names (ns.foldl join p) = names p ++ ns ∧ isAbsolute (ns.foldl join p) = isAbsolute p := by
  induction ns generalizing p with
  | nil => exact ⟨(List.append_nil _).symm, rfl⟩
  | cons n ns ih =>
    have hn := h n List.mem_cons_self
    have habs := isAbsolute_of_noSlash hn.noSlash
    obtain ⟨h1, h2⟩ := ih (p := join p n) fun m hm => h m (List.mem_cons_of_mem _ hm)
    rw [List.foldl_cons, h1, h2, names_join habs, hn.names_eq, isAbsolute_join habs]
    exact ⟨by simp, rfl⟩

theorem isName_of_stepOf? {first : Bool} {s n : Bytes} (hs : slash ∉ s)
    (h : stepOf? first s = some (.name n)) : IsName n := by
  unfold stepOf? at h
  split at h
  · cases h
  · rename_i hnil
    split at h
    · split at h <;> cases h
    · rename_i hhere
      split at h
      · cases h
      · rename_i hup
        cases h
        exact ⟨hnil, hhere, hup, hs⟩

/-! ## Parents -/

/-- The names of a path that lead somewhere. -/
def comps (p : Path) : List Bytes := (names p).filter (· != here)

theorem names_eq_segments (p : Path) : names p = (segments p).filter (· != []) := by
  unfold segments
  cases p with
  | nil => rfl
  | cons b p =>
    rw [isAbsolute_cons]
    by_cases hb : b = slash
    · subst hb
      have h := names_append_slash [] p
      rw [names_nil, List.nil_append, List.nil_append] at h
      rw [h]
      simp [names]
    · rw [if_neg (by simpa using hb)]
      rfl

theorem notMem_of_mem_segments {p : Path} {s : Bytes} (h : s ∈ segments p) : slash ∉ s :=
  Bytes.notMem_of_mem_splitOn h

theorem isName_of_mem_steps {p : Path} {n : Bytes} (h : Step.name n ∈ steps p) : IsName n := by
  have hfilter : ∀ {segs : List Bytes}, (∀ s ∈ segs, slash ∉ s) →
      Step.name n ∈ segs.filterMap (stepOf? false) → IsName n := by
    intro segs hsegs hm
    obtain ⟨s, hs, hst⟩ := List.mem_filterMap.1 hm
    exact isName_of_stepOf? (hsegs s hs) hst
  have hslash : ∀ s ∈ segments p, slash ∉ s := fun s hs => notMem_of_mem_segments hs
  unfold steps at h
  split at h
  · rcases List.mem_cons.1 h with h | h
    · cases h
    · exact hfilter hslash h
  · split at h
    · cases h
    · rename_i s rest hsegs
      rw [hsegs] at hslash
      rcases List.mem_append.1 h with h | h
      · exact isName_of_stepOf? (hslash s List.mem_cons_self) (Option.mem_toList.1 h)
      · exact hfilter (fun x hx => hslash x (List.mem_cons_of_mem _ hx)) h

theorem names_ofSegments {absolute : Bool} {segs : List Bytes} (h : ∀ s ∈ segs, slash ∉ s) :
    names (ofSegments absolute segs) = segs.filter (· != []) := by
  have hbody : names (List.intercalate [slash] segs) = segs.filter (· != []) := by
    cases segs with
    | nil => rfl
    | cons s segs =>
      unfold names
      rw [Bytes.splitOn_eq, List.splitOn_intercalate _ h (List.cons_ne_nil _ _)]
  unfold ofSegments
  cases absolute with
  | false => exact hbody
  | true =>
    have hc := names_append_slash [] (List.intercalate [slash] segs)
    rw [names_nil, List.nil_append, List.nil_append] at hc
    exact hc.trans hbody

/-- What is dropped at the end names nothing, and what is kept ends with something. -/
theorem dropTrivialEnd_spec (first : Bool) (segs : List Bytes) :
    ∃ dropped, segs = dropTrivialEnd first segs ++ dropped ∧ (∀ s ∈ dropped, s = [] ∨ s = here) ∧
      (dropTrivialEnd first segs = [] ∨ ∃ init s, dropTrivialEnd first segs = init ++ [s] ∧
        (stepOf? (first && init.isEmpty) s).isSome) := by
  -- From the front: a segment is kept if one behind it is, or if it leads somewhere itself.
  induction segs generalizing first with
  | nil => exact ⟨[], rfl, fun s hs => absurd hs List.not_mem_nil, .inl rfl⟩
  | cons s segs ih =>
    obtain ⟨dropped, hsegs, hdropped, hlast⟩ := ih false
    unfold dropTrivialEnd
    cases hk : dropTrivialEnd false segs with
    | nil =>
      rw [hk, List.nil_append] at hsegs
      dsimp only
      by_cases hs : (stepOf? first s).isSome = true
      · rw [if_pos hs]
        refine ⟨dropped, by rw [hsegs]; rfl, hdropped, .inr ⟨[], s, rfl, ?_⟩⟩
        rw [List.isEmpty_nil, Bool.and_true]
        exact hs
      · rw [if_neg hs]
        refine ⟨s :: dropped, by rw [hsegs]; rfl, fun x hx => ?_, .inl rfl⟩
        rcases List.mem_cons.1 hx with rfl | hx
        · unfold stepOf? at hs
          by_cases h1 : x = []
          · exact .inl h1
          · by_cases h2 : x = here
            · exact .inr h2
            · rw [if_neg h1, if_neg h2] at hs
              split at hs <;> exact absurd rfl hs
        · exact hdropped x hx
    | cons k ks =>
      rw [hk] at hsegs hlast
      refine ⟨dropped, by rw [hsegs]; rfl, hdropped, .inr ?_⟩
      rcases hlast with h | ⟨init, x, h, hx⟩
      · cases h
      · refine ⟨s :: init, x, congrArg (s :: ·) h, ?_⟩
        rw [List.isEmpty_cons, Bool.and_false]
        exact hx

/-- The names of segments that lead somewhere. -/
def realSegments (segs : List Bytes) : List Bytes :=
  (segs.filter (· != [])).filter (· != here)

theorem realSegments_append (a b : List Bytes) :
    realSegments (a ++ b) = realSegments a ++ realSegments b := by
  unfold realSegments
  rw [List.filter_append, List.filter_append]

theorem realSegments_trivial {segs : List Bytes} (h : ∀ s ∈ segs, s = [] ∨ s = here) :
    realSegments segs = [] := by
  unfold realSegments
  rw [List.filter_filter, List.filter_eq_nil_iff]
  intro s hs
  rcases h s hs with rfl | rfl
  · simp
  · simp

theorem realSegments_dropTrivialEnd (first : Bool) (segs : List Bytes) :
    realSegments (dropTrivialEnd first segs) = realSegments segs := by
  obtain ⟨dropped, hsegs, hdropped, -⟩ := dropTrivialEnd_spec first segs
  have h := congrArg realSegments hsegs
  rw [realSegments_append, realSegments_trivial hdropped, List.append_nil] at h
  exact h.symm

/-- Without its last segment a list that ends with something has all real segments but the last. -/
theorem realSegments_dropLast {first : Bool} {init : List Bytes} {s : Bytes}
    (h : (stepOf? (first && init.isEmpty) s).isSome = true) :
    realSegments init = (realSegments (init ++ [s])).dropLast := by
  rw [realSegments_append]
  by_cases hs : s = here
  · subst hs
    have hinit : init = [] := by
      cases init with
      | nil => rfl
      | cons x init =>
        rw [List.isEmpty_cons, Bool.and_false] at h
        cases h
    subst hinit
    rfl
  · have hne : s ≠ [] := by
      rintro rfl
      cases h
    have hreal : realSegments [s] = [s] := by
      simp [realSegments, hne, hs]
    rw [hreal, List.dropLast_concat]

/-- The first segment of a relative path is not empty. -/
theorem head_segments {p : Path} (ha : isAbsolute p = false) (hp : p ≠ []) :
    (segments p).head? ≠ some [] := by
  cases p with
  | nil => exact absurd rfl hp
  | cons b p =>
    unfold segments
    rw [isAbsolute_cons] at ha
    rw [isAbsolute_cons, ha, if_neg Bool.false_ne_true]
    unfold Bytes.splitOn
    rw [if_neg (by simpa using ha)]
    split <;> simp

theorem isAbsolute_intercalate {segs : List Bytes} (hhead : segs.head? ≠ some [])
    (hs : ∀ s ∈ segs, slash ∉ s) : isAbsolute (List.intercalate [slash] segs) = false := by
  cases segs with
  | nil => rfl
  | cons s segs =>
    cases s with
    | nil => exact absurd rfl hhead
    | cons b s =>
      have hb : isAbsolute (b :: s) = false := isAbsolute_of_noSlash (hs _ List.mem_cons_self)
      rw [isAbsolute_cons] at hb
      cases segs with
      | nil =>
        rw [List.intercalate_singleton, isAbsolute_cons]
        exact hb
      | cons x segs =>
        rw [List.intercalate_cons_cons, List.cons_append, List.cons_append, isAbsolute_cons]
        exact hb

theorem parent?_eq {p : Path} {init : List Bytes} {s : Bytes}
    (hk : dropTrivialEnd (!isAbsolute p) (segments p) = init ++ [s]) :
    parent? p = some (ofSegments (isAbsolute p) (dropTrivialEnd (!isAbsolute p) init)) := by
  unfold parent?
  dsimp only
  rw [hk]
  cases init with
  | nil => rfl
  | cons x init =>
    show some (ofSegments _ (dropTrivialEnd _ (x :: init ++ [s]).dropLast)) = _
    rw [List.dropLast_concat]

/-- The segments of a parent come from the path, which ends with a segment that leads somewhere. -/
theorem parent?_some {p q : Path} (h : parent? p = some q) : ∃ init s dropped,
    dropTrivialEnd (!isAbsolute p) (segments p) = init ++ [s] ∧
      (stepOf? (!isAbsolute p && init.isEmpty) s).isSome = true ∧
      segments p = init ++ [s] ++ dropped ∧
      q = ofSegments (isAbsolute p) (dropTrivialEnd (!isAbsolute p) init) ∧
      ∀ x ∈ dropTrivialEnd (!isAbsolute p) init, x ∈ segments p := by
  obtain ⟨dropped, hsegs, -, hlast⟩ := dropTrivialEnd_spec (!isAbsolute p) (segments p)
  rcases hlast with hk | ⟨init, s, hk, hs⟩
  · unfold parent? at h
    dsimp only at h
    rw [hk] at h
    cases h
  · rw [parent?_eq hk] at h
    cases h
    rw [hk] at hsegs
    obtain ⟨more, hinit, -, -⟩ := dropTrivialEnd_spec (!isAbsolute p) init
    refine ⟨init, s, dropped, hk, hs, hsegs, rfl, fun x hx => ?_⟩
    rw [hsegs, hinit]
    simp [hx]

/-- The parent has all names that lead somewhere but the last. -/
theorem comps_parent? {p q : Path} (h : parent? p = some q) :
    comps q = (comps p).dropLast ∧ isAbsolute q = isAbsolute p := by
  obtain ⟨init, s, dropped, hk, hs, hsegs, rfl, hmem⟩ := parent?_some h
  have hreal := realSegments_dropTrivialEnd (!isAbsolute p) (segments p)
  have hslash : ∀ x ∈ dropTrivialEnd (!isAbsolute p) init, slash ∉ x :=
    fun x hx => notMem_of_mem_segments (hmem x hx)
  rw [hk] at hreal
  refine ⟨?_, ?_⟩
  · have hc : comps (ofSegments (isAbsolute p) (dropTrivialEnd (!isAbsolute p) init)) =
        realSegments init := by
      unfold comps
      rw [names_ofSegments hslash]
      exact realSegments_dropTrivialEnd _ init
    have hp : comps p = realSegments (segments p) := by
      unfold comps
      rw [names_eq_segments]
      rfl
    rw [hc, hp, realSegments_dropLast hs, hreal]
  · unfold ofSegments
    cases ha : isAbsolute p with
    | true => rfl
    | false =>
      rw [ha] at hslash hs
      refine isAbsolute_intercalate (fun hhead => ?_) hslash
      have hfirst : (segments p).head? = some [] := by
        obtain ⟨more, hinit, -, -⟩ := dropTrivialEnd_spec (!false) init
        rw [hsegs, hinit]
        cases hd : dropTrivialEnd (!false) init with
        | nil =>
          rw [hd] at hhead
          cases hhead
        | cons x xs =>
          rw [hd] at hhead
          exact hhead
      -- A relative path that starts with an empty segment would be the empty path.
      by_cases hp : p = []
      · subst hp
        have hone : [[]] = init ++ [s] ++ dropped := hsegs
        have hall : ∀ x ∈ init ++ [s] ++ dropped, x = [] := by
          intro x hx
          rw [← hone] at hx
          exact List.mem_singleton.1 hx
        have hnil : s = [] := hall s (by simp)
        rw [hnil] at hs
        cases hs
      · exact head_segments ha hp hfirst

theorem mem_names_parent? {p q : Path} (h : parent? p = some q) {n : Bytes} (hn : n ∈ names q) :
    n ∈ names p := by
  obtain ⟨init, s, dropped, -, -, -, rfl, hmem⟩ := parent?_some h
  rw [names_ofSegments fun x hx => notMem_of_mem_segments (hmem x hx)] at hn
  obtain ⟨hin, hne⟩ := List.mem_filter.1 hn
  rw [names_eq_segments]
  exact List.mem_filter.2 ⟨hmem n hin, hne⟩

/-- Only a path that leads nowhere has no parent. -/
theorem comps_of_parent?_none {p : Path} (h : parent? p = none) : comps p = [] := by
  obtain ⟨dropped, hsegs, hdropped, hlast⟩ := dropTrivialEnd_spec (!isAbsolute p) (segments p)
  rcases hlast with hk | ⟨init, s, hk, -⟩
  · rw [hk, List.nil_append] at hsegs
    unfold comps
    rw [names_eq_segments, hsegs]
    exact realSegments_trivial hdropped
  · rw [parent?_eq hk] at h
    cases h

/-! ## Paths that end with a name -/

theorem IsOpen.append {pre q : Path} (hpre : IsOpen pre) (hq : IsOpen q) : IsOpen (pre ++ q) := by
  rcases hq with rfl | ⟨r, rfl⟩
  · rw [List.append_nil]
    exact hpre
  · exact .inr ⟨pre ++ r, (List.append_assoc pre r [slash]).symm⟩

theorem names_append {pre q : Path} (hpre : IsOpen pre) :
    names (pre ++ q) = names pre ++ names q := by
  rcases hpre with rfl | ⟨r, rfl⟩
  · rfl
  · rw [List.append_assoc, List.singleton_append, names_append_slash, names_append_slash,
      names_nil, List.append_nil]

theorem isAbsolute_append {pre q : Path} (hq : isAbsolute q = false) :
    isAbsolute (pre ++ q) = isAbsolute pre := by
  cases pre with
  | nil => exact hq
  | cons b pre => rfl

/-- Every path is cut at its last slash. -/
theorem exists_lastSegment (p : Path) : ∃ pre s, p = pre ++ s ∧ IsOpen pre ∧ slash ∉ s := by
  induction p with
  | nil => exact ⟨[], [], rfl, .inl rfl, List.not_mem_nil⟩
  | cons b p ih =>
    obtain ⟨pre, s, rfl, rfl | ⟨q, rfl⟩, hs⟩ := ih
    · by_cases hb : b = slash
      · exact ⟨[b], s, rfl, .inr ⟨[], by rw [hb]; rfl⟩, hs⟩
      · refine ⟨[], b :: s, rfl, .inl rfl, ?_⟩
        simp [Ne.symm hb, hs]
    · exact ⟨b :: (q ++ [slash]), s, rfl, .inr ⟨b :: q, rfl⟩, hs⟩

/-- What ends with three bytes or more is no dot. -/
theorem isName_append {s e : Bytes} (hs : slash ∉ s) (he : slash ∉ e) (hlen : 2 < e.length) :
    IsName (s ++ e) := by
  have hlong : 2 < (s ++ e).length := by
    rw [List.length_append]
    omega
  refine ⟨?_, ?_, ?_, fun hm => ?_⟩
  · intro h
    rw [h] at hlong
    simp at hlong
  · intro h
    rw [h] at hlong
    simp [here] at hlong
  · intro h
    rw [h] at hlong
    simp [up] at hlong
  · rcases List.mem_append.1 hm with hm | hm
    · exact hs hm
    · exact he hm

theorem segments_append {pre : Path} {s : Bytes} (hpre : IsOpen pre) (hs : slash ∉ s) :
    ∃ init, segments (pre ++ s) = init ++ [s] := by
  have hone : Bytes.splitOn slash s = [s] := by
    rw [Bytes.splitOn_eq, List.splitOn_eq_singleton hs]
  unfold segments
  rcases hpre with rfl | ⟨q, rfl⟩
  · rw [List.nil_append, isAbsolute_of_noSlash hs, if_neg Bool.false_ne_true]
    exact ⟨[], hone⟩
  · have hcut : ∀ r : Path, Bytes.splitOn slash (r ++ slash :: s) =
        Bytes.splitOn slash r ++ [s] := by
      intro r
      rw [← hone, Bytes.splitOn_eq, Bytes.splitOn_eq, Bytes.splitOn_eq,
        List.splitOn_append_cons_self]
    rw [List.append_assoc, List.singleton_append]
    split
    · cases q with
      | nil => exact ⟨[], hone⟩
      | cons b q => exact ⟨_, hcut q⟩
    · exact ⟨_, hcut q⟩

theorem steps_append {pre : Path} {s : Bytes} {st : Step} (hpre : IsOpen pre) (hs : slash ∉ s)
    (hst : ∀ first, stepOf? first s = some st) : (steps (pre ++ s)).getLast? = some st := by
  obtain ⟨init, hseg⟩ := segments_append hpre hs
  unfold steps
  rw [hseg]
  split
  · rw [List.filterMap_append, List.filterMap_cons_some (hst false), List.filterMap_nil,
      ← List.cons_append, List.getLast?_concat]
  · cases init with
    | nil =>
      rw [List.nil_append]
      dsimp only
      rw [hst true]
      rfl
    | cons x init =>
      rw [List.cons_append]
      dsimp only
      rw [List.filterMap_append, List.filterMap_cons_some (hst false), List.filterMap_nil,
        ← List.append_assoc, List.getLast?_concat]

theorem IsName.stepOf?_eq {n : Bytes} (h : IsName n) (first : Bool) :
    stepOf? first n = some (.name n) := by
  unfold stepOf?
  rw [if_neg h.ne_nil, if_neg h.ne_here, if_neg h.ne_up]

theorem fileName?_append {pre : Path} {n : Bytes} (hpre : IsOpen pre) (hn : IsName n) :
    fileName? (pre ++ n) = some n := by
  unfold fileName?
  rw [steps_append hpre hn.noSlash hn.stepOf?_eq]

theorem fileName?_up {pre : Path} (hpre : IsOpen pre) : fileName? (pre ++ up) = none := by
  have hlast : (steps (pre ++ up)).getLast? = some .parent :=
    steps_append hpre (by decide) fun first => by cases first <;> rfl
  unfold fileName?
  rw [hlast]

theorem dropTrivialEnd_append {first : Bool} {init : List Bytes} {s : Bytes}
    (hs : ∀ first, (stepOf? first s).isSome = true) :
    dropTrivialEnd first (init ++ [s]) = init ++ [s] := by
  induction init generalizing first with
  | nil => simp only [List.nil_append, dropTrivialEnd, hs first, if_true]
  | cons x init ih =>
    rw [List.cons_append]
    unfold dropTrivialEnd
    rw [ih]
    cases init <;> rfl

theorem ofSegments_segments (p : Path) : ofSegments (isAbsolute p) (segments p) = p := by
  unfold ofSegments segments
  rw [Bytes.splitOn_eq, List.intercalate_splitOn]
  cases p with
  | nil => rfl
  | cons b p =>
    rw [isAbsolute_cons]
    by_cases hb : b = slash
    · subst hb
      rfl
    · rw [beq_eq_false_iff_ne.2 hb]
      rfl

theorem endingWithName_append {pre : Path} {n : Bytes} (hpre : IsOpen pre) (hn : IsName n) :
    endingWithName (pre ++ n) = pre ++ n := by
  obtain ⟨init, hseg⟩ := segments_append hpre hn.noSlash
  unfold endingWithName
  rw [hseg, dropTrivialEnd_append fun first => by rw [hn.stepOf?_eq]; rfl, ← hseg,
    ofSegments_segments]

/-! ## Extensions -/

/-- The last full stop of a name, read from the end. -/
theorem reverse_lastStop (stem : Bytes) {ext : Bytes} (hext : fullStop ∉ ext) :
    (stem ++ fullStop :: ext).reverse.takeWhile (· != fullStop) = ext.reverse ∧
      (stem ++ fullStop :: ext).reverse.drop (ext.reverse.length + 1) = stem.reverse := by
  have hrev : (stem ++ fullStop :: ext).reverse = ext.reverse ++ fullStop :: stem.reverse := by
    simp
  rw [hrev]
  refine ⟨?_, ?_⟩
  · rw [List.takeWhile_append_of_pos]
    · simp
    · intro b hb
      have hne : b ≠ fullStop := fun h => hext (by rw [← h]; exact List.mem_reverse.1 hb)
      simpa using hne
  · rw [← List.drop_drop, List.drop_left]
    rfl

theorem cutAtLastStop_append {stem ext : Bytes} (hstem : stem ≠ []) (hext : fullStop ∉ ext)
    (hup : stem ++ fullStop :: ext ≠ up) :
    cutAtLastStop (stem ++ fullStop :: ext) = (stem, some ext) := by
  obtain ⟨htail, hdrop⟩ := reverse_lastStop stem hext
  unfold cutAtLastStop
  rw [if_neg hup]
  dsimp only
  rw [htail, hdrop, List.reverse_reverse, List.reverse_reverse]
  rw [if_neg]
  simp only [List.length_reverse, List.length_append, List.length_cons, Bool.or_eq_true,
    decide_eq_true_eq, not_or]
  exact ⟨by omega, hstem⟩

/-- A full stop at the start cuts nothing off. -/
theorem cutAtLastStop_dot {ext : Bytes} (hext : fullStop ∉ ext) :
    cutAtLastStop (fullStop :: ext) = (fullStop :: ext, none) := by
  obtain ⟨htail, hdrop⟩ := reverse_lastStop [] hext
  rw [List.nil_append] at htail hdrop
  unfold cutAtLastStop
  split
  · rfl
  · dsimp only
    rw [htail, hdrop, if_pos (by simp)]

/-- The extension of a name follows its stem. -/
theorem setExtension_append {pre : Path} {n stem rest e : Bytes} (hpre : IsOpen pre)
    (hn : IsName n) (hcut : (cutAtLastStop n).1 = stem) (hrest : n = stem ++ rest) :
    setExtension (pre ++ n) e = pre ++ stem ++ if e = [] then [] else fullStop :: e := by
  have htake : (pre ++ n).take ((pre ++ n).length - n.length + stem.length) = pre ++ stem := by
    rw [hrest, List.length_append, Nat.add_sub_cancel, ← List.append_assoc,
      ← List.length_append, List.take_left]
  unfold setExtension
  rw [fileName?_append hpre hn]
  dsimp only
  rw [endingWithName_append hpre hn, hcut, htake]
  split
  · rw [List.append_nil]
  · rfl

/-- Another extension in place of the one after the last full stop. -/
theorem withExtension_append {pre : Path} {stem ext e : Bytes} (hpre : IsOpen pre)
    (hn : IsName (stem ++ fullStop :: ext)) (hstem : stem ≠ []) (hext : fullStop ∉ ext) :
    withExtension (pre ++ (stem ++ fullStop :: ext)) e =
      if stem = [fullStop] then pre ++ up
      else pre ++ stem ++ if e = [] then [] else fullStop :: e := by
  have hcut := cutAtLastStop_append hstem hext hn.ne_up
  have hsome : extension? (pre ++ (stem ++ fullStop :: ext)) = some ext := by
    unfold extension?
    rw [fileName?_append hpre hn, Option.bind_some, hcut]
  have htake : (pre ++ (stem ++ fullStop :: ext)).take
      ((pre ++ (stem ++ fullStop :: ext)).length - ext.length) = pre ++ (stem ++ [fullStop]) := by
    have hsplit : pre ++ (stem ++ fullStop :: ext) = pre ++ (stem ++ [fullStop]) ++ ext := by
      simp
    rw [hsplit, List.length_append, Nat.add_sub_cancel, List.take_left]
  unfold withExtension
  rw [hsome]
  dsimp only
  rw [htake]
  split
  · rename_i hdot
    subst hdot
    unfold setExtension
    rw [show ([fullStop] ++ [fullStop] : Bytes) = up from rfl, fileName?_up hpre]
  · rename_i hdot
    have hup : stem ++ [fullStop] ≠ up := by
      intro h
      have hlen : stem.length = 1 := by
        have hl := congrArg List.length h
        simpa [up] using hl
      obtain ⟨b, rfl⟩ := List.length_eq_one_iff.1 hlen
      have hb : b = fullStop := (List.cons.inj h).1
      exact hdot (by rw [hb])
    have hname : IsName (stem ++ [fullStop]) := by
      refine ⟨by simp, fun h => ?_, hup, fun h => ?_⟩
      · have hl := congrArg List.length h
        rw [List.length_append] at hl
        have hpos := List.length_pos_iff.2 hstem
        simp [here] at hl
        exact hstem hl
      · refine hn.noSlash ?_
        rcases List.mem_append.1 h with h | h
        · exact List.mem_append_left _ h
        · cases List.mem_singleton.1 h
    have hcut' : cutAtLastStop (stem ++ [fullStop]) = (stem, some []) :=
      cutAtLastStop_append hstem List.not_mem_nil hup
    exact setExtension_append hpre hname (by rw [hcut']) rfl

/-- An extension is added to a name that has none. -/
theorem withExtension_uncut {pre : Path} {n e : Bytes} (hpre : IsOpen pre) (hn : IsName n)
    (hcut : cutAtLastStop n = (n, none)) : extension? (pre ++ n) = none ∧
      withExtension (pre ++ n) e = pre ++ n ++ if e = [] then [] else fullStop :: e := by
  have hnone : extension? (pre ++ n) = none := by
    unfold extension?
    rw [fileName?_append hpre hn, Option.bind_some, hcut]
  refine ⟨hnone, ?_⟩
  unfold withExtension
  rw [hnone]
  exact setExtension_append hpre hn (by rw [hcut]) (List.append_nil _).symm

theorem withExtension_dot {pre : Path} {ext e : Bytes} (hpre : IsOpen pre)
    (hn : IsName (fullStop :: ext)) (hext : fullStop ∉ ext) :
    withExtension (pre ++ fullStop :: ext) e =
      pre ++ fullStop :: ext ++ if e = [] then [] else fullStop :: e :=
  (withExtension_uncut hpre hn (cutAtLastStop_dot hext)).2

theorem cutAtLastStop_noStop {n : Bytes} (hn : fullStop ∉ n) : cutAtLastStop n = (n, none) := by
  have hall : n.reverse.takeWhile (· != fullStop) = n.reverse := by
    refine List.takeWhile_eq_self_iff.2 fun b hb => ?_
    exact bne_iff_ne.2 fun h => hn (h ▸ List.mem_reverse.1 hb)
  unfold cutAtLastStop
  split
  · rfl
  · dsimp only
    rw [hall, if_pos (by simp)]

/-- A name with a full stop is cut at its last one. -/
theorem exists_lastStop {n : Bytes} (h : fullStop ∈ n) :
    ∃ stem ext, n = stem ++ fullStop :: ext ∧ fullStop ∉ ext := by
  obtain ⟨ext, stem, hrev, hext⟩ := List.eq_append_cons_of_mem (List.mem_reverse.2 h)
  refine ⟨stem.reverse, ext.reverse, ?_, fun hm => hext (List.mem_reverse.1 hm)⟩
  rw [← List.reverse_reverse n, hrev]
  simp

/-- A path with another extension stays the same up to its last name, and has another last name if
it had another extension. -/
theorem withExtension_name {pre : Path} {n e : Bytes} (hpre : IsOpen pre) (hn : IsName n)
    (he : e ≠ []) (hslash : slash ∉ e) : ∃ m, withExtension (pre ++ n) e = pre ++ m ∧ slash ∉ m ∧
      (extension? (pre ++ n) ≠ some e → m ≠ n) := by
  have hadded : ∀ {stem : Bytes}, slash ∉ stem → slash ∉ stem ++ fullStop :: e := by
    intro stem hstem hm
    rcases List.mem_append.1 hm with hm | hm
    · exact hstem hm
    · rcases List.mem_cons.1 hm with hm | hm
      · cases hm
      · exact hslash hm
  have huncut : cutAtLastStop n = (n, none) → ∃ m, withExtension (pre ++ n) e = pre ++ m ∧
      slash ∉ m ∧ (extension? (pre ++ n) ≠ some e → m ≠ n) := by
    intro hcut
    refine ⟨n ++ fullStop :: e, ?_, hadded hn.noSlash, fun _ h => ?_⟩
    · rw [(withExtension_uncut hpre hn hcut).2, if_neg he, List.append_assoc]
    · have hl := congrArg List.length h
      rw [List.length_append, List.length_cons] at hl
      omega
  -- A name without an extension gets one behind it; else the extension is replaced.
  by_cases hstop : fullStop ∈ n
  · obtain ⟨stem, ext, rfl, hext⟩ := exists_lastStop hstop
    by_cases hstem : stem = []
    · subst hstem
      exact huncut (cutAtLastStop_dot hext)
    have hext? : extension? (pre ++ (stem ++ fullStop :: ext)) = some ext := by
      unfold extension?
      rw [fileName?_append hpre hn, Option.bind_some, cutAtLastStop_append hstem hext hn.ne_up]
    rw [withExtension_append hpre hn hstem hext, hext?, if_neg he]
    split
    · exact ⟨up, rfl, by decide, fun _ h => hn.ne_up h.symm⟩
    · refine ⟨stem ++ fullStop :: e, by rw [List.append_assoc],
        hadded fun hm => hn.noSlash (List.mem_append_left _ hm), fun hne h => hne ?_⟩
      rw [(List.cons.inj (List.append_cancel_left h)).2]
  · exact huncut (cutAtLastStop_noStop hstop)

end Path

end SharedRuntime
