import Mathlib.Data.List.TakeWhile
import SharedRuntime.Host.Metadata
import SharedRuntime.Http.Address

/-!
# The architecture in the address

The parameter that names the architecture is written behind the address. Where the address has no
fragment that adds it to the query, of the address (`adds_withArch`) and of what the server is asked
for (`parse?_withArch`). A fragment takes it up instead: the query stays as it is, and as a fragment
is not asked for, the server is not told (`parse?_withArch_fragment`). `Metadata.downloadUrl_arch`
puts this together.
-/

set_option autoImplicit false

namespace SharedRuntime

/-! ## The parts of an address -/

/-- What precedes the first `mark`, and what follows it. -/
def cutAt (mark : Char) : List Char → List Char × Option (List Char)
  | [] => ([], none)
  | c :: cs =>
    if c = mark then ([], some cs)
    else ((c :: (cutAt mark cs).1), (cutAt mark cs).2)

/-- An address in its parts: the fragment is what follows the first `#`, and the query what follows
the first `?` before it. -/
structure AddressParts where
  base : List Char
  query : Option (List Char)
  fragment : Option (List Char)
  deriving DecidableEq

namespace AddressParts

/-- The parts of an address. -/
def ofText (text : String) : AddressParts :=
  let (address, fragment) := cutAt '#' text.toList
  let (base, query) := cutAt '?' address
  ⟨base, query, fragment⟩

/-- The parameters of the query; empty ones do not count. -/
def parameters (a : AddressParts) : List (List Char) :=
  ((a.query.getD []).splitOn '&').filter (· != [])

/-- The second address has one more parameter at the end of its query, and is otherwise the same. -/
structure Adds (parameter : String) (before after : AddressParts) : Prop where
  base : after.base = before.base
  fragment : after.fragment = before.fragment
  parameters : after.parameters = before.parameters ++ [parameter.toList]

end AddressParts

section
variable {mark : Char} {cs ds rest : List Char}

theorem cutAt_none_iff : (cutAt mark cs).2 = none ↔ mark ∉ cs := by
  induction cs with
  | nil => simp [cutAt]
  | cons c cs ih =>
    unfold cutAt
    split
    · rename_i hc
      simp [hc]
    · rename_i hc
      rw [ih, List.mem_cons, not_or]
      exact ⟨fun h => ⟨fun he => hc he.symm, h⟩, fun h => h.2⟩

theorem cutAt_of_none (h : (cutAt mark cs).2 = none) : cutAt mark cs = (cs, none) := by
  induction cs with
  | nil => rfl
  | cons c cs ih =>
    unfold cutAt at h ⊢
    split at h
    · cases h
    · rename_i hc
      rw [if_neg hc, ih h]

/-- What is added comes to what follows the first mark. -/
theorem cutAt_append_some (h : (cutAt mark cs).2 = some rest) :
    cutAt mark (cs ++ ds) = ((cutAt mark cs).1, some (rest ++ ds)) := by
  induction cs with
  | nil => cases h
  | cons c cs ih =>
    rw [List.cons_append]
    unfold cutAt at h ⊢
    split at h
    · rename_i hc
      rw [if_pos hc, if_pos hc, Option.some.inj h]
    · rename_i hc
      rw [if_neg hc, if_neg hc, ih h]

/-- Where no mark is, what is added decides. -/
theorem cutAt_append_none (h : (cutAt mark cs).2 = none) :
    cutAt mark (cs ++ ds) = (cs ++ (cutAt mark ds).1, (cutAt mark ds).2) := by
  induction cs with
  | nil => rfl
  | cons c cs ih =>
    unfold cutAt at h
    split at h
    · cases h
    · rename_i hc
      rw [List.cons_append, cutAt, if_neg hc, ih h]
      rfl

end

theorem AddressParts.fragment_none_iff {text : String} :
    (ofText text).fragment = none ↔ '#' ∉ text.toList :=
  cutAt_none_iff

/-! ## One more parameter -/

/-- The name of an architecture: letters, digits, hyphens, underscores and full stops. -/
def isArchName (arch : String) : Bool :=
  arch.toList.all fun c => c.isAlphanum || c == '-' || c == '_' || c == '.'

namespace Metadata

variable {url arch : String}

/-- What is written behind an address for an architecture. -/
def archSuffix (url arch : String) : List Char :=
  (if '?' ∈ url.toList then '&' else '?') :: (archParameter ++ arch).toList

theorem toList_withArch (url arch : String) :
    (withArch url arch).toList = url.toList ++ archSuffix url arch := by
  unfold withArch archSuffix
  by_cases h : '?' ∈ url.toList <;> simp [h]

theorem notMem_archParameter (h : isArchName arch = true) {c : Char}
    (hname : (c.isAlphanum || c == '-' || c == '_' || c == '.') = false)
    (hparameter : c ∉ archParameter.toList) : c ∉ (archParameter ++ arch).toList := by
  rw [String.toList_append, List.mem_append, not_or]
  refine ⟨hparameter, fun hc => ?_⟩
  have hmem := List.all_eq_true.1 h c hc
  rw [hname] at hmem
  cases hmem

theorem hash_notMem_archSuffix (h : isArchName arch = true) : '#' ∉ archSuffix url arch := by
  unfold archSuffix
  rw [List.mem_cons, not_or]
  refine ⟨?_, notMem_archParameter h (by decide) (by decide)⟩
  split <;> decide

open AddressParts

/-- Without a fragment the query has one more parameter. -/
theorem adds_withArch (h : isArchName arch = true) (hfragment : (ofText url).fragment = none) :
    Adds (archParameter ++ arch) (ofText url) (ofText (withArch url arch)) := by
  have hcut : (cutAt '#' url.toList).2 = none := hfragment
  have hsuffix : (cutAt '#' (archSuffix url arch)).2 = none :=
    cutAt_none_iff.2 (hash_notMem_archSuffix h)
  have hwhole : cutAt '#' (withArch url arch).toList =
      (url.toList ++ archSuffix url arch, none) := by
    rw [toList_withArch, cutAt_append_none hcut, cutAt_of_none hsuffix]
  have hparameter : '&' ∉ (archParameter ++ arch).toList :=
    notMem_archParameter h (by decide) (by decide)
  have hone : ((archParameter ++ arch).toList.splitOn '&').filter (· != []) =
      [(archParameter ++ arch).toList] := by
    rw [List.splitOn_eq_singleton hparameter, String.toList_append]
    rfl
  cases hquery : (cutAt '?' url.toList).2 with
  | none =>
    have hnone : '?' ∉ url.toList := cutAt_none_iff.1 hquery
    have hadded : cutAt '?' (url.toList ++ archSuffix url arch) =
        (url.toList, some (archParameter ++ arch).toList) := by
      rw [cutAt_append_none hquery, archSuffix, if_neg hnone, cutAt, if_pos rfl, List.append_nil]
    constructor
    · simp only [ofText, hwhole, hadded, cutAt_of_none hcut, cutAt_of_none hquery]
    · simp only [ofText, hwhole, cutAt_of_none hcut]
    · simp only [ofText, parameters, hwhole, hadded, cutAt_of_none hcut, hquery, Option.getD_some,
        Option.getD_none, hone]
      rfl
  | some query =>
    have hmem : '?' ∈ url.toList := by
      by_contra hnone
      rw [cutAt_none_iff.2 hnone] at hquery
      cases hquery
    have hadded : cutAt '?' (url.toList ++ archSuffix url arch) =
        ((cutAt '?' url.toList).1, some (query ++ '&' :: (archParameter ++ arch).toList)) := by
      rw [cutAt_append_some hquery, archSuffix, if_pos hmem]
    constructor
    · simp only [ofText, hwhole, hadded, cutAt_of_none hcut]
    · simp only [ofText, hwhole, cutAt_of_none hcut]
    · simp only [ofText, parameters, hwhole, hadded, cutAt_of_none hcut, hquery, Option.getD_some,
        List.splitOn_append_cons_self, List.filter_append, hone]

/-- A fragment takes up what is written behind the address. -/
theorem withArch_fragment {fragment : List Char} (h : (ofText url).fragment = some fragment) :
    ofText (withArch url arch) =
      { ofText url with fragment := some (fragment ++ archSuffix url arch) } := by
  have hcut : (cutAt '#' url.toList).2 = some fragment := h
  simp only [ofText, toList_withArch, cutAt_append_some hcut]

/-! ## What the server is asked for -/

theorem archSuffix_cons (url arch : String) : ∃ mark rest, archSuffix url arch = mark :: rest ∧
    mark ≠ '/' ∧ ('?' ∉ url.toList → mark = '?') := by
  unfold archSuffix
  split
  · rename_i h
    exact ⟨'&', _, rfl, by decide, fun hno => absurd h hno⟩
  · exact ⟨'?', _, rfl, by decide, fun _ => rfl⟩

end Metadata

namespace Http.Address

open Metadata

/-- What is behind an end is not looked at. -/
theorem takeWhile_dropWhile_append {p : Char → Bool} {cs ds : List Char}
    (h : (∃ c ∈ cs, p c = false) ∨ ∃ c rest, ds = c :: rest ∧ p c = false) :
    (cs ++ ds).takeWhile p = cs.takeWhile p ∧ (cs ++ ds).dropWhile p = cs.dropWhile p ++ ds := by
  induction cs with
  | nil =>
    rcases h with ⟨c, hc, -⟩ | ⟨c, rest, rfl, hc⟩
    · cases hc
    · simp [hc]
  | cons c cs ih =>
    rw [List.cons_append, List.takeWhile_cons, List.takeWhile_cons, List.dropWhile_cons,
      List.dropWhile_cons]
    by_cases hc : p c = true
    · have hcs : (∃ c ∈ cs, p c = false) ∨ ∃ c rest, ds = c :: rest ∧ p c = false := by
        refine h.imp_left ?_
        rintro ⟨d, hd, hends⟩
        rcases List.mem_cons.1 hd with rfl | hd
        · rw [hc] at hends
          cases hends
        · exact ⟨d, hd, hends⟩
      obtain ⟨htake, hdrop⟩ := ih hcs
      rw [if_pos hc, if_pos hc, if_pos hc, if_pos hc, htake, hdrop]
      exact ⟨rfl, rfl⟩
    · rw [if_neg hc, if_neg hc, if_neg hc, if_neg hc]
      exact ⟨rfl, rfl⟩

theorem parse?_iff {text : String} {a : Address} : parse? text = some a ↔
    (text.toList.take scheme.length).map Char.toLower = scheme ∧
      ∃ host service, hostAndService? (withoutUser
        ((text.toList.drop scheme.length).takeWhile (! endsAuthority ·))) = some (host, service) ∧
          a = ⟨host, service,
            targetOf ((text.toList.drop scheme.length).dropWhile (! endsAuthority ·))⟩ := by
  unfold parse?
  dsimp only
  split
  · rename_i hno
    refine ⟨fun h => (nomatch h), fun h => ?_⟩
    rw [h.1] at hno
    exact absurd hno (by decide)
  · rename_i hscheme
    rw [Option.map_eq_some_iff]
    constructor
    · rintro ⟨⟨host, service⟩, hhost, rfl⟩
      exact ⟨by simpa using hscheme, host, service, hhost, rfl⟩
    · rintro ⟨-, host, service, hhost, rfl⟩
      exact ⟨(host, service), hhost, rfl⟩

/-- A character that is not in the scheme stands behind it. -/
theorem mem_drop_scheme {cs : List Char} (h : (cs.take scheme.length).map Char.toLower = scheme)
    {c : Char} (hc : c.toLower ∉ scheme) : c ∈ cs.drop scheme.length ↔ c ∈ cs := by
  refine ⟨List.mem_of_mem_drop, fun hmem => ?_⟩
  rw [← List.take_append_drop scheme.length cs, List.mem_append] at hmem
  rcases hmem with hmem | hmem
  · exact absurd (h ▸ List.mem_map_of_mem hmem) hc
  · exact hmem

/-- A mark that ends the host stands behind it. -/
theorem mem_dropWhile_authority {cs : List Char} {c : Char} (hc : endsAuthority c = true) :
    c ∈ cs.dropWhile (! endsAuthority ·) ↔ c ∈ cs := by
  refine ⟨fun hmem => (List.dropWhile_sublist _).subset hmem, fun hmem => ?_⟩
  rw [← @List.takeWhile_append_dropWhile _ (! endsAuthority ·) cs, List.mem_append] at hmem
  rcases hmem with hmem | hmem
  · have := List.mem_takeWhile_imp hmem
    simp [hc] at this
  · exact hmem

theorem takeWhile_hash {cs : List Char} (h : '#' ∉ cs) : cs.takeWhile (· != '#') = cs := by
  refine List.takeWhile_eq_self_iff.2 fun c hc => bne_iff_ne.2 ?_
  rintro rfl
  exact h hc

theorem targetOf_append {path ds : List Char} (hpath : '#' ∉ path) (hds : '#' ∉ ds)
    (hslash : ∀ rest, ds ≠ '/' :: rest) :
    targetOf (path ++ ds) = targetOf path ++ String.ofList ds := by
  have hboth : '#' ∉ path ++ ds := fun hc => (List.mem_append.1 hc).elim hpath hds
  unfold targetOf
  dsimp only
  rw [takeWhile_hash hpath, takeWhile_hash hboth, ← String.toList_inj, String.toList_append,
    String.toList_ofList]
  cases path with
  | nil =>
    rw [List.nil_append]
    split
    · exact absurd rfl (hslash _)
    · simp
  | cons c path =>
    rw [List.cons_append]
    by_cases hc : c = '/'
    · subst hc
      simp
    · split <;> split <;> simp_all

theorem targetOf_fragment {path ds : List Char} (h : '#' ∈ path) :
    targetOf (path ++ ds) = targetOf path := by
  have hcut : (path ++ ds).takeWhile (· != '#') = path.takeWhile (· != '#') :=
    (takeWhile_dropWhile_append (.inl ⟨'#', h, rfl⟩)).1
  unfold targetOf
  rw [hcut]

theorem hash_notMem_targetOf (path : List Char) : '#' ∉ (targetOf path).toList := by
  have hfront : '#' ∉ path.takeWhile (· != '#') := by
    intro hmem
    have hne := List.mem_takeWhile_imp hmem
    cases hne
  unfold targetOf
  dsimp only
  split
  · rw [String.toList_ofList]
    exact hfront
  · rw [String.toList_ofList, List.mem_cons, not_or]
    exact ⟨by decide, hfront⟩

/-- A fragment is not asked for. -/
theorem hash_notMem_target {text : String} {a : Address} (h : parse? text = some a) :
    '#' ∉ a.target.toList := by
  obtain ⟨-, host, service, -, rfl⟩ := parse?_iff.1 h
  exact hash_notMem_targetOf _

theorem mem_targetOf {path : List Char} (h : '#' ∉ path) :
    '?' ∈ (targetOf path).toList ↔ '?' ∈ path := by
  unfold targetOf
  dsimp only
  rw [takeWhile_hash h]
  split
  · rw [String.toList_ofList]
  · rw [String.toList_ofList, List.mem_cons]
    exact or_iff_right (by decide)

/-- The request for the address asks for the same of the same host, with what was written behind
the address behind what is asked for; but a fragment keeps it from the server. -/
theorem parse?_withArch {url arch : String} {a : Address} (h : isArchName arch = true)
    (ha : parse? url = some a) : parse? (withArch url arch) =
      some { a with target := if '#' ∈ url.toList then a.target else withArch a.target arch } := by
  obtain ⟨hscheme, host, service, hhost, rfl⟩ := parse?_iff.1 ha
  have hlength : scheme.length ≤ url.toList.length := by
    have hlen := congrArg List.length hscheme
    rw [List.length_map, List.length_take] at hlen
    omega
  have hmark : ∀ {c : Char}, endsAuthority c = true → c.toLower ∉ scheme →
      (c ∈ (url.toList.drop scheme.length).dropWhile (! endsAuthority ·) ↔ c ∈ url.toList) :=
    fun hends hno => (mem_dropWhile_authority hends).trans (mem_drop_scheme hscheme hno)
  obtain ⟨mark, rest, hsuffix, hslash, hquestion⟩ := archSuffix_cons url arch
  have hstop : (∃ c ∈ url.toList.drop scheme.length, (! endsAuthority c) = false) ∨
      ∃ c rest, archSuffix url arch = c :: rest ∧ (! endsAuthority c) = false := by
    by_cases hmem : '?' ∈ url.toList
    · exact .inl ⟨'?', (mem_drop_scheme hscheme (by decide)).2 hmem, rfl⟩
    · exact .inr ⟨mark, rest, hsuffix, by rw [hquestion hmem]; rfl⟩
  -- What is added comes behind the authority: it starts with a mark that ends one, or such a mark
  -- is there before.
  obtain ⟨htake, hdrop⟩ := takeWhile_dropWhile_append hstop
  rw [parse?_iff, toList_withArch, List.take_append_of_le_length hlength,
    List.drop_append_of_le_length hlength, htake, hdrop]
  refine ⟨hscheme, host, service, hhost, ?_⟩
  generalize hpath : (url.toList.drop scheme.length).dropWhile (! endsAuthority ·) = path at hmark ⊢
  split
  · rename_i hhash
    rw [targetOf_fragment ((hmark rfl (by decide)).2 hhash)]
  · rename_i hhash
    have hnone : '#' ∉ path := fun hc => hhash ((hmark rfl (by decide)).1 hc)
    have htarget : withArch (targetOf path) arch =
        targetOf path ++ String.ofList (archSuffix url arch) := by
      rw [← String.toList_inj, toList_withArch, String.toList_append, String.toList_ofList]
      congr 1
      unfold archSuffix
      rw [if_congr ((mem_targetOf hnone).trans (hmark rfl (by decide))) rfl rfl]
    rw [htarget, targetOf_append hnone (hash_notMem_archSuffix h)]
    rintro more he
    rw [hsuffix] at he
    exact hslash (List.cons.inj he).1

end Http.Address

/-! ## The configured address -/

namespace Metadata

open AddressParts

variable {m : Metadata} {arch url : String}

theorem downloadUrl_some (h : m.get? downloadUrlKey = some url) (hne : trim url ≠ "") :
    m.downloadUrl arch = withArch (trim url) arch := by
  unfold downloadUrl
  rw [h]
  exact if_neg hne

theorem downloadUrl_empty_iff : m.downloadUrl arch = "" ↔
    m.get? downloadUrlKey = none ∨ ∃ url, m.get? downloadUrlKey = some url ∧ trim url = "" := by
  cases hget : m.get? downloadUrlKey with
  | none =>
    refine ⟨fun _ => .inl rfl, fun _ => ?_⟩
    unfold downloadUrl
    rw [hget]
  | some url =>
    by_cases hblank : trim url = ""
    · refine ⟨fun _ => .inr ⟨url, rfl, hblank⟩, fun _ => ?_⟩
      unfold downloadUrl
      rw [hget]
      exact if_pos hblank
    · rw [downloadUrl_some hget hblank]
      constructor
      · intro h
        have hchars := congrArg String.toList h
        rw [toList_withArch] at hchars
        exact absurd (List.append_eq_nil_iff.1 hchars).2 (List.cons_ne_nil _ _)
      · rintro (h | ⟨url', h, hblank'⟩)
        · cases h
        · cases h
          exact absurd hblank' hblank

/-- The address that is loaded from is empty exactly if none is given or a blank one. Otherwise it
is the given one with the architecture as one more parameter of its query, exactly if the given one
has no fragment; then the same holds of what the server is asked for. A fragment takes the parameter
up, whatever is in it, and the server is asked for what the given address names. -/
theorem downloadUrl_arch (harch : isArchName arch = true) :
    (m.downloadUrl arch = "" ↔
      m.get? downloadUrlKey = none ∨ ∃ url, m.get? downloadUrlKey = some url ∧ trim url = "") ∧
    ∀ url, m.get? downloadUrlKey = some url → trim url ≠ "" →
      (Adds (archParameter ++ arch) (ofText (trim url)) (ofText (m.downloadUrl arch)) ↔
        (ofText (trim url)).fragment = none) ∧
      ((ofText (trim url)).fragment = none → ∀ a, Http.Address.parse? (trim url) = some a →
        ∃ target, Http.Address.parse? (m.downloadUrl arch) = some { a with target := target } ∧
          Adds (archParameter ++ arch) (ofText a.target) (ofText target)) ∧
      ∀ fragment, (ofText (trim url)).fragment = some fragment →
        ofText (m.downloadUrl arch) =
          { ofText (trim url) with
            fragment := some (fragment ++ archSuffix (trim url) arch) } ∧
        ∀ a, Http.Address.parse? (trim url) = some a →
          Http.Address.parse? (m.downloadUrl arch) = some a := by
  refine ⟨downloadUrl_empty_iff, fun url hget hne => ?_⟩
  rw [downloadUrl_some hget hne]
  refine ⟨⟨fun hadds => ?_, adds_withArch harch⟩, fun hnone a ha => ?_, fun fragment hsome => ?_⟩
  · cases hfragment : (ofText (trim url)).fragment with
    | none => rfl
    | some fragment =>
      have hsame := hadds.fragment
      rw [withArch_fragment hfragment, hfragment] at hsame
      have hlength := congrArg List.length (Option.some.inj hsame)
      rw [List.length_append, archSuffix, List.length_cons] at hlength
      omega
  · refine ⟨_, Http.Address.parse?_withArch harch ha, ?_⟩
    rw [if_neg (fragment_none_iff.1 hnone)]
    exact adds_withArch harch (fragment_none_iff.2 (Http.Address.hash_notMem_target ha))
  · refine ⟨withArch_fragment hsome, fun a ha => ?_⟩
    have hhash : '#' ∈ (trim url).toList := by
      by_contra hno
      rw [fragment_none_iff.2 hno] at hsome
      cases hsome
    rw [Http.Address.parse?_withArch harch ha, if_pos hhash]

/-- A query gets one more parameter. A question mark in a fragment makes no query, and the
parameter goes to the fragment. -/
theorem downloadUrl_arch_channel :
    isArchName "armv7" = true ∧
      (ofText (downloadUrl [(downloadUrlKey, " http://h/get?channel=beta& ")] "armv7")).parameters =
        ["channel=beta".toList, "arch=armv7".toList] ∧
      ofText (downloadUrl [(downloadUrlKey, "http://h/r#top?x")] "armv7") =
        ⟨"http://h/r".toList, none, some "top?x&arch=armv7".toList⟩ := by
  have harch : isArchName "armv7" = true := by decide +kernel
  have hquery := ((downloadUrl_arch (m := [(downloadUrlKey, " http://h/get?channel=beta& ")])
    harch).2 _ rfl (by decide +kernel)).1.2 (by decide +kernel)
  have hfragment := ((downloadUrl_arch (m := [(downloadUrlKey, "http://h/r#top?x")]) harch).2
    _ rfl (by decide +kernel)).2.2 "top?x".toList (by decide +kernel)
  refine ⟨harch, ?_, ?_⟩
  · rw [hquery.parameters]
    decide +kernel
  · rw [hfragment.1]
    decide +kernel

end Metadata

end SharedRuntime
