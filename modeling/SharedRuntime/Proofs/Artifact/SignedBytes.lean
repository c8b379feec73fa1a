import SharedRuntime.Proofs.Archive.Directory
import SharedRuntime.Proofs.Artifact.Verification
import SharedRuntime.Proofs.Text.Utf8
import SharedRuntime.Archive.Zip.Writer

/-!
# What the signed bytes say

The bytes that are signed are put together without a count and without marks between the files.
They say what the payload is all the same: a name ends at its zero byte, the length says where the
contents end (`append_signedBytes_inj`), so the files are read off from the front
(`signedBytes_inj`). The other way around, the order of the names is one that the names alone
decide (`names_congr`), so one payload has one list of files (`files_congr`).
-/

set_option autoImplicit false

namespace SharedRuntime

/-! ## The order of names -/

namespace Bytes

theorem le_total (as bs : Bytes) : (le as bs || le bs as) = true := by
  induction as generalizing bs with
  | nil => simp [le]
  | cons a as ih =>
    cases bs with
    | nil => simp [le]
    | cons b bs =>
      by_cases hab : a = b
      · subst hab
        simpa [le] using ih bs
      · rcases UInt8.lt_or_lt_of_ne hab with h | h <;> simp [le, h]

theorem le_antisymm {as bs : Bytes} (h : le as bs = true) (h' : le bs as = true) : as = bs := by
  induction as generalizing bs with
  | nil =>
    cases bs with
    | nil => rfl
    | cons b bs => cases h'
  | cons a as ih =>
    cases bs with
    | nil => cases h
    | cons b bs =>
      simp only [le, Bool.or_eq_true, Bool.and_eq_true, decide_eq_true_eq, beq_iff_eq] at h h'
      rcases h with h | ⟨rfl, h⟩
      · rcases h' with h' | ⟨rfl, -⟩
        · exact absurd h' (UInt8.lt_asymm h)
        · exact absurd h (UInt8.lt_irrefl _)
      · rcases h' with h' | ⟨-, h'⟩
        · exact absurd h' (UInt8.lt_irrefl _)
        · rw [ih h h']

theorem le_trans {as bs cs : Bytes} (h : le as bs = true) (h' : le bs cs = true) :
    le as cs = true := by
  induction as generalizing bs cs with
  | nil => simp [le]
  | cons a as ih =>
    cases bs with
    | nil => cases h
    | cons b bs =>
      cases cs with
      | nil => cases h'
      | cons c cs =>
        simp only [le, Bool.or_eq_true, Bool.and_eq_true, decide_eq_true_eq, beq_iff_eq] at h h' ⊢
        rcases h with h | ⟨rfl, h⟩
        · rcases h' with h' | ⟨rfl, -⟩
          · exact .inl (UInt8.lt_trans h h')
          · exact .inl h
        · exact h'.imp_right fun ⟨hbc, h'⟩ => ⟨hbc, ih h h'⟩

end Bytes

namespace Payload

theorem nameLe_trans (a b c : String) (h : nameLe a b = true) (h' : nameLe b c = true) :
    nameLe a c = true :=
  Bytes.le_trans h h'

theorem nameLe_total (a b : String) : (nameLe a b || nameLe b a) = true := Bytes.le_total _ _

theorem pairwise_names (z : Zip) : (names z).Pairwise fun a b => nameLe a b = true :=
  List.pairwise_mergeSort nameLe_trans nameLe_total _

theorem mem_names {z : Zip} {name : String} :
    name ∈ names z ↔ isPayloadName name = true ∧ ∃ e ∈ z.entries, e.name = name := by
  unfold names
  rw [List.mem_mergeSort, List.mem_filter, List.mem_map]
  exact and_comm

theorem nodup_names {z : Zip} (h : (z.entries.map Zip.Entry.name).Nodup) : (names z).Nodup :=
  (List.mergeSort_perm _ nameLe).nodup_iff.2 (h.filter _)

/-- There is one way to put the names in order. -/
theorem names_eq {z : Zip} {ns : List String} (hs : ns.Pairwise fun a b => nameLe a b = true)
    (hp : (names z).Perm ns) : names z = ns :=
  List.Perm.eq_of_pairwise
    (fun _ _ _ _ hab hba => Bytes.ofString_inj.1 (Bytes.le_antisymm hab hba))
    (pairwise_names z) hs hp

/-- The order of the names is decided by which names there are. -/
theorem names_congr {z₁ z₂ : Zip} (h₁ : (z₁.entries.map Zip.Entry.name).Nodup)
    (h₂ : (z₂.entries.map Zip.Entry.name).Nodup) (h : ∀ name, name ∈ names z₁ ↔ name ∈ names z₂) :
    names z₁ = names z₂ :=
  names_eq (pairwise_names z₂)
    ((List.perm_ext_iff_of_nodup (nodup_names h₁) (nodup_names h₂)).2 h)

/-! ## The payload as a map -/

/-- The payload of an archive: what the entry of a name holds, if it is one of the payload. -/
def contents? (z : Zip) (name : String) : Option Bytes :=
  if isPayloadName name then
    (z.openNamed name).toOption.bind fun stream => stream.readAll.toOption
  else none

variable {z z₁ z₂ : Zip} {fs fs₁ fs₂ : List File}

theorem Holds.contents? {name : String} {f : File} (h : Holds z name f)
    (hn : isPayloadName name = true) : contents? z name = some f.contents := by
  obtain ⟨-, e, he, hr, -⟩ := h
  obtain ⟨s, hs, hc⟩ := Zip.readsAs_iff.1 hr
  simp [Payload.contents?, hn, Zip.openNamed, he, hs, hc, Except.toOption]

theorem contents?_of_notMem {name : String} (h : name ∉ names z) : contents? z name = none := by
  unfold contents?
  split
  · rename_i hn
    have hfind : z.find? name = none := by
      refine List.find?_eq_none.2 fun e he hname => h (mem_names.2 ⟨hn, e, he, ?_⟩)
      simpa using hname
    simp [Zip.openNamed, hfind, Except.toOption]
  · rfl

theorem In.names (h : In z fs) : fs.map File.name = Payload.names z := by
  unfold In at h
  generalize Payload.names z = names at h
  induction h with
  | nil => rfl
  | cons hh _ ih => rw [List.map_cons, hh.1, ih]

theorem In.holds (h : In z fs) {f : File} (hf : f ∈ fs) :
    f.name ∈ Payload.names z ∧ Holds z f.name f := by
  have hmem : f.name ∈ Payload.names z := h.names ▸ List.mem_map_of_mem hf
  refine ⟨hmem, ?_⟩
  unfold In at h
  clear hmem
  generalize Payload.names z = names at h
  induction h with
  | nil => cases hf
  | @cons name g _ _ hh _ ih =>
    rcases List.mem_cons.1 hf with rfl | hf
    · exact hh.1.symm ▸ hh
    · exact ih hf

theorem In.contents? (h : In z fs) {f : File} (hf : f ∈ fs) :
    Payload.contents? z f.name = some f.contents := by
  obtain ⟨hmem, hh⟩ := h.holds hf
  exact hh.contents? (mem_names.1 hmem).1

/-- The map holds the files that are signed, and nothing else. -/
theorem In.contents?_eq (h : In z fs) (name : String) :
    Payload.contents? z name = (fs.find? fun f => f.name == name).map File.contents := by
  cases hfind : fs.find? fun f => f.name == name with
  | some f =>
    obtain rfl : f.name = name := by simpa using List.find?_some hfind
    exact h.contents? (List.mem_of_find?_eq_some hfind)
  | none =>
    refine contents?_of_notMem fun hm => ?_
    obtain ⟨f, hf, hname⟩ := List.mem_map.1 (h.names ▸ hm)
    exact List.find?_eq_none.1 hfind f hf (by simpa using hname)

theorem In.mem_names_iff (h : In z fs) (name : String) :
    name ∈ Payload.names z ↔ (Payload.contents? z name).isSome = true := by
  rw [h.contents?_eq, Option.isSome_map, List.find?_isSome, ← h.names, List.mem_map]
  simp

/-- Of one payload there is one list of files. -/
theorem files_congr (h₁ : In z₁ fs₁) (h₂ : In z₂ fs₂)
    (hn₁ : (z₁.entries.map Zip.Entry.name).Nodup) (hn₂ : (z₂.entries.map Zip.Entry.name).Nodup)
    (h : contents? z₁ = contents? z₂) : fs₁ = fs₂ := by
  have read : ∀ {z fs}, In z fs →
      fs = (names z).map fun name => ⟨name, (contents? z name).getD []⟩ := by
    intro z fs hin
    rw [← hin.names, List.map_map]
    refine (List.map_id fs).symm.trans (List.map_congr_left fun f hf => ?_)
    simp [hin.contents? hf]
  have hnames : names z₁ = names z₂ := names_congr hn₁ hn₂ fun name => by
    rw [h₁.mem_names_iff, h₂.mem_names_iff, h]
  rw [read h₁, read h₂, hnames, h]

/-! ## Reading the signed bytes -/

/-- What stands before the first zero byte is decided. -/
theorem append_zero_inj {a b x y : Bytes} (ha : 0 ∉ a) (hb : 0 ∉ b)
    (h : a ++ 0 :: x = b ++ 0 :: y) : a = b ∧ x = y := by
  induction a generalizing b with
  | nil =>
    cases b with
    | nil => exact ⟨rfl, (List.cons.inj h).2⟩
    | cons c b => exact absurd (List.cons.inj h).1 fun hc => hb (hc ▸ List.mem_cons_self)
  | cons c a ih =>
    cases b with
    | nil => exact absurd (List.cons.inj h).1 fun hc => ha (hc ▸ List.mem_cons_self)
    | cons d b =>
      obtain ⟨rfl, hrest⟩ := List.cons.inj h
      obtain ⟨rfl, hxy⟩ := ih (fun hm => ha (List.mem_cons_of_mem _ hm))
        (fun hm => hb (List.mem_cons_of_mem _ hm)) hrest
      exact ⟨rfl, hxy⟩

theorem ofNatLE_inj {n v w : Nat} (hv : v < 256 ^ n) (hw : w < 256 ^ n)
    (h : Bytes.ofNatLE n v = Bytes.ofNatLE n w) : v = w := by
  rw [← Bytes.natLE_ofNatLE n v hv, h, Bytes.natLE_ofNatLE n w hw]

/-- A file whose bytes can be read back: its name holds no zero, its length fits in eight bytes. -/
structure File.Plain (f : File) : Prop where
  name : 0 ∉ Bytes.ofString f.name
  length : f.contents.length < 256 ^ 8

/-- The first file is read off from the front, whatever follows it. -/
theorem append_signedBytes_inj {f g : File} {u v : Bytes} (hf : f.Plain) (hg : g.Plain)
    (h : f.signedBytes ++ u = g.signedBytes ++ v) : f = g ∧ u = v := by
  unfold File.signedBytes at h
  simp only [List.append_assoc, List.cons_append] at h
  obtain ⟨hname, h⟩ := append_zero_inj hf.name hg.name h
  obtain ⟨hlength, h⟩ := List.append_inj h (by simp)
  obtain ⟨hcontents, hrest⟩ := List.append_inj h (ofNatLE_inj hf.length hg.length hlength)
  refine ⟨?_, hrest⟩
  obtain ⟨fname, fcontents⟩ := f
  obtain ⟨gname, gcontents⟩ := g
  exact congrArg₂ File.mk (Bytes.ofString_inj.1 hname) hcontents

theorem signedBytes_inj (h₁ : ∀ f ∈ fs₁, f.Plain) (h₂ : ∀ f ∈ fs₂, f.Plain)
    (h : signedBytes fs₁ = signedBytes fs₂) : fs₁ = fs₂ := by
  -- A file adds at least its zero byte, so no list of files adds nothing.
  have hne : ∀ (f : File) (rest : Bytes), f.signedBytes ++ rest ≠ [] := by
    intro f rest h
    simp [File.signedBytes] at h
  unfold signedBytes at h
  induction fs₁ generalizing fs₂ with
  | nil =>
    cases fs₂ with
    | nil => rfl
    | cons g gs =>
      rw [List.flatMap_cons] at h
      exact absurd h.symm (hne g _)
  | cons f fs ih =>
    cases fs₂ with
    | nil =>
      rw [List.flatMap_cons] at h
      exact absurd h (hne f _)
    | cons g gs =>
      obtain ⟨hf, hfs⟩ := List.forall_mem_cons.1 h₁
      obtain ⟨hg, hgs⟩ := List.forall_mem_cons.1 h₂
      rw [List.flatMap_cons, List.flatMap_cons] at h
      obtain ⟨rfl, hrest⟩ := append_signedBytes_inj hf hg h
      rw [ih hfs hgs hrest]

theorem In.plain (h : In z fs) (hsize : ∀ e ∈ z.entries, e.size < 256 ^ 8)
    (hname : ∀ e ∈ z.entries, isPayloadName e.name = true → 0 ∉ Bytes.ofString e.name) :
    ∀ f ∈ fs, f.Plain := by
  intro f hf
  obtain ⟨hmem, -, e, he, -, hlength⟩ := h.holds hf
  obtain ⟨hpayload, e', he', hname'⟩ := mem_names.1 hmem
  refine ⟨?_, ?_⟩
  · rw [← hname'] at hpayload ⊢
    exact hname e' he' hpayload
  · rw [hlength]
    exact hsize e (List.mem_of_find?_eq_some he)

/-! ## The digest -/

/-- The bytes that the digest of an archive is made of. -/
def signed (z : Zip) : Except IdentityFault Bytes := (files z).map signedBytes

theorem signed_of_digest {d : Bytes} (h : digest z = .ok d) :
    ∃ fs, In z fs ∧ signed z = .ok (signedBytes fs) ∧ d = Digest.Sha256.hash (signedBytes fs) := by
  obtain ⟨fs, hfs, rfl⟩ := digest_iff.1 h
  refine ⟨fs, hfs, ?_, rfl⟩
  rw [signed, files_iff.2 hfs]
  rfl

/-- Where the digests of two archives can be made and no name of their payloads holds a zero byte,
they are made of the same bytes exactly if the payloads are the same map from names to contents.
Nothing else of the archives has a part in it: neither the order of the entries, nor how they are
compressed, nor entries that are not of the payload. -/
theorem signed_eq_iff {bs₁ bs₂ d₁ d₂ : Bytes} (hz₁ : Zip.ofBytes bs₁ = .ok z₁)
    (hz₂ : Zip.ofBytes bs₂ = .ok z₂) (hd₁ : digest z₁ = .ok d₁) (hd₂ : digest z₂ = .ok d₂)
    (hn₁ : ∀ e ∈ z₁.entries, isPayloadName e.name = true → 0 ∉ Bytes.ofString e.name)
    (hn₂ : ∀ e ∈ z₂.entries, isPayloadName e.name = true → 0 ∉ Bytes.ofString e.name) :
    ∃ s₁ s₂, signed z₁ = .ok s₁ ∧ signed z₂ = .ok s₂ ∧
      d₁ = Digest.Sha256.hash s₁ ∧ d₂ = Digest.Sha256.hash s₂ ∧
      (s₁ = s₂ ↔ contents? z₁ = contents? z₂) := by
  obtain ⟨hnodup₁, hsize₁⟩ := Zip.ofBytes_entries hz₁
  obtain ⟨hnodup₂, hsize₂⟩ := Zip.ofBytes_entries hz₂
  obtain ⟨fs₁, hin₁, hs₁, rfl⟩ := signed_of_digest hd₁
  obtain ⟨fs₂, hin₂, hs₂, rfl⟩ := signed_of_digest hd₂
  refine ⟨_, _, hs₁, hs₂, rfl, rfl, fun h => ?_, fun h => ?_⟩
  · -- Names without NUL and lengths of fixed width can be told apart, so the files are the same.
    obtain rfl := signedBytes_inj (hin₁.plain hsize₁ hn₁) (hin₂.plain hsize₂ hn₂) h
    funext name
    rw [hin₁.contents?_eq, hin₂.contents?_eq]
  · rw [files_congr hin₁ hin₂ hnodup₁ hnodup₂ h]

/-- An archive is opened, and its payload is read, as evaluation says. -/
theorem exists_in {bs : Bytes} {entries : List String} {fs : List File}
    (hz : (Zip.ofBytes bs).toOption.map (fun z => (z.entries.map Zip.Entry.name,
      fs.map fun f => (readFile z f.name).toOption)) = some (entries, fs.map some))
    (hperm : (entries.filter isPayloadName).Perm (fs.map File.name))
    (hsort : (fs.map File.name).Pairwise fun a b => nameLe a b = true) :
    ∃ z, Zip.ofBytes bs = .ok z ∧ In z fs ∧ z.entries.map Zip.Entry.name = entries := by
  obtain ⟨z, hz, heval⟩ := Option.map_eq_some_iff.1 hz
  obtain ⟨hentries, hread⟩ := Prod.mk.inj heval
  have hok : Zip.ofBytes bs = .ok z := by
    cases h : Zip.ofBytes bs with
    | error f => simp [h, Except.toOption] at hz
    | ok z' => simpa [h, Except.toOption] using hz
  refine ⟨z, hok, ?_, hentries⟩
  have hnames : names z = fs.map File.name := by
    refine names_eq hsort ((List.mergeSort_perm _ nameLe).trans ?_)
    rw [hentries]
    exact hperm
  unfold In
  rw [hnames, List.forall₂_map_left_iff, List.forall₂_same]
  intro f hf
  have hsome : (readFile z f.name).toOption = some f := List.map_inj_left.1 hread f hf
  cases h : readFile z f.name with
  | error e => simp [h, Except.toOption] at hsome
  | ok g =>
    obtain rfl : g = f := by simpa [h, Except.toOption] using hsome
    exact readFile_iff.1 h

/-- An archive of two files, and one that holds them the other way around, between an entry about
the artifact and a directory: the same bytes are signed. -/
theorem signed_eq_reordered : ∃ z₁ z₂ s₁ s₂,
    Zip.ofBytes (Zip.write [("a", [1]), ("b", [2])]) = .ok z₁ ∧
    Zip.ofBytes (Zip.write [("META-INF/m", [3]), ("b", [2]), ("d/", []), ("a", [1])]) = .ok z₂ ∧
    contents? z₁ "b" = some [2] ∧ signed z₁ = .ok s₁ ∧ signed z₂ = .ok s₂ ∧
    (s₁ = s₂ ↔ contents? z₁ = contents? z₂) := by
  obtain ⟨z₁, hz₁, hin₁, he₁⟩ :
      ∃ z, Zip.ofBytes (Zip.write [("a", [1]), ("b", [2])]) = .ok z ∧
        In z [⟨"a", [1]⟩, ⟨"b", [2]⟩] ∧ z.entries.map Zip.Entry.name = ["a", "b"] :=
    exists_in (by decide +kernel) (by decide) (by decide)
  obtain ⟨z₂, hz₂, hin₂, he₂⟩ :
      ∃ z, Zip.ofBytes (Zip.write [("META-INF/m", [3]), ("b", [2]), ("d/", []), ("a", [1])]) =
        .ok z ∧ In z [⟨"a", [1]⟩, ⟨"b", [2]⟩] ∧
          z.entries.map Zip.Entry.name = ["META-INF/m", "b", "d/", "a"] :=
    exists_in (by decide +kernel) (by decide) (by decide)
  have plain : ∀ {z : Zip} {names : List String}, z.entries.map Zip.Entry.name = names →
      (∀ name ∈ names, 0 ∉ Bytes.ofString name) →
      ∀ e ∈ z.entries, isPayloadName e.name = true → 0 ∉ Bytes.ofString e.name := by
    rintro z names rfl h e he -
    exact h e.name (List.mem_map_of_mem he)
  obtain ⟨s₁, s₂, hs₁, hs₂, -, -, hiff⟩ := signed_eq_iff hz₁ hz₂ (digest_iff.2 ⟨_, hin₁, rfl⟩)
    (digest_iff.2 ⟨_, hin₂, rfl⟩) (plain he₁ (by decide)) (plain he₂ (by decide))
  exact ⟨z₁, z₂, s₁, s₂, hz₁, hz₂, hin₁.contents?_eq "b", hs₁, hs₂, hiff⟩

end Payload

end SharedRuntime
