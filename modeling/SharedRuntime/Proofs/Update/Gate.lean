import SharedRuntime.Proofs.Update.Background

/-!
# The gate before an installation

The archive probe is asked about an artifact only when the session of the attempt delivered it
(`Delivered`) and, unless the request switches verification off, a verification of it passed and
taking that verdict asked for the installation (`Approved`). `Gated` says this of the moments of an
attempt. Here is what keeps it as the attempt notes more: moments that have no part in it
(`Gated.append`), jobs that begin and jobs that end.
-/

set_option autoImplicit false

namespace SharedRuntime

/-- The first end that was taken of the session that loads for `q` is the artifact at `p`. -/
def Delivered (att : List Moment) (q : UpdateRequest) (p : Path) : Prop :=
  ∃ id before after, att = before ++ .taken (.report ⟨id, .completed p⟩) :: after ∧
    .asked (.startDownload id q) ∈ before ∧
    ∀ o, .taken (.report ⟨id, o⟩) ∈ before → o.isTerminal = false

/-- A verification of `p` began and came to `v`. -/
def Verified (att : List Moment) (p : Path) (v : Verdict) : Prop :=
  ∃ before after, att = before ++ .finished (.verify p) (.verified v) :: after ∧
    .began (.verify p) ∈ before

/-- A verification of `p` passed, and the installation was asked for as its verdict was taken. -/
def Approved (att : List Moment) (p d : Path) : Prop :=
  ∃ v before after,
    att = before ++ .taken (.work (.verified v)) :: .asked (.install p d) :: after ∧
      v.passed = true ∧ Verified before p v

/-- What the moments of an attempt say about verification and installation. -/
structure Gated (att : List Moment) : Prop where
  /-- One transfer at most is begun. -/
  loads : ∀ {id id' : Nat} {q q' : UpdateRequest}, .asked (.startDownload id q) ∈ att →
    .asked (.startDownload id' q') ∈ att → id = id' ∧ q = q'
  /-- The archive probe is asked about the artifact that was delivered, and only if it need not be
  verified or was approved. -/
  probe : ∀ {before after : List Moment} {p d : Path},
    att = before ++ .began (.install p d) :: after →
      ∃ q, Delivered before q p ∧ d = q.destination ∧
        (q.verification = .disabled ∨ Approved before p d)
  /-- The identity provider is asked about the artifact that was delivered. -/
  provider : ∀ {before after : List Moment} {p : Path},
    att = before ++ .began (.verify p) :: after → ∃ q, Delivered before q p
  /-- It is not asked where verification is switched off. -/
  off : ∀ {id : Nat} {q : UpdateRequest}, .asked (.startDownload id q) ∈ att →
    q.verification = .disabled → ∀ p, .began (.verify p) ∉ att
  /-- The archive probe is not asked where a verification did not pass. -/
  failed : ∀ {p : Path} {v : Verdict}, .finished (.verify p) (.verified v) ∈ att →
    v.passed = false → ∀ p' d, .began (.install p' d) ∉ att

/-! ## Records that grow -/

/-- Does the moment neither begin an attempt, a transfer or a job nor end a job? -/
def Moment.isPlain : Moment → Bool
  | attempted accepted => !accepted
  | asked (.startDownload _ _) => false
  | began _ => false
  | finished _ _ => false
  | _ => true

theorem Moment.opens_of_isPlain {m : Moment} (h : m.isPlain = true) : m.opens = false := by
  cases m with
  | attempted accepted => simpa [isPlain, opens] using h
  | _ => rfl

/-- What is not plain is not among plain moments. -/
theorem Moment.mem_of_append {att ms : List Moment} {m : Moment} (hp : m.isPlain = false)
    (hms : ∀ m ∈ ms, m.isPlain = true) (h : m ∈ att ++ ms) : m ∈ att := by
  rcases List.mem_append.1 h with h | h
  · exact h
  · rw [hms m h] at hp
    cases hp

/-- A moment of a longer record that the addition does not hold stood there before. -/
theorem split_of_append {att ms before after : List Moment} {m : Moment}
    (h : att ++ ms = before ++ m :: after) (hm : m ∉ ms) : ∃ rest, att = before ++ m :: rest := by
  rcases List.append_eq_append_iff.1 h with ⟨x, -, hms⟩ | ⟨x, hatt, hx⟩
  · exact absurd (by simp [hms]) hm
  · cases x with
    | nil => exact absurd (by simp [← show m :: after = ms from hx]) hm
    | cons y x =>
      obtain ⟨rfl, -⟩ := List.cons.inj hx
      exact ⟨x, hatt⟩

/-- A moment of a record is its last one, or stood there before. -/
theorem split_of_concat {att before after : List Moment} {x m : Moment}
    (h : att ++ [x] = before ++ m :: after) :
    (x = m ∧ before = att) ∨ ∃ rest, att = before ++ m :: rest := by
  cases hr : after.reverse with
  | nil =>
    obtain rfl := List.reverse_eq_nil_iff.1 hr
    obtain ⟨rfl, hx⟩ := List.append_inj' h rfl
    exact .inl ⟨by simpa using hx, rfl⟩
  | cons y ys =>
    obtain rfl : after = ys.reverse ++ [y] := by simpa using congrArg List.reverse hr
    rw [← List.cons_append, ← List.append_assoc] at h
    exact .inr ⟨ys.reverse, (List.append_inj' h rfl).1⟩

theorem Delivered.append {att : List Moment} {q : UpdateRequest} {p : Path}
    (h : Delivered att q p) (ms : List Moment) : Delivered (att ++ ms) q p := by
  obtain ⟨id, before, after, rfl, hstart, hopen⟩ := h
  exact ⟨id, before, after ++ ms, by simp, hstart, hopen⟩

theorem Delivered.starts {att : List Moment} {q : UpdateRequest} {p : Path}
    (h : Delivered att q p) : ∃ id, .asked (.startDownload id q) ∈ att := by
  obtain ⟨id, before, after, rfl, hstart, -⟩ := h
  exact ⟨id, List.mem_append_left _ hstart⟩

theorem Verified.append {att : List Moment} {p : Path} {v : Verdict} (h : Verified att p v)
    (ms : List Moment) : Verified (att ++ ms) p v := by
  obtain ⟨before, after, rfl, hb⟩ := h
  exact ⟨before, after ++ ms, by simp, hb⟩

theorem Approved.append {att : List Moment} {p d : Path} (h : Approved att p d)
    (ms : List Moment) : Approved (att ++ ms) p d := by
  obtain ⟨v, before, after, rfl, hv, hfin⟩ := h
  exact ⟨v, before, after ++ ms, by simp, hv, hfin⟩

theorem Gated.append {att ms : List Moment} (h : Gated att) (hms : ∀ m ∈ ms, m.isPlain = true) :
    Gated (att ++ ms) := by
  have old : ∀ {m : Moment}, m.isPlain = false → m ∈ att ++ ms → m ∈ att :=
    fun hp => Moment.mem_of_append hp hms
  have new : ∀ {m : Moment}, m.isPlain = false → m ∉ ms := by
    intro m hp hm
    rw [hms m hm] at hp
    cases hp
  refine ⟨fun hq hq' => h.loads (old rfl hq) (old rfl hq'), fun hs => ?_, fun hs => ?_,
    fun hq hv p hp => h.off (old rfl hq) hv p (old rfl hp),
    fun hf hv p' d hp => h.failed (old rfl hf) hv p' d (old rfl hp)⟩
  · obtain ⟨rest, hatt⟩ := split_of_append hs (new rfl)
    exact h.probe hatt
  · obtain ⟨rest, hatt⟩ := split_of_append hs (new rfl)
    exact h.provider hatt

/-- What holds of an attempt held when less of it was noted. -/
theorem Gated.of_prefix {att past : List Moment} (h : Gated att) (hp : past <+: att) :
    Gated past := by
  obtain ⟨rest, rfl⟩ := hp
  have sub : ∀ {m : Moment}, m ∈ past → m ∈ past ++ rest := List.mem_append_left _
  refine ⟨fun hq hq' => h.loads (sub hq) (sub hq'), fun {before after p d} hs => ?_,
    fun {before after p} hs => ?_, fun hq hv p hp => h.off (sub hq) hv p (sub hp),
    fun hf hv p' d hp => h.failed (sub hf) hv p' d (sub hp)⟩
  · have hs' : past ++ rest = before ++ .began (.install p d) :: (after ++ rest) := by
      rw [hs, List.append_assoc, List.cons_append]
    exact h.probe hs'
  · have hs' : past ++ rest = before ++ .began (.verify p) :: (after ++ rest) := by
      rw [hs, List.append_assoc, List.cons_append]
    exact h.provider hs'

/-- Every attempt of a record is gated if those before its last moments are and the attempt is that
these moments belong to. -/
theorem Gated.prefixes {record ms : List Moment}
    (h : ∀ past, past <+: record → Gated (currentAttempt past))
    (hop : ∀ m ∈ ms, m.opens = false) (hg : Gated (currentAttempt record ++ ms)) :
    ∀ past, past <+: record ++ ms → Gated (currentAttempt past) := by
  rintro past ⟨rest, hp⟩
  rcases List.append_eq_append_iff.1 hp with ⟨x, rfl, -⟩ | ⟨x, rfl, rfl⟩
  · exact h past (List.prefix_append past x)
  · rw [currentAttempt_append fun m hm => hop m (List.mem_append_left _ hm)]
    exact hg.of_prefix ((List.prefix_append_right_inj _).2 (List.prefix_append x rest))

/-- An attempt in which no job began and that begins one transfer at most is gated. -/
theorem Gated.of_untouched {att : List Moment}
    (hone : ∀ {id id' : Nat} {q q' : UpdateRequest}, .asked (.startDownload id q) ∈ att →
      .asked (.startDownload id' q') ∈ att → id = id' ∧ q = q')
    (hjobs : ∀ j, .began j ∉ att) : Gated att where
  loads := hone
  probe := by
    rintro before after p d rfl
    exact absurd (List.mem_append_right _ List.mem_cons_self) (hjobs (.install p d))
  provider := by
    rintro before after p rfl
    exact absurd (List.mem_append_right _ List.mem_cons_self) (hjobs (.verify p))
  off _ _ p := hjobs _
  failed _ _ p' d := hjobs _

theorem Gated.began_verify {att : List Moment} {q : UpdateRequest} {p : Path} (h : Gated att)
    (hd : Delivered att q p) (hq : q.verification = .enabled)
    (hun : ∀ p' d, .began (.install p' d) ∉ att) : Gated (att ++ [.began (.verify p)]) := by
  refine ⟨fun hq hq' => h.loads (by simpa using hq) (by simpa using hq'), fun hs => ?_,
    fun hs => ?_, fun hq' hv p' hp => ?_, fun hf hv p' d hp => hun p' d (by simpa using hp)⟩
  · obtain ⟨rest, hatt⟩ := split_of_append hs (by simp)
    exact h.probe hatt
  · rcases split_of_concat hs with ⟨hm, rfl⟩ | ⟨rest, hatt⟩
    · cases hm
      exact ⟨q, hd⟩
    · exact h.provider hatt
  · obtain ⟨id, hst⟩ := hd.starts
    obtain ⟨-, rfl⟩ := h.loads hst (by simpa using hq')
    rw [hq] at hv
    cases hv

theorem Gated.began_install {att : List Moment} {q : UpdateRequest} {p : Path} (h : Gated att)
    (hd : Delivered att q p)
    (hq : q.verification = .disabled ∨ Approved att p q.destination)
    (hpass : ∀ p' v, .finished (.verify p') (.verified v) ∈ att → v.passed = true) :
    Gated (att ++ [.began (.install p q.destination)]) := by
  refine ⟨fun hq hq' => h.loads (by simpa using hq) (by simpa using hq'), fun hs => ?_,
    fun hs => ?_, fun hq' hv p' hp => h.off (by simpa using hq') hv p' (by simpa using hp),
    fun hf hv => ?_⟩
  · rcases split_of_concat hs with ⟨hm, rfl⟩ | ⟨rest, hatt⟩
    · cases hm
      exact ⟨q, hd, rfl, hq⟩
    · exact h.probe hatt
  · obtain ⟨rest, hatt⟩ := split_of_append hs (by simp)
    exact h.provider hatt
  · rw [hpass _ _ (by simpa using hf)] at hv
    cases hv

theorem Gated.finished {att : List Moment} {j : Job} {r : WorkResult} (h : Gated att)
    (hun : (∃ p, j = .verify p) → ∀ p' d, .began (.install p' d) ∉ att) :
    Gated (att ++ [.finished j r]) := by
  refine ⟨fun hq hq' => h.loads (by simpa using hq) (by simpa using hq'), fun hs => ?_,
    fun hs => ?_, fun hq' hv p' hp => h.off (by simpa using hq') hv p' (by simpa using hp),
    fun {p v} hf hv p' d hp => ?_⟩
  · obtain ⟨rest, hatt⟩ := split_of_append hs (by simp)
    exact h.probe hatt
  · obtain ⟨rest, hatt⟩ := split_of_append hs (by simp)
    exact h.provider hatt
  · have hp' : .began (.install p' d) ∈ att := by simpa using hp
    rcases List.mem_append.1 hf with hf | hf
    · exact h.failed hf hv p' d hp'
    · cases List.mem_singleton.1 hf
      exact hun ⟨p, rfl⟩ p' d hp'

end SharedRuntime
