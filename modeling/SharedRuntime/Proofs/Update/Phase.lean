import SharedRuntime.Proofs.Update.Gate

/-!
# Every run passes the gate

The invariant of a run in the background is `Phase`: at each state of the coordinator it says which
job is outstanding and what the attempt noted so far. A job is outstanding only while its state
waits for it (`Pending`), so no result and no report of an earlier attempt opens the gate.
`Kept.step` is the step, `run_gated` the run.
-/

set_option autoImplicit false

namespace SharedRuntime

/-! ## The invariant -/

/-- Does a result belong to a job? -/
def Job.fits : Job → WorkResult → Bool
  | .verify _, .verified _ => true
  | .install _ _, .installed _ => true
  | _, _ => false

namespace Life

/-- No job is outstanding. -/
structure Resting (l : Life) : Prop where
  waiting : l.waiting = []
  running : l.running = []
  work : l.coordinator.work = []

/-- One job is outstanding: it did not begin, or runs, or its result waits to be taken. -/
inductive Pending (l : Life) (j : Job) : Prop
  | waits (waiting : l.waiting = [j]) (running : l.running = []) (work : l.coordinator.work = [])
  | runs (waiting : l.waiting = []) (running : l.running = [j]) (work : l.coordinator.work = [])
  | done (r : WorkResult) (fits : j.fits r = true) (waiting : l.waiting = [])
      (running : l.running = []) (work : l.coordinator.work = [r])

/-- What the current attempt is about, by the state of the coordinator. -/
inductive Phase (l : Life) (att : List Moment) : Prop
  | idle (state : l.coordinator.state = .idle) (resting : l.Resting)
  | downloading (id : Nat) (q : UpdateRequest) (state : l.coordinator.state = .downloading)
      (session : l.coordinator.session.map Session.id = some id)
      (request : l.coordinator.request = some q)
      (resting : l.Resting) (started : .asked (.startDownload id q) ∈ att)
      (ongoing : ∀ o, .taken (.report ⟨id, o⟩) ∈ att → o.isTerminal = false)
      (unprobed : ∀ p d, .began (.install p d) ∉ att) (unfinished : ∀ j r, .finished j r ∉ att)
  | verifying (p : Path) (q : UpdateRequest) (state : l.coordinator.state = .verifying)
      (artifact : l.coordinator.artifact = some p) (request : l.coordinator.request = some q)
      (policy : q.verification = .enabled) (delivered : Delivered att q p)
      (pending : l.Pending (.verify p)) (begun : l.waiting = [] → .began (.verify p) ∈ att)
      (unprobed : ∀ p' d, .began (.install p' d) ∉ att)
      (waits : ∀ j r, .finished j r ∈ att → r ∈ l.coordinator.work)
      (origin : ∀ v, .verified v ∈ l.coordinator.work → Verified att p v)
  | installing (p : Path) (q : UpdateRequest) (state : l.coordinator.state = .installing)
      (request : l.coordinator.request = some q) (delivered : Delivered att q p)
      (cleared : q.verification = .disabled ∨ Approved att p q.destination)
      (pending : l.Pending (.install p q.destination))
      (passed : ∀ p' v, .finished (.verify p') (.verified v) ∈ att → v.passed = true)

variable {l l' : Life} {att ms : List Moment}

theorem Pending.congr {j : Job} (h : l.Pending j) (hw : l'.waiting = l.waiting)
    (hr : l'.running = l.running) (hc : l'.coordinator.work = l.coordinator.work) :
    l'.Pending j := by
  cases h with
  | waits h1 h2 h3 => exact .waits (hw.trans h1) (hr.trans h2) (hc.trans h3)
  | runs h1 h2 h3 => exact .runs (hw.trans h1) (hr.trans h2) (hc.trans h3)
  | done r hf h1 h2 h3 => exact .done r hf (hw.trans h1) (hr.trans h2) (hc.trans h3)

/-- What waits for a coordinator that waits for a job is the result of that job. -/
theorem Pending.of_next {j : Job} {r : WorkResult} {c : Coordinator} (h : l.Pending j)
    (hn : l.coordinator.Next (.work r) c) :
    j.fits r = true ∧ l.waiting = [] ∧ l.running = [] ∧ l.coordinator.work = [r] ∧ c.work = [] := by
  cases hn with
  | work hw =>
    cases h with
    | waits _ _ hc =>
      rw [hc] at hw
      cases hw
    | runs _ _ hc =>
      rw [hc] at hw
      cases hw
    | done r' hf h1 h2 hc =>
      rw [hc] at hw
      cases hw
      exact ⟨hf, h1, h2, hc, rfl⟩

/-- Only the job itself can begin. -/
theorem Pending.of_waiting {j j' : Job} (h : l.Pending j) (hj : j' ∈ l.waiting) :
    j' = j ∧ l.waiting.erase j' = [] ∧ l.running ++ [j'] = [j'] ∧ l.coordinator.work = [] := by
  cases h with
  | runs hw => rw [hw] at hj; cases hj
  | done _ _ hw => rw [hw] at hj; cases hj
  | waits hw hr hwk =>
    rw [hw] at hj ⊢
    rw [hr]
    obtain rfl := List.mem_singleton.1 hj
    exact ⟨rfl, by simp, rfl, hwk⟩

/-- Only the job itself can end. -/
theorem Pending.of_running {j j' : Job} (h : l.Pending j) (hj : j' ∈ l.running) :
    j' = j ∧ l.running.erase j' = [] ∧ l.waiting = [] ∧ l.coordinator.work = [] := by
  cases h with
  | waits _ hr => rw [hr] at hj; cases hj
  | done _ _ _ hr => rw [hr] at hj; cases hj
  | runs hw hr hwk =>
    rw [hr] at hj ⊢
    obtain rfl := List.mem_singleton.1 hj
    exact ⟨rfl, by simp, hw, hwk⟩

/-- Moments that are plain and do not end the session of the attempt change nothing. -/
theorem Phase.grow (h : l.Phase att) (hw : l'.waiting = l.waiting) (hr : l'.running = l.running)
    (hst : l'.coordinator.state = l.coordinator.state)
    (hse : l'.coordinator.session.map Session.id = l.coordinator.session.map Session.id)
    (hre : l'.coordinator.request = l.coordinator.request)
    (har : l'.coordinator.artifact = l.coordinator.artifact)
    (hwk : l'.coordinator.work = l.coordinator.work) (hms : ∀ m ∈ ms, m.isPlain = true)
    (hend : ∀ id o, l.coordinator.session.map Session.id = some id →
      .taken (.report ⟨id, o⟩) ∈ ms → o.isTerminal = false) :
    l'.Phase (att ++ ms) := by
  have old : ∀ {m : Moment}, m.isPlain = false → m ∈ att ++ ms → m ∈ att :=
    fun hp => Moment.mem_of_append hp hms
  cases h with
  | idle h1 h2 =>
    exact .idle (hst.trans h1) ⟨hw.trans h2.waiting, hr.trans h2.running, hwk.trans h2.work⟩
  | downloading id q h1 h2 h3 h4 h5 h6 h7 h8 =>
    refine .downloading id q (hst.trans h1) (hse.trans h2) (hre.trans h3)
      ⟨hw.trans h4.waiting, hr.trans h4.running, hwk.trans h4.work⟩ (List.mem_append_left _ h5)
      (fun o ho => ?_) (fun p d hp => h7 p d (old rfl hp)) (fun j r hf => h8 j r (old rfl hf))
    rcases List.mem_append.1 ho with ho | ho
    · exact h6 o ho
    · exact hend id o h2 ho
  | verifying p q h1 h2 h3 h4 h5 h6 h7 h8 h9 h10 =>
    exact .verifying p q (hst.trans h1) (har.trans h2) (hre.trans h3) h4 (h5.append ms)
      (h6.congr hw hr hwk) (fun hn => List.mem_append_left _ (h7 (hw.symm.trans hn)))
      (fun p' d hp => h8 p' d (old rfl hp)) (fun j r hf => hwk ▸ h9 j r (old rfl hf))
      (fun v hv => (h10 v (hwk ▸ hv)).append ms)
  | installing p q h1 h2 h3 h4 h5 h6 =>
    exact .installing p q (hst.trans h1) (hre.trans h2) (h3.append ms)
      (h4.imp_right fun h => h.append ms) (h5.congr hw hr hwk)
      (fun p' v hf => h6 p' v (old rfl hf))

/-- What every step in the background keeps. -/
structure Kept (setup : Setup) (l : Life) : Prop where
  background : setup.presentation = .background
  setup_eq : l.coordinator.setup = { setup with metadata := metadataAfter setup.metadata l.record }
  /-- A request says what the setup and the metadata said when it was built. -/
  requests : ∀ past id q later, l.record = past ++ .asked (.startDownload id q) :: later →
    q.verification = (metadataAfter setup.metadata past).verificationPolicy ∧
      q.destination = setup.destination
  standing : l.coordinator.Standing
  phase : l.Phase (currentAttempt l.record)
  gated : ∀ past, past <+: l.record → Gated (currentAttempt past)

variable {setup : Setup}

theorem Kept.isBackground (h : l.Kept setup) :
    l.coordinator.setup.presentation = .background := by
  rw [h.setup_eq]
  exact h.background

theorem Kept.extend (h : l.Kept setup) (ms : List Moment)
    (hset : l'.coordinator.setup =
      { l.coordinator.setup with metadata := metadataAfter l.coordinator.setup.metadata ms })
    (hs : l'.coordinator.Standing) (hrec : l'.record = l.record ++ ms)
    (hop : ∀ m ∈ ms, m.opens = false) (hload : ∀ id q, .asked (.startDownload id q) ∉ ms)
    (hp : l'.Phase (currentAttempt l.record ++ ms))
    (hg : Gated (currentAttempt l.record ++ ms)) : l'.Kept setup where
  background := h.background
  setup_eq := by rw [hset, h.setup_eq, hrec, metadataAfter_append]
  requests past id q later hl := by
    rw [hrec] at hl
    obtain ⟨rest, hl⟩ := split_of_append hl (hload id q)
    exact h.requests past id q rest hl
  standing := hs
  phase := by
    rw [hrec, currentAttempt_append hop]
    exact hp
  gated := by
    rw [hrec]
    exact Gated.prefixes h.gated hop hg

/-- Plain moments leave the gate as it was. -/
theorem Kept.grow (h : l.Kept setup) (ms : List Moment)
    (hset : l'.coordinator.setup =
      { l.coordinator.setup with metadata := metadataAfter l.coordinator.setup.metadata ms })
    (hs : l'.coordinator.Standing) (hrec : l'.record = l.record ++ ms)
    (hms : ∀ m ∈ ms, m.isPlain = true)
    (hp : l'.Phase (currentAttempt l.record ++ ms)) : l'.Kept setup :=
  h.extend ms hset hs hrec (fun m hm => Moment.opens_of_isPlain (hms m hm))
    (fun _ _ hm => by cases hms _ hm) hp ((h.gated l.record (List.prefix_refl _)).append hms)

theorem setup_of_turn {c c' : Coordinator} {first : Moment} {es : List Effect}
    (hset : c'.setup = c.setup) (hfirst : first.metadata? = none) :
    c'.setup = { c.setup with
      metadata := metadataAfter c.setup.metadata (first :: es.map .asked) } := by
  have hm : ∀ x ∈ first :: es.map Moment.asked, x.metadata? = none :=
    List.forall_mem_cons.2 ⟨hfirst, metadata?_asked⟩
  rw [metadataAfter_eq hm, hset]

/-! ## The steps -/

/-- Effects that neither load nor work. -/
def Quiet (es : List Effect) : Prop :=
  es.filterMap Effect.job? = [] ∧ ∀ m ∈ es.map Moment.asked, m.isPlain = true

theorem quiet_nil : Quiet [] := ⟨rfl, fun _ h => by cases h⟩

theorem Quiet.append {es es' : List Effect} (h : Quiet es) (h' : Quiet es') :
    Quiet (es ++ es') := by
  refine ⟨by rw [List.filterMap_append, h.1, h'.1, List.append_nil], fun m hm => ?_⟩
  rw [List.map_append] at hm
  rcases List.mem_append.1 hm with hm | hm
  · exact h.2 m hm
  · exact h'.2 m hm

theorem quiet_tell (e : UpdateEvent) : Quiet [.tell e] :=
  ⟨rfl, fun m hm => by cases List.mem_singleton.1 hm; rfl⟩

theorem quiet_removed (p : Path) (e : UpdateEvent) : Quiet [.removeFile p, .tell e] := by
  refine ⟨rfl, fun m hm => ?_⟩
  rcases List.mem_cons.1 hm with rfl | hm
  · rfl
  · exact (quiet_tell e).2 m hm

theorem quiet_told (os : List DownloadOutcome) : Quiet (os.flatMap DownloadOutcome.told) := by
  induction os with
  | nil => exact quiet_nil
  | cons o os ih =>
    rw [List.flatMap_cons]
    refine Quiet.append ?_ ih
    cases o with
    | started => exact quiet_tell .started
    | progress p => exact quiet_tell (.progress p)
    | cancelled => exact quiet_nil
    | failed st code => exact quiet_nil
    | completed p => exact quiet_nil

theorem quiet_cancelSession (c : Coordinator) : Quiet c.cancelSession := by
  unfold Coordinator.cancelSession
  split
  · split
    · exact ⟨rfl, fun m hm => by cases List.mem_singleton.1 hm; rfl⟩
    · exact quiet_nil
  · exact quiet_nil

theorem cancelBackgroundUpdate_quiet (c : Coordinator) (a : Answers) :
    ∃ b es, Quiet es ∧ c.cancelBackgroundUpdate a = (b, c, es) := by
  unfold Coordinator.cancelBackgroundUpdate
  split
  · exact ⟨false, [], quiet_nil, rfl⟩
  · exact ⟨_, _, quiet_cancelSession c, rfl⟩

/-- A moment that neither jobs nor the attempt have part in. -/
theorem Kept.aside (h : l.Kept setup) {m : Moment} {c : Coordinator} (hm : m.isPlain = true)
    (hend : ∀ r, m ≠ .taken (.report r)) (hs : c.Standing)
    (hset : c.setup = { l.coordinator.setup with
      metadata := m.metadata?.getD l.coordinator.setup.metadata })
    (hst : c.state = l.coordinator.state) (hse : c.session = l.coordinator.session)
    (hre : c.request = l.coordinator.request) (har : c.artifact = l.coordinator.artifact)
    (hwk : c.work = l.coordinator.work) : ({ l with coordinator := c }.note m).Kept setup := by
  have hms : ∀ x ∈ [m], x.isPlain = true := List.forall_mem_singleton.2 hm
  refine h.grow [m] hset hs rfl hms (h.phase.grow rfl rfl hst (congrArg _ hse) hre har hwk hms ?_)
  intro id o _ hx
  exact absurd (List.mem_singleton.1 hx).symm (hend ⟨id, o⟩)

/-- A turn whose effects are quiet and that keeps the attempt. -/
theorem Kept.quiet_turn (h : l.Kept setup) {first : Moment} {c : Coordinator} {es : List Effect}
    (hes : Quiet es) (hfirst : first.isPlain = true) (hmeta : first.metadata? = none)
    (hend : ∀ id o, l.coordinator.session.map Session.id = some id →
      first = .taken (.report ⟨id, o⟩) → o.isTerminal = false)
    (hs : c.Standing) (hset : c.setup = l.coordinator.setup)
    (hst : c.state = l.coordinator.state)
    (hse : c.session.map Session.id = l.coordinator.session.map Session.id)
    (hre : c.request = l.coordinator.request) (har : c.artifact = l.coordinator.artifact)
    (hwk : c.work = l.coordinator.work) : (l.turn first (c, es)).Kept setup := by
  have hms : ∀ m ∈ first :: es.map Moment.asked, m.isPlain = true :=
    List.forall_mem_cons.2 ⟨hfirst, hes.2⟩
  refine h.grow (first :: es.map .asked) (setup_of_turn hset hmeta) hs rfl hms
    (h.phase.grow ?_ rfl hst hse hre har hwk hms ?_)
  · show l.waiting ++ es.filterMap Effect.job? = l.waiting
    rw [hes.1, List.append_nil]
  · intro id o hid hm
    rcases List.mem_cons.1 hm with hm | hm
    · exact hend id o hid hm.symm
    · obtain ⟨e, -, he⟩ := List.mem_map.1 hm
      cases he

/-- A turn whose effects are quiet and that ends the attempt. -/
theorem Kept.ending_turn (h : l.Kept setup) {first : Moment} {c : Coordinator} {es : List Effect}
    (hes : Quiet es) (hfirst : first.isPlain = true) (hmeta : first.metadata? = none)
    (hs : c.Standing) (hset : c.setup = l.coordinator.setup) (hst : c.state = .idle)
    (hw : l.waiting = []) (hr : l.running = []) (hwk : c.work = []) :
    (l.turn first (c, es)).Kept setup := by
  refine h.grow (first :: es.map .asked) (setup_of_turn hset hmeta) hs rfl
    (List.forall_mem_cons.2 ⟨hfirst, hes.2⟩) (.idle hst ⟨?_, hr, hwk⟩)
  show l.waiting ++ es.filterMap Effect.job? = []
  rw [hes.1, hw]
  rfl

/-- An accepted call begins another attempt. -/
theorem Kept.opening_turn (h : l.Kept setup) {c : Coordinator} {es : List Effect}
    (hs : c.Standing) (hset : c.setup = l.coordinator.setup)
    (hload : ∀ id q, .startDownload id q ∈ es → q = l.coordinator.buildRequest)
    (hp : (l.turn (.attempted true) (c, es)).Phase (es.map .asked))
    (hg : Gated (es.map .asked)) : (l.turn (.attempted true) (c, es)).Kept setup where
  background := h.background
  setup_eq := by
    show c.setup = { setup with
      metadata := metadataAfter setup.metadata (l.record ++ .attempted true :: es.map .asked) }
    have hnew : c.setup = { l.coordinator.setup with
        metadata := metadataAfter l.coordinator.setup.metadata
          (.attempted true :: es.map .asked) } :=
      setup_of_turn hset rfl
    rw [hnew, h.setup_eq, metadataAfter_append]
  requests past id q later hl := by
    have hl' : l.record ++ .attempted true :: es.map .asked =
      past ++ .asked (.startDownload id q) :: later := hl
    rcases List.append_eq_append_iff.1 hl' with ⟨x, rfl, hx⟩ | ⟨x, hrec, hx⟩
    · have hmem : Effect.startDownload id q ∈ es := by
        have hm : Moment.asked (.startDownload id q) ∈ .attempted true :: es.map .asked := by
          simp [hx]
        simpa using hm
      have hsame : metadataAfter setup.metadata (l.record ++ x) =
          l.coordinator.setup.metadata := by
        rw [h.setup_eq, metadataAfter_append]
        refine metadataAfter_eq fun y hy => ?_
        have hy' : y ∈ Moment.attempted true :: es.map .asked := hx ▸ List.mem_append_left _ hy
        rcases List.mem_cons.1 hy' with rfl | hy'
        · rfl
        · exact metadata?_asked y hy'
      rw [hload id q hmem, hsame]
      refine ⟨rfl, ?_⟩
      show l.coordinator.setup.destination = _
      rw [h.setup_eq]
    · cases x with
      | nil => cases hx
      | cons y x =>
        obtain ⟨rfl, -⟩ := List.cons.inj hx
        exact h.requests past id q x hrec
  standing := hs
  phase := by
    show Phase _ (currentAttempt (l.record ++ .attempted true :: es.map .asked))
    rw [currentAttempt_opened opens_asked]
    exact hp
  gated := by
    show ∀ past, past <+: l.record ++ .attempted true :: es.map .asked → _
    rw [List.append_cons]
    -- The call itself starts the attempt anew, the effects are its first moments.
    have hopened : currentAttempt (l.record ++ [.attempted true]) = [] := by
      rw [currentAttempt_concat]
      rfl
    refine Gated.prefixes (fun past hpast => ?_) opens_asked ?_
    · rcases List.prefix_concat_iff.1 hpast with rfl | hpast
      · rw [hopened]
        exact .of_untouched (fun hm => by cases hm) (fun j hm => by cases hm)
      · exact h.gated past hpast
    · rw [hopened]
      exact hg

/-- No job is outstanding before a download ends. -/
theorem Phase.resting (h : l.Phase att)
    (hst : l.coordinator.state = .idle ∨ l.coordinator.state = .downloading) : l.Resting := by
  cases h with
  | idle _ hr => exact hr
  | downloading _ _ _ _ _ hr => exact hr
  | verifying _ _ hv =>
    rw [hv] at hst
    rcases hst with hst | hst <;> cases hst
  | installing _ _ hi =>
    rw [hi] at hst
    rcases hst with hst | hst <;> cases hst

theorem Kept.attempt (h : l.Kept setup) {b : Bool} {t : Turn} (ht : l.coordinator.Attempts b t) :
    (l.turn (.attempted b) t).Kept setup := by
  have hs := ht.standing h.standing
  cases ht with
  | refused =>
    exact h.quiet_turn quiet_nil rfl rfl (fun _ _ _ hm => by cases hm) hs rfl rfl rfl rfl rfl rfl
  | unconfigured hst hu =>
    obtain ⟨hw, hr, hwk⟩ := h.phase.resting (.inl hst)
    refine h.opening_turn hs rfl (fun id q hm => by simp at hm) (.idle rfl ⟨?_, hr, hwk⟩)
      (.of_untouched (fun hm => by simp at hm) (fun j hm => by simp at hm))
    show l.waiting ++ [] = []
    rw [hw]
    rfl
  | started hst hu =>
    obtain ⟨hw, hr, hwk⟩ := h.phase.resting (.inl hst)
    refine h.opening_turn hs rfl (fun id q hm => ?_)
      (.downloading (l.coordinator.lastSession + 1) l.coordinator.buildRequest rfl rfl rfl
        ⟨?_, hr, hwk⟩ List.mem_cons_self (fun o ho => by simp at ho) (fun p d hp => by simp at hp)
        (fun j r hf => by simp at hf))
      (.of_untouched (fun hm hm' => ?_) (fun j hm => by simp at hm))
    · cases List.mem_singleton.1 hm
      rfl
    · show l.waiting ++ [] = []
      rw [hw]
      rfl
    · simp only [List.map_cons, List.map_nil, List.mem_singleton, Moment.asked.injEq,
        Effect.startDownload.injEq] at hm hm'
      exact ⟨hm.1.trans hm'.1.symm, hm.2.trans hm'.2.symm⟩

/-- What was noted while the download runs. -/
theorem Phase.loading (h : l.Phase att) {s : Session} {q : UpdateRequest}
    (hst : l.coordinator.state = .downloading) (hse : l.coordinator.session = some s)
    (hq : l.coordinator.request = some q) :
    .asked (.startDownload s.id q) ∈ att ∧
      (∀ o, .taken (.report ⟨s.id, o⟩) ∈ att → o.isTerminal = false) ∧
      (∀ p d, .began (.install p d) ∉ att) ∧ ∀ j r, .finished j r ∉ att := by
  cases h with
  | idle hi => rw [hst] at hi; cases hi
  | verifying _ _ hi => rw [hst] at hi; cases hi
  | installing _ _ hi => rw [hst] at hi; cases hi
  | downloading id q' _ hid hq' _ hstart hon hun hunf =>
    rw [hse] at hid
    obtain rfl : s.id = id := Option.some.inj hid
    obtain rfl : q' = q := Option.some.inj (hq'.symm.trans hq)
    exact ⟨hstart, hon, hun, hunf⟩

/-- The one job among effects that are quiet before it. -/
theorem Quiet.then_job {es : List Effect} {e : Effect} {j : Job} (h : Quiet es)
    (hj : e.job? = some j) : (es ++ [e]).filterMap Effect.job? = [j] ∧
      ∀ m ∈ (es ++ [e]).map Moment.asked, m.isPlain = true := by
  refine ⟨?_, fun m hm => ?_⟩
  · rw [List.filterMap_append, h.1, List.filterMap_cons_some hj]
    rfl
  · rw [List.map_append] at hm
    rcases List.mem_append.1 hm with hm | hm
    · exact h.2 m hm
    · cases List.mem_singleton.1 hm
      cases e with
      | startDownload id q => cases hj
      | _ => rfl

/-- The artifact arrives: a job is asked for, and the attempt goes on as its request says. -/
theorem Kept.delivery (h : l.Kept setup) {n : Nat} {p : Path} {s : Session} {q : UpdateRequest}
    {c : Coordinator} {es : List Effect} {e : Effect} {j : Job} (hes : Quiet es)
    (hj : e.job? = some j) (hst : l.coordinator.state = .downloading)
    (hse : l.coordinator.session = some s) (hid : n = s.id) (hq : l.coordinator.request = some q)
    (hset : c.setup = l.coordinator.setup) (hs : c.Standing)
    (hphase : ∀ (l' : Life) att, l'.coordinator = c → l'.waiting = [j] → l'.running = [] →
      Delivered att q p → (∀ p d, .began (.install p d) ∉ att) → (∀ j r, .finished j r ∉ att) →
      l'.Phase att) : (l.turn (.taken (.report ⟨n, .completed p⟩)) (c, es ++ [e])).Kept setup := by
  obtain ⟨hw, hr, -⟩ := h.phase.resting (.inr hst)
  obtain ⟨hstart, hon, hun, hunf⟩ := h.phase.loading hst hse hq
  obtain ⟨hjobs, hasked⟩ := hes.then_job hj
  subst hid
  have hplain : ∀ m ∈ Moment.taken (.report ⟨s.id, .completed p⟩) :: (es ++ [e]).map .asked,
      m.isPlain = true := List.forall_mem_cons.2 ⟨rfl, hasked⟩
  refine h.grow _ (setup_of_turn hset rfl) hs rfl hplain
    (hphase _ _ rfl ?_ hr ⟨s.id, _, _, rfl, hstart, hon⟩
      (fun p' d hp => hun p' d (Moment.mem_of_append rfl hplain hp))
      (fun j r hf => hunf j r (Moment.mem_of_append rfl hplain hf)))
  show l.waiting ++ (es ++ [e]).filterMap Effect.job? = [j]
  rw [hw, hjobs]
  rfl

theorem Kept.report (h : l.Kept setup) {r : SessionReport} {c : Coordinator} {t : Turn}
    (hn : l.coordinator.Next (.report r) c) (ht : c.Moves (.report r) t) :
    (l.turn (.taken (.report r)) t).Kept setup := by
  have hs := ht.standing (h.standing.next hn)
  cases hn with
  | report hwk hr =>
  -- Only a completion goes to another phase; the other reports stay in it or end the attempt.
  cases ht with
  | strayReport hstray =>
    refine h.quiet_turn quiet_nil rfl rfl (fun id o hid hm => ?_) hs rfl rfl rfl rfl rfl rfl
    obtain ⟨s, hse, rfl⟩ := Option.map_eq_some_iff.1 hid
    cases hm
    exact absurd rfl (hstray s hse)
  | @progressed _ s hst hse hid ho =>
    have hph : s.phase ≠ .terminal := by
      cases h.standing <;> simp_all
    obtain ⟨hsame, -⟩ := s.accept_open hid hph ho
    refine h.quiet_turn (quiet_told _) rfl rfl (fun id o _ hm => ?_) hs rfl rfl ?_ rfl rfl rfl
    · cases hm
      exact ho
    · show some (s.accept r).1.id = l.coordinator.session.map Session.id
      rw [hsame, show l.coordinator.session = some s from hse]
      rfl
  | stopped hst hse hid ho =>
    obtain ⟨hw, hr, -⟩ := h.phase.resting (.inr hst)
    exact h.ending_turn ((quiet_told _).append (quiet_tell _)) rfl rfl hs rfl rfl hw hr hwk
  | toVerify hst hse hid hq hv =>
    refine h.delivery (quiet_told _) rfl hst hse hid hq rfl hs
      fun l' att hc hw hr hd hun hunf => ?_
    have hwork : l'.coordinator.work = [] := by
      rw [hc]
      exact hwk
    exact .verifying _ _ (by rw [hc]) (by rw [hc]) (by rw [hc]; exact hq) hv hd
      (.waits hw hr hwork) (fun hnil => by rw [hw] at hnil; cases hnil) hun
      (fun j r hf => absurd hf (hunf j r)) (fun v hm => by rw [hwork] at hm; cases hm)
  | toInstall hst hse hid hq hv =>
    refine h.delivery (quiet_told _) rfl hst hse hid hq rfl hs
      fun l' att hc hw hr hd hun hunf => ?_
    exact .installing _ _ (by rw [hc]) (by rw [hc]; exact hq) hd (.inl hv)
      (.waits hw hr (by rw [hc]; exact hwk)) (fun p' v hf => absurd hf (hunf _ _))

theorem Kept.action (h : l.Kept setup) {r : ActionReport} {c : Coordinator} {t : Turn}
    (hn : l.coordinator.Next (.action r) c) (ht : c.Moves (.action r) t) :
    (l.turn (.taken (.action r)) t).Kept setup := by
  have hs := ht.standing (h.standing.next hn)
  cases hn with
  | action hwk hr ha =>
  cases ht with
  | cancelling hst =>
    exact h.quiet_turn (quiet_cancelSession _) rfl rfl (fun _ _ _ hm => by cases hm) hs rfl rfl rfl
      rfl rfl rfl
  | strayAction =>
    exact h.quiet_turn quiet_nil rfl rfl (fun _ _ _ hm => by cases hm) hs rfl rfl rfl rfl rfl rfl

theorem Kept.work (h : l.Kept setup) {r : WorkResult} {c : Coordinator} {t : Turn}
    (hn : l.coordinator.Next (.work r) c) (ht : c.Moves (.work r) t) :
    (l.turn (.taken (.work r)) t).Kept setup := by
  have hs := ht.standing (h.standing.next hn)
  have hst : c.state = l.coordinator.state := by cases hn; rfl
  have hset : c.setup = l.coordinator.setup := hn.setup
  -- A result waits only in the phases that have a job out, and there it is the one of that job.
  cases h.phase with
  | idle _ hr =>
    cases hn with
    | work hwk => rw [hr.work] at hwk; cases hwk
  | downloading _ _ _ _ _ hr =>
    cases hn with
    | work hwk => rw [hr.work] at hwk; cases hwk
  | verifying p q hv har hq _ hd hp hbeg hun hwaits horig =>
    obtain ⟨hfit, hw, hr, hwk, hcw⟩ := hp.of_next hn
    have hv' : c.state = .verifying := hst.trans hv
    have har' : c.artifact = some p := by cases hn; exact har
    have hq' : c.request = some q := by cases hn; exact hq
    cases ht with
    | installed hi => rw [hv'] at hi; cases hi
    | strayWork h1 _ =>
      cases r with
      | installed x => cases hfit
      | verified v => exact absurd hv' (h1 v rfl)
    | rejected =>
      exact h.ending_turn (quiet_removed _ _) rfl rfl hs hset rfl hw hr hcw
    | @approved v p' q₁ _ hpass hart hreq =>
      obtain rfl : p = p' := Option.some.inj (har'.symm.trans hart)
      obtain rfl : q = q₁ := Option.some.inj (hq'.symm.trans hreq)
      have hplain : ∀ m ∈ [Moment.taken (.work (.verified v)), .asked (.install p q.destination)],
          m.isPlain = true := by
        intro m hm
        rcases List.mem_cons.1 hm with rfl | hm
        · rfl
        · cases List.mem_singleton.1 hm
          rfl
      have hver : Verified (currentAttempt l.record) p v :=
        horig v (by rw [hwk]; exact List.mem_singleton_self _)
      refine h.grow _ (setup_of_turn hset rfl) hs rfl hplain
        (.installing p q rfl hreq (hd.append _) (.inr ⟨v, _, [], rfl, hpass, hver⟩)
          (.waits ?_ hr hcw) fun p' v' hf => ?_)
      · show l.waiting ++ _ = _
        rw [hw]
        rfl
      · -- Every verdict of this attempt waited, and only the one that is taken did.
        have hmem := hwaits _ _ (Moment.mem_of_append rfl hplain hf)
        rw [hwk] at hmem
        cases List.mem_singleton.1 hmem
        exact hpass
  | installing p q hi hq hd _ hp hpass =>
    obtain ⟨hfit, hw, hr, hwk, hcw⟩ := hp.of_next hn
    have hi' : c.state = .installing := hst.trans hi
    cases ht with
    | approved hv => rw [hi'] at hv; cases hv
    | rejected hv => rw [hi'] at hv; cases hv
    | strayWork _ h2 =>
      cases r with
      | verified v => cases hfit
      | installed x => exact absurd hi' (h2 x rfl)
    | installed =>
      exact h.ending_turn (quiet_removed _ _) rfl rfl hs hset rfl hw hr hcw

/-- The job that waits is the one of the attempt, and it begins as the gate allows. -/
theorem Kept.begin (h : l.Kept setup) {j : Job} (hj : j ∈ l.waiting) :
    ({ l with waiting := l.waiting.erase j,
              running := l.running ++ [j] }.note (.began j)).Kept setup := by
  have hg := h.gated l.record (List.prefix_refl _)
  cases h.phase with
  | idle _ hr => rw [hr.waiting] at hj; cases hj
  | downloading _ _ _ _ _ hr => rw [hr.waiting] at hj; cases hj
  | verifying p q hv har hq hpol hd hp hbeg hun hwaits horig =>
    obtain ⟨rfl, herase, hrun, hwk⟩ := hp.of_waiting hj
    refine h.extend _ rfl h.standing rfl (fun m hm => by cases List.mem_singleton.1 hm; rfl)
      (fun _ _ hm => by cases List.mem_singleton.1 hm)
      (.verifying p q hv har hq hpol (hd.append _) (.runs herase hrun hwk)
        (fun _ => List.mem_append_right _ (List.mem_singleton_self _))
        (fun p' d hb => hun p' d (by simpa using hb))
        (fun j r hf => hwaits j r (by simpa using hf)) (fun v hm => ?_))
      (hg.began_verify hd hpol hun)
    have hm' : .verified v ∈ l.coordinator.work := hm
    rw [hwk] at hm'
    cases hm'
  | installing p q hi hq hd hcl hp hpass =>
    obtain ⟨rfl, herase, hrun, hwk⟩ := hp.of_waiting hj
    exact h.extend _ rfl h.standing rfl (fun m hm => by cases List.mem_singleton.1 hm; rfl)
      (fun _ _ hm => by cases List.mem_singleton.1 hm)
      (.installing p q hi hq (hd.append _) (hcl.imp_right fun ha => ha.append _)
        (.runs herase hrun hwk) (fun p' v hf => hpass p' v (by simpa using hf)))
      (hg.began_install hd hcl hpass)

/-- The job that runs is the one of the attempt, and its result waits for the coordinator. -/
theorem Kept.finish (h : l.Kept setup) {j : Job} {r : WorkResult} (hfit : j.fits r = true)
    (hl : l.finish j r = some l') : l'.Kept setup := by
  unfold Life.finish at hl
  split at hl
  · rename_i hj
    cases hl
    have hg := h.gated l.record (List.prefix_refl _)
    have hs : (l.coordinator.receiveWork r).Standing := h.standing.congr rfl rfl rfl rfl rfl
    cases h.phase with
    | idle _ hr => rw [hr.running] at hj; cases hj
    | downloading _ _ _ _ _ hr => rw [hr.running] at hj; cases hj
    | verifying p q hv har hq hpol hd hp hbeg hun hwaits horig =>
      obtain ⟨rfl, herase, hw, hwk⟩ := hp.of_running hj
      have hwork : (l.coordinator.receiveWork r).work = [r] := congrArg (· ++ [r]) hwk
      refine h.extend _ rfl hs rfl (fun m hm => by cases List.mem_singleton.1 hm; rfl)
        (fun _ _ hm => by cases List.mem_singleton.1 hm)
        (.verifying p q hv har hq hpol (hd.append _) (.done r hfit hw herase hwork)
          (fun hnil => List.mem_append_left _ (hbeg hnil))
          (fun p' d hb => hun p' d (by simpa using hb)) (fun j' r' hf => ?_) (fun v hm => ?_))
        (hg.finished fun _ => hun)
      · show r' ∈ (l.coordinator.receiveWork r).work
        rw [hwork]
        rcases List.mem_append.1 hf with hf | hf
        · have hm := hwaits j' r' hf
          rw [hwk] at hm
          cases hm
        · cases List.mem_singleton.1 hf
          exact List.mem_singleton_self r
      · have hm' : .verified v ∈ (l.coordinator.receiveWork r).work := hm
        rw [hwork] at hm'
        cases List.mem_singleton.1 hm'
        exact ⟨_, [], rfl, hbeg hw⟩
    | installing p q hi hq hd hcl hp hpass =>
      obtain ⟨rfl, herase, hw, hwk⟩ := hp.of_running hj
      have hwork : (l.coordinator.receiveWork r).work = [r] := congrArg (· ++ [r]) hwk
      refine h.extend _ rfl hs rfl (fun m hm => by cases List.mem_singleton.1 hm; rfl)
        (fun _ _ hm => by cases List.mem_singleton.1 hm)
        (.installing p q hi hq (hd.append _) (hcl.imp_right fun ha => ha.append _)
          (.done r hfit hw herase hwork) (fun p' v hf => ?_))
        (hg.finished fun ⟨_, he⟩ => by cases he)
      rcases List.mem_append.1 hf with hf | hf
      · exact hpass p' v hf
      · cases List.mem_singleton.1 hf
  · cases hl

/-- Every step in the background keeps the gate. -/
theorem Kept.step (l : Life) (x : Happening) (l' : Life) (h : l.Kept setup)
    (hl : l.step x = some l') : l'.Kept setup := by
  cases x with
  | attempt a =>
    cases hl
    exact h.attempt (Coordinator.attemptUpdate_attempts h.isBackground h.standing a)
  | cancel a =>
    obtain ⟨b, es, hes, hc⟩ := cancelBackgroundUpdate_quiet l.coordinator a
    have hl' : some (l.turn (.cancelled b) (l.coordinator, es)) = some l' := by
      rw [← hl]
      show _ = some (l.turn (.cancelled (l.coordinator.cancelBackgroundUpdate a).1)
        (l.coordinator.cancelBackgroundUpdate a).2)
      rw [hc]
    cases hl'
    exact h.quiet_turn hes rfl rfl (fun _ _ _ hm => by cases hm) h.standing rfl rfl rfl rfl rfl rfl
  | overrideUrl url =>
    cases hl
    exact h.aside rfl (fun _ he => by cases he) (h.standing.congr rfl rfl rfl rfl rfl) rfl rfl rfl
      rfl rfl rfl
  | configure m =>
    cases hl
    exact h.aside rfl (fun _ he => by cases he) (h.standing.congr rfl rfl rfl rfl rfl) rfl rfl rfl
      rfl rfl rfl
  | process a =>
    rcases step_process hl with rfl | ⟨m, c, hst, hn, rfl⟩
    · exact h
    · have hb : c.setup.presentation = .background := by
        rw [hn.setup]
        exact h.isBackground
      have hm := Coordinator.handle_moves hb (h.standing.next hn) a m
      cases m with
      | work r => exact h.work hn hm
      | report r => exact h.report hn hm
      | action r => exact h.action hn hm
  | report r =>
    cases hl
    exact h.aside rfl (fun _ he => by cases he) (h.standing.congr rfl rfl rfl rfl rfl) rfl rfl rfl
      rfl rfl rfl
  | choose r =>
    cases hl
    exact h.aside rfl (fun _ he => by cases he) (h.standing.congr rfl rfl rfl rfl rfl) rfl rfl rfl
      rfl rfl rfl
  | begin j =>
    unfold Life.step at hl
    dsimp only at hl
    split at hl
    · cases hl
      exact h.begin ‹_›
    · cases hl
  | verified p found trusted => exact h.finish rfl hl
  | installed p d r => exact h.finish rfl hl

/-- A coordinator in the background before its first call. -/
theorem kept_new (hb : setup.presentation = .background) : (new setup).Kept setup where
  background := hb
  setup_eq := rfl
  requests past id q later h := by
    have hm : Moment.asked (.startDownload id q) ∈ ([] : List Moment) := by
      rw [show [] = past ++ .asked (.startDownload id q) :: later from h]
      exact List.mem_append_right _ List.mem_cons_self
    cases hm
  standing := .idle rfl rfl rfl rfl
  phase := .idle rfl ⟨rfl, rfl, rfl⟩
  gated past hp := by
    obtain rfl := List.prefix_nil.1 hp
    exact .of_untouched (fun hm => by cases hm) (fun j hm => by cases hm)

/-- In every run in the background every attempt is gated at every moment, and each request has the
policy that the metadata stated when it was built, and the destination of the setup. -/
theorem run_gated (hb : setup.presentation = .background) {hs : List Happening} {l : Life}
    (hr : (new setup).run hs = some l) :
    (∀ past, past <+: l.record → Gated (currentAttempt past)) ∧
      ∀ past id q later, l.record = past ++ .asked (.startDownload id q) :: later →
        q.verification = (metadataAfter setup.metadata past).verificationPolicy ∧
          q.destination = setup.destination := by
  have h : l.Kept setup := run_invariant (P := Kept setup) Kept.step (kept_new hb) hr
  exact ⟨h.gated, h.requests⟩

/-- A setup in the background whose metadata are empty. -/
def plainSetup : Setup := ⟨.background, [], "arm64", [1], [2]⟩

/-- Answers under which the runtime is absent and everything is taken. -/
def plainAnswers : Answers := ⟨.absent, true, fun _ => .ok (), fun _ => .ok ()⟩

/-- An attempt in which the artifact at `[3]` is verified and its installation begins. Session `7`
reports another artifact before, and session `1` a failure after its end. -/
def installingRun (trusted : Identity) : List Happening :=
  [.overrideUrl "http://host/runtime", .report ⟨7, .completed [9]⟩, .attempt plainAnswers,
    .process plainAnswers, .report ⟨1, .completed [3]⟩, .process plainAnswers, .begin (.verify [3]),
    .report ⟨1, .failed 0 0⟩, .verified [3] (.ok [trusted]) (.ok [trusted]),
    .process plainAnswers, .begin (.install [3] [1])]

theorem run_gated_installing : ∃ l,
    (new plainSetup).run (installingRun ⟨List.replicate keySize 0, rfl⟩) = some l ∧
      (∃ before, l.record = before ++ [.began (.install [3] [1])]) ∧
        ∀ past, past <+: l.record → Gated (currentAttempt past) := by
  have hr : (new plainSetup).run (installingRun ⟨List.replicate keySize 0, rfl⟩) = some _ := rfl
  exact ⟨_, hr, ⟨_, rfl⟩, (run_gated rfl hr).1⟩

end Life

end SharedRuntime
