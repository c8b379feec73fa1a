import SharedRuntime.Proofs.Update.Effects

/-!
# Messages that come too late

A report of a session that is not live, or a choice of another attempt, is a stray: taking it changes
nothing. So strays can be slipped into a run wherever one likes, each with a turn that takes it, and
nobody can tell. `Laced` says that the marked happenings of a list are such additions, `Agree` what
the run without them and the run with them have in common, and `Agree.step` that they keep it.
-/

set_option autoImplicit false

namespace SharedRuntime

/-! ## Marked lists -/

/-- What is not marked. -/
def unmarked {α : Type} (xs : List (α × Bool)) : List α :=
  (xs.filter fun x => !x.2).map Prod.fst

section
variable {α : Type} (xs : List (α × Bool)) (x : α)

theorem unmarked_append (ys : List (α × Bool)) : unmarked (xs ++ ys) = unmarked xs ++ unmarked ys := by
  simp [unmarked]

theorem unmarked_cons_true : unmarked ((x, true) :: xs) = unmarked xs := rfl

theorem unmarked_cons_false : unmarked ((x, false) :: xs) = x :: unmarked xs := rfl

theorem unmarked_concat_true : unmarked (xs ++ [(x, true)]) = unmarked xs := by
  rw [unmarked_append]
  exact List.append_nil _

theorem unmarked_concat_false : unmarked (xs ++ [(x, false)]) = unmarked xs ++ [x] :=
  unmarked_append xs _

end

/-- Does a message arrive with the moment, or is it taken? -/
def Moment.isMessage : Moment → Bool
  | reported _ => true
  | chose _ => true
  | taken _ => true
  | _ => false

/-- The second record is the first one with more messages that arrive or are taken. -/
inductive Thickened : List Moment → List Moment → Prop
  | nil : Thickened [] []
  | same {ms ms' : List Moment} (m : Moment) : Thickened ms ms' →
      Thickened (ms ++ [m]) (ms' ++ [m])
  | added {ms ms' : List Moment} {m : Moment} : Thickened ms ms' → m.isMessage = true →
      Thickened ms (ms' ++ [m])

theorem Thickened.append {ms ms' : List Moment} (h : Thickened ms ms') (new : List Moment) :
    Thickened (ms ++ new) (ms' ++ new) := by
  induction new generalizing ms ms' with
  | nil => simpa using h
  | cons m new ih =>
    rw [List.append_cons, List.append_cons ms']
    exact ih (h.same m)

/-- What others notice of a record: the calls with their answers, what was asked for, and jobs. -/
def observed (ms : List Moment) : List Moment := ms.filter fun m => !m.isMessage

theorem effects_observed (ms : List Moment) : effects (observed ms) = effects ms := by
  induction ms with
  | nil => rfl
  | cons m ms ih =>
    rw [← List.singleton_append, observed, List.filter_append, effects_append, effects_append]
    exact congrArg₂ _ (by cases m <;> rfl) ih

/-- Nothing is lost or added but messages. -/
theorem Thickened.observed_eq {ms ms' : List Moment} (h : Thickened ms ms') :
    observed ms' = observed ms := by
  unfold observed
  induction h with
  | nil => rfl
  | same m _ ih => rw [List.filter_append, List.filter_append, ih]
  | added _ hm ih => rw [List.filter_append, ih]; simp [hm]

theorem Thickened.effects_eq {ms ms' : List Moment} (h : Thickened ms ms') :
    effects ms' = effects ms := by
  rw [← effects_observed, h.observed_eq, effects_observed]

namespace Life

variable {l l' : Life} {setup : Setup}

/-! ## Strays -/

/-- The message is a report of a session that is not live, or a choice of another attempt. -/
def Stale (l : Life) : Incoming → Prop
  | .work _ => False
  | .report r => ¬ Live l.record r.session
  | .action r => r.attempt ≠ l.coordinator.attempt

/-- Taking a stray changes nothing. -/
theorem Stale.handle (hlive : ∀ id, Live l.record id ↔ l.coordinator.session.map Session.id = some id)
    {m : Incoming} {c : Coordinator} (hn : l.coordinator.Next m c) (h : l.Stale m) (a : Answers) :
    c.handle a m = (c, []) := by
  cases m with
  | work r => exact absurd h id
  | report r =>
    have hse : c.session = l.coordinator.session := by cases hn; rfl
    refine Coordinator.onReport_stray (fun s hs hid => h ((hlive _).2 ?_)) a
    rw [← hse, hs, hid]
    rfl
  | action r =>
    have hat : c.attempt = l.coordinator.attempt := by cases hn; rfl
    exact Coordinator.onAction_stray (hat ▸ h) a

/-! ## Slipping them in -/

/-- The messages that wait, with marks on those that were added. -/
structure Marks where
  reports : List (SessionReport × Bool)
  actions : List (ActionReport × Bool)

/-- What a happening, marked if it was added, does to the marks. An added message may come at any
time; what is added besides is a turn that takes an added message, which is a stray by then. -/
inductive Marks.Goes (k : Marks) (l : Life) : Happening → Bool → Marks → Prop
  | report (r : SessionReport) (b : Bool) :
      Goes k l (.report r) b { k with reports := k.reports ++ [(r, b)] }
  | choose (r : ActionReport) (b : Bool) :
      Goes k l (.choose r) b { k with actions := k.actions ++ [(r, b)] }
  | takeReport {r : SessionReport} {b : Bool} {rest : List (SessionReport × Bool)}
      {c : Coordinator} (a : Answers) : l.coordinator.state ≠ .idle →
      l.coordinator.Next (.report r) c → k.reports = (r, b) :: rest →
      (b = true → l.Stale (.report r)) → Goes k l (.process a) b { k with reports := rest }
  | takeAction {r : ActionReport} {b : Bool} {rest : List (ActionReport × Bool)}
      {c : Coordinator} (a : Answers) : l.coordinator.state ≠ .idle →
      l.coordinator.Next (.action r) c → k.actions = (r, b) :: rest →
      (b = true → l.Stale (.action r)) → Goes k l (.process a) b { k with actions := rest }
  | takeWork {w : WorkResult} {c : Coordinator} (a : Answers) : l.coordinator.state ≠ .idle →
      l.coordinator.Next (.work w) c → Goes k l (.process a) false k
  | wait (a : Answers) : l.coordinator.state = .idle ∨ l.coordinator.nextIncoming? = none →
      Goes k l (.process a) false k
  | other {x : Happening} : (∀ r, x ≠ .report r) → (∀ r, x ≠ .choose r) →
      (∀ a, x ≠ .process a) → Goes k l x false k

/-- The marked happenings are strays that were slipped in, each with a turn that takes it. -/
inductive Laced : Marks → Life → List (Happening × Bool) → Prop
  | nil {k : Marks} {l : Life} : Laced k l []
  | cons {k k' : Marks} {l : Life} {x : Happening} {b : Bool} {xs : List (Happening × Bool)} :
      k.Goes l x b k' → (∀ l', l.step x = some l' → Laced k' l' xs) → Laced k l ((x, b) :: xs)

theorem Laced.of_append {k : Marks} {xs ys : List (Happening × Bool)} (h : Laced k l (xs ++ ys)) :
    Laced k l xs := by
  induction xs generalizing k l with
  | nil => exact .nil
  | cons x xs ih =>
    cases h with
    | cons hgoes hrest => exact .cons hgoes fun l' hl => ih (hrest l' hl)

/-- What a run `l` and the run `l'` with strays have in common: all but the strays that wait and
those that were taken. -/
structure Agree (k : Marks) (l l' : Life) : Prop where
  coordinator : l.coordinator =
    l'.coordinator.queued ⟨l'.coordinator.work, unmarked k.reports, unmarked k.actions⟩
  reports : l'.coordinator.reports = k.reports.map Prod.fst
  actions : l'.coordinator.actions = k.actions.map Prod.fst
  waiting : l.waiting = l'.waiting
  running : l.running = l'.running
  record : Thickened l.record l'.record

variable {k k' : Marks} {first : Moment}

theorem Agree.state (h : Agree k l l') : l.coordinator.state = l'.coordinator.state := by
  rw [h.coordinator]
  rfl

theorem Agree.turn (h : Agree k l l') {t : Turn}
    (hr : t.1.reports = k'.reports.map Prod.fst) (ha : t.1.actions = k'.actions.map Prod.fst) :
    Agree k'
      (l.turn first (t.queued ⟨t.1.work, unmarked k'.reports, unmarked k'.actions⟩))
      (l'.turn first t) where
  coordinator := rfl
  reports := hr
  actions := ha
  waiting := by
    show l.waiting ++ _ = l'.waiting ++ _
    rw [h.waiting]
    rfl
  running := h.running
  record := h.record.append _

/-- A moment in both runs that the coordinators hear of. -/
theorem Agree.note (h : Agree k l l') {c c' : Coordinator}
    (hc : c = c'.queued ⟨c'.work, unmarked k'.reports, unmarked k'.actions⟩)
    (hr : c'.reports = k'.reports.map Prod.fst) (ha : c'.actions = k'.actions.map Prod.fst) :
    Agree k' ({ l with coordinator := c }.note first)
      ({ l' with coordinator := c' }.note first) where
  coordinator := hc
  reports := hr
  actions := ha
  waiting := h.waiting
  running := h.running
  record := h.record.same first

/-- A message in the run with strays only. -/
theorem Agree.added (h : Agree k l l') (hf : first.isMessage = true) {c : Coordinator}
    (hc : l.coordinator = c.queued ⟨c.work, unmarked k'.reports, unmarked k'.actions⟩)
    (hr : c.reports = k'.reports.map Prod.fst) (ha : c.actions = k'.actions.map Prod.fst) :
    Agree k' l ({ l' with coordinator := c }.note first) where
  coordinator := hc
  reports := hr
  actions := ha
  waiting := h.waiting
  running := h.running
  record := h.record.added hf

theorem turn_nil (l : Life) (m : Moment) (c : Coordinator) :
    l.turn m (c, []) = { l with coordinator := c }.note m := by
  simp [Life.turn, Life.note]

/-- A stray, and the turn that takes it, leave the other run behind. -/
theorem Agree.step_added (h : Agree k l l')
    (hlive : ∀ id, Live l'.record id ↔ l'.coordinator.session.map Session.id = some id)
    {x : Happening} (hk : k.Goes l' x true k') : ∃ l'', l'.step x = some l'' ∧ Agree k' l l'' := by
  -- The other run does not have this step; only the queues with the marks change.
  cases hk with
  | report r =>
    refine ⟨_, rfl, h.added rfl ?_ ?_ h.actions⟩
    · rw [h.coordinator, unmarked_concat_true]
      rfl
    · rw [List.map_append, ← h.reports]
      rfl
  | choose r =>
    refine ⟨_, rfl, h.added rfl ?_ h.reports ?_⟩
    · rw [h.coordinator, unmarked_concat_true]
      rfl
    · rw [List.map_append, ← h.actions]
      rfl
  | @takeReport r _ rest c a hst hn hmark hstale =>
    have htaken := step_taken hst hn a
    rw [Stale.handle hlive hn (hstale rfl) a, turn_nil] at htaken
    have hreports := h.reports
    refine ⟨_, htaken, h.added rfl ?_ ?_ ?_⟩
    · rw [h.coordinator, hmark]
      cases hn
      rfl
    · cases hn with
      | report _ hr =>
        rw [hr, hmark] at hreports
        exact (List.cons.inj hreports).2
    · cases hn
      exact h.actions
  | @takeAction r _ rest c a hst hn hmark hstale =>
    have htaken := step_taken hst hn a
    rw [Stale.handle hlive hn (hstale rfl) a, turn_nil] at htaken
    have hactions := h.actions
    refine ⟨_, htaken, h.added rfl ?_ ?_ ?_⟩
    · rw [h.coordinator, hmark]
      cases hn
      rfl
    · cases hn
      exact h.reports
    · cases hn with
      | action _ _ ha =>
        rw [ha, hmark] at hactions
        exact (List.cons.inj hactions).2

/-- A message that waits in both runs is taken in both, and does the same. -/
theorem Agree.take (h : Agree k l l') {m : Incoming} {c : Coordinator} {a : Answers} {l₁ : Life}
    (hst : l'.coordinator.state ≠ .idle) (hn : l'.coordinator.Next m c)
    (hn₁ : l.coordinator.Next m (c.queued ⟨c.work, unmarked k'.reports, unmarked k'.actions⟩))
    (hr : c.reports = k'.reports.map Prod.fst) (ha : c.actions = k'.actions.map Prod.fst)
    (hl : l.step (.process a) = some l₁) :
    ∃ l'', l'.step (.process a) = some l'' ∧ Agree k' l₁ l'' := by
  rw [step_taken (h.state ▸ hst) hn₁ a, Coordinator.handle_queued] at hl
  obtain rfl := Option.some.inj hl
  refine ⟨_, step_taken hst hn a, ?_⟩
  rw [← c.handle_work a m]
  exact h.turn ((c.handle_reports a m).trans hr) ((c.handle_actions a m).trans ha)

/-- Without the added reports the queue is empty if it is with them. -/
theorem Agree.nil_of_reports (h : Agree k l l') (hr : l'.coordinator.reports = []) :
    k.reports = [] :=
  List.map_eq_nil_iff.1 (h.reports.symm.trans hr)

theorem Agree.nil_of_actions (h : Agree k l l') (ha : l'.coordinator.actions = []) :
    k.actions = [] :=
  List.map_eq_nil_iff.1 (h.actions.symm.trans ha)

/-- Nothing is taken in the run with strays, so nothing is in the other one. -/
theorem Agree.waits (h : Agree k l l')
    (hw : l'.coordinator.state = .idle ∨ l'.coordinator.nextIncoming? = none) :
    l.coordinator.state = .idle ∨ l.coordinator.nextIncoming? = none := by
  refine hw.imp h.state.trans fun hnone => ?_
  obtain ⟨hwork, hr, ha⟩ : l'.coordinator.work = [] ∧ l'.coordinator.reports = [] ∧
      l'.coordinator.actions = [] := by
    unfold Coordinator.nextIncoming? at hnone
    split at hnone <;> simp_all
  rw [h.coordinator, h.nil_of_reports hr, h.nil_of_actions ha, hwork]
  rfl

/-- A call for an attempt has the same answer in both runs. -/
theorem Agree.attempt (h : Agree k l l') {a : Answers} {l₁ : Life}
    (hl : l.step (.attempt a) = some l₁) :
    ∃ l'', l'.step (.attempt a) = some l'' ∧ Agree k l₁ l'' := by
  have hsame := Coordinator.attemptUpdate_queued l'.coordinator
    ⟨l'.coordinator.work, unmarked k.reports, unmarked k.actions⟩ a
  rw [← h.coordinator, ← l'.coordinator.attemptUpdate_work a] at hsame
  refine ⟨_, rfl, ?_⟩
  have hl' : some (l.turn (.attempted (l.coordinator.attemptUpdate a).1)
      (l.coordinator.attemptUpdate a).2) = some l₁ := hl
  rw [hsame] at hl'
  obtain rfl := Option.some.inj hl'
  exact h.turn ((l'.coordinator.attemptUpdate_reports a).trans h.reports)
    ((l'.coordinator.attemptUpdate_actions a).trans h.actions)

/-- A call to cancel does what it does in the other run. -/
theorem Agree.cancel (h : Agree k l l') {a : Answers} {l₁ : Life}
    (hl : l.step (.cancel a) = some l₁) :
    ∃ l'', l'.step (.cancel a) = some l'' ∧ Agree k l₁ l'' := by
  have hsame := Coordinator.cancelBackgroundUpdate_queued l'.coordinator
    ⟨l'.coordinator.work, unmarked k.reports, unmarked k.actions⟩ a
  obtain ⟨es, -, hc⟩ := l'.coordinator.cancelBackgroundUpdate_stops a
  rw [← h.coordinator, hc] at hsame
  have hl₁ : l₁ = l.turn (.cancelled (!es.isEmpty && a.cancels))
      (Turn.queued (l'.coordinator, es)
        ⟨l'.coordinator.work, unmarked k.reports, unmarked k.actions⟩) := by
    simpa [Life.step, hsame] using hl.symm
  refine ⟨l'.turn (.cancelled (!es.isEmpty && a.cancels)) (l'.coordinator, es), ?_, ?_⟩
  · simp [Life.step, hc]
  · rw [hl₁]
    exact h.turn h.reports h.actions

/-- A job ends in both runs. -/
theorem Agree.finish (h : Agree k l l') {j : Job} {r : WorkResult} {l₁ : Life}
    (hl : l.finish j r = some l₁) : ∃ l'', l'.finish j r = some l'' ∧ Agree k l₁ l'' := by
  unfold Life.finish at hl ⊢
  rw [h.running] at hl
  split at hl
  · rename_i hj
    obtain rfl := Option.some.inj hl
    rw [if_pos hj]
    refine ⟨_, rfl, ?_, h.reports, h.actions, h.waiting, ?_, h.record.same _⟩
    · show l.coordinator.receiveWork r = _
      rw [h.coordinator]
      rfl
    · rfl
  · cases hl

/-- What else happens, happens in both runs. -/
theorem Agree.step_other (h : Agree k l l') {x : Happening} (hreport : ∀ r, x ≠ .report r)
    (hchoose : ∀ r, x ≠ .choose r) (hprocess : ∀ a, x ≠ .process a) {l₁ : Life}
    (hl : l.step x = some l₁) : ∃ l'', l'.step x = some l'' ∧ Agree k l₁ l'' := by
  cases x with
  | report r => exact absurd rfl (hreport r)
  | choose r => exact absurd rfl (hchoose r)
  | process a => exact absurd rfl (hprocess a)
  | attempt a => exact h.attempt hl
  | cancel a => exact h.cancel hl
  | overrideUrl url =>
    obtain rfl := Option.some.inj hl
    refine ⟨_, rfl, h.note ?_ h.reports h.actions⟩
    rw [h.coordinator]
    rfl
  | configure m =>
    obtain rfl := Option.some.inj hl
    refine ⟨_, rfl, h.note ?_ h.reports h.actions⟩
    rw [h.coordinator]
    rfl
  | begin j =>
    unfold Life.step at hl ⊢
    dsimp only at hl ⊢
    rw [h.waiting] at hl
    split at hl
    · rename_i hj
      obtain rfl := Option.some.inj hl
      rw [if_pos hj]
      refine ⟨_, rfl, h.coordinator, h.reports, h.actions, ?_, ?_, h.record.same _⟩
      · rfl
      · show l.running ++ [j] = l'.running ++ [j]
        rw [h.running]
    · cases hl
  | verified p found trusted => exact h.finish hl
  | installed p d r => exact h.finish hl

/-- What is not added happens in both runs. -/
theorem Agree.step (h : Agree k l l') {x : Happening} (hk : k.Goes l' x false k') {l₁ : Life}
    (hl : l.step x = some l₁) : ∃ l'', l'.step x = some l'' ∧ Agree k' l₁ l'' := by
  -- The message at the head of a queue is the first of the other queue that is not marked as added.
  cases hk with
  | report r =>
    obtain rfl := Option.some.inj hl
    refine ⟨_, rfl, h.note ?_ ?_ h.actions⟩
    · rw [h.coordinator, unmarked_concat_false]
      rfl
    · rw [List.map_append, ← h.reports]
      rfl
  | choose r =>
    obtain rfl := Option.some.inj hl
    refine ⟨_, rfl, h.note ?_ h.reports ?_⟩
    · rw [h.coordinator, unmarked_concat_false]
      rfl
    · rw [List.map_append, ← h.actions]
      rfl
  | @takeReport r _ rest c a hst hn hmark =>
    have hreports := h.reports
    cases hn with
    | report hw hr =>
      rw [hr, hmark] at hreports
      refine h.take hst (.report hw hr) ?_ (List.cons.inj hreports).2 h.actions hl
      rw [h.coordinator, hmark]
      exact .report hw rfl
  | @takeAction r _ rest c a hst hn hmark =>
    have hactions := h.actions
    cases hn with
    | action hw hr ha =>
      rw [ha, hmark] at hactions
      refine h.take hst (.action hw hr ha) ?_ h.reports (List.cons.inj hactions).2 hl
      rw [h.coordinator, hmark, h.nil_of_reports hr]
      exact .action hw rfl rfl
  | takeWork a hst hn =>
    cases hn with
    | work hw =>
      refine h.take hst (.work hw) ?_ h.reports h.actions hl
      rw [h.coordinator]
      exact .work hw
  | wait a hw =>
    rw [step_waits (h.waits hw) a] at hl
    obtain rfl := Option.some.inj hl
    exact ⟨_, step_waits hw a, h⟩
  | other hreport hchoose hprocess => exact h.step_other hreport hchoose hprocess hl

/-- Runs that agree go on to agree, whatever strays are slipped in. -/
theorem Agree.run (h : Agree k l l') (hreach : l'.Reached setup) {xs : List (Happening × Bool)}
    (hx : Laced k l' xs) {l₁ : Life} (hr : l.run (unmarked xs) = some l₁) :
    ∃ k₁ l₁', l'.run (xs.map Prod.fst) = some l₁' ∧ Agree k₁ l₁ l₁' := by
  induction xs generalizing k l l' with
  | nil =>
    obtain rfl := Option.some.inj hr
    exact ⟨k, l', rfl, h⟩
  | cons y xs ih =>
    cases hx with
    | @cons _ k' _ x b _ hgoes hrest =>
      rw [List.map_cons, Life.run]
      cases b with
      | true =>
        rw [unmarked_cons_true] at hr
        obtain ⟨hs, hr'⟩ := hreach
        obtain ⟨l'', hl, h'⟩ := h.step_added (fun id => live_iff hr') hgoes
        rw [hl]
        exact ih h' (Reached.step ⟨hs, hr'⟩ hl) (hrest l'' hl) hr
      | false =>
        rw [unmarked_cons_false, Life.run] at hr
        obtain ⟨l₂, hl₂, hr⟩ := Option.bind_eq_some_iff.1 hr
        obtain ⟨l'', hl, h'⟩ := h.step hgoes hl₂
        rw [hl]
        exact ih h' (hreach.step hl) (hrest l'' hl) hr

theorem agree_new (setup : Setup) : Agree ⟨[], []⟩ (new setup) (new setup) :=
  ⟨rfl, rfl, rfl, rfl, rfl, .nil⟩

/-- After every run, in either mode, taking a stray changes nothing but the queue that it is taken
from, and asks for nothing. Hence a run does the same with strays slipped into it, each with a turn
that takes it, be it in a later attempt: it goes through, and up to each of its happenings others
noticed the same, the same was asked for, and the coordinators agree in all but the strays that
wait. -/
theorem run_strays {hs : List Happening} (hr : (new setup).run hs = some l) :
    (∀ m c, l.coordinator.Next m c → l.Stale m → ∀ a, c.handle a m = (c, []) ∧
      (l.coordinator.state ≠ .idle →
        l.step (.process a) = some ({ l with coordinator := c }.note (.taken m)))) ∧
      ∀ xs, unmarked xs = hs → Laced ⟨[], []⟩ (new setup) xs → ∀ ys, ys <+: xs →
        ∃ k l₁ l₂, (new setup).run (unmarked ys) = some l₁ ∧
          (new setup).run (ys.map Prod.fst) = some l₂ ∧
          observed l₂.record = observed l₁.record ∧ effects l₂.record = effects l₁.record ∧
          Agree k l₁ l₂ := by
  refine ⟨fun m c hn hstale a => ?_, ?_⟩
  · have hnone := Stale.handle (fun id => live_iff hr) hn hstale a
    refine ⟨hnone, fun hst => ?_⟩
    rw [step_taken hst hn a, hnone, turn_nil]
  · rintro xs rfl hx ys ⟨zs, rfl⟩
    rw [unmarked_append, run_append] at hr
    -- The run without the added messages is cut where the prefix ends.
    obtain ⟨l₁, hr₁, -⟩ := Option.bind_eq_some_iff.1 hr
    obtain ⟨k, l₂, hr₂, hagree⟩ := (agree_new setup).run ⟨[], rfl⟩ hx.of_append hr₁
    exact ⟨k, l₁, l₂, hr₁, hr₂, hagree.record.observed_eq, hagree.record.effects_eq, hagree⟩

/-- An attempt that fails and one whose download is verified. A late report of the first transfer
waits until the second one runs, and a choice of an attempt that never was comes last. -/
def lateRun : List (Happening × Bool) :=
  [(.overrideUrl "http://host/runtime", false), (.attempt plainAnswers, false),
    (.report ⟨1, .failed 404 1002⟩, false), (.report ⟨1, .completed [9]⟩, true),
    (.process plainAnswers, false), (.attempt plainAnswers, false),
    (.report ⟨2, .completed [3]⟩, false), (.process plainAnswers, true),
    (.process plainAnswers, false), (.choose ⟨7, .cancelDownload⟩, true),
    (.process plainAnswers, true)]

theorem laced_lateRun : Laced ⟨[], []⟩ (new plainSetup) lateRun := by
  have hlate : (new plainSetup).run ((lateRun.take 7).map Prod.fst) = some _ := rfl
  refine .cons (.other nofun nofun nofun) fun l h => ?_
  cases h
  refine .cons (.other nofun nofun nofun) fun l h => ?_
  cases h
  refine .cons (.report _ _) fun l h => ?_
  cases h
  refine .cons (.report _ _) fun l h => ?_
  cases h
  refine .cons (.takeReport _ nofun (.report rfl rfl) rfl nofun) fun l h => ?_
  cases h
  refine .cons (.other nofun nofun nofun) fun l h => ?_
  cases h
  refine .cons (.report _ _) fun l h => ?_
  cases h
  refine .cons (.takeReport _ nofun (.report rfl rfl) rfl fun _ hlive => ?_) fun l h => ?_
  · cases (live_iff hlate).1 hlive
  cases h
  refine .cons (.takeReport _ nofun (.report rfl rfl) rfl nofun) fun l h => ?_
  cases h
  refine .cons (.choose _ _) fun l h => ?_
  cases h
  have hother : (7 : Nat) ≠ 2 := by decide
  exact .cons (.takeAction _ nofun (.action rfl rfl rfl) rfl fun _ => hother) fun _ _ => .nil

theorem run_strays_late : ∃ l l₂, (new plainSetup).run (unmarked lateRun) = some l ∧
    (new plainSetup).run (lateRun.map Prod.fst) = some l₂ ∧
    l.coordinator.state = .verifying ∧ l.coordinator.attempt = 2 ∧
    l₂.coordinator.state = .verifying ∧ effects l₂.record = effects l.record ∧
    ∃ k, Agree k l l₂ := by
  have hr : (new plainSetup).run (unmarked lateRun) = some _ := rfl
  obtain ⟨k, l₁, l₂, hr₁, hr₂, -, heffects, hagree⟩ :=
    (run_strays hr).2 lateRun rfl laced_lateRun lateRun (List.prefix_refl _)
  obtain rfl := Option.some.inj (hr.symm.trans hr₁)
  exact ⟨_, l₂, hr, hr₂, rfl, rfl, hagree.state.symm.trans rfl, heffects, k, hagree⟩

end Life

end SharedRuntime
