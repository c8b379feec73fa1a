import SharedRuntime.Proofs.Update.Dialogs

/-!
# What the platform is handed

In the foreground the platform installs what a transfer brought. It is handed each artifact that a
live session delivers, once and in order, and nothing else (`Deliveries`); what it answers decides
how the attempt goes on. `Ends` lists the ways in which an attempt ends, and `Responds.handed` and
`ends_of_responds` are what a message does to both.
-/

set_option autoImplicit false

namespace SharedRuntime

def Effect.handed? : Effect → Option Path
  | .installPackage p => some p
  | _ => none

/-- The artifacts that the platform was handed, in order. -/
def handed (ms : List Moment) : List Path := (effects ms).filterMap Effect.handed?

/-- The artifacts that live sessions delivered, in order. -/
inductive Deliveries : List Moment → List Path → Prop
  | none : Deliveries [] []
  | delivered {ms : List Moment} {ps : List Path} {id : Nat} {p : Path} : Deliveries ms ps →
      Live ms id → Deliveries (ms ++ [.taken (.report ⟨id, .completed p⟩)]) (ps ++ [p])
  | other {ms : List Moment} {ps : List Path} {m : Moment} : Deliveries ms ps →
      (∀ id p, m = .taken (.report ⟨id, .completed p⟩) → ¬ Live ms id) →
      Deliveries (ms ++ [m]) ps

theorem Deliveries.asked {ms : List Moment} {ps : List Path} (h : Deliveries ms ps)
    (es : List Effect) : Deliveries (ms ++ es.map .asked) ps := by
  induction es generalizing ms with
  | nil => simpa using h
  | cons e es ih =>
    rw [List.map_cons, List.append_cons]
    exact ih (h.other fun _ _ he => by cases he)

theorem handed_turn (ms : List Moment) {first : Moment} (hf : first.effect? = none)
    (es : List Effect) :
    handed (ms ++ first :: es.map .asked) = handed ms ++ es.filterMap Effect.handed? := by
  rw [handed, effects_turn ms hf, List.filterMap_append]
  rfl

namespace Coordinator

variable {c : Coordinator} {a : Answers}

theorem Invites.hands_nothing {b : Bool} {t : Turn} (h : Invites c a b t) :
    t.2.filterMap Effect.handed? = [] := by
  cases h <;> rfl

/-- The platform is handed an artifact that the stored session delivers, and nothing else. -/
theorem Responds.handed {m : Incoming} {t : Turn} (h : Responds c a m t) :
    (∃ id p, m = .report ⟨id, .completed p⟩ ∧ c.session.map Session.id = some id ∧
      t.2.filterMap Effect.handed? = [p]) ∨
    (∀ id p, m = .report ⟨id, .completed p⟩ → c.session.map Session.id ≠ some id) ∧
      t.2.filterMap Effect.handed? = [] := by
  have shown : ∀ os : List DownloadOutcome,
      (os.flatMap (DownloadOutcome.shown c.attempt)).filterMap Effect.handed? = [] :=
    DownloadOutcome.filterMap_shown (fun _ => rfl) (fun _ => rfl) c.attempt
  -- Only a completion of the live session is handed over, taken or not.
  cases h with
  | strayReport hstray =>
    refine .inr ⟨fun id p hm hid => ?_, rfl⟩
    cases hm
    obtain ⟨s, hs, rfl⟩ := Option.map_eq_some_iff.1 hid
    exact hstray s hs rfl
  | @progressed r s _ _ _ ho =>
    refine .inr ⟨fun id p hm => ?_, shown _⟩
    cases hm
    cases ho
  | cancelled =>
    refine .inr ⟨fun _ _ hm => (by cases hm), ?_⟩
    rw [List.filterMap_append, shown]
    rfl
  | failed =>
    refine .inr ⟨fun _ _ hm => (by cases hm), ?_⟩
    rw [List.filterMap_append, shown]
    rfl
  | handedOver _ hse hid =>
    refine .inl ⟨_, _, rfl, by rw [hse, hid]; rfl, ?_⟩
    rw [List.filterMap_append, shown]
    rfl
  | notTaken _ hse hid =>
    refine .inl ⟨_, _, rfl, by rw [hse, hid]; rfl, ?_⟩
    rw [List.filterMap_append, shown]
    rfl
  | cancelling =>
    exact .inr ⟨fun _ _ hm => (by cases hm), c.filterMap_cancelSession fun _ => rfl⟩
  | _ => exact .inr ⟨fun _ _ hm => (by cases hm), rfl⟩

/-- An artifact of the stored session that the platform takes ends the attempt. -/
theorem Responds.installed {m : Incoming} {t : Turn} (h : Responds c a m t) {id : Nat} {p : Path}
    (hm : m = .report ⟨id, .completed p⟩) (hid : c.session.map Session.id = some id)
    (hp : a.installPackage p = .ok ()) :
    t.1 = c.ended .completed ∧ ∃ shown, t.2 = shown ++ [.installPackage p, .dismiss] := by
  cases h with
  | strayReport hstray =>
    cases hm
    obtain ⟨s, hs, rfl⟩ := Option.map_eq_some_iff.1 hid
    exact absurd rfl (hstray s hs)
  | progressed _ _ _ ho =>
    cases hm
    cases ho
  | handedOver =>
    cases hm
    exact ⟨rfl, _, rfl⟩
  | notTaken _ _ _ hno =>
    cases hm
    rw [hp] at hno
    cases hno
  | _ => cases hm

/-- No failure is an outcome in the foreground. -/
theorem Responds.outcome {m : Incoming} {t : Turn} (h : Responds c a m t) :
    t.1.lastOutcome = c.lastOutcome ∨ t.1.lastOutcome = some .cancelled ∨
      t.1.lastOutcome = some .completed := by
  cases h with
  | cancelled => exact .inr (.inl rfl)
  | declined => exact .inr (.inl rfl)
  | handedOver => exact .inr (.inr rfl)
  | _ => exact .inl rfl

theorem Invites.outcome {b : Bool} {t : Turn} (h : Invites c a b t) :
    t.1.lastOutcome = c.lastOutcome := by
  cases h <;> rfl

end Coordinator

namespace Life

variable {l l' : Life} {setup : Setup}

/-- The next message is that a live session delivers the artifact at `p`. -/
def Delivers (l : Life) (p : Path) : Prop :=
  ∃ id c, l.coordinator.Next (.report ⟨id, .completed p⟩) c ∧ Live l.record id

/-- How an attempt ends in the foreground: an artifact was delivered and the platform took it, the
user or the transfer gave up, or the store was opened for want of an address. The store leaves the
outcome of an earlier attempt as it is. -/
inductive Ends (l l' : Life) : Happening → Prop
  | completed {a : Answers} {p : Path} : l.Delivers p → a.installPackage p = .ok () →
      l'.coordinator.lastOutcome = some .completed → Ends l l' (.process a)
  | givenUp {a : Answers} {m : Incoming} {c : Coordinator} : l.coordinator.Next m c →
      m.givesUp = true → l'.coordinator.lastOutcome = some .cancelled → Ends l l' (.process a)
  | redirected {a : Answers} {c : Coordinator} {store : StoreContext} :
      l.coordinator.Next (.action ⟨l.coordinator.attempt, .accept⟩) c → l.coordinator.url = "" →
      l.coordinator.setup.presentation = .foreground store → a.openStore store.uri = .ok () →
      l'.coordinator.lastOutcome = l.coordinator.lastOutcome → Ends l l' (.process a)

/-- No message ends an attempt in another way. -/
theorem ends_of_responds {a : Answers} {m : Incoming} {c : Coordinator} {t : Turn}
    (hlive : ∀ id, Live l.record id ↔ l.coordinator.session.map Session.id = some id)
    (hn : l.coordinator.Next m c) (h : c.Responds a m t) (hst : c.state ≠ .idle)
    (hend : t.1.state = .idle) : Ends l (l.turn (.taken m) t) (.process a) := by
  cases h with
  | strayReport => exact absurd hend hst
  | strayWork => exact absurd hend hst
  | strayAction => exact absurd hend hst
  | cancelling => exact absurd hend hst
  | aborted => exact absurd hend hst
  | progressed => exact absurd hend hst
  | failed => cases hend
  | notTaken => cases hend
  | accepted => cases hend
  | cancelled => exact .givenUp hn rfl rfl
  | declined => exact .givenUp hn rfl rfl
  | handedOver _ hse hid hp =>
    have hsame : c.session = l.coordinator.session := by cases hn; rfl
    refine .completed ⟨_, c, hn, (hlive _).2 ?_⟩ hp rfl
    rw [← hsame, hse, hid]
    rfl
  | redirected ha hu hf hp =>
    have hsetup := hn.setup
    cases hn
    exact .redirected (.action ‹_› ‹_› ‹_›) hu (hsetup ▸ hf) hp rfl

theorem Attended.ends (h : l.Attended)
    (hlive : ∀ id, Live l.record id ↔ l.coordinator.session.map Session.id = some id)
    {x : Happening} (hl : l.step x = some l') (hst : l.coordinator.state ≠ .idle)
    (hend : l'.coordinator.state = .idle) : Ends l l' x := by
  obtain ⟨store, hf⟩ := h.foreground
  cases step_goes hl with
  | still => exact absurd hend hst
  | heard _ hc => exact absurd (hc.state.symm.trans hend) hst
  | cancelled => exact absurd hend hst
  | called a =>
    have hrefused := Coordinator.attemptUpdate_refused (a := a) (.inl hst)
    rw [hrefused] at hend
    exact absurd hend hst
  | @took a m c _ hn hx =>
    have hf' : c.setup.presentation = .foreground store := by rw [hn.setup, hf]
    have hst' : c.state ≠ .idle := by cases hn <;> exact hst
    rw [hx]
    exact ends_of_responds hlive hn (Coordinator.handle_responds hf' (h.attending.next hn) a m) hst'
      hend

/-- What every step in the foreground keeps: no job is asked for and no attempt fails. -/
structure Handing (l : Life) : Prop where
  handed : Deliveries l.record (handed l.record)
  unsought : sought l.record = []
  unfailed : ∀ e, l.coordinator.lastOutcome ≠ some (.failed e)

theorem Handing.turn (h : l.Handing) {first : Moment} {t : Turn} (hf : first.effect? = none)
    (hs : first.sought? = none)
    (hd : Deliveries (l.record ++ [first])
      (SharedRuntime.handed l.record ++ t.2.filterMap Effect.handed?))
    (hjobs : t.2.filterMap Effect.job? = [])
    (ho : t.1.lastOutcome = l.coordinator.lastOutcome ∨ t.1.lastOutcome = some .cancelled ∨
      t.1.lastOutcome = some .completed) : (l.turn first t).Handing where
  handed := by
    have hall := hd.asked t.2
    rw [← List.append_cons, ← handed_turn l.record hf] at hall
    exact hall
  unsought := by
    have hall := sought_turn l.record t.2 hs
    rw [hjobs, h.unsought] at hall
    exact hall
  unfailed e he := by
    have he' : t.1.lastOutcome = some (.failed e) := he
    rcases ho with ho | ho | ho
    · exact h.unfailed e (ho.symm.trans he')
    · rw [he'] at ho
      cases ho
    · rw [he'] at ho
      cases ho

theorem Handing.heard (h : l.Handing) {m : Moment} (hm : m.isHeard = true) {c : Coordinator}
    (hc : l.coordinator.Hears m c) {waiting running : List Job} :
    (⟨c, waiting, running, l.record ++ [m]⟩ : Life).Handing where
  handed := by
    show Deliveries (l.record ++ [m]) ((effects (l.record ++ [m])).filterMap Effect.handed?)
    rw [effects_append, effects_heard hm, List.append_nil]
    refine h.handed.other fun id p he => ?_
    rw [he] at hm
    cases hm
  unsought := by
    have hsought : m.sought? = none := by
      cases m <;> first | rfl | cases hm
    show sought (l.record ++ [m]) = []
    rw [sought, List.filterMap_append, List.filterMap_cons_none hsought]
    exact (List.append_nil _).trans h.unsought
  unfailed e he := h.unfailed e (hc.lastOutcome.symm.trans he)

theorem Handing.step (h : l.Handing) (ha : l.Attended)
    (hlive : ∀ id, Live l.record id ↔ l.coordinator.session.map Session.id = some id)
    {x : Happening} (hl : l.step x = some l') : l'.Handing := by
  obtain ⟨store, hf⟩ := ha.foreground
  have other : ∀ {m : Moment}, (∀ id p, m = .taken (.report ⟨id, .completed p⟩) →
      ¬ Live l.record id) → ∀ {es : List Effect}, es.filterMap Effect.handed? = [] →
        Deliveries (l.record ++ [m]) (SharedRuntime.handed l.record ++
          es.filterMap Effect.handed?) := by
    intro m hm es hes
    rw [hes, List.append_nil]
    exact h.handed.other hm
  cases step_goes hl with
  | still => exact h
  | heard hm hc => exact h.heard hm hc
  | called a =>
    have ht := Coordinator.attemptUpdate_invites (Coordinator.isForeground_foreground hf) a
    exact h.turn rfl rfl (other (fun _ _ he => by cases he) ht.hands_nothing) ht.jobless
      (.inl ht.outcome)
  | cancelled hes =>
    exact h.turn rfl rfl (other (fun _ _ he => by cases he) (hes.filterMap fun _ => rfl))
      (hes.filterMap fun _ => rfl) (.inl rfl)
  | @took a m c hst hn =>
    have hf' : c.setup.presentation = .foreground store := by rw [hn.setup, hf]
    have hse : c.session = l.coordinator.session := by cases hn <;> rfl
    have ho : c.lastOutcome = l.coordinator.lastOutcome := by cases hn <;> rfl
    have ht := Coordinator.handle_responds hf' (ha.attending.next hn) a m
    refine h.turn rfl rfl ?_ ht.jobless (ho ▸ ht.outcome)
    rcases ht.handed with ⟨id, p, rfl, hid, hes⟩ | ⟨hnone, hes⟩
    · rw [hes]
      exact h.handed.delivered ((hlive id).2 (hse ▸ hid))
    · refine other (fun id p hm hid => ?_) hes
      cases hm
      exact hnone id p rfl (hse ▸ (hlive id).1 hid)

/-- The next turn hands over what is delivered, and the answer of the platform decides the rest. -/
theorem Attended.delivered (h : l.Attended)
    (hlive : ∀ id, Live l.record id ↔ l.coordinator.session.map Session.id = some id) {p : Path}
    (hp : l.Delivers p) (a : Answers) : ∃ l' shown, l.step (.process a) = some l' ∧
      (a.installPackage p = .ok () → l'.coordinator.state = .idle ∧
        l'.coordinator.lastOutcome = some .completed ∧
        effects l'.record = effects l.record ++ shown ++ [.installPackage p, .dismiss]) ∧
      ∀ f, a.installPackage p = .error f → l'.coordinator.state = .awaitingUserDecision ∧
        l'.coordinator.lastOutcome = l.coordinator.lastOutcome ∧
        effects l'.record = effects l.record ++ shown ++
          [.installPackage p, .dismiss, .showError l.coordinator.attempt] := by
  obtain ⟨store, hf⟩ := h.foreground
  obtain ⟨id, c, hn, hid⟩ := hp
  have hid' : c.session.map Session.id = some id := by
    rw [← (hlive id).1 hid]
    cases hn
    rfl
  have hst : l.coordinator.state ≠ .idle := fun hi => by
    have hid := (hlive id).1 hid
    rw [h.attending.session (by simp [hi])] at hid
    cases hid
  have hf' : c.setup.presentation = .foreground store := by rw [hn.setup, hf]
  have ht := Coordinator.handle_responds hf' (h.attending.next hn) a (.report ⟨id, .completed p⟩)
  -- Whatever the platform answers, what was asked before stands in front of it.
  have hafter : ∀ {first : Moment} {t : Turn} {es es' : List Effect}, first.effect? = none →
      t.2 = es ++ es' → effects (l.turn first t).record = effects l.record ++ es ++ es' := by
    intro first t es es' hfirst hes
    exact (effects_turn l.record hfirst t.2).trans (by rw [hes, List.append_assoc])
  cases hans : a.installPackage p with
  | ok u =>
    obtain ⟨hc, shown, hes⟩ := ht.installed rfl hid' hans
    refine ⟨_, shown, step_taken hst hn a, fun _ => ⟨?_, ?_, hafter rfl hes⟩,
      fun f hno => by cases hno⟩
    · exact congrArg Coordinator.state hc
    · exact congrArg Coordinator.lastOutcome hc
  | error f =>
    obtain ⟨hc, shown, hes⟩ := ht.refused rfl hid' hans
    have hat : c.attempt = l.coordinator.attempt := by cases hn; rfl
    refine ⟨_, shown, step_taken hst hn a, fun hno => (by cases hno),
      fun _ _ => ⟨?_, ?_, hat ▸ hafter rfl hes⟩⟩
    · exact congrArg Coordinator.state hc
    · refine (congrArg Coordinator.lastOutcome hc).trans ?_
      cases hn
      rfl

theorem ledger_run (h : l.Reached setup) : l.Ledger l.record := by
  refine h.invariant (P := fun l => l.Ledger l.record)
    ⟨.nil, .nil, rfl, fun x hx => by cases hx⟩ fun l x l' _ hl hx => ?_
  obtain ⟨ms, hrec, hl'⟩ := hl.step hx
  exact hrec ▸ hl'

/-- In every run in the foreground the platform is handed each artifact that a live session delivers,
once and in the order of the deliveries, and nothing else. If it takes one, the attempt ends as
completed; if it does not, the user is shown that the download failed and asked again. No attempt
ends in a way that is not listed, none fails, and no artifact is verified or unpacked. -/
theorem run_handed {store : StoreContext} (hf : setup.presentation = .foreground store)
    {hs : List Happening} (hr : (new setup).run hs = some l) :
    Deliveries l.record (handed l.record) ∧
      (∀ p, l.Delivers p → ∀ a, ∃ l' shown, l.step (.process a) = some l' ∧
        (a.installPackage p = .ok () → l'.coordinator.state = .idle ∧
          l'.coordinator.lastOutcome = some .completed ∧
          effects l'.record = effects l.record ++ shown ++ [.installPackage p, .dismiss]) ∧
        ∀ f, a.installPackage p = .error f → l'.coordinator.state = .awaitingUserDecision ∧
          l'.coordinator.lastOutcome = l.coordinator.lastOutcome ∧
          effects l'.record = effects l.record ++ shown ++
            [.installPackage p, .dismiss, .showError l.coordinator.attempt]) ∧
      (∀ x l', l.step x = some l' → l.coordinator.state ≠ .idle → l'.coordinator.state = .idle →
        Ends l l' x) ∧
      sought l.record = [] ∧ begun l.record = [] ∧
      l.coordinator.state ≠ .verifying ∧ l.coordinator.state ≠ .installing ∧
      ∀ e, l.coordinator.lastOutcome ≠ some (.failed e) := by
  have hreach : l.Reached setup := ⟨hs, hr⟩
  have ha := attended_run hf hr
  have hh : l.Handing := by
    refine hreach.invariant ⟨.none, rfl, fun e he => by cases he⟩ fun l x l' hreach hl hx => ?_
    obtain ⟨hs', hr'⟩ := hreach
    exact hl.step (attended_run hf hr') (fun id => live_iff hr') hx
  refine ⟨hh.handed, fun p => ha.delivered fun id => live_iff hr,
    fun x l' hl => ha.ends (fun id => live_iff hr) hl, hh.unsought, ?_, ?_, ?_, hh.unfailed⟩
  · -- Jobs begin only when they were sought.
    have hstarted := (ledger_run hreach).started
    rw [hh.unsought, List.nil_perm, List.append_eq_nil_iff] at hstarted
    exact hstarted.1
  · cases ha.attending <;> simp_all
  · cases ha.attending <;> simp_all

/-- An attempt whose first artifact the platform refuses, up to the delivery of the second one. -/
def redeliveringRun : List Happening :=
  refusedRun.take 6 ++
    [.choose ⟨1, .accept⟩, .process plainAnswers, .report ⟨2, .completed [4]⟩]

theorem run_handed_redelivering : ∃ l l', (new dialogSetup).run redeliveringRun = some l ∧
    Deliveries l.record [[3]] ∧ l.Delivers [4] ∧ l.step (.process plainAnswers) = some l' ∧
    l'.coordinator.state = .idle ∧ l'.coordinator.lastOutcome = some .completed ∧
    Ends l l' (.process plainAnswers) ∧ begun l.record = [] := by
  have hr : (new dialogSetup).run redeliveringRun = some _ := rfl
  have hd : Delivers _ [4] := ⟨2, _, .report rfl rfl, (live_iff hr).2 rfl⟩
  obtain ⟨hall, hdelivers, hends, -, hbegun, -⟩ := run_handed rfl hr
  obtain ⟨l', _, hl, htaken, -⟩ := hdelivers [4] hd plainAnswers
  obtain ⟨hidle, hcompleted, -⟩ := htaken rfl
  exact ⟨_, l', hr, hall, hd, hl, hidle, hcompleted, hends _ l' hl (fun hst => by cases hst) hidle,
    hbegun⟩

end Life

end SharedRuntime
