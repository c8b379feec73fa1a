import SharedRuntime.Proofs.Update.Dialogs
import SharedRuntime.Proofs.Update.Fifo

/-!
# Choices and the questions they answer

A choice carries the number of its attempt, not that of a dialog, and it waits behind the reports of
transfers. So it never answers a question of another attempt, but it may answer one that was asked
after it was made: the offer to try again, if a download ended meanwhile. `run_decides` says so for
every run; `step_asks` is what one step asks the user, by the sessions that land with it.
-/

set_option autoImplicit false

namespace SharedRuntime

/-- Does a dialog offer to begin a download, and to decline it? -/
def Effect.isQuestion : Effect → Bool
  | .showEligibility _ _ => true
  | .showError _ => true
  | _ => false

/-- What the user was asked, in order. -/
def questions (ms : List Moment) : List Effect := (effects ms).filter Effect.isQuestion

/-- The choices that were made, in order. -/
def made (ms : List Moment) : List ActionReport := ms.filterMap Moment.choice?

/-- The choices that were taken, in order. -/
def served (ms : List Moment) : List ActionReport := ms.filterMap Moment.served?

theorem questions_append (ms ms' : List Moment) :
    questions (ms ++ ms') = questions ms ++ questions ms' := by
  simp [questions, effects_append]

theorem questions_turn {first : Moment} (hf : first.effect? = none) (es : List Effect) :
    questions (first :: es.map .asked) = es.filter Effect.isQuestion := by
  have hes := effects_turn [] hf es
  rw [List.nil_append] at hes
  rw [questions, hes]
  rfl

/-- A session lands with a turn only if it takes an end of it. -/
theorem Landed.of_turn {record : List Moment} {first : Moment} {es : List Effect} {id : Nat}
    (h : Landed (record ++ first :: es.map .asked) id) :
    Landed record id ∨
      id ∈ sessions record ∧ ∃ o, first = .taken (.report ⟨id, o⟩) ∧ o.isTerminal = true := by
  obtain ⟨before, q, between, o, after, hrec, ho⟩ := h
  rw [← List.cons_append, ← List.append_assoc, List.append_cons record] at hrec
  obtain ⟨rest, hrest⟩ := split_of_append hrec (by simp)
  rcases split_of_concat hrest with ⟨rfl, hbefore⟩ | ⟨rest', hrest'⟩
  · refine .inr ⟨?_, o, rfl, ho⟩
    rw [← hbefore]
    exact mem_sessions_of_asked (q := q) (by simp)
  · exact .inl ⟨before, q, between, o, rest', by simp [hrest'], ho⟩

namespace Coordinator

/-- What is done on a choice that answers a question: a download begins, the store is opened, or the
attempt ends. -/
inductive Decides : UserAction → Turn → Prop
  | downloads {t : Turn} {id : Nat} {q : UpdateRequest} : .startDownload id q ∈ t.2 →
      Decides .accept t
  | redirects {t : Turn} {uri : String} : .openStore uri ∈ t.2 → Decides .accept t
  | declines {t : Turn} : t.1.state = .idle → Decides .decline t

/-- The message is an end of the stored session. -/
def Lands (c : Coordinator) (m : Incoming) : Prop :=
  ∃ id o, m = .report ⟨id, o⟩ ∧ c.session.map Session.id = some id ∧ o.isTerminal = true

variable {c : Coordinator} {a : Answers} {m : Incoming} {t : Turn}

/-- Only a choice of the attempt that runs is acted on, and only while the user is asked. -/
theorem Responds.decides {r : ActionReport} (h : c.Responds a (.action r) t)
    (hst : c.state ≠ .idle) (hd : Decides r.action t) :
    r.attempt = c.attempt ∧ c.state = .awaitingUserDecision := by
  cases h with
  | accepted ha => exact ⟨rfl, ha⟩
  | redirected ha => exact ⟨rfl, ha⟩
  | aborted ha => exact ⟨rfl, ha⟩
  | declined ha => exact ⟨rfl, ha⟩
  | cancelling => cases hd
  | strayAction =>
    generalize r.action = x at hd
    cases hd with
    | downloads hm => cases hm
    | redirects hm => cases hm
    | declines hi => exact absurd hi hst

/-- What a message asks the user: to try again, if it is an end of the download and the attempt goes
on, and nothing otherwise. -/
theorem Responds.asks (h : c.Responds a m t) :
    t.2.filter Effect.isQuestion = [] ∧ (c.Lands m → t.1.state = .idle) ∨
      t.2.filter Effect.isQuestion = [.showError c.attempt] ∧ c.Lands m := by
  have shown : ∀ os : List DownloadOutcome,
      (os.flatMap (DownloadOutcome.shown c.attempt)).filter Effect.isQuestion = [] := by
    intro os
    refine List.filter_eq_nil_iff.2 fun e he => ?_
    obtain ⟨o, -, he⟩ := List.mem_flatMap.1 he
    cases o with
    | started => exact List.mem_singleton.1 he ▸ Bool.false_ne_true
    | progress p => exact List.mem_singleton.1 he ▸ Bool.false_ne_true
    | _ => cases he
  cases h with
  | strayReport hstray =>
    refine .inl ⟨rfl, ?_⟩
    rintro ⟨id, o, hm, hid, -⟩
    cases hm
    obtain ⟨s, hs, rfl⟩ := Option.map_eq_some_iff.1 hid
    exact absurd rfl (hstray s hs)
  | progressed _ _ _ hopen =>
    refine .inl ⟨shown _, ?_⟩
    rintro ⟨id, o, hm, -, ho⟩
    cases hm
    rw [hopen] at ho
    cases ho
  | cancelled => exact .inl ⟨by rw [List.filter_append, shown]; rfl, fun _ => rfl⟩
  | handedOver => exact .inl ⟨by rw [List.filter_append, shown]; rfl, fun _ => rfl⟩
  | failed _ hs hid =>
    exact .inr ⟨by rw [List.filter_append, shown]; rfl, _, _, rfl, by rw [hs, hid]; rfl, rfl⟩
  | notTaken _ hs hid =>
    exact .inr ⟨by rw [List.filter_append, shown]; rfl, _, _, rfl, by rw [hs, hid]; rfl, rfl⟩
  | cancelling =>
    refine .inl ⟨?_, fun ⟨_, _, hm, _⟩ => by cases hm⟩
    rcases c.cancelSession_cases with hes | ⟨s, -, hes⟩
    · rw [hes]
      rfl
    · rw [hes]
      rfl
  | _ => exact .inl ⟨rfl, fun ⟨_, _, hm, _⟩ => by cases hm⟩

end Coordinator

namespace Life

variable {l l' : Life} {setup : Setup} {store : StoreContext} {ms : List Moment}

/-- Through `later` the user is asked nothing but to try again in attempt `n`; and if the attempt
still runs in `l`, there was such a question exactly if a session landed. -/
structure AsksAgain (l : Life) (past : List Moment) (n : Nat) (later : List Moment) : Prop where
  retries : ∀ e ∈ questions later, e = .showError n
  landings : l.coordinator.state ≠ .idle →
    (questions later = [] ↔ ∀ id, Landed l.record id → Landed past id)

/-- Moments with which nobody is asked and nothing is taken. -/
theorem asksAgain_silent {past : List Moment} {n : Nat} (hq : questions ms = [])
    (hland : ∀ id, Landed l.record id → Landed past id) : l.AsksAgain past n ms where
  retries e he := by
    rw [hq] at he
    cases he
  landings _ := iff_of_true hq hland

/-- A stretch and the step after it. -/
theorem AsksAgain.trans {past first : List Moment} {n : Nat} (h : l.AsksAgain past n first)
    (h' : l'.AsksAgain l.record n ms) (hpast : ∃ rest, l.record = past ++ rest)
    (hrec : l'.record = l.record ++ ms)
    (hst : l'.coordinator.state ≠ .idle → l.coordinator.state ≠ .idle) :
    l'.AsksAgain past n (first ++ ms) where
  retries e he := by
    rw [questions_append] at he
    rcases List.mem_append.1 he with he | he
    · exact h.retries e he
    · exact h'.retries e he
  landings hne := by
    obtain ⟨rest, hrest⟩ := hpast
    rw [questions_append, List.append_eq_nil_iff, h.landings (hst hne), h'.landings hne]
    constructor
    · intro hland id hid
      exact hland.1 id (hland.2 id hid)
    · intro hland
      refine ⟨fun id hid => ?_, fun id hid => ?_⟩
      · apply hland id
        rw [hrec]
        exact hid.append ms
      · rw [hrest]
        exact (hland id hid).append rest

/-- What a step asks, unless it begins an attempt. -/
theorem step_asks (hf : setup.presentation = .foreground store) (h : l.Reached setup)
    {x : Happening} (hl : l.step x = some l') (hrec : l'.record = l.record ++ ms)
    (hms : ∀ m ∈ ms, m.opens = false) : l'.AsksAgain l.record l.coordinator.attempt ms := by
  -- Only a turn can ask, so the other steps are silent and land no session.
  cases step_goes hl with
  | still =>
    obtain rfl : ms = [] := List.append_right_eq_self.1 hrec.symm
    exact asksAgain_silent rfl fun id hid => hid
  | @heard m c waiting running hm =>
    obtain rfl : [m] = ms := List.append_cancel_left hrec
    refine asksAgain_silent (by rw [questions, effects_heard hm]; rfl) fun id hid => ?_
    refine hid.of_append fun o ho => ?_
    obtain rfl := List.mem_singleton.1 ho
    cases hm
  | called a =>
    obtain rfl := List.append_cancel_left hrec
    have hb : (l.coordinator.attemptUpdate a).1 = false := hms _ List.mem_cons_self
    rw [Coordinator.attemptUpdate_of_refused hb]
    exact asksAgain_silent rfl fun id hid => hid.of_append fun o ho => by simp at ho
  | @cancelled b es hes =>
    obtain rfl := List.append_cancel_left hrec
    refine asksAgain_silent ?_ fun id hid => hid.of_append fun o ho => by simp at ho
    rw [questions_turn rfl]
    rcases hes with rfl | ⟨-, rfl⟩
    · rfl
    · rcases l.coordinator.cancelSession_cases with hes | ⟨s, -, hes⟩ <;> rw [hes] <;> rfl
  | @took a m c hst hn =>
    obtain rfl := List.append_cancel_left hrec
    obtain ⟨hs, hr⟩ := h
    have ha := attended_run hf hr
    have hf' : ∃ store', c.setup.presentation = .foreground store' := by
      rw [hn.setup]
      exact ha.foreground
    obtain ⟨store', hf'⟩ := hf'
    have hat : c.attempt = l.coordinator.attempt := by cases hn <;> rfl
    have hse : c.session = l.coordinator.session := by cases hn <;> rfl
    have hq : questions (.taken m :: (c.handle a m).2.map .asked) = _ := questions_turn rfl _
    rcases (Coordinator.handle_responds hf' (ha.attending.next hn) a m).asks with
      ⟨hnone, hidle⟩ | ⟨hask, id, o, rfl, hid, ho⟩
    · rw [hnone] at hq
      refine ⟨fun e he => absurd he (by simp [hq]), fun hne => iff_of_true hq fun id hid => ?_⟩
      rcases hid.of_turn with hid | ⟨hmem, o, hm, ho⟩
      · exact hid
      · -- A session that does not land in the record is live, so that its end is one of the attempt.
        by_contra hnot
        cases hm
        exact hne (hidle ⟨id, o, rfl, hse ▸ (live_iff hr).1 ⟨hmem, hnot⟩, ho⟩)
    · rw [hask, hat] at hq
      have hlive := (live_iff hr).2 (hse ▸ hid)
      refine ⟨fun e he => ?_, fun _ => iff_of_false (by rw [hq]; simp) fun hland => ?_⟩
      · rw [hq] at he
        exact List.mem_singleton.1 he
      · exact hlive.2 (hland id (landed_taken hlive.1 ho _))

/-- A choice of the record was made with the last step, or stood there before. -/
theorem split_of_step {x : Happening} (hl : l.step x = some l') {past later : List Moment}
    {r : ActionReport} (hrec : l'.record = past ++ .chose r :: later) :
    (past = l.record ∧ later = []) ∨ ∃ rest ms, l.record = past ++ .chose r :: rest ∧
      l'.record = l.record ++ ms ∧ later = rest ++ ms := by
  have kept : ∀ ms, l'.record = l.record ++ ms → .chose r ∉ ms → ∃ rest ms,
      l.record = past ++ .chose r :: rest ∧ l'.record = l.record ++ ms ∧ later = rest ++ ms := by
    intro ms hms hno
    obtain ⟨rest, hrest⟩ := split_of_append (hms.symm.trans hrec) hno
    refine ⟨rest, ms, hrest, hms, ?_⟩
    rw [hms, hrest, List.append_assoc, List.append_cancel_left_eq, List.cons_append,
      List.cons.injEq] at hrec
    exact hrec.2.symm
  cases step_goes hl with
  | still => exact .inr (kept [] (List.append_nil _).symm (by simp))
  | called => exact .inr (kept _ rfl (by simp))
  | cancelled => exact .inr (kept _ rfl (by simp))
  | took => exact .inr (kept _ rfl (by simp))
  | @heard m c waiting running =>
    have hrec' : l.record ++ [m] = past ++ .chose r :: later := hrec
    rcases split_of_concat hrec' with ⟨rfl, rfl⟩ | ⟨rest, hrest⟩
    · exact .inl ⟨rfl, by simpa using hrec'⟩
    · refine .inr ⟨rest, [m], hrest, rfl, ?_⟩
      rw [hrest, List.append_assoc, List.append_cancel_left_eq, List.cons_append,
        List.cons.injEq] at hrec'
      exact hrec'.2.symm

/-- While no attempt begins the number stays. -/
theorem attempt_eq (h : l.Reached setup) (h' : l'.Reached setup) (hrec : l'.record = l.record ++ ms)
    (hms : ∀ m ∈ ms, m.opens = false) : l'.coordinator.attempt = l.coordinator.attempt := by
  have hnone : ms.countP Moment.opens = 0 := List.countP_eq_zero.2 fun m hm => by simp [hms m hm]
  rw [attempt_run h, attempt_run h', length_attempts, length_attempts, hrec, List.countP_append,
    hnone, Nat.add_zero]

/-- Since a choice was made, and while its attempt lasts, the user is asked nothing but to try
again. -/
theorem asksAgain_run (hf : setup.presentation = .foreground store) (h : l.Reached setup)
    {past later : List Moment} {r : ActionReport} (hrec : l.record = past ++ .chose r :: later)
    (hlater : ∀ m ∈ later, m.opens = false) : l.AsksAgain past l.coordinator.attempt later := by
  revert past later r
  refine h.invariant (P := fun l => ∀ {past later : List Moment} {r : ActionReport},
    l.record = past ++ .chose r :: later → (∀ m ∈ later, m.opens = false) →
      l.AsksAgain past l.coordinator.attempt later) ?_ ?_
  · intro past later r hrec
    simp [new] at hrec
  · intro l x l' hreach hold hx past later r hrec hlater
    rcases split_of_step hx hrec with ⟨rfl, rfl⟩ | ⟨rest, ms, hrest, hms, rfl⟩
    · refine asksAgain_silent rfl fun id hid => ?_
      rw [hrec] at hid
      exact hid.of_append fun o ho => by simp at ho
    · have hopens : ∀ m ∈ ms, m.opens = false := fun m hm =>
        hlater m (List.mem_append_right _ hm)
      rw [attempt_eq hreach (hreach.step hx) hms hopens]
      have hbefore := hold hrest fun m hm => hlater m (List.mem_append_left _ hm)
      refine hbefore.trans (step_asks hf hreach hx hms hopens) ⟨_, hrest⟩ hms fun hne hidle => ?_
      exact hne (idle_step_effects hidle hx hms hopens).1

/-- The choice, which is the next to be taken, was made after `past`; `later` is noted since. -/
structure Made (l : Life) (r : ActionReport) (past later : List Moment) : Prop where
  record : l.record = past ++ .chose r :: later
  position : made past = served l.record

/-- Choices are taken in the order in which they were made, so that there is a next one to take. -/
theorem exists_made (h : l.Reached setup) {r : ActionReport} {c : Coordinator}
    (hn : l.coordinator.Next (.action r) c) : ∃ past later, l.Made r past later := by
  have hqueue : made l.record = served l.record ++ l.coordinator.actions := fifo_actions.run h
  cases hn with
  | action _ _ ha =>
    rw [ha] at hqueue
    obtain ⟨past, rest, hrec, hpast, hrest⟩ := List.filterMap_eq_append_iff.1 hqueue
    obtain ⟨between, m, later, hsplit, hnone, hm, -⟩ := List.filterMap_eq_cons_iff.1 hrest
    have hm' : m = .chose r := by
      cases m with
      | chose r' =>
        cases hm
        rfl
      | _ => cases hm
    refine ⟨past ++ between, later, by rw [hrec, hsplit, hm', List.append_assoc], ?_⟩
    rw [made, List.filterMap_append, hpast, List.filterMap_eq_nil_iff.2 hnone, List.append_nil]

/-- In every run in the foreground choices are taken in the order in which they were made, and a
choice is acted on only in the attempt whose number it carries. Whatever the user was asked between
the choice and the moment it is acted on is the offer to try again; there is none exactly if no
session landed meanwhile, and then the choice answers the question it was made on. -/
theorem run_decides (hf : setup.presentation = .foreground store) {hs : List Happening}
    (hr : (new setup).run hs = some l) {a : Answers} {r : ActionReport} {c : Coordinator} {t : Turn}
    (hn : l.coordinator.nextIncoming? = some (.action r, c))
    (ht : l.coordinator.processNext a = .handled t) :
    (∃ past later, l.Made r past later) ∧
      ∀ past later, l.Made r past later → r.attempt ≤ (attempts past).length →
        Coordinator.Decides r.action t →
          r.attempt = l.coordinator.attempt ∧ l.coordinator.state = .awaitingUserDecision ∧
            (∀ m ∈ later, m.opens = false) ∧ (∀ e ∈ questions later, e = .showError r.attempt) ∧
            (questions later = [] ↔ ∀ id, Landed l.record id → Landed past id) := by
  have h : l.Reached setup := ⟨hs, hr⟩
  have hnext := Coordinator.next_of_nextIncoming? hn
  refine ⟨exists_made h hnext, fun past later hmade hnumber hdec => ?_⟩
  obtain ⟨hst, m, c', hnext', rfl⟩ := Coordinator.processNext_handled ht
  cases hn.symm.trans hnext'.nextIncoming?
  have ha := attended_run hf hr
  obtain ⟨store', hf'⟩ := ha.foreground
  have hf'' : c.setup.presentation = .foreground store' := by rw [hnext.setup, hf']
  have hat : c.attempt = l.coordinator.attempt := by cases hnext; rfl
  have hcst : c.state = l.coordinator.state := by cases hnext; rfl
  obtain ⟨hnum, hawait⟩ := (Coordinator.handle_responds hf'' (ha.attending.next hnext) a
    (.action r)).decides (hcst ▸ hst) hdec
  rw [hat] at hnum
  rw [hcst] at hawait
  have hlater : ∀ m ∈ later, m.opens = false := by
    -- The choice names an attempt that had begun before it was made, and it names the current one.
    have hcount := attempt_run h
    rw [length_attempts, hmade.record, List.countP_append, List.countP_cons] at hcount
    rw [length_attempts, hnum, hcount] at hnumber
    have hnone : later.countP Moment.opens = 0 := by omega
    intro m hm
    simpa using List.countP_eq_zero.1 hnone m hm
  have hasks := asksAgain_run hf h hmade.record hlater
  exact ⟨hnum, hawait, hlater, hnum ▸ hasks.retries, hasks.landings hst⟩

/-- The user accepts twice before the first choice is taken, and the download fails. -/
def hastyRun : List Happening :=
  [.overrideUrl "http://host/runtime", .attempt plainAnswers, .choose ⟨1, .accept⟩,
    .choose ⟨1, .accept⟩, .process plainAnswers, .report ⟨1, .failed 404 1002⟩,
    .process plainAnswers]

/-- The second choice answers the offer to try again, which it was not made on. -/
theorem run_decides_hasty : ∃ l past later t, (new dialogSetup).run hastyRun = some l ∧
    l.Made ⟨1, .accept⟩ past later ∧ l.coordinator.processNext plainAnswers = .handled t ∧
    (∃ q, .startDownload 2 q ∈ t.2) ∧ questions later = [.showError 1] ∧
    ∃ id, Landed l.record id ∧ ¬ Landed past id := by
  have hr : (new dialogSetup).run hastyRun = some _ := rfl
  let past : List Moment := [.overridden "http://host/runtime", .attempted true,
    .asked (.showEligibility .absent 1), .chose ⟨1, .accept⟩]
  obtain ⟨-, hall⟩ := run_decides rfl hr (a := plainAnswers) rfl rfl
  obtain ⟨-, -, -, -, hland⟩ := hall past _ ⟨rfl, rfl⟩ (by decide) (.downloads List.mem_cons_self)
  refine ⟨_, past, _, _, hr, ⟨rfl, rfl⟩, rfl, ⟨_, List.mem_cons_self⟩, rfl, ?_⟩
  by_contra hno
  have hnone := hland.2 fun id hid => Classical.byContradiction fun hpast => hno ⟨id, hid, hpast⟩
  cases hnone

end Life

end SharedRuntime
