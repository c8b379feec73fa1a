import SharedRuntime.Proofs.Update.Effects
import SharedRuntime.Proofs.Update.HandOff

/-!
# The protocol of the dialogs

In the foreground the dialogs of an attempt form one play: the question, then any number of downloads
that fail, then a close (`IsPlay`). `Stage` says how far the play of the latest attempt is, by the
state of the coordinator, and what the listener was told meanwhile. `Responds.stage` is what a
message does to it, `stage_run` what a run comes to.
-/

set_option autoImplicit false

namespace SharedRuntime

/-! ## Plays -/

def Effect.isDialog : Effect → Bool
  | .showEligibility _ _ => true
  | .showProgress _ => true
  | .setProgress _ => true
  | .showError _ => true
  | .dismiss => true
  | _ => false

/-- What was called on the dialogs, in order. -/
def dialogs (ms : List Moment) : List Effect := (effects ms).filter Effect.isDialog

/-- A download in the dialogs of attempt `n`, up to its end. -/
def downloadShown (n : Nat) (ps : List UInt8) : List Effect := .showProgress n :: ps.map .setProgress

/-- A download that fails, and the offer to try again. -/
def failureShown (n : Nat) (ps : List UInt8) : List Effect :=
  downloadShown n ps ++ [.dismiss, .showError n]

/-- The dialogs of attempt `n` up to a question: the first one, or that after the last of the
downloads that failed. -/
def questionShown (status : RuntimeStatus) (n : Nat) (failed : List (List UInt8)) : List Effect :=
  .showEligibility status n :: failed.flatMap (failureShown n)

/-- How the dialogs of attempt `n` close: on a question, or on a download. -/
inductive IsClose (n : Nat) : List Effect → Prop
  | question : IsClose n [.dismiss]
  | download {ps : List UInt8} : Rising ps → IsClose n (downloadShown n ps ++ [.dismiss])

/-- The dialogs of attempt `n` from first to last. -/
def IsPlay (n : Nat) (es : List Effect) : Prop :=
  ∃ status failed close, (∀ ps ∈ failed, Rising ps) ∧ IsClose n close ∧
    es = questionShown status n failed ++ close

theorem dialogs_append (ms ms' : List Moment) : dialogs (ms ++ ms') = dialogs ms ++ dialogs ms' := by
  simp [dialogs, effects_append]

theorem dialogs_turn (ms : List Moment) {first : Moment} (hf : first.effect? = none)
    (es : List Effect) :
    dialogs (ms ++ first :: es.map .asked) = dialogs ms ++ es.filter Effect.isDialog := by
  rw [dialogs, effects_turn ms hf, List.filter_append]
  rfl

/-- The percentages and the start are shown as they are told. -/
theorem shown_eq (n : Nat) (os : List DownloadOutcome) :
    os.flatMap (DownloadOutcome.shown n) =
      ((os.flatMap DownloadOutcome.told).filterMap Effect.event?).flatMap
        (Presentation.showEvent n) := by
  induction os with
  | nil => rfl
  | cons o os ih =>
    rw [List.flatMap_cons, List.flatMap_cons, List.filterMap_append, List.flatMap_append, ih]
    cases o <;> rfl

theorem filter_shown (n : Nat) (os : List DownloadOutcome) :
    (os.flatMap (DownloadOutcome.shown n)).filter Effect.isDialog =
      os.flatMap (DownloadOutcome.shown n) := by
  refine List.filter_eq_self.2 fun e he => ?_
  obtain ⟨o, -, he⟩ := List.mem_flatMap.1 he
  cases o with
  | started => exact List.mem_singleton.1 he ▸ rfl
  | progress p => exact List.mem_singleton.1 he ▸ rfl
  | _ => cases he

theorem opened_shown (n : Nat) (ps : List UInt8) :
    (opened ps).flatMap (Presentation.showEvent n) = downloadShown n ps := by
  rw [opened, downloadShown, List.flatMap_cons, List.flatMap_map, List.map_eq_flatMap]
  rfl

theorem questionShown_concat (status : RuntimeStatus) (n : Nat) (failed : List (List UInt8))
    (ps : List UInt8) : questionShown status n (failed ++ [ps]) =
      questionShown status n failed ++ (downloadShown n ps ++ [.dismiss, .showError n]) := by
  simp [questionShown, failureShown]

/-! ### What is on the screen -/

/-- The dialog that was called last is open. -/
def IsOpen (es : List Effect) : Prop := ∃ e, es.getLast? = some e ∧ e ≠ .dismiss

theorem IsOpen.append {es : List Effect} (h : IsOpen es) (before : List Effect) :
    IsOpen (before ++ es) := by
  obtain ⟨e, he, hne⟩ := h
  exact ⟨e, by rw [List.getLast?_append, he]; rfl, hne⟩

theorem isOpen_question (status : RuntimeStatus) (n : Nat) (failed : List (List UInt8)) :
    IsOpen (questionShown status n failed) := by
  rcases List.eq_nil_or_concat failed with rfl | ⟨init, ps, rfl⟩
  · exact ⟨_, rfl, by simp⟩
  · have hlast : IsOpen [.dismiss, .showError n] := ⟨_, rfl, by simp⟩
    rw [List.concat_eq_append, questionShown_concat]
    exact (hlast.append _).append _

theorem isOpen_download (n : Nat) (ps : List UInt8) : IsOpen (downloadShown n ps) := by
  rcases List.eq_nil_or_concat ps with rfl | ⟨init, p, rfl⟩
  · exact ⟨_, rfl, by simp⟩
  · refine ⟨.setProgress p, ?_, by simp⟩
    rw [downloadShown, List.concat_eq_append, List.map_append, ← List.cons_append]
    exact List.getLast?_concat

/-- A play ends with the screen empty. -/
theorem IsPlay.not_isOpen {n : Nat} {es : List Effect} (h : IsPlay n es) (before : List Effect) :
    ¬ IsOpen (before ++ es) := by
  obtain ⟨status, failed, close, -, hclose, rfl⟩ := h
  have hlast : close.getLast? = some .dismiss := by
    cases hclose with
    | question => rfl
    | download => exact List.getLast?_concat
  rintro ⟨e, he, hne⟩
  rw [← List.append_assoc, List.getLast?_append, hlast] at he
  exact hne (Option.some.inj he).symm

/-! ## Attempts -/

/-- Does the user decline with the message, or does it say that the download was cancelled? -/
def Incoming.givesUp : Incoming → Bool
  | .action ⟨_, .decline⟩ => true
  | .report ⟨_, .cancelled⟩ => true
  | _ => false

def Moment.taken? : Moment → Option Incoming
  | taken m => some m
  | _ => none

namespace Attempt

/-- Attempts are numbered from one. -/
def number (t : Attempt) : Nat := (attempts t.before).length + 1

def lastTaken? (t : Attempt) : Option Incoming := (t.moments.filterMap Moment.taken?).getLast?

/-- The dialogs of the attempt were all shown. -/
def IsPlayed (t : Attempt) : Prop := IsPlay t.number (dialogs t.moments)

/-- The attempt ended with a message that gives up. No message is taken between two attempts, so the
one that ended an attempt is the last one that it took. -/
def IsGivenUp (t : Attempt) : Prop := t.IsPlayed ∧ ∃ m, t.lastTaken? = some m ∧ m.givesUp = true

end Attempt

/-- How far the dialogs of an attempt are, by the state of the coordinator. -/
inductive Stage (c : Coordinator) (t : Attempt) : Prop
  | asking (status : RuntimeStatus) (failed : List (List UInt8))
      (state : c.state = .awaitingUserDecision) (rising : ∀ ps ∈ failed, Rising ps)
      (shown : dialogs t.moments = questionShown status t.number failed)
      (silent : told t.moments = [])
  | loading (status : RuntimeStatus) (failed : List (List UInt8)) (s : Session)
      (es : List UpdateEvent) (state : c.state = .downloading) (session : c.session = some s)
      (rising : ∀ ps ∈ failed, Rising ps) (passed : s.Passed es)
      (shown : dialogs t.moments = questionShown status t.number failed ++
        es.flatMap (Presentation.showEvent t.number))
      (silent : told t.moments = [])
  | closed (m : Incoming) (state : c.state = .idle) (played : t.IsPlayed)
      (last : t.lastTaken? = some m)
      (heard : told t.moments = if m.givesUp then [.cancelled] else [])

variable {c c' : Coordinator} {t : Attempt} {a : Answers}

theorem Attempt.lastTaken?_turn (t : Attempt) (m : Incoming) (es : List Effect) :
    (t.goesOn (.taken m :: es.map .asked)).lastTaken? = some m := by
  have hes : (es.map Moment.asked).filterMap Moment.taken? = [] :=
    List.filterMap_eq_nil_iff.2 fun x hx => by
      obtain ⟨e, -, rfl⟩ := List.mem_map.1 hx
      rfl
  rw [Attempt.lastTaken?, Attempt.goesOn, List.filterMap_append, List.filterMap_cons, hes]
  exact List.getLast?_concat

/-- Moments that nobody is shown or told, and with which no message of an idle coordinator is
taken. -/
theorem Stage.goesOn (h : Stage c t) {ms : List Moment} (hd : dialogs ms = []) (ht : told ms = [])
    (hidle : c.state = .idle → ms.filterMap Moment.taken? = []) (hst : c'.state = c.state)
    (hse : c'.session = c.session) : Stage c' (t.goesOn ms) := by
  have hd' : dialogs (t.goesOn ms).moments = dialogs t.moments := by
    show dialogs (t.moments ++ ms) = dialogs t.moments
    rw [dialogs_append, hd, List.append_nil]
  have ht' : told (t.goesOn ms).moments = told t.moments := by
    show told (t.moments ++ ms) = told t.moments
    rw [told_append, ht, List.append_nil]
  cases h with
  | asking status failed h1 h2 h3 h4 =>
    exact .asking status failed (hst.trans h1) h2 (hd'.trans h3) (ht'.trans h4)
  | loading status failed s es h1 h2 h3 h4 h5 h6 =>
    exact .loading status failed s es (hst.trans h1) (hse.trans h2) h3 h4 (hd'.trans h5)
      (ht'.trans h6)
  | closed m h1 h2 h3 h4 =>
    refine .closed m (hst.trans h1) ?_ ?_ (ht'.trans h4)
    · show IsPlay t.number (dialogs (t.goesOn ms).moments)
      rw [hd']
      exact h2
    · rw [Attempt.lastTaken?, Attempt.goesOn, List.filterMap_append, hidle h1, List.append_nil]
      exact h3

theorem Stage.awaiting (h : Stage c t) (hst : c.state = .awaitingUserDecision) :
    ∃ status failed, (∀ ps ∈ failed, Rising ps) ∧
      dialogs t.moments = questionShown status t.number failed ∧ told t.moments = [] := by
  cases h with
  | asking status failed _ hr hs ht => exact ⟨status, failed, hr, hs, ht⟩
  | loading _ _ _ _ hd => simp [hst] at hd
  | closed _ hi => simp [hst] at hi

theorem Stage.downloading (h : Stage c t) (hst : c.state = .downloading) {s : Session}
    (hse : c.session = some s) : ∃ status failed es, (∀ ps ∈ failed, Rising ps) ∧ s.Passed es ∧
      dialogs t.moments = questionShown status t.number failed ++
        es.flatMap (Presentation.showEvent t.number) ∧ told t.moments = [] := by
  cases h with
  | asking _ _ ha => simp [hst] at ha
  | closed _ hi => simp [hst] at hi
  | loading status failed s' es _ hse' hr hp hs ht =>
    obtain rfl : s = s' := Option.some.inj (hse.symm.trans hse')
    exact ⟨status, failed, es, hr, hp, hs, ht⟩

/-- Once the start was shown as well, the download is on the screen. -/
theorem Stage.opening (h : Stage c t) (hst : c.state = .downloading) {s : Session}
    (hse : c.session = some s) : ∃ status failed ps, (∀ ps ∈ failed, Rising ps) ∧ Rising ps ∧
      dialogs t.moments ++ s.opening.flatMap (DownloadOutcome.shown t.number) =
        questionShown status t.number failed ++ downloadShown t.number ps ∧
      told t.moments = [] := by
  obtain ⟨status, failed, es, hr, hp, hs, ht⟩ := h.downloading hst hse
  obtain ⟨ps, hps, -, hes⟩ := hp.opening
  refine ⟨status, failed, ps, hr, hps, ?_, ht⟩
  rw [hs, shown_eq, List.append_assoc, ← List.flatMap_append, hes, opened_shown]

/-- A message with which nobody is shown or told anything. -/
theorem Stage.quiet (h : Stage c t) (hst : c.state ≠ .idle) (m : Incoming) {es : List Effect}
    (hd : es.filter Effect.isDialog = []) (he : es.filterMap Effect.event? = []) :
    Stage c (t.goesOn (.taken m :: es.map .asked)) :=
  h.goesOn ((dialogs_turn [] rfl es).trans hd) ((told_turn [] rfl es).trans he)
    (fun hi => absurd hi hst) rfl rfl

/-- What follows the start of a download in one turn. -/
theorem Stage.ending (h : Stage c t) (hd : c.state = .downloading) {s : Session}
    (hse : c.session = some s) (m : Incoming) (es : List Effect) :
    ∃ status failed ps, (∀ ps ∈ failed, Rising ps) ∧ Rising ps ∧
      dialogs (t.goesOn (.taken m ::
        (s.opening.flatMap (DownloadOutcome.shown t.number) ++ es).map .asked)).moments =
          questionShown status t.number failed ++
            (downloadShown t.number ps ++ es.filter Effect.isDialog) ∧
      told (t.goesOn (.taken m ::
        (s.opening.flatMap (DownloadOutcome.shown t.number) ++ es).map .asked)).moments =
          es.filterMap Effect.event? := by
  obtain ⟨status, failed, ps, hr, hps, hshown, ht⟩ := h.opening hd hse
  refine ⟨status, failed, ps, hr, hps, (dialogs_turn t.moments rfl _).trans ?_,
    (told_turn t.moments rfl _).trans ?_⟩
  · rw [List.filter_append, filter_shown, ← List.append_assoc, hshown, List.append_assoc]
  · rw [ht, List.filterMap_append, DownloadOutcome.filterMap_shown (fun _ => rfl) (fun _ => rfl)]
    rfl

/-- The download comes to an end that closes the dialogs. -/
theorem Stage.closes (h : Stage c t) (hd : c.state = .downloading) {s : Session}
    (hse : c.session = some s) {m : Incoming} {es : List Effect} (hst : c'.state = .idle)
    (hes : es.filter Effect.isDialog = [.dismiss])
    (he : es.filterMap Effect.event? = if m.givesUp then [.cancelled] else []) :
    Stage c' (t.goesOn (.taken m ::
      (s.opening.flatMap (DownloadOutcome.shown t.number) ++ es).map .asked)) := by
  obtain ⟨status, failed, ps, hr, hps, hshown, ht⟩ := h.ending hd hse m es
  rw [hes] at hshown
  exact .closed m hst ⟨status, failed, _, hr, .download hps, hshown⟩ (t.lastTaken?_turn _ _)
    (ht.trans he)

/-- The download fails, and the user is asked again. -/
theorem Stage.asksAgain (h : Stage c t) (hd : c.state = .downloading) {s : Session}
    (hse : c.session = some s) {m : Incoming} {es : List Effect}
    (hst : c'.state = .awaitingUserDecision)
    (hes : es.filter Effect.isDialog = [.dismiss, .showError t.number])
    (he : es.filterMap Effect.event? = []) :
    Stage c' (t.goesOn (.taken m ::
      (s.opening.flatMap (DownloadOutcome.shown t.number) ++ es).map .asked)) := by
  obtain ⟨status, failed, ps, hr, hps, hshown, ht⟩ := h.ending hd hse m es
  refine .asking status (failed ++ [ps]) hst ?_ ?_ (ht.trans he)
  · exact List.forall_mem_append.2 ⟨hr, List.forall_mem_singleton.2 hps⟩
  · rw [hshown, questionShown_concat, hes]
    rfl

/-- The question is answered with what closes the dialogs. -/
theorem Stage.answered (h : Stage c t) (ha : c.state = .awaitingUserDecision) {m : Incoming}
    {es : List Effect} (hst : c'.state = .idle) (hes : es.filter Effect.isDialog = [.dismiss])
    (he : es.filterMap Effect.event? = if m.givesUp then [.cancelled] else []) :
    Stage c' (t.goesOn (.taken m :: es.map .asked)) := by
  obtain ⟨status, failed, hr, hshown, ht⟩ := h.awaiting ha
  refine .closed m hst ⟨status, failed, _, hr, .question, ?_⟩ (t.lastTaken?_turn _ _) ?_
  · exact (dialogs_turn t.moments rfl es).trans (congrArg₂ _ hshown hes)
  · exact (told_turn t.moments rfl es).trans (congrArg₂ _ ht he)

/-- What a message does to the dialogs of the attempt that runs. -/
theorem Coordinator.Responds.stage {m : Incoming} {n : Turn} (h : c.Responds a m n)
    (hs : Stage c t) (hn : c.attempt = t.number) (hst : c.state ≠ .idle) :
    Stage n.1 (t.goesOn (.taken m :: n.2.map .asked)) := by
  -- Each rule closes the dialog, asks again, or goes on loading with the percentages so far.
  cases h with
  | strayReport => exact hs.quiet hst _ rfl rfl
  | strayWork => exact hs.quiet hst _ rfl rfl
  | strayAction => exact hs.quiet hst _ rfl rfl
  | aborted => exact hs.quiet hst _ rfl rfl
  | cancelling =>
    rcases c.cancelSession_cases with hes | ⟨s, -, hes⟩
    · exact hs.quiet hst _ (by rw [hes]; rfl) (by rw [hes]; rfl)
    · exact hs.quiet hst _ (by rw [hes]; rfl) (by rw [hes]; rfl)
  | progressed hd hse hid ho =>
    obtain ⟨status, failed, es, hr, hp, hshown, ht⟩ := hs.downloading hd hse
    refine .loading status failed _ _ hd rfl hr (hp.accept hid ho)
      ((dialogs_turn t.moments rfl _).trans ?_) ((told_turn t.moments rfl _).trans ?_)
    · rw [hn, filter_shown, shown_eq, hshown, List.flatMap_append, List.append_assoc]
      rfl
    · rw [ht, DownloadOutcome.filterMap_shown (fun _ => rfl) (fun _ => rfl)]
      rfl
  | cancelled hd hse =>
    rw [hn]
    exact hs.closes hd hse rfl rfl rfl
  | handedOver hd hse =>
    rw [hn]
    exact hs.closes hd hse rfl rfl rfl
  | failed hd hse =>
    rw [hn]
    exact hs.asksAgain hd hse rfl rfl rfl
  | notTaken hd hse =>
    rw [hn]
    exact hs.asksAgain hd hse rfl rfl rfl
  | accepted ha =>
    obtain ⟨status, failed, hr, hshown, ht⟩ := hs.awaiting ha
    refine .loading status failed _ [] rfl rfl hr (.fresh rfl rfl)
      ((dialogs_turn t.moments rfl _).trans ?_) ((told_turn t.moments rfl _).trans ?_)
    · rw [hshown]
      rfl
    · rw [ht]
      rfl
  | redirected ha => exact hs.answered ha rfl rfl rfl
  | declined ha => exact hs.answered ha rfl rfl rfl

/-! ### What a stage says -/

/-- The dialogs so far are the beginning of a play, which is over when no attempt runs. -/
theorem Stage.plays (h : Stage c t) :
    (∃ es, IsPlay t.number es ∧ dialogs t.moments <+: es) ∧ (t.IsPlayed ↔ c.state = .idle) := by
  have unplayed : ∀ {es : List Effect}, dialogs t.moments = es → IsOpen es → ¬ t.IsPlayed :=
    fun hes ho hp => hp.not_isOpen [] (hes ▸ ho)
  cases h with
  | asking status failed hst hr hs =>
    refine ⟨⟨_, ⟨status, failed, _, hr, .question, rfl⟩, hs ▸ List.prefix_append _ _⟩, ?_⟩
    exact iff_of_false (unplayed hs (isOpen_question _ _ _)) (by simp [hst])
  | closed _ hst hp => exact ⟨⟨_, hp, List.prefix_refl _⟩, iff_of_true hp hst⟩
  | loading status failed s es hst _ hr hp hs =>
    cases hp with
    | fresh =>
      have hs' : dialogs t.moments = questionShown status t.number failed := by simpa using hs
      refine ⟨⟨_, ⟨status, failed, _, hr, .question, rfl⟩, hs' ▸ List.prefix_append _ _⟩, ?_⟩
      exact iff_of_false (unplayed hs' (isOpen_question _ _ _)) (by simp [hst])
    | begun ps _ _ hps =>
      rw [opened_shown] at hs
      refine ⟨⟨_, ⟨status, failed, _, hr, .download hps, rfl⟩, ?_⟩, ?_⟩
      · rw [hs]
        exact (List.prefix_append_right_inj _).2 (List.prefix_append _ _)
      · exact iff_of_false (unplayed hs ((isOpen_download _ _).append _)) (by simp [hst])

/-- A dialog is open while the attempt runs, whatever was shown before it. -/
theorem Stage.isOpen_iff (h : Stage c t) (hf : c.isForeground = true) (before : List Effect) :
    IsOpen (before ++ dialogs t.moments) ↔ c.isShowingDialog = true := by
  cases h with
  | asking status failed hst _ hs =>
    refine iff_of_true ?_ (by simp [Coordinator.isShowingDialog, hf, hst])
    exact (hs ▸ isOpen_question _ _ _).append _
  | closed _ hst hp =>
    exact iff_of_false (hp.not_isOpen before) (by simp [Coordinator.isShowingDialog, hst])
  | loading status failed s es hst _ _ hp hs =>
    refine iff_of_true (.append ?_ _) (by simp [Coordinator.isShowingDialog, hf, hst])
    rw [hs]
    cases hp with
    | fresh => simpa using isOpen_question status t.number failed
    | begun ps =>
      rw [opened_shown]
      exact (isOpen_download _ _).append _

/-- The listener is told once that an attempt was given up, and nothing else. -/
theorem Stage.told_eq (h : Stage c t) :
    (t.IsGivenUp → told t.moments = [.cancelled]) ∧ (¬ t.IsGivenUp → told t.moments = []) := by
  have running : c.state ≠ .idle → ¬ t.IsGivenUp := fun hst hg => hst (h.plays.2.1 hg.1)
  cases h with
  | asking _ _ hst _ _ ht => exact ⟨fun hg => absurd hg (running (by simp [hst])), fun _ => ht⟩
  | loading _ _ _ _ hst _ _ _ _ ht =>
    exact ⟨fun hg => absurd hg (running (by simp [hst])), fun _ => ht⟩
  | closed m _ hp hlast ht =>
    refine ⟨fun ⟨_, m', hlast', hm⟩ => ?_, fun hno => ?_⟩
    · obtain rfl : m = m' := Option.some.inj (hlast.symm.trans hlast')
      rw [ht, if_pos hm]
    · rw [ht, if_neg fun hm => hno ⟨hp, m, hlast, hm⟩]

/-! ## Runs -/

namespace Life

variable {l l' : Life} {setup : Setup}

theorem Reached.attended (h : l.Reached setup) {store : StoreContext}
    (hf : setup.presentation = .foreground store) : l.Attended := by
  obtain ⟨hs, hr⟩ := h
  exact attended_run hf hr

/-- An accepted call asks the first question. -/
theorem stage_opening (ha : l.Attended) {b : Answers} {n : Turn}
    (hb : l.coordinator.attemptUpdate b = (true, n))
    (hn : l.coordinator.attempt = (attempts l.record).length) :
    Stage n.1 ⟨l.record, n.2.map .asked⟩ := by
  obtain ⟨store, hf⟩ := ha.foreground
  have h := Coordinator.attemptUpdate_invites (Coordinator.isForeground_foreground hf) b
  rw [hb] at h
  cases h with
  | asked =>
    refine .asking b.status [] rfl (fun ps hps => by cases hps) ?_ rfl
    show [Effect.showEligibility b.status (l.coordinator.attempt + 1)] = _
    rw [hn]
    rfl

/-- Any other step goes on with the dialogs of the latest attempt. -/
theorem stage_step (ha : l.Attended) {ms : List Moment} (h : Stage l.coordinator t)
    (hn : l.coordinator.attempt = t.number) {x : Happening} (hl : l.step x = some l')
    (hrec : l'.record = l.record ++ ms) (hms : ∀ m ∈ ms, m.opens = false) :
    Stage l'.coordinator (t.goesOn ms) := by
  obtain ⟨store, hf⟩ := ha.foreground
  cases step_goes hl with
  | still =>
    obtain rfl : ms = [] := List.append_right_eq_self.1 hrec.symm
    exact h.goesOn rfl rfl (fun _ => rfl) rfl rfl
  | @heard m c waiting running hm hc _ =>
    obtain rfl : [m] = ms := List.append_cancel_left hrec
    have heffects := effects_heard hm
    refine h.goesOn (by rw [dialogs, heffects]; rfl) (by rw [SharedRuntime.told_eq, heffects]; rfl)
      (fun _ => ?_) hc.state hc.session
    cases m <;> first | rfl | cases hm
  | called b =>
    obtain rfl := List.append_cancel_left hrec
    have hb : (l.coordinator.attemptUpdate b).1 = false := hms _ List.mem_cons_self
    rw [Coordinator.attemptUpdate_of_refused hb]
    exact h.goesOn rfl rfl (fun _ => rfl) rfl rfl
  | @cancelled b es hes =>
    obtain rfl := List.append_cancel_left hrec
    have hd : es.filter Effect.isDialog = [] := by
      rcases hes with rfl | ⟨-, rfl⟩
      · rfl
      · rcases l.coordinator.cancelSession_cases with hc | ⟨s, -, hc⟩ <;> rw [hc] <;> rfl
    refine h.goesOn ((dialogs_turn [] rfl es).trans hd)
      ((told_turn [] rfl es).trans (hes.filterMap fun _ => rfl)) (fun _ => ?_) rfl rfl
    rw [List.filterMap_cons_none rfl]
    exact List.filterMap_eq_nil_iff.2 fun x hx => by
      obtain ⟨e, -, rfl⟩ := List.mem_map.1 hx
      rfl
  | @took b m c hst hnext =>
    obtain rfl := List.append_cancel_left hrec
    have hf' : c.setup.presentation = .foreground store := by rw [hnext.setup, hf]
    have hst' : c.state = l.coordinator.state := by cases hnext <;> rfl
    have hn' : c.attempt = l.coordinator.attempt := by cases hnext <;> rfl
    have hc : Stage c t := by
      have hsame : t.goesOn [] = t := by simp [Attempt.goesOn]
      rw [← hsame]
      exact h.goesOn rfl rfl (fun _ => rfl) hst' (by cases hnext <;> rfl)
    exact (Coordinator.handle_responds hf' (ha.attending.next hnext) b m).stage hc (hn'.trans hn)
      (hst' ▸ hst)

theorem stage_run {store : StoreContext} (hf : setup.presentation = .foreground store)
    (h : l.Reached setup) (ht : l.Latest t) : Stage l.coordinator t := by
  refine latest_run (P := fun l t => Stage l.coordinator t) ?_ ?_ h ht
  · intro l b n hreach hn
    exact stage_opening (hreach.attended hf) hn (attempt_run hreach)
  · intro l x l' t ms hreach hlat hs hx hrec hms
    refine stage_step (hreach.attended hf) hs ?_ hx hrec hms
    rw [attempt_run hreach, hlat.attempts_eq, List.length_append]
    rfl

/-- In every run in the foreground the calls on the dialogs are those of the accepted calls for an
attempt, in order, and so is what the listener is told. The dialogs of an attempt are the beginning
of a play whose handles have the number of the attempt; all of it was shown once the attempt is over,
and not before. A dialog is on the screen while the one that was called last is open. The listener is
told that an attempt was given up, once, and nothing else. -/
theorem run_plays {store : StoreContext} (hf : setup.presentation = .foreground store)
    {hs : List Happening} (hr : (new setup).run hs = some l) :
    dialogs l.record = ((attempts l.record).flatMap fun t => dialogs t.moments) ∧
      told l.record = ((attempts l.record).flatMap fun t => told t.moments) ∧
      (attempts l.record).length = l.record.countP Moment.opens ∧
      l.coordinator.attempt = (attempts l.record).length ∧
      (∀ t ∈ attempts l.record, (∃ es, IsPlay t.number es ∧ dialogs t.moments <+: es) ∧
        (t.IsGivenUp → told t.moments = [.cancelled]) ∧
        (¬ t.IsGivenUp → told t.moments = [])) ∧
      (∀ t ∈ (attempts l.record).dropLast, t.IsPlayed) ∧
      (l.coordinator.state = .idle ↔ ∀ t ∈ attempts l.record, t.IsPlayed) ∧
      (l.coordinator.isShowingDialog = true ↔ IsOpen (dialogs l.record)) := by
  have h : l.Reached setup := ⟨hs, hr⟩
  have hdialogs : dialogs l.record = (attempts l.record).flatMap fun t => dialogs t.moments := by
    rw [dialogs, effects_run h, List.filter_flatMap]
    rfl
  refine ⟨hdialogs, told_run h, length_attempts l.record, attempt_run h, fun t ht => ?_, ?_⟩
  · obtain ⟨l₀, hreach, hlat, -⟩ := h.exists_latest ht
    have hstage := stage_run hf hreach hlat
    exact ⟨hstage.plays.1, hstage.told_eq⟩
  · -- The attempts before the latest are over; the latest is where the coordinator stands.
    cases parted_run h with
    | fresh hst hun =>
      have hnone : attempts l.record = [] := attempts_unopened hun
      refine ⟨by simp [hnone], iff_of_true hst (by simp [hnone]), ?_⟩
      rw [hdialogs, hnone]
      exact iff_of_false (by simp [Coordinator.isShowingDialog, hst]) fun ⟨e, he, _⟩ => by cases he
    | since t hlat =>
      have hstage := stage_run hf h hlat
      have hearlier : ∀ t' ∈ attempts t.before, t'.IsPlayed := fun t' ht' => by
        obtain ⟨l₀, hreach, hlat', hidle⟩ := h.exists_idle hlat ht'
        exact (stage_run hf hreach hlat').plays.2.2 hidle
      have hall := hlat.attempts_eq
      refine ⟨by rwa [hall, List.dropLast_concat], ?_, ?_⟩
      · rw [← hstage.plays.2, hall, List.forall_mem_append, List.forall_mem_singleton]
        exact ⟨fun hp => ⟨hearlier, hp⟩, fun hp => hp.2⟩
      · obtain ⟨store', hf'⟩ := (h.attended hf).foreground
        rw [← hstage.isOpen_iff (Coordinator.isForeground_foreground hf') (dialogs t.before),
          hlat.record, dialogs_append]
        rfl

/-- An attempt whose first download fails, whose second the platform refuses, and that the user then
declines. -/
def declinedRun : List Happening :=
  [.overrideUrl "http://host/runtime", .attempt plainAnswers, .choose ⟨1, .accept⟩,
    .process plainAnswers, .report ⟨1, .progress 40⟩, .process plainAnswers,
    .report ⟨1, .failed 404 1002⟩, .process plainAnswers, .choose ⟨1, .accept⟩,
    .process plainAnswers, .report ⟨2, .completed [3]⟩,
    .process { plainAnswers with installPackage := fun _ => .error (.install "refused") },
    .choose ⟨1, .decline⟩, .process plainAnswers]

theorem run_plays_declined : ∃ l, (new dialogSetup).run declinedRun = some l ∧
    l.coordinator.state = .idle ∧
    dialogs l.record = [.showEligibility plainAnswers.status 1, .showProgress 1, .setProgress 40,
      .dismiss, .showError 1, .showProgress 1, .dismiss, .showError 1, .dismiss] ∧
    told l.record = [.cancelled] ∧ (∀ t ∈ attempts l.record, t.IsPlayed) ∧
    ¬ IsOpen (dialogs l.record) := by
  have hr : (new dialogSetup).run declinedRun = some _ := rfl
  obtain ⟨-, -, -, -, -, -, hidle, hopen⟩ := run_plays rfl hr
  exact ⟨_, hr, rfl, rfl, rfl, hidle.1 rfl, fun ho => Bool.false_ne_true (hopen.2 ho)⟩

end Life

end SharedRuntime
