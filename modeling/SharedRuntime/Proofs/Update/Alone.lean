import SharedRuntime.Proofs.Update.Draining
import SharedRuntime.Proofs.Update.Transfers
import SharedRuntime.Update.Background

/-!
# Runs that go on by themselves

A `BackgroundRun` does at once what its coordinator asks for. It is a life in which jobs begin and
end as soon as they are asked for, and all reports of a transfer arrive when it begins:
`BackgroundRun.Accompanies` links the two, with the effects that the run still has to do. A transfer
reports an end whatever it meets (`Transfer.run_reports`), so the messages are drained and the run
ends idle, with the events and the outcome of one attempt (`BackgroundRun.attempt?_ends`).
-/

set_option autoImplicit false

namespace SharedRuntime

/-! ## Transfers -/

namespace Transfer

/-- Whatever a transfer meets, it reports an end. -/
theorem run_reports (course : Course) (dir : Path) (name : String) (fs : FileSystem) :
    ∃ o ∈ ((run course dir name).run fs).1, o.isTerminal = true := by
  cases hload : (load course (partialPath dir name)).run fs with
  | mk loaded t =>
    obtain ⟨ps, e⟩ := loaded
    have hfinal := finish_isTerminal course dir name e t
    cases hfinish : (finish course dir name e).run t with
    | mk o u =>
      rw [hfinish] at hfinal
      rw [run_of_load hload hfinish]
      exact ⟨o, by simp, hfinal⟩

end Transfer

/-! ## What the coordinator asks for -/

namespace Coordinator

variable {c : Coordinator} {m : Incoming} {t : Turn}

/-- No message begins a transfer in the background. -/
theorem Moves.starts (h : c.Moves m t) : t.2.filterMap Effect.session? = [] := by
  cases h with
  | strayReport => rfl
  | strayWork => rfl
  | strayAction => rfl
  | cancelling => exact c.filterMap_cancelSession fun _ => rfl
  | progressed => exact starts_told _
  | stopped =>
    rw [List.filterMap_append, starts_told]
    rfl
  | toVerify =>
    rw [List.filterMap_append, starts_told]
    rfl
  | toInstall =>
    rw [List.filterMap_append, starts_told]
    rfl
  | approved => rfl
  | rejected => rfl
  | installed => rfl

/-- A call of an idle coordinator is accepted unless the runtime can be used. -/
theorem attemptUpdate_accepts (a : Answers) (h : c.state = .idle) :
    (c.attemptUpdate a).1 = !a.status.isSatisfied := by
  unfold attemptUpdate
  rw [h]
  cases a.status.isSatisfied with
  | true => rfl
  | false =>
    dsimp only [UpdateState.isIdle]
    simp only [Bool.not_true, Bool.or_false, Bool.false_eq_true, if_false]
    split <;> rfl

theorem foldl_receiveReport (c : Coordinator) (rs : List SessionReport) :
    rs.foldl receiveReport c = { c with reports := c.reports ++ rs } := by
  induction rs generalizing c with
  | nil => simp
  | cons r rs ih =>
    rw [List.foldl_cons, ih]
    simp [receiveReport]

end Coordinator

/-! ## What is told of one attempt -/

/-- The events of an attempt that is over: a failure of the configuration alone, or the start, rising
percentages and an end. -/
inductive IsAttempt : List UpdateEvent → Prop
  | unconfigured (why : String) : IsAttempt [.failed (.configuration why)]
  | streamed (ps : List UInt8) (e : UpdateEvent) : Rising ps → e.isEnd = true →
      IsAttempt (opened ps ++ [e])

theorem Current.isAttempt {setup : Setup} {c : Coordinator} {t : Attempt}
    (h : Current setup c t) (hst : c.state = .idle) : IsAttempt (told t.moments) := by
  cases h with
  | unconfigured _ _ he =>
    rw [he]
    exact .unconfigured _
  | ended ps o _ _ hr he =>
    rw [he]
    exact .streamed ps o.event hr o.isEnd_event
  | downloading _ hd => simp [hd] at hst
  | working _ hw => rcases hw with hw | hw <;> simp [hw] at hst

/-- If nothing was told before the latest attempt, all that was told once it is over is that
attempt. -/
theorem Life.told_once {setup : Setup} {l : Life} (hb : setup.presentation = .background)
    (h : l.Reached setup) {before : List Moment} (hlat : ∃ ms, l.Latest ⟨before, ms⟩)
    (hsilent : told before = []) (hst : l.coordinator.state = .idle) :
    IsAttempt (told l.record) ∧ ∃ o, l.coordinator.lastOutcome = some o ∧
      (told l.record).getLast? = some o.event := by
  obtain ⟨hs, hr⟩ := h
  obtain ⟨ms, hlat⟩ := hlat
  cases (reported_run hb hr).story with
  | fresh _ hun => exact absurd hun hlat.opened
  | since past cur hrec hun _ _ hcur =>
    have hlat' : l.Latest ⟨past, cur⟩ := ⟨hrec, hun⟩
    obtain ⟨rfl, rfl⟩ := Attempt.mk.inj (hlat.unique hlat')
    have htold : told l.record = told ms := by
      rw [hrec, told_append, hsilent]
      rfl
    rw [htold]
    exact ⟨hcur.isAttempt hst, hcur.last hst⟩

namespace BackgroundRun

variable {setup : Setup} {s : Surroundings} {before : List Moment} {r : BackgroundRun}
  {owed es : List Effect} {e : Effect} {l l' l₀ : Life} {n k : Nat}

/-! ## The life of a run -/

/-- The life is that of a run which still owes some effects. Only the jobs among those are open,
and of only those the listener was not told yet. The run attempts an update since `before`. -/
structure Accompanies (setup : Setup) (before : List Moment) (r : BackgroundRun)
    (owed : List Effect) (l : Life) : Prop where
  reached : l.Reached setup
  coordinator : l.coordinator = r.coordinator
  waiting : l.waiting = owed.filterMap Effect.job?
  running : l.running = []
  events : told l.record = r.events ++ owed.filterMap Effect.event?
  latest : ∃ ms, l.Latest ⟨before, ms⟩

/-- A run that owes nothing has told all. -/
theorem Accompanies.told_eq (h : Accompanies setup before r [] l) : told l.record = r.events := by
  rw [h.events]
  exact List.append_nil _

/-- What moments that open no attempt and tell nothing leave as it is. -/
theorem Accompanies.noted (h : Accompanies setup before r owed l) {ms : List Moment}
    (hrec : l'.record = l.record ++ ms) (hopen : ∀ m ∈ ms, m.opens = false)
    (htold : told ms = []) :
    told l'.record = r.events ++ owed.filterMap Effect.event? ∧
      ∃ cur, l'.Latest ⟨before, cur⟩ := by
  obtain ⟨cur, hcur⟩ := h.latest
  refine ⟨?_, cur ++ ms, hcur.grow hrec hopen⟩
  rw [hrec, told_append, htold, List.append_nil]
  exact h.events

/-- A report arrives. -/
theorem Accompanies.receive (h : Accompanies setup before r owed l) (x : SessionReport) :
    ∃ l', Accompanies setup before { r with coordinator := r.coordinator.receiveReport x }
      owed l' := by
  let l' : Life := { l with coordinator := l.coordinator.receiveReport x }.note (.reported x)
  have hl : l.step (.report x) = some l' := rfl
  have hrec : l'.record = l.record ++ [.reported x] := rfl
  obtain ⟨hevents, hlatest⟩ := h.noted hrec (List.forall_mem_singleton.2 rfl) rfl
  exact ⟨l', h.reached.step hl, congrArg (·.receiveReport x) h.coordinator, h.waiting, h.running,
    hevents, hlatest⟩

theorem Accompanies.receiveAll (rs : List SessionReport)
    (h : Accompanies setup before r owed l) : ∃ l', Accompanies setup before
      { r with coordinator := rs.foldl Coordinator.receiveReport r.coordinator } owed l' := by
  induction rs generalizing r l with
  | nil => exact ⟨l, h⟩
  | cons x rs ih =>
    obtain ⟨l', h'⟩ := h.receive x
    exact ih h'

/-- The files play no part in a life. -/
theorem Accompanies.withFiles (h : Accompanies setup before r owed l) (files : FileSystem) :
    Accompanies setup before { r with files := files } owed l :=
  ⟨h.reached, h.coordinator, h.waiting, h.running, h.events, h.latest⟩

/-- An effect that asks for no job and tells nothing. -/
theorem Accompanies.skip (h : Accompanies setup before r (e :: owed) l) (hj : e.job? = none)
    (he : e.event? = none) : Accompanies setup before r owed l := by
  refine ⟨h.reached, h.coordinator, ?_, h.running, ?_, h.latest⟩
  · rw [h.waiting, List.filterMap_cons_none hj]
  · rw [h.events, List.filterMap_cons_none he]

/-- A job that is asked for begins and ends. -/
theorem Accompanies.work {j : Job} {x : Happening} {w : WorkResult}
    (h : Accompanies setup before r (e :: owed) l) (hd : l₀.Drains n k l) (hj : e.job? = some j)
    (he : e.event? = none) (hjob : x.isJob = true) (hx : ∀ l : Life, l.step x = l.finish j w) :
    ∃ k' l', l₀.Drains n k' l' ∧ Accompanies setup before
      { r with coordinator := r.coordinator.receiveWork w } owed l' := by
  have hwaiting : l.waiting = j :: owed.filterMap Effect.job? := by
    rw [h.waiting, List.filterMap_cons_some hj]
  let l₁ : Life := { l with waiting := l.waiting.erase j,
                            running := l.running ++ [j] }.note (.began j)
  have hbegin : l.step (.begin j) = some l₁ := if_pos (by rw [hwaiting]; exact List.mem_cons_self)
  let l₂ : Life := { l₁ with coordinator := l₁.coordinator.receiveWork w,
                             running := l₁.running.erase j }.note (.finished j w)
  have hend : l₁.step x = some l₂ := by
    rw [hx]
    exact if_pos (List.mem_append_right _ (List.mem_singleton_self j))
  have hrec : l₂.record = l.record ++ [.began j, .finished j w] := by
    show l.record ++ [.began j] ++ [.finished j w] = _
    rw [List.append_assoc]
    rfl
  obtain ⟨hevents, hlatest⟩ := (h.noted hrec (by simp [Moment.opens]) rfl)
  refine ⟨_, l₂, (hd.works (.works rfl hbegin)).works (.works hjob hend),
    (h.reached.step hbegin).step hend, congrArg (·.receiveWork w) h.coordinator, ?_, ?_, ?_,
    hlatest⟩
  · show l.waiting.erase j = _
    rw [hwaiting, List.erase_cons_head]
  · show (l.running ++ [j]).erase j = []
    rw [h.running, List.nil_append, List.erase_cons_head]
  · rw [hevents, List.filterMap_cons_none he]

/-- The run does what it owes first. -/
theorem Accompanies.perform (s : Surroundings) (h : Accompanies setup before r (e :: owed) l)
    (hd : l₀.Drains n k l) (hstart : e.session? = none) :
    ∃ k' l', l₀.Drains n k' l' ∧ Accompanies setup before (r.perform s e) owed l' := by
  cases e with
  | tell event =>
    refine ⟨k, l, hd, h.reached, h.coordinator, h.waiting, h.running, ?_, h.latest⟩
    rw [h.events, List.filterMap_cons_some (by rfl : (Effect.tell event).event? = some event)]
    exact List.append_cons _ _ _
  | verify p =>
    exact h.work (x := .verified p (artifactIdentities r.files p) (.ok s.trusted)) hd rfl rfl rfl
      fun _ => rfl
  | install p d =>
    let done := (Installation.install s.now p d).perform r.files
    exact (h.withFiles done.2).work (x := .installed p d done.1) hd rfl rfl rfl fun _ => rfl
  | removeFile p => exact ⟨k, l, hd, (h.skip rfl rfl).withFiles _⟩
  | startDownload id q => cases hstart
  | _ => exact ⟨k, l, hd, h.skip rfl rfl⟩

/-- The run does a transfer, whose reports hold an end. -/
theorem Accompanies.load (s : Surroundings) {id : Nat} {q : UpdateRequest}
    (h : Accompanies setup before r (.startDownload id q :: owed) l) :
    ∃ rs : List SessionReport, (∃ x ∈ rs, x.session = id ∧ x.outcome.isTerminal = true) ∧
      ∃ l', Accompanies setup before (r.perform s (.startDownload id q)) owed l' ∧
        l'.coordinator = { l.coordinator with reports := l.coordinator.reports ++ rs } := by
  let done := (Transfer.run s.course q.downloads s.transferName).run r.files
  obtain ⟨o, ho, hfinal⟩ := Transfer.run_reports s.course q.downloads s.transferName r.files
  refine ⟨done.1.map (SessionReport.mk id), ⟨_, List.mem_map_of_mem ho, rfl, hfinal⟩, ?_⟩
  obtain ⟨l', h'⟩ := ((h.skip rfl rfl).withFiles done.2).receiveAll
    (done.1.map (SessionReport.mk id))
  refine ⟨l', h', ?_⟩
  rw [h'.coordinator, h.coordinator]
  exact Coordinator.foldl_receiveReport _ _

/-- The run does all that it owes. -/
theorem Accompanies.performAll (s : Surroundings) (h : Accompanies setup before r owed l)
    (hd : l₀.Drains n k l) (hstart : owed.filterMap Effect.session? = []) :
    ∃ k' l', l₀.Drains n k' l' ∧
      Accompanies setup before (owed.foldl (BackgroundRun.perform s) r) [] l' := by
  induction owed generalizing r l k with
  | nil => exact ⟨k, l, hd, h⟩
  | cons e owed ih =>
    have hstart' := List.filterMap_eq_nil_iff.1 hstart
    obtain ⟨k', l', hd', h'⟩ := h.perform s hd (hstart' e List.mem_cons_self)
    exact ih h' hd' (List.filterMap_eq_nil_iff.2 fun x hx =>
      hstart' x (List.mem_cons_of_mem _ hx))

/-! ## Draining -/

/-- A run that owes nothing has no open job. -/
theorem Accompanies.jobless (h : Accompanies setup before r [] l) (l' : Life) :
    ¬ l.Advances false l' := by
  intro ha
  rcases ha.worked with ⟨j, hj, -⟩ | ⟨j, hj, -⟩
  · rw [h.waiting] at hj
    cases hj
  · rw [h.running] at hj
    cases hj

/-- If the run takes no message, nothing goes on in its life. -/
theorem Accompanies.stuck (h : Accompanies setup before r [] l) {a : Answers}
    (hp : ∀ t, r.coordinator.processNext a ≠ .handled t) (b : Bool) (l' : Life) :
    ¬ l.Advances b l' := by
  intro ha
  cases b with
  | true =>
    obtain ⟨_, m, c, hst, hn, -⟩ := ha.took
    exact hp _ (h.coordinator ▸ hn.processNext hst a)
  | false => exact h.jobless l' ha

/-- The run takes a message and does what the coordinator asks for. -/
theorem Accompanies.take (hb : setup.presentation = .background)
    (h : Accompanies setup before r [] l) (hd : l₀.Drains n k l) {t : Turn}
    (ht : r.coordinator.processNext (r.answers s) = .handled t) :
    ∃ k' l', l₀.Drains (n + 1) k' l' ∧ Accompanies setup before (r.take s t) [] l' := by
  obtain ⟨hs, hr⟩ := h.reached
  have hk := Life.kept_run hb hr
  rw [← h.coordinator] at ht
  obtain ⟨hst, m, c, hn, rfl⟩ := Coordinator.processNext_handled ht
  have hl := Life.step_taken hst hn (r.answers s)
  have hback : c.setup.presentation = .background := by rw [hn.setup, hk.isBackground]
  have hmoves := Coordinator.handle_moves hback (hk.standing.next hn) (r.answers s) m
  obtain ⟨cur, hcur⟩ := h.latest
  have hafter : Accompanies setup before
      { r with coordinator := (c.handle (r.answers s) m).1 } (c.handle (r.answers s) m).2
      (l.turn (.taken m) (c.handle (r.answers s) m)) := by
    refine ⟨h.reached.step hl, rfl, ?_, h.running, ?_, _,
      hcur.grow rfl (List.forall_mem_cons.2 ⟨rfl, opens_asked⟩)⟩
    · show l.waiting ++ _ = _
      rw [h.waiting]
      rfl
    · exact (told_turn l.record rfl _).trans (by rw [h.told_eq])
  exact hafter.performAll s (hd.takes (.takes ht hl)) hmoves.starts

/-- Draining goes on until nothing can go on or the fuel is spent. -/
theorem Accompanies.drain (hb : setup.presentation = .background)
    (h : Accompanies setup before r [] l) (fuel : Nat) (hd : l₀.Drains n k l) :
    ∃ n' k' l', l₀.Drains n' k' l' ∧ Accompanies setup before (drain s fuel r) [] l' ∧
      (n' = n + fuel ∨ ∀ b l'', ¬ l'.Advances b l'') := by
  induction fuel generalizing r l n k with
  | zero => exact ⟨n, k, l, hd, h, .inl rfl⟩
  | succ fuel ih =>
    unfold BackgroundRun.drain
    split
    · rename_i t ht
      obtain ⟨k', l', hd', h'⟩ := h.take hb hd ht
      obtain ⟨n', k'', l'', hd'', h'', hleft⟩ := ih h' hd'
      exact ⟨n', k'', l'', hd'', h'', hleft.imp_left (by omega)⟩
    · rename_i hp
      exact ⟨n, k, l, hd, h, .inr (h.stuck hp)⟩

/-- A run that holds an end of its transfer goes on until it is idle. -/
theorem Accompanies.untilIdle (hb : setup.presentation = .background)
    (h : Accompanies setup before r [] l) (hripe : l.Ripe) :
    ∃ l', Accompanies setup before (untilIdle s r) [] l' ∧ l'.coordinator.state = .idle := by
  obtain ⟨hs, hr⟩ := h.reached
  have hbounds := (Life.kept_run hb hr).coherent.bounds.1
  have hmess : l.coordinator.messages = r.waiting := by rw [h.coordinator]; rfl
  obtain ⟨n, k, l', hd, h', hleft⟩ := h.drain (s := s) hb (r.waiting + 2) .here
  refine ⟨l', h', ?_⟩
  have hspent := (hd.spends hb h.reached).1
  obtain ⟨hs', hr'⟩ := h'.reached
  have hk' := Life.kept_run hb hr'
  have hstuck : ∀ b l'', ¬ l'.Advances b l'' := by
    rcases hleft with hn | hstuck
    -- All the fuel was spent, so no message is left to take.
    · intro b l'' ha
      cases b with
      | true =>
        have hmore := (ha.spends hk').1
        rw [Bool.toNat_true] at hmore
        omega
      | false => exact h'.jobless l'' ha
    · exact hstuck
  by_contra hst
  obtain ⟨b, l'', ha⟩ := (hripe.drains hb h.reached hd).advances hk' hst
  exact hstuck b l'' ha

/-! ## Attempts -/

/-- A call that is accepted in an idle life sets a run going that its life accompanies, and if the
run began a transfer then it holds an end of it. -/
theorem accompanied (hb : setup.presentation = .background) (h : l.Reached setup)
    (hst : l.coordinator.state = .idle) (hsilent : told l.record = []) {a : Answers} {t : Turn}
    (ht : l.coordinator.attemptUpdate a = (true, t)) (fs : FileSystem) :
    ∃ l', Accompanies setup l.record (take s ⟨l.coordinator, fs, []⟩ t) [] l' ∧ l'.Ripe := by
  obtain ⟨hs, hr⟩ := h
  have hk := Life.kept_run hb hr
  have hresting := hk.coherent.resting (by simp [hst]) (by simp [hst])
  have hl : l.step (.attempt a) = some (l.turn (.attempted true) t) := by
    simp [Life.step, ht]
  have hreached := Life.Reached.step ⟨hs, hr⟩ hl
  have hopened : Accompanies setup l.record ⟨t.1, fs, []⟩ t.2 (l.turn (.attempted true) t) := by
    refine ⟨hreached, rfl, ?_, hresting.running, ?_, _, rfl, opens_asked⟩
    · show l.waiting ++ _ = _
      rw [hresting.waiting]
      rfl
    · exact (told_turn l.record rfl _).trans (by rw [hsilent])
  have hattempts := Coordinator.attemptUpdate_attempts hk.isBackground hk.standing a
  rw [ht] at hattempts
  cases hattempts with
  | unconfigured _ hu =>
    obtain ⟨k, l', hd, h'⟩ := hopened.performAll s .here rfl
    refine ⟨l', h', Life.Ripe.drains hb hreached (fun hdown => ?_) hd⟩
    exact absurd hdown (by simp [Life.turn, Coordinator.ended])
  | started _ hu =>
    obtain ⟨rs, ⟨r, hr, hid, hfinal⟩, l', h', hc⟩ := hopened.load s
    refine ⟨l', h', fun _ => ⟨r, ?_, ?_, hfinal⟩⟩
    · rw [hc]
      exact List.mem_append_right _ hr
    · rw [hc, hid]
      rfl

/-- A run without a call before it makes no attempt if the runtime can be used. Else it ends idle,
and the listener was told one attempt, whose end is the outcome that is kept. -/
theorem attempt?_ends (hb : setup.presentation = .background) (h : l.Reached setup)
    (hst : l.coordinator.state = .idle) (hsilent : told l.record = []) (fs : FileSystem) :
    (attempt? s ⟨l.coordinator, fs, []⟩ = none ↔
      (installedStatus fs l.coordinator.setup.destination s.expectedVersion).isSatisfied = true) ∧
    ∀ r, attempt? s ⟨l.coordinator, fs, []⟩ = some r → r.coordinator.state = .idle ∧
      IsAttempt r.events ∧ ∃ o, r.coordinator.lastOutcome = some o ∧
        r.events.getLast? = some o.event := by
  have haccepts : (l.coordinator.attemptUpdate (answers s ⟨l.coordinator, fs, []⟩)).1 =
      !(installedStatus fs l.coordinator.setup.destination s.expectedVersion).isSatisfied :=
    Coordinator.attemptUpdate_accepts _ hst
  unfold attempt?
  cases ht : l.coordinator.attemptUpdate (answers s ⟨l.coordinator, fs, []⟩) with
  | mk accepted t =>
    rw [ht] at haccepts
    cases accepted with
    | false => exact ⟨iff_of_true rfl (by simpa using haccepts), fun r hr => by cases hr⟩
    | true =>
      refine ⟨iff_of_false (by simp) (by simpa using haccepts), fun r hr => ?_⟩
      cases hr
      obtain ⟨l₁, h₁, hripe⟩ := accompanied (s := s) hb h hst hsilent ht fs
      obtain ⟨l₂, h₂, hidle⟩ := h₁.untilIdle (s := s) hb hripe
      rw [← h₂.coordinator, ← h₂.told_eq]
      exact ⟨hidle, Life.told_once hb h₂.reached h₂.latest hsilent hidle⟩

end BackgroundRun

end SharedRuntime
