import SharedRuntime.Proofs.Update.Cancelling
import SharedRuntime.Proofs.Update.Choices

/-!
# Draining

A coordinator that takes messages until it is idle has no counter. What bounds it is `Life.room`: the
messages that wait, the jobs that are outstanding, and the jobs that the states ahead may still
start. Each message that is taken uses up some of it, and a job that goes on uses up some of
`Life.effort` (`Advances.spends`). As long as an end of the download waits in the queue, a coordinator
that is not idle never waits in vain (`Ripe.advances`), so every way of draining it ends
(`run_drains`).
-/

set_option autoImplicit false

namespace SharedRuntime

/-- The results that arrived, in order. -/
def results (ms : List Moment) : List WorkResult := ms.filterMap Moment.result?

/-- How many jobs the states ahead may start. -/
def UpdateState.jobsAhead : UpdateState → Nat
  | .downloading => 2
  | .verifying => 1
  | _ => 0

/-- Does a job begin or end? -/
def Happening.isJob : Happening → Bool
  | .begin _ => true
  | .verified _ _ _ => true
  | .installed _ _ _ => true
  | _ => false

theorem Session.accept_id (s : Session) (r : SessionReport) : (s.accept r).1.id = s.id := by
  unfold accept
  split
  · rfl
  · split
    · rfl
    · dsimp only
      split <;> rfl
    · rfl

namespace Coordinator

variable {c c' : Coordinator} {a : Answers} {m : Incoming} {t : Turn}

/-- How many messages wait. -/
def messages (c : Coordinator) : Nat := c.work.length + c.reports.length + c.actions.length

theorem messages_congr (h : c'.queues = c.queues) : c'.messages = c.messages := by
  show c'.queues.work.length + c'.queues.reports.length + c'.queues.actions.length = _
  rw [h]
  rfl

theorem Next.messages (h : c.Next m c') : c'.messages + 1 = c.messages := by
  cases h with
  | work hw => simp [Coordinator.messages, hw]; omega
  | report hw hr => simp [Coordinator.messages, hr]; omega
  | action hw hr ha => simp [Coordinator.messages, ha]; omega

/-- There is a next message unless none waits. -/
theorem next_of_messages (h : c.messages ≠ 0) : ∃ m c', c.Next m c' := by
  cases hw : c.work with
  | cons r rest => exact ⟨_, _, .work hw⟩
  | nil =>
    cases hr : c.reports with
    | cons r rest => exact ⟨_, _, .report hw hr⟩
    | nil =>
      cases ha : c.actions with
      | cons r rest => exact ⟨_, _, .action hw hr ha⟩
      | nil => simp [messages, hw, hr, ha] at h

theorem processNext_blocked_iff : c.processNext a = .blocked ↔ c.state ≠ .idle ∧ c.messages = 0 := by
  constructor
  · intro h
    have hst : c.state ≠ .idle := by
      intro hidle
      rw [processNext_idle_iff.2 hidle] at h
      cases h
    refine ⟨hst, ?_⟩
    by_contra hmess
    obtain ⟨m, c', hn⟩ := next_of_messages hmess
    rw [hn.processNext hst a] at h
    cases h
  · rintro ⟨hst, hmess⟩
    cases h : c.processNext a with
    | idle => exact absurd (processNext_idle_iff.1 h) hst
    | blocked => rfl
    | handled t =>
      obtain ⟨-, m, c', hn, -⟩ := processNext_handled h
      have hnext := hn.messages
      omega

/-- A message starts no more jobs than the state had ahead of it. -/
theorem Moves.jobsAhead (h : c.Moves m t) :
    t.1.state.jobsAhead + (t.2.filterMap Effect.job?).length ≤ c.state.jobsAhead := by
  have told : ∀ os : List DownloadOutcome,
      (os.flatMap DownloadOutcome.told).filterMap Effect.job? = [] :=
    DownloadOutcome.filterMap_told fun _ => rfl
  cases h with
  | strayReport => exact Nat.le_refl _
  | strayWork => exact Nat.le_refl _
  | strayAction => exact Nat.le_refl _
  | progressed hst =>
    rw [told]
    exact Nat.le_refl _
  | stopped hst =>
    rw [List.filterMap_append, told]
    exact Nat.zero_le _
  | toVerify hst =>
    rw [List.filterMap_append, told, hst]
    exact Nat.le_refl _
  | toInstall hst =>
    rw [List.filterMap_append, told, hst]
    exact Nat.le_succ _
  | approved hst =>
    rw [hst]
    exact Nat.le_refl _
  | rejected => exact Nat.zero_le _
  | installed => exact Nat.zero_le _
  | cancelling =>
    rw [c.filterMap_cancelSession fun _ => rfl]
    exact Nat.le_refl _

/-- A download that runs after a message ran before it. -/
theorem Moves.downloading (h : c.Moves m t) (hst : t.1.state = .downloading) :
    c.state = .downloading ∧ t.1.session.map Session.id = c.session.map Session.id := by
  cases h with
  | strayReport => exact ⟨hst, rfl⟩
  | strayWork => exact ⟨hst, rfl⟩
  | strayAction => exact ⟨hst, rfl⟩
  | cancelling => exact ⟨hst, rfl⟩
  | @progressed r s _ hse hid ho =>
    refine ⟨hst, ?_⟩
    rw [hse]
    exact congrArg some (s.accept_id r)
  | _ => cases hst

end Coordinator

namespace Life

variable {l l' l'' : Life} {setup : Setup}

/-! ## The order in which messages are taken -/

/-- Each message was the first of its kind to wait, and no message of a kind that comes before it
waited. -/
def InOrder (record : List Moment) : Prop :=
  ∀ past m later, record = past ++ .taken m :: later →
    match m with
    | .work r => ∃ rest, results past = worked past ++ r :: rest
    | .report r => results past = worked past ∧ ∃ rest, arrived past = heeded past ++ r :: rest
    | .action r => results past = worked past ∧ arrived past = heeded past ∧
        ∃ rest, made past = served past ++ r :: rest

theorem inOrder_run (h : l.Reached setup) : InOrder l.record := by
  refine h.invariant (P := fun l => InOrder l.record) (fun past m later hrec => ?_)
    fun l x l' hreach hl hx past m later hrec => ?_
  · simp [new] at hrec
  have hwork : results l.record = worked l.record ++ l.coordinator.work := fifo_work.run hreach
  have hreports := reports_run hreach
  have hactions : made l.record = served l.record ++ l.coordinator.actions :=
    fifo_actions.run hreach
  cases step_goes hx with
  | still => exact hl past m later hrec
  | @heard m' c waiting running hm =>
    obtain ⟨rest, hrest⟩ := split_of_append hrec fun hmem => by
      rw [← List.mem_singleton.1 hmem] at hm
      cases hm
    exact hl past m rest hrest
  | called =>
    obtain ⟨rest, hrest⟩ := split_of_append hrec (by simp)
    exact hl past m rest hrest
  | cancelled =>
    obtain ⟨rest, hrest⟩ := split_of_append hrec (by simp)
    exact hl past m rest hrest
  | @took a m' c _ hn =>
    have hrec' : l.record ++ [.taken m'] ++ (c.handle a m').2.map .asked =
        past ++ .taken m :: later := by
      rw [← hrec]
      exact (List.append_cons ..).symm
    obtain ⟨rest, hrest⟩ := split_of_append hrec' (by simp)
    rcases split_of_concat hrest with ⟨hm, rfl⟩ | ⟨rest', hrest'⟩
    · -- The message is the one of this step: it stood at the head of the queues.
      cases hm
      cases hn with
      | work hw => exact ⟨_, hw ▸ hwork⟩
      | report hw hr => exact ⟨by rw [hwork, hw, List.append_nil], _, hr ▸ hreports⟩
      | action hw hr ha =>
        exact ⟨by rw [hwork, hw, List.append_nil], by rw [hreports, hr, List.append_nil], _,
          ha ▸ hactions⟩
    · exact hl past m rest' hrest'

/-! ## What draining uses up -/

/-- One step of draining: a message is taken, or a job goes on. -/
inductive Advances (l : Life) : Bool → Life → Prop
  | takes {a : Answers} {t : Turn} {l' : Life} : l.coordinator.processNext a = .handled t →
      l.step (.process a) = some l' → Advances l true l'
  | works {x : Happening} {l' : Life} : x.isJob = true → l.step x = some l' → Advances l false l'

/-- Draining, with the number of messages that are taken and of the steps of jobs. -/
inductive Drains (l : Life) : Nat → Nat → Life → Prop
  | here : Drains l 0 0 l
  | takes {n k : Nat} {l' l'' : Life} : Drains l n k l' → l'.Advances true l'' →
      Drains l (n + 1) k l''
  | works {n k : Nat} {l' l'' : Life} : Drains l n k l' → l'.Advances false l'' →
      Drains l n (k + 1) l''

/-- The messages that wait or may still arrive. -/
def room (l : Life) : Nat :=
  l.coordinator.messages + l.waiting.length + l.running.length + l.coordinator.state.jobsAhead

/-- The steps that jobs have left. -/
def effort (l : Life) : Nat :=
  2 * l.waiting.length + l.running.length + 2 * l.coordinator.state.jobsAhead

theorem Advances.reached (h : l.Reached setup) {b : Bool} (ha : l.Advances b l') :
    l'.Reached setup := by
  cases ha with
  | takes _ hl => exact h.step hl
  | works _ hl => exact h.step hl

theorem Drains.reached (h : l.Reached setup) {n k : Nat} (hd : l.Drains n k l') :
    l'.Reached setup := by
  induction hd with
  | here => exact h
  | takes _ ha ih => exact ha.reached ih
  | works _ ha ih => exact ha.reached ih

/-- A message that is taken is the next one. -/
theorem Advances.took (h : l.Advances true l') : ∃ a m c, l.coordinator.state ≠ .idle ∧
    l.coordinator.Next m c ∧ l' = l.turn (.taken m) (c.handle a m) := by
  cases h with
  | takes hp hl =>
    obtain ⟨hst, m, c, hn, -⟩ := Coordinator.processNext_handled hp
    rw [step_taken hst hn] at hl
    exact ⟨_, m, c, hst, hn, (Option.some.inj hl).symm⟩

/-- A job that goes on begins, or ends with its result. -/
theorem Advances.worked (h : l.Advances false l') :
    (∃ j ∈ l.waiting, l' = { l with waiting := l.waiting.erase j,
                                    running := l.running ++ [j] }.note (.began j)) ∨
    ∃ j ∈ l.running, ∃ r,
      l' = { l with coordinator := l.coordinator.receiveWork r,
                    running := l.running.erase j }.note (.finished j r) := by
  have finish : ∀ {j : Job} {r : WorkResult}, l.finish j r = some l' → ∃ j ∈ l.running, ∃ r,
      l' = { l with coordinator := l.coordinator.receiveWork r,
                    running := l.running.erase j }.note (.finished j r) := by
    intro j r hl
    unfold Life.finish at hl
    split at hl
    · rename_i hj
      exact ⟨j, hj, r, (Option.some.inj hl).symm⟩
    · cases hl
  cases h with
  | @works x _ hx hl =>
    cases x with
    | begin j =>
      unfold step at hl
      dsimp only at hl
      split at hl
      · rename_i hj
        exact .inl ⟨j, hj, (Option.some.inj hl).symm⟩
      · cases hl
    | verified p found trusted => exact .inr (finish hl)
    | installed p d r => exact .inr (finish hl)
    | _ => cases hx

/-- A message that is taken uses up room and no effort; a job that goes on uses up effort and no
room. -/
theorem Advances.spends (hk : l.Kept setup) {b : Bool} (h : l.Advances b l') :
    l'.room + b.toNat ≤ l.room ∧ l'.effort + (!b).toNat ≤ l.effort := by
  cases b with
  | true =>
    obtain ⟨a, m, c, -, hn, rfl⟩ := h.took
    have hb : c.setup.presentation = .background := by rw [hn.setup, hk.isBackground]
    have hjobs := (Coordinator.handle_moves hb (hk.standing.next hn) a m).jobsAhead
    have hmess : (c.handle a m).1.messages = c.messages :=
      Coordinator.messages_congr (c.handle_queues a m)
    have hnext := hn.messages
    have hst : c.state = l.coordinator.state := by cases hn <;> rfl
    rw [hst] at hjobs
    simp only [room, effort, Life.turn, List.length_append, Bool.toNat_true, Bool.not_true,
      Bool.toNat_false]
    omega
  | false =>
    rcases h.worked with ⟨j, hj, rfl⟩ | ⟨j, hj, r, rfl⟩
    · have hlen := List.length_erase_of_mem hj
      have hpos := List.length_pos_of_mem hj
      simp only [room, effort, Life.note, List.length_append, List.length_singleton,
        Bool.toNat_true, Bool.not_false, Bool.toNat_false]
      omega
    · have hlen := List.length_erase_of_mem hj
      have hpos := List.length_pos_of_mem hj
      simp only [room, effort, Life.note, Coordinator.receiveWork, Coordinator.messages,
        List.length_append, List.length_singleton, Bool.toNat_true, Bool.not_false,
        Bool.toNat_false]
      omega

theorem Drains.spends (hb : setup.presentation = .background) (h : l.Reached setup) {n k : Nat}
    (hd : l.Drains n k l') : l'.room + n ≤ l.room ∧ l'.effort + k ≤ l.effort := by
  induction hd with
  | here => exact ⟨Nat.le_refl _, Nat.le_refl _⟩
  | takes hd ha ih =>
    obtain ⟨hs, hr⟩ := hd.reached h
    have hspent := ha.spends (kept_run hb hr)
    simp only [Bool.toNat_true, Bool.not_true, Bool.toNat_false] at hspent
    omega
  | works hd ha ih =>
    obtain ⟨hs, hr⟩ := hd.reached h
    have hspent := ha.spends (kept_run hb hr)
    simp only [Bool.toNat_true, Bool.not_false, Bool.toNat_false] at hspent
    omega

/-- At most two messages are still to arrive, and two jobs are still to go on. -/
theorem Coherent.bounds (h : l.Coherent) :
    l.room ≤ l.coordinator.messages + 2 ∧ l.effort ≤ 4 := by
  have pending : ∀ {j : Job}, l.Pending j →
      l.waiting.length + l.running.length ≤ 1 ∧ 2 * l.waiting.length + l.running.length ≤ 2 := by
    intro j hp
    cases hp with
    | waits hw hr => simp [hw, hr]
    | runs hw hr => simp [hw, hr]
    | done _ _ hw hr => simp [hw, hr]
  by_cases hv : l.coordinator.state = .verifying
  · obtain ⟨p, hp⟩ := h.verifying hv
    have hjobs := pending hp
    simp only [room, effort, hv, UpdateState.jobsAhead]
    omega
  · by_cases hi : l.coordinator.state = .installing
    · obtain ⟨p, d, hp⟩ := h.installing hi
      have hjobs := pending hp
      simp only [room, effort, hi, UpdateState.jobsAhead]
      omega
    · have hr := h.resting hv hi
      have hahead : l.coordinator.state.jobsAhead ≤ 2 := by
        cases l.coordinator.state <;> simp [UpdateState.jobsAhead]
      simp only [room, effort, hr.waiting, hr.running, List.length_nil]
      omega

/-! ## Nothing waits in vain -/

/-- If a download runs, an end of it waits in the queue. -/
def Ripe (l : Life) : Prop :=
  l.coordinator.state = .downloading → ∃ r ∈ l.coordinator.reports,
    l.coordinator.session.map Session.id = some r.session ∧ r.outcome.isTerminal = true

theorem Ripe.step (h : l.Ripe) (hk : l.Kept setup) {b : Bool} (ha : l.Advances b l') :
    l'.Ripe := by
  cases b with
  | false =>
    rcases ha.worked with ⟨j, -, rfl⟩ | ⟨j, -, r, rfl⟩
    · exact h
    · exact h
  | true =>
    -- A turn may take the end of the transfer only if the download is over then.
    obtain ⟨a, m, c, -, hn, rfl⟩ := ha.took
    intro hst
    have hb : c.setup.presentation = .background := by rw [hn.setup, hk.isBackground]
    have hmoves := Coordinator.handle_moves hb (hk.standing.next hn) a m
    obtain ⟨hbefore, hid⟩ := hmoves.downloading hst
    have hcst : c.state = l.coordinator.state := by cases hn <;> rfl
    have hcse : c.session = l.coordinator.session := by cases hn <;> rfl
    obtain ⟨r, hr, hrid, hro⟩ := h (hcst ▸ hbefore)
    have hid' : (c.handle a m).1.session.map Session.id = some r.session := by
      rw [hid, hcse, hrid]
    refine ⟨r, ?_, hid', hro⟩
    show r ∈ (c.handle a m).1.reports
    rw [c.handle_reports a m]
    cases hn with
    | work => exact hr
    | action => exact hr
    | @report r' rest _ hreports =>
      rw [hreports] at hr
      rcases List.mem_cons.1 hr with rfl | hr
      · -- Had the end been taken, the download would be over.
        have hland := hmoves.lands rfl hrid hro
        rw [hland] at hid'
        cases hid'
      · exact hr

theorem Ripe.drains (hb : setup.presentation = .background) (hr : l.Reached setup) (h : l.Ripe)
    {n k : Nat} (hd : l.Drains n k l') : l'.Ripe := by
  induction hd with
  | here => exact h
  | takes hd ha ih =>
    obtain ⟨hs, hr'⟩ := hd.reached hr
    exact ih.step (kept_run hb hr') ha
  | works hd ha ih =>
    obtain ⟨hs, hr'⟩ := hd.reached hr
    exact ih.step (kept_run hb hr') ha

/-- A job whose result does not wait yet can go on. -/
theorem Pending.advances {j : Job} (h : l.Pending j) (hwork : l.coordinator.work = []) :
    ∃ l', l.Advances false l' := by
  cases h with
  | done r _ _ _ hw =>
    rw [hwork] at hw
    cases hw
  | waits hw =>
    exact ⟨_, .works (x := .begin j) rfl (if_pos (by simp [hw]))⟩
  | runs _ hr =>
    cases j with
    | verify p =>
      exact ⟨_, .works (x := .verified p (.ok []) (.ok [])) rfl (if_pos (by simp [hr]))⟩
    | install p d =>
      exact ⟨_, .works (x := .installed p d (.ok ())) rfl (if_pos (by simp [hr]))⟩

/-- A coordinator that is not idle can take a message, or a job can go on. -/
theorem Ripe.advances (h : l.Ripe) (hk : l.Kept setup) (hst : l.coordinator.state ≠ .idle) :
    ∃ b l', l.Advances b l' := by
  by_cases hmess : l.coordinator.messages = 0
  · have hwork : l.coordinator.work = [] := by
      apply List.length_eq_zero_iff.1
      unfold Coordinator.messages at hmess
      omega
    have hreports : l.coordinator.reports = [] := by
      apply List.length_eq_zero_iff.1
      unfold Coordinator.messages at hmess
      omega
    have hc := hk.coherent
    cases hk.standing with
    | idle hi => exact absurd hi hst
    | downloading s q hd =>
      obtain ⟨r, hr, -⟩ := h hd
      rw [hreports] at hr
      cases hr
    | verifying p q hv =>
      obtain ⟨p', hp⟩ := hc.verifying hv
      obtain ⟨l', hl'⟩ := hp.advances hwork
      exact ⟨false, l', hl'⟩
    | installing p q hi =>
      obtain ⟨p', d, hp⟩ := hc.installing hi
      obtain ⟨l', hl'⟩ := hp.advances hwork
      exact ⟨false, l', hl'⟩
  · obtain ⟨m, c, hn⟩ := Coordinator.next_of_messages hmess
    exact ⟨true, _, .takes (hn.processNext hst plainAnswers) (step_taken hst hn plainAnswers)⟩

/-- While it is idle nothing goes on. -/
theorem Coherent.not_advances (h : l.Coherent) (hst : l.coordinator.state = .idle) {b : Bool} :
    ¬ l.Advances b l' := by
  intro ha
  cases b with
  | true =>
    obtain ⟨_, _, _, hne, -⟩ := ha.took
    exact hne hst
  | false =>
    have hr := h.resting (by simp [hst]) (by simp [hst])
    rcases ha.worked with ⟨j, hj, -⟩ | ⟨j, hj, -⟩
    · rw [hr.waiting] at hj
      cases hj
    · rw [hr.running] at hj
      cases hj

/-- Draining can go on until the coordinator is idle. -/
theorem Ripe.exists_idle (hb : setup.presentation = .background) (hr : l.Reached setup)
    (h : l.Ripe) : ∃ n k l', l.Drains n k l' ∧ l'.coordinator.state = .idle := by
  -- Each step spends room or effort, so the induction is on what is left of both.
  have finish : ∀ left l' n k, l.Drains n k l' → l'.room + l'.effort = left →
      ∃ n k l', l.Drains n k l' ∧ l'.coordinator.state = .idle := by
    intro left
    induction left using Nat.strongRecOn with
    | _ left ih =>
      intro l' n k hd hleft
      by_cases hst : l'.coordinator.state = .idle
      · exact ⟨n, k, l', hd, hst⟩
      · obtain ⟨hs, hr'⟩ := hd.reached hr
        have hk := kept_run hb hr'
        obtain ⟨b, l'', ha⟩ := (h.drains hb hr hd).advances hk hst
        have hspent := ha.spends hk
        cases b with
        | true =>
          simp only [Bool.toNat_true, Bool.not_true, Bool.toNat_false] at hspent
          exact ih _ (by omega) l'' _ _ (hd.takes ha) rfl
        | false =>
          simp only [Bool.toNat_true, Bool.not_false, Bool.toNat_false] at hspent
          exact ih _ (by omega) l'' _ _ (hd.works ha) rfl
  exact finish _ l 0 0 .here rfl

/-- What one call does: nothing while the coordinator is idle, and only then; else it takes one
message, if one waits. -/
structure TakesOne (l : Life) : Prop where
  idle : ∀ a, l.coordinator.processNext a = .idle ↔ l.coordinator.state = .idle
  unchanged : l.coordinator.state = .idle → ∀ a, l.step (.process a) = some l
  one : ∀ a t, l.coordinator.processNext a = .handled t → ∃ l', l.step (.process a) = some l' ∧
    l'.coordinator = t.1 ∧ l'.coordinator.messages + 1 = l.coordinator.messages
  blocked : ∀ a, l.coordinator.processNext a = .blocked ↔
    l.coordinator.state ≠ .idle ∧ l.coordinator.messages = 0

theorem takesOne (l : Life) : l.TakesOne where
  idle _ := Coordinator.processNext_idle_iff
  unchanged hst a := step_waits (.inl hst) a
  one a t ht := by
    obtain ⟨hst, m, c, hn, rfl⟩ := Coordinator.processNext_handled ht
    refine ⟨_, step_taken hst hn a, rfl, ?_⟩
    have hmess := Coordinator.messages_congr (c.handle_queues a m)
    exact (congrArg (· + 1) hmess).trans hn.messages
  blocked _ := Coordinator.processNext_blocked_iff

/-- In every run in the background messages are taken in their order, one with each call, and none
while the coordinator is idle. Where no download runs, or an end of the live session waits in the
queue, the messages are drained: however the jobs go on meanwhile, at most two more are taken than
wait, the steps of jobs are at most four, and the coordinator is idle as soon as nothing can go on,
and not before. -/
theorem run_drains (hb : setup.presentation = .background) {hs : List Happening}
    (hr : (new setup).run hs = some l) :
    InOrder l.record ∧ l.TakesOne ∧
      ((l.coordinator.state = .downloading → ∃ r ∈ l.coordinator.reports,
          Live l.record r.session ∧ r.outcome.isTerminal = true) →
        (∃ n k l', l.Drains n k l' ∧ l'.coordinator.state = .idle) ∧
        ∀ n k l', l.Drains n k l' → n ≤ l.coordinator.messages + 2 ∧ k ≤ 4 ∧ l'.TakesOne ∧
          (l'.coordinator.state = .idle ↔ ∀ b l'', ¬ l'.Advances b l'')) := by
  have h : l.Reached setup := ⟨hs, hr⟩
  refine ⟨inOrder_run h, l.takesOne, fun hend => ?_⟩
  have hripe : l.Ripe := by
    intro hst
    obtain ⟨r, hmem, hlive, ho⟩ := hend hst
    exact ⟨r, hmem, (live_iff hr).1 hlive, ho⟩
  refine ⟨hripe.exists_idle hb h, fun n k l' hd => ?_⟩
  have hbounds := (kept_run hb hr).coherent.bounds
  have hspent := hd.spends hb h
  obtain ⟨hs', hr'⟩ := hd.reached h
  have hk := kept_run hb hr'
  refine ⟨by omega, by omega, l'.takesOne, fun hst b l'' => hk.coherent.not_advances hst, ?_⟩
  -- Whoever is not idle has a message or a job, and so could advance.
  intro hstuck
  by_contra hst
  obtain ⟨b, l'', ha⟩ := (hripe.drains hb h hd).advances hk hst
  exact hstuck b l'' ha

/-- A download whose end waits behind a stray report, with a choice behind it. -/
def ripeRun : List Happening :=
  [.overrideUrl "http://host/runtime", .attempt plainAnswers, .report ⟨7, .started⟩,
    .report ⟨1, .completed [3]⟩, .choose ⟨1, .accept⟩]

theorem run_drains_ripe : ∃ l, (new plainSetup).run ripeRun = some l ∧
    l.coordinator.state = .downloading ∧ l.coordinator.messages = 3 ∧
    (∃ n k l', l.Drains n k l' ∧ l'.coordinator.state = .idle ∧ n ≤ 5) := by
  have hr : (new plainSetup).run ripeRun = some _ := rfl
  obtain ⟨-, -, hdrains⟩ := run_drains rfl hr
  obtain ⟨⟨n, k, l', hd, hidle⟩, hall⟩ := hdrains fun _ =>
    ⟨⟨1, .completed [3]⟩, by decide, (live_iff hr).2 rfl, rfl⟩
  exact ⟨_, hr, rfl, rfl, n, k, l', hd, hidle, (hall n k l' hd).1⟩

end Life

end SharedRuntime
