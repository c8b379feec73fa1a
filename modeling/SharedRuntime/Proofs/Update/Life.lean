import SharedRuntime.Update.Coordinator

/-!
# The life of a coordinator

A coordinator holds still between two calls, while transfers report, users choose and jobs run
beside it. A `Life` is a coordinator with the jobs that it started and the record of all that
happened so far. `Life.step` says what one `Happening` leads to, `Life.run` a list of them: calls,
reports of any session, choices of any attempt and jobs come in any order. A job begins only after
it was started and ends only after it began; what it comes to is arbitrary.

`currentAttempt` cuts the record at the last accepted call, and `Life.run_invariant` is the
induction over a run.
-/

set_option autoImplicit false

namespace SharedRuntime

/-- Work beside the coordinator. A verification asks the identity provider, an installation the
archive probe. -/
inductive Job
  | verify (artifact : Path)
  | install (artifact destination : Path)
  deriving DecidableEq

/-- The job that an effect starts. -/
def Effect.job? : Effect → Option Job
  | .verify p => some (.verify p)
  | .install p d => some (.install p d)
  | _ => none

/-- What can happen to a coordinator. -/
inductive Happening
  | attempt (answers : Answers)
  | cancel (answers : Answers)
  | overrideUrl (url : String)
  /-- The source of the metadata has others from now on. -/
  | configure (metadata : Metadata)
  /-- The next message is taken. -/
  | process (answers : Answers)
  | report (r : SessionReport)
  | choose (r : ActionReport)
  | begin (job : Job)
  /-- A verification ends with what the identity provider says of the artifact and the host. -/
  | verified (artifact : Path) (found trusted : Except IdentityFault (List Identity))
  | installed (artifact destination : Path) (result : Except UpdateError Unit)

/-- What a record notes. -/
inductive Moment
  | attempted (accepted : Bool)
  | cancelled (heeded : Bool)
  | overridden (url : String)
  | configured (metadata : Metadata)
  | reported (r : SessionReport)
  | chose (r : ActionReport)
  | taken (m : Incoming)
  | asked (e : Effect)
  | began (job : Job)
  | finished (job : Job) (r : WorkResult)

/-- A coordinator with its jobs and the record. -/
structure Life where
  coordinator : Coordinator
  /-- The jobs that were started and did not begin yet. -/
  waiting : List Job
  running : List Job
  record : List Moment

/-- The message at the head of the queues, and the coordinator without it. -/
inductive Coordinator.Next (c : Coordinator) : Incoming → Coordinator → Prop
  | work {r : WorkResult} {rest : List WorkResult} : c.work = r :: rest →
      Next c (.work r) { c with work := rest }
  | report {r : SessionReport} {rest : List SessionReport} : c.work = [] → c.reports = r :: rest →
      Next c (.report r) { c with reports := rest }
  | action {r : ActionReport} {rest : List ActionReport} : c.work = [] → c.reports = [] →
      c.actions = r :: rest → Next c (.action r) { c with actions := rest }

theorem Coordinator.next_of_nextIncoming? {c c' : Coordinator} {m : Incoming}
    (h : c.nextIncoming? = some (m, c')) : Next c m c' := by
  unfold nextIncoming? at h
  split at h
  · rename_i hw
    cases h
    exact .work hw
  · rename_i hw hr
    cases h
    exact .report hw hr
  · rename_i hw hr ha
    cases h
    exact .action hw hr ha
  · cases h

theorem Coordinator.Next.nextIncoming? {c c' : Coordinator} {m : Incoming} (h : c.Next m c') :
    c.nextIncoming? = some (m, c') := by
  cases h <;> simp [Coordinator.nextIncoming?, *]

theorem Coordinator.processNext_idle_iff {c : Coordinator} {a : Answers} :
    c.processNext a = .idle ↔ c.state = .idle := by
  unfold processNext
  cases c.state <;> cases c.nextIncoming? <;> simp [UpdateState.isIdle]

/-- A message that is handled is the next one of a coordinator that is not idle. -/
theorem Coordinator.processNext_handled {c : Coordinator} {a : Answers} {t : Turn}
    (h : c.processNext a = .handled t) :
    c.state ≠ .idle ∧ ∃ m c', c.Next m c' ∧ t = c'.handle a m := by
  have hst : c.state ≠ .idle := by
    intro hidle
    rw [processNext_idle_iff.2 hidle] at h
    cases h
  unfold processNext at h
  split at h
  · cases h
  · cases hn : c.nextIncoming? with
    | none =>
      rw [hn] at h
      cases h
    | some x =>
      rw [hn] at h
      cases h
      exact ⟨hst, x.1, x.2, next_of_nextIncoming? hn, rfl⟩

/-- A coordinator that is not idle handles the next message. -/
theorem Coordinator.Next.processNext {c c' : Coordinator} {m : Incoming} (h : c.Next m c')
    (hst : c.state ≠ .idle) (a : Answers) : c.processNext a = .handled (c'.handle a m) := by
  have hidle : c.state.isIdle = false := by
    cases hs : c.state <;> simp_all [UpdateState.isIdle]
  simp [Coordinator.processNext, hidle, h.nextIncoming?]

namespace Life

/-- A coordinator before its first call. -/
def new (setup : Setup) : Life := ⟨.new setup, [], [], []⟩

/-- Notes a moment. -/
def note (l : Life) (m : Moment) : Life := { l with record := l.record ++ [m] }

/-- Goes on with a turn of the coordinator: the jobs among the effects start. -/
def turn (l : Life) (first : Moment) (t : Turn) : Life :=
  { l with coordinator := t.1, waiting := l.waiting ++ t.2.filterMap Effect.job?,
           record := l.record ++ first :: t.2.map .asked }

/-- A job ends, and its result goes to the coordinator. -/
def finish (l : Life) (job : Job) (r : WorkResult) : Option Life :=
  if job ∈ l.running then
    some ({ l with coordinator := l.coordinator.receiveWork r,
                   running := l.running.erase job }.note (.finished job r))
  else none

/-- What a happening leads to; none if it cannot happen. -/
def step (l : Life) : Happening → Option Life
  | .attempt a =>
    let (accepted, t) := l.coordinator.attemptUpdate a
    some (l.turn (.attempted accepted) t)
  | .cancel a =>
    let (heeded, t) := l.coordinator.cancelBackgroundUpdate a
    some (l.turn (.cancelled heeded) t)
  | .overrideUrl url =>
    some ({ l with coordinator := l.coordinator.overrideUrl url }.note (.overridden url))
  | .configure m =>
    let c := { l.coordinator with setup := { l.coordinator.setup with metadata := m } }
    some ({ l with coordinator := c }.note (.configured m))
  | .process a =>
    match l.coordinator.processNext a, l.coordinator.nextIncoming? with
    | .handled t, some (m, _) => some (l.turn (.taken m) t)
    | _, _ => some l
  | .report r => some ({ l with coordinator := l.coordinator.receiveReport r }.note (.reported r))
  | .choose r => some ({ l with coordinator := l.coordinator.receiveAction r }.note (.chose r))
  | .begin job =>
    if job ∈ l.waiting then
      some ({ l with waiting := l.waiting.erase job,
                     running := l.running ++ [job] }.note (.began job))
    else none
  | .verified p found trusted => l.finish (.verify p) (.verified (verdict found trusted))
  | .installed p d r => l.finish (.install p d) (.installed r)

/-- What happenings lead to, one after the other. -/
def run : List Happening → Life → Option Life
  | [], l => some l
  | h :: hs, l => (l.step h).bind (run hs)

/-- What holds at the start and is kept by every step holds after every run. -/
theorem run_invariant {P : Life → Prop} (hstep : ∀ l h l', P l → l.step h = some l' → P l') :
    ∀ {hs : List Happening} {l l' : Life}, P l → l.run hs = some l' → P l'
  | [], l, l', hl, hr => by
    cases hr
    exact hl
  | h :: hs, l, l', hl, hr => by
    obtain ⟨m, hm, hr⟩ := Option.bind_eq_some_iff.1 hr
    exact run_invariant hstep (hstep l h m hl hm) hr

/-- A message that is taken is the next one of a coordinator that is not idle. -/
theorem step_process {l l' : Life} {a : Answers} (h : l.step (.process a) = some l') :
    l' = l ∨ ∃ m c, l.coordinator.state ≠ .idle ∧ l.coordinator.Next m c ∧
      l' = l.turn (.taken m) (c.handle a m) := by
  unfold step at h
  dsimp only at h
  cases hp : l.coordinator.processNext a with
  | idle =>
    rw [hp] at h
    exact .inl (Option.some.inj h).symm
  | blocked =>
    rw [hp] at h
    exact .inl (Option.some.inj h).symm
  | handled t =>
    obtain ⟨hst, m, c, hn, rfl⟩ := Coordinator.processNext_handled hp
    rw [hp, hn.nextIncoming?] at h
    exact .inr ⟨m, c, hst, hn, (Option.some.inj h).symm⟩

/-- A coordinator that is not idle takes the next message. -/
theorem step_taken {l : Life} (hst : l.coordinator.state ≠ .idle) {m : Incoming} {c : Coordinator}
    (hn : l.coordinator.Next m c) (a : Answers) :
    l.step (.process a) = some (l.turn (.taken m) (c.handle a m)) := by
  simp [Life.step, hn.processNext hst, hn.nextIncoming?]

/-- Nothing happens if it is idle or no message waits. -/
theorem step_waits {l : Life}
    (h : l.coordinator.state = .idle ∨ l.coordinator.nextIncoming? = none) (a : Answers) :
    l.step (.process a) = some l := by
  unfold step Coordinator.processNext
  dsimp only
  rcases h with h | h
  · rw [h]
    rfl
  · rw [h]
    split <;> simp_all

end Life

/-! ## The record -/

namespace Moment

/-- Does an attempt begin? -/
def opens : Moment → Bool
  | attempted accepted => accepted
  | _ => false

end Moment

/-- The moments of the attempt that runs, or ran last: those since the last accepted call. -/
def currentAttempt (record : List Moment) : List Moment :=
  record.foldl (fun att m => if m.opens then [] else att ++ [m]) []

theorem currentAttempt_concat (record : List Moment) (m : Moment) :
    currentAttempt (record ++ [m]) = if m.opens then [] else currentAttempt record ++ [m] := by
  simp [currentAttempt]

theorem currentAttempt_append {record ms : List Moment} (h : ∀ m ∈ ms, m.opens = false) :
    currentAttempt (record ++ ms) = currentAttempt record ++ ms := by
  induction ms generalizing record with
  | nil => simp
  | cons m ms ih =>
    rw [List.append_cons, ih fun x hx => h x (List.mem_cons_of_mem _ hx), currentAttempt_concat,
      h m List.mem_cons_self]
    simp

theorem currentAttempt_opened {record ms : List Moment} (h : ∀ m ∈ ms, m.opens = false) :
    currentAttempt (record ++ .attempted true :: ms) = ms := by
  rw [List.append_cons, currentAttempt_append h, currentAttempt_concat]
  rfl

/-- Effects open no attempt. -/
theorem opens_asked {es : List Effect} : ∀ m ∈ es.map Moment.asked, m.opens = false := by
  intro m hm
  obtain ⟨e, -, rfl⟩ := List.mem_map.1 hm
  rfl

/-- The metadata that the source has from a moment on. -/
def Moment.metadata? : Moment → Option Metadata
  | configured m => some m
  | _ => none

/-- The metadata after what a record notes. -/
def metadataAfter (m : Metadata) (record : List Moment) : Metadata :=
  record.foldl (fun m x => x.metadata?.getD m) m

theorem metadataAfter_append (m : Metadata) (r s : List Moment) :
    metadataAfter m (r ++ s) = metadataAfter (metadataAfter m r) s := by
  simp [metadataAfter]

theorem metadataAfter_eq {m : Metadata} {ms : List Moment} (h : ∀ x ∈ ms, x.metadata? = none) :
    metadataAfter m ms = m := by
  induction ms with
  | nil => rfl
  | cons x ms ih =>
    unfold metadataAfter
    rw [List.foldl_cons, h x List.mem_cons_self]
    exact ih fun y hy => h y (List.mem_cons_of_mem _ hy)

theorem metadata?_asked {es : List Effect} : ∀ m ∈ es.map Moment.asked, m.metadata? = none := by
  intro m hm
  obtain ⟨e, -, rfl⟩ := List.mem_map.1 hm
  rfl

end SharedRuntime
