import SharedRuntime.Proofs.Update.Attempts
import SharedRuntime.Proofs.Update.Phase

/-!
# What the listener is told

In the background the events split into one block for each accepted call. Without an address the
block is one failure and the transport is left alone; with one it begins with the start, goes on
with rising percentages and closes with an end, or stops on the way (`Attempt.Streams`).

`Session.Passed` links a session to the events that it let through, whatever was reported, and
`Current` the coordinator to the attempt that runs or ran last. `Reported` says it of a life.
-/

set_option autoImplicit false

namespace SharedRuntime

/-! ## Events -/

def Effect.event? : Effect → Option UpdateEvent
  | .tell e => some e
  | _ => none

def Moment.event? : Moment → Option UpdateEvent
  | asked e => e.event?
  | _ => none

/-- What the listener was told, in order. -/
def told (ms : List Moment) : List UpdateEvent := ms.filterMap Moment.event?

/-- Is the transport asked for something? -/
def Effect.isTransport : Effect → Bool
  | .startDownload _ _ => true
  | .cancelDownload _ => true
  | _ => false

/-- Does an attempt end with the event? -/
def UpdateEvent.isEnd : UpdateEvent → Bool
  | cancelled => true
  | failed _ => true
  | completed => true
  | _ => false

/-- How an attempt without an address ends. -/
def UpdateOutcome.unconfigured : UpdateOutcome :=
  .failed (.configuration "download URL is not configured")

/-- Percentages that rise and are at most a hundred. -/
def Rising (ps : List UInt8) : Prop := ps.Pairwise (· < ·) ∧ ∀ p ∈ ps, p ≤ 100

/-- The events of a download up to its end. -/
def opened (ps : List UInt8) : List UpdateEvent := .started :: ps.map .progress

/-- A part of the events from a start to an end, from the first one on. -/
def IsStream (es : List UpdateEvent) : Prop :=
  ∃ ps e, Rising ps ∧ e.isEnd = true ∧ es <+: opened ps ++ [e]

theorem told_append (ms ms' : List Moment) : told (ms ++ ms') = told ms ++ told ms' := by
  simp [told]

/-- What a turn tells is what its effects do. -/
theorem told_turn (ms : List Moment) {first : Moment} (hf : first.event? = none)
    (es : List Effect) :
    told (ms ++ first :: es.map .asked) = told ms ++ es.filterMap Effect.event? := by
  have htail : told (first :: es.map .asked) = es.filterMap Effect.event? := by
    rw [told, List.filterMap_cons_none hf, List.filterMap_map]
    rfl
  rw [told_append, htail]

theorem UpdateOutcome.isEnd_event (o : UpdateOutcome) : o.event.isEnd = true := by
  cases o <;> rfl

theorem not_isEnd_opened (ps : List UInt8) : ∀ e ∈ opened ps, e.isEnd = false := by
  intro e he
  rcases List.mem_cons.1 he with rfl | he
  · rfl
  · obtain ⟨p, -, rfl⟩ := List.mem_map.1 he
    rfl

theorem Rising.concat {ps : List UInt8} (h : Rising ps) {p : UInt8} (hp : p ≤ 100)
    (hlast : ps.getLast?.all (· < p) = true) : Rising (ps ++ [p]) := by
  have below : ∀ q ∈ ps, q < p := by
    rcases List.eq_nil_or_concat ps with rfl | ⟨init, last, hps⟩
    · intro q hq
      cases hq
    · obtain rfl : ps = init ++ [last] := by rw [hps, List.concat_eq_append]
      have hlt : last < p := by simpa using hlast
      intro q hq
      rcases List.mem_append.1 hq with hq | hq
      · have hq' := (List.pairwise_append.1 h.1).2.2 q hq last (List.mem_singleton_self _)
        exact UInt8.lt_trans hq' hlt
      · obtain rfl := List.mem_singleton.1 hq
        exact hlt
  refine ⟨List.pairwise_append.2 ⟨h.1, List.pairwise_singleton _ _, ?_⟩, fun q hq => ?_⟩
  · intro q hq x hx
    obtain rfl := List.mem_singleton.1 hx
    exact below q hq
  · rcases List.mem_append.1 hq with hq | hq
    · exact h.2 q hq
    · obtain rfl := List.mem_singleton.1 hq
      exact hp

/-! ## Sessions -/

namespace Session

/-- What was told of a session that is open. -/
inductive Passed (s : Session) : List UpdateEvent → Prop
  | fresh (phase : s.phase = .notStarted) (percent : s.percent = none) : Passed s []
  | begun (ps : List UInt8) (phase : s.phase = .started) (percent : s.percent = ps.getLast?)
      (rising : Rising ps) : Passed s (opened ps)

variable {s : Session} {es : List UpdateEvent}

/-- Once the start was told as well, the events are those of a download. -/
theorem Passed.opening (h : s.Passed es) : ∃ ps, Rising ps ∧ s.percent = ps.getLast? ∧
    es ++ (s.opening.flatMap DownloadOutcome.told).filterMap Effect.event? = opened ps := by
  cases h with
  | fresh hph hpc => exact ⟨[], ⟨.nil, by simp⟩, hpc, by simp [Session.opening, hph]; rfl⟩
  | begun ps hph hpc hr => exact ⟨ps, hr, hpc, by simp [Session.opening, hph]⟩

theorem min_percentLimit_le (p : UInt8) : min p percentLimit ≤ 100 := by
  show (if p ≤ percentLimit then p else percentLimit) ≤ 100
  split
  · assumption
  · exact UInt8.le_refl _

/-- A report that ends nothing goes on with the events of the session. -/
theorem Passed.accept (h : s.Passed es) {r : SessionReport} (hid : r.session = s.id)
    (ho : r.outcome.isTerminal = false) :
    (s.accept r).1.Passed
      (es ++ ((s.accept r).2.flatMap DownloadOutcome.told).filterMap Effect.event?) := by
  obtain ⟨n, o⟩ := r
  obtain rfl : n = s.id := hid
  have hph : s.phase ≠ .terminal := by
    cases h <;> simp_all
  obtain ⟨ps, hr, hpc, hes⟩ := h.opening
  unfold Session.accept
  simp only [bne_self_eq_false, Bool.false_or, decide_eq_true_eq, if_neg hph]
  cases o with
  | started =>
    dsimp only
    rw [hes]
    exact .begun ps rfl hpc hr
  | progress p =>
    dsimp only
    split
    · rename_i hall
      rw [List.flatMap_append, List.filterMap_append, ← List.append_assoc, hes]
      have hnext : opened ps ++ [.progress (min p percentLimit)] =
          opened (ps ++ [min p percentLimit]) := by
        simp [opened]
      show Passed _ (opened ps ++ [.progress (min p percentLimit)])
      rw [hnext]
      exact .begun _ rfl (by simp) (hr.concat (min_percentLimit_le p) (hpc ▸ hall))
    · rw [hes]
      exact .begun ps rfl hpc hr
  | cancelled => cases ho
  | failed st code => cases ho
  | completed p => cases ho

end Session

/-! ## Attempts -/

namespace Attempt

/-- What an attempt tells, by the address it was made with. -/
inductive Streams (setup : Setup) (t : Attempt) : Prop
  | unconfigured (url : urlAfter setup t.before = "")
      (events : told t.moments = [UpdateOutcome.unconfigured.event])
      (untouched : ∀ e, .asked e ∈ t.moments → e.isTransport = false)
  | loading (url : urlAfter setup t.before ≠ "") (stream : IsStream (told t.moments))

def IsOver (t : Attempt) : Prop := ∃ e ∈ told t.moments, e.isEnd = true

/-- The attempt once more was noted. -/
def goesOn (t : Attempt) (ms : List Moment) : Attempt := { t with moments := t.moments ++ ms }

end Attempt

/-- Where the attempt that runs or ran last is, by the state of the coordinator. -/
inductive Current (setup : Setup) (c : Coordinator) (t : Attempt) : Prop
  | unconfigured (state : c.state = .idle) (url : urlAfter setup t.before = "")
      (events : told t.moments = [UpdateOutcome.unconfigured.event])
      (untouched : ∀ e, .asked e ∈ t.moments → e.isTransport = false)
      (outcome : c.lastOutcome = some .unconfigured)
  | ended (ps : List UInt8) (o : UpdateOutcome) (state : c.state = .idle)
      (url : urlAfter setup t.before ≠ "") (rising : Rising ps)
      (events : told t.moments = opened ps ++ [o.event]) (outcome : c.lastOutcome = some o)
  | downloading (s : Session) (state : c.state = .downloading) (session : c.session = some s)
      (url : urlAfter setup t.before ≠ "") (passed : s.Passed (told t.moments))
  | working (ps : List UInt8) (state : c.state = .verifying ∨ c.state = .installing)
      (url : urlAfter setup t.before ≠ "") (rising : Rising ps)
      (events : told t.moments = opened ps)

variable {setup : Setup} {c : Coordinator} {t : Attempt}

theorem isStream_opened {ps : List UInt8} (h : Rising ps) : IsStream (opened ps) :=
  ⟨ps, .cancelled, h, rfl, List.prefix_append _ _⟩

theorem Session.Passed.isStream {s : Session} {es : List UpdateEvent} (h : s.Passed es) :
    IsStream es ∧ ∀ e ∈ es, e.isEnd = false := by
  cases h with
  | fresh => exact ⟨⟨[], .cancelled, ⟨.nil, by simp⟩, rfl, List.nil_prefix⟩, by simp⟩
  | begun ps _ _ hr => exact ⟨isStream_opened hr, not_isEnd_opened ps⟩

theorem Current.streams (h : Current setup c t) : t.Streams setup := by
  cases h with
  | unconfigured _ hu he hun => exact .unconfigured hu he hun
  | ended ps o _ hu hr he =>
    exact .loading hu ⟨ps, o.event, hr, o.isEnd_event, he ▸ List.prefix_refl _⟩
  | downloading s _ _ hu hp => exact .loading hu hp.isStream.1
  | working ps _ hu hr he => exact .loading hu (he ▸ isStream_opened hr)

theorem Current.isOver_iff (h : Current setup c t) : t.IsOver ↔ c.state = .idle := by
  cases h with
  | unconfigured hst _ he =>
    exact iff_of_true ⟨_, by rw [he]; exact List.mem_singleton_self _, rfl⟩ hst
  | ended ps o hst _ _ he =>
    exact iff_of_true ⟨o.event, by rw [he]; simp, o.isEnd_event⟩ hst
  | downloading s hst _ _ hp =>
    refine iff_of_false (fun ⟨e, he, hend⟩ => ?_) (by simp [hst])
    rw [hp.isStream.2 e he] at hend
    cases hend
  | working ps hst _ _ he =>
    refine iff_of_false (fun ⟨e, hm, hend⟩ => ?_) (by rcases hst with hst | hst <;> simp [hst])
    rw [he] at hm
    rw [not_isEnd_opened ps e hm] at hend
    cases hend

/-- What was told last is the outcome that is kept. -/
theorem Current.last (h : Current setup c t) (hst : c.state = .idle) :
    ∃ o, c.lastOutcome = some o ∧ (told t.moments).getLast? = some o.event := by
  cases h with
  | unconfigured _ _ he _ ho => exact ⟨_, ho, by rw [he]; rfl⟩
  | ended ps o _ _ _ he ho => exact ⟨o, ho, by rw [he, List.getLast?_concat]⟩
  | downloading _ hd => simp [hd] at hst
  | working _ hw => rcases hw with hw | hw <;> simp [hw] at hst

theorem Current.passed (h : Current setup c t) {s : Session} (hst : c.state = .downloading)
    (hse : c.session = some s) :
    urlAfter setup t.before ≠ "" ∧ s.Passed (told t.moments) := by
  cases h with
  | unconfigured hi => simp [hst] at hi
  | ended _ _ hi => simp [hst] at hi
  | working _ hw => rcases hw with hw | hw <;> simp [hst] at hw
  | downloading s' _ hse' hu hp =>
    obtain rfl : s = s' := Option.some.inj (hse.symm.trans hse')
    exact ⟨hu, hp⟩

theorem Current.worked (h : Current setup c t)
    (hst : c.state = .verifying ∨ c.state = .installing) :
    urlAfter setup t.before ≠ "" ∧ ∃ ps, Rising ps ∧ told t.moments = opened ps := by
  cases h with
  | unconfigured hi => rcases hst with hst | hst <;> simp [hst] at hi
  | ended _ _ hi => rcases hst with hst | hst <;> simp [hst] at hi
  | downloading _ hi => rcases hst with hst | hst <;> simp [hst] at hi
  | working ps _ hu hr he => exact ⟨hu, ps, hr, he⟩

/-- Moments of which the listener is told nothing, while the coordinator stays where it is. -/
theorem Current.hushed {c' : Coordinator} {ms : List Moment} (h : Current setup c t)
    (hms : told ms = []) (hun : c.state = .idle → ∀ e, .asked e ∈ ms → e.isTransport = false)
    (hst : c'.state = c.state) (hse : c'.session = c.session)
    (hla : c'.lastOutcome = c.lastOutcome) : Current setup c' (t.goesOn ms) := by
  have hsame : told (t.goesOn ms).moments = told t.moments := by
    show told (t.moments ++ ms) = told t.moments
    rw [told_append, hms, List.append_nil]
  cases h with
  | unconfigured hi hu he hold ho =>
    refine .unconfigured (hst.trans hi) hu (hsame.trans he) (fun e hm => ?_) (hla.trans ho)
    rcases List.mem_append.1 hm with hm | hm
    · exact hold e hm
    · exact hun hi e hm
  | ended ps o hi hu hr he ho =>
    exact .ended ps o (hst.trans hi) hu hr (hsame.trans he) (hla.trans ho)
  | downloading s hd hs hu hp =>
    exact .downloading s (hst.trans hd) (hse.trans hs) hu (hsame ▸ hp)
  | working ps hw hu hr he => exact .working ps (hst ▸ hw) hu hr (hsame.trans he)

theorem Coordinator.Moves.override {m : Incoming} {n : Turn} (h : c.Moves m n) :
    n.1.urlOverride = c.urlOverride := by
  cases h <;> rfl

/-- What a message does to the attempt that runs. -/
theorem Coordinator.Moves.current {m : Incoming} {n : Turn} (h : c.Moves m n)
    (hcur : Current setup c t) (hst : c.state ≠ .idle) :
    Current setup n.1 (t.goesOn (.taken m :: n.2.map .asked)) := by
  have htold : ∀ es : List Effect, told (t.goesOn (.taken m :: es.map .asked)).moments =
      told t.moments ++ es.filterMap Effect.event? := told_turn t.moments rfl
  have quiet : ∀ es : List Effect, es.filterMap Effect.event? = [] →
      Current setup c (t.goesOn (.taken m :: es.map .asked)) := fun es hes =>
    hcur.hushed ((told_turn [] rfl es).trans hes) (fun hi => absurd hi hst) rfl rfl rfl
  have delivered : ∀ {s : Session} (e : Effect), e.event? = none → c.state = .downloading →
      c.session = some s → urlAfter setup t.before ≠ "" ∧ ∃ ps, Rising ps ∧
        told (t.goesOn (.taken m :: (s.opening.flatMap DownloadOutcome.told ++ [e]).map
          .asked)).moments = opened ps := by
    intro s e he hd hse
    obtain ⟨hu, hp⟩ := hcur.passed hd hse
    obtain ⟨ps, hr, -, hes⟩ := hp.opening
    refine ⟨hu, ps, hr, ?_⟩
    rw [htold, List.filterMap_append, List.filterMap_cons_none he, ← hes]
    simp
  -- A stray message tells nothing. Every other rule goes on with what was told so far, or ends it.
  cases h with
  | strayReport => exact quiet [] rfl
  | strayWork => exact quiet [] rfl
  | strayAction => exact quiet [] rfl
  | cancelling => exact quiet _ (c.filterMap_cancelSession fun _ => rfl)
  | @progressed r s hd hse hid ho =>
    obtain ⟨hu, hp⟩ := hcur.passed hd hse
    exact .downloading _ hd rfl hu (by rw [htold]; exact hp.accept hid ho)
  | @stopped r s o hd hse hid ho =>
    obtain ⟨hu, hp⟩ := hcur.passed hd hse
    obtain ⟨ps, hr, -, hes⟩ := hp.opening
    refine .ended ps o rfl hu hr ?_ rfl
    rw [htold, List.filterMap_append, ← List.append_assoc, hes]
    rfl
  | @toVerify _ p _ _ hd hse =>
    obtain ⟨hu, ps, hr, hes⟩ := delivered (.verify p) rfl hd hse
    exact .working ps (.inl rfl) hu hr hes
  | @toInstall _ p _ q hd hse =>
    obtain ⟨hu, ps, hr, hes⟩ := delivered (.install p q.destination) rfl hd hse
    exact .working ps (.inr rfl) hu hr hes
  | approved hv =>
    obtain ⟨hu, ps, hr, hes⟩ := hcur.worked (.inl hv)
    exact .working ps (.inr rfl) hu hr (by rw [htold, hes]; exact List.append_nil _)
  | rejected hv =>
    obtain ⟨hu, ps, hr, hes⟩ := hcur.worked (.inl hv)
    exact .ended ps _ rfl hu hr (by rw [htold, hes]; rfl) rfl
  | installed hi =>
    obtain ⟨hu, ps, hr, hes⟩ := hcur.worked (.inr hi)
    exact .ended ps _ rfl hu hr (by rw [htold, hes]; rfl) rfl

/-! ## Runs -/

namespace Life

variable {l l' : Life}

/-- What a record holds of attempts: none so far, or a current one after others that are over. -/
inductive Story (setup : Setup) (l : Life) : Prop
  | fresh (state : l.coordinator.state = .idle) (unopened : ∀ m ∈ l.record, m.opens = false)
      (silent : told l.record = []) (outcome : l.coordinator.lastOutcome = none)
  | since (past cur : List Moment) (record : l.record = past ++ .attempted true :: cur)
      (unopened : ∀ m ∈ cur, m.opens = false)
      (events : told past = (attempts past).flatMap fun t => told t.moments)
      (earlier : ∀ t ∈ attempts past, t.Streams setup ∧ t.IsOver)
      (current : Current setup l.coordinator ⟨past, cur⟩)

structure Reported (setup : Setup) (l : Life) : Prop where
  override : l.coordinator.urlOverride = overrideAfter l.record
  story : l.Story setup

/-- The record splits into the events of its attempts, and those are over while none runs. -/
theorem Story.blocks (h : l.Story setup) :
    told l.record = ((attempts l.record).flatMap fun t => told t.moments) ∧
      (∀ t ∈ attempts l.record, t.Streams setup) ∧
      (l.coordinator.state = .idle ↔ ∀ t ∈ attempts l.record, t.IsOver) ∧
      (l.coordinator.state = .idle →
        (told l.record).getLast? = l.coordinator.lastOutcome.map UpdateOutcome.event) := by
  cases h with
  | fresh hst hop hsil hout =>
    have hnone : attempts l.record = [] := attempts_unopened hop
    simp [hnone, hsil, hst, hout]
  | since past cur hrec hop hev hearlier hcur =>
    have hall : attempts l.record = attempts past ++ [⟨past, cur⟩] := by
      rw [hrec, attempts_opened hop]
    have htold : told l.record = told past ++ told cur := by
      rw [hrec, told_append]
      rfl
    refine ⟨?_, fun t ht => ?_, ⟨fun hst t ht => ?_, fun hover => ?_⟩, fun hst => ?_⟩
    · rw [htold, hev, hall, List.flatMap_append, List.flatMap_singleton]
    · rw [hall] at ht
      rcases List.mem_append.1 ht with ht | ht
      · exact (hearlier t ht).1
      · obtain rfl := List.mem_singleton.1 ht
        exact hcur.streams
    · rw [hall] at ht
      rcases List.mem_append.1 ht with ht | ht
      · exact (hearlier t ht).2
      · obtain rfl := List.mem_singleton.1 ht
        exact hcur.isOver_iff.2 hst
    · exact hcur.isOver_iff.1 (hover _ (by rw [hall]; simp))
    · obtain ⟨o, ho, hlast⟩ := hcur.last hst
      have hlast' : (told cur).getLast? = some o.event := hlast
      rw [htold, List.getLast?_append, hlast', ho]
      rfl

/-- The address that the coordinator resolves is the one that the record says. -/
theorem Reported.url_eq (h : l.Reported setup) (hk : l.Kept setup) :
    l.coordinator.url = urlAfter setup l.record := by
  unfold Coordinator.url urlAfter
  rw [h.override, hk.setup_eq]

/-- Moments that belong to the attempt that runs. -/
theorem Reported.grow (h : l.Reported setup) (ms : List Moment)
    (hrec : l'.record = l.record ++ ms) (hop : ∀ m ∈ ms, m.opens = false)
    (hover : l'.coordinator.urlOverride = overrideAfter (l.record ++ ms))
    (hidle : l.coordinator.state = .idle → told ms = [] ∧ l'.coordinator.state = .idle ∧
      l'.coordinator.lastOutcome = l.coordinator.lastOutcome)
    (hcur : ∀ t, Current setup l.coordinator t → Current setup l'.coordinator (t.goesOn ms)) :
    l'.Reported setup where
  override := by rw [hrec, hover]
  story := by
    cases h.story with
    | fresh hst hun hsil hout =>
      obtain ⟨hms, hst', hout'⟩ := hidle hst
      refine .fresh hst' (fun m hm => ?_) ?_ (hout'.trans hout)
      · rw [hrec] at hm
        rcases List.mem_append.1 hm with hm | hm
        · exact hun m hm
        · exact hop m hm
      · rw [hrec, told_append, hsil, hms]
        rfl
    | since past cur hpast hun hev hearlier hc =>
      refine .since past (cur ++ ms) ?_ (fun m hm => ?_) hev hearlier (hcur _ hc)
      · rw [hrec, hpast]
        simp
      · rcases List.mem_append.1 hm with hm | hm
        · exact hun m hm
        · exact hop m hm

/-- Moments of which the listener is told nothing. -/
theorem Reported.hushed (h : l.Reported setup) (ms : List Moment)
    (hrec : l'.record = l.record ++ ms) (hop : ∀ m ∈ ms, m.opens = false) (hms : told ms = [])
    (hover : l'.coordinator.urlOverride = overrideAfter (l.record ++ ms))
    (hun : l.coordinator.state = .idle → ∀ e, .asked e ∈ ms → e.isTransport = false)
    (hst : l'.coordinator.state = l.coordinator.state)
    (hse : l'.coordinator.session = l.coordinator.session)
    (hla : l'.coordinator.lastOutcome = l.coordinator.lastOutcome) : l'.Reported setup :=
  h.grow ms hrec hop hover (fun hi => ⟨hms, hst.trans hi, hla⟩)
    fun _ hc => hc.hushed hms hun hst hse hla

/-- The override after a turn that leaves it alone. -/
theorem Reported.override_turn (h : l.Reported setup) {c : Coordinator} {first : Moment}
    (hf : first.override? = none) (es : List Effect)
    (hc : c.urlOverride = l.coordinator.urlOverride) :
    c.urlOverride = overrideAfter (l.record ++ first :: es.map .asked) := by
  rw [overrideAfter_append (List.forall_mem_cons.2 ⟨hf, override?_asked⟩), hc, h.override]

/-- An accepted call begins a block of its own. -/
theorem Reported.opening (h : l.Reported setup) {c : Coordinator} {es : List Effect}
    (hst : l.coordinator.state = .idle)
    (hover : c.urlOverride = l.coordinator.urlOverride)
    (hcur : Current setup c ⟨l.record, es.map .asked⟩) :
    (l.turn (.attempted true) (c, es)).Reported setup where
  override := h.override_turn rfl es hover
  story := by
    obtain ⟨hev, hstreams, hidle, -⟩ := h.story.blocks
    exact .since l.record (es.map .asked) rfl opens_asked hev
      (fun t ht => ⟨hstreams t ht, hidle.1 hst t ht⟩) hcur

theorem Reported.attempt (h : l.Reported setup) (hk : l.Kept setup) {b : Bool} {n : Turn}
    (hn : l.coordinator.Attempts b n) : (l.turn (.attempted b) n).Reported setup := by
  cases hn with
  | refused =>
    refine h.hushed [.attempted false] rfl (List.forall_mem_singleton.2 rfl) rfl
      (h.override_turn rfl [] rfl) (fun _ e he => ?_) rfl rfl rfl
    cases List.mem_singleton.1 he
  | unconfigured hst hu =>
    refine h.opening hst rfl (.unconfigured rfl ((h.url_eq hk).symm.trans hu) rfl ?_ rfl)
    intro e he
    cases List.mem_singleton.1 he
    rfl
  | started hst hu =>
    exact h.opening hst rfl (.downloading _ rfl rfl (h.url_eq hk ▸ hu) (.fresh rfl rfl))

theorem Reported.step (h : l.Reported setup) (hk : l.Kept setup) {x : Happening}
    (hl : l.step x = some l') : l'.Reported setup := by
  cases step_goes hl with
  | still => exact h
  | @heard m c waiting running hm hc _ =>
    refine h.hushed [m] rfl (List.forall_mem_singleton.2 ?_) ?_ ?_ ?_ hc.state hc.session
      hc.lastOutcome
    · cases m <;> first | rfl | cases hm
    · cases m <;> first | rfl | cases hm
    · rw [overrideAfter_concat, ← h.override]
      exact hc.override
    · intro _ e he
      obtain rfl := List.mem_singleton.1 he
      cases hm
  | called a =>
    exact h.attempt hk (Coordinator.attemptUpdate_attempts hk.isBackground hk.standing a)
  | @cancelled b es hes =>
    refine h.hushed (.cancelled b :: es.map .asked) rfl
      (List.forall_mem_cons.2 ⟨rfl, opens_asked⟩)
      ((told_turn [] rfl es).trans (hes.filterMap fun _ => rfl)) (h.override_turn rfl es rfl)
      (fun hi e he => ?_) rfl rfl rfl
    rcases hes with rfl | ⟨hd, -⟩
    · cases List.mem_singleton.1 he
    · rw [hi] at hd
      cases hd
  | @took a m c hst hn =>
    have hb : c.setup.presentation = .background := by
      rw [hn.setup]
      exact hk.isBackground
    have hm := Coordinator.handle_moves hb (hk.standing.next hn) a m
    have hst' : c.state = l.coordinator.state := by cases hn <;> rfl
    refine h.grow _ rfl (List.forall_mem_cons.2 ⟨rfl, opens_asked⟩)
      (h.override_turn rfl _ (hm.override.trans (by cases hn <;> rfl)))
      (fun hi => absurd hi hst) fun t hcur => hm.current ?_ (hst' ▸ hst)
    have hsame : t.goesOn [] = t := by simp [Attempt.goesOn]
    rw [← hsame]
    exact hcur.hushed rfl (fun _ e he => by cases he) hst' (by cases hn <;> rfl)
      (by cases hn <;> rfl)

theorem reported_new (setup : Setup) : (new setup).Reported setup where
  override := rfl
  story := .fresh rfl (fun m hm => by cases hm) rfl rfl

theorem reported_run (hb : setup.presentation = .background) {hs : List Happening}
    (hr : (new setup).run hs = some l) : l.Reported setup := by
  have h : l.Kept setup ∧ l.Reported setup :=
    run_invariant (P := fun l => l.Kept setup ∧ l.Reported setup)
      (fun l x l' h hl => ⟨Kept.step l x l' h.1 hl, h.2.step h.1 hl⟩)
      ⟨kept_new hb, reported_new setup⟩ hr
  exact h.2

/-- In every run in the background the events are those of the accepted calls, one block each and in
order; each block is a stream or the failure for want of an address. The coordinator is idle exactly
when every block has its end, and then its last outcome is the one that was told last. -/
theorem run_streams (hb : setup.presentation = .background) {hs : List Happening}
    (hr : (new setup).run hs = some l) :
    told l.record = ((attempts l.record).flatMap fun t => told t.moments) ∧
      (attempts l.record).length = l.record.countP Moment.opens ∧
      (∀ t ∈ attempts l.record, t.Streams setup) ∧
      (l.coordinator.state = .idle ↔ ∀ t ∈ attempts l.record, t.IsOver) ∧
      (l.coordinator.state = .idle →
        (told l.record).getLast? = l.coordinator.lastOutcome.map UpdateOutcome.event) := by
  obtain ⟨hev, hstreams, hidle, hlast⟩ := (reported_run hb hr).story.blocks
  exact ⟨hev, length_attempts l.record, hstreams, hidle, hlast⟩

/-- An attempt without an address, and one whose transfer reports a lower percentage after a higher
one and then fails. Session `7` reports as well. -/
def failingRun : List Happening :=
  [.attempt plainAnswers, .overrideUrl "http://host/runtime", .attempt plainAnswers,
    .report ⟨7, .progress 50⟩, .report ⟨1, .progress 20⟩, .report ⟨1, .progress 10⟩,
    .report ⟨1, .failed 404 1002⟩, .process plainAnswers, .process plainAnswers,
    .process plainAnswers, .process plainAnswers]

theorem run_streams_failing : ∃ l, (new plainSetup).run failingRun = some l ∧
    told l.record = [UpdateOutcome.unconfigured.event, .started, .progress 20,
      .failed (.transport 404 1002)] ∧
    l.coordinator.lastOutcome = some (.failed (.transport 404 1002)) ∧
    (attempts l.record).length = 2 ∧
    (∀ t ∈ attempts l.record, t.Streams plainSetup) ∧ ∀ t ∈ attempts l.record, t.IsOver := by
  have hr : (new plainSetup).run failingRun = some _ := rfl
  obtain ⟨-, hlen, hstreams, hidle, -⟩ := run_streams rfl hr
  exact ⟨_, hr, rfl, rfl, hlen.trans rfl, hstreams, hidle.1 rfl⟩

end Life

end SharedRuntime
