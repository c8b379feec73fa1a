import SharedRuntime.Proofs.Update.Life

/-!
# The steps of a life

`Goes l x l'` lists what a step with `x` can do, whatever the mode: nothing, a moment that the
coordinator only hears of, a call for an attempt, a request to cancel, or a message that is taken.
What the call and the message do depends on the mode.
-/

set_option autoImplicit false

namespace SharedRuntime

/-- The address that is put in place of the one of the metadata. -/
def Moment.override? : Moment → Option String
  | overridden url => some url
  | _ => none

/-- Does the moment come from outside, and neither from a call that answers nor from a message? -/
def Moment.isHeard : Moment → Bool
  | overridden _ => true
  | configured _ => true
  | reported _ => true
  | chose _ => true
  | began _ => true
  | finished _ _ => true
  | _ => false

/-- The report that arrives with a moment. -/
def Moment.reported? : Moment → Option SessionReport
  | reported r => some r
  | _ => none

/-- The choice that arrives with a moment. -/
def Moment.choice? : Moment → Option ActionReport
  | chose r => some r
  | _ => none

/-- The result that arrives with a moment. -/
def Moment.result? : Moment → Option WorkResult
  | finished _ r => some r
  | _ => none

/-- What a coordinator keeps when it only hears of a moment. -/
structure Coordinator.Hears (c : Coordinator) (m : Moment) (c' : Coordinator) : Prop where
  presentation : c'.setup.presentation = c.setup.presentation
  state : c'.state = c.state
  session : c'.session = c.session
  request : c'.request = c.request
  artifact : c'.artifact = c.artifact
  lastSession : c'.lastSession = c.lastSession
  lastOutcome : c'.lastOutcome = c.lastOutcome
  override : c'.urlOverride = m.override?.or c.urlOverride
  attempt : c'.attempt = c.attempt
  work : c'.work = c.work ++ m.result?.toList
  reports : c'.reports = c.reports ++ m.reported?.toList
  actions : c'.actions = c.actions ++ m.choice?.toList

/-- What can be asked of a transport to stop: the session, while a download runs. -/
def Coordinator.Stops (c : Coordinator) (es : List Effect) : Prop :=
  es = [] ∨ c.state = .downloading ∧ es = c.cancelSession

/-- A request is heeded if it reached the transport and the transport takes it. -/
theorem Coordinator.cancelBackgroundUpdate_stops (c : Coordinator) (a : Answers) :
    ∃ es, c.Stops es ∧ c.cancelBackgroundUpdate a = (!es.isEmpty && a.cancels, c, es) := by
  unfold cancelBackgroundUpdate
  split
  · exact ⟨[], .inl rfl, rfl⟩
  · rename_i h
    refine ⟨_, .inr ⟨?_, rfl⟩, rfl⟩
    simp only [isDownloading, Bool.or_eq_true, Bool.not_eq_true', not_or, Bool.not_eq_false,
      beq_iff_eq] at h
    exact h.2

theorem Coordinator.cancelSession_cases (c : Coordinator) :
    c.cancelSession = [] ∨ ∃ s, c.session = some s ∧ c.cancelSession = [.cancelDownload s.id] := by
  unfold cancelSession
  cases hs : c.session with
  | none => exact .inl rfl
  | some s =>
    cases ha : s.isActive with
    | true => exact .inr ⟨s, rfl, by simp [ha]⟩
    | false => exact .inl (by simp [ha])

theorem Coordinator.filterMap_cancelSession {α : Type} {f : Effect → Option α}
    (hf : ∀ id, f (.cancelDownload id) = none) (c : Coordinator) :
    c.cancelSession.filterMap f = [] := by
  rcases c.cancelSession_cases with h | ⟨s, -, h⟩
  · rw [h]
    rfl
  · rw [h, List.filterMap_cons_none (hf s.id)]
    rfl

theorem Coordinator.Stops.filterMap {α : Type} {f : Effect → Option α}
    (hf : ∀ id, f (.cancelDownload id) = none) {c : Coordinator} {es : List Effect}
    (h : c.Stops es) : es.filterMap f = [] := by
  rcases h with rfl | ⟨-, rfl⟩
  · rfl
  · exact c.filterMap_cancelSession hf

namespace Life

variable {l l' : Life}

inductive Goes (l : Life) (x : Happening) : Life → Prop
  | still : Goes l x l
  | heard {m : Moment} {c : Coordinator} {waiting running : List Job} : m.isHeard = true →
      l.coordinator.Hears m c →
      (∃ j, j ∈ l.waiting ∨ j ∈ l.running) ∨
        waiting = l.waiting ∧ running = l.running ∧ c.work = l.coordinator.work →
      Goes l x ⟨c, waiting, running, l.record ++ [m]⟩
  | called (a : Answers) : x = .attempt a → Goes l x
      (l.turn (.attempted (l.coordinator.attemptUpdate a).1) (l.coordinator.attemptUpdate a).2)
  | cancelled {b : Bool} {es : List Effect} : l.coordinator.Stops es →
      (∃ a, x = .cancel a ∧ l.coordinator.cancelBackgroundUpdate a = (b, l.coordinator, es)) →
      Goes l x (l.turn (.cancelled b) (l.coordinator, es))
  | took (a : Answers) {m : Incoming} {c : Coordinator} : l.coordinator.state ≠ .idle →
      l.coordinator.Next m c → x = .process a → Goes l x (l.turn (.taken m) (c.handle a m))

/-- A queue that nothing joins stays as it is. -/
theorem stays {α : Type} (xs : List α) : xs = xs ++ (none : Option α).toList :=
  (List.append_nil xs).symm

theorem finish_goes {x : Happening} {j : Job} {r : WorkResult} (hl : l.finish j r = some l') :
    Goes l x l' := by
  unfold Life.finish at hl
  split at hl
  · rename_i hj
    cases hl
    exact .heard rfl ⟨rfl, rfl, rfl, rfl, rfl, rfl, rfl, rfl, rfl, rfl, stays _, stays _⟩
      (.inl ⟨j, .inr hj⟩)
  · cases hl

theorem step_goes {x : Happening} (hl : l.step x = some l') : Goes l x l' := by
  cases x with
  | attempt a =>
    cases hl
    exact .called a rfl
  | cancel a =>
    obtain ⟨es, hes, hc⟩ := l.coordinator.cancelBackgroundUpdate_stops a
    have hl' : some (l.turn (.cancelled (!es.isEmpty && a.cancels)) (l.coordinator, es)) = some l' := by
      rw [← hl]
      show _ = some (l.turn (.cancelled (l.coordinator.cancelBackgroundUpdate a).1)
        (l.coordinator.cancelBackgroundUpdate a).2)
      rw [hc]
    cases hl'
    exact .cancelled hes ⟨a, rfl, hc⟩
  | overrideUrl url =>
    cases hl
    exact .heard rfl ⟨rfl, rfl, rfl, rfl, rfl, rfl, rfl, rfl, rfl, stays _, stays _, stays _⟩
      (.inr ⟨rfl, rfl, rfl⟩)
  | configure m =>
    cases hl
    exact .heard rfl ⟨rfl, rfl, rfl, rfl, rfl, rfl, rfl, rfl, rfl, stays _, stays _, stays _⟩
      (.inr ⟨rfl, rfl, rfl⟩)
  | process a =>
    rcases step_process hl with rfl | ⟨m, c, hst, hn, rfl⟩
    · exact .still
    · exact .took a hst hn rfl
  | report r =>
    cases hl
    exact .heard rfl ⟨rfl, rfl, rfl, rfl, rfl, rfl, rfl, rfl, rfl, stays _, rfl, stays _⟩
      (.inr ⟨rfl, rfl, rfl⟩)
  | choose r =>
    cases hl
    exact .heard rfl ⟨rfl, rfl, rfl, rfl, rfl, rfl, rfl, rfl, rfl, stays _, stays _, rfl⟩
      (.inr ⟨rfl, rfl, rfl⟩)
  | begin j =>
    unfold Life.step at hl
    dsimp only at hl
    split at hl
    · rename_i hj
      cases hl
      exact .heard rfl ⟨rfl, rfl, rfl, rfl, rfl, rfl, rfl, rfl, rfl, stays _, stays _, stays _⟩
        (.inl ⟨j, .inl hj⟩)
    · cases hl
  | verified p found trusted => exact finish_goes hl
  | installed p d r => exact finish_goes hl

end Life

end SharedRuntime
