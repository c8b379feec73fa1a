import SharedRuntime.Proofs.Update.Foreground
import SharedRuntime.Proofs.Update.Phase
import SharedRuntime.Proofs.Update.Queues
import SharedRuntime.Proofs.Update.Steps

/-!
# What belongs together between two calls

`Coherent` says which fields of a coordinator are filled and which job is outstanding, by its state.
It holds in both modes after every run (`run_coherent`). `Steady` is what carries the induction:
`Kept` in the background, `Attended` in the foreground.

Some branches of the coordinator are there only to be safe. `bareHandle?` takes a message without
them, and has no result where it would need one; between two calls it always has the same as
`handle`.
-/

set_option autoImplicit false

namespace SharedRuntime

/-! ## Without the safeguards -/

namespace Coordinator

def bareInstall? (c : Coordinator) : Option Turn := c.artifact.map fun _ => c.startInstall

def bareVerify? (c : Coordinator) : Option Turn := c.artifact.map fun _ => c.startVerify

/-- Acts on an outcome, but only while a download runs, and goes on only with an artifact. -/
def bareDownload? (a : Answers) (o : DownloadOutcome) (c : Coordinator) : Option Turn :=
  if !c.isDownloading then none
  else match o with
    | .completed p =>
      if c.isForeground then some (c.onDownload a o)
      else { c with session := none, artifact := some p }.bareVerify?
    | _ => some (c.onDownload a o)

def bareDownloads? (a : Answers) : List DownloadOutcome → Coordinator → Option Turn
  | [], c => some (c, [])
  | o :: os, c => do
    let t ← c.bareDownload? a o
    let next ← bareDownloads? a os t.1
    return (next.1, t.2 ++ next.2)

def bareReport? (a : Answers) (r : SessionReport) (c : Coordinator) : Option Turn :=
  match c.session with
  | none => some (c, [])
  | some s => { c with session := some (s.accept r).1 }.bareDownloads? a (s.accept r).2

/-- Takes the result of a job, but only one that the state waits for. -/
def bareWork? (r : WorkResult) (c : Coordinator) : Option Turn :=
  match r, c.state with
  | .verified v, .verifying => if v.passed then c.bareInstall? else some (c.onWork r)
  | .installed _, .installing => some (c.onWork r)
  | _, _ => none

def bareHandle? (a : Answers) (m : Incoming) (c : Coordinator) : Option Turn :=
  match m with
  | .work r => c.bareWork? r
  | .report r => c.bareReport? a r
  | .action r => some (c.onAction a r)

variable {c : Coordinator}

theorem bareDownload?_eq (a : Answers) (hd : c.isDownloading = true) (o : DownloadOutcome) :
    c.bareDownload? a o = some (c.onDownload a o) := by
  unfold bareDownload?
  rw [hd]
  cases o with
  | completed p =>
    cases hf : c.isForeground with
    | true => rfl
    | false =>
      have hf' : isForeground { c with session := none } = false := hf
      simp [onDownload, hd, hf', bareVerify?]
  | _ => rfl

/-- An outcome that does not end a download leaves the coordinator as it is. -/
theorem onDownload_open (a : Answers) {o : DownloadOutcome} (ho : o.isTerminal = false) :
    (c.onDownload a o).1 = c := by
  unfold onDownload
  split
  · rfl
  · cases o with
    | started => rfl
    | progress p => rfl
    | _ => cases ho

theorem bareDownloads?_eq (a : Answers) {os : List DownloadOutcome}
    (h : ∀ o ∈ os.dropLast, o.isTerminal = false) (hd : c.isDownloading = true) :
    c.bareDownloads? a os = some (c.onDownloads a os) := by
  induction os with
  | nil => rfl
  | cons o os ih =>
    simp only [bareDownloads?, bareDownload?_eq a hd, onDownloads, Turn.andThen]
    cases os with
    | nil => rfl
    | cons x xs =>
      rw [List.dropLast_cons_cons] at h
      have hrest := ih fun y hy => h y (List.mem_cons_of_mem _ hy)
      simp only [onDownload_open a (h o List.mem_cons_self), hrest, Option.bind_eq_bind,
        Option.bind_some, Option.pure_def]

end Coordinator

/-- Only the last of the outcomes that a session lets through can end it. -/
theorem Session.accept_dropLast (s : Session) (r : SessionReport) :
    ∀ o ∈ (s.accept r).2.dropLast, o.isTerminal = false := by
  intro o ho
  have hopen := s.opening_told
  unfold accept at ho
  split at ho
  · cases ho
  · split at ho
    · exact hopen o (List.dropLast_subset _ ho)
    · dsimp only at ho
      split at ho
      · exact hopen o (by simpa using ho)
      · exact hopen o (List.dropLast_subset _ ho)
    · exact hopen o (by simpa using ho)

/-! ## Runs in the foreground -/

namespace Coordinator

variable {c : Coordinator} {a : Answers}

theorem Invites.jobless {b : Bool} {t : Turn} (h : Invites c a b t) :
    t.2.filterMap Effect.job? = [] := by
  cases h <;> rfl

theorem Responds.jobless {m : Incoming} {t : Turn} (h : Responds c a m t) :
    t.2.filterMap Effect.job? = [] := by
  have shown : ∀ os : List DownloadOutcome,
      (os.flatMap (DownloadOutcome.shown c.attempt)).filterMap Effect.job? = [] :=
    DownloadOutcome.filterMap_shown (fun _ => rfl) (fun _ => rfl) c.attempt
  cases h with
  | progressed => exact shown _
  | cancelled => rw [List.filterMap_append, shown]; rfl
  | failed => rw [List.filterMap_append, shown]; rfl
  | handedOver => rw [List.filterMap_append, shown]; rfl
  | notTaken => rw [List.filterMap_append, shown]; rfl
  | cancelling => exact c.filterMap_cancelSession fun _ => rfl
  | _ => rfl

end Coordinator

namespace Life

/-- What every step in the foreground keeps: no job is ever started. -/
structure Attended (l : Life) : Prop where
  foreground : ∃ store, l.coordinator.setup.presentation = .foreground store
  attending : l.coordinator.Attending
  resting : l.Resting

variable {l l' : Life} {setup : Setup}

theorem Attended.turn (h : l.Attended) {first : Moment} {t : Turn}
    (hset : t.1.setup = l.coordinator.setup) (hs : t.1.Attending) (hwork : t.1.work = [])
    (hjobs : t.2.filterMap Effect.job? = []) : (l.turn first t).Attended where
  foreground := by
    show ∃ store, t.1.setup.presentation = .foreground store
    rw [hset]
    exact h.foreground
  attending := hs
  resting := by
    refine ⟨?_, h.resting.running, hwork⟩
    show l.waiting ++ t.2.filterMap Effect.job? = []
    rw [hjobs, h.resting.waiting]
    rfl

theorem Attended.step (l : Life) (x : Happening) (l' : Life) (h : l.Attended)
    (hl : l.step x = some l') : l'.Attended := by
  obtain ⟨store, hf⟩ := h.foreground
  have hs := h.attending
  cases step_goes hl with
  | still => exact h
  | @heard m c waiting running hm hc hjobs =>
    -- A job that begins or ends would have been outstanding.
    obtain ⟨rfl, rfl, hwork⟩ := hjobs.resolve_left fun ⟨j, hj⟩ => by
      rw [h.resting.waiting, h.resting.running] at hj
      simp at hj
    exact ⟨⟨store, hc.presentation.trans hf⟩,
      hs.congr hc.state hc.session hc.request hc.artifact hc.lastSession,
      h.resting.waiting, h.resting.running, hwork.trans h.resting.work⟩
  | called a =>
    have ht := Coordinator.attemptUpdate_invites (Coordinator.isForeground_foreground hf) a
    exact h.turn ht.setup (ht.attending hs)
      ((l.coordinator.attemptUpdate_work a).trans h.resting.work) ht.jobless
  | cancelled hes => exact h.turn rfl hs h.resting.work (hes.filterMap fun _ => rfl)
  | @took a m c hst hn =>
    have hf' : c.setup.presentation = .foreground store := by rw [hn.setup, hf]
    have ht := Coordinator.handle_responds hf' (hs.next hn) a m
    have hwork : c.work = [] := by
      cases hn with
      | work hw => rw [h.resting.work] at hw; cases hw
      | report hw => exact hw
      | action hw => exact hw
    exact h.turn (ht.setup.trans hn.setup) (ht.attending (hs.next hn))
      ((c.handle_work a m).trans hwork) ht.jobless

theorem attended_new {store : StoreContext} (hf : setup.presentation = .foreground store) :
    (new setup).Attended :=
  ⟨⟨store, hf⟩, .idle rfl rfl rfl, rfl, rfl, rfl⟩

end Life

/-! ## Both modes -/

namespace Coordinator

/-- What a call for an attempt can do, by the mode. -/
inductive Calls (c : Coordinator) (a : Answers) (b : Bool) (t : Turn) : Prop
  | background (mode : c.isForeground = false) (standing : c.Standing) (attempts : c.Attempts b t)
  | foreground (mode : c.isForeground = true) (attending : c.Attending) (invites : c.Invites a b t)

/-- What a message can do, by the mode. -/
inductive Handles (c : Coordinator) (a : Answers) (m : Incoming) (t : Turn) : Prop
  | background (mode : c.isForeground = false) (standing : c.Standing) (moves : c.Moves m t)
  | foreground (mode : c.isForeground = true) (attending : c.Attending) (responds : c.Responds a m t)

end Coordinator

namespace Life

variable {l l' : Life} {setup : Setup}

/-- What every step keeps, by the mode. -/
inductive Steady (setup : Setup) (l : Life) : Prop
  | background (kept : l.Kept setup)
  | foreground (attended : l.Attended)

theorem Steady.step (l : Life) (x : Happening) (l' : Life) (h : l.Steady setup)
    (hl : l.step x = some l') : l'.Steady setup := by
  cases h with
  | background h => exact .background (Kept.step l x l' h hl)
  | foreground h => exact .foreground (Attended.step l x l' h hl)

theorem steady_new (setup : Setup) : (new setup).Steady setup := by
  cases hp : setup.presentation with
  | background => exact .background (kept_new hp)
  | foreground store => exact .foreground (attended_new hp)

theorem steady_run {hs : List Happening} (hr : (new setup).run hs = some l) : l.Steady setup :=
  run_invariant Steady.step (steady_new setup) hr

/-- What a call does, by the mode. -/
theorem Steady.calls (h : l.Steady setup) (a : Answers) :
    l.coordinator.Calls a (l.coordinator.attemptUpdate a).1 (l.coordinator.attemptUpdate a).2 := by
  cases h with
  | background hk =>
    exact .background (Coordinator.isForeground_background hk.isBackground) hk.standing
      (Coordinator.attemptUpdate_attempts hk.isBackground hk.standing a)
  | foreground ha =>
    obtain ⟨store, hf⟩ := ha.foreground
    have hmode := Coordinator.isForeground_foreground hf
    exact .foreground hmode ha.attending (Coordinator.attemptUpdate_invites hmode a)

/-- What the next message does, by the mode. -/
theorem Steady.handles (h : l.Steady setup) (a : Answers) {m : Incoming} {c : Coordinator}
    (hn : l.coordinator.Next m c) : c.Handles a m (c.handle a m) := by
  cases h with
  | background hk =>
    have hb : c.setup.presentation = .background := by
      rw [hn.setup]
      exact hk.isBackground
    exact .background (Coordinator.isForeground_background hb) (hk.standing.next hn)
      (Coordinator.handle_moves hb (hk.standing.next hn) a m)
  | foreground ha =>
    obtain ⟨store, hf⟩ := ha.foreground
    have hf' : c.setup.presentation = .foreground store := by rw [hn.setup, hf]
    exact .foreground (Coordinator.isForeground_foreground hf') (ha.attending.next hn)
      (Coordinator.handle_responds hf' (ha.attending.next hn) a m)

theorem kept_run (hb : setup.presentation = .background) {hs : List Happening}
    (hr : (new setup).run hs = some l) : l.Kept setup :=
  run_invariant Kept.step (kept_new hb) hr

/-- What belongs together in a coordinator and its jobs. -/
structure Coherent (l : Life) : Prop where
  state : ∀ o, l.coordinator.state ≠ .terminal o
  session : l.coordinator.session.isSome = true ↔ l.coordinator.state = .downloading
  live : ∀ s, l.coordinator.session = some s →
    s.hasTransfer = true ∧ s.phase ≠ .terminal ∧ s.id = l.coordinator.lastSession
  artifact : l.coordinator.artifact.isSome = true ↔
    l.coordinator.state = .verifying ∨ l.coordinator.state = .installing
  request : l.coordinator.state = .downloading ∨ l.coordinator.state = .verifying ∨
    l.coordinator.state = .installing → l.coordinator.request.isSome = true
  verifying : l.coordinator.state = .verifying → ∃ p, l.Pending (.verify p)
  installing : l.coordinator.state = .installing → ∃ p d, l.Pending (.install p d)
  resting : l.coordinator.state ≠ .verifying → l.coordinator.state ≠ .installing → l.Resting
  foreground : l.coordinator.state = .awaitingUserDecision → l.coordinator.isForeground = true
  background : l.coordinator.state = .verifying ∨ l.coordinator.state = .installing →
    l.coordinator.isForeground = false

theorem Attended.coherent (h : l.Attended) : l.Coherent := by
  obtain ⟨⟨store, hf⟩, hs, hr⟩ := h
  have hfore := Coordinator.isForeground_foreground hf
  cases hs with
  | idle hst hse har => constructor <;> simp_all
  | awaiting hst hse har => constructor <;> simp_all
  | downloading s q hst hse htr hph hid hq har => constructor <;> simp_all

theorem Kept.coherent (h : l.Kept setup) : l.Coherent := by
  have hb := Coordinator.isForeground_background h.isBackground
  have hp := h.phase
  cases h.standing with
  | idle hst hse hre har =>
    have hr := hp.resting (.inl hst)
    constructor <;> simp_all
  | downloading s q hst hse htr hph hid hq har =>
    have hr := hp.resting (.inr hst)
    constructor <;> simp_all
  | verifying p q hst hse hq hpol har =>
    have hpend : ∃ p, l.Pending (.verify p) := by
      cases hp with
      | verifying p _ _ _ _ _ _ hpend => exact ⟨p, hpend⟩
      | _ => simp_all
    constructor <;> simp_all
  | installing p q hst hse hq har =>
    have hpend : ∃ p d, l.Pending (.install p d) := by
      cases hp with
      | installing p q _ _ _ _ hpend => exact ⟨p, _, hpend⟩
      | _ => simp_all
    constructor <;> simp_all

theorem Steady.coherent (h : l.Steady setup) : l.Coherent := by
  cases h with
  | background h => exact h.coherent
  | foreground h => exact h.coherent

/-- A coordinator that takes a message needs none of its safeguards. -/
theorem Coherent.bareHandle?_eq (h : l.Coherent) (a : Answers) {m : Incoming} {c : Coordinator}
    (hn : l.coordinator.Next m c) : c.bareHandle? a m = some (c.handle a m) := by
  cases hn with
  | action => rfl
  | report hwk hr =>
    show Coordinator.bareReport? _ _ _ = some (Coordinator.onReport _ _ _)
    unfold Coordinator.bareReport? Coordinator.onReport
    cases hse : l.coordinator.session with
    | none => simp
    | some s =>
      have hst : l.coordinator.state = .downloading := h.session.1 (by rw [hse]; rfl)
      exact Coordinator.bareDownloads?_eq a (s.accept_dropLast _)
        (by simp [Coordinator.isDownloading, hst])
  | @work r rest hwk =>
    have hnext : l.coordinator.Next (.work r) { l.coordinator with work := rest } := .work hwk
    by_cases hv : l.coordinator.state = .verifying
    · obtain ⟨p, hpend⟩ := h.verifying hv
      obtain ⟨hfit, -⟩ := hpend.of_next hnext
      obtain ⟨p', hart⟩ := Option.isSome_iff_exists.1 (h.artifact.2 (.inl hv))
      cases r with
      | installed x => cases hfit
      | verified v =>
        cases hpass : v.passed <;>
          simp [Coordinator.bareHandle?, Coordinator.bareWork?, Coordinator.handle,
            Coordinator.onWork, Coordinator.bareInstall?, hv, hpass, hart]
    · by_cases hi : l.coordinator.state = .installing
      · obtain ⟨p, d, hpend⟩ := h.installing hi
        obtain ⟨hfit, -⟩ := hpend.of_next hnext
        cases r with
        | verified v => cases hfit
        | installed x =>
          simp [Coordinator.bareHandle?, Coordinator.bareWork?, Coordinator.handle, hi]
      · rw [(h.resting hv hi).work] at hwk
        cases hwk

/-- After every run, in either mode, the fields of the coordinator belong together, and taking the
next message needs no safeguard. -/
theorem run_coherent {hs : List Happening} (hr : (new setup).run hs = some l) :
    l.Coherent ∧ ∀ a m c, l.coordinator.Next m c → c.bareHandle? a m = some (c.handle a m) := by
  have h := (steady_run hr).coherent
  exact ⟨h, fun a m c hn => h.bareHandle?_eq a hn⟩

/-- A setup with dialogs and a store, whose metadata are empty. -/
def dialogSetup : Setup := ⟨.foreground ⟨"store", "arm64-v8a", "arm64-v8a"⟩, [], "arm64", [1], [2]⟩

/-- An attempt whose first download fails and whose user tries again. -/
def retryRun : List Happening :=
  [.overrideUrl "http://host/runtime", .attempt plainAnswers, .choose ⟨1, .accept⟩,
    .process plainAnswers, .report ⟨1, .failed 404 1002⟩, .process plainAnswers,
    .choose ⟨1, .accept⟩, .report ⟨1, .completed [3]⟩, .process plainAnswers, .process plainAnswers]

theorem run_coherent_retry : ∃ l, (new dialogSetup).run retryRun = some l ∧
    l.coordinator.state = .downloading ∧ l.coordinator.lastSession = 2 ∧ l.Coherent ∧
      ∀ a m c, l.coordinator.Next m c → c.bareHandle? a m = some (c.handle a m) := by
  have hr : (new dialogSetup).run retryRun = some _ := rfl
  obtain ⟨hc, hbare⟩ := run_coherent hr
  exact ⟨_, hr, rfl, rfl, hc, hbare⟩

end Life

end SharedRuntime
