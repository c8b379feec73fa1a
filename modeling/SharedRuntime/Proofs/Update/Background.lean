import SharedRuntime.Proofs.Update.Life

/-!
# What a coordinator does in the background

`Standing c`: what belongs together in a coordinator that works in the background, by its state. A
session is stored while a download runs, an artifact while a job works on it, a request in both.

`Attempts c` and `Moves c` list all that a call for an attempt and a message can do to such a
coordinator (`attemptUpdate_attempts`, `handle_moves`). Facts about runs in the background are read
off these lists.
-/

set_option autoImplicit false

namespace SharedRuntime

/-! ## Sessions -/

/-- What the listener is told of an outcome that does not end a download. -/
def DownloadOutcome.told : DownloadOutcome → List Effect
  | .started => [.tell .started]
  | .progress percent => [.tell (.progress percent)]
  | _ => []

theorem DownloadOutcome.filterMap_told {α : Type} {f : Effect → Option α}
    (hf : ∀ e, f (.tell e) = none) (os : List DownloadOutcome) :
    (os.flatMap told).filterMap f = [] := by
  refine List.filterMap_eq_nil_iff.2 fun e he => ?_
  obtain ⟨o, -, he⟩ := List.mem_flatMap.1 he
  cases o with
  | started => exact List.mem_singleton.1 he ▸ hf _
  | progress p => exact List.mem_singleton.1 he ▸ hf _
  | _ => cases he

namespace Session

theorem accept_stray {s : Session} {r : SessionReport} (h : r.session ≠ s.id) :
    s.accept r = (s, []) := by
  simp [accept, h]

/-- The end of a transfer goes through as it is, after a start that was not told yet. -/
theorem accept_final {s : Session} {r : SessionReport} (hid : r.session = s.id)
    (hs : s.phase ≠ .terminal) (ho : r.outcome.isTerminal = true) :
    s.accept r = ({ s with phase := .terminal }, s.opening ++ [r.outcome]) := by
  obtain ⟨n, o⟩ := r
  cases o with
  | started => cases ho
  | progress p => cases ho
  | cancelled => simp_all [accept]
  | failed st code => simp_all [accept]
  | completed p => simp_all [accept]

theorem opening_told (s : Session) : ∀ o ∈ s.opening, o.isTerminal = false := by
  intro o hm
  unfold opening at hm
  split at hm
  · cases List.mem_singleton.1 hm
    rfl
  · cases hm

/-- Any other report leaves the session open, and nothing that is told of it is an end. -/
theorem accept_open {s : Session} {r : SessionReport} (hid : r.session = s.id)
    (hs : s.phase ≠ .terminal) (ho : r.outcome.isTerminal = false) :
    (s.accept r).1.id = s.id ∧ (s.accept r).1.hasTransfer = s.hasTransfer ∧
      (s.accept r).1.phase = .started ∧ ∀ o ∈ (s.accept r).2, o.isTerminal = false := by
  have hop := s.opening_told
  obtain ⟨n, o⟩ := r
  have hskip : (n != s.id || decide (s.phase = .terminal)) = false := by simp_all
  unfold accept
  simp only [hskip, Bool.false_eq_true, if_false]
  cases o with
  | started => exact ⟨rfl, rfl, rfl, hop⟩
  | progress p =>
    dsimp only
    split
    · refine ⟨rfl, rfl, rfl, fun o hm => ?_⟩
      rcases List.mem_append.1 hm with hm | hm
      · exact hop o hm
      · cases List.mem_singleton.1 hm
        rfl
    · exact ⟨rfl, rfl, rfl, hop⟩
  | cancelled => cases ho
  | failed st code => cases ho
  | completed p => cases ho

end Session

/-! ## Coordinators -/

namespace Coordinator

/-- What belongs together in a coordinator in the background. -/
inductive Standing (c : Coordinator) : Prop
  | idle (state : c.state = .idle) (session : c.session = none) (request : c.request = none)
      (artifact : c.artifact = none)
  | downloading (s : Session) (r : UpdateRequest) (state : c.state = .downloading)
      (session : c.session = some s) (transfer : s.hasTransfer = true)
      (phase : s.phase ≠ .terminal) (id : s.id = c.lastSession) (request : c.request = some r)
      (artifact : c.artifact = none)
  | verifying (p : Path) (r : UpdateRequest) (state : c.state = .verifying)
      (session : c.session = none) (request : c.request = some r)
      (policy : r.verification = .enabled) (artifact : c.artifact = some p)
  | installing (p : Path) (r : UpdateRequest) (state : c.state = .installing)
      (session : c.session = none) (request : c.request = some r) (artifact : c.artifact = some p)

/-- The coordinator once an attempt ended. -/
def ended (c : Coordinator) (o : UpdateOutcome) : Coordinator :=
  { c with state := .idle, session := none, request := none, artifact := none,
           lastOutcome := some o }

/-- The outcome of an attempt whose transfer ended without an artifact. -/
def outcomeWithout : DownloadOutcome → Option UpdateOutcome
  | .cancelled => some .cancelled
  | .failed status code => some (.failed (.transport status code))
  | _ => none

/-- What a call for an attempt can do in the background. -/
inductive Attempts (c : Coordinator) : Bool → Turn → Prop
  | refused : Attempts c false (c, [])
  | unconfigured : c.state = .idle → c.url = "" →
      Attempts c true ({ c with attempt := c.attempt + 1 }.ended
        (.failed (.configuration "download URL is not configured")),
        [.tell (.failed (.configuration "download URL is not configured"))])
  | started : c.state = .idle → c.url ≠ "" →
      Attempts c true
        ({ c with attempt := c.attempt + 1, state := .downloading, lastSession := c.lastSession + 1,
                  session := some (Session.new (c.lastSession + 1)).start,
                  request := some c.buildRequest },
          [.startDownload (c.lastSession + 1) c.buildRequest])

/-- What a message can do in the background, by the message. -/
inductive Moves (c : Coordinator) : Incoming → Turn → Prop
  | strayReport {r : SessionReport} : (∀ s, c.session = some s → r.session ≠ s.id) →
      Moves c (.report r) (c, [])
  | progressed {r : SessionReport} {s : Session} : c.state = .downloading → c.session = some s →
      r.session = s.id → r.outcome.isTerminal = false →
      Moves c (.report r)
        ({ c with session := some (s.accept r).1 }, (s.accept r).2.flatMap DownloadOutcome.told)
  | stopped {r : SessionReport} {s : Session} {o : UpdateOutcome} : c.state = .downloading →
      c.session = some s → r.session = s.id → outcomeWithout r.outcome = some o →
      Moves c (.report r) (c.ended o, s.opening.flatMap DownloadOutcome.told ++ [.tell o.event])
  | toVerify {n : Nat} {p : Path} {s : Session} {q : UpdateRequest} : c.state = .downloading →
      c.session = some s → n = s.id → c.request = some q → q.verification = .enabled →
      Moves c (.report ⟨n, .completed p⟩)
        ({ c with state := .verifying, session := none, artifact := some p },
          s.opening.flatMap DownloadOutcome.told ++ [.verify p])
  | toInstall {n : Nat} {p : Path} {s : Session} {q : UpdateRequest} : c.state = .downloading →
      c.session = some s → n = s.id → c.request = some q → q.verification = .disabled →
      Moves c (.report ⟨n, .completed p⟩)
        ({ c with state := .installing, session := none, artifact := some p },
          s.opening.flatMap DownloadOutcome.told ++ [.install p q.destination])
  | approved {v : Verdict} {p : Path} {q : UpdateRequest} : c.state = .verifying →
      v.passed = true → c.artifact = some p → c.request = some q →
      Moves c (.work (.verified v)) ({ c with state := .installing }, [.install p q.destination])
  | rejected {v : Verdict} {p : Path} : c.state = .verifying → v.passed = false →
      c.artifact = some p →
      Moves c (.work (.verified v)) (c.ended (.failed (.invalidArtifact v.reason)),
        [.removeFile p, .tell (.failed (.invalidArtifact v.reason))])
  | installed {x : Except UpdateError Unit} {p : Path} {o : UpdateOutcome} :
      c.state = .installing → c.artifact = some p →
      o = (match x with
        | .ok () => .completed
        | .error e => .failed e) →
      Moves c (.work (.installed x)) (c.ended o, [.removeFile p, .tell o.event])
  | strayWork {w : WorkResult} : (∀ v, w = .verified v → c.state ≠ .verifying) →
      (∀ x, w = .installed x → c.state ≠ .installing) → Moves c (.work w) (c, [])
  | cancelling {r : ActionReport} : c.state = .downloading →
      Moves c (.action r) (c, c.cancelSession)
  | strayAction {r : ActionReport} : Moves c (.action r) (c, [])

/-! ### Messages that are dropped -/

/-- A report of another session than the stored one is dropped. -/
theorem onReport_stray {c : Coordinator} {r : SessionReport}
    (h : ∀ s, c.session = some s → r.session ≠ s.id) (a : Answers) : c.onReport a r = (c, []) := by
  unfold onReport
  cases hse : c.session with
  | none => rfl
  | some s =>
    have hc : { c with session := some s } = c := by rw [← hse]
    dsimp only
    rw [s.accept_stray (h s hse), hc]
    rfl

/-- So is a choice of another attempt. -/
theorem onAction_stray {c : Coordinator} {r : ActionReport} (h : r.attempt ≠ c.attempt)
    (a : Answers) : c.onAction a r = (c, []) := by
  simp [onAction, h]

/-! ### Outcomes that leave the coordinator as it is -/

section
variable {c : Coordinator} {a : Answers} {f : DownloadOutcome → List Effect}
  {os : List DownloadOutcome} (h : ∀ o ∈ os, c.onDownload a o = (c, f o))
include h

theorem onDownloads_steady : c.onDownloads a os = (c, os.flatMap f) := by
  induction os with
  | nil => rfl
  | cons o os ih =>
    simp only [onDownloads, Turn.andThen, h o List.mem_cons_self,
      ih fun x hx => h x (List.mem_cons_of_mem _ hx), List.flatMap_cons]

theorem onDownloads_concat (o : DownloadOutcome) :
    c.onDownloads a (os ++ [o]) =
      ((c.onDownload a o).1, os.flatMap f ++ (c.onDownload a o).2) := by
  induction os with
  | nil => simp [onDownloads, Turn.andThen]
  | cons x os ih =>
    simp only [List.cons_append, onDownloads, Turn.andThen, h x List.mem_cons_self,
      ih fun y hy => h y (List.mem_cons_of_mem _ hy), List.flatMap_cons, List.append_assoc]

end

/-! ### In the background -/

section
variable {c : Coordinator} (hb : c.setup.presentation = .background)
include hb

theorem isForeground_background : c.isForeground = false := by
  simp [isForeground, hb, Presentation.isForeground]

theorem dispatch_background (e : UpdateEvent) : c.dispatch e = (c, [.tell e]) := by
  simp [dispatch, hb, Presentation.present]

/-- An attempt without an artifact ends by telling its outcome. -/
theorem finish_background (hart : c.artifact = none) (o : UpdateOutcome) :
    c.finish o = (c.ended o, [.tell o.event]) := by
  have hf := isForeground_background hb
  unfold finish ended
  rw [hart]
  cases o <;> simp [finalEffects, hf, hb, Presentation.present, UpdateOutcome.event]

/-- An attempt with an artifact ends by removing it and telling its outcome. -/
theorem deleteArtifact_finish {p : Path} (hart : c.artifact = some p) (o : UpdateOutcome) :
    c.deleteArtifact.andThen (finish o) = (c.ended o, [.removeFile p, .tell o.event]) := by
  have hf := finish_background (c := { c with artifact := none }) hb rfl o
  unfold deleteArtifact Turn.andThen
  simp only [hart, hf]
  rfl

theorem attemptUpdate_attempts (hs : Standing c) (a : Answers) :
    Attempts c (c.attemptUpdate a).1 (c.attemptUpdate a).2 := by
  unfold attemptUpdate
  split
  · exact .refused
  · rename_i hcond
    have hidle : c.state = .idle := by
      cases hst : c.state <;> simp_all [UpdateState.isIdle]
    have hart : c.artifact = none := by
      cases hs <;> simp_all
    have hf : isForeground { c with attempt := c.attempt + 1 } = false := isForeground_background hb
    have hurl : (buildRequest { c with attempt := c.attempt + 1 }).url = c.url := rfl
    simp only [hf, Bool.false_eq_true, if_false, beginDownload, hurl]
    by_cases hu : c.url = ""
    · rw [if_pos hu, failConfiguration,
        finish_background (c := { c with attempt := c.attempt + 1 }) hb hart]
      exact .unconfigured hidle hu
    · rw [if_neg hu]
      exact .started hidle hu

theorem onDownload_told (a : Answers) (hd : c.state = .downloading) {o : DownloadOutcome}
    (ho : o.isTerminal = false) : c.onDownload a o = (c, o.told) := by
  cases o with
  | started => simp [onDownload, isDownloading, hd, dispatch_background hb, DownloadOutcome.told]
  | progress p =>
    simp [onDownload, isDownloading, hd, dispatch_background hb, DownloadOutcome.told]
  | cancelled => cases ho
  | failed st code => cases ho
  | completed p => cases ho

/-- Outcomes that end nothing are told one by one. -/
theorem onDownloads_told (a : Answers) (hd : c.state = .downloading) {os : List DownloadOutcome}
    (h : ∀ o ∈ os, o.isTerminal = false) :
    c.onDownloads a os = (c, os.flatMap DownloadOutcome.told) :=
  onDownloads_steady fun o ho => onDownload_told hb a hd (h o ho)

/-- An outcome that ends the download is acted on once those before it were told. -/
theorem onDownloads_final (a : Answers) (hd : c.state = .downloading) {os : List DownloadOutcome}
    (h : ∀ o ∈ os, o.isTerminal = false) (o : DownloadOutcome) :
    c.onDownloads a (os ++ [o]) =
      ((c.onDownload a o).1, os.flatMap DownloadOutcome.told ++ (c.onDownload a o).2) :=
  onDownloads_concat (fun o ho => onDownload_told hb a hd (h o ho)) o

theorem onDownload_without (a : Answers) (hd : c.state = .downloading)
    (hart : c.artifact = none) {o : DownloadOutcome} {x : UpdateOutcome}
    (ho : outcomeWithout o = some x) : c.onDownload a o = (c.ended x, [.tell x.event]) := by
  have hdl : c.isDownloading = true := by simp [isDownloading, hd]
  have hf : isForeground { c with session := none } = false := isForeground_background hb
  have hend := finish_background (c := { c with session := none }) hb hart x
  unfold onDownload
  cases o with
  | started => cases ho
  | progress p => cases ho
  | completed p => cases ho
  | cancelled =>
    cases ho
    simp only [hdl, Bool.not_true, Bool.false_eq_true, if_false]
    exact hend
  | failed st code =>
    cases ho
    simp only [hdl, hf, Bool.not_true, Bool.false_eq_true, if_false]
    exact hend

theorem onDownload_completed (a : Answers) (hd : c.state = .downloading) {q : UpdateRequest}
    (hq : c.request = some q) (p : Path) :
    c.onDownload a (.completed p) =
      if q.verification = .enabled then
        ({ c with state := .verifying, session := none, artifact := some p }, [.verify p])
      else
        ({ c with state := .installing, session := none, artifact := some p },
          [.install p q.destination]) := by
  have hdl : c.isDownloading = true := by simp [isDownloading, hd]
  have hf : isForeground { c with session := none } = false := isForeground_background hb
  simp only [onDownload, hdl, hf, Bool.not_true, Bool.false_eq_true, if_false]
  cases hv : q.verification <;>
    simp [startVerify, startInstall, hq, hv, VerificationPolicy.isEnabled]

theorem onReport_moves (hs : Standing c) (a : Answers) (r : SessionReport) :
    Moves c (.report r) (c.onReport a r) := by
  by_cases hstray : ∀ s, c.session = some s → r.session ≠ s.id
  · rw [onReport_stray hstray]
    exact .strayReport hstray
  · obtain ⟨s, hsess, hid⟩ : ∃ s, c.session = some s ∧ r.session = s.id := by simpa using hstray
    -- A session is stored during the download only.
    cases hs with
    | idle _ hno => simp [hsess] at hno
    | verifying _ _ _ hno => simp [hsess] at hno
    | installing _ _ _ hno => simp [hsess] at hno
    | downloading s' q hd hsess' _ hph _ hq hart =>
      obtain rfl : s = s' := Option.some.inj (hsess.symm.trans hsess')
      unfold onReport
      rw [hsess]
      dsimp only
      cases ho : r.outcome.isTerminal with
      | false =>
        obtain ⟨-, -, -, htold⟩ := s.accept_open hid hph ho
        rw [onDownloads_told (c := { c with session := some (s.accept r).1 }) hb a hd htold]
        exact .progressed hd hsess hid ho
      | true =>
        rw [s.accept_final hid hph ho]
        dsimp only
        rw [onDownloads_final (c := { c with session := some { s with phase := .terminal } })
          hb a hd s.opening_told]
        obtain ⟨n, o⟩ := r
        dsimp only at hid ho ⊢
        cases hx : outcomeWithout o with
        | some x =>
          rw [onDownload_without (c := { c with session := some { s with phase := .terminal } })
            hb a hd hart hx]
          exact .stopped hd hsess hid hx
        | none =>
          obtain ⟨p, rfl⟩ : ∃ p, o = .completed p := by
            cases o <;> simp_all [outcomeWithout, DownloadOutcome.isTerminal]
          rw [onDownload_completed (c := { c with session := some { s with phase := .terminal } })
            hb a hd hq p]
          cases hv : q.verification with
          | enabled => exact .toVerify hd hsess hid hq hv
          | disabled => exact .toInstall hd hsess hid hq hv

theorem onWork_moves (hs : Standing c) (w : WorkResult) : Moves c (.work w) (c.onWork w) := by
  cases w with
  | verified v =>
    by_cases hst : c.state = .verifying
    · obtain ⟨p, q, hq, hart⟩ : ∃ p q, c.request = some q ∧ c.artifact = some p := by
        cases hs <;> simp_all
      cases hv : v.passed with
      | true =>
        have he : c.onWork (.verified v) = ({ c with state := .installing },
            [.install p q.destination]) := by
          simp [onWork, hst, hv, startInstall, hart, hq]
        rw [he]
        exact .approved hst hv hart hq
      | false =>
        have he : c.onWork (.verified v) =
            c.deleteArtifact.andThen (finish (.failed (.invalidArtifact v.reason))) := by
          simp [onWork, hst, hv]
        rw [he, deleteArtifact_finish hb hart]
        exact .rejected hst hv hart
    · have he : c.onWork (.verified v) = (c, []) := by
        unfold onWork
        split <;> simp_all
      rw [he]
      exact .strayWork (fun _ _ => hst) (fun _ h => by cases h)
  | installed x =>
    by_cases hst : c.state = .installing
    · obtain ⟨p, hart⟩ : ∃ p, c.artifact = some p := by
        cases hs <;> simp_all
      cases x with
      | ok u =>
        have he : c.onWork (.installed (.ok u)) = c.deleteArtifact.andThen (finish .completed) := by
          simp [onWork, hst]
        rw [he, deleteArtifact_finish hb hart]
        exact .installed hst hart rfl
      | error e =>
        have he : c.onWork (.installed (.error e)) =
            c.deleteArtifact.andThen (finish (.failed e)) := by
          simp [onWork, hst]
        rw [he, deleteArtifact_finish hb hart]
        exact .installed hst hart rfl
    · have he : c.onWork (.installed x) = (c, []) := by
        unfold onWork
        split <;> simp_all
      rw [he]
      exact .strayWork (fun _ h => by cases h) (fun _ _ => hst)

omit hb in
theorem onAction_moves (hs : Standing c) (a : Answers) (r : ActionReport) :
    Moves c (.action r) (c.onAction a r) := by
  have hst : c.state ≠ .awaitingUserDecision := by
    cases hs <;> simp_all
  unfold onAction
  split
  · exact .strayAction
  · split
    · contradiction
    · contradiction
    · exact .cancelling ‹_›
    · exact .strayAction

/-- All that a message can do in the background. -/
theorem handle_moves (hs : Standing c) (a : Answers) (m : Incoming) :
    Moves c m (c.handle a m) := by
  cases m with
  | work w => exact onWork_moves hb hs w
  | report r => exact onReport_moves hb hs a r
  | action r => exact onAction_moves hs a r

end

/-! ## What a step keeps -/

variable {c : Coordinator}

/-- Only five of the fields belong together. -/
theorem Standing.congr {c' : Coordinator} (hs : Standing c) (hst : c'.state = c.state)
    (hse : c'.session = c.session) (hre : c'.request = c.request)
    (har : c'.artifact = c.artifact) (hla : c'.lastSession = c.lastSession) : Standing c' := by
  cases hs with
  | idle h1 h2 h3 h4 => exact .idle (hst ▸ h1) (hse ▸ h2) (hre ▸ h3) (har ▸ h4)
  | downloading s q h1 h2 ht hp hi h3 h4 =>
    exact .downloading s q (hst ▸ h1) (hse ▸ h2) ht hp (hla ▸ hi) (hre ▸ h3) (har ▸ h4)
  | verifying p q h1 h2 h3 hv h4 =>
    exact .verifying p q (hst ▸ h1) (hse ▸ h2) (hre ▸ h3) hv (har ▸ h4)
  | installing p q h1 h2 h3 h4 =>
    exact .installing p q (hst ▸ h1) (hse ▸ h2) (hre ▸ h3) (har ▸ h4)

theorem Standing.next {c' : Coordinator} {m : Incoming} (hs : Standing c) (hn : c.Next m c') :
    Standing c' := by
  cases hn <;> exact hs.congr rfl rfl rfl rfl rfl

theorem Standing.session (hs : Standing c) (h : c.state ≠ .downloading) : c.session = none := by
  cases hs with
  | idle _ hse => exact hse
  | verifying _ _ _ hse => exact hse
  | installing _ _ _ hse => exact hse
  | downloading _ _ hst => exact absurd hst h

theorem Standing.open_session {s : Session} (hs : Standing c) (h : c.session = some s) :
    s.phase ≠ .terminal := by
  cases hs <;> simp_all

theorem outcomeWithout_final {o : DownloadOutcome} {x : UpdateOutcome}
    (h : outcomeWithout o = some x) : o.isTerminal = true := by
  cases o with
  | started => cases h
  | progress p => cases h
  | _ => rfl

theorem Attempts.standing {b : Bool} {t : Turn} (h : Attempts c b t) (hs : Standing c) :
    Standing t.1 := by
  cases h with
  | refused => exact hs
  | unconfigured => exact .idle rfl rfl rfl rfl
  | started hst =>
    have hart : c.artifact = none := by
      cases hs <;> simp_all
    exact .downloading _ _ rfl rfl rfl (by simp [Session.start, Session.new]) rfl rfl hart

theorem Moves.standing {m : Incoming} {t : Turn} (h : Moves c m t) (hs : Standing c) :
    Standing t.1 := by
  cases h with
  | strayReport => exact hs
  | strayWork => exact hs
  | cancelling => exact hs
  | strayAction => exact hs
  | stopped => exact .idle rfl rfl rfl rfl
  | rejected => exact .idle rfl rfl rfl rfl
  | installed => exact .idle rfl rfl rfl rfl
  | toVerify hst hse hid hq hv => exact .verifying _ _ rfl rfl hq hv rfl
  | toInstall hst hse hid hq hv => exact .installing _ _ rfl rfl hq rfl
  | approved hst hv hart hq =>
    have hse : c.session = none := by
      cases hs <;> simp_all
    exact .installing _ _ rfl hse hq hart
  | @progressed r s hst hse hid ho =>
    cases hs with
    | idle h => rw [hst] at h; cases h
    | verifying _ _ h => rw [hst] at h; cases h
    | installing _ _ h => rw [hst] at h; cases h
    | downloading s' q _ hse' htr hph hla hq hart =>
      rw [hse] at hse'
      cases hse'
      obtain ⟨h1, h2, h3, -⟩ := s.accept_open hid hph ho
      exact .downloading _ q hst rfl (h2.trans htr) (by rw [h3]; decide) (h1.trans hla) hq hart

theorem Next.setup {c' : Coordinator} {m : Incoming} (h : c.Next m c') : c'.setup = c.setup := by
  cases h <;> rfl

end Coordinator

end SharedRuntime
