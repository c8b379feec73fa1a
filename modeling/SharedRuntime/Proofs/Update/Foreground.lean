import SharedRuntime.Proofs.Update.Background

/-!
# What a coordinator does in the foreground

`Attending c`: what belongs together in a coordinator that works with dialogs. It waits for the user
or a download runs; it neither verifies nor unpacks, and holds no artifact.

`Invites c a` and `Responds c a` list all that a call for an attempt and a message can do to such a
coordinator, where the surroundings answer `a` (`attemptUpdate_invites`, `handle_responds`).
-/

set_option autoImplicit false

namespace SharedRuntime

/-- What the dialogs of attempt `n` show of an outcome that does not end a download. -/
def DownloadOutcome.shown (n : Nat) : DownloadOutcome → List Effect
  | .started => [.showProgress n]
  | .progress percent => [.setProgress percent]
  | _ => []

theorem DownloadOutcome.filterMap_shown {α : Type} {f : Effect → Option α}
    (hstart : ∀ n, f (.showProgress n) = none) (hset : ∀ p, f (.setProgress p) = none) (n : Nat)
    (os : List DownloadOutcome) : (os.flatMap (shown n)).filterMap f = [] := by
  refine List.filterMap_eq_nil_iff.2 fun e he => ?_
  obtain ⟨o, -, he⟩ := List.mem_flatMap.1 he
  cases o with
  | started => exact List.mem_singleton.1 he ▸ hstart n
  | progress p => exact List.mem_singleton.1 he ▸ hset p
  | _ => cases he

namespace Coordinator

inductive Attending (c : Coordinator) : Prop
  | idle (state : c.state = .idle) (session : c.session = none) (artifact : c.artifact = none)
  | awaiting (state : c.state = .awaitingUserDecision) (session : c.session = none)
      (artifact : c.artifact = none)
  | downloading (s : Session) (q : UpdateRequest) (state : c.state = .downloading)
      (session : c.session = some s) (transfer : s.hasTransfer = true)
      (phase : s.phase ≠ .terminal) (id : s.id = c.lastSession) (request : c.request = some q)
      (artifact : c.artifact = none)

/-- The coordinator once it waits for the user again. -/
def reawaiting (c : Coordinator) : Coordinator :=
  { c with state := .awaitingUserDecision, session := none }

/-- What a call for an attempt can do in the foreground. -/
inductive Invites (c : Coordinator) (a : Answers) : Bool → Turn → Prop
  | refused : c.state ≠ .idle ∨ a.status.isSatisfied = true → Invites c a false (c, [])
  | asked : c.state = .idle → a.status.isSatisfied = false →
      Invites c a true ({ c with attempt := c.attempt + 1, state := .awaitingUserDecision },
        [.showEligibility a.status (c.attempt + 1)])

/-- The choices that a state offers. -/
def offers : UpdateState → UserAction → Bool
  | .awaitingUserDecision, .accept => true
  | .awaitingUserDecision, .decline => true
  | .downloading, .cancelDownload => true
  | _, _ => false

/-- What a message can do in the foreground, by the message. -/
inductive Responds (c : Coordinator) (a : Answers) : Incoming → Turn → Prop
  | strayReport {r : SessionReport} : (∀ s, c.session = some s → r.session ≠ s.id) →
      Responds c a (.report r) (c, [])
  | progressed {r : SessionReport} {s : Session} : c.state = .downloading → c.session = some s →
      r.session = s.id → r.outcome.isTerminal = false →
      Responds c a (.report r) ({ c with session := some (s.accept r).1 },
        (s.accept r).2.flatMap (DownloadOutcome.shown c.attempt))
  | cancelled {n : Nat} {s : Session} : c.state = .downloading → c.session = some s → n = s.id →
      Responds c a (.report ⟨n, .cancelled⟩) (c.ended .cancelled,
        s.opening.flatMap (DownloadOutcome.shown c.attempt) ++ [.dismiss, .tell .cancelled])
  | failed {n : Nat} {s : Session} {status : UInt16} {code : UInt32} : c.state = .downloading →
      c.session = some s → n = s.id →
      Responds c a (.report ⟨n, .failed status code⟩) (c.reawaiting,
        s.opening.flatMap (DownloadOutcome.shown c.attempt) ++ [.dismiss, .showError c.attempt])
  | handedOver {n : Nat} {s : Session} {p : Path} : c.state = .downloading →
      c.session = some s → n = s.id → a.installPackage p = .ok () →
      Responds c a (.report ⟨n, .completed p⟩) (c.ended .completed,
        s.opening.flatMap (DownloadOutcome.shown c.attempt) ++ [.installPackage p, .dismiss])
  | notTaken {n : Nat} {s : Session} {p : Path} {f : PlatformFault} : c.state = .downloading →
      c.session = some s → n = s.id → a.installPackage p = .error f →
      Responds c a (.report ⟨n, .completed p⟩) (c.reawaiting,
        s.opening.flatMap (DownloadOutcome.shown c.attempt) ++
          [.installPackage p, .dismiss, .showError c.attempt])
  | accepted : c.state = .awaitingUserDecision → c.url ≠ "" →
      Responds c a (.action ⟨c.attempt, .accept⟩)
        ({ c with state := .downloading, lastSession := c.lastSession + 1,
                  session := some (Session.new (c.lastSession + 1)).start,
                  request := some c.buildRequest },
          [.startDownload (c.lastSession + 1) c.buildRequest])
  | redirected {store : StoreContext} : c.state = .awaitingUserDecision → c.url = "" →
      c.setup.presentation = .foreground store → a.openStore store.uri = .ok () →
      Responds c a (.action ⟨c.attempt, .accept⟩)
        ({ c with state := .idle }, [.openStore store.uri, .dismiss])
  | aborted {store : StoreContext} {f : PlatformFault} : c.state = .awaitingUserDecision →
      c.url = "" → c.setup.presentation = .foreground store → a.openStore store.uri = .error f →
      Responds c a (.action ⟨c.attempt, .accept⟩) (c, [.openStore store.uri, .abort f])
  | declined : c.state = .awaitingUserDecision →
      Responds c a (.action ⟨c.attempt, .decline⟩)
        (c.ended .cancelled, [.dismiss, .tell .cancelled])
  | cancelling : c.state = .downloading →
      Responds c a (.action ⟨c.attempt, .cancelDownload⟩) (c, c.cancelSession)
  | strayAction {r : ActionReport} : r.attempt ≠ c.attempt ∨ offers c.state r.action = false →
      Responds c a (.action r) (c, [])
  | strayWork {w : WorkResult} : Responds c a (.work w) (c, [])

variable {c : Coordinator} {a : Answers}

theorem attemptUpdate_invites (hf : c.isForeground = true) (a : Answers) :
    Invites c a (c.attemptUpdate a).1 (c.attemptUpdate a).2 := by
  unfold attemptUpdate
  split
  · rename_i h
    refine .refused ((Bool.or_eq_true _ _ ▸ h).imp_left fun h hi => ?_)
    rw [hi] at h
    cases h
  · rename_i h
    have hidle : c.state = .idle := by
      cases hst : c.state <;> simp_all [UpdateState.isIdle]
    have hsat : a.status.isSatisfied = false := by simp_all
    have hf' : isForeground { c with attempt := c.attempt + 1 } = true := hf
    obtain ⟨store, hs⟩ : ∃ store, c.setup.presentation = .foreground store := by
      unfold isForeground at hf
      cases hp : c.setup.presentation with
      | background => rw [hp] at hf; cases hf
      | foreground store => exact ⟨store, rfl⟩
    simp only [hf', if_true, hs, Presentation.presentEligibility]
    exact .asked hidle hsat

section
variable {store : StoreContext} (hf : c.setup.presentation = .foreground store)
include hf

theorem isForeground_foreground : c.isForeground = true := by
  simp [isForeground, hf, Presentation.isForeground]

theorem dispatch_foreground (e : UpdateEvent) :
    c.dispatch e = (c, Presentation.showEvent c.attempt e) := by
  simp [dispatch, hf, Presentation.present]

theorem finish_cancelled (hart : c.artifact = none) :
    c.finish .cancelled = (c.ended .cancelled, [.dismiss, .tell .cancelled]) := by
  unfold finish ended finalEffects
  rw [hart, hf]
  rfl

theorem finish_completed (hart : c.artifact = none) :
    c.finish .completed = (c.ended .completed, [.dismiss]) := by
  unfold finish ended finalEffects
  rw [hart, hf]
  rfl

theorem onDownload_shown (a : Answers) (hd : c.state = .downloading) {o : DownloadOutcome}
    (ho : o.isTerminal = false) : c.onDownload a o = (c, o.shown c.attempt) := by
  have hdl : c.isDownloading = true := by simp [isDownloading, hd]
  cases o with
  | started =>
    simp [onDownload, hdl, dispatch_foreground hf, DownloadOutcome.shown, Presentation.showEvent]
  | progress p =>
    simp [onDownload, hdl, dispatch_foreground hf, DownloadOutcome.shown, Presentation.showEvent]
  | cancelled => cases ho
  | failed st code => cases ho
  | completed p => cases ho

theorem onDownload_cancelled (a : Answers) (hd : c.state = .downloading)
    (hart : c.artifact = none) :
    c.onDownload a .cancelled = (c.ended .cancelled, [.dismiss, .tell .cancelled]) := by
  have hdl : c.isDownloading = true := by simp [isDownloading, hd]
  simp only [onDownload, hdl, Bool.not_true, Bool.false_eq_true, if_false]
  exact finish_cancelled (c := { c with session := none }) hf hart

theorem offerRetry_foreground (e : UpdateError) :
    offerRetry e { c with session := none } =
      (c.reawaiting, [.dismiss, .showError c.attempt]) :=
  dispatch_foreground (c := c.reawaiting) hf (.failed e)

theorem onDownload_failed (a : Answers) (hd : c.state = .downloading) (status : UInt16)
    (code : UInt32) :
    c.onDownload a (.failed status code) = (c.reawaiting, [.dismiss, .showError c.attempt]) := by
  have hdl : c.isDownloading = true := by simp [isDownloading, hd]
  have hf' : isForeground { c with session := none } = true := isForeground_foreground hf
  simp only [onDownload, hdl, hf', Bool.not_true, Bool.false_eq_true, if_false, if_true]
  exact offerRetry_foreground hf _

theorem onDownload_delivered (a : Answers) (hd : c.state = .downloading) (hart : c.artifact = none)
    (p : Path) :
    (a.installPackage p = .ok () →
      c.onDownload a (.completed p) = (c.ended .completed, [.installPackage p, .dismiss])) ∧
    (∀ f, a.installPackage p = .error f → c.onDownload a (.completed p) =
      (c.reawaiting, [.installPackage p, .dismiss, .showError c.attempt])) := by
  have hdl : c.isDownloading = true := by simp [isDownloading, hd]
  have hf' : isForeground { c with session := none } = true := isForeground_foreground hf
  simp only [onDownload, hdl, hf', Bool.not_true, Bool.false_eq_true, if_false, if_true, handOff,
    hf, Presentation.handOff]
  refine ⟨fun h => ?_, fun f h => ?_⟩
  · simp only [h, Turn.andThen, finish_completed (c := { c with session := none }) hf hart]
    rfl
  · simp only [h, Turn.andThen, offerRetry_foreground hf]
    rfl

theorem onReport_responds (hs : Attending c) (a : Answers) (r : SessionReport) :
    Responds c a (.report r) (c.onReport a r) := by
  by_cases hstray : ∀ s, c.session = some s → r.session ≠ s.id
  · rw [onReport_stray hstray]
    exact .strayReport hstray
  · obtain ⟨s, hsess, hid⟩ : ∃ s, c.session = some s ∧ r.session = s.id := by simpa using hstray
    cases hs with
    | idle _ hno => simp [hsess] at hno
    | awaiting _ hno => simp [hsess] at hno
    | downloading s' q hd hsess' _ hph _ _ hart =>
      obtain rfl : s = s' := Option.some.inj (hsess.symm.trans hsess')
      -- Reports that do not end the transfer only move the dialog, each in turn.
      have shown : ∀ (s' : Session) (os : List DownloadOutcome),
          (∀ o ∈ os, o.isTerminal = false) →
          ∀ o ∈ os, onDownload a o { c with session := some s' } =
            ({ c with session := some s' }, o.shown c.attempt) := fun s' _ h o ho =>
        onDownload_shown (c := { c with session := some s' }) hf a hd (h o ho)
      unfold onReport
      rw [hsess]
      dsimp only
      cases ho : r.outcome.isTerminal with
      | false =>
        obtain ⟨-, -, -, hopen⟩ := s.accept_open hid hph ho
        rw [onDownloads_steady (shown _ _ hopen)]
        exact .progressed hd hsess hid ho
      | true =>
        rw [s.accept_final hid hph ho]
        dsimp only
        rw [onDownloads_concat (shown _ _ s.opening_told)]
        obtain ⟨n, o⟩ := r
        dsimp only at hid ho ⊢
        let c' : Coordinator := { c with session := some { s with phase := .terminal } }
        cases o with
        | started => cases ho
        | progress p => cases ho
        | cancelled =>
          rw [onDownload_cancelled (c := c') hf a hd hart]
          exact .cancelled hd hsess hid
        | failed status code =>
          rw [onDownload_failed (c := c') hf a hd]
          exact .failed hd hsess hid
        | completed p =>
          obtain ⟨htaken, hnot⟩ := onDownload_delivered (c := c') hf a hd hart p
          cases hp : a.installPackage p with
          | ok u =>
            rw [htaken hp]
            exact .handedOver hd hsess hid hp
          | error f =>
            rw [hnot f hp]
            exact .notTaken hd hsess hid hp

theorem beginDownload_responds (ha : c.state = .awaitingUserDecision) (a : Answers) :
    Responds c a (.action ⟨c.attempt, .accept⟩) (c.beginDownload a) := by
  have hurl : c.buildRequest.url = c.url := rfl
  simp only [beginDownload, hurl, isForeground_foreground hf, if_true]
  by_cases hu : c.url = ""
  · rw [if_pos hu]
    cases hs : a.openStore store.uri with
    | ok u =>
      have he : c.redirectToStore a =
          ({ c with state := .idle }, [.openStore store.uri, .dismiss]) := by
        simp [redirectToStore, hf, Presentation.openStore, hs, Except.map,
          Presentation.dismissDialog]
      rw [he]
      exact .redirected ha hu hf hs
    | error f =>
      have he : c.redirectToStore a = (c, [.openStore store.uri, .abort f]) := by
        simp [redirectToStore, hf, Presentation.openStore, hs, Except.map]
      rw [he]
      exact .aborted ha hu hf hs
  · rw [if_neg hu]
    exact .accepted ha hu

theorem onAction_responds (hs : Attending c) (a : Answers) (r : ActionReport) :
    Responds c a (.action r) (c.onAction a r) := by
  obtain ⟨n, x⟩ := r
  unfold onAction
  split
  · rename_i hn
    exact .strayAction (.inl (by simpa using hn))
  · rename_i hn
    obtain rfl : n = c.attempt := by simpa using hn
    have hart : c.artifact = none := by
      cases hs <;> assumption
    dsimp only
    split
    · exact beginDownload_responds hf ‹_› a
    · rw [finish_cancelled hf hart]
      exact .declined ‹_›
    · exact .cancelling ‹_›
    · refine .strayAction (.inr ?_)
      unfold offers
      split <;> simp_all

omit hf in
theorem onWork_responds (hs : Attending c) (a : Answers) (w : WorkResult) :
    Responds c a (.work w) (c.onWork w) := by
  have he : c.onWork w = (c, []) := by
    unfold onWork
    cases hs <;> split <;> simp_all
  rw [he]
  exact .strayWork

/-- All that a message can do in the foreground. -/
theorem handle_responds (hs : Attending c) (a : Answers) (m : Incoming) :
    Responds c a m (c.handle a m) := by
  cases m with
  | work w => exact onWork_responds hs a w
  | report r => exact onReport_responds hf hs a r
  | action r => exact onAction_responds hf hs a r

end

/-! ## What a step keeps -/

/-- Only four of the fields belong together. -/
theorem Attending.congr {c' : Coordinator} (hs : Attending c) (hst : c'.state = c.state)
    (hse : c'.session = c.session) (hre : c'.request = c.request)
    (har : c'.artifact = c.artifact) (hla : c'.lastSession = c.lastSession) : Attending c' := by
  cases hs with
  | idle h1 h2 h3 => exact .idle (hst ▸ h1) (hse ▸ h2) (har ▸ h3)
  | awaiting h1 h2 h3 => exact .awaiting (hst ▸ h1) (hse ▸ h2) (har ▸ h3)
  | downloading s q h1 h2 ht hp hi h3 h4 =>
    exact .downloading s q (hst ▸ h1) (hse ▸ h2) ht hp (hla ▸ hi) (hre ▸ h3) (har ▸ h4)

theorem Attending.next {c' : Coordinator} {m : Incoming} (hs : Attending c) (hn : c.Next m c') :
    Attending c' := by
  cases hn <;> exact hs.congr rfl rfl rfl rfl rfl

theorem Attending.artifact (hs : Attending c) : c.artifact = none := by
  cases hs <;> assumption

theorem Attending.session (hs : Attending c) (h : c.state ≠ .downloading) : c.session = none := by
  cases hs with
  | idle _ hse => exact hse
  | awaiting _ hse => exact hse
  | downloading _ _ hst => exact absurd hst h

theorem Attending.open_session {s : Session} (hs : Attending c) (h : c.session = some s) :
    s.phase ≠ .terminal := by
  cases hs <;> simp_all

theorem Invites.attending {b : Bool} {t : Turn} (h : Invites c a b t) (hs : Attending c) :
    Attending t.1 := by
  cases h with
  | refused => exact hs
  | asked hst => exact .awaiting rfl (hs.session (by simp [hst])) hs.artifact

theorem Responds.attending {m : Incoming} {t : Turn} (h : Responds c a m t) (hs : Attending c) :
    Attending t.1 := by
  cases h with
  | strayReport => exact hs
  | strayWork => exact hs
  | strayAction => exact hs
  | cancelling => exact hs
  | aborted => exact hs
  | cancelled => exact .idle rfl rfl rfl
  | handedOver => exact .idle rfl rfl rfl
  | declined => exact .idle rfl rfl rfl
  | failed => exact .awaiting rfl rfl hs.artifact
  | notTaken => exact .awaiting rfl rfl hs.artifact
  | redirected hst => exact .idle rfl (hs.session (by simp [hst])) hs.artifact
  | accepted =>
    exact .downloading _ _ rfl rfl rfl (by simp [Session.start, Session.new]) rfl rfl hs.artifact
  | @progressed r s hst hse hid ho =>
    cases hs with
    | idle h => rw [hst] at h; cases h
    | awaiting h => rw [hst] at h; cases h
    | downloading s' q _ hse' htr hph hla hq hart =>
      obtain rfl : s = s' := Option.some.inj (hse.symm.trans hse')
      obtain ⟨h1, h2, h3, -⟩ := s.accept_open hid hph ho
      exact .downloading _ q hst rfl (h2.trans htr) (by rw [h3]; decide) (h1.trans hla) hq hart

theorem Invites.setup {b : Bool} {t : Turn} (h : Invites c a b t) : t.1.setup = c.setup := by
  cases h <;> rfl

theorem Responds.setup {m : Incoming} {t : Turn} (h : Responds c a m t) : t.1.setup = c.setup := by
  cases h <;> rfl

end Coordinator

end SharedRuntime
