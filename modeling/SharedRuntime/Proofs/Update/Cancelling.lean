import SharedRuntime.Proofs.Update.Effects
import SharedRuntime.Proofs.Update.Fifo
import SharedRuntime.Proofs.Update.HandOff

/-!
# Requests to cancel

A request to cancel only asks the transport to stop; how the download comes out is for its reports to
say. They are taken in the order in which they arrived (`reports_run`), the first end among those of
a live session is acted on (`Concludes`), and nothing that comes after it is. A transport is asked to
stop only while its session is live (`step_cancels`, `cancels_run`).
-/

set_option autoImplicit false

namespace SharedRuntime

/-! ## Reports -/

/-- The reports that arrived, in order. -/
def arrived (ms : List Moment) : List SessionReport := ms.filterMap Moment.reported?

/-- The reports that were taken, in order. -/
def heeded (ms : List Moment) : List SessionReport := ms.filterMap Moment.report?

namespace Coordinator

variable {c : Coordinator} {a : Answers}

/-! ## Ends -/

/-- What the coordinator does on the end of its download. -/
inductive Concludes (c : Coordinator) : DownloadOutcome → Turn → Prop
  | cancelled {t : Turn} : t.1.state = .idle → t.1.lastOutcome = some .cancelled →
      Concludes c .cancelled t
  | failed {status : UInt16} {code : UInt32} {t : Turn} : c.isForeground = false →
      t.1.state = .idle → t.1.lastOutcome = some (.failed (.transport status code)) →
      Concludes c (.failed status code) t
  | asked {status : UInt16} {code : UInt32} {t : Turn} : c.isForeground = true →
      t.1.state = .awaitingUserDecision → .showError c.attempt ∈ t.2 →
      Concludes c (.failed status code) t
  | verifying {p : Path} {t : Turn} : c.isForeground = false → t.1.state = .verifying →
      .verify p ∈ t.2 → Concludes c (.completed p) t
  | installing {p d : Path} {t : Turn} : c.isForeground = false → t.1.state = .installing →
      .install p d ∈ t.2 → Concludes c (.completed p) t
  | handedOver {p : Path} {t : Turn} : c.isForeground = true → .installPackage p ∈ t.2 →
      Concludes c (.completed p) t

/-- An end of the stored session is acted on. -/
theorem Handles.concludes {r : SessionReport} {t : Turn} (h : c.Handles a (.report r) t)
    (hid : c.session.map Session.id = some r.session) (ho : r.outcome.isTerminal = true) :
    Concludes c r.outcome t := by
  obtain ⟨s, hs, hid⟩ := Option.map_eq_some_iff.1 hid
  cases h with
  | background hmode _ hc =>
    cases hc with
    | strayReport hstray => exact absurd hid.symm (hstray s hs)
    | progressed _ _ _ hopen => rw [hopen] at ho; cases ho
    | toVerify => exact .verifying hmode rfl (by simp)
    | toInstall => exact .installing hmode rfl (List.mem_append_right _ List.mem_cons_self)
    | stopped _ _ _ hx =>
      obtain ⟨n, o⟩ := r
      cases o with
      | cancelled =>
        cases hx
        exact .cancelled rfl rfl
      | failed status code =>
        cases hx
        exact .failed hmode rfl rfl
      | _ => cases hx
  | foreground hmode _ hc =>
    cases hc with
    | strayReport hstray => exact absurd hid.symm (hstray s hs)
    | progressed _ _ _ hopen => rw [hopen] at ho; cases ho
    | cancelled => exact .cancelled rfl rfl
    | failed => exact .asked hmode rfl (by simp)
    | handedOver => exact .handedOver hmode (by simp)
    | notTaken => exact .handedOver hmode (by simp)

/-! ## Requests -/

/-- A choice to cancel does no more than any other request. -/
theorem onAction_cancelDownload (c : Coordinator) (a : Answers) (n : Nat) :
    ∃ es, c.Stops es ∧ c.onAction a ⟨n, .cancelDownload⟩ = (c, es) := by
  unfold onAction
  split
  · exact ⟨[], .inl rfl, rfl⟩
  · dsimp only
    split
    · contradiction
    · contradiction
    · exact ⟨_, .inr ⟨‹_›, rfl⟩, rfl⟩
    · exact ⟨[], .inl rfl, rfl⟩

end Coordinator

def Effect.stopped? : Effect → Option Nat
  | .cancelDownload id => some id
  | _ => none

namespace Coordinator

variable {c : Coordinator} {a : Answers}

/-- A call for an attempt stops nothing. -/
theorem Calls.stops {b : Bool} {t : Turn} (h : c.Calls a b t) :
    t.2.filterMap Effect.stopped? = [] := by
  cases h with
  | background _ _ hc => cases hc <;> rfl
  | foreground _ _ hc => cases hc <;> rfl

/-- The only message that stops something is a choice to cancel. -/
theorem Handles.stops {m : Incoming} {t : Turn} (h : c.Handles a m t) :
    t.2.filterMap Effect.stopped? = [] ∨
      (∃ r, m = .action r) ∧ c.state = .downloading ∧ t = (c, c.cancelSession) := by
  have told : ∀ os : List DownloadOutcome,
      (os.flatMap DownloadOutcome.told).filterMap Effect.stopped? = [] :=
    DownloadOutcome.filterMap_told fun _ => rfl
  have shown : ∀ os : List DownloadOutcome,
      (os.flatMap (DownloadOutcome.shown c.attempt)).filterMap Effect.stopped? = [] :=
    DownloadOutcome.filterMap_shown (fun _ => rfl) (fun _ => rfl) c.attempt
  cases h with
  | background _ _ hc =>
    cases hc with
    | cancelling hst => exact .inr ⟨⟨_, rfl⟩, hst, rfl⟩
    | progressed => exact .inl (told _)
    | stopped => exact .inl (by rw [List.filterMap_append, told]; rfl)
    | toVerify => exact .inl (by rw [List.filterMap_append, told]; rfl)
    | toInstall => exact .inl (by rw [List.filterMap_append, told]; rfl)
    | _ => exact .inl rfl
  | foreground _ _ hc =>
    cases hc with
    | cancelling hst => exact .inr ⟨⟨_, rfl⟩, hst, rfl⟩
    | progressed => exact .inl (shown _)
    | cancelled => exact .inl (by rw [List.filterMap_append, shown]; rfl)
    | failed => exact .inl (by rw [List.filterMap_append, shown]; rfl)
    | handedOver => exact .inl (by rw [List.filterMap_append, shown]; rfl)
    | notTaken => exact .inl (by rw [List.filterMap_append, shown]; rfl)
    | _ => exact .inl rfl

end Coordinator

/-! ## Runs -/

namespace Life

variable {l l' : Life} {setup : Setup}

/-- Reports are taken in the order in which they arrived, and none is lost. -/
theorem reports_run (h : l.Reached setup) :
    arrived l.record = heeded l.record ++ l.coordinator.reports :=
  fifo_reports.run h

/-- What a request may ask of the transport: to stop the live session while it loads. -/
def Stoppable (l : Life) (es : List Effect) : Prop :=
  es = [] ∨ l.coordinator.state = .downloading ∧
    ∃ id, Live l.record id ∧ es = [.cancelDownload id]

theorem stoppable (hlive : ∀ id, Live l.record id ↔ l.coordinator.session.map Session.id = some id)
    {es : List Effect} (hes : l.coordinator.Stops es) : l.Stoppable es := by
  rcases hes with rfl | ⟨hst, rfl⟩
  · exact .inl rfl
  · rcases l.coordinator.cancelSession_cases with hes | ⟨s, hs, hes⟩
    · exact .inl hes
    · exact .inr ⟨hst, s.id, (hlive s.id).2 (by rw [hs]; rfl), hes⟩

/-- What a step asks the transport to stop. -/
inductive Cancels (l l' : Life) : Prop
  | nothing {ms : List Moment} : l'.record = l.record ++ ms →
      (∀ id, .asked (.cancelDownload id) ∉ ms) → Cancels l l'
  | session {first : Moment} {id : Nat} : l.coordinator.state = .downloading →
      l'.coordinator.state = .downloading → Live l.record id → first.effect? = none →
      first.report? = none → l'.record = l.record ++ [first, .asked (.cancelDownload id)] →
      Cancels l l'

theorem not_mem_turn {first : Moment} {es : List Effect} (hf : first.effect? = none)
    (hes : es.filterMap Effect.stopped? = []) (id : Nat) :
    .asked (.cancelDownload id) ∉ first :: es.map Moment.asked := by
  intro hm
  rcases List.mem_cons.1 hm with rfl | hm
  · cases hf
  · obtain ⟨e, he, heq⟩ := List.mem_map.1 hm
    cases heq
    have hnone := List.filterMap_eq_nil_iff.1 hes _ he
    cases hnone

theorem Stoppable.cancels {es : List Effect} (h : l.Stoppable es) {first : Moment}
    {c : Coordinator} (hst : c.state = l.coordinator.state) (hf : first.effect? = none)
    (hr : first.report? = none) : l.Cancels (l.turn first (c, es)) := by
  rcases h with rfl | ⟨hd, id, hlive, rfl⟩
  · exact .nothing rfl (not_mem_turn hf rfl)
  · exact .session hd (hst.trans hd) hlive hf hr rfl

theorem step_cancels (hs : l.Steady setup)
    (hlive : ∀ id, Live l.record id ↔ l.coordinator.session.map Session.id = some id)
    {x : Happening} (hl : l.step x = some l') : l.Cancels l' := by
  cases step_goes hl with
  | still => exact .nothing (List.append_nil _).symm fun _ hm => by cases hm
  | @heard m c waiting running hm =>
    refine .nothing rfl fun id hmem => ?_
    cases List.mem_singleton.1 hmem
    cases hm
  | called a => exact .nothing rfl (not_mem_turn rfl (hs.calls a).stops)
  | cancelled hes => exact (stoppable hlive hes).cancels rfl rfl rfl
  | @took a m c _ hn =>
    rcases (hs.handles a hn).stops with hes | ⟨⟨r, rfl⟩, hst, ht⟩
    · exact .nothing rfl (not_mem_turn rfl hes)
    · have hsame : c.state = l.coordinator.state := by cases hn; rfl
      have hcancel : c.cancelSession = l.coordinator.cancelSession := by cases hn; rfl
      have hstops : l.coordinator.Stops c.cancelSession := .inr ⟨hsame ▸ hst, hcancel⟩
      rw [ht]
      exact (stoppable hlive hstops).cancels hsame rfl rfl

/-- Only the live session is ever asked to stop. -/
theorem cancels_run (h : l.Reached setup) {past later : List Moment} {id : Nat}
    (hrec : l.record = past ++ .asked (.cancelDownload id) :: later) : Live past id := by
  revert past later id
  refine h.invariant (P := fun l => ∀ {past later : List Moment} {id : Nat},
    l.record = past ++ .asked (.cancelDownload id) :: later → Live past id) ?_ ?_
  · intro past later id hrec
    simp [new] at hrec
  · intro l x l' hreach hold hx past later id hrec
    have hs := hreach.steady
    obtain ⟨hs', hr'⟩ := hreach
    cases step_cancels hs (fun id => live_iff hr') hx with
    | nothing hms hno =>
      rw [hms] at hrec
      obtain ⟨rest, hrest⟩ := split_of_append hrec (hno id)
      exact hold hrest
    | @session first id' _ _ hlive hf hr hms =>
      rw [hms, List.append_cons] at hrec
      rcases split_of_concat hrec with ⟨heq, rfl⟩ | ⟨rest, hrest⟩
      · cases heq
        refine ⟨?_, fun hland => hlive.2 (hland.of_append fun o ho => ?_)⟩
        · rw [sessions_append]
          exact List.mem_append_left _ hlive.1
        · obtain rfl := List.mem_singleton.1 ho
          cases hr
      · rcases split_of_concat hrest with ⟨rfl, -⟩ | ⟨rest', hrest'⟩
        · cases hf
        · exact hold hrest'

/-- In every run, in either mode, reports are taken in the order in which they arrived. The first end
among those of a live session is acted on, whatever was requested meanwhile, and after it the session
is not live, so that nothing else it reports is. A request to cancel leaves the coordinator as it is
and asks for nothing but that the live session stops while it loads; none reaches the transport
without a live session, and no call to cancel does in the foreground. -/
theorem run_stops {hs : List Happening} (hr : (new setup).run hs = some l) :
    arrived l.record = heeded l.record ++ l.coordinator.reports ∧
      (∀ r c a, l.coordinator.Next (.report r) c →
        (Live l.record r.session → r.outcome.isTerminal = true →
          c.Concludes r.outcome (c.handle a (.report r))) ∧
        (¬ Live l.record r.session → c.handle a (.report r) = (c, []))) ∧
      (∀ a, ∃ es, l.coordinator.cancelBackgroundUpdate a =
        (!es.isEmpty && a.cancels, l.coordinator, es) ∧ l.Stoppable es) ∧
      (∀ n c a, l.coordinator.Next (.action ⟨n, .cancelDownload⟩) c →
        ∃ es, c.handle a (.action ⟨n, .cancelDownload⟩) = (c, es) ∧ l.Stoppable es) ∧
      (∀ x l', l.step x = some l' → l.Cancels l') ∧
      (∀ past id later, l.record = past ++ .asked (.cancelDownload id) :: later → Live past id) ∧
      ((∀ id, ¬ Live l.record id) →
        ∀ a, l.coordinator.cancelBackgroundUpdate a = (false, l.coordinator, [])) ∧
      (∀ store, setup.presentation = .foreground store →
        ∀ a, l.coordinator.cancelBackgroundUpdate a = (false, l.coordinator, [])) := by
  have h : l.Reached setup := ⟨hs, hr⟩
  have hlive : ∀ id, Live l.record id ↔ l.coordinator.session.map Session.id = some id :=
    fun id => live_iff hr
  have hcall : ∀ a, ∃ es, l.coordinator.cancelBackgroundUpdate a =
      (!es.isEmpty && a.cancels, l.coordinator, es) ∧ l.Stoppable es := by
    intro a
    obtain ⟨es, hes, hc⟩ := l.coordinator.cancelBackgroundUpdate_stops a
    exact ⟨es, hc, stoppable hlive hes⟩
  refine ⟨reports_run h, fun r c a hn => ?_, hcall, fun n c a hn => ?_,
    fun x l' hx => step_cancels h.steady hlive hx, fun past id later hrec => cancels_run h hrec,
    fun hnone a => ?_, fun store hf a => ?_⟩
  · have hse : c.session = l.coordinator.session := by cases hn; rfl
    refine ⟨fun hid ho => (h.steady.handles a hn).concludes (hse ▸ (hlive _).1 hid) ho,
      fun hno => Coordinator.onReport_stray (fun s hs hid => hno ((hlive _).2 ?_)) a⟩
    rw [← hse, hs, hid]
    rfl
  · obtain ⟨es, hes, hc⟩ := c.onAction_cancelDownload a n
    refine ⟨es, hc, stoppable hlive (hes.imp_right fun ⟨hst, hcancel⟩ => ?_)⟩
    cases hn
    exact ⟨hst, hcancel⟩
  · obtain ⟨es, hc, rfl | ⟨-, id, hid, -⟩⟩ := hcall a
    · exact hc
    · exact absurd hid (hnone id)
  · obtain ⟨store', hf'⟩ := (attended_run hf hr).foreground
    simp [Coordinator.cancelBackgroundUpdate, Coordinator.isForeground_foreground hf']

/-- An attempt that is cancelled when the transfer has reported that it is complete; the report that
it was cancelled comes second. -/
def overtakenRun : List Happening :=
  [.overrideUrl "http://host/runtime", .attempt plainAnswers, .report ⟨1, .completed [3]⟩,
    .cancel plainAnswers, .report ⟨1, .cancelled⟩]

theorem run_stops_overtaken : ∃ (l l' : Life) (c : Coordinator),
    (new plainSetup).run overtakenRun = some l ∧
    arrived l.record = [⟨1, .completed [3]⟩, ⟨1, .cancelled⟩] ∧
    (∃ past later, l.record = past ++ .cancelled true :: .asked (.cancelDownload 1) :: later ∧
      Live (past ++ [.cancelled true]) 1) ∧
    c.Concludes (.completed [3]) (c.handle plainAnswers (.report ⟨1, .completed [3]⟩)) ∧
    l.step (.process plainAnswers) = some l' ∧
    ∀ a, l'.coordinator.cancelBackgroundUpdate a = (false, l'.coordinator, []) := by
  let past : List Moment := [.overridden "http://host/runtime", .attempted true,
    .asked (.startDownload 1 ⟨"http://host/runtime", .enabled, [1], [2]⟩),
    .reported ⟨1, .completed [3]⟩]
  have hr : (new plainSetup).run overtakenRun = some _ := rfl
  have hr' : (new plainSetup).run (overtakenRun ++ [.process plainAnswers]) = some _ := rfl
  obtain ⟨-, hends, -, -, -, hcancels, -⟩ := run_stops hr
  obtain ⟨-, -, -, -, -, -, hlate, -⟩ := run_stops hr'
  have hwins := (hends ⟨1, .completed [3]⟩ _ plainAnswers (.report rfl rfl)).1 ((live_iff hr).2 rfl)
  refine ⟨_, _, _, hr, rfl, ⟨past, _, rfl, hcancels (past ++ [.cancelled true]) 1 _ rfl⟩, hwins rfl,
    rfl, hlate fun id hid => ?_⟩
  cases (live_iff hr').1 hid

end Life

end SharedRuntime
