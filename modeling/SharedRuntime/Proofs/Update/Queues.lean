import SharedRuntime.Update.Coordinator

/-!
# The messages that wait

A coordinator reads its queues only to take the next message. A call and a message that was taken do
the same whatever else waits, and leave it as it is (`attemptUpdate_queued`, `handle_queued`).
-/

set_option autoImplicit false

namespace SharedRuntime

/-- The messages that wait, by their kind. -/
structure Queues where
  work : List WorkResult
  reports : List SessionReport
  actions : List ActionReport

/-- The coordinator with other messages that wait. -/
def Coordinator.queued (c : Coordinator) (q : Queues) : Coordinator :=
  { c with work := q.work, reports := q.reports, actions := q.actions }

def Turn.queued (t : Turn) (q : Queues) : Turn := (t.1.queued q, t.2)

def Coordinator.queues (c : Coordinator) : Queues := ⟨c.work, c.reports, c.actions⟩

theorem Turn.andThen_queued {t : Turn} {q : Queues} {f : Coordinator → Turn}
    (hf : ∀ c, f (c.queued q) = (f c).queued q) :
    (t.queued q).andThen f = (t.andThen f).queued q := by
  simp only [Turn.andThen, Turn.queued, hf]

namespace Coordinator

variable (c : Coordinator) (q : Queues) (a : Answers)

theorem finish_queued (o : UpdateOutcome) : (c.queued q).finish o = (c.finish o).queued q := rfl

theorem redirectToStore_queued : (c.queued q).redirectToStore a = (c.redirectToStore a).queued q := by
  have hset : (c.queued q).setup = c.setup := rfl
  unfold redirectToStore
  rw [hset]
  generalize c.setup.presentation.openStore a.openStore = r
  rcases r with ⟨es, _ | (f | uri)⟩ <;> rfl

theorem beginDownload_queued : (c.queued q).beginDownload a = (c.beginDownload a).queued q := by
  have hurl : (c.queued q).buildRequest = c.buildRequest := rfl
  have hmode : (c.queued q).isForeground = c.isForeground := rfl
  unfold beginDownload
  rw [hurl, hmode]
  dsimp only
  split
  · split
    · exact redirectToStore_queued c q a
    · rfl
  · rfl

theorem attemptUpdate_queued : (c.queued q).attemptUpdate a =
    ((c.attemptUpdate a).1, (c.attemptUpdate a).2.queued q) := by
  unfold attemptUpdate
  show (if !c.state.isIdle || a.status.isSatisfied then _ else _) = _
  split
  · rfl
  · dsimp only
    show (if isForeground { c with attempt := c.attempt + 1 } then _ else _) = _
    split
    · rfl
    · exact congrArg _ (beginDownload_queued { c with attempt := c.attempt + 1 } q a)

theorem cancelBackgroundUpdate_queued : (c.queued q).cancelBackgroundUpdate a =
    ((c.cancelBackgroundUpdate a).1, (c.cancelBackgroundUpdate a).2.queued q) := by
  unfold cancelBackgroundUpdate
  show (if c.isForeground || !c.isDownloading then _ else _) = _
  split <;> rfl

theorem onAction_queued (r : ActionReport) :
    (c.queued q).onAction a r = (c.onAction a r).queued q := by
  have hat : (c.queued q).attempt = c.attempt := rfl
  have hst : (c.queued q).state = c.state := rfl
  obtain ⟨n, x⟩ := r
  unfold onAction
  rw [hat, hst]
  dsimp only
  split
  · rfl
  · generalize hstate : c.state = st
    cases x with
    | accept =>
      cases st with
      | awaitingUserDecision => exact beginDownload_queued c q a
      | _ => rfl
    | decline => cases st <;> rfl
    | cancelDownload => cases st <;> rfl

theorem handOff_queued (p : Path) : (c.queued q).handOff a p = (c.handOff a p).queued q := by
  have hset : (c.queued q).setup = c.setup := rfl
  unfold handOff
  rw [hset]
  generalize c.setup.presentation.handOff a.installPackage p = r
  rcases r with ⟨es, f | u⟩ <;> rfl

theorem startInstall_queued : (c.queued q).startInstall = c.startInstall.queued q := by
  have hart : (c.queued q).artifact = c.artifact := rfl
  unfold startInstall
  rw [hart]
  generalize c.artifact = p
  cases p <;> rfl

theorem startVerify_queued : (c.queued q).startVerify = c.startVerify.queued q := by
  have hart : (c.queued q).artifact = c.artifact := rfl
  have hreq : (c.queued q).request = c.request := rfl
  have hinstall := startInstall_queued c q
  unfold startVerify
  rw [hart, hreq, hinstall]
  generalize c.startInstall = t
  generalize c.artifact = p
  cases p with
  | none => rfl
  | some p =>
    dsimp only
    split <;> rfl

theorem onDownload_queued (o : DownloadOutcome) :
    (c.queued q).onDownload a o = (c.onDownload a o).queued q := by
  have hdl : (c.queued q).isDownloading = c.isDownloading := rfl
  unfold onDownload
  rw [hdl]
  split
  · rfl
  · cases o with
    | started => rfl
    | progress p => rfl
    | cancelled => rfl
    | failed status code =>
      dsimp only
      show (if c.isForeground then _ else _) = Turn.queued (if c.isForeground then _ else _) q
      split <;> rfl
    | completed p =>
      dsimp only
      show (if c.isForeground then _ else _) = Turn.queued (if c.isForeground then _ else _) q
      split
      · exact handOff_queued { c with session := none } q a p
      · exact startVerify_queued { c with session := none, artifact := some p } q

theorem onDownloads_queued (os : List DownloadOutcome) :
    (c.queued q).onDownloads a os = (c.onDownloads a os).queued q := by
  induction os generalizing c with
  | nil => rfl
  | cons o os ih =>
    unfold onDownloads
    rw [onDownload_queued]
    exact Turn.andThen_queued ih

theorem onReport_queued (r : SessionReport) :
    (c.queued q).onReport a r = (c.onReport a r).queued q := by
  have hse : (c.queued q).session = c.session := rfl
  unfold onReport
  rw [hse]
  generalize c.session = s
  cases s with
  | none => rfl
  | some s => exact onDownloads_queued { c with session := some (s.accept r).1 } q a (s.accept r).2

theorem deleteArtifact_queued : (c.queued q).deleteArtifact = c.deleteArtifact.queued q := by
  have hart : (c.queued q).artifact = c.artifact := rfl
  unfold deleteArtifact
  rw [hart]
  generalize c.artifact = p
  cases p <;> rfl

theorem onWork_queued (w : WorkResult) : (c.queued q).onWork w = (c.onWork w).queued q := by
  have hst : (c.queued q).state = c.state := rfl
  have hends : ∀ o, (c.queued q).deleteArtifact.andThen (finish o) =
      (c.deleteArtifact.andThen (finish o)).queued q := by
    intro o
    rw [deleteArtifact_queued]
    exact Turn.andThen_queued fun c => finish_queued c q o
  unfold onWork
  rw [hst]
  generalize c.state = st
  cases w with
  | verified v =>
    cases st with
    | verifying =>
      dsimp only
      split
      · exact startInstall_queued c q
      · exact hends _
    | _ => rfl
  | installed r =>
    rcases r with e | u
    · cases st with
      | installing => exact hends _
      | _ => rfl
    · cases st with
      | installing => exact hends _
      | _ => rfl

/-- A message that was taken does the same whatever else waits. -/
theorem handle_queued (m : Incoming) : (c.queued q).handle a m = (c.handle a m).queued q := by
  cases m with
  | work w => exact onWork_queued c q w
  | report r => exact onReport_queued c q a r
  | action r => exact onAction_queued c q a r

/-- What waits behind a message is left as it is. -/
theorem handle_queues (m : Incoming) : (c.handle a m).1.queues = c.queues :=
  congrArg (fun t : Turn => t.1.queues) (handle_queued c c.queues a m)

theorem attemptUpdate_queues : (c.attemptUpdate a).2.1.queues = c.queues :=
  congrArg (fun x : Bool × Turn => x.2.1.queues) (attemptUpdate_queued c c.queues a)

theorem handle_work (m : Incoming) : (c.handle a m).1.work = c.work :=
  congrArg Queues.work (handle_queues c a m)

theorem attemptUpdate_work : (c.attemptUpdate a).2.1.work = c.work :=
  congrArg Queues.work (attemptUpdate_queues c a)

theorem handle_reports (m : Incoming) : (c.handle a m).1.reports = c.reports :=
  congrArg Queues.reports (handle_queues c a m)

theorem handle_actions (m : Incoming) : (c.handle a m).1.actions = c.actions :=
  congrArg Queues.actions (handle_queues c a m)

theorem attemptUpdate_reports : (c.attemptUpdate a).2.1.reports = c.reports :=
  congrArg Queues.reports (attemptUpdate_queues c a)

theorem attemptUpdate_actions : (c.attemptUpdate a).2.1.actions = c.actions :=
  congrArg Queues.actions (attemptUpdate_queues c a)

end Coordinator

end SharedRuntime
