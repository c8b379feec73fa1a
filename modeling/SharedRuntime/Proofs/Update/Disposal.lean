import SharedRuntime.Proofs.Artifact.Unpacking
import SharedRuntime.Artifact.Installation
import SharedRuntime.Proofs.Update.Effects

/-!
# How an artifact is disposed of

In the background the coordinator removes a file for one reason: it is the artifact that the session
of the attempt delivered, and all that was to be done with it was done. `Custody` says this of the
attempt that runs, by the state of the coordinator, and `Disposal` of an attempt that is over.
-/

set_option autoImplicit false

namespace SharedRuntime

/-- How an installation ends an attempt. -/
def installOutcome : Except UpdateError Unit → UpdateOutcome
  | .ok () => .completed
  | .error e => .failed e

/-- What was done, job by job, with the artifact at `p` that was loaded for `q`, and the end that
is told of it. -/
inductive Course (q : UpdateRequest) (p : Path) : List (Job × WorkResult) → UpdateEvent → Prop
  | rejected (v : Verdict) : q.verification = .enabled → v.passed = false →
      Course q p [(.verify p, .verified v)] (.failed (.invalidArtifact v.reason))
  | approved (v : Verdict) (r : Except UpdateError Unit) : q.verification = .enabled →
      v.passed = true →
        Course q p [(.verify p, .verified v), (.install p q.destination, .installed r)]
          (installOutcome r).event
  | unverified (r : Except UpdateError Unit) : q.verification = .disabled →
      Course q p [(.install p q.destination, .installed r)] (installOutcome r).event

namespace Attempt

variable {t : Attempt} {ms : List Moment} {p : Path}

/-- A live session delivers the artifact at `p` in the attempt. -/
def Delivers (t : Attempt) (p : Path) : Prop :=
  ∃ later, Delivery (t.before ++ [.attempted true]) t.moments p later

/-- In the attempt the artifact at `p` is removed once: when every job that was asked for has ended,
and right before the one end that is told. -/
structure Disposal (t : Attempt) (p : Path) (before : List Moment) (e : UpdateEvent)
    (after : List Moment) : Prop where
  moments : t.moments = before ++ .asked (.removeFile p) :: .asked (.tell e) :: after
  once : removed before = [] ∧ removed after = []
  delivered : Delivers ⟨t.before, before⟩ p
  course : ∃ id q, .asked (.startDownload id q) ∈ before ∧ Course q p (finished before) e
  /-- Each job that was asked for began and ended. -/
  ended : (sought before).Perm (begun before) ∧
    (begun before).Perm ((finished before).map Prod.fst)
  rest : sought after = [] ∧ begun after = [] ∧ finished after = []
  ends : e.isEnd = true ∧ (∀ x ∈ told before, x.isEnd = false) ∧ told after = []

theorem delivers_goesOn (hms : ∀ m ∈ ms, m.completes = false) :
    (t.goesOn ms).Delivers p ↔ t.Delivers p := by
  constructor
  · rintro ⟨later, h⟩
    obtain ⟨rest, -, h⟩ := h.of_append hms
    exact ⟨rest, h⟩
  · rintro ⟨later, h⟩
    exact ⟨_, h.append ms⟩

/-- A turn goes on with the deliveries of the attempt, or takes one. -/
theorem delivers_turn {first : Moment} {es : List Effect} :
    (t.goesOn (first :: es.map .asked)).Delivers p ↔ t.Delivers p ∨
      ∃ id, first = .taken (.report ⟨id, .completed p⟩) ∧
        Live (t.before ++ .attempted true :: t.moments) id := by
  rw [List.append_cons t.before]
  constructor
  · rintro ⟨later, h⟩
    rcases h.of_turn with ⟨rest, -, h⟩ | ⟨-, h⟩
    · exact .inl ⟨rest, h⟩
    · exact .inr h
  · rintro (⟨later, h⟩ | ⟨id, rfl, hlive⟩)
    · exact ⟨_, h.append _⟩
    · exact ⟨_, _, id, rfl, hlive⟩

end Attempt

namespace Life

/-- What became of the artifact of the attempt that runs or ran last, by the state of the
coordinator. -/
inductive Custody (l : Life) (t : Attempt) : Prop
  | empty (state : l.coordinator.state = .idle) (undelivered : ∀ p, ¬ t.Delivers p)
      (untouched : removed t.moments = [])
  | loading (id : Nat) (q : UpdateRequest) (state : l.coordinator.state = .downloading)
      (request : l.coordinator.request = some q) (started : .asked (.startDownload id q) ∈ t.moments)
      (undelivered : ∀ p, ¬ t.Delivers p) (untouched : removed t.moments = [])
      (jobs : sought t.moments = []) (results : worked t.moments = [])
  | verifying (id : Nat) (q : UpdateRequest) (p : Path) (state : l.coordinator.state = .verifying)
      (artifact : l.coordinator.artifact = some p) (request : l.coordinator.request = some q)
      (started : .asked (.startDownload id q) ∈ t.moments) (policy : q.verification = .enabled)
      (delivers : ∀ x, t.Delivers x ↔ x = p) (untouched : removed t.moments = [])
      (jobs : sought t.moments = [.verify p]) (results : worked t.moments = [])
  | installing (id : Nat) (q : UpdateRequest) (p : Path)
      (state : l.coordinator.state = .installing)
      (artifact : l.coordinator.artifact = some p)
      (started : .asked (.startDownload id q) ∈ t.moments)
      (delivers : ∀ x, t.Delivers x ↔ x = p) (untouched : removed t.moments = [])
      (jobs : (q.verification = .disabled ∧ sought t.moments = [.install p q.destination] ∧
          worked t.moments = []) ∨
        ∃ v, q.verification = .enabled ∧ v.passed = true ∧
          sought t.moments = [.verify p, .install p q.destination] ∧
          worked t.moments = [.verified v])
  | disposed (p : Path) (before after : List Moment) (e : UpdateEvent)
      (state : l.coordinator.state = .idle)
      (moments : t.moments = before ++ .asked (.removeFile p) :: .asked (.tell e) :: after)
      (delivers : ∀ x, t.Delivers x ↔ x = p) (delivered : Attempt.Delivers ⟨t.before, before⟩ p)
      (once : removed before = [] ∧ removed after = [])
      (course : ∃ id q, .asked (.startDownload id q) ∈ before ∧ Course q p (finished before) e)
      (ended : (sought before).Perm (begun before) ∧
        (begun before).Perm ((finished before).map Prod.fst))
      (rest : sought after = [])

variable {l l' : Life} {setup : Setup} {t : Attempt} {ms : List Moment}

/-- Moments that have no part in the artifact, while the coordinator stays where it is. -/
theorem Custody.aside (h : l.Custody t) (hdel : ∀ x, (t.goesOn ms).Delivers x ↔ t.Delivers x)
    (hrem : removed ms = []) (hjobs : sought ms = []) (hres : worked ms = [])
    (hst : l'.coordinator.state = l.coordinator.state)
    (hre : l'.coordinator.request = l.coordinator.request)
    (har : l'.coordinator.artifact = l.coordinator.artifact) : l'.Custody (t.goesOn ms) := by
  have hrem' : ∀ xs, removed xs = [] → removed (xs ++ ms) = [] := fun xs h => by
    rw [removed_append, h, hrem]
    rfl
  have hjobs' : ∀ xs, sought (xs ++ ms) = sought xs := fun xs =>
    List.filterMap_append.trans ((congrArg _ hjobs).trans (List.append_nil _))
  have hres' : ∀ xs, worked (xs ++ ms) = worked xs := fun xs =>
    List.filterMap_append.trans ((congrArg _ hres).trans (List.append_nil _))
  cases h with
  | empty h1 h2 h3 =>
    exact .empty (hst.trans h1) (fun p hp => h2 p ((hdel p).1 hp)) (hrem' _ h3)
  | loading id q h1 h2 h3 h4 h5 h6 h7 =>
    exact .loading id q (hst.trans h1) (hre.trans h2) (List.mem_append_left _ h3)
      (fun p hp => h4 p ((hdel p).1 hp)) (hrem' _ h5) ((hjobs' _).trans h6) ((hres' _).trans h7)
  | verifying id q p h1 h2 h3 h4 h5 h6 h7 h8 h9 =>
    exact .verifying id q p (hst.trans h1) (har.trans h2) (hre.trans h3)
      (List.mem_append_left _ h4) h5 (fun x => (hdel x).trans (h6 x)) (hrem' _ h7)
      ((hjobs' _).trans h8) ((hres' _).trans h9)
  | installing id q p h1 h2 h3 h4 h5 h6 =>
    refine .installing id q p (hst.trans h1) (har.trans h2) (List.mem_append_left _ h3)
      (fun x => (hdel x).trans (h4 x)) (hrem' _ h5) ?_
    rw [show sought (t.goesOn ms).moments = sought t.moments from hjobs' _,
      show worked (t.goesOn ms).moments = worked t.moments from hres' _]
    exact h6
  | disposed p before after e h1 h2 h3 h4 h5 h6 h7 h8 =>
    refine .disposed p before (after ++ ms) e (hst.trans h1) ?_ (fun x => (hdel x).trans (h3 x)) h4
      ⟨h5.1, hrem' _ h5.2⟩ h6 h7 ((hjobs' _).trans h8)
    simp [Attempt.goesOn, h2]

/-- A result that can be taken is that of the one job that was outstanding, which is over. -/
theorem Kept.of_work (h : l.Kept setup) {r : WorkResult} {c : Coordinator}
    (hn : l.coordinator.Next (.work r) c) :
    ((l.coordinator.state = .verifying ∧ ∃ v, r = .verified v) ∨
      l.coordinator.state = .installing ∧ ∃ x, r = .installed x) ∧
      l.waiting = [] ∧ l.running = [] ∧ l.coordinator.work = [r] := by
  cases h.phase with
  | idle _ hr =>
    cases hn with
    | work hw => rw [hr.work] at hw; cases hw
  | downloading _ _ _ _ _ hr =>
    cases hn with
    | work hw => rw [hr.work] at hw; cases hw
  | verifying p q hst _ _ _ _ hp =>
    obtain ⟨hfit, hw, hr, hwk, -⟩ := hp.of_next hn
    refine ⟨.inl ⟨hst, ?_⟩, hw, hr, hwk⟩
    cases r with
    | verified v => exact ⟨v, rfl⟩
    | installed x => cases hfit
  | installing p q hst _ _ _ hp =>
    obtain ⟨hfit, hw, hr, hwk, -⟩ := hp.of_next hn
    refine ⟨.inr ⟨hst, ?_⟩, hw, hr, hwk⟩
    cases r with
    | verified v => cases hfit
    | installed x => exact ⟨x, rfl⟩

/-- Once the last result waits alone, the jobs that ended are those that were asked for. -/
theorem Ledger.last (h : l.Ledger ms) {r : WorkResult} (hw : l.waiting = []) (hr : l.running = [])
    (hwk : l.coordinator.work = [r]) : (sought ms).Perm ((finished ms).map Prod.fst) ∧
      (finished ms).map Prod.snd = worked ms ++ [r] := by
  obtain ⟨hs, hb⟩ := h.settled hw hr
  exact ⟨hs.trans hb, hwk ▸ h.taken⟩

/-- The jobs that ended, if one was asked for. -/
theorem Ledger.one (h : l.Ledger ms) {j : Job} {r : WorkResult} (hw : l.waiting = [])
    (hr : l.running = []) (hwk : l.coordinator.work = [r]) (hj : sought ms = [j])
    (hres : worked ms = []) : finished ms = [(j, r)] := by
  obtain ⟨hjobs, hresults⟩ := h.last hw hr hwk
  rw [hj, List.singleton_perm] at hjobs
  rw [hres, List.nil_append] at hresults
  obtain ⟨x, hx, hxr⟩ := List.map_eq_singleton_iff.1 hresults
  rw [hx] at hjobs ⊢
  exact congrArg (fun y => [y]) (Prod.ext (List.singleton_inj.1 hjobs).symm hxr)

/-- The jobs that ended, if an installation was asked for after a verification. -/
theorem Ledger.two (h : l.Ledger ms) {p p' d : Path} {v : Verdict} {x : Except UpdateError Unit}
    (hw : l.waiting = []) (hr : l.running = []) (hwk : l.coordinator.work = [.installed x])
    (hj : sought ms = [.verify p, .install p' d]) (hres : worked ms = [.verified v]) :
    finished ms = [(.verify p, .verified v), (.install p' d, .installed x)] := by
  obtain ⟨hjobs, hresults⟩ := h.last hw hr hwk
  have hfits := h.fits
  rw [hres] at hresults
  match hfin : finished ms, hresults with
  | [(j, _), (j', _)], hresults =>
    obtain ⟨rfl, rfl⟩ : _ = WorkResult.verified v ∧ _ = WorkResult.installed x := by
      simpa using hresults
    rw [hfin] at hfits hjobs
    rw [hj] at hjobs
    have hfit := hfits _ List.mem_cons_self
    have hfit' := hfits _ (List.mem_cons_of_mem _ List.mem_cons_self)
    cases j with
    | install => cases hfit
    | verify a =>
      cases j' with
      | verify => cases hfit'
      | install b b' =>
        have ha : Job.verify a ∈ [Job.verify p, .install p' d] := hjobs.mem_iff.2 (by simp)
        have hb : Job.install b b' ∈ [Job.verify p, .install p' d] := hjobs.mem_iff.2 (by simp)
        simp_all

/-- Taking a result leaves the deliveries of the attempt as they are. -/
theorem delivers_worked {r : WorkResult} {es : List Effect} {x : Path} :
    (t.goesOn (.taken (.work r) :: es.map .asked)).Delivers x ↔ t.Delivers x :=
  Attempt.delivers_goesOn (List.forall_mem_cons.2 ⟨rfl, completes_asked⟩)

/-- A turn that ends the attempt removes the artifact once all jobs are over. -/
theorem Custody.dispose {c : Coordinator} {r : WorkResult} {p : Path} {e : UpdateEvent}
    (hled : l.Ledger t.moments) (hw : l.waiting = []) (hr : l.running = []) (hst : c.state = .idle)
    (hdel : ∀ x, t.Delivers x ↔ x = p) (hrem : removed t.moments = [])
    (hcourse : ∃ id q, .asked (.startDownload id q) ∈ t.moments ∧
      Course q p (finished t.moments) e) :
    (l.turn (.taken (.work r)) (c, [.removeFile p, .tell e])).Custody
      (t.goesOn (.taken (.work r) :: [Effect.removeFile p, .tell e].map .asked)) := by
  have hfin : finished (t.moments ++ [.taken (.work r)]) = finished t.moments :=
    finished_turn t.moments [] rfl
  have hsou : sought (t.moments ++ [.taken (.work r)]) = sought t.moments :=
    (sought_turn t.moments [] rfl).trans (List.append_nil _)
  have hbeg : begun (t.moments ++ [.taken (.work r)]) = begun t.moments :=
    begun_turn t.moments [] rfl
  have hrem' : removed (t.moments ++ [.taken (.work r)]) = [] :=
    (removed_turn t.moments rfl []).trans ((List.append_nil _).trans hrem)
  refine .disposed p (t.moments ++ [.taken (.work r)]) [] e hst (by simp [Attempt.goesOn])
    (fun x => delivers_worked.trans (hdel x)) ?_ ⟨hrem', rfl⟩ ?_ ?_ rfl
  · have hbefore : (t.goesOn (.taken (.work r) :: [].map .asked)).Delivers p :=
      delivers_worked.2 ((hdel p).2 rfl)
    exact hbefore
  · obtain ⟨id, q, hstart, hcourse⟩ := hcourse
    exact ⟨id, q, List.mem_append_left _ hstart, hfin.symm ▸ hcourse⟩
  · rw [hfin, hsou, hbeg]
    exact hled.settled hw hr

theorem Custody.work (hk : l.Kept setup) (hled : l.Ledger t.moments) (h : l.Custody t)
    {r : WorkResult} {c : Coordinator} {n : Turn} (hn : l.coordinator.Next (.work r) c)
    (hm : c.Moves (.work r) n) :
    (l.turn (.taken (.work r)) n).Custody (t.goesOn (.taken (.work r) :: n.2.map .asked)) := by
  obtain ⟨hstate, hw, hr, hwk⟩ := hk.of_work hn
  have hst : c.state = l.coordinator.state := by cases hn; rfl
  have hart : c.artifact = l.coordinator.artifact := by cases hn; rfl
  have hreq : c.request = l.coordinator.request := by cases hn; rfl
  -- Each rule fits one custody only, by the state of the coordinator.
  cases hm with
  | strayWork h1 h2 =>
    rcases hstate with ⟨hv, v, rfl⟩ | ⟨hi, x, rfl⟩
    · exact absurd (hst.trans hv) (h1 v rfl)
    · exact absurd (hst.trans hi) (h2 x rfl)
  | @approved v p q hv hpass ha hq =>
    rw [hst] at hv
    rw [hart] at ha
    rw [hreq] at hq
    cases h with
    | verifying id q' p' _ h2 h3 h4 h5 h6 h7 h8 h9 =>
      obtain rfl : p' = p := Option.some.inj (h2.symm.trans ha)
      obtain rfl : q' = q := Option.some.inj (h3.symm.trans hq)
      refine .installing id q' p' rfl (hart.trans h2) (List.mem_append_left _ h4)
        (fun x => delivers_worked.trans (h6 x)) ?_ (.inr ⟨v, h5, hpass, ?_, ?_⟩)
      · exact (removed_turn t.moments rfl _).trans (congrArg (· ++ []) h7)
      · exact (sought_turn t.moments _ rfl).trans (congrArg (· ++ _) h8)
      · exact (worked_turn t.moments _ _).trans (congrArg (· ++ _) h9)
    | _ => simp_all
  | @rejected v p hv hpass ha =>
    rw [hst] at hv
    rw [hart] at ha
    cases h with
    | verifying id q p' _ h2 _ h4 h5 h6 h7 h8 h9 =>
      obtain rfl : p' = p := Option.some.inj (h2.symm.trans ha)
      refine .dispose hled hw hr rfl h6 h7 ⟨id, q, h4, ?_⟩
      rw [hled.one hw hr hwk h8 h9]
      exact .rejected v h5 hpass
    | _ => simp_all
  | @installed x p o hi ha ho =>
    rw [hst] at hi
    rw [hart] at ha
    cases h with
    | installing id q p' _ h2 h3 h4 h5 h6 =>
      obtain rfl : p' = p := Option.some.inj (h2.symm.trans ha)
      obtain rfl : o = installOutcome x := by
        rw [ho]
        cases x <;> rfl
      refine .dispose hled hw hr rfl h4 h5 ⟨id, q, h3, ?_⟩
      rcases h6 with ⟨hoff, hjobs, hres⟩ | ⟨v, hon, hpass, hjobs, hres⟩
      · rw [hled.one hw hr hwk hjobs hres]
        exact .unverified x hoff
      · rw [hled.two hw hr hwk hjobs hres]
        exact .approved v x hon hpass
    | _ => simp_all

/-- A turn whose effects neither remove nor work, and that goes on with the deliveries. -/
theorem Custody.quiet_turn (h : l.Custody t) {first : Moment} {c : Coordinator} {es : List Effect}
    (hdel : ∀ x, (t.goesOn (first :: es.map .asked)).Delivers x ↔ t.Delivers x)
    (hrem : es.filterMap Effect.removal? = []) (hjobs : es.filterMap Effect.job? = [])
    (hfirst : first.removal? = none ∧ first.sought? = none ∧ first.worked? = none)
    (hst : c.state = l.coordinator.state) (hre : c.request = l.coordinator.request)
    (har : c.artifact = l.coordinator.artifact) :
    (l.turn first (c, es)).Custody (t.goesOn (first :: es.map .asked)) := by
  obtain ⟨hr, hs, hw⟩ := hfirst
  refine h.aside hdel ((removed_turn [] hr es).trans hrem) ((sought_turn [] es hs).trans hjobs) ?_
    hst hre har
  have hres := worked_turn [] first es
  rw [hw] at hres
  exact hres

/-- The artifact is there: the session of the attempt delivered it. -/
theorem Custody.delivery (h : l.Custody t) (hlat : l.Latest t) {n : Nat} {p : Path} {s : Session}
    {c : Coordinator} {e : Effect} {j : Job} (hlive : Live l.record s.id)
    (hd : l.coordinator.state = .downloading) (hid : n = s.id) (hj : e.job? = some j)
    (he : e.removal? = none)
    (hcustody : ∀ (l' : Life) (t' : Attempt) (id : Nat) (q : UpdateRequest), l'.coordinator = c →
      l.coordinator.request = some q → .asked (.startDownload id q) ∈ t'.moments →
      (∀ x, t'.Delivers x ↔ x = p) → removed t'.moments = [] → sought t'.moments = [j] →
      worked t'.moments = [] → l'.Custody t') :
    (l.turn (.taken (.report ⟨n, .completed p⟩))
      (c, s.opening.flatMap DownloadOutcome.told ++ [e])).Custody
      (t.goesOn (.taken (.report ⟨n, .completed p⟩) ::
        (s.opening.flatMap DownloadOutcome.told ++ [e]).map .asked)) := by
  subst hid
  rw [hlat.record] at hlive
  cases h with
  | loading id q _ h2 h3 h4 h5 h6 h7 =>
    refine hcustody _ _ id q rfl h2 (List.mem_append_left _ h3) (fun x => ?_) ?_ ?_ ?_
    · rw [Attempt.delivers_turn]
      constructor
      · rintro (hx | ⟨id', hm, -⟩)
        · exact absurd hx (h4 x)
        · cases hm
          rfl
      · rintro rfl
        exact .inr ⟨_, rfl, hlive⟩
    · refine (removed_turn t.moments rfl _).trans ?_
      rw [h5, List.filterMap_append, DownloadOutcome.filterMap_told (fun _ => rfl),
        List.filterMap_cons_none he]
      rfl
    · refine (sought_turn t.moments _ rfl).trans ?_
      rw [h6, List.filterMap_append, DownloadOutcome.filterMap_told (fun _ => rfl),
        List.filterMap_cons_some hj]
      rfl
    · exact (worked_turn t.moments _ _).trans (congrArg (· ++ _) h7)
  | _ => simp_all

theorem Custody.report (h : l.Custody t) (hlat : l.Latest t)
    (hlive : ∀ id, Live l.record id ↔ l.coordinator.session.map Session.id = some id)
    {r : SessionReport} {c : Coordinator} {n : Turn} (hn : l.coordinator.Next (.report r) c)
    (hm : c.Moves (.report r) n) :
    (l.turn (.taken (.report r)) n).Custody
      (t.goesOn (.taken (.report r) :: n.2.map .asked)) := by
  have hst : c.state = l.coordinator.state := by cases hn; rfl
  have hse : c.session = l.coordinator.session := by cases hn; rfl
  have hart : c.artifact = l.coordinator.artifact := by cases hn; rfl
  have hreq : c.request = l.coordinator.request := by cases hn; rfl
  have incomplete : ∀ es : List Effect, (∀ p, r.outcome ≠ .completed p) →
      ∀ x, (t.goesOn (.taken (.report r) :: es.map .asked)).Delivers x ↔ t.Delivers x := by
    intro es hr x
    refine Attempt.delivers_goesOn (List.forall_mem_cons.2 ⟨?_, completes_asked⟩)
    obtain ⟨id, o⟩ := r
    cases o with
    | completed p => exact absurd rfl (hr p)
    | _ => rfl
  cases hm with
  | strayReport hstray =>
    refine h.quiet_turn (fun x => ?_) rfl rfl ⟨rfl, rfl, rfl⟩ hst hreq hart
    -- A stray report may be a completion, but not one of the live session.
    rw [Attempt.delivers_turn]
    refine or_iff_left ?_
    rintro ⟨id, hfirst, hl⟩
    cases hfirst
    rw [← hlat.record, hlive] at hl
    obtain ⟨s, hs, rfl⟩ := Option.map_eq_some_iff.1 hl
    exact hstray s (hse.trans hs) rfl
  | progressed hd hs hid ho =>
    refine h.quiet_turn (incomplete _ fun p hp => ?_)
      (DownloadOutcome.filterMap_told (fun _ => rfl) _)
      (DownloadOutcome.filterMap_told (fun _ => rfl) _) ⟨rfl, rfl, rfl⟩ hst hreq hart
    rw [hp] at ho
    cases ho
  | @stopped _ s o hd hs hid ho =>
    have hnot : ∀ p, r.outcome ≠ .completed p := fun p hp => by
      rw [hp] at ho
      cases ho
    rw [hst] at hd
    cases h with
    | loading id q _ h2 h3 h4 h5 h6 h7 =>
      refine .empty rfl (fun p hp => h4 p ((incomplete _ hnot p).1 hp)) ?_
      refine (removed_turn t.moments rfl _).trans ?_
      rw [h5, List.filterMap_append, DownloadOutcome.filterMap_told (fun _ => rfl)]
      rfl
    | _ => simp_all
  | @toVerify n p s q hd hs hid hq hv =>
    rw [hst] at hd
    have hl : Live l.record s.id := (hlive s.id).2 (by rw [← hse, hs]; rfl)
    refine h.delivery hlat hl hd hid rfl rfl fun l' t' id q' hc hq' hstart hdel hrem hjobs hres => ?_
    obtain rfl : q' = q := Option.some.inj (hq'.symm.trans (hreq.symm.trans hq))
    exact .verifying id q' p (by rw [hc]) (by rw [hc]) (by rw [hc]; exact hq) hstart hv hdel hrem
      hjobs hres
  | @toInstall n p s q hd hs hid hq hv =>
    rw [hst] at hd
    have hl : Live l.record s.id := (hlive s.id).2 (by rw [← hse, hs]; rfl)
    refine h.delivery hlat hl hd hid rfl rfl fun l' t' id q' hc hq' hstart hdel hrem hjobs hres => ?_
    obtain rfl : q' = q := Option.some.inj (hq'.symm.trans (hreq.symm.trans hq))
    exact .installing id q' p (by rw [hc]) (by rw [hc]) hstart hdel hrem (.inl ⟨hv, hjobs, hres⟩)

theorem Custody.action (h : l.Custody t) {r : ActionReport} {c : Coordinator} {n : Turn}
    (hn : l.coordinator.Next (.action r) c) (hm : c.Moves (.action r) n) :
    (l.turn (.taken (.action r)) n).Custody
      (t.goesOn (.taken (.action r) :: n.2.map .asked)) := by
  have hst : c.state = l.coordinator.state := by cases hn; rfl
  have hart : c.artifact = l.coordinator.artifact := by cases hn; rfl
  have hreq : c.request = l.coordinator.request := by cases hn; rfl
  have hdel : ∀ es : List Effect, ∀ x,
      (t.goesOn (.taken (.action r) :: es.map .asked)).Delivers x ↔ t.Delivers x := fun es x =>
    Attempt.delivers_goesOn (List.forall_mem_cons.2 ⟨rfl, completes_asked⟩)
  cases hm with
  | cancelling =>
    exact h.quiet_turn (hdel _) (c.filterMap_cancelSession fun _ => rfl)
      (c.filterMap_cancelSession fun _ => rfl) ⟨rfl, rfl, rfl⟩ hst hreq hart
  | strayAction => exact h.quiet_turn (hdel []) rfl rfl ⟨rfl, rfl, rfl⟩ hst hreq hart

/-- A call that is accepted begins with nothing delivered and nothing removed. -/
theorem custody_opening (hk : l.Kept setup) {a : Answers} {n : Turn}
    (hn : l.coordinator.attemptUpdate a = (true, n)) :
    (l.turn (.attempted true) n).Custody ⟨l.record, n.2.map .asked⟩ := by
  have hnone : ∀ p, ¬ Attempt.Delivers ⟨l.record, n.2.map .asked⟩ p := by
    rintro p ⟨later, h⟩
    exact not_delivery completes_asked h
  have hm := Coordinator.attemptUpdate_attempts hk.isBackground hk.standing a
  rw [hn] at hm
  cases hm with
  | unconfigured => exact .empty rfl hnone rfl
  | started => exact .loading _ _ rfl rfl List.mem_cons_self hnone rfl rfl rfl

theorem ledger_opening (hs : l.Steady setup) {a : Answers} {n : Turn}
    (hn : l.coordinator.attemptUpdate a = (true, n)) :
    (l.turn (.attempted true) n).Ledger (n.2.map .asked) := by
  have hidle := Coordinator.idle_of_accepted hn
  obtain ⟨hw, hr, hwk⟩ := hs.coherent.resting (by simp [hidle]) (by simp [hidle])
  have hempty : l.Ledger [] :=
    ⟨by rw [hw]; exact .nil, by rw [hr]; exact .nil, by rw [hwk]; rfl, fun x hx => by cases hx⟩
  have hwork := l.coordinator.attemptUpdate_work a
  rw [hn] at hwork
  have h : (l.turn (.attempted true) n).Ledger ([] ++ .attempted true :: n.2.map .asked) :=
    hempty.turn rfl rfl rfl hwork.symm
  exact ⟨h.started, h.ended, h.taken, h.fits⟩

theorem Custody.step (h : l.Custody t) (hk : l.Kept setup) (hlat : l.Latest t)
    (hled : l.Ledger t.moments)
    (hlive : ∀ id, Live l.record id ↔ l.coordinator.session.map Session.id = some id)
    {x : Happening} (hl : l.step x = some l') (hrec : l'.record = l.record ++ ms)
    (hms : ∀ m ∈ ms, m.opens = false) : l'.Custody (t.goesOn ms) := by
  -- Calls are refused while the attempt runs; only a turn moves the artifact on.
  cases step_goes hl with
  | still =>
    obtain rfl : ms = [] := List.append_right_eq_self.1 hrec.symm
    exact h.aside (fun x => Attempt.delivers_goesOn fun _ hm => by cases hm) rfl rfl rfl rfl rfl rfl
  | @heard m c waiting running hm hc _ =>
    obtain rfl : [m] = ms := List.append_cancel_left hrec
    refine h.aside (fun x => Attempt.delivers_goesOn ?_) ?_ ?_ ?_ hc.state hc.request hc.artifact
    · exact List.forall_mem_singleton.2 (Moment.completes_of_isHeard hm)
    all_goals cases m <;> first | rfl | cases hm
  | called a =>
    obtain rfl := List.append_cancel_left hrec
    have hb : (l.coordinator.attemptUpdate a).1 = false := hms _ List.mem_cons_self
    rw [Coordinator.attemptUpdate_of_refused hb]
    exact h.quiet_turn (fun x => Attempt.delivers_goesOn
      (List.forall_mem_cons.2 ⟨rfl, completes_asked⟩)) rfl rfl ⟨rfl, rfl, rfl⟩ rfl rfl rfl
  | @cancelled b es hes =>
    obtain rfl := List.append_cancel_left hrec
    exact h.quiet_turn (fun x => Attempt.delivers_goesOn
      (List.forall_mem_cons.2 ⟨rfl, completes_asked⟩)) (hes.filterMap fun _ => rfl)
      (hes.filterMap fun _ => rfl) ⟨rfl, rfl, rfl⟩ rfl rfl rfl
  | @took a m c hst hn =>
    obtain rfl := List.append_cancel_left hrec
    have hb : c.setup.presentation = .background := by
      rw [hn.setup]
      exact hk.isBackground
    have hm := Coordinator.handle_moves hb (hk.standing.next hn) a m
    cases m with
    | work r => exact h.work hk hled hn hm
    | report r => exact h.report hlat hlive hn hm
    | action r => exact h.action hn hm

end Life

/-! ## Ends -/

/-- In a stream an end is the last event and the only end. -/
theorem IsStream.ends {xs ys : List UpdateEvent} {e : UpdateEvent} (h : IsStream (xs ++ e :: ys))
    (he : e.isEnd = true) : (∀ x ∈ xs, x.isEnd = false) ∧ ys = [] := by
  obtain ⟨ps, e', -, -, rest, hsplit⟩ := h
  rw [List.append_assoc, List.cons_append] at hsplit
  have hopen := not_isEnd_opened ps
  rcases List.append_eq_append_iff.1 hsplit with ⟨as, hxs, hrest⟩ | ⟨as, hxs, hrest⟩
  · cases as with
    | nil =>
      rw [List.append_nil] at hxs
      exact ⟨hxs ▸ hopen, by simp_all⟩
    | cons a as =>
      obtain ⟨rfl, -⟩ := List.cons.inj hrest
      rw [hopen e (by rw [hxs]; simp)] at he
      cases he
  · cases as with
    | nil =>
      rw [List.append_nil] at hxs
      exact ⟨hxs ▸ hopen, by simp_all⟩
    | cons a as => simp_all

/-- An attempt tells one end, and nothing after it. -/
theorem Attempt.Streams.ends {setup : Setup} {t : Attempt} (h : t.Streams setup)
    {xs ys : List UpdateEvent} {e : UpdateEvent} (hsplit : told t.moments = xs ++ e :: ys)
    (he : e.isEnd = true) : (∀ x ∈ xs, x.isEnd = false) ∧ ys = [] := by
  cases h with
  | loading _ hs => exact (hsplit ▸ hs).ends he
  | unconfigured _ hev =>
    rw [hsplit] at hev
    cases xs with
    | nil => exact ⟨(fun x hx => by cases hx), (List.cons.inj hev).2⟩
    | cons x xs => simp at hev

theorem Course.isEnd {q : UpdateRequest} {p : Path} {jobs : List (Job × WorkResult)}
    {e : UpdateEvent} (h : Course q p jobs e) : e.isEnd = true := by
  cases h with
  | rejected => rfl
  | approved => exact UpdateOutcome.isEnd_event _
  | unverified => exact UpdateOutcome.isEnd_event _

/-- An installation fails with a failure of the installation, whatever stopped it. -/
theorem Installation.install_fails {now : Instant} {artifact dest : Path} {fs fs' : FileSystem}
    {e : UpdateError} (h : (install now artifact dest).perform fs = (.error e, fs')) :
    ∃ why, e = .installation why := by
  have stage : ∀ {ε α : Type} {f : ε → UpdateError} {s : Script ε α} {t : FileSystem},
      (∀ x, ∃ why, f x = .installation why) →
        (Script.withFault f s).perform t = (.error e, fs') → ∃ why, e = .installation why := by
    intro ε α f s t hf hs
    obtain ⟨x, -, rfl⟩ := Script.withFault_error_iff.1 hs
    exact hf x
  rcases Script.bind_error_iff.1 h with h | ⟨_, _, -, h⟩
  · exact stage (fun _ => ⟨_, rfl⟩) h
  rcases Script.bind_error_iff.1 h with h | ⟨_, _, -, h⟩
  · exact stage (fun _ => ⟨_, rfl⟩) h
  rcases Script.bind_error_iff.1 h with h | ⟨_, _, -, h⟩
  · exact stage (fun _ => ⟨_, rfl⟩) h
  · exact stage (fun _ => ⟨_, rfl⟩) h

/-- Is the event the end of an attempt that comes to no artifact: a cancellation, or a failure of
the transfer or of the configuration? -/
def UpdateEvent.isBarren : UpdateEvent → Bool
  | cancelled => true
  | failed (.transport _ _) => true
  | failed (.configuration _) => true
  | _ => false

/-- Every installation that ended is one of the installer, on some disk. -/
def Installs (ms : List Moment) : Prop :=
  ∀ p d r, (.install p d, .installed r) ∈ finished ms → ∃ now fs fs',
    (Installation.install now p d).perform fs = (r, fs')

/-- What is done with an artifact ends in none of these ways. -/
theorem Course.not_isBarren {q : UpdateRequest} {p : Path} {ms : List Moment} {e : UpdateEvent}
    (h : Course q p (finished ms) e) (hi : Installs ms) : e.isBarren = false := by
  have outcome : ∀ r, (.install p q.destination, .installed r) ∈ finished ms →
      (installOutcome r).event.isBarren = false := by
    intro r hr
    obtain ⟨now, fs, fs', hperform⟩ := hi p q.destination r hr
    cases r with
    | ok u => rfl
    | error x =>
      obtain ⟨why, rfl⟩ := Installation.install_fails hperform
      rfl
  generalize hjobs : finished ms = jobs at h
  cases h with
  | rejected => rfl
  | approved v r => exact outcome r (by rw [hjobs]; simp)
  | unverified r => exact outcome r (by rw [hjobs]; simp)

theorem UpdateEvent.isEnd_of_isBarren {e : UpdateEvent} (h : e.isBarren = true) :
    e.isEnd = true := by
  cases e <;> first | rfl | cases h

/-- The end that is told of an artifact that was disposed of is no barren one. -/
theorem Attempt.Disposal.not_barren {t : Attempt} {p : Path} {before after : List Moment}
    {e x : UpdateEvent} (h : t.Disposal p before e after) (hi : Installs t.moments)
    (hx : x ∈ told t.moments) : x.isBarren = false := by
  obtain ⟨-, hfirst, hlast⟩ := h.ends
  have htold : told t.moments = told before ++ [e] := by
    rw [h.moments, told_append, ← hlast]
    rfl
  rw [htold] at hx
  rcases List.mem_append.1 hx with hx | hx
  · have hopen := hfirst x hx
    rw [Bool.eq_false_iff]
    intro hb
    rw [UpdateEvent.isEnd_of_isBarren hb] at hopen
    cases hopen
  · obtain rfl := List.mem_singleton.1 hx
    obtain ⟨id, q, -, hc⟩ := h.course
    refine hc.not_isBarren fun p' d r hr => hi p' d r ?_
    rw [h.moments, finished, List.filterMap_append]
    exact List.mem_append_left _ hr

namespace Life

variable {l l' : Life} {setup : Setup} {t : Attempt} {ms : List Moment}

theorem Reached.background (h : l.Reached setup) (hb : setup.presentation = .background) :
    l.Kept setup ∧ l.Reported setup ∧
      ∀ id, Live l.record id ↔ l.coordinator.session.map Session.id = some id := by
  obtain ⟨hs, hr⟩ := h
  exact ⟨kept_run hb hr, reported_run hb hr, fun id => live_iff hr⟩

theorem Reported.current (h : l.Reported setup) (hlat : l.Latest t) :
    Current setup l.coordinator t := by
  cases h.story with
  | fresh _ hun =>
    have hopen := hun (.attempted true) (by rw [hlat.record]; simp)
    cases hopen
  | since past cur hrec hun _ _ hcur =>
    have hlat' : l.Latest ⟨past, cur⟩ := ⟨hrec, hun⟩
    have hlast := hlat.attempts_eq.symm.trans hlat'.attempts_eq
    obtain ⟨-, ht⟩ := List.append_inj' hlast rfl
    rw [List.singleton_inj.1 ht]
    exact hcur

/-- An attempt that is over and had an artifact disposed of it. -/
theorem Custody.disposal (h : l.Custody t) (hk : l.Kept setup) (hrep : l.Reported setup)
    (hlat : l.Latest t) (hled : l.Ledger t.moments) {p : Path} (hp : t.Delivers p) :
    (l.coordinator.state = .idle → ∃ before e after, t.Disposal p before e after) ∧
      (l.coordinator.state ≠ .idle → removed t.moments = []) := by
  cases h with
  | empty _ hno => exact absurd hp (hno p)
  | loading _ _ _ _ _ hno => exact absurd hp (hno p)
  | verifying _ _ _ hst _ _ _ _ _ hrem => exact ⟨fun hi => by simp [hst] at hi, fun _ => hrem⟩
  | installing _ _ _ hst _ _ _ hrem => exact ⟨fun hi => by simp [hst] at hi, fun _ => hrem⟩
  | disposed p' before after e hst hmom hdel hdel' honce hcourse hover hrest =>
    refine ⟨fun _ => ?_, fun hne => absurd hst hne⟩
    obtain rfl := (hdel p).1 hp
    obtain ⟨hw, hr, -⟩ := hk.phase.resting (.inl hst)
    obtain ⟨hall, hall'⟩ := hled.settled hw hr
    rw [hmom] at hall hall'
    -- The jobs balance before the removal and in the whole attempt, so none began or ended after.
    have hbegun : begun after = [] := by
      have hlen := hall.length_eq
      have hlen' := hover.1.length_eq
      simp only [sought, begun, List.filterMap_append, List.length_append] at hlen hlen' hrest ⊢
      rw [List.filterMap_cons_none rfl, List.filterMap_cons_none rfl, hrest,
        List.filterMap_cons_none rfl, List.filterMap_cons_none rfl, List.length_nil] at hlen
      exact List.eq_nil_of_length_eq_zero (by omega)
    have hfinished : finished after = [] := by
      have hlen := hall'.length_eq
      have hlen' := hover.2.length_eq
      simp only [finished, begun, List.filterMap_append, List.length_append, List.length_map]
        at hlen hlen' hbegun ⊢
      rw [List.filterMap_cons_none rfl, List.filterMap_cons_none rfl, hbegun,
        List.filterMap_cons_none rfl, List.filterMap_cons_none rfl, List.length_nil] at hlen
      exact List.eq_nil_of_length_eq_zero (by omega)
    have htold : told t.moments = told before ++ e :: told after := by
      rw [hmom, told_append]
      rfl
    obtain ⟨id, q, hstart, hc⟩ := hcourse
    obtain ⟨hfirst, hlast⟩ := (hrep.current hlat).streams.ends htold hc.isEnd
    exact ⟨before, e, after, hmom, honce, hdel', ⟨id, q, hstart, hc⟩, hover,
      ⟨hrest, hbegun, hfinished⟩, hc.isEnd, hfirst, hlast⟩

theorem Custody.untouched (h : l.Custody t) (hno : ∀ p, ¬ t.Delivers p) :
    removed t.moments = [] := by
  cases h with
  | empty _ _ hrem => exact hrem
  | loading _ _ _ _ _ _ hrem => exact hrem
  | verifying _ _ p _ _ _ _ _ hdel => exact absurd ((hdel p).2 rfl) (hno p)
  | installing _ _ p _ _ _ hdel => exact absurd ((hdel p).2 rfl) (hno p)
  | disposed p _ _ _ _ _ hdel => exact absurd ((hdel p).2 rfl) (hno p)

/-- Every attempt of a run was the latest one of a life where its ledger and the custody of its
artifact can be read. -/
theorem custody_run (hb : setup.presentation = .background) (h : l.Reached setup)
    (ht : t ∈ attempts l.record) :
    ∃ l₀, l₀.Reached setup ∧ l₀.Latest t ∧ (l₀.Ledger t.moments ∧ l₀.Custody t) ∧
      (l₀ = l ∨ l₀.coordinator.state = .idle) := by
  refine attempts_run (P := fun l t => l.Ledger t.moments ∧ l.Custody t) ?_ ?_ h ht
  · intro l a n hreach hn
    exact ⟨ledger_opening hreach.steady hn, custody_opening (hreach.background hb).1 hn⟩
  · intro l x l' t ms hreach hlat hp hx hrec hms
    obtain ⟨hk, -, hlive⟩ := hreach.background hb
    obtain ⟨new, hrec', hled⟩ := hp.1.step hx
    obtain rfl : ms = new := List.append_cancel_left (hrec.symm.trans hrec')
    exact ⟨hled, hp.2.step hk hlat hp.1 hlive hx hrec hms⟩

end Life

/-! ## Nothing is forgotten -/

namespace Coordinator

variable {c : Coordinator}

/-- A call leaves the artifact. -/
theorem Attempts.artifact {b : Bool} {n : Turn} (h : Attempts c b n) (hs : Standing c) {p : Path}
    (hart : c.artifact = some p) : n.1.artifact = some p := by
  have busy : c.state ≠ .idle := by
    cases hs <;> simp_all
  cases h with
  | refused => exact hart
  | unconfigured hst => exact absurd hst busy
  | started hst => exact absurd hst busy

/-- A message leaves the artifact, or has it removed. -/
theorem Moves.artifact {m : Incoming} {n : Turn} (h : Moves c m n) (hs : Standing c) {p : Path}
    (hart : c.artifact = some p) : n.1.artifact = some p ∨ .removeFile p ∈ n.2 := by
  have busy : c.state ≠ .downloading := by
    cases hs <;> simp_all
  cases h with
  | stopped hd => exact absurd hd busy
  | toVerify hd => exact absurd hd busy
  | toInstall hd => exact absurd hd busy
  | rejected _ _ ha =>
    obtain rfl := Option.some.inj (hart.symm.trans ha)
    exact .inr List.mem_cons_self
  | installed _ ha =>
    obtain rfl := Option.some.inj (hart.symm.trans ha)
    exact .inr List.mem_cons_self
  | _ => exact .inl hart

/-- An artifact that the stored session delivers is kept. -/
theorem Moves.delivers {m : Incoming} {n : Turn} (h : Moves c m n) {id : Nat} {p : Path}
    (hm : m = .report ⟨id, .completed p⟩) (hid : c.session.map Session.id = some id) :
    n.1.artifact = some p := by
  cases h with
  | strayReport hstray =>
    cases hm
    obtain ⟨s, hs, rfl⟩ := Option.map_eq_some_iff.1 hid
    exact absurd rfl (hstray s hs)
  | progressed _ _ _ ho =>
    cases hm
    cases ho
  | stopped _ _ _ ho =>
    cases hm
    cases ho
  | toVerify =>
    cases hm
    rfl
  | toInstall =>
    cases hm
    rfl
  | _ => cases hm

end Coordinator

namespace Life

variable {l l' : Life} {setup : Setup}

/-- Each artifact that was delivered is kept or was asked to be removed since. -/
def Accounted (l : Life) : Prop :=
  ∀ p later, Delivery [] l.record p later →
    .asked (.removeFile p) ∈ later ∨ l.coordinator.artifact = some p

theorem Accounted.step (h : l.Accounted) (hk : l.Kept setup)
    (hlive : ∀ id, Live l.record id ↔ l.coordinator.session.map Session.id = some id)
    {x : Happening} (hl : l.step x = some l') : l'.Accounted := by
  intro p later hd
  cases step_goes hl with
  | still => exact h p later hd
  | @heard m c waiting running hm hc _ =>
    obtain ⟨rest, rfl, hold⟩ :=
      hd.of_append (List.forall_mem_singleton.2 (Moment.completes_of_isHeard hm))
    exact (h p rest hold).imp (List.mem_append_left _) hc.artifact.trans
  | called a =>
    rcases hd.of_turn with ⟨rest, rfl, hold⟩ | ⟨-, id, hfirst, -⟩
    · exact (h p rest hold).imp (List.mem_append_left _)
        ((Coordinator.attemptUpdate_attempts hk.isBackground hk.standing a).artifact hk.standing)
    · cases hfirst
  | @cancelled b es hes =>
    rcases hd.of_turn with ⟨rest, rfl, hold⟩ | ⟨-, id, hfirst, -⟩
    · exact (h p rest hold).imp_left (List.mem_append_left _)
    · cases hfirst
  | @took a m c hst hn =>
    have hb : c.setup.presentation = .background := by
      rw [hn.setup]
      exact hk.isBackground
    have hm := Coordinator.handle_moves hb (hk.standing.next hn) a m
    have hart : c.artifact = l.coordinator.artifact := by cases hn <;> rfl
    have hse : c.session = l.coordinator.session := by cases hn <;> rfl
    rcases hd.of_turn with ⟨rest, rfl, hold⟩ | ⟨-, id, hfirst, hlive'⟩
    · rcases h p rest hold with hrem | hkept
      · exact .inl (List.mem_append_left _ hrem)
      · refine (hm.artifact (hk.standing.next hn) (hart.trans hkept)).symm.imp_left fun hrem => ?_
        exact List.mem_append_right _ (List.mem_cons_of_mem _ (List.mem_map_of_mem hrem))
    · cases hfirst
      exact .inr (hm.delivers rfl (hse ▸ (hlive id).1 hlive'))

theorem accounted_run (hb : setup.presentation = .background) (h : l.Reached setup) :
    l.Accounted := by
  refine h.invariant (fun p later hd => ?_) fun l x l' hreach hl hx => ?_
  · obtain ⟨past, id, hnil, -⟩ := hd
    simp [new] at hnil
  · obtain ⟨hk, -, hlive⟩ := hreach.background hb
    exact hl.step hk hlive hx

/-- In every run in the background a file is removed only as the artifact of its attempt. An attempt
that had one delivered removes it once, when all jobs have ended and right before the end is told,
and no sooner; any other attempt removes nothing, and nothing is removed outside of attempts. So an
attempt that ends in a cancellation or a failure of the transfer or the configuration removes
nothing, and while the coordinator is idle each artifact that was delivered was asked to be removed
since: where removals succeed and nobody makes the file again, it is gone. -/
theorem run_disposes (hb : setup.presentation = .background) {hs : List Happening}
    (hr : (new setup).run hs = some l) :
    (∀ t ∈ attempts l.record, ∀ p, t.Delivers p →
      (t.IsOver → ∃ before e after, t.Disposal p before e after) ∧
        (¬ t.IsOver → removed t.moments = [])) ∧
      (∀ t ∈ attempts l.record, (∀ p, ¬ t.Delivers p) → removed t.moments = []) ∧
      removed l.record = ((attempts l.record).flatMap fun t => removed t.moments) ∧
      (∀ t ∈ attempts l.record, ∀ e ∈ told t.moments, e.isBarren = true →
        Installs t.moments → removed t.moments = []) ∧
      (l.coordinator.state = .idle → ∀ past id p later,
        l.record = past ++ .taken (.report ⟨id, .completed p⟩) :: later → Live past id →
          .asked (.removeFile p) ∈ later ∧ ∀ disk : List Moment → FileSystem,
            Forgets disk p (past ++ [.taken (.report ⟨id, .completed p⟩)]) later →
              (disk l.record).exists? p = false) := by
  have h : l.Reached setup := ⟨hs, hr⟩
  have hover : ∀ t ∈ attempts l.record, ∀ p, t.Delivers p →
      (t.IsOver → ∃ before e after, t.Disposal p before e after) ∧
        (¬ t.IsOver → removed t.moments = []) := by
    intro t ht p hp
    -- At the end of the attempt there was a life whose latest attempt it is.
    obtain ⟨l₀, hreach, hlat, ⟨hled, hcus⟩, -⟩ := custody_run hb h ht
    obtain ⟨hk, hrep, -⟩ := hreach.background hb
    obtain ⟨hover, hopen⟩ := hcus.disposal hk hrep hlat hled hp
    have hiff := (hrep.current hlat).isOver_iff
    exact ⟨fun ho => hover (hiff.1 ho), fun hno => hopen fun hi => hno (hiff.2 hi)⟩
  have hnone : ∀ t ∈ attempts l.record, (∀ p, ¬ t.Delivers p) → removed t.moments = [] := by
    intro t ht hno
    obtain ⟨l₀, -, -, ⟨-, hcus⟩, -⟩ := custody_run hb h ht
    exact hcus.untouched hno
  refine ⟨hover, hnone, removed_run h, fun t ht e he hbarren hinst => ?_,
    fun hidle past id p later hrec hlive => ?_⟩
  · by_cases hdel : ∃ p, t.Delivers p
    · obtain ⟨p, hp⟩ := hdel
      have hend : t.IsOver := ⟨e, he, UpdateEvent.isEnd_of_isBarren hbarren⟩
      obtain ⟨before, e', after, hdis⟩ := (hover t ht p hp).1 hend
      rw [hdis.not_barren hinst he] at hbarren
      cases hbarren
    · exact hnone t ht fun p hp => hdel ⟨p, hp⟩
  · have hrem : .asked (.removeFile p) ∈ later := by
      -- What is not yet removed is still held, and an idle coordinator holds nothing.
      rcases accounted_run hb h p later ⟨past, id, hrec, hlive⟩ with hrem | hart
      · exact hrem
      · obtain ⟨hk, -, -⟩ := h.background hb
        cases hk.standing <;> simp_all
    refine ⟨hrem, fun disk hdisk => ?_⟩
    have hgone := hdisk.gone hrem
    rwa [List.append_assoc, List.singleton_append, ← hrec] at hgone

/-- An attempt whose artifact is verified and installed, and the attempt after it, which is
cancelled. -/
def disposingRun (trusted : Identity) : List Happening :=
  [.overrideUrl "http://host/runtime", .attempt plainAnswers, .report ⟨1, .completed [3]⟩,
    .process plainAnswers, .begin (.verify [3]), .verified [3] (.ok [trusted]) (.ok [trusted]),
    .process plainAnswers, .begin (.install [3] [1]), .installed [3] [1] (.ok ()),
    .process plainAnswers, .attempt plainAnswers, .report ⟨2, .cancelled⟩, .process plainAnswers]

theorem run_disposes_installed : ∃ l,
    (new plainSetup).run (disposingRun ⟨List.replicate keySize 0, rfl⟩) = some l ∧
      removed l.record = [[3]] ∧
      (∃ t ∈ attempts l.record, t.Delivers [3] ∧ t.IsOver ∧
        ∃ before e after, t.Disposal [3] before e after) ∧
      (∃ t ∈ attempts l.record, .cancelled ∈ told t.moments ∧ removed t.moments = []) ∧
      (singleFile l.record).exists? [3] = false := by
  let start : Moment := .asked (.startDownload 1 ⟨"http://host/runtime", .enabled, [1], [2]⟩)
  let report : SessionReport := ⟨1, .completed [3]⟩
  obtain ⟨l, hr, hidle, hremoved, rest, t, hatt, hend, hcancel, hplain, later, hlater⟩ : ∃ l,
      (new plainSetup).run (disposingRun ⟨List.replicate keySize 0, rfl⟩) = some l ∧
      l.coordinator.state = .idle ∧ removed l.record = [[3]] ∧ ∃ rest t,
      attempts l.record = [⟨[.overridden "http://host/runtime"],
        start :: .reported report :: .taken (.report report) :: rest⟩, t] ∧
      .completed ∈ told rest ∧ .cancelled ∈ told t.moments ∧
      (t.moments.all fun m => !m.completes) = true ∧ ∃ later,
      l.record = [.overridden "http://host/runtime", .attempted true, start, .reported report] ++
        .taken (.report report) :: later :=
    ⟨_, rfl, rfl, rfl, _, _, rfl, List.mem_cons_of_mem _ List.mem_cons_self,
      List.mem_cons_of_mem _ List.mem_cons_self, rfl, _, rfl⟩
  have hbefore : (new plainSetup).run
      ((disposingRun ⟨List.replicate keySize 0, rfl⟩).take 3) = some _ := rfl
  have hlive : Live [.overridden "http://host/runtime", .attempted true, start,
      .reported report] 1 := (live_iff hbefore).2 rfl
  obtain ⟨hover, hnone, -, -, hforgets⟩ := run_disposes rfl hr
  refine ⟨l, hr, hremoved, ⟨_, by rw [hatt]; exact List.mem_cons_self, ?_⟩,
    ⟨t, by rw [hatt]; simp, hcancel, hnone t (by rw [hatt]; simp) ?_⟩, ?_⟩
  · have hdel : Attempt.Delivers ⟨[.overridden "http://host/runtime"],
        start :: .reported report :: .taken (.report report) :: rest⟩ [3] :=
      ⟨_, [start, .reported report], 1, rfl, hlive⟩
    have hover' : Attempt.IsOver ⟨[.overridden "http://host/runtime"],
        start :: .reported report :: .taken (.report report) :: rest⟩ := ⟨.completed, hend, rfl⟩
    exact ⟨hdel, hover', (hover _ (by rw [hatt]; exact List.mem_cons_self) [3] hdel).1 hover'⟩
  · rintro p ⟨later, h⟩
    exact not_delivery (by simpa using hplain) h
  · exact (hforgets hidle _ 1 [3] _ hlater hlive).2 singleFile (forgets_singleFile _ _)

end Life

end SharedRuntime
