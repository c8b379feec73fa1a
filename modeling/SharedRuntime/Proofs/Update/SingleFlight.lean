import SharedRuntime.Proofs.Update.Attempts
import SharedRuntime.Proofs.Update.Coherence

/-!
# One transfer at a time

The sessions are numbered in the order in which their transfers begin, and a transfer begins only
after the end of the one before it was taken (`Landed`), so no two are `Live` at once. In either
mode the session that is stored is the only one that can be live: `SingleFlight` is this invariant,
and `Flies` is what a turn can do to it.
-/

set_option autoImplicit false

namespace SharedRuntime

/-! ## Sessions in a record -/

/-- The session whose transfer an effect begins. -/
def Effect.session? : Effect → Option Nat
  | .startDownload id _ => some id
  | _ => none

def Moment.session? : Moment → Option Nat
  | asked e => e.session?
  | _ => none

/-- The sessions whose transfers began, in order. -/
def sessions (record : List Moment) : List Nat := record.filterMap Moment.session?

/-- After the transfer of a session began, an end that it reports was taken. -/
def Landed (record : List Moment) (id : Nat) : Prop :=
  ∃ before q between o after, record =
      before ++ .asked (.startDownload id q) :: (between ++ .taken (.report ⟨id, o⟩) :: after) ∧
    o.isTerminal = true

/-- The transfer of a session began and no end of it was taken. -/
def Live (record : List Moment) (id : Nat) : Prop :=
  id ∈ sessions record ∧ ¬ Landed record id

theorem sessions_append (r s : List Moment) : sessions (r ++ s) = sessions r ++ sessions s := by
  simp [sessions]

theorem sessions_asked (es : List Effect) :
    sessions (es.map .asked) = es.filterMap Effect.session? := by
  rw [sessions, List.filterMap_map]
  rfl

theorem mem_sessions {record : List Moment} {id : Nat} (h : id ∈ sessions record) :
    ∃ before q after, record = before ++ .asked (.startDownload id q) :: after := by
  obtain ⟨m, hm, hid⟩ := List.mem_filterMap.1 h
  obtain ⟨before, after, rfl⟩ := List.append_of_mem hm
  cases m with
  | asked e =>
    cases e with
    | startDownload n q =>
      cases hid
      exact ⟨before, q, after, rfl⟩
    | _ => cases hid
  | _ => cases hid

theorem Landed.append {record : List Moment} {id : Nat} (h : Landed record id)
    (ms : List Moment) : Landed (record ++ ms) id := by
  obtain ⟨before, q, between, o, after, rfl, ho⟩ := h
  exact ⟨before, q, between, o, after ++ ms, by simp, ho⟩

/-- A session of the record lands with the end that is taken next. -/
theorem landed_taken {record : List Moment} {id : Nat} (h : id ∈ sessions record)
    {o : DownloadOutcome} (ho : o.isTerminal = true) (ms : List Moment) :
    Landed (record ++ .taken (.report ⟨id, o⟩) :: ms) id := by
  obtain ⟨before, q, after, rfl⟩ := mem_sessions h
  exact ⟨before, q, after, o, ms, by simp, ho⟩

/-- A session that is live after more was noted was live before, or began among it. -/
theorem Live.of_append {record ms : List Moment} {id : Nat} (h : Live (record ++ ms) id) :
    Live record id ∨ id ∈ sessions ms := by
  obtain ⟨hid, hnot⟩ := h
  rw [sessions_append] at hid
  rcases List.mem_append.1 hid with hid | hid
  · exact .inl ⟨hid, fun hl => hnot (hl.append ms)⟩
  · exact .inr hid

/-- Every transfer begins after those before it landed. -/
def InTurn (record : List Moment) : Prop :=
  ∀ past id q later, record = past ++ .asked (.startDownload id q) :: later →
    ∀ k ∈ sessions past, Landed past k

theorem InTurn.of_prefix {past record : List Moment} (h : InTurn record) (hp : past <+: record) :
    InTurn past := by
  obtain ⟨rest, rfl⟩ := hp
  intro before id q later hb
  exact h before id q (later ++ rest) (by simp [hb])

/-- A live session is not among those before another. -/
theorem InTurn.eq_nil_of_live {record before x after after' : List Moment} {n k : Nat}
    {q q' : UpdateRequest} (h : InTurn record) (hn : Live record n)
    (hb : record = before ++ .asked (.startDownload n q) :: after)
    (hx : record = before ++ x ++ .asked (.startDownload k q') :: after') : x = [] := by
  cases x with
  | nil => rfl
  | cons y x =>
    have hsplit := hb.symm.trans (hx.trans (List.append_assoc _ _ _))
    obtain ⟨rfl, -⟩ := List.cons.inj (List.append_cancel_left hsplit)
    have hmem : n ∈ sessions (before ++ .asked (.startDownload n q) :: x) := by
      rw [sessions_append]
      exact List.mem_append_right _ List.mem_cons_self
    have hland := h _ k q' after' hx n hmem
    exact absurd (hx ▸ hland.append _) hn.2

theorem InTurn.eq_of_live {record : List Moment} (h : InTurn record) {i j : Nat}
    (hi : Live record i) (hj : Live record j) : i = j := by
  obtain ⟨b, q, a, hb⟩ := mem_sessions hi.1
  obtain ⟨b', q', a', hb'⟩ := mem_sessions hj.1
  have hsame : b = b' := by
    rcases List.append_eq_append_iff.1 (hb.symm.trans hb') with ⟨x, rfl, -⟩ | ⟨x, rfl, -⟩
    · rw [h.eq_nil_of_live hi hb hb', List.append_nil]
    · rw [h.eq_nil_of_live hj hb' hb, List.append_nil]
  subst hsame
  cases List.append_cancel_left (hb.symm.trans hb')
  rfl

/-- With sessions numbered from one, the one before has landed. -/
theorem InTurn.predecessor {record : List Moment} (h : InTurn record) {n : Nat}
    (hn : sessions record = List.range' 1 n) {past later : List Moment} {k : Nat}
    {q : UpdateRequest} (hl : record = past ++ .asked (.startDownload (k + 1) q) :: later) :
    k = 0 ∨ Landed past k := by
  have hsplit : List.range' 1 n = sessions past ++ (k + 1) :: sessions later := by
    rw [← hn, hl, sessions_append]
    rfl
  obtain ⟨m, hm, hpast, hlater⟩ := List.range'_eq_append_iff.1 hsplit
  obtain rfl : m = k := by
    have hhead := congrArg List.head? hlater
    rw [List.head?_range'] at hhead
    split at hhead
    · cases hhead
    · have := Option.some.inj hhead
      omega
  rcases Nat.eq_zero_or_pos m with hz | hpos
  · exact .inl hz
  · refine .inr (h past (m + 1) q later hl m ?_)
    rw [hpast]
    exact List.mem_range'_1.2 ⟨hpos, by omega⟩

/-! ## What a turn does to the session -/

namespace Coordinator

/-- The session goes on, or its end is taken, or another begins where there was none. -/
inductive Flies (c : Coordinator) (first : Moment) (t : Turn) : Prop
  | level (session : t.1.session.map Session.id = c.session.map Session.id)
      (last : t.1.lastSession = c.lastSession) (starts : t.2.filterMap Effect.session? = [])
  | landing (s : Session) (o : DownloadOutcome) (session : c.session = some s)
      (taken : first = .taken (.report ⟨s.id, o⟩)) (final : o.isTerminal = true)
      (after : t.1.session = none) (last : t.1.lastSession = c.lastSession)
      (starts : t.2.filterMap Effect.session? = [])
  | takeoff (q : UpdateRequest) (session : c.session = none)
      (after : t.1.session.map Session.id = some (c.lastSession + 1))
      (last : t.1.lastSession = c.lastSession + 1)
      (starts : t.2 = [.startDownload (c.lastSession + 1) q])

variable {c : Coordinator}

theorem starts_told (os : List DownloadOutcome) :
    (os.flatMap DownloadOutcome.told).filterMap Effect.session? = [] :=
  DownloadOutcome.filterMap_told (fun _ => rfl) os

theorem starts_shown (n : Nat) (os : List DownloadOutcome) :
    (os.flatMap (DownloadOutcome.shown n)).filterMap Effect.session? = [] :=
  DownloadOutcome.filterMap_shown (fun _ => rfl) (fun _ => rfl) n os

theorem Attempts.flies {b : Bool} {t : Turn} (h : Attempts c b t) (hs : Standing c) :
    c.Flies (.attempted b) t := by
  cases h with
  | refused => exact .level rfl rfl rfl
  | unconfigured hst =>
    have hse : c.session = none := hs.session (by simp [hst])
    exact .level (by rw [hse]; rfl) rfl rfl
  | started hst => exact .takeoff _ (hs.session (by simp [hst])) rfl rfl rfl

theorem Moves.flies {m : Incoming} {t : Turn} (h : Moves c m t) (hs : Standing c) :
    c.Flies (.taken m) t := by
  -- The end of a transfer takes the session away, whatever becomes of the artifact; all else keeps
  -- it.
  cases h with
  | strayReport => exact .level rfl rfl rfl
  | strayWork => exact .level rfl rfl rfl
  | strayAction => exact .level rfl rfl rfl
  | cancelling => exact .level rfl rfl (c.filterMap_cancelSession fun _ => rfl)
  | @progressed r s hst hse hid ho =>
    obtain ⟨hsame, -⟩ := s.accept_open hid (hs.open_session hse) ho
    refine .level ?_ rfl (starts_told _)
    rw [hse]
    exact congrArg some hsame
  | @stopped r s o hst hse hid ho =>
    obtain ⟨n, x⟩ := r
    obtain rfl : n = s.id := hid
    refine .landing s x hse rfl (outcomeWithout_final ho) rfl rfl ?_
    rw [List.filterMap_append, starts_told]
    rfl
  | @toVerify n p s q hst hse hid =>
    subst hid
    refine .landing s _ hse rfl rfl rfl rfl ?_
    rw [List.filterMap_append, starts_told]
    rfl
  | @toInstall n p s q hst hse hid =>
    subst hid
    refine .landing s _ hse rfl rfl rfl rfl ?_
    rw [List.filterMap_append, starts_told]
    rfl
  | approved => exact .level rfl rfl rfl
  | rejected hst =>
    have hse : c.session = none := hs.session (by simp [hst])
    exact .level (by rw [hse]; rfl) rfl rfl
  | installed hst =>
    have hse : c.session = none := hs.session (by simp [hst])
    exact .level (by rw [hse]; rfl) rfl rfl

theorem Invites.flies {a : Answers} {b : Bool} {t : Turn} (h : Invites c a b t) :
    c.Flies (.attempted b) t := by
  cases h with
  | refused => exact .level rfl rfl rfl
  | asked => exact .level rfl rfl rfl

theorem Responds.flies {a : Answers} {m : Incoming} {t : Turn} (h : Responds c a m t)
    (hs : Attending c) : c.Flies (.taken m) t := by
  have landed : ∀ {s : Session} {o : DownloadOutcome} {c' : Coordinator} {es : List Effect},
      c.session = some s → o.isTerminal = true → c'.session = none →
      c'.lastSession = c.lastSession → es.filterMap Effect.session? = [] →
      c.Flies (.taken (.report ⟨s.id, o⟩))
        (c', s.opening.flatMap (DownloadOutcome.shown c.attempt) ++ es) := by
    intro s o c' es hse ho hafter hlast hes
    refine .landing s o hse rfl ho hafter hlast ?_
    rw [List.filterMap_append, starts_shown, hes]
    rfl
  cases h with
  | strayReport => exact .level rfl rfl rfl
  | strayWork => exact .level rfl rfl rfl
  | strayAction => exact .level rfl rfl rfl
  | cancelling => exact .level rfl rfl (c.filterMap_cancelSession fun _ => rfl)
  | redirected => exact .level rfl rfl rfl
  | aborted => exact .level rfl rfl rfl
  | declined hst =>
    have hse : c.session = none := hs.session (by simp [hst])
    exact .level (by rw [hse]; rfl) rfl rfl
  | accepted hst => exact .takeoff _ (hs.session (by simp [hst])) rfl rfl rfl
  | @progressed r s hst hse hid ho =>
    obtain ⟨hsame, -⟩ := s.accept_open hid (hs.open_session hse) ho
    refine .level ?_ rfl (starts_shown _ _)
    rw [hse]
    exact congrArg some hsame
  | cancelled _ hse hid =>
    subst hid
    exact landed hse rfl rfl rfl rfl
  | failed _ hse hid =>
    subst hid
    exact landed hse rfl rfl rfl rfl
  | handedOver _ hse hid =>
    subst hid
    exact landed hse rfl rfl rfl rfl
  | notTaken _ hse hid =>
    subst hid
    exact landed hse rfl rfl rfl rfl

theorem Calls.flies {a : Answers} {b : Bool} {t : Turn} (h : Calls c a b t) :
    c.Flies (.attempted b) t := by
  cases h with
  | background _ hs hc => exact hc.flies hs
  | foreground _ _ hc => exact hc.flies

theorem Handles.flies {a : Answers} {m : Incoming} {t : Turn} (h : Handles c a m t) :
    c.Flies (.taken m) t := by
  cases h with
  | background _ hs hc => exact hc.flies hs
  | foreground _ hs hc => exact hc.flies hs

theorem Flies.next {c c' : Coordinator} {m : Incoming} {t : Turn} (hn : c.Next m c')
    (h : c'.Flies (.taken m) t) : c.Flies (.taken m) t := by
  have hse : c'.session = c.session := by cases hn <;> rfl
  have hla : c'.lastSession = c.lastSession := by cases hn <;> rfl
  cases h with
  | level h1 h2 h3 => exact .level (hse ▸ h1) (hla ▸ h2) h3
  | landing s o h1 h2 h3 h4 h5 h6 => exact .landing s o (hse ▸ h1) h2 h3 h4 (hla ▸ h5) h6
  | takeoff q h1 h2 h3 h4 => exact .takeoff q (hse ▸ h1) (hla ▸ h2) (hla ▸ h3) (hla ▸ h4)

/-- A call that finds an attempt or a runtime that serves is refused. -/
theorem attemptUpdate_refused {a : Answers}
    (h : c.state ≠ .idle ∨ a.status = .pendingFirstUse ∨ a.status = .matched) :
    c.attemptUpdate a = (false, c, []) := by
  unfold attemptUpdate
  refine if_pos ?_
  rw [Bool.or_eq_true]
  rcases h with hst | hst | hst
  · refine .inl ?_
    cases hc : c.state with
    | idle => exact absurd hc hst
    | _ => rfl
  · exact .inr (by rw [hst]; rfl)
  · exact .inr (by rw [hst]; rfl)

end Coordinator

/-! ## Runs -/

namespace Life

variable {l l' : Life} {setup : Setup}

structure SingleFlight (l : Life) : Prop where
  numbered : sessions l.record = List.range' 1 l.coordinator.lastSession
  current : ∀ id, l.coordinator.session.map Session.id = some id → id ∈ sessions l.record
  live : ∀ id, Live l.record id → l.coordinator.session.map Session.id = some id
  inTurn : InTurn l.record

/-- Moments that begin no transfer: only the sessions that they leave live have to be looked at. -/
theorem SingleFlight.grow (h : l.SingleFlight) {ms : List Moment} (hms : sessions ms = [])
    (hrec : l'.record = l.record ++ ms)
    (hla : l'.coordinator.lastSession = l.coordinator.lastSession)
    (hcur : ∀ id, l'.coordinator.session.map Session.id = some id →
      l.coordinator.session.map Session.id = some id)
    (hlive : ∀ id, l.coordinator.session.map Session.id = some id → Live (l.record ++ ms) id →
      l'.coordinator.session.map Session.id = some id) : l'.SingleFlight where
  numbered := by rw [hrec, sessions_append, hms, List.append_nil, hla, h.numbered]
  current id hid := by
    rw [hrec, sessions_append]
    exact List.mem_append_left _ (h.current id (hcur id hid))
  live id hid := by
    rw [hrec] at hid
    rcases hid.of_append with hold | hnew
    · exact hlive id (h.live id hold) hid
    · rw [hms] at hnew
      cases hnew
  inTurn past id q later hl := by
    rw [hrec] at hl
    obtain ⟨rest, hl⟩ := split_of_append hl fun hm => by
      have hid : id ∈ sessions ms := List.mem_filterMap.2 ⟨_, hm, rfl⟩
      rw [hms] at hid
      cases hid
    exact h.inTurn past id q rest hl

/-- Another transfer begins while no session is stored. -/
theorem SingleFlight.takeoff (h : l.SingleFlight) {first : Moment} {c : Coordinator}
    {q : UpdateRequest} (hfirst : first.session? = none) (hse : l.coordinator.session = none)
    (hafter : c.session.map Session.id = some (l.coordinator.lastSession + 1))
    (hla : c.lastSession = l.coordinator.lastSession + 1) :
    (l.turn first (c, [.startDownload (l.coordinator.lastSession + 1) q])).SingleFlight := by
  have hnone : sessions [first] = [] := by simp [sessions, hfirst]
  have hnew : sessions [first, .asked (.startDownload (l.coordinator.lastSession + 1) q)] =
      [l.coordinator.lastSession + 1] := by
    rw [sessions, List.filterMap_cons_none hfirst]
    rfl
  have hrest : ∀ k ∈ sessions l.record, Landed l.record k := fun k hk =>
    Classical.byContradiction fun hnot => by
      have hcur := h.live k ⟨hk, hnot⟩
      rw [hse] at hcur
      cases hcur
  refine ⟨?_, fun id hid => ?_, fun id hid => ?_, fun past id q' later hl => ?_⟩
  · show sessions (l.record ++ _) = List.range' 1 c.lastSession
    rw [hla, List.range'_1_concat, ← h.numbered, Nat.add_comm 1]
    exact (sessions_append _ _).trans (congrArg _ hnew)
  · show id ∈ sessions (l.record ++ _)
    obtain rfl : l.coordinator.lastSession + 1 = id := Option.some.inj (hafter.symm.trans hid)
    rw [sessions_append]
    exact List.mem_append_right _ (hnew ▸ List.mem_singleton_self _)
  · show c.session.map Session.id = some id
    rcases Live.of_append hid with hold | hmem
    · exact absurd (hrest id hold.1) hold.2
    · have hmem' : id ∈ [l.coordinator.lastSession + 1] := hnew ▸ hmem
      rw [List.mem_singleton.1 hmem']
      exact hafter
  · have hl' : l.record ++ [first] ++ [.asked (.startDownload (l.coordinator.lastSession + 1) q)] =
        past ++ .asked (.startDownload id q') :: later := by
      rw [← hl, List.append_assoc]
      rfl
    -- The transfer is the new one, behind all others, or an earlier one of which this was known.
    rcases split_of_concat hl' with ⟨-, rfl⟩ | ⟨rest, hold⟩
    · intro k hk
      rw [sessions_append, hnone, List.append_nil] at hk
      exact (hrest k hk).append _
    · obtain ⟨rest', hold⟩ := split_of_append hold fun hm => by
        have hid : id ∈ sessions [first] := List.mem_filterMap.2 ⟨_, hm, rfl⟩
        rw [hnone] at hid
        cases hid
      exact h.inTurn past id q' rest' hold

theorem SingleFlight.turn (h : l.SingleFlight) {first : Moment} {t : Turn}
    (hfirst : first.session? = none) (hf : l.coordinator.Flies first t) :
    (l.turn first t).SingleFlight := by
  have quiet : t.2.filterMap Effect.session? = [] → sessions (first :: t.2.map .asked) = [] := by
    intro hes
    rw [sessions, List.filterMap_cons_none hfirst]
    exact (sessions_asked t.2).trans hes
  cases hf with
  | level hse hla hes =>
    exact h.grow (quiet hes) rfl hla (fun id hid => hse ▸ hid) (fun id hid _ => hse.trans hid)
  | landing s o hse htaken ho hafter hla hes =>
    refine h.grow (quiet hes) rfl hla (fun id hid => ?_) (fun id hid hlive => ?_)
    · have hid' : t.1.session.map Session.id = some id := hid
      rw [hafter] at hid'
      cases hid'
    · have hmem := h.current id hid
      rw [hse] at hid
      obtain rfl : s.id = id := Option.some.inj hid
      rw [htaken] at hlive
      exact absurd (landed_taken hmem ho _) hlive.2
  | takeoff q hse hafter hla hes =>
    obtain ⟨c, es⟩ := t
    obtain rfl : es = [.startDownload (l.coordinator.lastSession + 1) q] := hes
    exact h.takeoff hfirst hse hafter hla

/-- Every step keeps the numbering, the order and the one session. -/
theorem SingleFlight.step (h : l.SingleFlight) (hs : l.Steady setup) {x : Happening}
    (hl : l.step x = some l') : l'.SingleFlight := by
  cases step_goes hl with
  | still => exact h
  | @heard m c waiting running hm hc _ =>
    have hms : sessions [m] = [] := by
      cases m with
      | asked e => cases hm
      | _ => rfl
    have hse : c.session.map Session.id = l.coordinator.session.map Session.id := by rw [hc.session]
    exact h.grow hms rfl hc.lastSession (fun id hid => hse ▸ hid) (fun id hid _ => hse.trans hid)
  | called a => exact h.turn rfl (hs.calls a).flies
  | cancelled hes => exact h.turn rfl (.level rfl rfl (hes.filterMap fun _ => rfl))
  | took a _ hn => exact h.turn rfl (.next hn (hs.handles a hn).flies)

theorem singleFlight_new (setup : Setup) : (new setup).SingleFlight where
  numbered := rfl
  current id hid := by cases hid
  live id hid := by cases hid.1
  inTurn past id q later hl := by
    have hm : Moment.asked (.startDownload id q) ∈ ([] : List Moment) := by
      rw [show [] = past ++ .asked (.startDownload id q) :: later from hl]
      exact List.mem_append_right _ List.mem_cons_self
    cases hm

theorem singleFlight_run {hs : List Happening} (hr : (new setup).run hs = some l) :
    l.SingleFlight := by
  have h : l.Steady setup ∧ l.SingleFlight :=
    run_invariant (P := fun l => l.Steady setup ∧ l.SingleFlight)
      (fun l x l' h hl => ⟨Steady.step l x l' h.1 hl, h.2.step h.1 hl⟩)
      ⟨steady_new setup, singleFlight_new setup⟩ hr
  exact h.2

/-- A session begins a transfer once. -/
theorem SingleFlight.nodup (h : l.SingleFlight) : (sessions l.record).Nodup := by
  rw [h.numbered]
  exact List.nodup_range'

/-- An attempt that passes the gate begins one transfer at most. -/
theorem SingleFlight.length_le_one (h : l.SingleFlight) {t : Attempt} (ht : t ∈ attempts l.record)
    (hg : Gated t.moments) : (sessions t.moments).length ≤ 1 := by
  have hpre := (mem_attempts ht).1
  have hsub : (sessions t.moments).Sublist (sessions l.record) := by
    refine List.Sublist.filterMap _ (List.Sublist.trans ?_ hpre.sublist)
    exact (List.sublist_cons_self _ _).trans (List.sublist_append_right _ _)
  have hnodup := hsub.nodup h.nodup
  match hs : sessions t.moments with
  | [] => exact Nat.zero_le 1
  | [_] => exact Nat.le_refl 1
  | i :: j :: rest =>
    have begun : ∀ id ∈ sessions t.moments, ∃ q, .asked (.startDownload id q) ∈ t.moments := by
      intro id hid
      obtain ⟨before, q, after, hm⟩ := mem_sessions hid
      exact ⟨q, by rw [hm]; simp⟩
    obtain ⟨q, hi⟩ := begun i (by rw [hs]; simp)
    obtain ⟨q', hj⟩ := begun j (by rw [hs]; simp)
    have hne : i ≠ j := fun hij => by simp [hs, hij] at hnodup
    exact absurd (hg.loads hi hj).1 hne

/-- In every run, in either mode, transfers begin for the sessions 1, 2, 3 and so on, each after an
end of the one before was taken, and at no moment are two live. A call that finds an attempt, or a
runtime that serves, is noted as refused and nothing else. In the background an accepted call begins
one transfer at most. -/
theorem run_singleFlight {hs : List Happening} (hr : (new setup).run hs = some l) :
    (∃ n, sessions l.record = List.range' 1 n) ∧
      (∀ past k q later, l.record = past ++ .asked (.startDownload (k + 1) q) :: later →
        k = 0 ∨ Landed past k) ∧
      (∀ past, past <+: l.record → ∀ i j, Live past i → Live past j → i = j) ∧
      (∀ a : Answers, l.coordinator.state ≠ .idle ∨ a.status = .pendingFirstUse ∨
        a.status = .matched → l.coordinator.attemptUpdate a = (false, l.coordinator, []) ∧
          l.step (.attempt a) = some (l.note (.attempted false))) ∧
      (setup.presentation = .background →
        ∀ t ∈ attempts l.record, (sessions t.moments).length ≤ 1) := by
  have h := singleFlight_run hr
  refine ⟨⟨_, h.numbered⟩, fun past k q later hl => h.inTurn.predecessor h.numbered hl,
    fun past hp i j hi hj => (h.inTurn.of_prefix hp).eq_of_live hi hj, fun a ha => ?_,
    fun hb t ht => ?_⟩
  · have hrefused := Coordinator.attemptUpdate_refused ha
    refine ⟨hrefused, ?_⟩
    simp [Life.step, hrefused, Life.turn, Life.note]
  · -- An attempt is the current one of some prefix, where the gate holds.
    obtain ⟨past, hp, hcur⟩ := currentAttempt_of_mem ht
    exact h.length_le_one ht (hcur ▸ (kept_run hb hr).gated past hp)

/-- Two attempts in the background: the first fails, and a call while it runs is refused. -/
def secondAttempt : List Happening :=
  [.overrideUrl "http://host/runtime", .attempt plainAnswers, .attempt plainAnswers,
    .report ⟨1, .failed 404 1002⟩, .process plainAnswers, .attempt plainAnswers]

theorem run_singleFlight_secondAttempt : ∃ l, (new plainSetup).run secondAttempt = some l ∧
    sessions l.record = [1, 2] ∧ (attempts l.record).length = 2 ∧
    (∃ q, l.record = l.record.dropLast ++ [.asked (.startDownload 2 q)]) ∧
    Landed l.record.dropLast 1 ∧
    l.step (.attempt plainAnswers) = some (l.note (.attempted false)) ∧
    ∀ t ∈ attempts l.record, (sessions t.moments).length ≤ 1 := by
  have hr : (new plainSetup).run secondAttempt = some _ := rfl
  obtain ⟨-, hlanded, -, hrefused, hone⟩ := run_singleFlight hr
  refine ⟨_, hr, rfl, rfl, ⟨_, rfl⟩, ?_, (hrefused plainAnswers (.inl ?_)).2, hone rfl⟩
  · exact (hlanded _ 1 _ [] rfl).resolve_left (by decide)
  · exact fun hst => by cases hst

end Life

end SharedRuntime
