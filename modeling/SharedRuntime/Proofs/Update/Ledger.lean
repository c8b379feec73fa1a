import SharedRuntime.Proofs.Update.Deliveries
import SharedRuntime.Proofs.Update.Events

/-!
# The ledger of an attempt

`attempts_run` is the induction over the attempts of a run: what an accepted call sets up and every
other step keeps holds of each attempt, now if it is the latest one and at an idle moment if it is
not. With it the jobs of an attempt are counted (`Ledger`): those that were asked for began or wait,
those that began ended or run, and what they came to was taken or waits to be taken.
-/

set_option autoImplicit false

namespace SharedRuntime

/-! ## Attempts of a run -/

/-- Only an idle coordinator accepts a call. -/
theorem Coordinator.idle_of_accepted {c : Coordinator} {a : Answers} {n : Turn}
    (h : c.attemptUpdate a = (true, n)) : c.state = .idle := by
  unfold attemptUpdate at h
  split at h
  · cases h
  · cases hst : c.state <;> simp_all [UpdateState.isIdle]

namespace Life

variable {l l' : Life} {setup : Setup} {t : Attempt} {ms : List Moment}

/-- Some run leads to the life. -/
def Reached (setup : Setup) (l : Life) : Prop := ∃ hs, (new setup).run hs = some l

theorem run_append (hs hs' : List Happening) (l : Life) :
    l.run (hs ++ hs') = (l.run hs).bind (run hs') := by
  induction hs generalizing l with
  | nil => rfl
  | cons h hs ih =>
    rw [List.cons_append, run, run]
    cases l.step h with
    | none => rfl
    | some m => exact ih m

theorem Reached.step (h : l.Reached setup) {x : Happening} (hl : l.step x = some l') :
    l'.Reached setup := by
  obtain ⟨hs, hr⟩ := h
  exact ⟨hs ++ [x], by simp [run_append, hr, run, hl]⟩

/-- What holds at the start and is kept by the steps of a run holds after it. -/
theorem Reached.invariant {P : Life → Prop} (hnew : P (new setup))
    (hstep : ∀ l x l', Reached setup l → P l → l.step x = some l' → P l')
    (h : l.Reached setup) : P l := by
  obtain ⟨hs, hr⟩ := h
  have hall : l.Reached setup ∧ P l :=
    run_invariant (P := fun l => l.Reached setup ∧ P l)
      (fun l x l' h hl => ⟨h.1.step hl, hstep l x l' h.1 h.2 hl⟩) ⟨⟨[], rfl⟩, hnew⟩ hr
  exact hall.2

theorem Reached.steady (h : l.Reached setup) : l.Steady setup := by
  obtain ⟨hs, hr⟩ := h
  exact steady_run hr

/-- A step notes more of the attempt that runs, or accepts a call. -/
theorem step_record {x : Happening} (hl : l.step x = some l') :
    (∃ ms, l'.record = l.record ++ ms ∧ ∀ m ∈ ms, m.opens = false) ∨
      ∃ a n, l.coordinator.attemptUpdate a = (true, n) ∧ l' = l.turn (.attempted true) n := by
  cases step_goes hl with
  | still => exact .inl ⟨[], by simp, by simp⟩
  | @heard m c waiting running hm =>
    refine .inl ⟨[m], rfl, List.forall_mem_singleton.2 ?_⟩
    cases m <;> first | rfl | cases hm
  | called a =>
    cases hb : (l.coordinator.attemptUpdate a).1 with
    | true => exact .inr ⟨a, _, Prod.ext hb rfl, rfl⟩
    | false => exact .inl ⟨_, rfl, List.forall_mem_cons.2 ⟨rfl, opens_asked⟩⟩
  | cancelled => exact .inl ⟨_, rfl, List.forall_mem_cons.2 ⟨rfl, opens_asked⟩⟩
  | took => exact .inl ⟨_, rfl, List.forall_mem_cons.2 ⟨rfl, opens_asked⟩⟩

/-- The attempt is the one that runs, or ran last. -/
structure Latest (l : Life) (t : Attempt) : Prop where
  record : l.record = t.before ++ .attempted true :: t.moments
  unopened : ∀ m ∈ t.moments, m.opens = false

theorem Latest.grow (h : l.Latest t) (hrec : l'.record = l.record ++ ms)
    (hms : ∀ m ∈ ms, m.opens = false) : l'.Latest (t.goesOn ms) where
  record := by simp [hrec, h.record, Attempt.goesOn]
  unopened m hm := by
    rcases List.mem_append.1 hm with hm | hm
    · exact h.unopened m hm
    · exact hms m hm

theorem Latest.attempts_eq (h : l.Latest t) : attempts l.record = attempts t.before ++ [t] := by
  rw [h.record, attempts_opened h.unopened]

/-- The call of the latest attempt stands in the record. -/
theorem Latest.opened (h : l.Latest t) : ¬ ∀ m ∈ l.record, m.opens = false := fun hun => by
  have hm := hun (.attempted true) (by rw [h.record]; simp)
  cases hm

/-- Only one attempt is the latest. -/
theorem Latest.unique {t' : Attempt} (h : l.Latest t) (h' : l.Latest t') : t = t' := by
  have hsame : attempts t.before ++ [t] = attempts t'.before ++ [t'] :=
    h.attempts_eq.symm.trans h'.attempts_eq
  exact List.singleton_inj.1 (List.append_inj' hsame rfl).2

/-- No call was accepted so far, or one attempt is the latest, and each before it was the latest in
an idle life. -/
theorem latest_or_fresh (h : l.Reached setup) : (∀ m ∈ l.record, m.opens = false) ∨
    ∃ last, l.Latest last ∧ ∀ t ∈ attempts last.before,
      ∃ l₀ : Life, l₀.Reached setup ∧ l₀.Latest t ∧ l₀.coordinator.state = .idle := by
  refine h.invariant (P := fun l => (∀ m ∈ l.record, m.opens = false) ∨ ∃ last, l.Latest last ∧
    ∀ t ∈ attempts last.before, ∃ l₀ : Life, l₀.Reached setup ∧ l₀.Latest t ∧
      l₀.coordinator.state = .idle) (.inl (by simp [new])) fun l x l' hreach hl hx => ?_
  rcases step_record hx with ⟨ms, hrec, hms⟩ | ⟨a, n, hn, rfl⟩
  · rcases hl with hun | ⟨last, hlast, hold⟩
    · refine .inl fun m hm => ?_
      rw [hrec] at hm
      exact (List.mem_append.1 hm).elim (hun m) (hms m)
    · exact .inr ⟨_, hlast.grow hrec hms, hold⟩
  · refine .inr ⟨⟨l.record, n.2.map .asked⟩, ⟨rfl, opens_asked⟩, fun t ht => ?_⟩
    rcases hl with hun | ⟨last, hlast, hold⟩
    · rw [attempts_unopened hun] at ht
      cases ht
    · have ht' : t ∈ attempts last.before ++ [last] := hlast.attempts_eq ▸ ht
      rcases List.mem_append.1 ht' with ht' | ht'
      · exact hold t ht'
      · obtain rfl := List.mem_singleton.1 ht'
        exact ⟨l, hreach, hlast, Coordinator.idle_of_accepted hn⟩

/-- An attempt before the latest one was the latest in an idle life. -/
theorem Reached.exists_idle (h : l.Reached setup) (hlat : l.Latest t) {t' : Attempt}
    (ht : t' ∈ attempts t.before) :
    ∃ l₀ : Life, l₀.Reached setup ∧ l₀.Latest t' ∧ l₀.coordinator.state = .idle := by
  rcases latest_or_fresh h with hun | ⟨last, hlast, hold⟩
  · exact absurd hun hlat.opened
  · obtain rfl := hlast.unique hlat
    exact hold t' ht

/-- Each attempt of a run was the latest one, in the life that was reached or in an idle one before
it. -/
theorem Reached.exists_latest (h : l.Reached setup) (ht : t ∈ attempts l.record) :
    ∃ l₀ : Life, l₀.Reached setup ∧ l₀.Latest t ∧ (l₀ = l ∨ l₀.coordinator.state = .idle) := by
  rcases latest_or_fresh h with hun | ⟨last, hlast, hold⟩
  · rw [attempts_unopened hun] at ht
    cases ht
  · rw [hlast.attempts_eq] at ht
    rcases List.mem_append.1 ht with ht | ht
    · obtain ⟨l₀, hreach, hlat, hidle⟩ := hold t ht
      exact ⟨l₀, hreach, hlat, .inr hidle⟩
    · obtain rfl := List.mem_singleton.1 ht
      exact ⟨l, h, hlast, .inl rfl⟩

section
variable {P : Life → Attempt → Prop}
  (hopen : ∀ l a n, Reached setup l → l.coordinator.attemptUpdate a = (true, n) →
    P (l.turn (.attempted true) n) ⟨l.record, n.2.map .asked⟩)
  (hgrow : ∀ l x l' t ms, Reached setup l → l.Latest t → P l t → l.step x = some l' →
    l'.record = l.record ++ ms → (∀ m ∈ ms, m.opens = false) → P l' (t.goesOn ms))
include hopen hgrow

/-- What an accepted call sets up and every other step keeps holds of the latest attempt. -/
theorem latest_run (h : l.Reached setup) (ht : l.Latest t) : P l t := by
  have hall : (∀ m ∈ l.record, m.opens = false) ∨ ∃ last, l.Latest last ∧ P l last := by
    refine h.invariant (P := fun l => (∀ m ∈ l.record, m.opens = false) ∨
      ∃ last, l.Latest last ∧ P l last) (.inl (by simp [new])) fun l x l' hreach hl hx => ?_
    rcases step_record hx with ⟨ms, hrec, hms⟩ | ⟨a, n, hn, rfl⟩
    · rcases hl with hun | ⟨last, hlast, hp⟩
      · refine .inl fun m hm => ?_
        rw [hrec] at hm
        exact (List.mem_append.1 hm).elim (hun m) (hms m)
      · exact .inr ⟨_, hlast.grow hrec hms, hgrow l x l' last ms hreach hlast hp hx hrec hms⟩
    · exact .inr ⟨⟨l.record, n.2.map .asked⟩, ⟨rfl, opens_asked⟩, hopen l a n hreach hn⟩
  rcases hall with hun | ⟨last, hlast, hp⟩
  · exact absurd hun ht.opened
  · exact hlast.unique ht ▸ hp

/-- So it holds of each attempt of a run, in the life that was reached or in an idle one before
it. -/
theorem attempts_run (h : l.Reached setup) (ht : t ∈ attempts l.record) :
    ∃ l₀, l₀.Reached setup ∧ l₀.Latest t ∧ P l₀ t ∧ (l₀ = l ∨ l₀.coordinator.state = .idle) := by
  obtain ⟨l₀, hreach, hlat, hl₀⟩ := h.exists_latest ht
  exact ⟨l₀, hreach, hlat, latest_run hopen hgrow hreach hlat, hl₀⟩

end

end Life

/-! ## Jobs -/

def Moment.sought? : Moment → Option Job
  | asked e => e.job?
  | _ => none

def Moment.begun? : Moment → Option Job
  | began j => some j
  | _ => none

def Moment.finished? : Moment → Option (Job × WorkResult)
  | finished j r => some (j, r)
  | _ => none

def Moment.worked? : Moment → Option WorkResult
  | taken (.work r) => some r
  | _ => none

/-- The jobs that were asked for. -/
def sought (ms : List Moment) : List Job := ms.filterMap Moment.sought?

def begun (ms : List Moment) : List Job := ms.filterMap Moment.begun?

/-- The jobs that ended, with what they came to. -/
def finished (ms : List Moment) : List (Job × WorkResult) := ms.filterMap Moment.finished?

/-- The results that were taken. -/
def worked (ms : List Moment) : List WorkResult := ms.filterMap Moment.worked?

section
variable (ms : List Moment) {first : Moment} (es : List Effect)

theorem sought_turn (hf : first.sought? = none) :
    sought (ms ++ first :: es.map .asked) = sought ms ++ es.filterMap Effect.job? := by
  rw [sought, filterMap_turn, hf]
  rfl

theorem begun_turn (hf : first.begun? = none) :
    begun (ms ++ first :: es.map .asked) = begun ms := by
  rw [begun, filterMap_turn_first (fun _ => rfl), hf]
  exact List.append_nil _

theorem finished_turn (hf : first.finished? = none) :
    finished (ms ++ first :: es.map .asked) = finished ms := by
  rw [finished, filterMap_turn_first (fun _ => rfl), hf]
  exact List.append_nil _

end

theorem worked_turn (ms : List Moment) (first : Moment) (es : List Effect) :
    worked (ms ++ first :: es.map .asked) = worked ms ++ first.worked?.toList :=
  filterMap_turn_first (fun _ => rfl) ms first es

namespace Life

variable {l l' : Life} {setup : Setup} {t : Attempt} {ms : List Moment}

/-- What became of the jobs that were asked for in `ms`. -/
structure Ledger (l : Life) (ms : List Moment) : Prop where
  started : (sought ms).Perm (begun ms ++ l.waiting)
  ended : (begun ms).Perm ((finished ms).map Prod.fst ++ l.running)
  taken : (finished ms).map Prod.snd = worked ms ++ l.coordinator.work
  fits : ∀ x ∈ finished ms, x.1.fits x.2 = true

/-- Nothing is open once every job ended. -/
theorem Ledger.settled (h : l.Ledger ms) (hw : l.waiting = []) (hr : l.running = []) :
    (sought ms).Perm (begun ms) ∧ (begun ms).Perm ((finished ms).map Prod.fst) := by
  have hs := h.started
  have he := h.ended
  rw [hw, List.append_nil] at hs
  rw [hr, List.append_nil] at he
  exact ⟨hs, he⟩

theorem Ledger.turn (h : l.Ledger ms) {first : Moment} {n : Turn} (hs : first.sought? = none)
    (hb : first.begun? = none) (hf : first.finished? = none)
    (hw : l.coordinator.work = first.worked?.toList ++ n.1.work) :
    (l.turn first n).Ledger (ms ++ first :: n.2.map .asked) := by
  have hs' := sought_turn ms n.2 hs
  have hb' := begun_turn ms n.2 hb
  have hf' := finished_turn ms n.2 hf
  have hw' := worked_turn ms first n.2
  refine ⟨?_, ?_, ?_, by rw [hf']; exact h.fits⟩
  · have hwaiting : (l.turn first n).waiting = l.waiting ++ n.2.filterMap Effect.job? := rfl
    rw [hs', hb', hwaiting, ← List.append_assoc]
    exact h.started.append_right _
  · rw [hb', hf']
    exact h.ended
  · rw [hf', hw', h.taken, hw, List.append_assoc]
    rfl

/-- A moment that jobs have no part in. -/
theorem Ledger.aside (h : l.Ledger ms) {m : Moment} {c : Coordinator} (hs : m.sought? = none)
    (hb : m.begun? = none) (hf : m.finished? = none) (hw : m.worked? = none)
    (hwk : c.work = l.coordinator.work) :
    ({ l with coordinator := c }.note m).Ledger (ms ++ [m]) := by
  have hturn : l.turn m (c, []) = { l with coordinator := c }.note m := by
    simp [Life.turn, Life.note]
  rw [← hturn]
  exact h.turn hs hb hf (by rw [hw]; exact hwk.symm)

/-- A job that waits begins. -/
theorem Ledger.begin (h : l.Ledger ms) {j : Job} (hj : j ∈ l.waiting) :
    ({ l with waiting := l.waiting.erase j,
              running := l.running ++ [j] }.note (.began j)).Ledger
      (ms ++ [Moment.began j]) := by
  have hb : begun (ms ++ [.began j]) = begun ms ++ [j] := by simp [begun, Moment.begun?]
  have hs : sought (ms ++ [.began j]) = sought ms := by simp [sought, Moment.sought?]
  have hf : finished (ms ++ [.began j]) = finished ms := by simp [finished, Moment.finished?]
  have hw : worked (ms ++ [.began j]) = worked ms := by simp [worked, Moment.worked?]
  refine ⟨?_, ?_, by rw [hf, hw]; exact h.taken, by rw [hf]; exact h.fits⟩
  · rw [hs, hb, List.append_assoc]
    exact h.started.trans ((List.perm_cons_erase hj).append_left _)
  · rw [hb, hf]
    show (begun ms ++ [j]).Perm (_ ++ (l.running ++ [j]))
    rw [← List.append_assoc]
    exact h.ended.append_right _

/-- A job that runs ends. -/
theorem Ledger.finish (h : l.Ledger ms) {j : Job} {r : WorkResult} (hfit : j.fits r = true)
    (hl : l.finish j r = some l') :
    ∃ new, l'.record = l.record ++ new ∧ l'.Ledger (ms ++ new) := by
  unfold Life.finish at hl
  split at hl
  · rename_i hj
    cases hl
    have hb : begun (ms ++ [.finished j r]) = begun ms := by simp [begun, Moment.begun?]
    have hs : sought (ms ++ [.finished j r]) = sought ms := by simp [sought, Moment.sought?]
    have hf : finished (ms ++ [.finished j r]) = finished ms ++ [(j, r)] := by
      simp [finished, Moment.finished?]
    have hw : worked (ms ++ [.finished j r]) = worked ms := by simp [worked, Moment.worked?]
    refine ⟨_, rfl, by rw [hs, hb]; exact h.started, ?_, ?_, fun x hx => ?_⟩
    · rw [hb, hf, List.map_append, List.append_assoc]
      exact h.ended.trans ((List.perm_cons_erase hj).append_left _)
    · rw [hf, hw, List.map_append, h.taken, List.append_assoc]
      rfl
    · rw [hf] at hx
      rcases List.mem_append.1 hx with hx | hx
      · exact h.fits x hx
      · obtain rfl := List.mem_singleton.1 hx
        exact hfit
  · cases hl

/-- Every step goes on with the ledger. -/
theorem Ledger.step (h : l.Ledger ms) {x : Happening}
    (hl : l.step x = some l') : ∃ new, l'.record = l.record ++ new ∧ l'.Ledger (ms ++ new) := by
  cases x with
  | attempt a =>
    cases hl
    exact ⟨_, rfl, h.turn rfl rfl rfl (l.coordinator.attemptUpdate_work a).symm⟩
  | cancel a =>
    obtain ⟨es, -, hc⟩ := l.coordinator.cancelBackgroundUpdate_stops a
    have hl' : l' = l.turn (.cancelled (!es.isEmpty && a.cancels)) (l.coordinator, es) := by
      simpa [Life.step, hc] using hl.symm
    subst hl'
    exact ⟨_, rfl, h.turn rfl rfl rfl rfl⟩
  | overrideUrl url =>
    cases hl
    exact ⟨_, rfl, h.aside rfl rfl rfl rfl rfl⟩
  | configure m =>
    cases hl
    exact ⟨_, rfl, h.aside rfl rfl rfl rfl rfl⟩
  | process a =>
    rcases step_process hl with rfl | ⟨m, c, -, hn, rfl⟩
    · exact ⟨[], by simp, by simpa using h⟩
    · refine ⟨_, rfl, h.turn rfl rfl rfl ?_⟩
      rw [c.handle_work a m]
      cases hn with
      | work hw => exact hw
      | report => rfl
      | action => rfl
  | report r =>
    cases hl
    exact ⟨_, rfl, h.aside rfl rfl rfl rfl rfl⟩
  | choose r =>
    cases hl
    exact ⟨_, rfl, h.aside rfl rfl rfl rfl rfl⟩
  | begin j =>
    unfold Life.step at hl
    dsimp only at hl
    split at hl
    · cases hl
      exact ⟨_, rfl, h.begin ‹_›⟩
    · cases hl
  | verified p found trusted => exact h.finish rfl hl
  | installed p d r => exact h.finish rfl hl

end Life

end SharedRuntime
