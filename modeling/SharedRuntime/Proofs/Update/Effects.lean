import SharedRuntime.Proofs.Update.Ledger

/-!
# What is asked for, attempt by attempt

`effects record` lists all that a coordinator asked of its surroundings. Between two attempts it asks
for nothing (`idle_step_effects`), so in either mode the effects of a record are those of its
attempts (`effects_run`), and a coordinator has the number of its latest attempt (`attempt_run`).
-/

set_option autoImplicit false

namespace SharedRuntime

def Moment.effect? : Moment → Option Effect
  | asked e => some e
  | _ => none

/-- What the coordinator asked of its surroundings, in order. -/
def effects (ms : List Moment) : List Effect := ms.filterMap Moment.effect?

theorem effects_append (ms ms' : List Moment) : effects (ms ++ ms') = effects ms ++ effects ms' := by
  simp [effects]

theorem effects_asked (es : List Effect) : effects (es.map .asked) = es := by
  rw [effects, List.filterMap_map]
  exact List.filterMap_some

theorem effects_turn (ms : List Moment) {first : Moment} (hf : first.effect? = none)
    (es : List Effect) : effects (ms ++ first :: es.map .asked) = effects ms ++ es := by
  rw [effects_append, effects, effects, List.filterMap_cons_none hf]
  exact congrArg _ (effects_asked es)

theorem effects_heard {m : Moment} (h : m.isHeard = true) : effects [m] = [] := by
  cases m <;> first | rfl | cases h

/-- What the listener was told is read off the effects. -/
theorem told_eq (ms : List Moment) : told ms = (effects ms).filterMap Effect.event? := by
  have hread : Moment.event? = fun m => m.effect?.bind Effect.event? :=
    funext fun m => by cases m <;> rfl
  rw [told, hread, effects, List.filterMap_filterMap]

theorem removed_eq (ms : List Moment) : removed ms = (effects ms).filterMap Effect.removal? := by
  have hread : Moment.removal? = fun m => m.effect?.bind Effect.removal? :=
    funext fun m => by cases m <;> rfl
  rw [removed, hread, effects, List.filterMap_filterMap]

theorem countP_opens_turn (ms : List Moment) (first : Moment) (es : List Effect) :
    (ms ++ first :: es.map .asked).countP Moment.opens =
      ms.countP Moment.opens + first.opens.toNat := by
  have hes : (es.map Moment.asked).countP Moment.opens = 0 :=
    List.countP_eq_zero.2 fun m hm => by simp [opens_asked m hm]
  rw [List.countP_append, List.countP_cons, hes, Nat.zero_add]
  cases first.opens <;> rfl

namespace Coordinator

variable {c : Coordinator} {a : Answers}

/-- A call that is refused leaves the coordinator as it is. -/
theorem attemptUpdate_of_refused (h : (c.attemptUpdate a).1 = false) :
    c.attemptUpdate a = (false, c, []) := by
  unfold attemptUpdate at h ⊢
  split
  · rfl
  · rename_i hc
    rw [if_neg hc] at h
    dsimp only at h
    split at h <;> cases h

theorem Attempts.attempt {b : Bool} {n : Turn} (h : c.Attempts b n) :
    n.1.attempt = c.attempt + b.toNat := by
  cases h <;> rfl

theorem Invites.attempt {b : Bool} {n : Turn} (h : c.Invites a b n) :
    n.1.attempt = c.attempt + b.toNat := by
  cases h <;> rfl

theorem Moves.attempt {m : Incoming} {n : Turn} (h : c.Moves m n) : n.1.attempt = c.attempt := by
  cases h <;> rfl

theorem Responds.attempt {m : Incoming} {n : Turn} (h : c.Responds a m n) :
    n.1.attempt = c.attempt := by
  cases h <;> rfl

end Coordinator

namespace Life

variable {l l' : Life} {setup : Setup} {ms : List Moment}

/-! ## Between two attempts -/

/-- While no attempt runs and none is accepted, nothing is asked for. -/
theorem idle_step_effects (hst : l.coordinator.state = .idle) {x : Happening}
    (hl : l.step x = some l') (hrec : l'.record = l.record ++ ms)
    (hms : ∀ m ∈ ms, m.opens = false) : l'.coordinator.state = .idle ∧ effects ms = [] := by
  cases step_goes hl with
  | still =>
    obtain rfl : ms = [] := List.append_right_eq_self.1 hrec.symm
    exact ⟨hst, rfl⟩
  | @heard m c waiting running hm hc _ =>
    obtain rfl : [m] = ms := List.append_cancel_left hrec
    exact ⟨hc.state.trans hst, effects_heard hm⟩
  | called a =>
    obtain rfl := List.append_cancel_left hrec
    have hb : (l.coordinator.attemptUpdate a).1 = false := hms _ List.mem_cons_self
    rw [Coordinator.attemptUpdate_of_refused hb]
    exact ⟨hst, rfl⟩
  | @cancelled b es hes =>
    obtain rfl := List.append_cancel_left hrec
    rcases hes with rfl | ⟨hd, -⟩
    · exact ⟨hst, rfl⟩
    · rw [hst] at hd
      cases hd
  | took a hne => exact absurd hst hne

/-- No attempt ran so far, or one is the latest; all that was asked for before it belongs to the
attempts before it. -/
inductive Parted (l : Life) : Prop
  | fresh (state : l.coordinator.state = .idle) (unopened : ∀ m ∈ l.record, m.opens = false)
      (untouched : effects l.record = [])
  | since (t : Attempt) (latest : l.Latest t)
      (inside : effects t.before = (attempts t.before).flatMap fun t => effects t.moments)

theorem Parted.effects_eq (h : l.Parted) :
    effects l.record = (attempts l.record).flatMap fun t => effects t.moments := by
  cases h with
  | fresh _ hun hnone =>
    rw [hnone, attempts_unopened hun]
    rfl
  | since t hlat hin =>
    rw [hlat.attempts_eq, List.flatMap_append, List.flatMap_singleton, ← hin, hlat.record,
      effects_append]
    rfl

theorem parted_run (h : l.Reached setup) : l.Parted := by
  refine h.invariant (.fresh rfl (fun m hm => by cases hm) rfl) fun l x l' _ hl hx => ?_
  rcases step_record hx with ⟨ms, hrec, hms⟩ | ⟨a, n, -, rfl⟩
  · cases hl with
    | since t hlat hin => exact .since (t.goesOn ms) (hlat.grow hrec hms) hin
    | fresh hst hun hnone =>
      obtain ⟨hst', hnone'⟩ := idle_step_effects hst hx hrec hms
      refine .fresh hst' (fun m hm => ?_) ?_
      · rw [hrec] at hm
        exact (List.mem_append.1 hm).elim (hun m) (hms m)
      · rw [hrec, effects_append, hnone, hnone']
        rfl
  · exact .since ⟨l.record, n.2.map .asked⟩ ⟨rfl, opens_asked⟩ hl.effects_eq

/-- All that is asked for is asked for in an attempt. -/
theorem effects_run (h : l.Reached setup) :
    effects l.record = (attempts l.record).flatMap fun t => effects t.moments :=
  (parted_run h).effects_eq

/-- What is removed is removed in an attempt. -/
theorem removed_run (h : l.Reached setup) :
    removed l.record = (attempts l.record).flatMap fun t => removed t.moments := by
  simp only [removed_eq, effects_run h, List.filterMap_flatMap]

/-- What is told is told in an attempt. -/
theorem told_run (h : l.Reached setup) :
    told l.record = (attempts l.record).flatMap fun t => told t.moments := by
  simp only [told_eq, effects_run h, List.filterMap_flatMap]

/-! ## The number of the attempt -/

theorem Steady.attemptUpdate_attempt (h : l.Steady setup) (a : Answers) :
    (l.coordinator.attemptUpdate a).2.1.attempt =
      l.coordinator.attempt + (l.coordinator.attemptUpdate a).1.toNat := by
  cases h.calls a with
  | background _ _ hc => exact hc.attempt
  | foreground _ _ hc => exact hc.attempt

theorem Steady.handle_attempt (h : l.Steady setup) (a : Answers) {m : Incoming} {c : Coordinator}
    (hn : l.coordinator.Next m c) : (c.handle a m).1.attempt = l.coordinator.attempt := by
  have hc : c.attempt = l.coordinator.attempt := by cases hn <;> rfl
  rw [← hc]
  cases h.handles a hn with
  | background _ _ hc => exact hc.attempt
  | foreground _ _ hc => exact hc.attempt

/-- The number grows with each accepted call. -/
theorem Steady.step_attempt (hs : l.Steady setup)
    (h : l.coordinator.attempt = l.record.countP Moment.opens) {x : Happening}
    (hl : l.step x = some l') : l'.coordinator.attempt = l'.record.countP Moment.opens := by
  have turn : ∀ {first : Moment} {t : Turn},
      t.1.attempt = l.coordinator.attempt + first.opens.toNat →
        (l.turn first t).coordinator.attempt = (l.turn first t).record.countP Moment.opens := by
    intro first t ht
    exact ht.trans (by rw [h]; exact (countP_opens_turn l.record first t.2).symm)
  cases step_goes hl with
  | still => exact h
  | @heard m c waiting running hm hc =>
    have hopen : m.opens = false := by
      cases m <;> first | rfl | cases hm
    show c.attempt = (l.record ++ [m]).countP Moment.opens
    simp [hc.attempt, h, hopen]
  | called a => exact turn (hs.attemptUpdate_attempt a)
  | cancelled => exact turn rfl
  | took a _ hn => exact turn (hs.handle_attempt a hn)

/-- The coordinator counts its attempts. -/
theorem attempt_run (h : l.Reached setup) :
    l.coordinator.attempt = (attempts l.record).length := by
  rw [length_attempts]
  exact h.invariant (P := fun l => l.coordinator.attempt = l.record.countP Moment.opens) rfl
    fun l x l' hreach hl hx => hreach.steady.step_attempt hl hx

end Life

end SharedRuntime
