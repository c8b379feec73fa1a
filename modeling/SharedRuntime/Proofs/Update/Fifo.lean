import SharedRuntime.Proofs.Update.Ledger

/-!
# The order of messages

Results of jobs, reports and choices wait in a queue each. `Fifo` says what makes a queue first in,
first out: what a coordinator hears joins at its end, a message that is taken leaves at its head, and
nothing else touches it. So in every run what arrived is what was taken, in order, and then what
still waits (`Fifo.run`).
-/

set_option autoImplicit false

namespace SharedRuntime

/-- The report that is taken with a moment. -/
def Moment.report? : Moment → Option SessionReport
  | taken (.report r) => some r
  | _ => none

/-- The choice that is taken with a moment. -/
def Moment.served? : Moment → Option ActionReport
  | taken (.action r) => some r
  | _ => none

/-- A queue, with what arrives in it and what is taken from it at each moment. -/
structure Fifo {α : Type} (arrives leaves : Moment → Option α) (queue : Coordinator → List α) :
    Prop where
  empty : ∀ setup, queue (.new setup) = []
  outside : ∀ m, m.isHeard = false → arrives m = none
  inside : ∀ m, (∀ x, m ≠ .taken x) → leaves m = none
  hears : ∀ {c c' : Coordinator} {m : Moment}, c.Hears m c' →
    queue c' = queue c ++ (arrives m).toList
  keeps : ∀ {c c' : Coordinator}, c'.queues = c.queues → queue c' = queue c
  next : ∀ {c c' : Coordinator} {m : Incoming}, c.Next m c' →
    queue c = (leaves (.taken m)).toList ++ queue c'

theorem fifo_work : Fifo Moment.result? Moment.worked? Coordinator.work where
  empty _ := rfl
  outside m hm := by
    cases m <;> first | rfl | cases hm
  inside m hm := by
    cases m with
    | taken x => exact absurd rfl (hm x)
    | _ => rfl
  hears h := h.work
  keeps h := congrArg Queues.work h
  next h := by
    cases h with
    | work hw => exact hw
    | report => rfl
    | action => rfl

theorem fifo_reports : Fifo Moment.reported? Moment.report? Coordinator.reports where
  empty _ := rfl
  outside m hm := by
    cases m <;> first | rfl | cases hm
  inside m hm := by
    cases m with
    | taken x => exact absurd rfl (hm x)
    | _ => rfl
  hears h := h.reports
  keeps h := congrArg Queues.reports h
  next h := by
    cases h with
    | work => rfl
    | report _ hr => exact hr
    | action => rfl

theorem fifo_actions : Fifo Moment.choice? Moment.served? Coordinator.actions where
  empty _ := rfl
  outside m hm := by
    cases m <;> first | rfl | cases hm
  inside m hm := by
    cases m with
    | taken x => exact absurd rfl (hm x)
    | _ => rfl
  hears h := h.actions
  keeps h := congrArg Queues.actions h
  next h := by
    cases h with
    | work => rfl
    | report => rfl
    | action _ _ ha => exact ha

section
variable {α : Type} {arrives leaves : Moment → Option α} {queue : Coordinator → List α}
  {l : Life} {setup : Setup}

theorem Moment.ne_taken_of_isHeard {m : Moment} (h : m.isHeard = true) (x : Incoming) :
    m ≠ .taken x := by
  rintro rfl
  cases h

/-- What arrived is what was taken, in order, and then what waits. -/
theorem Fifo.run (h : Fifo arrives leaves queue) (hl : l.Reached setup) :
    l.record.filterMap arrives = l.record.filterMap leaves ++ queue l.coordinator := by
  have hasked : ∀ e, arrives (.asked e) = none ∧ leaves (.asked e) = none := fun e =>
    ⟨h.outside _ rfl, h.inside _ fun x hx => by cases hx⟩
  refine hl.invariant (P := fun l => l.record.filterMap arrives =
    l.record.filterMap leaves ++ queue l.coordinator) (h.empty setup).symm fun l x l' _ hold hx => ?_
  have turn : ∀ {first : Moment} {t : Turn}, first.isHeard = false →
      queue l.coordinator = (leaves first).toList ++ queue t.1 →
      (l.turn first t).record.filterMap arrives =
        (l.turn first t).record.filterMap leaves ++ queue (l.turn first t).coordinator := by
    intro first t hfirst hq
    show (l.record ++ first :: t.2.map .asked).filterMap arrives =
      (l.record ++ first :: t.2.map .asked).filterMap leaves ++ queue t.1
    rw [filterMap_turn_first (fun e => (hasked e).1), filterMap_turn_first (fun e => (hasked e).2),
      h.outside first hfirst, hold, hq]
    simp
  cases Life.step_goes hx with
  | still => exact hold
  | @heard m c waiting running hm hc =>
    have harrives := filterMap_turn_first (fun e => (hasked e).1) l.record m []
    have hleaves := filterMap_turn_first (fun e => (hasked e).2) l.record m []
    rw [h.inside m (Moment.ne_taken_of_isHeard hm), Option.toList_none, List.append_nil] at hleaves
    show (l.record ++ [m]).filterMap arrives = (l.record ++ [m]).filterMap leaves ++ queue c
    rw [List.map_nil] at harrives hleaves
    rw [harrives, hleaves, hold, h.hears hc, List.append_assoc]
  | called a =>
    refine turn rfl ?_
    rw [h.inside _ (fun x hx => by cases hx), h.keeps (l.coordinator.attemptUpdate_queues a)]
    rfl
  | cancelled =>
    refine turn rfl ?_
    rw [h.inside _ (fun x hx => by cases hx)]
    rfl
  | @took a m c _ hn =>
    refine turn rfl ?_
    rw [h.keeps (c.handle_queues a m)]
    exact h.next hn

end

end SharedRuntime
