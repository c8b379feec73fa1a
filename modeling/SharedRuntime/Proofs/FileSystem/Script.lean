import SharedRuntime.FileSystem.Script

/-!
# Running scripts

What the pieces of a script do when they are run, one by one. `inOrder` is a script made of stages;
what holds at the end of its run and not at the start came about at one of them
(`inOrder_turn_iff`). `Keeps` is what a run does to the tree whether it succeeds or fails.
-/

set_option autoImplicit false

namespace SharedRuntime.Script

variable {ε δ α β : Type}

/-- A run that goes on after a success. -/
theorem perform_bind (s : Script ε α) (f : α → Script ε β) (fs : FileSystem) :
    (s >>= f).perform fs =
      match s.perform fs with
      | (.ok a, fs') => (f a).perform fs'
      | (.error e, fs') => (.error e, fs') := by
  show ExceptT.bind s f fs = _
  unfold ExceptT.bind ExceptT.mk
  show (match s fs with
    | (r, fs') => ExceptT.bindCont f r fs') = _
  unfold perform
  cases h : s fs with
  | mk r fs' => cases r <;> rfl

theorem perform_look (op : FileSystem → Except ε α) (fs : FileSystem) :
    (look op).perform fs = (op fs, fs) := rfl

theorem perform_outcome (r : Except ε α) (fs : FileSystem) : (outcome r).perform fs = (r, fs) := rfl

theorem perform_change (op : FileSystem → Except IoFault FileSystem) (fs : FileSystem) :
    (change op).perform fs =
      match op fs with
      | .ok fs' => (.ok (), fs')
      | .error f => (.error f, fs) := rfl

theorem change_ok_iff {op : FileSystem → Except IoFault FileSystem} {fs fs' : FileSystem}
    {u : Unit} : (change op).perform fs = (.ok u, fs') ↔ op fs = .ok fs' := by
  rw [perform_change]
  cases op fs <;> simp

theorem perform_makeDirAll (p : Path) (fs : FileSystem) :
    (makeDirAll p).perform fs = fs.makeDirAll p := rfl

theorem perform_caught (s : Script ε α) (fs : FileSystem) :
    (caught s : Script δ (Except ε α)).perform fs =
      (.ok (s.perform fs).1, (s.perform fs).2) := rfl

theorem perform_withFault (f : ε → δ) (s : Script ε α) (fs : FileSystem) :
    (withFault f s).perform fs = ((s.perform fs).1.mapError f, (s.perform fs).2) := by
  unfold withFault ofStep
  show (match s.perform fs with
    | (Except.ok a, fs') => (Except.ok a, fs')
    | (Except.error e, fs') => (Except.error (f e), fs')) = _
  cases h : s.perform fs with
  | mk r fs' => cases r <;> rfl

/-- Other faults are the only change. -/
theorem withFault_ok_iff {f : ε → δ} {s : Script ε α} {a : α} {fs fs' : FileSystem} :
    (withFault f s).perform fs = (.ok a, fs') ↔ s.perform fs = (.ok a, fs') := by
  rw [perform_withFault]
  cases h : s.perform fs with
  | mk r t =>
    cases r with
    | ok b =>
      constructor
      · intro he
        cases he
        rfl
      · intro he
        cases he
        rfl
    | error e =>
      constructor
      · intro he
        cases he
      · intro he
        cases he

theorem withFault_error_iff {f : ε → δ} {s : Script ε α} {e : δ} {fs fs' : FileSystem} :
    (withFault f s).perform fs = (.error e, fs') ↔
      ∃ e', s.perform fs = (.error e', fs') ∧ e = f e' := by
  rw [perform_withFault]
  cases h : s.perform fs with
  | mk r t =>
    cases r with
    | ok b =>
      constructor
      · intro he
        cases he
      · rintro ⟨e', he, -⟩
        cases he
    | error e' =>
      constructor
      · intro he
        cases he
        exact ⟨e', rfl, rfl⟩
      · rintro ⟨e'', he, rfl⟩
        cases he
        rfl

/-- A run that goes on succeeds if both parts do. -/
theorem bind_ok_iff {s : Script ε α} {f : α → Script ε β} {b : β} {fs fs' : FileSystem} :
    (s >>= f).perform fs = (.ok b, fs') ↔
      ∃ a t, s.perform fs = (.ok a, t) ∧ (f a).perform t = (.ok b, fs') := by
  rw [perform_bind]
  cases h : s.perform fs with
  | mk r t =>
    cases r with
    | ok a =>
      constructor
      · intro hf
        exact ⟨a, t, rfl, hf⟩
      · rintro ⟨a', t', he, hf⟩
        cases he
        exact hf
    | error e =>
      constructor
      · intro he
        cases he
      · rintro ⟨a', t', he, -⟩
        cases he

/-- A run that goes on stops in either part. -/
theorem bind_error_iff {s : Script ε α} {f : α → Script ε β} {e : ε} {fs fs' : FileSystem} :
    (s >>= f).perform fs = (.error e, fs') ↔ s.perform fs = (.error e, fs') ∨
      ∃ a t, s.perform fs = (.ok a, t) ∧ (f a).perform t = (.error e, fs') := by
  rw [perform_bind]
  cases h : s.perform fs with
  | mk r t =>
    cases r with
    | ok a =>
      constructor
      · intro hf
        exact .inr ⟨a, t, rfl, hf⟩
      · rintro (he | ⟨a', t', he, hf⟩)
        · cases he
        · cases he
          exact hf
    | error e' =>
      constructor
      · intro he
        cases he
        exact .inl rfl
      · rintro (he | ⟨a', t', he, -⟩)
        · cases he
          rfl
        · cases he

/-! ## Stages -/

/-- Runs scripts in order, up to the first that fails. -/
def inOrder : List (Script ε Unit) → Script ε Unit
  | [] => pure ()
  | stage :: stages => do
    stage
    inOrder stages

theorem perform_inOrder_cons (stage : Script ε Unit) (stages : List (Script ε Unit))
    (fs : FileSystem) : (inOrder (stage :: stages)).perform fs =
      match stage.perform fs with
      | (.ok _, fs') => (inOrder stages).perform fs'
      | (.error e, fs') => (.error e, fs') := by
  rw [inOrder, perform_bind]
  cases stage.perform fs with
  | mk r t => cases r <;> rfl

theorem inOrder_append {before after : List (Script ε Unit)} {fs t : FileSystem}
    (h : (inOrder before).perform fs = (.ok (), t)) :
    (inOrder (before ++ after)).perform fs = (inOrder after).perform t := by
  induction before generalizing fs with
  | nil =>
    cases h
    rfl
  | cons stage before ih =>
    obtain ⟨x, u, hs, h⟩ := bind_ok_iff.1 h
    rw [List.cons_append, perform_inOrder_cons, hs]
    exact ih h

/-- A stage before which something does not hold, and from which on it does. -/
def Turns (holds : FileSystem → Prop) (stages : List (Script ε Unit)) (fs : FileSystem) : Prop :=
  ∃ before stage after t, stages = before ++ stage :: after ∧
    (inOrder before).perform fs = (.ok (), t) ∧ ¬ holds t ∧
      ∀ more rest, after = more ++ rest → holds ((inOrder (stage :: more)).perform t).2

/-- What does not hold somewhere on the way and holds at the end came about at a stage. -/
theorem turns_of_end {holds : FileSystem → Prop} {stages more rest : List (Script ε Unit)}
    {fs : FileSystem} (hsplit : stages = more ++ rest)
    (hnot : ¬ holds ((inOrder more).perform fs).2)
    (hend : holds ((inOrder stages).perform fs).2) : Turns holds stages fs := by
  induction stages generalizing fs more rest with
  | nil =>
    obtain ⟨rfl, -⟩ := List.append_eq_nil_iff.1 hsplit.symm
    exact absurd hend hnot
  | cons stage stages ih =>
    by_cases hlater : ∃ ms rs, stages = ms ++ rs ∧
        ¬ holds ((inOrder (stage :: ms)).perform fs).2
    · obtain ⟨ms, rs, hms, hlate⟩ := hlater
      rw [perform_inOrder_cons] at hend hlate
      cases hs : stage.perform fs with
      | mk r u =>
        rw [hs] at hend hlate
        cases r with
        | error e => exact absurd hend hlate
        | ok x =>
          obtain ⟨before, st, after, t, hst, hbefore, ht, hafter⟩ := ih hms hlate hend
          refine ⟨stage :: before, st, after, t, by rw [hst, List.cons_append], ?_, ht, hafter⟩
          rw [perform_inOrder_cons, hs]
          exact hbefore
    -- From the first stage on it holds, so this is where it came about.
    · have hall : ∀ ms rs, stages = ms ++ rs →
          holds ((inOrder (stage :: ms)).perform fs).2 := by
        intro ms rs hms
        exact Classical.byContradiction fun hlate => hlater ⟨ms, rs, hms, hlate⟩
      cases more with
      | nil => exact ⟨[], stage, stages, fs, rfl, rfl, hnot, hall⟩
      | cons m ms =>
        obtain ⟨rfl, hms⟩ := List.cons.inj hsplit
        exact absurd (hall ms rest hms) hnot

theorem inOrder_turn_iff {holds : FileSystem → Prop} {stages : List (Script ε Unit)}
    {fs : FileSystem} (hnot : ¬ holds fs) :
    holds ((inOrder stages).perform fs).2 ↔ Turns holds stages fs := by
  constructor
  · intro hend
    exact turns_of_end (List.nil_append stages).symm hnot hend
  · rintro ⟨before, stage, after, t, rfl, hbefore, -, hafter⟩
    rw [inOrder_append hbefore]
    exact hafter after [] (List.append_nil after).symm

/-! ## What scripts keep -/

/-- A relation between trees that holds if nothing changed, and of two changes if it holds of
each. -/
class Frame (R : FileSystem → FileSystem → Prop) : Prop where
  refl : ∀ fs, R fs fs
  trans : ∀ {a b c}, R a b → R b c → R a c

/-- The tree after a run is related to the one before, be it that the run fails. -/
def Keeps (R : FileSystem → FileSystem → Prop) (s : Script ε α) (fs : FileSystem) : Prop :=
  R fs (s.perform fs).2

section
variable {R : FileSystem → FileSystem → Prop} [Frame R] {fs : FileSystem}

theorem keeps_pure (a : α) : Keeps R (pure a : Script ε α) fs := Frame.refl fs

theorem keeps_look (op : FileSystem → Except ε α) : Keeps R (look op) fs := Frame.refl fs

theorem keeps_outcome (r : Except ε α) : Keeps R (outcome r) fs := Frame.refl fs

theorem keeps_fail (f : ε) : Keeps R (fail f : Script ε α) fs := Frame.refl fs

theorem keeps_change {op : FileSystem → Except IoFault FileSystem}
    (h : ∀ fs', op fs = .ok fs' → R fs fs') : Keeps R (change op) fs := by
  unfold Keeps
  rw [perform_change]
  cases ho : op fs with
  | ok fs' => exact h fs' ho
  | error f => exact Frame.refl fs

omit [Frame R] in
theorem Keeps.caught {s : Script ε α} (h : Keeps R s fs) :
    Keeps R (Script.caught s : Script δ (Except ε α)) fs := h

omit [Frame R] in
theorem Keeps.withFault {s : Script ε α} (f : ε → δ) (h : Keeps R s fs) :
    Keeps R (Script.withFault f s) fs := by
  unfold Keeps
  rw [perform_withFault]
  exact h

theorem Keeps.bind {s : Script ε α} {f : α → Script ε β} (h : Keeps R s fs)
    (hf : ∀ a t, s.perform fs = (.ok a, t) → Keeps R (f a) t) : Keeps R (s >>= f) fs := by
  unfold Keeps at h ⊢
  rw [perform_bind]
  cases hs : s.perform fs with
  | mk r t =>
    rw [hs] at h
    cases r with
    | ok a => exact Frame.trans h (hf a t hs)
    | error e => exact h

theorem keeps_inOrder {stages : List (Script ε Unit)} (h : ∀ stage ∈ stages, ∀ t, Keeps R stage t) :
    Keeps R (inOrder stages) fs := by
  induction stages generalizing fs with
  | nil => exact keeps_pure ()
  | cons stage stages ih =>
    exact .bind (h stage List.mem_cons_self fs) fun _ t _ =>
      ih fun s hs => h s (List.mem_cons_of_mem _ hs)

end

end SharedRuntime.Script
