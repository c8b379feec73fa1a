import Mathlib.Data.List.TakeWhile
import SharedRuntime.Proofs.Update.Steps

/-!
# The attempts of a record

`attempts record` cuts a record at the accepted calls: an attempt has the moments from its call to
the next accepted one, and knows what was noted before it. `attempts_opened` says how the list grows
with a record, `mem_attempts` where an attempt stands in it. `urlAfter` is the address that a call
made after a record would load from.
-/

set_option autoImplicit false

namespace SharedRuntime

structure Attempt where
  /-- The record up to the call. -/
  before : List Moment
  /-- What was noted from the call to the next one that was accepted. -/
  moments : List Moment

def attemptsFrom (before : List Moment) : List Moment → List Attempt
  | [] => []
  | m :: rest =>
    if m.opens then
      ⟨before, rest.takeWhile fun x => !x.opens⟩ :: attemptsFrom (before ++ [m]) rest
    else attemptsFrom (before ++ [m]) rest

def attempts (record : List Moment) : List Attempt := attemptsFrom [] record

theorem attemptsFrom_unopened {before ms : List Moment} (h : ∀ m ∈ ms, m.opens = false) :
    attemptsFrom before ms = [] := by
  induction ms generalizing before with
  | nil => rfl
  | cons m ms ih =>
    have hm : m.opens = false := h m List.mem_cons_self
    rw [attemptsFrom, hm]
    exact ih fun x hx => h x (List.mem_cons_of_mem _ hx)

theorem attempts_unopened {record : List Moment} (h : ∀ m ∈ record, m.opens = false) :
    attempts record = [] :=
  attemptsFrom_unopened h

theorem attemptsFrom_opened {before past cur : List Moment} {m : Moment} (hm : m.opens = true)
    (hcur : ∀ x ∈ cur, x.opens = false) :
    attemptsFrom before (past ++ m :: cur) =
      attemptsFrom before past ++ [⟨before ++ past, cur⟩] := by
  induction past generalizing before with
  | nil =>
    have hall : (cur.takeWhile fun x => !x.opens) = cur :=
      List.takeWhile_eq_self_iff.2 fun x hx => by rw [hcur x hx]; rfl
    simp [attemptsFrom, hm, hall, attemptsFrom_unopened hcur]
  | cons x past ih =>
    have hrest : attemptsFrom (before ++ [x]) (past ++ m :: cur) =
        attemptsFrom (before ++ [x]) past ++ [⟨before ++ x :: past, cur⟩] := by
      rw [List.append_cons before x past]
      exact ih
    rw [List.cons_append, attemptsFrom, attemptsFrom, hrest]
    cases hx : x.opens with
    | false => rfl
    | true =>
      -- The call at `m` is where an earlier attempt ends at the latest.
      have hcut : ((past ++ m :: cur).takeWhile fun x => !x.opens) =
          past.takeWhile fun x => !x.opens := by
        rw [List.takeWhile_append]
        split
        · rename_i hlen
          rw [List.takeWhile_cons_of_neg (by simp [hm]), List.append_nil]
          exact ((List.takeWhile_prefix _).eq_of_length hlen).symm
        · rfl
      simp [hcut]

/-- An attempt that is the last one has all that was noted since its call. -/
theorem attempts_opened {before cur : List Moment} (h : ∀ m ∈ cur, m.opens = false) :
    attempts (before ++ .attempted true :: cur) = attempts before ++ [⟨before, cur⟩] :=
  attemptsFrom_opened rfl h

theorem length_attemptsFrom (before ms : List Moment) :
    (attemptsFrom before ms).length = ms.countP Moment.opens := by
  induction ms generalizing before with
  | nil => rfl
  | cons m ms ih => cases hm : m.opens <;> simp [attemptsFrom, hm, ih]

theorem length_attempts (record : List Moment) :
    (attempts record).length = record.countP Moment.opens :=
  length_attemptsFrom [] record

theorem mem_attemptsFrom {before ms : List Moment} {t : Attempt} (h : t ∈ attemptsFrom before ms) :
    t.before ++ .attempted true :: t.moments <+: before ++ ms ∧
      ∀ m ∈ t.moments, m.opens = false := by
  induction ms generalizing before with
  | nil => cases h
  | cons m ms ih =>
    have hlater : t ∈ attemptsFrom (before ++ [m]) ms →
        t.before ++ .attempted true :: t.moments <+: before ++ m :: ms ∧
          ∀ m ∈ t.moments, m.opens = false := by
      have hcons : before ++ m :: ms = before ++ [m] ++ ms := List.append_cons ..
      rw [hcons]
      exact ih
    rw [attemptsFrom] at h
    split at h
    · rename_i hm
      rcases List.mem_cons.1 h with rfl | h
      · obtain rfl : m = .attempted true := by
          cases m with
          | attempted b => exact congrArg _ hm
          | _ => cases hm
        refine ⟨?_, fun x hx => by simpa using List.mem_takeWhile_imp hx⟩
        exact (List.prefix_append_right_inj _).2
          (List.cons_prefix_cons.2 ⟨rfl, List.takeWhile_prefix _⟩)
      · exact hlater h
    · exact hlater h

/-- An attempt stands in its record, right after the call that began it. -/
theorem mem_attempts {record : List Moment} {t : Attempt} (h : t ∈ attempts record) :
    t.before ++ .attempted true :: t.moments <+: record ∧ ∀ m ∈ t.moments, m.opens = false :=
  mem_attemptsFrom h

/-- The current attempt of the record when it ended. -/
theorem currentAttempt_of_mem {record : List Moment} {t : Attempt} (h : t ∈ attempts record) :
    ∃ past, past <+: record ∧ currentAttempt past = t.moments :=
  ⟨_, (mem_attempts h).1, currentAttempt_opened (mem_attempts h).2⟩

/-! ## The address -/

/-- The address that was last put in place of the one of the metadata. -/
def overrideAfter (record : List Moment) : Option String :=
  record.foldl (fun u m => m.override?.or u) none

theorem overrideAfter_concat (record : List Moment) (m : Moment) :
    overrideAfter (record ++ [m]) = m.override?.or (overrideAfter record) := by
  simp [overrideAfter]

theorem overrideAfter_append {record ms : List Moment} (h : ∀ m ∈ ms, m.override? = none) :
    overrideAfter (record ++ ms) = overrideAfter record := by
  induction ms generalizing record with
  | nil => rw [List.append_nil]
  | cons m ms ih =>
    rw [List.append_cons, ih fun x hx => h x (List.mem_cons_of_mem _ hx), overrideAfter_concat,
      h m List.mem_cons_self]
    rfl

theorem override?_asked {es : List Effect} : ∀ m ∈ es.map Moment.asked, m.override? = none := by
  intro m hm
  obtain ⟨e, -, rfl⟩ := List.mem_map.1 hm
  rfl

/-- The address that a call after a record loads from. -/
def urlAfter (setup : Setup) (record : List Moment) : String :=
  (overrideAfter record).getD ((metadataAfter setup.metadata record).downloadUrl setup.arch)

end SharedRuntime
