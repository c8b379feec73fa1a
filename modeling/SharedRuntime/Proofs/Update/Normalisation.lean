import Mathlib.Data.List.Induction
import SharedRuntime.Proofs.Update.Background
import SharedRuntime.Update.Download

/-!
# What a session makes of the reports

`DownloadOutcome.normal` says on lists what a session does report by report: one start, the
percentages that exceed all before them, and the end. `Session.kept` picks the reports that count.
`Download.Follows` ties a download to the calls made on it; it holds of a new download and every
call keeps it (`Follows.call`), so `Download.calls_normalise` reads the outputs, the phase and what
a cancellation does off the calls alone.
-/

set_option autoImplicit false

namespace SharedRuntime

/-! ## The reference -/

/-- The values that exceed every value before them, and those that stand in front. -/
def recordsAfter : List UInt8 → List UInt8 → List UInt8
  | _, [] => []
  | earlier, p :: ps =>
    if earlier.all (· < p) then p :: recordsAfter (earlier ++ [p]) ps
    else recordsAfter (earlier ++ [p]) ps

/-- The values that exceed every value before them. -/
def records (ps : List UInt8) : List UInt8 := recordsAfter [] ps

/-- The percentage of a progress report, at most a hundred. -/
def DownloadOutcome.percent? : DownloadOutcome → Option UInt8
  | progress p => some (min p 100)
  | _ => none

/-- What is told of the reports of one transfer: nothing of none, else the start, the percentages
that are records, and the end if there is one. -/
def DownloadOutcome.normal (os : List DownloadOutcome) : List DownloadOutcome :=
  if os = [] then []
  else .started :: ((records (os.filterMap percent?)).map .progress ++ os.filter isTerminal)

/-- The elements up to the first with a property, that one included. -/
def upToFirst {α : Type} (p : α → Bool) (xs : List α) : List α :=
  xs.takeWhile (!p ·) ++ (xs.find? p).toList

/-- The outcomes that count for a session: its own, up to the first that ends the transfer. -/
def Session.kept (id : Nat) (rs : List SessionReport) : List DownloadOutcome :=
  upToFirst DownloadOutcome.isTerminal ((rs.filter (·.session == id)).map (·.outcome))

/-! ## One report more -/

theorem recordsAfter_concat (earlier ps : List UInt8) (p : UInt8) :
    recordsAfter earlier (ps ++ [p]) =
      recordsAfter earlier ps ++ if (earlier ++ ps).all (· < p) then [p] else [] := by
  induction ps generalizing earlier with
  | nil => simp [recordsAfter]
  | cons x ps ih =>
    have hsplit : earlier ++ x :: ps = (earlier ++ [x]) ++ ps := by simp
    rw [List.cons_append, recordsAfter, recordsAfter, ih, hsplit]
    split <;> rfl

theorem records_concat (ps : List UInt8) (p : UInt8) :
    records (ps ++ [p]) = records ps ++ if ps.all (· < p) then [p] else [] :=
  recordsAfter_concat [] ps p

section
variable {α : Type} {p : α → Bool}

theorem any_upToFirst (xs : List α) : (upToFirst p xs).any p = xs.any p := by
  induction xs with
  | nil => rfl
  | cons x xs ih =>
    unfold upToFirst at ih ⊢
    cases hx : p x <;> simp_all

/-- One element more is dropped once an earlier one had the property. -/
theorem upToFirst_concat (xs : List α) (x : α) :
    upToFirst p (xs ++ [x]) = if xs.any p then upToFirst p xs else upToFirst p xs ++ [x] := by
  induction xs with
  | nil => cases hx : p x <;> simp [upToFirst, hx]
  | cons y xs ih =>
    unfold upToFirst at ih ⊢
    cases hy : p y with
    | true => simp [hy]
    | false =>
      simp only [List.cons_append, List.takeWhile_cons, List.find?_cons, List.any_cons, hy,
        Bool.not_false, if_true, Bool.false_or, ih]
      split <;> rfl

end

namespace Session

theorem kept_stray {id : Nat} {rs : List SessionReport} {r : SessionReport}
    (h : r.session ≠ id) : kept id (rs ++ [r]) = kept id rs := by
  simp [kept, h]

theorem kept_own {id : Nat} {rs : List SessionReport} {r : SessionReport} (h : r.session = id) :
    kept id (rs ++ [r]) =
      if (kept id rs).any (·.isTerminal) then kept id rs else kept id rs ++ [r.outcome] := by
  have hown : ((rs ++ [r]).filter (·.session == id)).map (·.outcome) =
      (rs.filter (·.session == id)).map (·.outcome) ++ [r.outcome] := by
    simp [h]
  unfold kept
  rw [hown, upToFirst_concat, any_upToFirst]

end Session

namespace DownloadOutcome

/-- What an outcome adds to what was told of those before it. -/
theorem normal_concat {os : List DownloadOutcome} (hopen : os.any isTerminal = false)
    (o : DownloadOutcome) :
    normal (os ++ [o]) = normal os ++ ((if os = [] then [started] else []) ++
      match o with
      | started => []
      | .progress p =>
        if (os.filterMap percent?).all (· < min p 100) then [.progress (min p 100)] else []
      | final => [final]) := by
  have hnone : os.filter isTerminal = [] := by
    simpa [List.filter_eq_nil_iff] using hopen
  have hstart : normal os ++ (if os = [] then [started] else []) =
      started :: (records (os.filterMap percent?)).map .progress := by
    unfold normal
    split
    · subst os
      rfl
    · simp [hnone]
  have hmore : normal (os ++ [o]) =
      started :: ((records (os.filterMap percent? ++ o.percent?.toList)).map .progress ++
        [o].filter isTerminal) := by
    unfold normal
    rw [if_neg (by simp), List.filterMap_append, List.filter_append, hnone, List.nil_append]
    cases o <;> rfl
  rw [← List.append_assoc, hstart, hmore]
  cases o with
  | progress p =>
    show started :: ((records (_ ++ [min p 100])).map .progress ++ []) = _
    rw [records_concat, List.map_append, List.append_nil]
    dsimp only
    split <;> rfl
  | _ => simp [percent?, isTerminal]

end DownloadOutcome

/-! ## Calls -/

def DownloadCall.report? : DownloadCall → Option SessionReport
  | accept r => some r
  | _ => none

def DownloadCall.handle? : DownloadCall → Option Nat
  | start h => some h
  | _ => none

/-- The outcomes that a call gave back. -/
def DownloadReply.outcomes : DownloadReply → List DownloadOutcome
  | accepted os => os
  | _ => []

namespace Session

/-- A session after its first reports, of which those in the list counted. -/
structure Took (id : Nat) (s : Session) (os : List DownloadOutcome) : Prop where
  id_eq : s.id = id
  fresh : s.phase = .notStarted ↔ os = []
  ended : s.phase = .terminal ↔ os.any (·.isTerminal) = true
  /-- A percentage is told exactly when it exceeds all before it. -/
  limit : ∀ p, s.percent.all (· < p) = true ↔
    ∀ q ∈ os.filterMap DownloadOutcome.percent?, q < p

theorem Took.new (id : Nat) : Took id (.new id) [] where
  id_eq := rfl
  fresh := by simp [Session.new]
  ended := by simp [Session.new]
  limit := by simp [Session.new]

section
variable {id : Nat} {s : Session} {os : List DownloadOutcome} {o : DownloadOutcome}

/-- The session after a report that ends nothing, if the highest percentage was brought up. -/
theorem Took.goesOn (h : Took id s os) (hopen : os.any (·.isTerminal) = false)
    (ho : o.isTerminal = false) {percent : Option UInt8}
    (hlimit : ∀ p, percent.all (· < p) = true ↔
      s.percent.all (· < p) = true ∧ ∀ q ∈ o.percent?, q < p) :
    Took id { s with phase := .started, percent := percent } (os ++ [o]) where
  id_eq := h.id_eq
  fresh := by simp
  ended := by simp [List.any_append, hopen, ho]
  limit p := by
    rw [hlimit, h.limit]
    cases hp : o.percent? <;> simp [List.filterMap_append, hp, or_imp, forall_and]

theorem Took.ends (h : Took id s os) (ho : o.isTerminal = true) :
    Took id { s with phase := .terminal } (os ++ [o]) where
  id_eq := h.id_eq
  fresh := by simp
  ended := by simp [List.any_append, ho]
  limit p := by
    rw [show ({ s with phase := .terminal } : Session).percent = s.percent from rfl, h.limit]
    cases o with
    | started => cases ho
    | progress p => cases ho
    | _ => simp [List.filterMap_append, DownloadOutcome.percent?]

/-- A report of the session that comes before any end is told as the reference says. -/
theorem Took.accept (h : Took id s os) {r : SessionReport} (hid : r.session = id)
    (hopen : os.any (·.isTerminal) = false) :
    Took id (s.accept r).1 (os ++ [r.outcome]) ∧
      DownloadOutcome.normal (os ++ [r.outcome]) = DownloadOutcome.normal os ++ (s.accept r).2 := by
  obtain ⟨n, o⟩ := r
  obtain rfl : n = s.id := hid.trans h.id_eq.symm
  have hphase : s.phase ≠ .terminal := fun hp => by simp [h.ended.1 hp] at hopen
  have hopening : s.opening = if os = [] then [.started] else [] := by
    simp only [opening, h.fresh]
  rw [DownloadOutcome.normal_concat hopen, ← hopening]
  unfold Session.accept
  simp only [bne_self_eq_false, Bool.false_or, decide_eq_true_eq, if_neg hphase]
  cases o with
  | started =>
    refine ⟨h.goesOn hopen rfl fun p => ?_, by simp⟩
    simp [DownloadOutcome.percent?]
  | progress p =>
    -- The session remembers only the last percentage that it told, which is above all others.
    have hp : (os.filterMap DownloadOutcome.percent?).all (· < min p 100) = true ↔
        s.percent.all (· < min p percentLimit) = true := by
      rw [h.limit, List.all_eq_true]
      simp only [decide_eq_true_eq, percentLimit]
    dsimp only
    simp only [hp]
    split
    · rename_i hall
      refine ⟨h.goesOn hopen rfl fun q => ?_, rfl⟩
      have hlast : min p percentLimit < q → s.percent.all (· < q) = true := fun hq => by
        rw [Option.all_eq_true] at hall ⊢
        intro x hx
        simpa using UInt8.lt_trans (by simpa using hall x hx) hq
      simp only [DownloadOutcome.percent?, Option.all_some, decide_eq_true_eq, Option.mem_def,
        Option.some.injEq, forall_eq']
      exact ⟨fun hq => ⟨hlast hq, hq⟩, And.right⟩
    · rename_i hall
      refine ⟨h.goesOn hopen rfl fun q => ?_, by simp⟩
      refine ⟨fun hq => ⟨hq, ?_⟩, And.left⟩
      obtain ⟨x, hx, hle⟩ : ∃ x, s.percent = some x ∧ min p percentLimit ≤ x := by
        cases hs : s.percent with
        | none => simp [hs] at hall
        | some x => exact ⟨x, rfl, by simpa [hs, UInt8.not_lt] using hall⟩
      have hlt : x < q := by simpa [hx] using hq
      intro y hy
      obtain rfl : min p percentLimit = y := Option.some.inj hy
      exact UInt8.lt_of_le_of_lt hle hlt
  | cancelled => exact ⟨h.ends rfl, rfl⟩
  | failed status code => exact ⟨h.ends rfl, rfl⟩
  | completed p => exact ⟨h.ends rfl, rfl⟩

/-- One report more, whatever it is. -/
theorem Took.next {rs : List SessionReport} (h : Took id s (kept id rs)) (r : SessionReport) :
    Took id (s.accept r).1 (kept id (rs ++ [r])) ∧
      DownloadOutcome.normal (kept id (rs ++ [r])) =
        DownloadOutcome.normal (kept id rs) ++ (s.accept r).2 := by
  by_cases hid : r.session = id
  case neg =>
    rw [kept_stray hid, accept_stray (h.id_eq ▸ hid)]
    exact ⟨h, (List.append_nil _).symm⟩
  rw [kept_own hid]
  cases hopen : (kept id rs).any (·.isTerminal) with
  | true =>
    have hover : s.accept r = (s, []) := by
      simp [Session.accept, h.ended.2 hopen]
    rw [if_pos rfl, hover]
    exact ⟨h, (List.append_nil _).symm⟩
  | false =>
    rw [if_neg Bool.false_ne_true]
    exact h.accept hid hopen

end

end Session

namespace Download

/-- The handle that the last start gave. -/
def lastHandle (cs : List DownloadCall) : Option Nat :=
  (cs.filterMap DownloadCall.handle?).getLast?

/-- The outcomes that count for a session among those of the calls. -/
def keptBy (id : Nat) (cs : List DownloadCall) : List DownloadOutcome :=
  Session.kept id (cs.filterMap DownloadCall.report?)

/-- A download, and what its calls gave back, after the calls in the list. -/
structure Follows (id : Nat) (cs : List DownloadCall) (d : Download) (rs : List DownloadReply) :
    Prop where
  took : Session.Took id d.session (keptBy id cs)
  handle_eq : d.handle = lastHandle cs
  told : rs.flatMap DownloadReply.outcomes = DownloadOutcome.normal (keptBy id cs)

theorem calls_concat (d : Download) (cs : List DownloadCall) (c : DownloadCall) :
    d.calls (cs ++ [c]) =
      (((d.calls cs).1.call c).1, (d.calls cs).2 ++ [((d.calls cs).1.call c).2]) := by
  induction cs generalizing d with
  | nil => rfl
  | cons x cs ih => rw [List.cons_append, calls, ih, calls, List.cons_append]

section
variable {id : Nat} {cs : List DownloadCall} {d : Download} {rs : List DownloadReply}

theorem keptBy_concat (c : DownloadCall) : keptBy id (cs ++ [c]) =
    Session.kept id (cs.filterMap DownloadCall.report? ++ c.report?.toList) := by
  rw [keptBy, List.filterMap_append]
  cases c <;> rfl

theorem lastHandle_concat (c : DownloadCall) :
    lastHandle (cs ++ [c]) = c.handle?.or (lastHandle cs) := by
  cases c <;> simp [lastHandle, DownloadCall.handle?]

/-- Every call goes on with what the calls so far say. -/
theorem Follows.call (h : Follows id cs d rs) (c : DownloadCall) :
    Follows id (cs ++ [c]) (d.call c).1 (rs ++ [(d.call c).2]) := by
  obtain ⟨took, handle, told⟩ := h
  have houtcomes (r : DownloadReply) : (rs ++ [r]).flatMap DownloadReply.outcomes =
      DownloadOutcome.normal (keptBy id cs) ++ r.outcomes := by
    rw [List.flatMap_append, told, List.flatMap_singleton]
  have hsame (hc : c.report? = none) : keptBy id (cs ++ [c]) = keptBy id cs := by
    rw [keptBy_concat, hc]
    exact congrArg _ (List.append_nil _)
  cases c with
  | accept r =>
    obtain ⟨htook, htold⟩ := took.next r
    refine ⟨?_, by rw [lastHandle_concat]; exact handle, ?_⟩
    · rw [keptBy_concat]
      exact htook
    · rw [keptBy_concat, houtcomes]
      exact htold.symm
  | start hd =>
    refine ⟨?_, by rw [lastHandle_concat]; rfl, ?_⟩
    · rw [hsame rfl]
      exact ⟨took.id_eq, took.fresh, took.ended, took.limit⟩
    · rw [hsame rfl, houtcomes]
      exact List.append_nil _
  | cancel takes =>
    refine ⟨?_, by rw [lastHandle_concat]; exact handle, ?_⟩
    · rw [hsame rfl]
      exact took
    · rw [hsame rfl, houtcomes]
      exact List.append_nil _

end

theorem follows_calls (id : Nat) (cs : List DownloadCall) :
    Follows id cs ((new id).calls cs).1 ((new id).calls cs).2 := by
  induction cs using List.reverseRecOn with
  | nil => exact ⟨.new id, rfl, rfl⟩
  | append_singleton cs c ih =>
    rw [calls_concat]
    exact ih.call c

/-- For every order of starts, reports and cancellations, the outcomes that the calls gave back are
the reference list of the reports that count. The phase says whether any did and whether the end
did. A cancellation asks the transport about the handle of the last start and gives back its answer,
unless there was no start or the end was told: then it says no and asks nothing. -/
theorem calls_normalise (id : Nat) (cs : List DownloadCall) :
    let d := ((new id).calls cs).1
    ((new id).calls cs).2.flatMap DownloadReply.outcomes =
        DownloadOutcome.normal (keptBy id cs) ∧
      (d.session.phase = .notStarted ↔ keptBy id cs = []) ∧
      (d.session.phase = .terminal ↔ ∃ o ∈ keptBy id cs, o.isTerminal = true) ∧
      ∀ takes, d.cancel takes =
        match lastHandle cs with
        | some h => if d.session.phase = .terminal then (none, false) else (some h, takes h)
        | none => (none, false) := by
  obtain ⟨took, handle, told⟩ := follows_calls id cs
  refine ⟨told, took.fresh, by simpa using took.ended, fun takes => ?_⟩
  rw [cancel, handle]
  cases lastHandle cs with
  | none => rfl
  | some h =>
    dsimp only
    split <;> simp_all

example : (((new 1).calls [.start 1, .accept ⟨1, .progress 10⟩, .accept ⟨7, .cancelled⟩,
    .accept ⟨1, .progress 5⟩, .accept ⟨1, .progress 250⟩, .accept ⟨1, .cancelled⟩,
    .accept ⟨1, .failed 404 7⟩]).2.flatMap DownloadReply.outcomes) =
      [.started, .progress 10, .progress 100, .cancelled] := by
  decide

end Download

end SharedRuntime
