import SharedRuntime.Proofs.FileSystem.Operations
import SharedRuntime.Proofs.Update.SingleFlight

/-!
# Deliveries and removals

A session that is live delivers an artifact with the report that its transfer is complete
(`Delivery`). In either mode the session that is stored is the live one (`live_iff`), so a delivery
is what the coordinator acts on.

`removed` lists the files that the coordinator asks to remove. What this does to the disk is said of
a history of file systems, one for each record: `Forgets` if the removals succeed and nobody makes
the file again, `Spares` if nobody else removes it.
-/

set_option autoImplicit false

namespace SharedRuntime

/-! ## Removals -/

def Effect.removal? : Effect → Option Path
  | .removeFile p => some p
  | _ => none

def Moment.removal? : Moment → Option Path
  | asked e => e.removal?
  | _ => none

/-- The files that the coordinator asked to remove, in order. -/
def removed (ms : List Moment) : List Path := ms.filterMap Moment.removal?

theorem removed_append (ms ms' : List Moment) :
    removed (ms ++ ms') = removed ms ++ removed ms' := by
  simp [removed]

/-- Of a turn a list keeps what it takes of the first moment and of the effects. -/
theorem filterMap_turn {α : Type} (f : Moment → Option α) (ms : List Moment) (first : Moment)
    (es : List Effect) : (ms ++ first :: es.map .asked).filterMap f =
      ms.filterMap f ++ ((f first).toList ++ es.filterMap fun e => f (.asked e)) := by
  rw [List.filterMap_append, List.filterMap_cons, List.filterMap_map]
  cases f first <;> rfl

/-- So it keeps of a turn what it takes of the first moment, if it takes nothing of effects. -/
theorem filterMap_turn_first {α : Type} {f : Moment → Option α} (hf : ∀ e, f (.asked e) = none)
    (ms : List Moment) (first : Moment) (es : List Effect) :
    (ms ++ first :: es.map .asked).filterMap f = ms.filterMap f ++ (f first).toList := by
  have hes : (es.filterMap fun e => f (.asked e)) = [] :=
    List.filterMap_eq_nil_iff.2 fun e _ => hf e
  rw [filterMap_turn, hes, List.append_nil]

theorem removed_turn (ms : List Moment) {first : Moment} (hf : first.removal? = none)
    (es : List Effect) :
    removed (ms ++ first :: es.map .asked) = removed ms ++ es.filterMap Effect.removal? := by
  rw [removed, filterMap_turn, hf]
  rfl

theorem mem_removed {ms : List Moment} {p : Path} (h : .asked (.removeFile p) ∈ ms) :
    p ∈ removed ms :=
  List.mem_filterMap.2 ⟨_, h, rfl⟩

theorem Moment.removal?_of_isHeard {m : Moment} (h : m.isHeard = true) : m.removal? = none := by
  cases m <;> first | rfl | cases h

/-! ## The disk along a record -/

/-- Through the moments `later` a file that is to be removed is removed if it is there, and what is
not there is not made. -/
structure Forgets (disk : List Moment → FileSystem) (p : Path) (past later : List Moment) :
    Prop where
  removes : ∀ mid rest, later = mid ++ .asked (.removeFile p) :: rest →
    (disk (past ++ mid)).exists? p = true →
      (disk (past ++ mid)).remove p = .ok (disk (past ++ mid ++ [.asked (.removeFile p)]))
  unmade : ∀ mid m rest, later = mid ++ m :: rest → (disk (past ++ mid)).exists? p = false →
    (disk (past ++ mid ++ [m])).exists? p = false

/-- Through the moments `later` a file that is there goes only if the coordinator removes it. -/
def Spares (disk : List Moment → FileSystem) (p : Path) (past later : List Moment) : Prop :=
  ∀ mid m rest, later = mid ++ m :: rest → m ≠ .asked (.removeFile p) →
    (disk (past ++ mid)).exists? p = true → (disk (past ++ mid ++ [m])).exists? p = true

/-- What was removed is not there. -/
theorem FileSystem.not_exists?_of_remove {fs fs' : FileSystem} {p : Path}
    (h : fs.remove p = .ok fs') : fs'.exists? p = false := by
  rw [Bool.eq_false_iff]
  intro hex
  obtain ⟨loc, node, s, d, hnode⟩ := exists?_ok hex
  obtain ⟨x, n, s', hwalk, -, rfl⟩ := remove_ok h
  exact walk_erase (resolve_eq hwalk) loc node s d (resolve_eq hnode)

section
variable {disk : List Moment → FileSystem} {p : Path} {past later : List Moment}

/-- Once the file is not there it stays away. -/
theorem Forgets.away (h : Forgets disk p past later) {mid rest : List Moment}
    (hl : later = mid ++ rest) (hno : (disk (past ++ mid)).exists? p = false) :
    (disk (past ++ later)).exists? p = false := by
  induction rest generalizing mid with
  | nil => rwa [hl, List.append_nil]
  | cons m rest ih =>
    have hnext := h.unmade mid m rest hl hno
    rw [List.append_assoc] at hnext
    exact ih (by rw [hl, List.append_assoc, List.singleton_append]) hnext

/-- A file that the coordinator asks to remove is gone in the end. -/
theorem Forgets.gone (h : Forgets disk p past later) (hm : .asked (.removeFile p) ∈ later) :
    (disk (past ++ later)).exists? p = false := by
  obtain ⟨mid, rest, rfl⟩ := List.append_of_mem hm
  have hafter : (disk (past ++ mid ++ [.asked (.removeFile p)])).exists? p = false := by
    cases hex : (disk (past ++ mid)).exists? p with
    | false => exact h.unmade mid _ rest rfl hex
    | true => exact FileSystem.not_exists?_of_remove (h.removes mid rest rfl hex)
  rw [List.append_assoc] at hafter
  exact h.away (List.append_cons mid _ rest) hafter

/-- A file that the coordinator never asks to remove is there in the end. -/
theorem Spares.there (h : Spares disk p past later) (hm : .asked (.removeFile p) ∉ later)
    (hex : (disk past).exists? p = true) : (disk (past ++ later)).exists? p = true := by
  have along : ∀ rest mid, later = mid ++ rest → (disk (past ++ mid)).exists? p = true →
      (disk (past ++ later)).exists? p = true := by
    intro rest
    induction rest with
    | nil =>
      intro mid hl hmid
      rwa [hl, List.append_nil]
    | cons m rest ih =>
      intro mid hl hmid
      have hne : m ≠ .asked (.removeFile p) := fun hm' => hm (by simp [hl, hm'])
      have hnext := h mid m rest hl hne hmid
      rw [List.append_assoc] at hnext
      exact ih _ (by rw [hl, List.append_assoc, List.singleton_append]) hnext
  exact along later [] rfl (by rwa [List.append_nil])

end

/-- A disk with one file, at `[3]`, until the coordinator asks to remove it. -/
def singleFile (ms : List Moment) : FileSystem :=
  let fs := FileSystem.empty.insertFile [[3]] []
  if [3] ∈ removed ms then fs.erase [[3]] else fs

theorem exists?_singleFile (ms : List Moment) :
    (singleFile ms).exists? [3] = true ↔ [3] ∉ removed ms := by
  unfold singleFile
  split
  · rename_i hm
    exact iff_of_false (by decide +kernel) (not_not_intro hm)
  · rename_i hm
    exact iff_of_true (by decide +kernel) hm

theorem forgets_singleFile (past later : List Moment) : Forgets singleFile [3] past later := by
  refine ⟨fun mid rest _ hex => ?_, fun mid m rest _ hno => ?_⟩
  · have hnot := (exists?_singleFile _).1 hex
    have hyes : [3] ∈ removed (past ++ mid ++ [.asked (.removeFile [3])]) := mem_removed (by simp)
    rw [singleFile, singleFile, if_neg hnot, if_pos hyes]
    rfl
  · rw [Bool.eq_false_iff] at hno ⊢
    rw [ne_eq, exists?_singleFile, not_not] at hno ⊢
    rw [removed_append]
    exact List.mem_append_left _ hno

theorem spares_singleFile (past later : List Moment) : Spares singleFile [3] past later := by
  intro mid m rest _ hm hex
  rw [exists?_singleFile] at hex ⊢
  rw [removed_append, List.mem_append, not_or]
  refine ⟨hex, fun hnew => hm ?_⟩
  obtain ⟨m', hm', hr⟩ := List.mem_filterMap.1 hnew
  obtain rfl := List.mem_singleton.1 hm'
  cases m' with
  | asked e =>
    cases e with
    | removeFile p =>
      cases hr
      rfl
    | _ => cases hr
  | _ => cases hr

/-! ## Deliveries -/

/-- Among `ms`, which follow `base`, a live session delivers the artifact at `p`, and `later` is
noted after that. -/
def Delivery (base ms : List Moment) (p : Path) (later : List Moment) : Prop :=
  ∃ past id, ms = past ++ .taken (.report ⟨id, .completed p⟩) :: later ∧ Live (base ++ past) id

/-- Does the moment report that a transfer is complete? -/
def Moment.completes : Moment → Bool
  | taken (.report ⟨_, .completed _⟩) => true
  | _ => false

theorem Moment.completes_of_isHeard {m : Moment} (h : m.isHeard = true) : m.completes = false := by
  cases m <;> first | rfl | cases h

theorem completes_asked {es : List Effect} : ∀ m ∈ es.map Moment.asked, m.completes = false := by
  intro m hm
  obtain ⟨e, -, rfl⟩ := List.mem_map.1 hm
  rfl

section
variable {base ms new later : List Moment} {p : Path}

theorem Delivery.append (h : Delivery base ms p later) (new : List Moment) :
    Delivery base (ms ++ new) p (later ++ new) := by
  obtain ⟨past, id, rfl, hlive⟩ := h
  exact ⟨past, id, by simp, hlive⟩

/-- Where no transfer is reported to be complete nothing is delivered. -/
theorem not_delivery (h : ∀ m ∈ ms, m.completes = false) : ¬ Delivery base ms p later := by
  rintro ⟨past, id, rfl, -⟩
  cases h _ (List.mem_append_right _ List.mem_cons_self)

/-- A delivery among more moments was there before, unless what is added reports one. -/
theorem Delivery.of_append (h : Delivery base (ms ++ new) p later)
    (hnew : ∀ m ∈ new, m.completes = false) :
    ∃ rest, later = rest ++ new ∧ Delivery base ms p rest := by
  obtain ⟨past, id, hsplit, hlive⟩ := h
  obtain ⟨rest, rfl⟩ := split_of_append hsplit fun hm => by cases hnew _ hm
  refine ⟨rest, ?_, past, id, rfl, hlive⟩
  rw [List.append_assoc, List.cons_append, List.append_cancel_left_eq, List.cons.injEq] at hsplit
  exact hsplit.2.symm

/-- A delivery after a turn was there before it, or the turn takes it. -/
theorem Delivery.of_turn {first : Moment} {es : List Effect}
    (h : Delivery base (ms ++ first :: es.map .asked) p later) :
    (∃ rest, later = rest ++ first :: es.map .asked ∧ Delivery base ms p rest) ∨
      later = es.map .asked ∧
        ∃ id, first = .taken (.report ⟨id, .completed p⟩) ∧ Live (base ++ ms) id := by
  rw [List.append_cons] at h
  obtain ⟨rest, rfl, past, id, hsplit, hlive⟩ := h.of_append completes_asked
  rcases split_of_concat hsplit with ⟨rfl, rfl⟩ | ⟨rest', rfl⟩
  · refine .inr ⟨?_, id, rfl, hlive⟩
    rw [List.append_cancel_left_eq, List.cons.injEq] at hsplit
    rw [← hsplit.2, List.nil_append]
  · refine .inl ⟨rest', ?_, past, id, rfl, hlive⟩
    rw [List.append_assoc, List.cons_append, List.append_cancel_left_eq, List.cons.injEq] at hsplit
    rw [← hsplit.2, List.append_assoc, List.singleton_append]

end

/-! ## The live session -/

/-- A session that landed after more was noted landed before, unless an end of it was taken. -/
theorem Landed.of_append {record ms : List Moment} {id : Nat} (h : Landed (record ++ ms) id)
    (hms : ∀ o, .taken (.report ⟨id, o⟩) ∈ ms → o.isTerminal = false) : Landed record id := by
  obtain ⟨before, q, between, o, after, hrec, ho⟩ := h
  rw [← List.cons_append, ← List.append_assoc] at hrec
  obtain ⟨rest, hrest⟩ := split_of_append hrec fun hm => by
    rw [hms o hm] at ho
    cases ho
  exact ⟨before, q, between, o, rest, by simp [hrest], ho⟩

theorem mem_sessions_of_asked {record : List Moment} {id : Nat} {q : UpdateRequest}
    (h : .asked (.startDownload id q) ∈ record) : id ∈ sessions record :=
  List.mem_filterMap.2 ⟨_, h, rfl⟩

namespace Coordinator

variable {c : Coordinator}

/-- An end of the stored session that is taken leaves none stored. -/
theorem Moves.lands {m : Incoming} {t : Turn} (h : Moves c m t) {id : Nat} {o : DownloadOutcome}
    (hm : m = .report ⟨id, o⟩) (hid : c.session.map Session.id = some id)
    (ho : o.isTerminal = true) : t.1.session = none := by
  cases h with
  | strayReport hstray =>
    cases hm
    obtain ⟨s, hs, rfl⟩ := Option.map_eq_some_iff.1 hid
    exact absurd rfl (hstray s hs)
  | progressed _ _ _ hopen =>
    cases hm
    rw [hopen] at ho
    cases ho
  | stopped => rfl
  | toVerify => rfl
  | toInstall => rfl
  | _ => cases hm

theorem Responds.lands {a : Answers} {m : Incoming} {t : Turn} (h : Responds c a m t) {id : Nat}
    {o : DownloadOutcome} (hm : m = .report ⟨id, o⟩)
    (hid : c.session.map Session.id = some id) (ho : o.isTerminal = true) :
    t.1.session = none := by
  cases h with
  | strayReport hstray =>
    cases hm
    obtain ⟨s, hs, rfl⟩ := Option.map_eq_some_iff.1 hid
    exact absurd rfl (hstray s hs)
  | progressed _ _ _ hopen =>
    cases hm
    rw [hopen] at ho
    cases ho
  | cancelled => rfl
  | failed => rfl
  | handedOver => rfl
  | notTaken => rfl
  | _ => cases hm

theorem Handles.lands {a : Answers} {m : Incoming} {t : Turn} (h : Handles c a m t) {id : Nat}
    {o : DownloadOutcome} (hm : m = .report ⟨id, o⟩)
    (hid : c.session.map Session.id = some id) (ho : o.isTerminal = true) :
    t.1.session = none := by
  cases h with
  | background _ _ hc => exact hc.lands hm hid ho
  | foreground _ _ hc => exact hc.lands hm hid ho

end Coordinator

namespace Life

variable {l l' : Life} {setup : Setup}

/-- The stored session has not landed. -/
def Aloft (l : Life) : Prop :=
  ∀ id, l.coordinator.session.map Session.id = some id → ¬ Landed l.record id

theorem Aloft.turn (h : l.Aloft) (hf : l.SingleFlight) {first : Moment} {t : Turn}
    (hfirst : first.session? = none) (hflies : l.coordinator.Flies first t)
    (hlands : ∀ id o, first = .taken (.report ⟨id, o⟩) →
      l.coordinator.session.map Session.id = some id → o.isTerminal = true → t.1.session = none) :
    (l.turn first t).Aloft := by
  intro id hid hland
  have hid' : t.1.session.map Session.id = some id := hid
  have hsome : t.1.session ≠ none := fun hn => by
    rw [hn] at hid'
    cases hid'
  have hopen : ∀ o, .taken (.report ⟨id, o⟩) ∈ first :: t.2.map Moment.asked →
      l.coordinator.session.map Session.id = some id → o.isTerminal = false := by
    intro o hm hold
    rw [Bool.eq_false_iff]
    intro ho
    rcases List.mem_cons.1 hm with hm | hm
    · exact hsome (hlands id o hm.symm hold ho)
    · obtain ⟨e, -, he⟩ := List.mem_map.1 hm
      cases he
  cases hflies with
  | level hse =>
    have hold := hse.symm.trans hid'
    exact h id hold (hland.of_append fun o hm => hopen o hm hold)
  | landing _ _ _ _ _ hafter => exact hsome hafter
  | takeoff q hse hafter hla hes =>
    -- The session that begins has the next number, so it did not begin before.
    obtain rfl : l.coordinator.lastSession + 1 = id := Option.some.inj (hafter.symm.trans hid')
    have hnew : l.coordinator.lastSession + 1 ∉ sessions l.record := by
      rw [hf.numbered, List.mem_range'_1]
      omega
    obtain ⟨before, q', between, o, after, hrec, -⟩ := hland
    have hrec' : l.record ++ [first] ++ [.asked (.startDownload (l.coordinator.lastSession + 1) q)] =
        before ++ .asked (.startDownload (l.coordinator.lastSession + 1) q') ::
          (between ++ .taken (.report ⟨l.coordinator.lastSession + 1, o⟩) :: after) := by
      rw [← hrec]
      simp [Life.turn, hes]
    rcases split_of_concat hrec' with ⟨-, rfl⟩ | ⟨rest, hrest⟩
    · simp at hrec'
    · rcases split_of_concat hrest with ⟨rfl, -⟩ | ⟨rest', hrest'⟩
      · cases hfirst
      · exact hnew (mem_sessions_of_asked (q := q') (by simp [hrest']))

theorem Aloft.step (h : l.Aloft) (hf : l.SingleFlight) (hs : l.Steady setup) {x : Happening}
    (hl : l.step x = some l') : l'.Aloft := by
  cases step_goes hl with
  | still => exact h
  | @heard m c waiting running hm hc _ =>
    intro id hid hland
    have hid' : c.session.map Session.id = some id := hid
    rw [hc.session] at hid'
    refine h id hid' (hland.of_append fun o ho => ?_)
    obtain rfl := List.mem_singleton.1 ho
    cases hm
  | called a => exact h.turn hf rfl (hs.calls a).flies fun _ _ hm => by cases hm
  | cancelled hes =>
    exact h.turn hf rfl (.level rfl rfl (hes.filterMap fun _ => rfl)) fun _ _ hm => by cases hm
  | @took a m c hst hn =>
    have hse : c.session = l.coordinator.session := by cases hn <;> rfl
    have hm := hs.handles a hn
    refine h.turn hf rfl (.next hn hm.flies) fun id o hfirst hid ho => ?_
    cases hfirst
    exact hm.lands rfl (hse ▸ hid) ho

/-- In either mode the session that is stored is the live one. -/
theorem live_iff {hs : List Happening} (hr : (new setup).run hs = some l) {id : Nat} :
    Live l.record id ↔ l.coordinator.session.map Session.id = some id := by
  have h : (l.Steady setup ∧ l.SingleFlight) ∧ l.Aloft :=
    run_invariant (P := fun l => (l.Steady setup ∧ l.SingleFlight) ∧ l.Aloft)
      (fun l x l' h hl => ⟨⟨Steady.step l x l' h.1.1 hl, h.1.2.step h.1.1 hl⟩,
        h.2.step h.1.2 h.1.1 hl⟩)
      ⟨⟨steady_new setup, singleFlight_new setup⟩, fun id hid => by cases hid⟩ hr
  exact ⟨h.1.2.live id, fun hid => ⟨h.1.2.current id hid, h.2 id hid⟩⟩

end Life

end SharedRuntime
