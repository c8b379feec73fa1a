import SharedRuntime.CommandLine.Program
import SharedRuntime.Proofs.FileSystem.Script
import SharedRuntime.Proofs.Json.OneLine
import SharedRuntime.Proofs.Update.Alone
import SharedRuntime.Proofs.Update.Reading

/-!
# What an update reports to a program

With JSON output the lines on the standard output are the events of one attempt, or say that there
was none, and the exit code agrees with them (`Program.run_update`). Whoever reads the lines needs
neither the files nor the errors to know what happened.
-/

set_option autoImplicit false

namespace SharedRuntime

theorem RuntimeStatus.isSatisfied_iff {s : RuntimeStatus} :
    s.isSatisfied = true ↔ s = .pendingFirstUse ∨ s = .matched := by
  cases s <;> simp [isSatisfied]

/-! ## Lines -/

/-- The text consists of the lines, each with its line break. -/
def IsLines (text : String) (lines : List String) : Prop :=
  text = String.join (lines.map fun t => t ++ "\n") ∧ ∀ t ∈ lines, '\n' ∉ t.toList

/-- What a program prints as values goes to the standard output line by line; what goes elsewhere
is not seen there. -/
theorem isLines_json {values : List Json} (h : ∀ j ∈ values, j.Sound) {rest : List Print}
    (hrest : ∀ p ∈ rest, p.channel = .err) :
    IsLines (Print.writtenTo .out (values.map Print.json ++ rest)) (values.map Json.compact) := by
  constructor
  · have hvalues : (values.map Print.json).filter (fun p => p.channel == .out) =
        values.map Print.json := by
      refine List.filter_eq_self.2 fun p hp => ?_
      obtain ⟨j, -, rfl⟩ := List.mem_map.1 hp
      rfl
    have hnone : rest.filter (fun p => p.channel == .out) = [] := by
      refine List.filter_eq_nil_iff.2 fun p hp => ?_
      rw [hrest p hp]
      decide
    rw [Print.writtenTo, List.filter_append, hvalues, hnone, List.append_nil, List.map_map,
      List.map_map]
    rfl
  · intro t ht
    obtain ⟨j, hj, rfl⟩ := List.mem_map.1 ht
    exact Json.newline_compact (h j hj)

namespace Commands

variable {env : Environment} {config : UpdaterConfig} {layout : Layout} {url : Option String}
  {clean : Bool} {fs fs' : FileSystem}

/-- What an attempt is made ready with. -/
theorem prepareUpdate_ok {ready : Surroundings × Coordinator}
    (h : (prepareUpdate env config layout url clean).perform fs = (.ok ready, fs')) :
    ready.1.expectedVersion = config.expectedVersion ∧
      ready.2 = coordinatorFor env config layout url := by
  have hrest : ∀ {t : FileSystem}, (do
      let trusted ← Script.outcome (config.trusted.mapError CommandFault.config)
      return (⟨trusted, config.expectedVersion, env.course, env.transferName, env.now⟩,
        coordinatorFor env config layout url) :
          Script CommandFault (Surroundings × Coordinator)).perform t = (.ok ready, fs') →
      ready.1.expectedVersion = config.expectedVersion ∧
        ready.2 = coordinatorFor env config layout url := by
    intro t h
    obtain ⟨trusted, u, -, h⟩ := Script.bind_ok_iff.1 h
    cases h
    exact ⟨rfl, rfl⟩
  unfold prepareUpdate at h
  obtain ⟨_, t, -, h⟩ := Script.bind_ok_iff.1 h
  cases clean with
  | false => exact hrest h
  | true =>
    obtain ⟨_, u, -, h⟩ := Script.bind_ok_iff.1 h
    exact hrest h

/-- The coordinator of an update is one that some life has reached without a call. -/
theorem coordinatorFor_reached (env : Environment) (config : UpdaterConfig) (layout : Layout)
    (url : Option String) :
    let setup : Setup := ⟨.background, config.metadata, env.arch, layout.runtime, layout.downloads⟩
    ∃ l : Life, l.Reached setup ∧ l.coordinator = coordinatorFor env config layout url ∧
      l.coordinator.state = .idle ∧ l.coordinator.setup = setup ∧ told l.record = [] := by
  intro setup
  cases url with
  | none => exact ⟨.new setup, ⟨[], rfl⟩, rfl, rfl, rfl, rfl⟩
  | some url => exact ⟨_, ⟨[.overrideUrl url], rfl⟩, rfl, rfl, rfl, rfl⟩

/-- An update that could be made ready ends with the report on its attempt. -/
theorem update_run {ready : Surroundings × Coordinator} (json : Bool)
    (h : (prepareUpdate env config layout url clean).perform fs = (.ok ready, fs')) :
    ((update env config layout url clean json).perform fs).1 =
      .ok (attemptReport env.colors json
        (BackgroundRun.attempt? ready.1 ⟨ready.2, fs', []⟩)) := by
  unfold update
  rw [Script.perform_bind, h]
  rfl

theorem run_of_update {i : Invocation} (hcommand : i.command = .update url clean)
    (hconfig : loadConfig i.config fs = .ok config) (hlayout : env.layout config = .ok layout) :
    (Commands.run env i).perform fs = (update env config layout url clean i.json).perform fs := by
  unfold Commands.run
  rw [Script.perform_bind, Script.perform_look, hconfig]
  dsimp only
  rw [Script.perform_bind, Script.perform_outcome, hlayout, hcommand]
  rfl

/-- The failure of a command whose attempt came to an end is that it was not completed. -/
theorem outcomeFault_isSome (o : UpdateOutcome) :
    (outcomeFault o).isSome = true ↔ o.event ≠ .completed := by
  cases o <;> simp [outcomeFault, UpdateOutcome.result, UpdateOutcome.event]

end Commands

namespace Program

variable {env : Environment} {args : List String} {i : Invocation} {config : UpdaterConfig}
  {layout : Layout} {url : Option String} {clean : Bool} {fs fs' : FileSystem}
  {ready : Surroundings × Coordinator}

theorem completion_ok (colors : Bool) {r : Except CommandFault Report × FileSystem}
    {report : Report} (h : r.1 = .ok report) :
    (completion colors r).prints = report.prints ++
        (report.fault.map fun f => Terminal.failure colors f.message).toList ∧
      ((completion colors r).exitCode = 0 ↔ report.fault = none) := by
  obtain ⟨x, t⟩ := r
  obtain rfl : x = .ok report := h
  refine ⟨rfl, ?_⟩
  cases hf : report.fault with
  | none => simp [completion, hf]
  | some f => simp [completion, hf]

/-- The line that says that nothing was attempted. -/
def unattempted : String := "\x7b\"attempted\":false\x7d"

theorem compact_unattempted : (Json.object [("attempted", .bool false)]).compact = unattempted := by
  decide

theorem sound_unattempted : (Json.object [("attempted", .bool false)]).Sound :=
  ⟨rfl, trivial, trivial⟩

theorem ofLine?_unattempted : UpdateEvent.ofLine? unattempted = none := by decide

/-- What is printed where there was no attempt. -/
theorem report_none (colors : Bool) :
    Commands.attemptReport colors true none =
      ⟨[Json.object [("attempted", .bool false)]].map Print.json, none⟩ := rfl

/-- What is printed of an attempt, and when it is a failure. -/
theorem report_some (colors : Bool) {r : BackgroundRun} {o : UpdateOutcome}
    (h : r.coordinator.lastOutcome = some o) :
    (Commands.attemptReport colors true (some r)).prints =
        (r.events.map UpdateEvent.toJson).map Print.json ∧
      ((Commands.attemptReport colors true (some r)).fault = none ↔ o.event = .completed) := by
  constructor
  · rw [List.map_map]
    rfl
  · show r.coordinator.lastOutcome.bind Commands.outcomeFault = none ↔ _
    rw [h, Option.bind_some, ← Option.not_isSome_iff_eq_none, Commands.outcomeFault_isSome,
      not_not]

/-- The lines of events are the events. -/
theorem map_ofLine? (es : List UpdateEvent) :
    ((es.map UpdateEvent.toJson).map Json.compact).map UpdateEvent.ofLine? = es.map some := by
  rw [List.map_map, List.map_map]
  exact List.map_congr_left fun e _ => e.ofLine?_compact

/-- An update with JSON output, once it is made ready, writes the line that nothing was attempted,
just when the runtime is matched or pending its first use, or one line for each event of an attempt
that is over; the exit code is zero just when nothing was attempted or the last line tells the
completion. -/
theorem run_update (hargs : Arguments.parse args = .ok i) (hjson : i.json = true)
    (hcommand : i.command = .update url clean)
    (hconfig : Commands.loadConfig i.config fs = .ok config)
    (hlayout : env.layout config = .ok layout)
    (hready : (Commands.prepareUpdate env config layout url clean).perform fs =
      (.ok ready, fs')) :
    ∃ lines, IsLines (Print.writtenTo .out (run env args fs).prints) lines ∧
      (lines = [unattempted] ↔
        installedStatus fs' layout.runtime config.expectedVersion = .pendingFirstUse ∨
          installedStatus fs' layout.runtime config.expectedVersion = .matched) ∧
      (lines = [unattempted] ∨
        ∃ es, lines.map UpdateEvent.ofLine? = es.map some ∧ IsAttempt es) ∧
      ((run env args fs).exitCode = 0 ↔
        lines = [unattempted] ∨ lines.getLast?.bind UpdateEvent.ofLine? = some .completed) := by
  obtain ⟨hexpected, hcoordinator⟩ := Commands.prepareUpdate_ok hready
  obtain ⟨l, hreached, hc, hidle, hsetup, hsilent⟩ :=
    Commands.coordinatorFor_reached env config layout url
  -- The coordinator of the command has come to an idle state in some life, so what is known of
  -- lives holds of its attempt.
  have hends := BackgroundRun.attempt?_ends (s := ready.1) rfl hreached hidle hsilent fs'
  rw [hsetup, hc, ← hcoordinator, hexpected, RuntimeStatus.isSatisfied_iff] at hends
  obtain ⟨hnone, hsome⟩ := hends
  have hreport := Commands.update_run i.json hready
  rw [← Commands.run_of_update hcommand hconfig hlayout, hjson] at hreport
  obtain ⟨hprints, hexit⟩ := completion_ok env.colors hreport
  have hrun : run env args fs = completion env.colors ((Commands.run env i).perform fs) := by
    rw [run, hargs]
  rw [hrun, hprints, hexit, ← hnone]
  cases hattempt : BackgroundRun.attempt? ready.1 ⟨ready.2, fs', []⟩ with
  | none =>
    refine ⟨[unattempted], ?_, iff_of_true rfl rfl, .inl rfl, iff_of_true rfl (.inl rfl)⟩
    rw [report_none, ← compact_unattempted]
    exact isLines_json (List.forall_mem_singleton.2 sound_unattempted) (by simp)
  | some r =>
    obtain ⟨-, hevents, o, ho, hlast⟩ := hsome r hattempt
    obtain ⟨hvalues, hfault⟩ := report_some env.colors ho
    have hlines := map_ofLine? r.events
    -- No event has the line that says that nothing was attempted.
    have hattempted : (r.events.map UpdateEvent.toJson).map Json.compact ≠ [unattempted] := by
      intro heq
      rw [heq, List.map_singleton, ofLine?_unattempted] at hlines
      have hmem : none ∈ r.events.map some := hlines ▸ List.mem_singleton_self none
      simp at hmem
    refine ⟨(r.events.map UpdateEvent.toJson).map Json.compact, ?_,
      iff_of_false hattempted (by simp), .inr ⟨r.events, hlines, hevents⟩, ?_⟩
    · rw [hvalues]
      refine isLines_json (fun j hj => ?_) fun p hp => ?_
      · obtain ⟨e, -, rfl⟩ := List.mem_map.1 hj
        exact e.sound_toJson
      · obtain ⟨f, -, rfl⟩ := Option.map_eq_some_iff.1 (Option.mem_toList.1 hp)
        rfl
    · -- The last line is the event that tells the outcome.
      have hread : ((r.events.map UpdateEvent.toJson).map Json.compact).getLast?.map
          UpdateEvent.ofLine? = some (some o.event) := by
        rw [← List.getLast?_map, hlines, List.getLast?_map, hlast, Option.map_some]
      obtain ⟨line, hline, he⟩ := Option.map_eq_some_iff.1 hread
      rw [hfault, or_iff_right hattempted, hline, Option.bind_some, he, Option.some_inj]

/-- An environment in which no server answers. -/
def unanswered : Environment where
  colors := false
  dataHome := some (Path.ofString "/d")
  home := none
  arch := "arm64"
  course := .unanswered
  transferName := "t"
  now := ⟨⟨2024, 1, 1⟩, 0, 0, 0, 0⟩

def unansweredArguments : List String := ["update", "-f", "json", "--url", "http://host/runtime"]

def unansweredLayout : Layout := ⟨Path.ofString "/d/runtime-updater"⟩

/-- What is made ready with these arguments, in an empty file system. -/
def unansweredReady : Except CommandFault (Surroundings × Coordinator) × FileSystem :=
  (Commands.prepareUpdate unanswered .empty unansweredLayout (some "http://host/runtime")
    false).perform .empty

/-- It is made ready. -/
theorem unansweredReady_ok :
    Arguments.parse unansweredArguments =
        .ok ⟨.update (some "http://host/runtime") false, none, true⟩ ∧
      Commands.loadConfig none .empty = .ok .empty ∧
      unanswered.layout .empty = .ok unansweredLayout ∧
      ∃ ready fs, unansweredReady = (.ok ready, fs) := by
  refine ⟨by decide +kernel, by decide +kernel, by decide +kernel, ?_⟩
  have hok : unansweredReady.1.toOption.isSome = true := by decide +kernel
  generalize unansweredReady = prepared at hok ⊢
  obtain ⟨r, fs⟩ := prepared
  cases r with
  | ok ready => exact ⟨ready, fs, rfl⟩
  | error f => cases hok

/-- An update that no server answers is attempted, and fails. -/
theorem run_update_unanswered : ∃ lines,
    IsLines (Print.writtenTo .out (run unanswered unansweredArguments .empty).prints) lines ∧
      lines ≠ [unattempted] ∧
      (∃ es, lines.map UpdateEvent.ofLine? = es.map some ∧ IsAttempt es) ∧
      (run unanswered unansweredArguments .empty).exitCode = 1 := by
  obtain ⟨hargs, hconfig, hlayout, ready, fs, hready⟩ := unansweredReady_ok
  have habsent : installedStatus unansweredReady.2 unansweredLayout.runtime none = .absent := by
    decide +kernel
  rw [hready] at habsent
  obtain ⟨lines, hlines, hnone, hsome, -⟩ := run_update hargs rfl rfl hconfig hlayout hready
  have hattempted : lines ≠ [unattempted] := by
    intro h
    rcases hnone.1 h with h | h
    · cases habsent.symm.trans h
    · cases habsent.symm.trans h
  exact ⟨lines, hlines, hattempted, hsome.resolve_left hattempted, by decide +kernel⟩

end Program

end SharedRuntime
