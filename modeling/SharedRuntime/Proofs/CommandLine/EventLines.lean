import SharedRuntime.Proofs.CommandLine.Updating

/-!
# Events recovered from the output of a program

What an update prints as JSON is read line by line (`UpdateEvent.ofLines?`), and the events read are
those that the listener was told, in order. With what is recovered of single failures, outcomes,
states and events this is `Program.reports_recovered`.
-/

set_option autoImplicit false

namespace SharedRuntime

/-! ## Lines -/

/-- The lines of a text, each without its line break. -/
def linesOf (text : String) : List String :=
  (text.toList.splitOn '\n').dropLast.map String.ofList

theorem linesOf_cons {line : String} (h : '\n' ∉ line.toList) (rest : String) :
    linesOf (line ++ "\n" ++ rest) = line :: linesOf rest := by
  have htext : (line ++ "\n" ++ rest).toList = line.toList ++ '\n' :: rest.toList := by
    simp [String.toList_append]
  unfold linesOf
  rw [htext, List.splitOn_append_cons_self, List.splitOn_eq_singleton h, List.singleton_append,
    List.dropLast_cons_of_ne_nil (List.splitOn_ne_nil _ _), List.map_cons, String.ofList_toList]

/-- The lines that a text consists of are found in it. -/
theorem IsLines.linesOf_eq {text : String} {lines : List String} (h : IsLines text lines) :
    linesOf text = lines := by
  obtain ⟨rfl, hlines⟩ := h
  induction lines with
  | nil => rfl
  | cons line lines ih =>
    obtain ⟨hline, hrest⟩ := List.forall_mem_cons.1 hlines
    rw [List.map_cons, String.join_cons, linesOf_cons hline, ih hrest]

/-- Reads events, one from each line. -/
def UpdateEvent.ofLines? (text : String) : Option (List UpdateEvent) :=
  (linesOf text).mapM ofLine?

namespace Program

/-- With JSON output an update that was attempted writes one line for each event. -/
theorem isLines_attempted {r : BackgroundRun} {p : Except CommandFault Report × FileSystem}
    (colors : Bool) (h : p.1 = .ok (Commands.attemptReport colors true (some r))) :
    IsLines (Print.writtenTo .out (completion colors p).prints)
      ((r.events.map UpdateEvent.toJson).map Json.compact) := by
  have hvalues : (Commands.attemptReport colors true (some r)).prints =
      (r.events.map UpdateEvent.toJson).map Print.json := by
    rw [List.map_map]
    rfl
  rw [(completion_ok colors h).1, hvalues]
  refine isLines_json (fun j hj => ?_) fun q hq => ?_
  · obtain ⟨e, -, rfl⟩ := List.mem_map.1 hj
    exact e.sound_toJson
  · obtain ⟨f, -, rfl⟩ := Option.map_eq_some_iff.1 (Option.mem_toList.1 hq)
    rfl

/-- Failures, outcomes, states and events are recovered from what is written of them, with the
members of every object in any order, and different ones are written differently. Whoever reads the
standard output of an update line by line recovers the events that the listener was told. -/
theorem reports_recovered :
    Json.Recovers UpdateError.toJson UpdateError.ofJson? ∧
      Json.Recovers UpdateOutcome.toJson UpdateOutcome.ofJson? ∧
      Json.Recovers UpdateState.toJson UpdateState.ofJson? ∧
      Json.Recovers UpdateEvent.toJson UpdateEvent.ofJson? ∧
      ∀ {env : Environment} {args : List String} {i : Invocation} {config : UpdaterConfig}
        {layout : Layout} {url : Option String} {clean : Bool} {fs fs' : FileSystem}
        {ready : Surroundings × Coordinator} {r : BackgroundRun},
        Arguments.parse args = .ok i → i.json = true → i.command = .update url clean →
        Commands.loadConfig i.config fs = .ok config → env.layout config = .ok layout →
        (Commands.prepareUpdate env config layout url clean).perform fs = (.ok ready, fs') →
        BackgroundRun.attempt? ready.1 ⟨ready.2, fs', []⟩ = some r →
          UpdateEvent.ofLines? (Print.writtenTo .out (run env args fs).prints) =
            some r.events := by
  refine ⟨UpdateError.recovers, UpdateOutcome.recovers, UpdateState.recovers, UpdateEvent.recovers,
    ?_⟩
  intro env args i config layout url clean fs fs' ready r hargs hjson hcommand hconfig hlayout
    hready hattempt
  have hreport := Commands.update_run i.json hready
  rw [← Commands.run_of_update hcommand hconfig hlayout, hjson, hattempt] at hreport
  have hrun : run env args fs = completion env.colors ((Commands.run env i).perform fs) := by
    rw [run, hargs]
  rw [UpdateEvent.ofLines?, hrun, (isLines_attempted env.colors hreport).linesOf_eq, List.map_map]
  exact Json.mapM_map UpdateEvent.ofLine?_compact r.events

/-- A state with all its members in the order opposite to the usual one. -/
def turnedState : Json :=
  .object [("outcome", .object [("error", .object [
    ("detail", .object [("code", .nat 7), ("status", .nat 404)]), ("kind", .text "transport")]),
    ("outcome", .text "failed")]), ("state", .text "terminal")]

/-- The two events of an update that no server answers are recovered, and so is a state whose
contents come before their tags. -/
theorem reports_recovered_unanswered :
    UpdateEvent.ofLines?
        (Print.writtenTo .out (run unanswered unansweredArguments .empty).prints) =
      some [.started, .failed (.transport 0 1004)] ∧
      (Json.parse? turnedState.compact).bind UpdateState.ofJson? =
        some (.terminal (.failed (.transport 404 7))) := by
  constructor
  · obtain ⟨hargs, hconfig, hlayout, ready, fs, hready⟩ := unansweredReady_ok
    have htold : unansweredReady.1.toOption.bind (fun ready =>
        (BackgroundRun.attempt? ready.1 ⟨ready.2, unansweredReady.2, []⟩).map
          BackgroundRun.events) = some [.started, .failed (.transport 0 1004)] := by decide +kernel
    rw [hready] at htold
    obtain ⟨r, hattempt, hevents⟩ := Option.map_eq_some_iff.1 htold
    rw [← hevents]
    exact reports_recovered.2.2.2.2 hargs rfl rfl hconfig hlayout hready hattempt
  · refine reports_recovered.2.2.1.reads (.terminal (.failed (.transport 404 7))) _ ?_
    exact .turned (.refl _) (.turned (.refl _) (.turned (.refl _) (.turned (.refl _) (.refl _))))

end Program

end SharedRuntime
