import SharedRuntime.Proofs.Update.Ledger

/-!
# What the platform does not take

In the foreground an artifact goes to the platform as soon as it is delivered. If the platform
refuses it the user is asked again, and the coordinator forgets where the artifact is: it removes no
file in any run (`removed_attended`), so what was refused stays for good.
-/

set_option autoImplicit false

namespace SharedRuntime

namespace Coordinator

variable {c : Coordinator} {a : Answers}

theorem Invites.removes {b : Bool} {t : Turn} (h : Invites c a b t) :
    t.2.filterMap Effect.removal? = [] := by
  cases h <;> rfl

/-- No message has the coordinator remove a file in the foreground. -/
theorem Responds.removes {m : Incoming} {t : Turn} (h : Responds c a m t) :
    t.2.filterMap Effect.removal? = [] := by
  have shown : ∀ os : List DownloadOutcome,
      (os.flatMap (DownloadOutcome.shown c.attempt)).filterMap Effect.removal? = [] :=
    DownloadOutcome.filterMap_shown (fun _ => rfl) (fun _ => rfl) c.attempt
  cases h with
  | progressed => exact shown _
  | cancelled => rw [List.filterMap_append, shown]; rfl
  | failed => rw [List.filterMap_append, shown]; rfl
  | handedOver => rw [List.filterMap_append, shown]; rfl
  | notTaken => rw [List.filterMap_append, shown]; rfl
  | cancelling => exact c.filterMap_cancelSession fun _ => rfl
  | _ => rfl

/-- An artifact of the stored session is handed to the platform. -/
theorem Responds.hands {m : Incoming} {t : Turn} (h : Responds c a m t) {id : Nat} {p : Path}
    (hm : m = .report ⟨id, .completed p⟩) (hid : c.session.map Session.id = some id) :
    .installPackage p ∈ t.2 := by
  cases h with
  | strayReport hstray =>
    cases hm
    obtain ⟨s, hs, rfl⟩ := Option.map_eq_some_iff.1 hid
    exact absurd rfl (hstray s hs)
  | progressed _ _ _ ho =>
    cases hm
    cases ho
  | handedOver =>
    cases hm
    simp
  | notTaken =>
    cases hm
    simp
  | _ => cases hm

/-- An artifact of the stored session that the platform refuses leads back to the user. -/
theorem Responds.refused {m : Incoming} {t : Turn} (h : Responds c a m t) {id : Nat} {p : Path}
    {f : PlatformFault} (hm : m = .report ⟨id, .completed p⟩)
    (hid : c.session.map Session.id = some id) (hp : a.installPackage p = .error f) :
    t.1 = c.reawaiting ∧ ∃ shown,
      t.2 = shown ++ [.installPackage p, .dismiss, .showError c.attempt] := by
  cases h with
  | strayReport hstray =>
    cases hm
    obtain ⟨s, hs, rfl⟩ := Option.map_eq_some_iff.1 hid
    exact absurd rfl (hstray s hs)
  | progressed _ _ _ ho =>
    cases hm
    cases ho
  | handedOver _ _ _ hok =>
    cases hm
    rw [hp] at hok
    cases hok
  | notTaken =>
    cases hm
    exact ⟨rfl, _, rfl⟩
  | _ => cases hm

end Coordinator

namespace Life

variable {l l' : Life} {setup : Setup}

theorem attended_run {store : StoreContext} (hf : setup.presentation = .foreground store)
    {hs : List Happening} (hr : (new setup).run hs = some l) : l.Attended :=
  run_invariant Attended.step (attended_new hf) hr

/-- The coordinator removes nothing in the foreground. -/
theorem removed_attended (h : l.Attended) (hrem : removed l.record = []) {x : Happening}
    (hl : l.step x = some l') : removed l'.record = [] := by
  obtain ⟨store, hf⟩ := h.foreground
  have turn : ∀ {first : Moment} {t : Turn}, first.removal? = none →
      t.2.filterMap Effect.removal? = [] → removed (l.turn first t).record = [] := by
    intro first t hfirst hes
    exact (removed_turn l.record hfirst t.2).trans (by rw [hrem, hes]; rfl)
  cases step_goes hl with
  | still => exact hrem
  | @heard m c waiting running hm =>
    show removed (l.record ++ [m]) = []
    rw [removed_append, hrem, removed, List.filterMap_cons_none (Moment.removal?_of_isHeard hm)]
    rfl
  | called a =>
    exact turn rfl
      (Coordinator.attemptUpdate_invites (Coordinator.isForeground_foreground hf) a).removes
  | cancelled hes => exact turn rfl (hes.filterMap fun _ => rfl)
  | @took a m c hst hn =>
    have hf' : c.setup.presentation = .foreground store := by rw [hn.setup, hf]
    exact turn rfl (Coordinator.handle_responds hf' (h.attending.next hn) a m).removes

/-- A record only grows. -/
theorem run_record {hs : List Happening} (hr : l.run hs = some l') :
    ∃ ms, l'.record = l.record ++ ms := by
  refine run_invariant (P := fun x => ∃ ms, x.record = l.record ++ ms) ?_ ⟨[], by simp⟩ hr
  rintro l₁ x l₂ ⟨ms, hms⟩ hl
  rcases step_record hl with ⟨new, hnew, -⟩ | ⟨a, n, -, rfl⟩
  · exact ⟨ms ++ new, by rw [hnew, hms, List.append_assoc]⟩
  · exact ⟨ms ++ _, by rw [← List.append_assoc, ← hms]; rfl⟩

/-- Each artifact that was delivered was handed to the platform since. -/
def HandsOver (l : Life) : Prop :=
  ∀ p later, Delivery [] l.record p later → .asked (.installPackage p) ∈ later

theorem HandsOver.step (h : l.HandsOver) (ha : l.Attended)
    (hlive : ∀ id, Live l.record id ↔ l.coordinator.session.map Session.id = some id)
    {x : Happening} (hl : l.step x = some l') : l'.HandsOver := by
  intro p later hd
  obtain ⟨store, hf⟩ := ha.foreground
  cases step_goes hl with
  | still => exact h p later hd
  | @heard m c waiting running hm =>
    obtain ⟨rest, rfl, hold⟩ :=
      hd.of_append (List.forall_mem_singleton.2 (Moment.completes_of_isHeard hm))
    exact List.mem_append_left _ (h p rest hold)
  | called a =>
    rcases hd.of_turn with ⟨rest, rfl, hold⟩ | ⟨-, id, hfirst, -⟩
    · exact List.mem_append_left _ (h p rest hold)
    · cases hfirst
  | cancelled =>
    rcases hd.of_turn with ⟨rest, rfl, hold⟩ | ⟨-, id, hfirst, -⟩
    · exact List.mem_append_left _ (h p rest hold)
    · cases hfirst
  | @took a m c hst hn =>
    rcases hd.of_turn with ⟨rest, rfl, hold⟩ | ⟨rfl, id, hfirst, hlive'⟩
    · exact List.mem_append_left _ (h p rest hold)
    · cases hfirst
      have hf' : c.setup.presentation = .foreground store := by rw [hn.setup, hf]
      have hse : c.session = l.coordinator.session := by cases hn; rfl
      exact List.mem_map_of_mem ((Coordinator.handle_responds hf' (ha.attending.next hn) a _).hands
        rfl (hse ▸ (hlive id).1 hlive'))

/-- In the run a live session delivers the artifact at `p` and the platform refuses it; `past` is
what is noted up to the delivery. -/
def Refused (setup : Setup) (hs : List Happening) (p : Path) (past : List Moment) : Prop :=
  ∃ hs₁ a hs₂ l c id f, hs = hs₁ ++ .process a :: hs₂ ∧ (new setup).run hs₁ = some l ∧
    l.coordinator.nextIncoming? = some (.report ⟨id, .completed p⟩, c) ∧ Live l.record id ∧
    a.installPackage p = .error f ∧ past = l.record ++ [.taken (.report ⟨id, .completed p⟩)]

/-- In every run in the foreground each artifact that is delivered is handed to the platform, and no
file is ever removed. So an artifact that the platform refused is never disposed of: the user is
asked again, and whatever follows, the artifact is there at the end of the run unless somebody else
removed it. -/
theorem run_keeps_refused {store : StoreContext} (hf : setup.presentation = .foreground store)
    {hs : List Happening} (hr : (new setup).run hs = some l) :
    removed l.record = [] ∧
      (∀ p later, Delivery [] l.record p later → .asked (.installPackage p) ∈ later) ∧
      ∀ p past, Refused setup hs p past → ∃ later, l.record = past ++ later ∧
        (∃ shown n rest, later = (shown ++
          [Effect.installPackage p, .dismiss, .showError n]).map .asked ++ rest) ∧
        ∀ disk : List Moment → FileSystem, Spares disk p past later →
          (disk past).exists? p = true → (disk l.record).exists? p = true := by
  have hall : l.Attended ∧ removed l.record = [] :=
    run_invariant (P := fun l => l.Attended ∧ removed l.record = [])
      (fun l x l' h hl => ⟨Attended.step l x l' h.1 hl, removed_attended h.1 h.2 hl⟩)
      ⟨attended_new hf, rfl⟩ hr
  -- Handing over looks back on what was delivered, so its induction is over lives that were
  -- reached.
  have hreach : l.Reached setup := ⟨hs, hr⟩
  have hhands : l.HandsOver := by
    refine hreach.invariant (fun p later hd => ?_) fun l x l' hreach hl hx => ?_
    · obtain ⟨past, id, hnil, -⟩ := hd
      simp [new] at hnil
    · obtain ⟨hs', hr'⟩ := hreach
      exact hl.step (attended_run hf hr') (fun id => live_iff hr') hx
  refine ⟨hall.2, hhands, ?_⟩
  rintro p past ⟨hs₁, a, hs₂, l₁, c, id, f, rfl, hr₁, hn, hlive, hp, rfl⟩
  have ha := attended_run hf hr₁
  have hnext := Coordinator.next_of_nextIncoming? hn
  have hid := (live_iff hr₁).1 hlive
  have hst : l₁.coordinator.state ≠ .idle := by
    cases ha.attending <;> simp_all
  rw [run_append, hr₁, Option.bind_some, run] at hr
  obtain ⟨l₂, hl₂, hrest⟩ := Option.bind_eq_some_iff.1 hr
  rw [step_taken hst hnext a] at hl₂
  obtain rfl := Option.some.inj hl₂
  obtain ⟨rest, hrec⟩ := run_record hrest
  obtain ⟨store', hf₁⟩ := ha.foreground
  have hf' : c.setup.presentation = .foreground store' := by rw [hnext.setup, hf₁]
  have hse : c.session = l₁.coordinator.session := by cases hnext; rfl
  obtain ⟨-, shown, heffects⟩ := (Coordinator.handle_responds hf' (ha.attending.next hnext) a
    (.report ⟨id, .completed p⟩)).refused rfl (hse ▸ hid) hp
  have hrec' : l.record = l₁.record ++ [.taken (.report ⟨id, .completed p⟩)] ++
      ((shown ++ [Effect.installPackage p, .dismiss, .showError c.attempt]).map .asked ++ rest) := by
    rw [hrec, ← heffects]
    simp [Life.turn]
  refine ⟨_, hrec', ⟨shown, c.attempt, rest, rfl⟩, fun disk hdisk hex => ?_⟩
  rw [hrec']
  refine hdisk.there (fun hm => ?_) hex
  have hmem : p ∈ removed l.record := mem_removed (hrec' ▸ List.mem_append_right _ hm)
  rw [hall.2] at hmem
  cases hmem

/-- An attempt whose artifact the platform refuses and that the user then declines. -/
def refusedRun : List Happening :=
  [.overrideUrl "http://host/runtime", .attempt plainAnswers, .choose ⟨1, .accept⟩,
    .process plainAnswers, .report ⟨1, .completed [3]⟩,
    .process { plainAnswers with installPackage := fun _ => .error (.install "refused") },
    .choose ⟨1, .decline⟩, .process plainAnswers]

theorem run_keeps_refused_declined : ∃ l, (new dialogSetup).run refusedRun = some l ∧
    l.coordinator.state = .idle ∧ l.coordinator.lastOutcome = some .cancelled ∧
    (∃ past, Refused dialogSetup refusedRun [3] past) ∧
    (singleFile l.record).exists? [3] = true := by
  have hr : (new dialogSetup).run refusedRun = some _ := rfl
  have hbefore : (new dialogSetup).run (refusedRun.take 5) = some _ := rfl
  have hrefused : Refused dialogSetup refusedRun [3] _ :=
    ⟨refusedRun.take 5, _, _, _, _, 1, _, rfl, hbefore, rfl, (live_iff hbefore).2 rfl, rfl, rfl⟩
  obtain ⟨-, -, hkeeps⟩ := run_keeps_refused rfl hr
  obtain ⟨later, -, -, hthere⟩ := hkeeps [3] _ hrefused
  exact ⟨_, hr, rfl, rfl, ⟨_, hrefused⟩,
    hthere singleFile (spares_singleFile _ _) ((exists?_singleFile _).2 (by decide))⟩

end Life

end SharedRuntime
