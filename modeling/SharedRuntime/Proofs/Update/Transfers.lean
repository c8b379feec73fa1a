import SharedRuntime.Proofs.FileSystem.Vacant
import SharedRuntime.Update.Transfer

/-!
# How transfers end and what they leave

Whatever a transfer meets on its way, it stops at the first thing that goes wrong (`Stops`), and
while it loads the only new file is its own (`loadBody_run`, `load_run`). `run_settles` says what
it reports, and that only a completed transfer leaves a file: the artifact, with all pieces of the
body in order.
-/

set_option autoImplicit false

namespace SharedRuntime.Transfer

open FileSystem

/-! ## What goes wrong -/

/-- The tree once the directory of a file is made, as far as it can be. -/
def prepared (file : Path) (fs : FileSystem) : FileSystem :=
  match Path.parent? file with
  | some dir => (fs.makeDirAll dir).2
  | none => fs

theorem moreDirs_prepared (file : Path) (fs : FileSystem) : MoreDirs fs (prepared file fs) := by
  unfold prepared
  split
  · exact moreDirs_makeDirAll fs _
  · exact .refl fs

section
variable (course : Course) (file : Path) (fs : FileSystem)

/-- The disk does not refuse the step, and the step can be done. -/
def Works : FileStep → Prop
  | .makeDirectory => ∀ dir, Path.parent? file = some dir →
      course.refuses .makeDirectory = false ∧ (fs.makeDirAll dir).1 = .ok ()
  | .create => course.refuses .create = false ∧ ∃ t, (prepared file fs).write file [] = .ok t
  | step => course.refuses step = false

/-- The transfer waits for the reply until it is there, or known not to come. -/
structure Asks : Prop where
  works : Works course file fs .makeDirectory
  wanted : course.cancelledAt 0 = false

/-- The reply is a success, and its first `k` pieces are written. -/
structure Reaches (r : Reply) (k : Nat) : Prop where
  asks : Asks course file fs
  reply : course.reply = .ok r
  success : isSuccess r.status = true
  creates : Works course file fs .create
  wanted : ∀ i < k, course.cancelledAt (i + 1) = false
  writes : ∀ i < k, Works course file fs (.write i)

/-- All pieces are written, and nobody cancels before it is known that no more follow. -/
structure Arrives (r : Reply) : Prop extends Reaches course file fs r r.chunks.length where
  wantedLast : course.cancelledAt (r.chunks.length + 1) = false

/-- How loading ends, and why. -/
inductive Stops : Ending → Prop
  | directory : ¬ Works course file fs .makeDirectory → Stops (.failed 0 fileFailure)
  | unwanted : Works course file fs .makeDirectory → course.cancelledAt 0 = true → Stops .cancelled
  | unanswered {status : UInt16} : Asks course file fs → course.reply = .error status →
      Stops (.failed status dataFailure)
  | unsuccessful {r : Reply} : Asks course file fs → course.reply = .ok r →
      isSuccess r.status = false → Stops (.failed r.status statusFailure)
  | create {r : Reply} : Asks course file fs → course.reply = .ok r → isSuccess r.status = true →
      ¬ Works course file fs .create → Stops (.failed r.status fileFailure)
  | cancelled {r : Reply} {k : Nat} : Reaches course file fs r k → k ≤ r.chunks.length →
      course.cancelledAt (k + 1) = true → Stops .cancelled
  | write {r : Reply} {k : Nat} : Reaches course file fs r k → k < r.chunks.length →
      course.cancelledAt (k + 1) = false → ¬ Works course file fs (.write k) →
        Stops (.failed r.status fileFailure)
  | broken {r : Reply} : Arrives course file fs r → r.breaksOff = true →
      Stops (.failed r.status dataFailure)
  | flush {r : Reply} : Arrives course file fs r → r.breaksOff = false →
      ¬ Works course file fs .flush → Stops (.failed r.status fileFailure)
  | done {r : Reply} : Arrives course file fs r → r.breaksOff = false →
      Works course file fs .flush → Stops .done

end

variable {course : Course} {file : Path} {fs t : FileSystem} {r : Reply} {k : Nat}

theorem Reaches.succ (h : Reaches course file fs r k) (hc : course.cancelledAt (k + 1) = false)
    (hw : Works course file fs (.write k)) : Reaches course file fs r (k + 1) := by
  refine { h with wanted := fun i hi => ?_, writes := fun i hi => ?_ }
  · rcases Nat.lt_succ_iff_lt_or_eq.1 hi with hi | rfl
    · exact h.wanted i hi
    · exact hc
  · rcases Nat.lt_succ_iff_lt_or_eq.1 hi with hi | rfl
    · exact h.writes i hi
    · exact hw

/-! ## Steps of the disk -/

theorem run_bind_of {α β : Type} {x : StateM FileSystem α} {f : α → StateM FileSystem β} {a : α}
    (h : x.run fs = (a, t)) : (x >>= f).run fs = (f a).run t := by
  rw [StateT.run_bind, h]
  rfl

section
variable {refused : Bool} {op : Script IoFault Unit}

theorem attempt_ok (hr : refused = false) (h : op.perform fs = (.ok (), t)) :
    (attempt refused op).run fs = (true, t) := by
  subst hr
  have hrun : StateT.run (ExceptT.run op) fs = (.ok (), t) := h
  unfold attempt
  rw [if_neg Bool.false_ne_true, run_bind_of hrun]
  rfl

theorem attempt_refused (hr : refused = true) : (attempt refused op).run fs = (false, fs) := by
  subst hr
  rfl

theorem attempt_error {f : IoFault} (hr : refused = false) (h : op.perform fs = (.error f, t)) :
    (attempt refused op).run fs = (false, t) := by
  subst hr
  have hrun : StateT.run (ExceptT.run op) fs = (.error f, t) := h
  unfold attempt
  rw [if_neg Bool.false_ne_true, run_bind_of hrun]
  rfl

theorem attempt_write_ok {data : Bytes} (hr : refused = false)
    (h : fs.write file data = .ok t) :
    (attempt refused (Script.write file data)).run fs = (true, t) :=
  attempt_ok hr (Script.change_ok_iff.2 h)

theorem attempt_write_error {data : Bytes} {f : IoFault} (hr : refused = false)
    (h : fs.write file data = .error f) :
    (attempt refused (Script.write file data)).run fs = (false, fs) := by
  refine attempt_error (f := f) hr ?_
  unfold Script.write
  rw [Script.perform_change, h]

end

/-- Makes the directory of a file: whether it is there. -/
def makeDirectory (course : Course) (file : Path) : StateM FileSystem Bool :=
  match Path.parent? file with
  | some dir => attempt (course.refuses .makeDirectory) (Script.makeDirAll dir)
  | none => pure true

/-- The directory is made, or the tree is left as it was or with what could be made. -/
theorem makeDirectory_run (course : Course) (file : Path) (fs : FileSystem) :
    (Works course file fs .makeDirectory ∧
      (makeDirectory course file).run fs = (true, prepared file fs)) ∨
    (¬ Works course file fs .makeDirectory ∧ ((makeDirectory course file).run fs = (false, fs) ∨
      (makeDirectory course file).run fs = (false, prepared file fs))) := by
  unfold makeDirectory
  unfold Works prepared
  cases hp : Path.parent? file with
  | none => exact .inl ⟨fun dir he => (by cases he), rfl⟩
  | some dir =>
    dsimp only
    by_cases hr : course.refuses .makeDirectory = true
    · refine .inr ⟨fun hw => ?_, .inl (attempt_refused hr)⟩
      rw [(hw dir rfl).1] at hr
      cases hr
    rw [Bool.not_eq_true] at hr
    cases hm : fs.makeDirAll dir with
    | mk result tree =>
      cases result with
      | ok u =>
        refine .inl ⟨fun d he => ?_, attempt_ok hr hm⟩
        cases he
        exact ⟨hr, by rw [hm]⟩
      | error f =>
        refine .inr ⟨fun hw => ?_, .inr (attempt_error hr hm)⟩
        have hok := (hw dir rfl).2
        rw [hm] at hok
        cases hok

/-! ## Loading -/

/-- A piece that is written is followed by the next. -/
theorem loadBody_written {loaded chunk : Bytes} {chunks : List Bytes} {last : Option UInt8}
    (hc : course.cancelledAt (k + 1) = false)
    (hw : (attempt (course.refuses (.write k)) (Script.write file (loaded ++ chunk))).run fs =
      (true, t)) :
    (loadBody course r file k loaded last (chunk :: chunks)).run fs =
      let step := progressAfter (loaded ++ chunk).length r.size last
      match (loadBody course r file (k + 1) (loaded ++ chunk) (step.or last) chunks).run t with
      | ((ps, e), u) => ((step.toList ++ ps, e), u) := by
  rw [loadBody, hc]
  rw [if_neg Bool.false_ne_true]
  dsimp only
  rw [run_bind_of hw]
  rfl

theorem loadBody_refused {loaded chunk : Bytes} {chunks : List Bytes} {last : Option UInt8}
    (hc : course.cancelledAt (k + 1) = false) (hw : course.refuses (.write k) = true) :
    (loadBody course r file k loaded last (chunk :: chunks)).run fs =
      (([], .failed r.status fileFailure), fs) := by
  rw [loadBody, hc]
  rw [if_neg Bool.false_ne_true]
  dsimp only
  rw [run_bind_of (attempt_refused hw)]
  rfl

/-- Loading goes on behind the pieces that were written, and the file is all that changes. -/
theorem loadBody_run {root : FileSystem} {x : Location} (hfree : root.FreeAt file x)
    {chunks before : List Bytes} (hr : r.chunks = before ++ chunks)
    (hreach : Reaches course file fs r before.length) (last : Option UInt8) : ∃ ps e data,
      (loadBody course r file before.length before.flatten last chunks).run
          (root.insertFile x before.flatten) = ((ps, e), root.insertFile x data) ∧
        Stops course file fs e ∧ (e = .done → data = r.chunks.flatten) := by
  -- On the pieces that are left. Written so far is `before`, of which the file holds all.
  induction chunks generalizing before last with
  | nil =>
    rw [List.append_nil] at hr
    subst hr
    refine ⟨[], ?_⟩
    unfold loadBody
    by_cases hc : course.cancelledAt (r.chunks.length + 1) = true
    · rw [if_pos hc]
      exact ⟨.cancelled, _, rfl, .cancelled hreach (Nat.le_refl _) hc, fun he => by cases he⟩
    rw [if_neg hc]
    have harrives : Arrives course file fs r := ⟨hreach, by simpa using hc⟩
    by_cases hb : r.breaksOff = true
    · rw [if_pos hb]
      exact ⟨_, _, rfl, .broken harrives hb, fun he => by cases he⟩
    rw [if_neg hb]
    by_cases hf : course.refuses .flush = true
    · rw [if_pos hf]
      refine ⟨_, _, rfl, .flush harrives (by simpa using hb) ?_, fun he => by cases he⟩
      simpa [Works] using hf
    · rw [if_neg hf]
      refine ⟨_, _, rfl, .done harrives (by simpa using hb) ?_, fun _ => rfl⟩
      simpa [Works] using hf
  | cons chunk chunks ih =>
    have hlt : before.length < r.chunks.length := by
      rw [hr, List.length_append, List.length_cons]
      omega
    by_cases hc : course.cancelledAt (before.length + 1) = true
    · unfold loadBody
      rw [if_pos hc]
      exact ⟨[], _, _, rfl, .cancelled hreach (Nat.le_of_lt hlt) hc, fun he => by cases he⟩
    rw [Bool.not_eq_true] at hc
    by_cases hw : course.refuses (.write before.length) = true
    · exact ⟨[], _, _, loadBody_refused hc hw, .write hreach hlt hc (by simpa [Works] using hw),
        fun he => by cases he⟩
    · rw [Bool.not_eq_true] at hw
      have hnext : (before ++ [chunk]).length = before.length + 1 := by simp
      have hflatten : (before ++ [chunk]).flatten = before.flatten ++ chunk := by simp
      have hwrite : (attempt (course.refuses (.write before.length))
          (Script.write file (before.flatten ++ chunk))).run (root.insertFile x before.flatten) =
            (true, root.insertFile x (before.flatten ++ chunk)) :=
        attempt_write_ok hw (hfree.write_again _ _)
      have hr' : r.chunks = before ++ [chunk] ++ chunks := by
        rw [hr, List.append_assoc]
        rfl
      obtain ⟨ps, e, data, hrun, hstops, hdone⟩ := ih hr' (hnext ▸ hreach.succ hc hw)
        ((progressAfter (before.flatten ++ chunk).length r.size last).or last)
      rw [hnext, hflatten] at hrun
      rw [loadBody_written hc hwrite]
      dsimp only
      rw [hrun]
      exact ⟨_, e, data, rfl, hstops, hdone⟩

/-! ## Names of a transfer -/

/-- The name of the transfer is new: neither of its files is there, nor once their directory is
made. -/
structure Fresh (dir : Path) (name : String) (fs : FileSystem) : Prop where
  noSlash : Path.slash ∉ Path.ofString name
  noPartial : (prepared (partialPath dir name) fs).Vacant (partialPath dir name)
  noFinal : (prepared (partialPath dir name) fs).Vacant (finalPath dir name)

variable {dir : Path} {name : String}

theorem ofString_partial (name : String) : Path.ofString (name ++ ".partial") =
    Path.ofString name ++ Path.ofString ".partial" :=
  Bytes.ofString_append name ".partial"

theorem ofString_final (name : String) :
    Path.ofString (name ++ ".pkg") = Path.ofString name ++ Path.ofString ".pkg" :=
  Bytes.ofString_append name ".pkg"

/-- What is written to the unfinished file leaves the final name free. -/
theorem Fresh.write (h : Fresh dir name fs)
    (hwrite : (prepared (partialPath dir name) fs).write (partialPath dir name) [] = .ok t) :
    ∃ x y, (prepared (partialPath dir name) fs).FreeAt (partialPath dir name) x ∧
      (prepared (partialPath dir name) fs).FreeAt (finalPath dir name) y ∧ x ≠ y ∧
        t = (prepared (partialPath dir name) fs).insertFile x [] := by
  have hpartial : Path.IsName (Path.ofString (name ++ ".partial")) := by
    rw [ofString_partial]
    exact Path.isName_append h.noSlash (by decide) (by decide)
  have hfinal : Path.IsName (Path.ofString (name ++ ".pkg")) := by
    rw [ofString_final]
    exact Path.isName_append h.noSlash (by decide) (by decide)
  refine Vacant.write_beside hpartial hfinal ?_ ?_ ?_ h.noPartial h.noFinal hwrite
  · rw [ofString_partial, ofString_final]
    exact fun he => absurd (List.append_cancel_left he) (by decide)
  · rw [ofString_partial, ofString_final, List.length_append, List.length_append]
    exact Nat.add_le_add_left (by decide) _
  · rw [ofString_partial, ofString_final]
    intro hnul hz
    rcases List.mem_append.1 hz with hz | hz
    · exact hnul (List.mem_append_left _ hz)
    · exact absurd hz (by decide)

/-- What loading leaves: the tree as it was or with the directory, or the unfinished file beside
the place of the artifact. -/
inductive Loaded (course : Course) (dir : Path) (name : String) (fs : FileSystem) (e : Ending) :
    FileSystem → Prop
  | untouched : e ≠ .done → Loaded course dir name fs e fs
  | prepared : e ≠ .done → Loaded course dir name fs e (prepared (partialPath dir name) fs)
  | written {x y : Location} {data : Bytes} :
      (Transfer.prepared (partialPath dir name) fs).FreeAt (partialPath dir name) x →
      (Transfer.prepared (partialPath dir name) fs).FreeAt (finalPath dir name) y → x ≠ y →
      (e = .done → ∃ r, course.reply = .ok r ∧ data = r.chunks.flatten) →
      Loaded course dir name fs e
        ((Transfer.prepared (partialPath dir name) fs).insertFile x data)

/-- Loads the reply once the directory of the file is there. -/
def fetch (course : Course) (file : Path) : StateM FileSystem (List UInt8 × Ending) :=
  if course.cancelledAt 0 then return ([], .cancelled)
  else match course.reply with
    | .error status => return ([], .failed status dataFailure)
    | .ok r =>
      if !isSuccess r.status then return ([], .failed r.status statusFailure)
      else do
        if !(← attempt (course.refuses .create) (Script.write file [])) then
          return ([], .failed r.status fileFailure)
        else loadBody course r file 0 [] none r.chunks

theorem load_eq (course : Course) (file : Path) : load course file =
    makeDirectory course file >>= fun made =>
      if !made then pure ([], .failed 0 fileFailure) else fetch course file := by
  unfold load makeDirectory fetch
  cases Path.parent? file <;> rfl

/-- Loading stops before there is a piece to write, or goes on with the body. -/
theorem fetch_begins (hmade : Works course file fs .makeDirectory) :
    (∃ e, e ≠ .done ∧ Stops course file fs e ∧ (∀ r, ¬ Reaches course file fs r 0) ∧
        (fetch course file).run (prepared file fs) = (([], e), prepared file fs)) ∨
      ∃ r t, Reaches course file fs r 0 ∧ (prepared file fs).write file [] = .ok t ∧
        (fetch course file).run (prepared file fs) =
          (loadBody course r file 0 [] none r.chunks).run t := by
  unfold fetch
  -- In the order of the checks; each that fails is a stop, and excludes that the first piece is
  -- reached.
  by_cases hc : course.cancelledAt 0 = true
  · rw [if_pos hc]
    refine .inl ⟨.cancelled, by simp, .unwanted hmade hc, fun r hreach => ?_, rfl⟩
    rw [hreach.asks.wanted] at hc
    cases hc
  rw [if_neg hc]
  rw [Bool.not_eq_true] at hc
  have hasks : Asks course file fs := ⟨hmade, hc⟩
  cases hreply : course.reply with
  | error status =>
    refine .inl ⟨_, by simp, .unanswered hasks hreply, fun r hreach => ?_, rfl⟩
    cases hreply.symm.trans hreach.reply
  | ok r =>
    have hsame {r' : Reply} (hreach : Reaches course file fs r' 0) : r = r' :=
      Except.ok.inj (hreply.symm.trans hreach.reply)
    dsimp only
    cases hs : isSuccess r.status with
    | false =>
      refine .inl ⟨_, by simp, .unsuccessful hasks hreply hs, fun r' hreach => ?_, rfl⟩
      rw [hsame hreach, hreach.success] at hs
      cases hs
    | true =>
      rw [if_neg (by decide)]
      by_cases hr : course.refuses .create = true
      · have hfails : ¬ Works course file fs .create := fun hw => by
          rw [hw.1] at hr
          cases hr
        rw [run_bind_of (attempt_refused hr)]
        exact .inl ⟨_, by simp, .create hasks hreply hs hfails, fun _ hreach =>
          hfails hreach.creates, rfl⟩
      rw [Bool.not_eq_true] at hr
      cases hwrite : (prepared file fs).write file [] with
      | error f =>
        have hfails : ¬ Works course file fs .create := fun hw => by
          obtain ⟨t, ht⟩ := hw.2
          rw [hwrite] at ht
          cases ht
        rw [run_bind_of (attempt_write_error hr hwrite)]
        exact .inl ⟨_, by simp, .create hasks hreply hs hfails, fun _ hreach =>
          hfails hreach.creates, rfl⟩
      | ok t =>
        rw [run_bind_of (attempt_write_ok hr hwrite)]
        exact .inr ⟨r, t, ⟨hasks, hreply, hs, ⟨hr, t, hwrite⟩, fun i hi =>
          absurd hi (Nat.not_lt_zero i), fun i hi => absurd hi (Nat.not_lt_zero i)⟩, rfl, rfl⟩

theorem fetch_run (h : Fresh dir name fs)
    (hmade : Works course (partialPath dir name) fs .makeDirectory) : ∃ ps e t,
    (fetch course (partialPath dir name)).run (prepared (partialPath dir name) fs) = ((ps, e), t) ∧
      Stops course (partialPath dir name) fs e ∧ Loaded course dir name fs e t := by
  rcases fetch_begins hmade with ⟨e, he, hstops, -, hrun⟩ | ⟨r, t, hreach, hwrite, hrun⟩
  · exact ⟨[], e, _, hrun, hstops, .prepared he⟩
  · obtain ⟨x, y, hx, hy, hne, rfl⟩ := h.write hwrite
    obtain ⟨ps, e, data, hbody, hstops, hdone⟩ :=
      loadBody_run hx (List.nil_append r.chunks).symm hreach none
    exact ⟨ps, e, _, hrun.trans hbody, hstops,
      .written hx hy hne fun he => ⟨r, hreach.reply, hdone he⟩⟩

theorem load_run (course : Course) (h : Fresh dir name fs) : ∃ ps e t,
    (load course (partialPath dir name)).run fs = ((ps, e), t) ∧
      Stops course (partialPath dir name) fs e ∧ Loaded course dir name fs e t := by
  rw [load_eq]
  rcases makeDirectory_run course (partialPath dir name) fs with ⟨hw, hrun⟩ | ⟨hw, hrun | hrun⟩
  · rw [run_bind_of hrun]
    exact fetch_run h hw
  · rw [run_bind_of hrun]
    exact ⟨[], _, _, rfl, .directory hw, .untouched fun he => by cases he⟩
  · rw [run_bind_of hrun]
    exact ⟨[], _, _, rfl, .directory hw, .prepared fun he => by cases he⟩

/-! ## Why loading ends -/

section
variable {e : Ending} (h : Stops course file fs e)
include h

theorem Stops.of_unanswered {status : UInt16} (ha : Asks course file fs)
    (hr : course.reply = .error status) : e = .failed status dataFailure := by
  have hno : ∀ {r k}, ¬ Reaches course file fs r k := by
    intro r k hreach
    have hok := hreach.reply
    rw [hr] at hok
    cases hok
  cases h with
  | directory hw => exact absurd ha.works hw
  | unwanted _ hc =>
    rw [ha.wanted] at hc
    cases hc
  | unanswered _ hr' =>
    rw [hr] at hr'
    cases hr'
    rfl
  | unsuccessful _ hr' | create _ hr' =>
    rw [hr] at hr'
    cases hr'
  | cancelled hreach | write hreach => exact absurd hreach hno
  | broken harr | flush harr | done harr => exact absurd harr.toReaches hno

theorem Stops.of_unsuccessful (ha : Asks course file fs) (hr : course.reply = .ok r)
    (hs : isSuccess r.status = false) : e = .failed r.status statusFailure := by
  have hno : ∀ {r' k}, ¬ Reaches course file fs r' k := by
    intro r' k hreach
    have hok := hreach.reply
    rw [hr] at hok
    cases hok
    have hs' := hreach.success
    rw [hs] at hs'
    cases hs'
  cases h with
  | directory hw => exact absurd ha.works hw
  | unwanted _ hc =>
    rw [ha.wanted] at hc
    cases hc
  | unanswered _ hr' =>
    rw [hr] at hr'
    cases hr'
  | unsuccessful _ hr' =>
    rw [hr] at hr'
    cases hr'
    rfl
  | create _ hr' hs' =>
    rw [hr] at hr'
    cases hr'
    rw [hs] at hs'
    cases hs'
  | cancelled hreach | write hreach => exact absurd hreach hno
  | broken harr | flush harr | done harr => exact absurd harr.toReaches hno

/-- Once all pieces are written, how loading ends is decided by how the body does, and by the
disk. -/
theorem Stops.of_arrives (ha : Arrives course file fs r) :
    (r.breaksOff = true ∧ e = .failed r.status dataFailure) ∨
      (r.breaksOff = false ∧ ¬ Works course file fs .flush ∧ e = .failed r.status fileFailure) ∨
        (r.breaksOff = false ∧ Works course file fs .flush ∧ e = .done) := by
  have hsame : ∀ {r'}, course.reply = .ok r' → r' = r := by
    intro r' hr'
    rw [ha.reply] at hr'
    cases hr'
    rfl
  cases h with
  | directory hw => exact absurd ha.asks.works hw
  | unwanted _ hc =>
    rw [ha.asks.wanted] at hc
    cases hc
  | unanswered _ hr' =>
    rw [ha.reply] at hr'
    cases hr'
  | unsuccessful _ hr' hs =>
    rw [hsame hr', ha.success] at hs
    cases hs
  | create _ _ _ hw => exact absurd ha.creates hw
  | @cancelled r' k hreach hk hc =>
    rw [hsame hreach.reply] at hk
    rcases Nat.lt_or_eq_of_le hk with hk | rfl
    · rw [ha.wanted k hk] at hc
      cases hc
    · rw [ha.wantedLast] at hc
      cases hc
  | @write r' k hreach hk _ hw =>
    rw [hsame hreach.reply] at hk
    exact absurd (ha.writes k hk) hw
  | broken harr hb =>
    obtain rfl := hsame harr.reply
    exact .inl ⟨hb, rfl⟩
  | flush harr hb hf =>
    obtain rfl := hsame harr.reply
    exact .inr (.inl ⟨hb, hf, rfl⟩)
  | done harr hb hf =>
    obtain rfl := hsame harr.reply
    exact .inr (.inr ⟨hb, hf, rfl⟩)

end

/-- The last check before a transfer knows that no more pieces follow. -/
def Course.lastCheck (course : Course) : Nat :=
  match course.reply with
  | .ok r => if isSuccess r.status then r.chunks.length + 1 else 0
  | .error _ => 0

theorem Stops.cancelledAt (h : Stops course file fs .cancelled) :
    ∃ i ≤ course.lastCheck, course.cancelledAt i = true := by
  cases h with
  | unwanted _ hc => exact ⟨0, Nat.zero_le _, hc⟩
  | @cancelled r k hreach hk hc =>
    refine ⟨k + 1, ?_, hc⟩
    unfold Course.lastCheck
    rw [hreach.reply]
    dsimp only
    rw [if_pos hreach.success]
    exact Nat.succ_le_succ hk

/-- The causes of failures. -/
inductive Causes (course : Course) (file : Path) (fs : FileSystem) : UInt16 → UInt32 → Prop
  | disk {status : UInt16} {step : FileStep} : ¬ Works course file fs step →
      Causes course file fs status fileFailure
  | unanswered {status : UInt16} : course.reply = .error status →
      Causes course file fs status dataFailure
  | unsuccessful {r : Reply} : course.reply = .ok r → isSuccess r.status = false →
      Causes course file fs r.status statusFailure
  | broken {r : Reply} : course.reply = .ok r → r.breaksOff = true →
      Causes course file fs r.status dataFailure

theorem Stops.causes {status : UInt16} {code : UInt32}
    (h : Stops course file fs (.failed status code)) : Causes course file fs status code := by
  cases h with
  | directory hw => exact .disk hw
  | unanswered _ hr => exact .unanswered hr
  | unsuccessful _ hr hs => exact .unsuccessful hr hs
  | create _ _ _ hw => exact .disk hw
  | write _ _ _ hw => exact .disk hw
  | broken harr hb => exact .broken harr.reply hb
  | flush _ _ hw => exact .disk hw

/-! ## What a transfer reports and leaves -/

/-- How a transfer ends. -/
inductive Ends (course : Course) (dir : Path) (name : String) (fs : FileSystem) :
    DownloadOutcome → Prop
  | cancelled : Stops course (partialPath dir name) fs .cancelled →
      Ends course dir name fs .cancelled
  | failed {status : UInt16} {code : UInt32} :
      Stops course (partialPath dir name) fs (.failed status code) →
        Ends course dir name fs (.failed status code)
  | rename : Stops course (partialPath dir name) fs .done →
      ¬ Works course (partialPath dir name) fs .rename →
        Ends course dir name fs (.failed 0 fileFailure)
  | completed : Stops course (partialPath dir name) fs .done →
      Works course (partialPath dir name) fs .rename →
        Ends course dir name fs (.completed (finalPath dir name))

/-- What the end of a transfer has to do with its course. -/
structure Explained (course : Course) (dir : Path) (name : String) (fs : FileSystem)
    (e : DownloadOutcome) : Prop where
  cancelled : e = .cancelled → ∃ i ≤ course.lastCheck, course.cancelledAt i = true
  unanswered : ∀ status, Asks course (partialPath dir name) fs → course.reply = .error status →
    e = .failed status dataFailure
  unsuccessful : ∀ r, Asks course (partialPath dir name) fs → course.reply = .ok r →
    isSuccess r.status = false → e = .failed r.status statusFailure
  broken : ∀ r, Arrives course (partialPath dir name) fs r → r.breaksOff = true →
    e = .failed r.status dataFailure
  completed : ∀ r, Arrives course (partialPath dir name) fs r → r.breaksOff = false →
    Works course (partialPath dir name) fs .flush →
      Works course (partialPath dir name) fs .rename → e = .completed (finalPath dir name)
  failed : ∀ status code, e = .failed status code →
    Causes course (partialPath dir name) fs status code

theorem Ends.explained {e : DownloadOutcome} (h : Ends course dir name fs e) :
    Explained course dir name fs e := by
  -- Each field by the ways in which a transfer ends: how the loading stopped decides which of them
  -- is left.
  refine ⟨fun he => ?_, fun status ha hr => ?_, fun r ha hr hs => ?_, fun r ha hb => ?_,
    fun r ha hb hf hw => ?_, fun status code he => ?_⟩
  · cases h <;> cases he
    rename_i hs
    exact hs.cancelledAt
  · cases h with
    | cancelled hs | rename hs _ | completed hs _ => cases hs.of_unanswered ha hr
    | failed hs =>
      cases hs.of_unanswered ha hr
      rfl
  · cases h with
    | cancelled hs' | rename hs' _ | completed hs' _ => cases hs'.of_unsuccessful ha hr hs
    | failed hs' =>
      cases hs'.of_unsuccessful ha hr hs
      rfl
  · cases h with
    | cancelled hs | rename hs _ | completed hs _ =>
      rcases hs.of_arrives ha with ⟨-, he⟩ | ⟨hb', -, he⟩ | ⟨hb', -, he⟩
      · cases he
      · cases he
      · rw [hb] at hb'
        cases hb'
    | failed hs =>
      rcases hs.of_arrives ha with ⟨-, he⟩ | ⟨hb', -, he⟩ | ⟨hb', -, he⟩
      · cases he
        rfl
      · rw [hb] at hb'
        cases hb'
      · cases he
  · have hdone : ∀ {e'}, Stops course (partialPath dir name) fs e' → e' = .done := by
      intro e' hs
      rcases hs.of_arrives ha with ⟨hb', -⟩ | ⟨-, hf', -⟩ | ⟨-, -, he⟩
      · rw [hb] at hb'
        cases hb'
      · exact absurd hf hf'
      · exact he
    cases h with
    | cancelled hs | failed hs => cases hdone hs
    | rename _ hw' => exact absurd hw hw'
    | completed => rfl
  · cases h with
    | cancelled | completed => cases he
    | failed hs =>
      cases he
      exact hs.causes
    | rename _ hw =>
      cases he
      exact .disk hw

/-- What a transfer leaves: all that was there, no unfinished file, and the artifact if the
transfer was completed. What else is new is a directory. -/
structure Leaves (course : Course) (dir : Path) (name : String) (fs : FileSystem)
    (e : DownloadOutcome) (fs' : FileSystem) : Prop where
  kept : fs.PartOf fs'
  contents : ∀ l id, fs.node? l = some (.file id) → fs'.contentsOf id = fs.contentsOf id
  added : ∀ l node, fs'.node? l = some node → fs.node? l = some node ∨ node = .dir ∨
    (e = .completed (finalPath dir name) ∧ fs'.locate (finalPath dir name) = .ok (l, node))
  noPartial : fs'.Vacant (partialPath dir name)
  noFinal : (∀ p, e ≠ .completed p) → fs'.Vacant (finalPath dir name)
  artifact : ∀ p, e = .completed p → p = finalPath dir name ∧
    ∃ r, course.reply = .ok r ∧ fs'.read p = .ok r.chunks.flatten

/-- The tree looks as before, or as with the directory of the transfer. -/
def Undone (dir : Path) (name : String) (fs fs' : FileSystem) : Prop :=
  ∃ s, (s = fs ∨ s = prepared (partialPath dir name) fs) ∧ (∀ l, fs'.node? l = s.node? l) ∧
    fs'.working = s.working ∧ ∀ id, id ≠ fs.fresh → fs'.contentsOf id = s.contentsOf id

theorem Loaded.remove {e : Ending} (h : Fresh dir name fs) (hl : Loaded course dir name fs e t) :
    Undone dir name fs (((t.remove (partialPath dir name)).toOption).getD t) := by
  have hmore := moreDirs_prepared (partialPath dir name) fs
  cases hl with
  | untouched =>
    have hvacant := h.noPartial.of_partOf hmore.partOf hmore.working
    rw [hvacant.remove]
    exact ⟨fs, .inl rfl, fun _ => rfl, rfl, fun _ _ => rfl⟩
  | prepared =>
    rw [h.noPartial.remove]
    exact ⟨_, .inr rfl, fun _ => rfl, rfl, fun _ _ => rfl⟩
  | @written x y data hx =>
    rw [hx.remove_written data]
    refine ⟨_, .inr rfl, node?_erase_written hx.none data, rfl, fun id hid => ?_⟩
    exact contentsOf_insertFile _ x data (hmore.fresh.symm ▸ hid)

theorem Undone.leaves {e : DownloadOutcome} (hn : fs.Numbered) (h : Fresh dir name fs)
    (hu : Undone dir name fs t) (he : ∀ p, e ≠ .completed p) :
    Leaves course dir name fs e t := by
  obtain ⟨s, hs, hnode, hw, hcontents⟩ := hu
  have hmore := moreDirs_prepared (partialPath dir name) fs
  have hfs : MoreDirs fs s := by
    rcases hs with rfl | rfl
    · exact .refl s
    · exact hmore
  have hroot : t.PartOf (prepared (partialPath dir name) fs) := by
    intro l node hl
    rw [hnode l] at hl
    rcases hs with rfl | rfl
    · exact hmore.partOf l node hl
    · exact hl
  have hworking : (prepared (partialPath dir name) fs).working = t.working :=
    hmore.working.trans (hfs.working.symm.trans hw.symm)
  refine ⟨fun l node hl => ?_, fun l id hl => ?_, fun l node hl => ?_,
    h.noPartial.of_partOf hroot hworking, fun _ => h.noFinal.of_partOf hroot hworking,
    fun p hp => absurd hp (he p)⟩
  · rw [hnode l]
    exact hfs.partOf l node hl
  · rw [hcontents id (Nat.ne_of_lt (hn l id hl))]
    exact hfs.contentsOf id
  · rw [hnode l] at hl
    rcases hfs.node l with hsame | ⟨-, hdir⟩
    · exact .inl (hsame.symm.trans hl)
    · rw [hdir] at hl
      cases hl
      exact .inr (.inl rfl)

theorem leaves_moved {x y : Location} {data : Bytes} (hn : fs.Numbered)
    (hx : (prepared (partialPath dir name) fs).FreeAt (partialPath dir name) x)
    (hy : (prepared (partialPath dir name) fs).FreeAt (finalPath dir name) y) (hne : x ≠ y)
    (hr : course.reply = .ok r) (hdata : data = r.chunks.flatten) :
    Leaves course dir name fs (.completed (finalPath dir name))
      ((prepared (partialPath dir name) fs).moved x y data) := by
  have hmore := moreDirs_prepared (partialPath dir name) fs
  have hsame := sameBut_moved hx.none y data
  -- What was there before is neither of the two names, which were free.
  have hkept : ∀ l node, fs.node? l = some node →
      ((prepared (partialPath dir name) fs).moved x y data).node? l = some node := by
    intro l node hl
    have hroot := hmore.partOf l node hl
    rw [hsame.node l, hroot]
    rintro rfl
    rw [hy.none] at hroot
    cases hroot
  refine ⟨hkept, fun l id hl => ?_, fun l node hl => ?_, ?_, fun hnot => absurd rfl (hnot _),
    fun p hp => ?_⟩
  · have hid : id ≠ (prepared (partialPath dir name) fs).fresh :=
      hmore.fresh.symm ▸ Nat.ne_of_lt (hn l id hl)
    exact (contentsOf_insertFile _ x data hid).trans (hmore.contentsOf id)
  · by_cases hly : l = y
    · subst hly
      rw [node?_moved_self _ x data hy.ne_nil] at hl
      cases hl
      exact .inr (.inr ⟨rfl, hy.locate_moved hx.none data⟩)
    · rw [hsame.node l hly] at hl
      rcases hmore.node l with hold | ⟨-, hdir⟩
      · exact .inl (hold.symm.trans hl)
      · rw [hdir] at hl
        cases hl
        exact .inr (.inl rfl)
  · exact (hx.away hsame hy.none hne).vacant
  · cases hp
    exact ⟨rfl, r, hr, hdata ▸ hy.read_moved hx.none data⟩

/-- Does what follows loading: the outcome to report. -/
def finish (course : Course) (dir : Path) (name : String) (e : Ending) :
    StateM FileSystem DownloadOutcome :=
  match e with
  | .done => do
    if ← attempt (course.refuses .rename)
        (Script.change fun fs => fs.rename (partialPath dir name) (finalPath dir name)) then
      return .completed (finalPath dir name)
    else
      removePartial (partialPath dir name)
      return .failed 0 fileFailure
  | .cancelled => do
    removePartial (partialPath dir name)
    return .cancelled
  | .failed status code => do
    removePartial (partialPath dir name)
    return .failed status code

theorem finish_isTerminal (course : Course) (dir : Path) (name : String) (e : Ending)
    (fs : FileSystem) : ((finish course dir name e).run fs).1.isTerminal = true := by
  unfold finish
  cases e with
  | cancelled => rfl
  | failed status code => rfl
  | done =>
    dsimp only
    cases hattempt : (attempt (course.refuses .rename)
        (Script.change fun fs => fs.rename (partialPath dir name) (finalPath dir name))).run fs with
    | mk renamed t =>
      rw [run_bind_of hattempt]
      cases renamed <;> rfl

theorem run_of_load {ps : List UInt8} {e : Ending} {o : DownloadOutcome} {u : FileSystem}
    (hload : (load course (partialPath dir name)).run fs = ((ps, e), t))
    (hfinish : (finish course dir name e).run t = (o, u)) :
    (run course dir name).run fs = (.started :: ps.map .progress ++ [o], u) := by
  unfold run
  rw [run_bind_of hload]
  unfold finish at hfinish
  cases e with
  | cancelled | failed =>
    cases hfinish
    rfl
  | done =>
    dsimp only at hfinish ⊢
    cases hattempt : (attempt (course.refuses .rename)
        (Script.change fun fs => fs.rename (partialPath dir name) (finalPath dir name))).run t with
    | mk renamed v =>
      rw [run_bind_of hattempt] at hfinish ⊢
      cases renamed <;> cases hfinish <;> rfl

theorem finish_run {e : Ending} (hn : fs.Numbered) (h : Fresh dir name fs)
    (hstops : Stops course (partialPath dir name) fs e) (hl : Loaded course dir name fs e t) :
    ∃ o u, (finish course dir name e).run t = (o, u) ∧ o.isTerminal = true ∧
      Ends course dir name fs o ∧ Leaves course dir name fs o u := by
  have hundone := hl.remove h
  unfold finish
  cases e with
  | cancelled =>
    exact ⟨_, _, rfl, rfl, .cancelled hstops, hundone.leaves hn h fun p he => by cases he⟩
  | failed status code =>
    exact ⟨_, _, rfl, rfl, .failed hstops, hundone.leaves hn h fun p he => by cases he⟩
  | done =>
    dsimp only
    by_cases hr : course.refuses .rename = true
    · rw [run_bind_of (attempt_refused hr)]
      refine ⟨_, _, rfl, rfl, .rename hstops fun hw => ?_,
        hundone.leaves hn h fun p he => by cases he⟩
      rw [hw] at hr
      cases hr
    · rw [Bool.not_eq_true] at hr
      cases hl with
      | untouched he | prepared he => exact absurd rfl he
      | @written x y data hx hy hne hdone =>
        obtain ⟨r, hreply, hdata⟩ := hdone rfl
        have hrename : (Script.change fun fs => fs.rename (partialPath dir name)
            (finalPath dir name)).perform _ = (.ok (), _) :=
          Script.change_ok_iff.2 (hx.rename_written hy hne data)
        rw [run_bind_of (attempt_ok hr hrename)]
        exact ⟨_, _, rfl, rfl, .completed hstops hr, leaves_moved hn hx hy hne hreply hdata⟩

/-- A transfer reports its start, its progress and one end, and nothing after it; the end tells what
happened on the way. Only a completed transfer leaves a new file, which holds all pieces of the
body in order. -/
theorem run_settles (course : Course) (dir : Path) (name : String) (fs : FileSystem)
    (hn : fs.Numbered) (h : Fresh dir name fs) : ∃ (ps : List UInt8) (e : DownloadOutcome),
      ((run course dir name).run fs).1 = .started :: ps.map .progress ++ [e] ∧
        e.isTerminal = true ∧ Explained course dir name fs e ∧
          Leaves course dir name fs e ((run course dir name).run fs).2 := by
  obtain ⟨ps, ending, t, hload, hstops, hloaded⟩ := load_run course h
  obtain ⟨o, u, hfinish, hterminal, hends, hleaves⟩ := finish_run hn h hstops hloaded
  rw [run_of_load hload hfinish]
  exact ⟨ps, o, rfl, hterminal, hends.explained, hleaves⟩

/-- A body of two pieces comes into a directory that is not there yet. -/
theorem run_settles_twoPieces :
    let course : Course := ⟨.ok ⟨200, 3, [[1, 2], [3]], false⟩, fun _ => false, fun _ => false⟩
    let dir := Path.ofString "/downloads"
    let fs := FileSystem.empty.insertFile [Path.ofString "other.pkg"] [7]
    fs.Numbered ∧ Fresh dir "runtime-1" fs ∧ ∃ (ps : List UInt8) (e : DownloadOutcome),
      ((run course dir "runtime-1").run fs).1 = .started :: ps.map .progress ++ [e] ∧
        e.isTerminal = true ∧ Explained course dir "runtime-1" fs e ∧
          Leaves course dir "runtime-1" fs e ((run course dir "runtime-1").run fs).2 := by
  intro course dir fs
  have hnumbered : fs.Numbered := numbered_empty.insertFile _ _
  have hfresh : Fresh dir "runtime-1" fs := by
    refine ⟨by decide +kernel, ?_, ?_⟩
    · have hfree : (prepared (partialPath dir "runtime-1") fs).FreeAt (partialPath dir "runtime-1")
          [Path.ofString "downloads", Path.ofString "runtime-1.partial"] :=
        ⟨[Path.ofString "downloads"], Path.ofString "runtime-1.partial", by rfl, rfl⟩
      exact hfree.vacant
    · have hfree : (prepared (partialPath dir "runtime-1") fs).FreeAt (finalPath dir "runtime-1")
          [Path.ofString "downloads", Path.ofString "runtime-1.pkg"] :=
        ⟨[Path.ofString "downloads"], Path.ofString "runtime-1.pkg", by rfl, rfl⟩
      exact hfree.vacant
  exact ⟨hnumbered, hfresh, run_settles course dir "runtime-1" fs hnumbered hfresh⟩

end SharedRuntime.Transfer
