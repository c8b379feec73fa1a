import Mathlib.Algebra.Ring.Nat
import Mathlib.Data.List.Induction
import SharedRuntime.Proofs.Update.Events
import SharedRuntime.Proofs.Update.Transfers
import SharedRuntime.Update.Download

/-!
# The percentages of a transfer

`percentages` is what a body tells of its progress, by the lengths of the pieces that are written
alone: `run_percentages` finds it in the reports of every transfer. One piece more adds at most one
percentage (`percentages_concat`), and behind a piece the last one is that of all bytes so far
(`getLast?_percentages`), from which the rest follows (`percentages_tracks`). `percentWords?` does
the same on words of sixty-four bits, and fails where a machine would wrap around, divide by zero
or cut bits off; it never does (`percentWords?_eq`).

Such reports are in the form that a session gives to all reports, so they pass a session unchanged
(`Download.calls_rising`).
-/

set_option autoImplicit false

namespace SharedRuntime

namespace Transfer

/-! ## One percentage -/

theorem toNat_percentOf (loaded size : Nat) :
    (percentOf loaded size).toNat = min (min (loaded * 100) countLimit / size) 100 :=
  UInt8.toNat_ofNat_of_lt' (Nat.lt_of_le_of_lt (Nat.min_le_right _ _) (by decide))

theorem percentOf_le (loaded size : Nat) : percentOf loaded size ≤ 100 := by
  rw [UInt8.le_iff_toNat_le, toNat_percentOf]
  exact Nat.min_le_right _ _

/-- More bytes are no lower a percentage, also where the product is cut off. -/
theorem percentOf_mono (size : Nat) {a b : Nat} (h : a ≤ b) :
    percentOf a size ≤ percentOf b size := by
  rw [UInt8.le_iff_toNat_le, toNat_percentOf, toNat_percentOf]
  have hproduct : min (a * 100) countLimit ≤ min (b * 100) countLimit := by omega
  have hquotient := Nat.div_le_div_right (c := size) hproduct
  omega

theorem percentOf_exact {loaded : Nat} (h : 100 * loaded < 2 ^ 64) (size : Nat) :
    (percentOf loaded size).toNat = min 100 (100 * loaded / size) := by
  have hproduct : loaded * 100 ≤ countLimit := by
    rw [Nat.mul_comm]
    exact Nat.le_sub_one_of_lt h
  rw [toNat_percentOf, Nat.min_eq_left hproduct, Nat.mul_comm, Nat.min_comm]

/-- What was told last, once a piece is there. -/
theorem progressAfter_or {loaded size : Nat} (hsize : 0 < size) (last : Option UInt8) :
    (progressAfter loaded size last).or last = some (percentOf loaded size) := by
  unfold progressAfter
  rw [if_neg (Nat.ne_of_gt hsize)]
  dsimp only
  split
  · assumption
  · rfl

/-! ## All percentages of a body -/

/-- The percentages that pieces of these lengths bring, after `loaded` bytes and the percentage
`last`. -/
def percentagesFrom (size : Nat) : Nat → Option UInt8 → List Nat → List UInt8
  | _, _, [] => []
  | loaded, last, n :: lens =>
    let step := progressAfter (loaded + n) size last
    step.toList ++ percentagesFrom size (loaded + n) (step.or last) lens

/-- The percentages of a body whose pieces have these lengths. -/
def percentages (size : Nat) (lens : List Nat) : List UInt8 := percentagesFrom size 0 none lens

theorem getLast?_step (step : Option UInt8) : step.toList.getLast? = step := by
  cases step <;> rfl

theorem percentagesFrom_concat (size loaded : Nat) (last : Option UInt8) (lens : List Nat)
    (n : Nat) : percentagesFrom size loaded last (lens ++ [n]) =
      percentagesFrom size loaded last lens ++ (progressAfter (loaded + (lens ++ [n]).sum) size
        ((percentagesFrom size loaded last lens).getLast?.or last)).toList := by
  induction lens generalizing loaded last with
  | nil => simp [percentagesFrom]
  | cons m lens ih =>
    rw [List.cons_append, percentagesFrom, percentagesFrom, ih, List.append_assoc,
      List.getLast?_append, getLast?_step, Option.or_assoc, List.sum_cons, Nat.add_assoc]

/-- One piece more. -/
theorem percentages_concat (size : Nat) (lens : List Nat) (n : Nat) :
    percentages size (lens ++ [n]) = percentages size lens ++
      (progressAfter (lens ++ [n]).sum size (percentages size lens).getLast?).toList := by
  unfold percentages
  rw [percentagesFrom_concat, Nat.zero_add, Option.or_none]

/-- Pieces that follow take nothing back. -/
theorem percentages_prefix (size : Nat) (lens more : List Nat) :
    percentages size lens <+: percentages size (lens ++ more) := by
  induction more using List.reverseRecOn with
  | nil => simp
  | append_singleton more n ih =>
    rw [← List.append_assoc, percentages_concat]
    exact ih.trans (List.prefix_append _ _)

/-- Nothing is told of a body whose size is not known. -/
theorem percentages_unknown (lens : List Nat) : percentages 0 lens = [] := by
  induction lens using List.reverseRecOn with
  | nil => rfl
  | append_singleton lens n ih =>
    rw [percentages_concat, ih]
    rfl

section
variable {size : Nat} (hsize : 0 < size)
include hsize

/-- Behind every piece the last percentage is that of the bytes so far. -/
theorem getLast?_percentages {lens : List Nat} (hlens : lens ≠ []) :
    (percentages size lens).getLast? = some (percentOf lens.sum size) := by
  induction lens using List.reverseRecOn with
  | nil => exact absurd rfl hlens
  | append_singleton lens n =>
    rw [percentages_concat, List.getLast?_append, getLast?_step, progressAfter_or hsize]

/-- A percentage is told only if it is higher than the last one: the bytes so far are no fewer, and
an equal one is left out. -/
theorem rising_percentages (lens : List Nat) : Rising (percentages size lens) := by
  induction lens using List.reverseRecOn with
  | nil => exact ⟨.nil, fun p hp => by cases hp⟩
  | append_singleton lens n ih =>
    rw [percentages_concat]
    unfold progressAfter
    rw [if_neg (Nat.ne_of_gt hsize)]
    dsimp only
    split
    · rwa [Option.toList_none, List.append_nil]
    · rename_i hnew
      refine ih.concat (percentOf_le _ _) ?_
      by_cases hlens : lens = []
      · rw [hlens]
        rfl
      rw [getLast?_percentages hsize hlens] at hnew ⊢
      have hle : percentOf lens.sum size ≤ percentOf (lens ++ [n]).sum size :=
        percentOf_mono size (by simp)
      simpa using UInt8.lt_of_le_of_ne hle fun he => hnew (congrArg some he)

end

/-! ## The same on words -/

/-- The sum of two words, if it is one. -/
def sumWord? (a b : UInt64) : Option UInt64 :=
  if a.toNat + b.toNat < UInt64.size then some (a + b) else none

/-- The product of two words, or the largest word if it is none. -/
def productWord (a b : UInt64) : UInt64 :=
  if a.toNat * b.toNat < UInt64.size then a * b else .ofNat (UInt64.size - 1)

/-- The quotient of two words, if there is one. -/
def quotientWord? (a b : UInt64) : Option UInt64 := if b = 0 then none else some (a / b)

/-- A word as a byte, if it is one. -/
def byteOfWord? (a : UInt64) : Option UInt8 :=
  if a.toNat < UInt8.size then some a.toUInt8 else none

/-- The percentage for `loaded` of `size` bytes. -/
def percentWord? (loaded size : UInt64) : Option UInt8 := do
  let quotient ← quotientWord? (productWord loaded 100) size
  byteOfWord? (min quotient 100)

/-- The percentages that pieces bring, all on words. -/
def percentWordsFrom? (size : UInt64) : UInt64 → Option UInt8 → List UInt64 → Option (List UInt8)
  | _, _, [] => some []
  | loaded, last, n :: lens => do
    let loaded ← sumWord? loaded n
    if size = 0 then percentWordsFrom? size loaded last lens
    else
      let p ← percentWord? loaded size
      if last = some p then percentWordsFrom? size loaded last lens
      else return p :: (← percentWordsFrom? size loaded (some p) lens)

def percentWords? (size : UInt64) (lens : List UInt64) : Option (List UInt8) :=
  percentWordsFrom? size 0 none lens

theorem toNat_productWord (a b : UInt64) :
    (productWord a b).toNat = min (a.toNat * b.toNat) countLimit := by
  have hlimit : countLimit = UInt64.size - 1 := rfl
  unfold productWord
  split
  · rename_i h
    rw [UInt64.toNat_mul, Nat.mod_eq_of_lt h]
    omega
  · rw [UInt64.toNat_ofNat_of_lt' (by decide)]
    omega

theorem sumWord?_eq {a b : UInt64} (h : a.toNat + b.toNat < UInt64.size) :
    sumWord? a b = some (a + b) ∧ (a + b).toNat = a.toNat + b.toNat := by
  refine ⟨if_pos h, ?_⟩
  rw [UInt64.toNat_add]
  exact Nat.mod_eq_of_lt h

/-- The percentage of words is the one of numbers: nothing is divided by zero or cut off. -/
theorem percentWord?_eq {size : UInt64} (hsize : size ≠ 0) (loaded : UInt64) :
    percentWord? loaded size = some (percentOf loaded.toNat size.toNat) := by
  have hmin (a : UInt64) : (min a 100).toNat = min a.toNat 100 := by
    have hle : a ≤ 100 ↔ a.toNat ≤ 100 := UInt64.le_iff_toNat_le
    show (if a ≤ 100 then a else 100).toNat = _
    split
    · rename_i h
      exact (Nat.min_eq_left (hle.1 h)).symm
    · rename_i h
      exact (Nat.min_eq_right (Nat.le_of_not_le fun h' => h (hle.2 h'))).symm
  have hbyte : (min (productWord loaded 100 / size) 100).toNat < UInt8.size := by
    rw [hmin]
    exact Nat.lt_of_le_of_lt (Nat.min_le_right _ _) (by decide)
  unfold percentWord? quotientWord?
  rw [if_neg hsize]
  show byteOfWord? (min (productWord loaded 100 / size) 100) = _
  unfold byteOfWord?
  rw [if_pos hbyte]
  refine congrArg some (UInt8.toNat_inj.1 ?_)
  rw [UInt64.toNat_toUInt8, Nat.mod_eq_of_lt hbyte, hmin, UInt64.toNat_div, toNat_productWord,
    toNat_percentOf]
  rfl

/-- No step on words fails, and each does what the step on numbers does. -/
theorem percentWordsFrom?_eq (size : UInt64) {loaded : UInt64} (last : Option UInt8)
    {lens : List UInt64} (h : loaded.toNat + (lens.map UInt64.toNat).sum < UInt64.size) :
    percentWordsFrom? size loaded last lens =
      some (percentagesFrom size.toNat loaded.toNat last (lens.map UInt64.toNat)) := by
  induction lens generalizing loaded last with
  | nil => rfl
  | cons n lens ih =>
    rw [List.map_cons, List.sum_cons, ← Nat.add_assoc] at h
    obtain ⟨hsum, htoNat⟩ := sumWord?_eq (Nat.lt_of_le_of_lt (Nat.le_add_right _ _) h)
    rw [← htoNat] at h
    rw [percentWordsFrom?, hsum, List.map_cons, percentagesFrom, ← htoNat, progressAfter]
    show (if size = 0 then _ else _) = _
    by_cases hsize : size = 0
    · have hzero : size.toNat = 0 := congrArg UInt64.toNat hsize
      rw [if_pos hsize, ih last h, if_pos hzero]
      rfl
    have hpos : size.toNat ≠ 0 := fun he => hsize (UInt64.toNat_inj.1 he)
    rw [if_neg hsize, if_neg hpos, percentWord?_eq hsize]
    show (if last = _ then _ else _) = _
    dsimp only
    split
    · rw [ih last h]
      rfl
    · rw [ih _ h]
      rfl

theorem map_toNat_ofNat {lens : List Nat} (h : lens.sum < UInt64.size) :
    (lens.map UInt64.ofNat).map UInt64.toNat = lens := by
  induction lens with
  | nil => rfl
  | cons n lens ih =>
    rw [List.sum_cons] at h
    rw [List.map_cons, List.map_cons, ih (by omega), UInt64.toNat_ofNat_of_lt' (by omega)]

/-- Words are enough: no sum of them is cut off. -/
theorem percentWords?_eq {size : Nat} {lens : List Nat} (hsize : size < UInt64.size)
    (hlens : lens.sum < UInt64.size) :
    percentWords? (.ofNat size) (lens.map .ofNat) = some (percentages size lens) := by
  have hback := map_toNat_ofNat hlens
  unfold percentWords?
  rw [percentWordsFrom?_eq, hback, UInt64.toNat_ofNat_of_lt' hsize]
  · rfl
  · rwa [hback, show (0 : UInt64).toNat = 0 from rfl, Nat.zero_add]

/-! ## What the percentages say -/

/-- The percentages follow the bytes of a body of an announced size, of which pieces of these
lengths are written. -/
structure Tracks (size : Nat) (lens : List Nat) : Prop where
  rising : Rising (percentages size lens)
  unknown : size = 0 → percentages size lens = []
  /-- Pieces that follow take nothing back. -/
  grows : ∀ k, percentages size (lens.take k) <+: percentages size lens
  /-- Behind each piece the last percentage is that of the bytes so far. What was told until then
  is what a transfer tells that stops there. -/
  each : 0 < size → ∀ k, 0 < k → k ≤ lens.length → 100 * (lens.take k).sum < 2 ^ 64 →
    (percentages size (lens.take k)).getLast?.map UInt8.toNat =
      some (min 100 (100 * (lens.take k).sum / size))
  whole : lens ≠ [] → lens.sum = size → 0 < 100 * size → 100 * size < 2 ^ 64 →
    (percentages size lens).getLast? = some 100
  /-- Words of sixty-four bits are enough. -/
  words : size < 2 ^ 64 → lens.sum < 2 ^ 64 →
    percentWords? (.ofNat size) (lens.map .ofNat) = some (percentages size lens)

theorem percentages_tracks (size : Nat) (lens : List Nat) : Tracks size lens where
  rising := by
    rcases Nat.eq_zero_or_pos size with rfl | hsize
    · rw [percentages_unknown]
      exact ⟨.nil, fun p hp => by cases hp⟩
    · exact rising_percentages hsize lens
  unknown hsize := by rw [hsize, percentages_unknown]
  grows k := by
    have hprefix := percentages_prefix size (lens.take k) (lens.drop k)
    rwa [List.take_append_drop] at hprefix
  each hsize k hk hle hlt := by
    have hne : lens.take k ≠ [] := fun he => by
      have hlength := congrArg List.length he
      rw [List.length_take, Nat.min_eq_left hle] at hlength
      exact Nat.ne_of_gt hk hlength
    rw [getLast?_percentages hsize hne, Option.map_some, percentOf_exact hlt]
  whole hlens hsum hpos hlt := by
    have hsize : 0 < size := Nat.pos_of_mul_pos_left hpos
    rw [getLast?_percentages hsize hlens, hsum]
    refine congrArg some (UInt8.toNat_inj.1 ?_)
    rw [percentOf_exact hlt, Nat.mul_div_cancel _ hsize]
    rfl
  words := percentWords?_eq

/-- A body that is longer than announced. -/
example : percentages 3 [2, 0, 1, 4] = [66, 100] := by decide

/-! ## What a transfer tells -/

section
variable (course : Course) (file : Path) (fs : FileSystem)

/-- The announced size of a body and its pieces that are written: as many as are reached. -/
inductive Receives : Nat → List Bytes → Prop
  | nothing : (∀ r, ¬ Reaches course file fs r 0) → Receives 0 []
  | pieces {r : Reply} {pieces : List Bytes} : Reaches course file fs r pieces.length →
      pieces <+: r.chunks →
      (pieces.length < r.chunks.length → ¬ Reaches course file fs r (pieces.length + 1)) →
        Receives r.size pieces

end

variable {course : Course} {file : Path} {fs s t : FileSystem} {r : Reply}

/-- The pieces behind those that are written bring the percentages of those among them that are
written as well. The file can be written again and again, wherever it is. -/
theorem loadBody_percentages {chunks before : List Bytes} (hr : r.chunks = before ++ chunks)
    (hreach : Reaches course file fs r before.length) (last : Option UInt8) {data : Bytes}
    (hwrite : s.write file data = .ok t) : ∃ more e u, Receives course file fs r.size
      (before ++ more) ∧ (loadBody course r file before.length before.flatten last chunks).run t =
        ((percentagesFrom r.size before.flatten.length last (more.map List.length), e), u) := by
  induction chunks generalizing before last s t data with
  | nil =>
    refine ⟨[], ?_⟩
    rw [List.append_nil] at hr ⊢
    have hall : Receives course file fs r.size before :=
      .pieces hreach (hr ▸ List.prefix_rfl) fun hlt => absurd hlt (hr ▸ Nat.lt_irrefl _)
    unfold loadBody
    split
    · exact ⟨_, _, hall, rfl⟩
    split
    · exact ⟨_, _, hall, rfl⟩
    split <;> exact ⟨_, _, hall, rfl⟩
  | cons chunk chunks ih =>
    have hstop (hno : ¬ Reaches course file fs r (before.length + 1)) :
        Receives course file fs r.size (before ++ []) := by
      rw [List.append_nil]
      exact .pieces hreach (hr ▸ List.prefix_append _ _) fun _ => hno
    by_cases hc : course.cancelledAt (before.length + 1) = true
    · refine ⟨[], .cancelled, t, hstop fun hnext => ?_, ?_⟩
      · rw [hnext.wanted _ (Nat.lt_succ_self _)] at hc
        cases hc
      · unfold loadBody
        rw [if_pos hc]
        rfl
    rw [Bool.not_eq_true] at hc
    by_cases hw : course.refuses (.write before.length) = true
    · refine ⟨[], _, t, hstop fun hnext => ?_, loadBody_refused hc hw⟩
      have hworks : course.refuses (.write before.length) = false :=
        hnext.writes _ (Nat.lt_succ_self _)
      rw [hworks] at hw
      cases hw
    rw [Bool.not_eq_true] at hw
    obtain ⟨u, hu⟩ := FileSystem.write_written hwrite (before.flatten ++ chunk)
    have hr' : r.chunks = before ++ [chunk] ++ chunks := by
      rw [hr, List.append_assoc]
      rfl
    have hnext : (before ++ [chunk]).length = before.length + 1 := by simp
    have hflatten : (before ++ [chunk]).flatten = before.flatten ++ chunk := by simp
    obtain ⟨more, e, v, hreceives, hrun⟩ := ih hr' (hnext ▸ hreach.succ hc hw)
      ((progressAfter (before.flatten ++ chunk).length r.size last).or last) hu
    rw [hnext, hflatten] at hrun
    refine ⟨chunk :: more, e, v, ?_, ?_⟩
    · rwa [List.append_assoc] at hreceives
    · rw [loadBody_written hc (attempt_write_ok hw hu)]
      dsimp only
      rw [hrun, List.map_cons, percentagesFrom, List.length_append]

theorem fetch_percentages (hmade : Works course file fs .makeDirectory) : ∃ size pieces e t,
    Receives course file fs size pieces ∧ (fetch course file).run (prepared file fs) =
      ((percentages size (pieces.map List.length), e), t) := by
  rcases fetch_begins hmade with ⟨e, -, -, hnothing, hrun⟩ | ⟨r, t, hreach, hwrite, hrun⟩
  · exact ⟨0, [], e, _, .nothing hnothing, hrun⟩
  · obtain ⟨pieces, e, u, hreceives, hbody⟩ :=
      loadBody_percentages (List.nil_append r.chunks).symm hreach none hwrite
    exact ⟨r.size, pieces, e, u, hreceives, hrun.trans hbody⟩

/-- Every transfer reports its start, the percentages of what it receives, and an end. -/
theorem run_percentages (course : Course) (dir : Path) (name : String) (fs : FileSystem) :
    ∃ size pieces o, Receives course (partialPath dir name) fs size pieces ∧
      o.isTerminal = true ∧ ((run course dir name).run fs).1 =
        .started :: (percentages size (pieces.map List.length)).map .progress ++ [o] := by
  have hload : ∃ size pieces e t, Receives course (partialPath dir name) fs size pieces ∧
      (load course (partialPath dir name)).run fs =
        ((percentages size (pieces.map List.length), e), t) := by
    rw [load_eq]
    have hnothing (hw : ¬ Works course (partialPath dir name) fs .makeDirectory) :
        Receives course (partialPath dir name) fs 0 [] :=
      .nothing fun r hreach => hw hreach.asks.works
    rcases makeDirectory_run course (partialPath dir name) fs with ⟨hw, hrun⟩ | ⟨hw, hrun | hrun⟩
    · rw [run_bind_of hrun]
      exact fetch_percentages hw
    · rw [run_bind_of hrun]
      exact ⟨0, [], _, _, hnothing hw, rfl⟩
    · rw [run_bind_of hrun]
      exact ⟨0, [], _, _, hnothing hw, rfl⟩
  obtain ⟨size, pieces, e, t, hreceives, hload⟩ := hload
  have hterminal := finish_isTerminal course dir name e t
  cases hfinish : (finish course dir name e).run t with
  | mk o u =>
    rw [hfinish] at hterminal
    rw [run_of_load hload hfinish]
    exact ⟨size, pieces, o, hreceives, hterminal, rfl⟩

end Transfer

/-! ## Sessions -/

/-- A percentage that is higher than those before and no more than a hundred passes as it is. -/
theorem Session.accept_higher {s : Session} {p : UInt8} (hphase : s.phase = .started)
    (hlow : s.percent.all (· < p) = true) (hle : p ≤ 100) :
    s.accept ⟨s.id, .progress p⟩ = ({ s with phase := .started, percent := some p },
      [.progress p]) := by
  have hmin : min p percentLimit = p := if_pos hle
  simp [accept, opening, hphase, hmin, hlow]

namespace Download

/-- A session that was told of the start lets rising percentages pass, and the end. -/
theorem calls_opened {d : Download} {ps : List UInt8} {o : DownloadOutcome}
    (hphase : d.session.phase = .started) (hrising : Rising ps)
    (hlow : ∀ p ∈ ps, d.session.percent.all (· < p) = true) (ho : o.isTerminal = true) :
    (d.calls ((ps.map DownloadOutcome.progress ++ [o]).map fun o =>
      .accept ⟨d.session.id, o⟩)).2 =
        (ps.map DownloadOutcome.progress ++ [o]).map fun o => .accepted [o] := by
  induction ps generalizing d with
  | nil =>
    have hend := Session.accept_final (r := ⟨d.session.id, o⟩) rfl (by rw [hphase]; decide) ho
    show [DownloadReply.accepted (d.session.accept ⟨d.session.id, o⟩).2] = [.accepted [o]]
    rw [hend, Session.opening, hphase]
    rfl
  | cons p ps ih =>
    obtain ⟨hpairwise, hle⟩ := hrising
    obtain ⟨hhigher, hpairwise⟩ := List.pairwise_cons.1 hpairwise
    have hpass := Session.accept_higher hphase (hlow p List.mem_cons_self)
      (hle p List.mem_cons_self)
    have hnext : (d.accept ⟨d.session.id, .progress p⟩).1.session =
        { d.session with phase := .started, percent := some p } := congrArg Prod.fst hpass
    have hrest := ih (d := (d.accept ⟨d.session.id, .progress p⟩).1) (by rw [hnext])
      ⟨hpairwise, fun q hq => hle q (List.mem_cons_of_mem p hq)⟩
      fun q hq => by simpa [hnext] using hhigher q hq
    rw [hnext] at hrest
    show DownloadReply.accepted (d.session.accept ⟨d.session.id, .progress p⟩).2 :: _ = _
    rw [hpass]
    exact congrArg (DownloadReply.accepted [.progress p] :: ·) hrest

/-- A new session lets the start pass, rising percentages and the end. -/
theorem calls_rising (id handle : Nat) {ps : List UInt8} {o : DownloadOutcome} (hrising : Rising ps)
    (ho : o.isTerminal = true) {reports : List DownloadOutcome}
    (hreports : reports = .started :: ps.map .progress ++ [o]) :
    ((new id).calls (.start handle :: reports.map fun o => .accept ⟨id, o⟩)).2 =
      .began handle :: reports.map fun o => .accepted [o] := by
  subst hreports
  have hpass : (Session.new id).start.accept ⟨id, .started⟩ =
      ({ (Session.new id).start with phase := .started }, [.started]) := by
    simp [Session.accept, Session.opening, Session.start, Session.new]
  let d := (((new id).start handle).accept ⟨id, .started⟩).1
  have hsession : d.session = { (Session.new id).start with phase := .started } :=
    congrArg Prod.fst hpass
  have hrest := calls_opened (d := d) (by rw [hsession]) hrising
    (fun p _ => by rw [hsession]; rfl) ho
  rw [hsession] at hrest
  show DownloadReply.began handle ::
    .accepted ((Session.new id).start.accept ⟨id, .started⟩).2 :: _ = _
  rw [hpass]
  exact congrArg (DownloadReply.began handle :: DownloadReply.accepted [.started] :: ·) hrest

end Download

/-- Every transfer reports its start, percentages that track the pieces which are written, and an
end; a session lets all of it pass, each report as it is. -/
theorem Transfer.run_progress (course : Course) (dir : Path) (name : String) (fs : FileSystem)
    (id handle : Nat) : ∃ (size : Nat) (pieces : List Bytes) (o : DownloadOutcome),
      let reports := DownloadOutcome.started ::
        (percentages size (pieces.map List.length)).map .progress ++ [o]
      ((run course dir name).run fs).1 = reports ∧ o.isTerminal = true ∧
        Receives course (partialPath dir name) fs size pieces ∧
        Tracks size (pieces.map List.length) ∧
        ((Download.new id).calls (.start handle :: reports.map fun o => .accept ⟨id, o⟩)).2 =
          .began handle :: reports.map fun o => .accepted [o] := by
  obtain ⟨size, pieces, o, hreceives, ho, hrun⟩ := run_percentages course dir name fs
  have htracks := percentages_tracks size (pieces.map List.length)
  exact ⟨size, pieces, o, hrun, ho, hreceives, htracks,
    Download.calls_rising id handle htracks.rising ho rfl⟩

end SharedRuntime
