import SharedRuntime.Proofs.Text.Decimal
import SharedRuntime.Time.Rfc3339

/-!
# Timestamps read back

A timestamp that is a point in time (`Instant.IsValid`) is read back from its text
(`Instant.parse?_text`). Each part is read back in front of anything that does not go on with it.
Whatever is read as a timestamp is a point in time (`Instant.parse?_isValid`).
-/

set_option autoImplicit false

namespace SharedRuntime

theorem Date.daysIn_le (y : Int) (m : Nat) : daysIn y m ≤ 31 := by
  unfold daysIn
  split
  · split <;> decide
  · split <;> decide

theorem Date.bounds_of_isValid {d : Date} (h : d.isValid = true) :
    (1 ≤ d.month ∧ d.month ≤ 12) ∧ 1 ≤ d.day ∧ d.day ≤ 31 := by
  simp only [isValid, Bool.and_eq_true, decide_eq_true_eq] at h
  obtain ⟨⟨⟨⟨-, hlow⟩, hhigh⟩, hday⟩, hdays⟩ := h
  exact ⟨⟨hlow, hhigh⟩, hday, Nat.le_trans hdays (daysIn_le _ _)⟩

namespace Instant

/-- The instant is a time of a day of the calendar. -/
structure IsValid (t : Instant) : Prop where
  date : t.date.isValid = true
  hour : t.hour ≤ 23
  minute : t.minute ≤ 59
  second : t.second ≤ 60
  nano : t.nano < 1000000000

/-! ## Numbers and separators -/

theorem trimStartChars_cons {c : Char} (h : isBlank c = false) (cs : List Char) :
    trimStartChars (c :: cs) = c :: cs := by
  unfold trimStartChars
  rw [List.dropWhile_cons, h]
  rfl

theorem trimStartChars_padded (width n : Nat) (rest : List Char) :
    trimStartChars ((paddedDecimal width n).toList ++ rest) =
      (paddedDecimal width n).toList ++ rest := by
  have hdigits := isDecimal_of_mem_paddedDecimal width n
  have hne := isEmpty_paddedDecimal width n
  cases hp : (paddedDecimal width n).toList with
  | nil => simp [hp] at hne
  | cons d ds =>
    rw [hp] at hdigits
    exact trimStartChars_cons (isBlank_of_isDecimal (hdigits d List.mem_cons_self)) _

section
variable {width n : Nat} (rest : List Char)

theorem number?_padded (hw : 0 < width) (h : n < 10 ^ width) :
    number? width ((paddedDecimal width n).toList ++ rest) = some (n, rest) := by
  have hlen := length_paddedDecimal hw h
  have htake : (((paddedDecimal width n).toList ++ rest).take width).takeWhile isDecimal =
      (paddedDecimal width n).toList := by
    rw [List.take_append_of_le_length (by omega), List.take_of_length_le (by omega)]
    simpa using takeWhile_isDecimal_append (isDecimal_of_mem_paddedDecimal width n)
      (List.takeWhile_nil (p := isDecimal))
  unfold number?
  rw [trimStartChars_padded]
  dsimp only
  rw [htake, isEmpty_paddedDecimal, if_neg Bool.false_ne_true, decimalNumber_paddedDecimal,
    List.drop_left]

theorem bounded?_padded {low high : Nat} (hlow : low ≤ n) (hhigh : n ≤ high) (h : high < 100) :
    bounded? low high ((paddedDecimal 2 n).toList ++ rest) = some (n, rest) := by
  unfold bounded?
  rw [number?_padded rest (by decide) (by omega)]
  simp [hlow, hhigh]

theorem separator?_cons {c : Char} (h : isBlank c = false) :
    separator? c (c :: rest) = some rest := by
  unfold separator?
  rw [trimStartChars_cons h]
  exact if_pos rfl

end

/-! ## The parts of a timestamp -/

theorem takeWhile_padded {width n : Nat} {c : Char} (h : isDecimal c = false) (rest : List Char) :
    ((paddedDecimal width n).toList ++ c :: rest).takeWhile isDecimal =
      (paddedDecimal width n).toList :=
  takeWhile_isDecimal_append (isDecimal_of_mem_paddedDecimal width n)
    (List.takeWhile_cons_of_neg (by simp [h]))

section
variable (n : Nat) (rest : List Char)

theorem year?_minus : year? ('-' :: ((paddedDecimal 4 n).toList ++ '-' :: rest)) =
    some (-(n : Int), '-' :: rest) := by
  simp only [year?, trimStartChars_cons (show isBlank '-' = false by decide),
    takeWhile_padded (show isDecimal '-' = false by decide), isEmpty_paddedDecimal,
    Bool.false_eq_true, if_false, decimalNumber_paddedDecimal, List.drop_left]

theorem year?_plus : year? ('+' :: ((paddedDecimal 4 n).toList ++ '-' :: rest)) =
    some ((n : Int), '-' :: rest) := by
  simp only [year?, trimStartChars_cons (show isBlank '+' = false by decide),
    takeWhile_padded (show isDecimal '-' = false by decide), isEmpty_paddedDecimal,
    Bool.false_eq_true, if_false, decimalNumber_paddedDecimal, List.drop_left]

/-- Four digits are a year. -/
theorem year?_digits {n : Nat} (h : n < 10000) :
    year? ((paddedDecimal 4 n).toList ++ rest) = some ((n : Int), rest) := by
  have hnumber : number? 4 ((paddedDecimal 4 n).toList ++ rest) = some (n, rest) :=
    number?_padded rest (by decide) h
  have hdigits := isDecimal_of_mem_paddedDecimal 4 n
  have hne := isEmpty_paddedDecimal 4 n
  unfold year?
  rw [trimStartChars_padded]
  cases hp : (paddedDecimal 4 n).toList with
  | nil => simp [hp] at hne
  | cons d ds =>
    rw [hp] at hdigits hnumber
    have hd := hdigits d List.mem_cons_self
    rw [List.cons_append] at hnumber ⊢
    split
    · rename_i heq
      cases heq
      cases hd
    · rename_i heq
      cases heq
      cases hd
    · rw [hnumber]
      rfl

end

/-- A year is read up to the hyphen behind it. -/
theorem year?_text (y : Int) (rest : List Char) :
    year? ((Date.yearText y).toList ++ '-' :: rest) = some (y, '-' :: rest) := by
  unfold Date.yearText
  split
  · rename_i hy
    simp only [Bool.and_eq_true, decide_eq_true_eq] at hy
    rw [year?_digits _ (by omega), Int.toNat_of_nonneg hy.1]
  · split
    · have hyear : -(y.natAbs : Int) = y := by omega
      simp only [String.toList_append, String.reduceToList, List.cons_append, List.nil_append]
      rw [year?_minus, hyear]
    · have hyear : (y.natAbs : Int) = y := by omega
      simp only [String.toList_append, String.reduceToList, List.cons_append, List.nil_append]
      rw [year?_plus, hyear]

theorem nanos?_text {nano : Nat} (h : nano < 1000000000) (rest : List Char) :
    nanos? ((fractionText nano).toList ++ 'Z' :: rest) = some (nano, 'Z' :: rest) := by
  have hpoint (width n : Nat) (hw : 0 < width) (hw' : width ≤ 9) (hn : n < 10 ^ width) :
      nanos? (("." ++ paddedDecimal width n).toList ++ 'Z' :: rest) =
        some (n * 10 ^ (9 - width), 'Z' :: rest) := by
    simp only [String.toList_append, String.reduceToList, List.cons_append, List.nil_append,
      nanos?, takeWhile_padded (show isDecimal 'Z' = false by decide), isEmpty_paddedDecimal,
      Bool.false_eq_true, if_false, List.drop_left]
    rw [List.take_of_length_le (by rw [length_paddedDecimal hw hn]; exact hw'),
      decimalNumber_paddedDecimal, length_paddedDecimal hw hn]
    rfl
  unfold fractionText
  split
  · subst nano
    rfl
  · split
    · rw [hpoint 3 _ (by decide) (by decide) (by omega)]
      congr 2
      omega
    · split
      · rw [hpoint 6 _ (by decide) (by decide) (by omega)]
        congr 2
        omega
      · rw [hpoint 9 _ (by decide) (by decide) h]
        congr 2
        omega

theorem shift_zero {t : Instant} (h : t.IsValid) : shift 0 t = some t := by
  have hlow : ¬ ((t.hour * 60 + t.minute : Nat) : Int) + 0 < 0 := by omega
  have hhigh : ¬ 1440 ≤ ((t.hour * 60 + t.minute : Nat) : Int) + 0 := by
    have := h.hour
    have := h.minute
    omega
  have hin : (((t.hour * 60 + t.minute : Nat) : Int) + 0).toNat = t.hour * 60 + t.minute := by
    omega
  have hhour : (t.hour * 60 + t.minute) / 60 = t.hour := by
    have := h.minute
    omega
  have hminute : (t.hour * 60 + t.minute) % 60 = t.minute := by
    have := h.minute
    omega
  simp only [shift, if_neg hlow, if_neg hhigh, hin, hhour, hminute, h.date, if_true]

theorem toList_text (t : Instant) : t.text.toList =
    (Date.yearText t.date.year).toList ++ '-' :: ((paddedDecimal 2 t.date.month).toList ++ '-' ::
      ((paddedDecimal 2 t.date.day).toList ++ 'T' :: ((paddedDecimal 2 t.hour).toList ++ ':' ::
        ((paddedDecimal 2 t.minute).toList ++ ':' :: ((paddedDecimal 2 t.second).toList ++
          ((fractionText t.nano).toList ++ 'Z' :: [])))))) := by
  simp only [text, textWith, String.toList_append, List.append_assoc, String.reduceToList,
    List.cons_append, List.nil_append]

/-- A timestamp is read back from its text, part by part. -/
theorem parse?_text {t : Instant} (h : t.IsValid) : parse? t.text = some t := by
  obtain ⟨hmonth, hday⟩ := Date.bounds_of_isValid h.date
  have hdash : isBlank '-' = false := by decide
  have hcolon : isBlank ':' = false := by decide
  have hzone : zone? ['Z'] = some (0, []) := by decide
  unfold parse? parseChars?
  rw [toList_text]
  dsimp only [Option.bind_eq_bind]
  refine Option.bind_eq_some_iff.2 ⟨_, year?_text _ _, ?_⟩
  refine Option.bind_eq_some_iff.2 ⟨_, separator?_cons _ hdash, ?_⟩
  refine Option.bind_eq_some_iff.2 ⟨_, bounded?_padded _ hmonth.1 hmonth.2 (by decide), ?_⟩
  refine Option.bind_eq_some_iff.2 ⟨_, separator?_cons _ hdash, ?_⟩
  refine Option.bind_eq_some_iff.2 ⟨_, bounded?_padded _ hday.1 hday.2 (by decide), ?_⟩
  dsimp only
  rw [if_pos (by decide), Option.bind_some]
  refine Option.bind_eq_some_iff.2 ⟨_, bounded?_padded _ (Nat.zero_le _) h.hour (by decide), ?_⟩
  refine Option.bind_eq_some_iff.2 ⟨_, separator?_cons _ hcolon, ?_⟩
  refine Option.bind_eq_some_iff.2 ⟨_, bounded?_padded _ (Nat.zero_le _) h.minute (by decide), ?_⟩
  refine Option.bind_eq_some_iff.2 ⟨_, separator?_cons _ hcolon, ?_⟩
  refine Option.bind_eq_some_iff.2 ⟨_, bounded?_padded _ (Nat.zero_le _) h.second (by decide), ?_⟩
  refine Option.bind_eq_some_iff.2 ⟨_, nanos?_text h.nano _, ?_⟩
  refine Option.bind_eq_some_iff.2 ⟨_, hzone, ?_⟩
  simp [trimStartChars, h.date, shift_zero h]

example : parse? "2024-02-29T23:59:60.5Z" = some ⟨⟨2024, 2, 29⟩, 23, 59, 60, 500000000⟩ := by
  decide +kernel

/-! ## Timestamps that were read -/

theorem bounded?_le {low high n : Nat} {cs rest : List Char}
    (h : bounded? low high cs = some (n, rest)) : n ≤ high := by
  obtain ⟨⟨m, tail⟩, -, hm⟩ := Option.bind_eq_some_iff.1 h
  dsimp only at hm
  split at hm
  · rename_i hbounds
    cases hm
    exact (by simpa using hbounds : low ≤ n ∧ n ≤ high).2
  · cases hm

theorem nanos?_lt {cs rest : List Char} {n : Nat} (h : nanos? cs = some (n, rest)) :
    n < 1000000000 := by
  unfold nanos? at h
  split at h
  · rename_i digits
    dsimp only at h
    split at h
    · cases h
    · cases h
      have hkept : ∀ c ∈ (digits.takeWhile isDecimal).take 9, isDecimal c = true :=
        fun c hc => List.all_eq_true.1 List.all_takeWhile c (List.mem_of_mem_take hc)
      have hlen : ((digits.takeWhile isDecimal).take 9).length ≤ 9 := List.length_take_le 9 _
      generalize (digits.takeWhile isDecimal).take 9 = kept at hkept hlen
      calc decimalNumber kept * 10 ^ (9 - kept.length)
          < 10 ^ kept.length * 10 ^ (9 - kept.length) :=
            Nat.mul_lt_mul_of_pos_right (decimalNumber_lt hkept) (Nat.pow_pos (by decide))
        _ = 10 ^ 9 := by rw [← Nat.pow_add, Nat.add_sub_cancel' hlen]
  · cases h
    decide

/-- An instant that was shifted is a point in time if its seconds were. -/
theorem shift_isValid {minutes : Int} {s t : Instant} (h : shift minutes s = some t)
    (hhour : s.hour ≤ 23) (hminute : s.minute ≤ 59) (hahead : minutes.natAbs < 1440)
    (hsecond : s.second ≤ 60) (hnano : s.nano < 1000000000) : t.IsValid := by
  unfold shift at h
  dsimp only at h
  generalize hmoved : (if ((s.hour * 60 + s.minute : Nat) : Int) + minutes < 0 then
      (s.date.previous, ((s.hour * 60 + s.minute : Nat) : Int) + minutes + 1440)
    else if 1440 ≤ ((s.hour * 60 + s.minute : Nat) : Int) + minutes then
      (s.date.next, ((s.hour * 60 + s.minute : Nat) : Int) + minutes - 1440)
    else (s.date, ((s.hour * 60 + s.minute : Nat) : Int) + minutes)) = moved at h
  have hday : moved.2.toNat < 1440 := by
    rw [← hmoved]
    split
    · dsimp only
      omega
    · split
      · dsimp only
        omega
      · dsimp only
        omega
  split at h
  · rename_i hdate
    cases h
    exact ⟨hdate, by dsimp only; omega, by dsimp only; omega, hsecond, hnano⟩
  · cases h

/-- What is read as a timestamp is a point in time. -/
theorem parse?_isValid {s : String} {t : Instant} (h : parse? s = some t) : t.IsValid := by
  unfold parse? parseChars? at h
  obtain ⟨⟨year, _⟩, -, h⟩ := Option.bind_eq_some_iff.1 h
  obtain ⟨_, -, h⟩ := Option.bind_eq_some_iff.1 h
  obtain ⟨⟨month, _⟩, -, h⟩ := Option.bind_eq_some_iff.1 h
  obtain ⟨_, -, h⟩ := Option.bind_eq_some_iff.1 h
  obtain ⟨⟨day, afterDay⟩, -, h⟩ := Option.bind_eq_some_iff.1 h
  cases afterDay with
  | nil => cases h
  | cons c _ =>
    dsimp only at h
    split at h
    · -- The time of day and the offset.
      obtain ⟨_, -, h⟩ := Option.bind_eq_some_iff.1 h
      obtain ⟨⟨hour, _⟩, hhour, h⟩ := Option.bind_eq_some_iff.1 h
      obtain ⟨_, -, h⟩ := Option.bind_eq_some_iff.1 h
      obtain ⟨⟨minute, _⟩, hminute, h⟩ := Option.bind_eq_some_iff.1 h
      obtain ⟨_, -, h⟩ := Option.bind_eq_some_iff.1 h
      obtain ⟨⟨second, _⟩, hsecond, h⟩ := Option.bind_eq_some_iff.1 h
      obtain ⟨⟨nano, _⟩, hnano, h⟩ := Option.bind_eq_some_iff.1 h
      obtain ⟨⟨ahead, rest⟩, -, h⟩ := Option.bind_eq_some_iff.1 h
      dsimp only at h
      split at h
      · cases h
      · split at h
        · cases h
        · rename_i hahead
          simp only [Bool.or_eq_true, decide_eq_true_eq, not_or, Nat.not_le] at hahead
          exact shift_isValid h (bounded?_le hhour) (bounded?_le hminute)
            (by rw [Int.natAbs_neg]; exact hahead.2) (bounded?_le hsecond) (nanos?_lt hnano)
    · cases h

end Instant

end SharedRuntime
