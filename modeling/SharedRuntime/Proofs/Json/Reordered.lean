import Mathlib.Data.List.Permutation
import SharedRuntime.Proofs.Json.Tagged

/-!
# Members in another order

The order of the members of an object carries no meaning. A value that is `Reordered` can be written
and kept as before (`Reordered.sound`, `Reordered.isKeepable`), and a tagged union reads the same
from it, whether the tag or the content comes first (`tagged?_reordered`).

`Recovers` says of a way to write and a way to read that nothing is lost between the two.
-/

set_option autoImplicit false

namespace SharedRuntime.Json

mutual

/-- The second value is the first, but for the order of the members in its objects. -/
def Reordered : Json → Json → Prop
  | .arr vs, k => ∃ ws, k = .arr ws ∧ ReorderedItems vs ws
  | .obj ms, k => ∃ same ns, k = .obj ns ∧ ReorderedMembers ms same ∧ same.Perm ns
  | .null, k => k = .null
  | .bool b, k => k = .bool b
  | .num lexeme, k => k = .num lexeme
  | .str s, k => k = .str s

/-- Item by item. -/
def ReorderedItems : List Json → List Json → Prop
  | [], ws => ws = []
  | v :: vs, ws => ∃ w rest, ws = w :: rest ∧ Reordered v w ∧ ReorderedItems vs rest

/-- Member by member, each under the same key. -/
def ReorderedMembers : List (Option String × Json) → List (Option String × Json) → Prop
  | [], ns => ns = []
  | (key, v) :: ms, ns => ∃ w rest, ns = (key, w) :: rest ∧ Reordered v w ∧ ReorderedMembers ms rest

end

mutual

theorem Reordered.refl : ∀ j, Reordered j j
  | .null | .bool _ | .num _ | .str _ => rfl
  | .arr vs => ⟨vs, rfl, ReorderedItems.refl vs⟩
  | .obj ms => ⟨ms, ms, rfl, ReorderedMembers.refl ms, .refl ms⟩

theorem ReorderedItems.refl : ∀ vs, ReorderedItems vs vs
  | [] => rfl
  | v :: vs => ⟨v, vs, rfl, Reordered.refl v, ReorderedItems.refl vs⟩

theorem ReorderedMembers.refl : ∀ ms, ReorderedMembers ms ms
  | [] => rfl
  | (_, v) :: ms => ⟨v, ms, rfl, Reordered.refl v, ReorderedMembers.refl ms⟩

end

/-! ## What can be written and kept -/

theorem soundMembers_iff {ms : List (Option String × Json)} :
    SoundMembers ms ↔ ∀ m ∈ ms, m.1.isSome = true ∧ Sound m.2 := by
  induction ms with
  | nil => simp [SoundMembers]
  | cons m ms ih => rw [SoundMembers, ih, List.forall_mem_cons, and_assoc]

theorem membersKeepable_iff {room : Nat} {ms : List (Option String × Json)} :
    membersKeepable room ms = true ↔
      ∀ m ∈ ms, m.1.isSome = true ∧ isKeepable room m.2 = true := by
  induction ms with
  | nil => simp [membersKeepable]
  | cons m ms ih =>
    rw [membersKeepable, Bool.and_eq_true, Bool.and_eq_true, ih, List.forall_mem_cons]

mutual

theorem Reordered.sound : ∀ {j k : Json}, j.Reordered k → j.Sound → k.Sound
  | .null, _, rfl, h | .bool _, _, rfl, h | .num _, _, rfl, h | .str _, _, rfl, h => h
  | .arr _, _, ⟨_, rfl, hitems⟩, h => ReorderedItems.sound hitems h
  | .obj _, _, ⟨_, _, rfl, hmembers, hperm⟩, h => by
    have hsame := soundMembers_iff.1 (ReorderedMembers.sound hmembers h)
    exact soundMembers_iff.2 fun m hm => hsame m (hperm.mem_iff.2 hm)

theorem ReorderedItems.sound : ∀ {vs ws : List Json}, ReorderedItems vs ws →
    SoundItems vs → SoundItems ws
  | [], _, rfl, h => h
  | _ :: _, _, ⟨_, _, rfl, hv, hvs⟩, ⟨h, hs⟩ =>
    ⟨Reordered.sound hv h, ReorderedItems.sound hvs hs⟩

theorem ReorderedMembers.sound : ∀ {ms ns : List (Option String × Json)}, ReorderedMembers ms ns →
    SoundMembers ms → SoundMembers ns
  | [], _, rfl, h => h
  | (_, _) :: _, _, ⟨_, _, rfl, hv, hms⟩, ⟨hkey, h, hs⟩ =>
    ⟨hkey, Reordered.sound hv h, ReorderedMembers.sound hms hs⟩

end

mutual

theorem Reordered.isKeepable : ∀ {j k : Json} {room : Nat}, j.Reordered k →
    Json.isKeepable room j = true → Json.isKeepable room k = true
  | .null, _, _, rfl, h | .bool _, _, _, rfl, h | .num _, _, _, rfl, h | .str _, _, _, rfl, h => h
  | .arr _, _, _, ⟨_, rfl, hitems⟩, h => by
    rw [Json.isKeepable, Bool.and_eq_true] at h ⊢
    exact ⟨h.1, ReorderedItems.areKeepable hitems h.2⟩
  | .obj _, _, _, ⟨_, _, rfl, hmembers, hperm⟩, h => by
    rw [Json.isKeepable, Bool.and_eq_true] at h ⊢
    have hsame := membersKeepable_iff.1 (ReorderedMembers.membersKeepable hmembers h.2)
    exact ⟨h.1, membersKeepable_iff.2 fun m hm => hsame m (hperm.mem_iff.2 hm)⟩

theorem ReorderedItems.areKeepable : ∀ {vs ws : List Json} {room : Nat}, ReorderedItems vs ws →
    Json.areKeepable room vs = true → Json.areKeepable room ws = true
  | [], _, _, rfl, h => h
  | _ :: _, _, _, ⟨_, _, rfl, hv, hvs⟩, h => by
    rw [Json.areKeepable, Bool.and_eq_true] at h ⊢
    exact ⟨Reordered.isKeepable hv h.1, ReorderedItems.areKeepable hvs h.2⟩

theorem ReorderedMembers.membersKeepable : ∀ {ms ns : List (Option String × Json)} {room : Nat},
    ReorderedMembers ms ns → Json.membersKeepable room ms = true →
      Json.membersKeepable room ns = true
  | [], _, _, rfl, h => h
  | (_, _) :: _, _, _, ⟨_, _, rfl, hv, hms⟩, h => by
    rw [Json.membersKeepable, Bool.and_eq_true, Bool.and_eq_true] at h ⊢
    exact ⟨⟨h.1.1, Reordered.isKeepable hv h.1.2⟩, ReorderedMembers.membersKeepable hms h.2⟩

end

/-! ## Numbers that can be kept -/

theorem le_foldl_decimal (cs : List Char) (n : Nat) :
    n ≤ cs.foldl (fun n c => 10 * n + decimalValue c) n := by
  induction cs generalizing n with
  | nil => exact Nat.le_refl n
  | cons c cs ih => exact Nat.le_trans (by omega) (ih (10 * n + decimalValue c))

/-- Digits are added while their number stays within the limit. -/
theorem addDigits_all {m count : Nat} {cs : List Char}
    (h : cs.foldl (fun n c => 10 * n + decimalValue c) m ≤ significandLimit) :
    (addDigits m count cs).2 = count + cs.length := by
  induction cs generalizing m count with
  | nil => rfl
  | cons c cs ih =>
    have hone : decimalNumber [c] = decimalValue c := Nat.zero_add _
    have hnext : 10 * m + decimalValue c ≤ significandLimit :=
      Nat.le_trans (le_foldl_decimal cs _) h
    rw [addDigits, hone]
    rw [if_neg (Nat.not_lt.2 hnext), ih h, List.length_cons]
    omega

/-- A natural number of sixty-four bits can be kept. -/
theorem isKeepable_nat {n : Nat} (h : n ≤ significandLimit) (room : Nat) :
    isKeepable room (nat n) = true := by
  have hall : ∀ c ∈ Nat.toDigits 10 n, isDecimal c = true := fun c => isDecimal_of_mem_toDigits
  have htake : (Nat.toDigits 10 n).takeWhile isDecimal = Nat.toDigits 10 n :=
    List.takeWhile_eq_self_iff.2 hall
  have hdrop : (Nat.toDigits 10 n).dropWhile isDecimal = [] := List.dropWhile_eq_nil_iff.2 hall
  have hvalue : decimalNumber (Nat.toDigits 10 n) ≤ significandLimit := by
    rw [decimalNumber_toDigits]
    exact h
  have hadded : (addDigits 0 0 (Nat.toDigits 10 n)).2 = (Nat.toDigits 10 n).length := by
    rw [addDigits_all hvalue, Nat.zero_add]
  have hexponent : (decimalParts (Nat.toDigits 10 n)).2 ≤ 0 := by
    simp [decimalParts, htake, hdrop, hadded, addDigits, exponentOf]
  have hsign : ∀ rest, Nat.toDigits 10 n ≠ '-' :: rest := by
    intro rest heq
    cases hall '-' (by rw [heq]; exact List.mem_cons_self)
  show fitsDouble (toString n) = true
  unfold fitsDouble
  rw [toList_toString]
  dsimp only
  split
  · rename_i rest heq
    exact absurd heq (hsign rest)
  · simp [hexponent]

/-! ## Tagged unions -/

section
variable {a b : String} {x y k : Json}

theorem Reordered.single (h : (object [(a, x)]).Reordered k) :
    ∃ x', x.Reordered x' ∧ k = object [(a, x')] := by
  obtain ⟨_, _, rfl, ⟨x', _, rfl, hx, rfl⟩, hperm⟩ := h
  obtain rfl := List.singleton_perm.1 hperm
  exact ⟨x', hx, rfl⟩

/-- Two members stand in either order. -/
theorem Reordered.pair (h : (object [(a, x), (b, y)]).Reordered k) :
    ∃ x' y', x.Reordered x' ∧ y.Reordered y' ∧
      (k = object [(a, x'), (b, y')] ∨ k = object [(b, y'), (a, x')]) := by
  obtain ⟨_, _, rfl, ⟨x', _, rfl, hx, y', _, rfl, hy, rfl⟩, hperm⟩ := h
  refine ⟨x', y', hx, hy, ?_⟩
  rcases List.pair_perm.1 hperm with rfl | rfl
  · exact .inl rfl
  · exact .inr rfl

theorem Reordered.turned {x' y' : Json} (hx : x.Reordered x') (hy : y.Reordered y') :
    (object [(a, x), (b, y)]).Reordered (object [(b, y'), (a, x')]) :=
  ⟨_, _, rfl, ⟨x', _, rfl, hx, y', _, rfl, hy, rfl⟩, .swap _ _ []⟩

end

section
variable {α : Type} {p : Place} {tag content name : String} {variants : Variants α}

/-- Content that can be kept may come before its tag. -/
theorem tagged?_contentFirst {f : Place → Json → Option α} {j : Json}
    (h : variants.lookup name = some (.holds f)) (hne : tag ≠ content)
    (hkeep : isKeepable (nestingLimit - p.level - 1) j = true) :
    tagged? p tag content variants (.object [(content, j), (tag, .text name)]) =
      f (p.content true) j := by
  have hbeq : (content == tag) = false := beq_false_of_ne hne.symm
  simp [tagged?, object, text, single?, namedVariant?, standsBefore, h, hne, hbeq, hkeep,
    Content.read?]

theorem tagged?_reordered (p : Place) (variants : Variants α) {f : Place → Json → Option α}
    {j k : Json} (h : variants.lookup name = some (.holds f)) (hne : tag ≠ content)
    (hkeep : isKeepable (nestingLimit - p.level - 1) j = true)
    (hk : (object [(tag, text name), (content, j)]).Reordered k) :
    ∃ j' kept, j.Reordered j' ∧ tagged? p tag content variants k = f (p.content kept) j' := by
  obtain ⟨_, j', rfl, hj, rfl | rfl⟩ := hk.pair
  · exact ⟨j', false, hj, tagged?_holds h hne⟩
  · exact ⟨j', true, hj, tagged?_contentFirst h hne (hj.isKeepable hkeep)⟩

theorem tagged?_unit_reordered {a : α} {k : Json} (h : variants.lookup name = some (.unit a))
    (hne : tag ≠ content) (hk : (object [(tag, text name)]).Reordered k) :
    tagged? p tag content variants k = some a := by
  obtain ⟨_, rfl, rfl⟩ := hk.single
  exact tagged?_unit h hne

end

/-! ## Values that are recovered -/

/-- What is written of a value reads as that value, also once members have changed places, and tells
it from every other. -/
structure Recovers {α : Type} (write : α → Json) (read? : Json → Option α) : Prop where
  reads : ∀ a j, (write a).Reordered j → (parse? j.compact).bind read? = some a
  injective : Function.Injective fun a => (write a).compact

theorem Recovers.of_reads {α : Type} {write : α → Json} {read? : Json → Option α}
    (hsound : ∀ a, (write a).Sound) (hread : ∀ a j, (write a).Reordered j → read? j = some a) :
    Recovers write read? := by
  have hreads : ∀ a j, (write a).Reordered j → (parse? j.compact).bind read? = some a := by
    intro a j hj
    rw [parse?_compact (hj.sound (hsound a))]
    exact hread a j hj
  refine ⟨hreads, fun a b heq => ?_⟩
  have ha := hreads a _ (.refl _)
  rw [show (write a).compact = (write b).compact from heq, hreads b _ (.refl _)] at ha
  exact (Option.some.inj ha).symm

end SharedRuntime.Json
