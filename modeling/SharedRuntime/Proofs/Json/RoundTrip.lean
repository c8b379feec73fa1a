import SharedRuntime.Proofs.Json.Lexemes

/-!
# Values read back

Both ways of writing a value are a `Layout`: they differ in the blanks between its parts alone. A
sound value, whose numbers and texts can be written, is read back from every layout (`parse?_text`),
so `parse?` undoes `compact` and `pretty`.

The reader goes from where a value starts to where it has ended in as many steps as the value has
characters at most (`Layout.leads_chars`), so its fuel lasts.
-/

set_option autoImplicit false

namespace SharedRuntime.Json

/-! ## Blanks -/

/-- The characters are blanks. -/
def Blank (cs : List Char) : Prop := ∀ c ∈ cs, isSpace c = true

theorem Blank.nil : Blank [] := fun _ h => absurd h List.not_mem_nil

theorem Blank.newLine (depth : Nat) : Blank (newLine depth) := by
  intro c hc
  rcases List.mem_cons.1 hc with rfl | hc
  · rfl
  · rw [List.eq_of_mem_replicate hc]
    rfl

theorem skipSpace_cons {c : Char} (h : isSpace c = false) (cs : List Char) :
    skipSpace (c :: cs) = c :: cs := by
  unfold skipSpace
  rw [List.dropWhile_cons, h]
  rfl

theorem Blank.skipSpace_append {bs : List Char} (h : Blank bs) {c : Char} (hc : isSpace c = false)
    (cs : List Char) : skipSpace (bs ++ c :: cs) = c :: cs := by
  induction bs with
  | nil => exact skipSpace_cons hc cs
  | cons b bs ih =>
    obtain ⟨hb, hbs⟩ := List.forall_mem_cons.1 h
    unfold skipSpace
    rw [List.cons_append, List.dropWhile_cons, hb]
    exact ih hbs

theorem Ends.nil : Ends [] := fun _ h => by cases h

theorem Ends.cons {c : Char} (h : isDecimal c = false ∧ c ≠ '.' ∧ c ≠ 'e' ∧ c ≠ 'E')
    (cs : List Char) : Ends (c :: cs) := by
  intro d hd
  obtain rfl : c = d := Option.some.inj hd
  exact h

theorem Blank.ends_append {bs : List Char} (h : Blank bs) {rest : List Char} (hr : Ends rest) :
    Ends (bs ++ rest) := by
  cases bs with
  | nil => exact hr
  | cons b bs =>
    refine Ends.cons ?_ _
    have hb : ((b = ' ' ∨ b = '\n') ∨ b = '\t') ∨ b = '\r' := by
      simpa [isSpace] using h b List.mem_cons_self
    rcases hb with ((rfl | rfl) | rfl) | rfl <;> decide

/-! ## Layouts -/

/-- The blanks between the parts of a value: before an item, a member or a closing bracket, by its
depth, and after a colon. -/
structure Layout where
  line : Nat → List Char
  colon : List Char
  blank_line : ∀ depth, Blank (line depth)
  blank_colon : Blank colon

namespace Layout

mutual

/-- The characters of a value at a depth. -/
def chars (l : Layout) (depth : Nat) : Json → List Char
  | .arr (v :: vs) =>
    '[' :: (l.line (depth + 1) ++ (chars l (depth + 1) v ++ items l depth vs))
  | .obj ((key, v) :: ms) =>
    '\x7b' :: (l.line (depth + 1) ++ (stringChars key ++ ':' :: (l.colon ++
      (chars l (depth + 1) v ++ members l depth ms))))
  | .null => ['n', 'u', 'l', 'l']
  | .bool true => ['t', 'r', 'u', 'e']
  | .bool false => ['f', 'a', 'l', 's', 'e']
  | .num lexeme => lexeme.toList
  | .str s => stringChars s
  | .arr [] => ['[', ']']
  | .obj [] => ['\x7b', '\x7d']

/-- The items after the first, and the closing bracket. -/
def items (l : Layout) (depth : Nat) : List Json → List Char
  | [] => l.line depth ++ [']']
  | v :: vs => ',' :: (l.line (depth + 1) ++ (chars l (depth + 1) v ++ items l depth vs))

/-- The members after the first, and the closing brace. -/
def members (l : Layout) (depth : Nat) : List (Option String × Json) → List Char
  | [] => l.line depth ++ ['\x7d']
  | (key, v) :: ms =>
    ',' :: (l.line (depth + 1) ++ (stringChars key ++ ':' :: (l.colon ++
      (chars l (depth + 1) v ++ members l depth ms))))

end

/-- No blanks at all. -/
def compact : Layout := ⟨fun _ => [], [], fun _ => .nil, .nil⟩

/-- Each part on a line of its own. -/
def pretty : Layout :=
  ⟨newLine, [' '], .newLine, fun _ hc => by rw [List.mem_singleton.1 hc]; rfl⟩

mutual

theorem chars_compact (depth : Nat) : ∀ j, compact.chars depth j = compactChars j
  | .null | .bool true | .bool false | .num _ | .str _ | .arr [] | .obj [] => rfl
  | .arr (v :: vs) => by
    rw [chars, compactChars, chars_compact, items_compact]
    rfl
  | .obj ((_, _) :: ms) => by
    rw [chars, compactChars, chars_compact, members_compact]
    rfl

theorem items_compact (depth : Nat) : ∀ vs, compact.items depth vs = compactItems vs
  | [] => rfl
  | v :: vs => by
    rw [items, compactItems, chars_compact, items_compact]
    rfl

theorem members_compact (depth : Nat) : ∀ ms, compact.members depth ms = compactMembers ms
  | [] => rfl
  | (_, _) :: ms => by
    rw [members, compactMembers, chars_compact, members_compact]
    rfl

end

mutual

theorem chars_pretty : ∀ depth j, pretty.chars depth j = prettyChars depth j
  | _, .null | _, .bool true | _, .bool false | _, .num _ | _, .str _ | _, .arr [] | _, .obj [] =>
    rfl
  | depth, .arr (v :: vs) => by
    rw [chars, prettyChars, chars_pretty, items_pretty, List.append_assoc]
    rfl
  | depth, .obj ((_, _) :: ms) => by
    rw [chars, prettyChars, chars_pretty, members_pretty]
    simp only [List.append_assoc]
    rfl

theorem items_pretty : ∀ depth vs, pretty.items depth vs = prettyItems depth vs
  | _, [] => rfl
  | depth, v :: vs => by
    rw [items, prettyItems, chars_pretty, items_pretty, List.append_assoc]
    rfl

theorem members_pretty : ∀ depth ms, pretty.members depth ms = prettyMembers depth ms
  | _, [] => rfl
  | depth, (_, _) :: ms => by
    rw [members, prettyMembers, chars_pretty, members_pretty]
    simp only [List.append_assoc]
    rfl

end

end Layout

/-! ## Values that can be written -/

mutual

/-- The value can be written: its numbers are such, and its strings are texts. -/
def Sound : Json → Prop
  | .num lexeme => number? lexeme.toList = some (lexeme.toList, [])
  | .str s => s.isSome = true
  | .arr vs => SoundItems vs
  | .obj ms => SoundMembers ms
  | .null | .bool _ => True

/-- Every item can be written. -/
def SoundItems : List Json → Prop
  | [] => True
  | v :: vs => Sound v ∧ SoundItems vs

/-- Every member can be written. -/
def SoundMembers : List (Option String × Json) → Prop
  | [] => True
  | (key, v) :: ms => key.isSome = true ∧ Sound v ∧ SoundMembers ms

end

theorem soundItems_iff {vs : List Json} : SoundItems vs ↔ ∀ v ∈ vs, Sound v := by
  induction vs with
  | nil => simp [SoundItems]
  | cons v vs ih => rw [SoundItems, ih, List.forall_mem_cons]

/-! ## One step of the reader -/

/-- The first character of a value that is neither an array nor an object. -/
def startsSimple (c : Char) : Bool :=
  c == '"' || c == 'n' || c == 't' || c == 'f' || startsNumber c

/-- The first character of a value. -/
def startsValue (c : Char) : Bool := c == '[' || c == '\x7b' || startsSimple c

theorem startsValue_of_startsSimple {c : Char} (h : startsSimple c = true) :
    startsValue c = true := by
  unfold startsValue
  rw [h, Bool.or_true]

theorem isSpace_of_startsValue {c : Char} (h : startsValue c = true) : isSpace c = false := by
  cases hc : isSpace c with
  | false => rfl
  | true =>
    have hblank : ((c = ' ' ∨ c = '\n') ∨ c = '\t') ∨ c = '\r' := by simpa [isSpace] using hc
    rcases hblank with ((rfl | rfl) | rfl) | rfl <;> cases h

theorem stringChars_append (s : String) (rest : List Char) :
    stringChars (some s) ++ rest = '"' :: (s.toList.flatMap escapeChar ++ '"' :: rest) := by
  show '"' :: (s.toList.flatMap escapeChar ++ ['"'] ++ rest) = _
  rw [List.append_assoc]
  rfl

theorem length_stringChars (s : String) : s.toList.length < (stringChars (some s)).length := by
  have hlength := length_escaped s.toList
  show _ < (s.toList.flatMap escapeChar ++ ['"']).length + 1
  rw [List.length_append]
  omega

theorem string?_stringChars {limit : Nat} {s : String} (h : s.toList.length < limit)
    (rest : List Char) : string? limit (s.toList.flatMap escapeChar ++ '"' :: rest) =
      some (some s, rest) := by
  rw [string?_escaped h, String.ofList_toList]

/-- The value is neither an array nor an object. -/
def isSimple : Json → Bool
  | .arr _ | .obj _ => false
  | _ => true

theorem simple?_chars (l : Layout) (depth : Nat) {limit : Nat} {j : Json} (hj : isSimple j = true)
    (hs : Sound j) (hlimit : (l.chars depth j).length < limit) {rest : List Char}
    (he : Ends rest) : ∃ c cs, l.chars depth j = c :: cs ∧ startsSimple c = true ∧
      simple? limit (c :: (cs ++ rest)) = some (j, rest) := by
  cases j with
  | null => exact ⟨_, _, rfl, rfl, rfl⟩
  | bool b =>
    cases b with
    | true => exact ⟨_, _, rfl, rfl, rfl⟩
    | false => exact ⟨_, _, rfl, rfl, rfl⟩
  | num lexeme =>
    obtain ⟨c, cs, hcs, hc⟩ := startsNumber_of_number? hs
    have hread : number? (c :: (cs ++ rest)) = some (lexeme.toList, rest) := by
      rw [← List.cons_append, ← hcs]
      exact number?_append he hs
    have other : ∀ {d : Char}, startsNumber d = false → c ≠ d := by
      rintro d hd rfl
      rw [hc] at hd
      cases hd
    refine ⟨c, cs, hcs, by rw [startsSimple, hc, Bool.or_true], ?_⟩
    rw [simple?, if_neg (other rfl), if_neg (other rfl), if_neg (other rfl), if_neg (other rfl),
      hread]
    exact congrArg (fun text => some (num text, rest)) String.ofList_toList
  | str text =>
    obtain ⟨s, rfl⟩ := Option.isSome_iff_exists.1 hs
    have hlength := Nat.lt_trans (length_stringChars s) hlimit
    refine ⟨'"', s.toList.flatMap escapeChar ++ ['"'], rfl, rfl, ?_⟩
    rw [List.append_assoc, List.singleton_append, simple?, if_pos rfl, string?_stringChars hlength]
    rfl
  | arr vs => cases hj
  | obj ms => cases hj

/-- What is written for a value starts like one. -/
theorem chars_cons (l : Layout) (depth : Nat) {j : Json} (hs : Sound j) :
    ∃ c cs, l.chars depth j = c :: cs ∧ startsValue c = true := by
  cases hj : isSimple j with
  | true =>
    obtain ⟨c, cs, hcs, hc, -⟩ := simple?_chars l depth hj hs (Nat.lt_succ_self _) .nil
    exact ⟨c, cs, hcs, startsValue_of_startsSimple hc⟩
  | false =>
    cases j with
    | arr vs => cases vs <;> exact ⟨_, _, rfl, rfl⟩
    | obj ms => cases ms <;> exact ⟨_, _, rfl, rfl⟩
    | _ => cases hj

section
variable (limit : Nat) (begun : List Begun) {bs : List Char} (hb : Blank bs)
include hb

theorem key?_stringChars {s : String} (h : s.toList.length < limit) (rest : List Char) :
    key? limit (bs ++ (stringChars (some s) ++ ':' :: rest)) = some (some s, rest) := by
  rw [stringChars_append, key?, hb.skipSpace_append rfl]
  split
  · rename_i heq
    obtain ⟨-, rfl⟩ := List.cons.inj heq
    rw [string?_stringChars h]
    rfl
  · rename_i hquote
    exact absurd rfl (hquote _)

theorem start?_simple {c : Char} (hc : startsSimple c = true) {cs rest : List Char} {v : Json}
    (h : simple? limit (c :: cs) = some (v, rest)) :
    start? limit begun (bs ++ c :: cs) = some (.after v, begun, rest) := by
  rw [start?, hb.skipSpace_append (isSpace_of_startsValue (startsValue_of_startsSimple hc))]
  split
  · rename_i heq
    obtain ⟨rfl, -⟩ := List.cons.inj heq
    cases hc
  · rename_i heq
    obtain ⟨rfl, -⟩ := List.cons.inj heq
    cases hc
  · rw [h]
    rfl

theorem start?_noItems (rest : List Char) :
    start? limit begun (bs ++ '[' :: ']' :: rest) = some (.after (.arr []), begun, rest) := by
  rw [start?, hb.skipSpace_append rfl]
  rfl

theorem start?_items {bs' : List Char} (hb' : Blank bs') {c : Char} (hc : startsValue c = true)
    (rest : List Char) : start? limit begun (bs ++ '[' :: (bs' ++ c :: rest)) =
      some (.value, .items [] :: begun, c :: rest) := by
  rw [start?, hb.skipSpace_append rfl]
  split
  · rename_i heq
    obtain ⟨-, rfl⟩ := List.cons.inj heq
    rw [hb'.skipSpace_append (isSpace_of_startsValue hc)]
    split
    · rename_i hclose
      obtain ⟨rfl, -⟩ := List.cons.inj hclose
      cases hc
    · rfl
  · rename_i heq
    cases heq
  · rename_i hopen _
    exact absurd rfl (hopen _)

theorem start?_noMembers (rest : List Char) :
    start? limit begun (bs ++ '\x7b' :: '\x7d' :: rest) =
      some (.after (.obj []), begun, rest) := by
  rw [start?, hb.skipSpace_append rfl]
  rfl

theorem start?_members {bs' : List Char} (hb' : Blank bs') {s : String}
    (h : s.toList.length < limit) (rest : List Char) :
    start? limit begun (bs ++ '\x7b' :: (bs' ++ (stringChars (some s) ++ ':' :: rest))) =
      some (.value, .members [] (some s) :: begun, rest) := by
  have hkey := key?_stringChars limit .nil h rest
  rw [List.nil_append, stringChars_append] at hkey
  rw [start?, hb.skipSpace_append rfl]
  split
  · rename_i heq
    cases heq
  · rename_i heq
    obtain ⟨-, rfl⟩ := List.cons.inj heq
    rw [stringChars_append, hb'.skipSpace_append rfl]
    show (key? limit ('"' :: (s.toList.flatMap escapeChar ++ '"' :: ':' :: rest))).map _ = _
    rw [hkey]
    rfl
  · rename_i hopen
    exact absurd rfl (hopen _)

variable (v : Json)

theorem finish?_nextItem (done : List Json) (rest : List Char) :
    finish? limit v (.items done) begun (bs ++ ',' :: rest) =
      some (.value, .items (v :: done) :: begun, rest) := by
  unfold finish?
  rw [hb.skipSpace_append rfl]
  rfl

theorem finish?_lastItem (done : List Json) (rest : List Char) :
    finish? limit v (.items done) begun (bs ++ ']' :: rest) =
      some (.after (.arr (done.reverse ++ [v])), begun, rest) := by
  unfold finish?
  rw [hb.skipSpace_append rfl, ← List.reverse_cons]
  rfl

variable (done : List (Option String × Json)) (key : Option String)

theorem finish?_nextMember {bs' : List Char} (hb' : Blank bs') {s : String}
    (h : s.toList.length < limit) (rest : List Char) :
    finish? limit v (.members done key) begun
        (bs ++ ',' :: (bs' ++ (stringChars (some s) ++ ':' :: rest))) =
      some (.value, .members ((key, v) :: done) (some s) :: begun, rest) := by
  unfold finish?
  rw [hb.skipSpace_append rfl]
  show (key? limit (bs' ++ (stringChars (some s) ++ ':' :: rest))).map _ = _
  rw [key?_stringChars limit hb' h]
  rfl

theorem finish?_lastMember (rest : List Char) :
    finish? limit v (.members done key) begun (bs ++ '\x7d' :: rest) =
      some (.after (.obj (done.reverse ++ [(key, v)])), begun, rest) := by
  unfold finish?
  rw [hb.skipSpace_append rfl, ← List.reverse_cons]
  rfl

end

/-! ## The reader goes on -/

/-- Reading on from one place comes to reading on from another, after `n` steps at most. -/
def Leads (limit n : Nat) (p q : Upcoming × List Begun × List Char) : Prop :=
  ∃ steps ≤ n, ∀ fuel, readOn limit (fuel + steps) p.1 p.2.1 p.2.2 =
    readOn limit fuel q.1 q.2.1 q.2.2

namespace Leads

variable {limit n m : Nat} {p q r : Upcoming × List Begun × List Char}

theorem trans (h : Leads limit n p q) (h' : Leads limit m q r) : Leads limit (n + m) p r := by
  obtain ⟨k, hk, hread⟩ := h
  obtain ⟨k', hk', hread'⟩ := h'
  refine ⟨k' + k, by omega, fun fuel => ?_⟩
  rw [← Nat.add_assoc, hread, hread']

theorem mono (h : Leads limit n p q) (hnm : n ≤ m) : Leads limit m p q := by
  obtain ⟨k, hk, hread⟩ := h
  exact ⟨k, Nat.le_trans hk hnm, hread⟩

theorem start {begun : List Begun} {cs : List Char} (h : start? limit begun cs = some q) :
    Leads limit 1 (.value, begun, cs) q := by
  refine ⟨1, Nat.le_refl 1, fun fuel => ?_⟩
  show readOn limit (fuel + 1) .value begun cs = _
  rw [readOn, h]

theorem finish {v : Json} {outer : Begun} {begun : List Begun} {cs : List Char}
    (h : finish? limit v outer begun cs = some q) :
    Leads limit 1 (.after v, outer :: begun, cs) q := by
  refine ⟨1, Nat.le_refl 1, fun fuel => ?_⟩
  show readOn limit (fuel + 1) (.after v) (outer :: begun) cs = _
  rw [readOn, h]

end Leads

namespace Layout

variable (l : Layout) {limit : Nat}

theorem ends_items (depth : Nat) (vs : List Json) (rest : List Char) :
    Ends (l.items depth vs ++ rest) := by
  cases vs with
  | nil =>
    rw [items, List.append_assoc]
    exact (l.blank_line depth).ends_append (.cons (by decide) rest)
  | cons v vs => exact .cons (by decide) _

theorem ends_members (depth : Nat) (ms : List (Option String × Json)) (rest : List Char) :
    Ends (l.members depth ms ++ rest) := by
  cases ms with
  | nil =>
    rw [members, List.append_assoc]
    exact (l.blank_line depth).ends_append (.cons (by decide) rest)
  | cons m ms => exact .cons (by decide) _

theorem leads_simple (depth : Nat) {j : Json} (hj : isSimple j = true) (hs : Sound j)
    (hlimit : (l.chars depth j).length < limit) {bs : List Char} (hb : Blank bs)
    (begun : List Begun) {rest : List Char} (he : Ends rest) :
    Leads limit (l.chars depth j).length (.value, begun, bs ++ (l.chars depth j ++ rest))
      (.after j, begun, rest) := by
  obtain ⟨c, cs, hcs, hc, hread⟩ := simple?_chars l depth hj hs hlimit he
  rw [hcs]
  exact (Leads.start (start?_simple limit begun hb hc hread)).mono (Nat.succ_pos _)

mutual

/-- From where a value starts the reader gets to where it has ended. -/
theorem leads_chars : ∀ depth j, Sound j → (l.chars depth j).length < limit →
    ∀ {bs : List Char}, Blank bs → ∀ begun {rest : List Char}, Ends rest →
      Leads limit (l.chars depth j).length (.value, begun, bs ++ (l.chars depth j ++ rest))
        (.after j, begun, rest)
  | depth, .null, hs, hlimit, _, hb, begun, _, he => l.leads_simple depth rfl hs hlimit hb begun he
  | depth, .bool _, hs, hlimit, _, hb, begun, _, he =>
    l.leads_simple depth rfl hs hlimit hb begun he
  | depth, .num _, hs, hlimit, _, hb, begun, _, he =>
    l.leads_simple depth rfl hs hlimit hb begun he
  | depth, .str _, hs, hlimit, _, hb, begun, _, he =>
    l.leads_simple depth rfl hs hlimit hb begun he
  | _, .arr [], _, _, _, hb, _, rest, _ =>
    (Leads.start (start?_noItems limit _ hb rest)).mono (Nat.succ_pos _)
  | depth, .arr (v :: vs), hs, hlimit, bs, hb, begun, rest, he => by
    obtain ⟨hv, hvs⟩ := hs
    obtain ⟨c, cs, hcs, hc⟩ := chars_cons l (depth + 1) hv
    rw [chars, List.length_cons, List.length_append, List.length_append] at hlimit
    have hstart := start?_items limit begun hb (l.blank_line (depth + 1)) hc
      (cs ++ (l.items depth vs ++ rest))
    rw [← List.cons_append (a := c), ← hcs] at hstart
    have hvalue := leads_chars (depth + 1) v hv (by omega) .nil (.items [] :: begun)
      (l.ends_items depth vs rest)
    have hitems := leads_items depth vs hvs (by omega) v [] begun rest
    rw [chars, List.cons_append, List.append_assoc, List.append_assoc]
    refine ((Leads.start hstart).trans (hvalue.trans hitems)).mono ?_
    rw [List.length_cons, List.length_append, List.length_append]
    omega
  | _, .obj [], _, _, _, hb, _, rest, _ =>
    (Leads.start (start?_noMembers limit _ hb rest)).mono (Nat.succ_pos _)
  | depth, .obj ((key, v) :: ms), hs, hlimit, bs, hb, begun, rest, he => by
    obtain ⟨hkey, hv, hms⟩ := hs
    obtain ⟨s, rfl⟩ := Option.isSome_iff_exists.1 hkey
    have hlength := length_stringChars s
    rw [chars, List.length_cons, List.length_append, List.length_append, List.length_cons,
      List.length_append, List.length_append] at hlimit
    have hstart := start?_members limit begun hb (l.blank_line (depth + 1))
      (s := s) (by omega) (l.colon ++ (l.chars (depth + 1) v ++ (l.members depth ms ++ rest)))
    have hvalue := leads_chars (depth + 1) v hv (by omega) l.blank_colon
      (.members [] (some s) :: begun) (l.ends_members depth ms rest)
    have hmembers := leads_members depth ms hms (by omega) (some s) v [] begun rest
    rw [chars, List.cons_append, List.append_assoc, List.append_assoc, List.cons_append,
      List.append_assoc, List.append_assoc]
    refine ((Leads.start hstart).trans (hvalue.trans hmembers)).mono ?_
    rw [List.length_cons, List.length_append, List.length_append, List.length_cons,
      List.length_append, List.length_append]
    omega

/-- From behind an item the reader gets to where the array has ended. -/
theorem leads_items : ∀ depth vs, SoundItems vs → (l.items depth vs).length < limit →
    ∀ v done begun rest, Leads limit (l.items depth vs).length
      (.after v, .items done :: begun, l.items depth vs ++ rest)
      (.after (.arr (done.reverse ++ v :: vs)), begun, rest)
  | depth, [], _, _, v, done, begun, rest => by
    have hfinish := finish?_lastItem limit begun (l.blank_line depth) v done
      rest
    rw [items, List.append_assoc, List.length_append]
    exact (Leads.finish hfinish).mono (Nat.le_add_left 1 _)
  | depth, w :: vs, hs, hlimit, v, done, begun, rest => by
    obtain ⟨hw, hvs⟩ := hs
    rw [items, List.length_cons, List.length_append, List.length_append] at hlimit
    have hfinish := finish?_nextItem limit begun .nil v done
      (l.line (depth + 1) ++ (l.chars (depth + 1) w ++ (l.items depth vs ++ rest)))
    have hvalue := leads_chars (depth + 1) w hw (by omega) (l.blank_line (depth + 1))
      (.items (v :: done) :: begun) (l.ends_items depth vs rest)
    have hitems := leads_items depth vs hvs (by omega) w (v :: done) begun rest
    rw [List.reverse_cons, List.append_assoc, List.singleton_append] at hitems
    rw [items, List.cons_append, List.append_assoc, List.append_assoc]
    refine ((Leads.finish hfinish).trans (hvalue.trans hitems)).mono ?_
    rw [List.length_cons, List.length_append, List.length_append]
    omega

/-- From behind a member the reader gets to where the object has ended. -/
theorem leads_members : ∀ depth ms, SoundMembers ms → (l.members depth ms).length < limit →
    ∀ key v done begun rest, Leads limit (l.members depth ms).length
      (.after v, .members done key :: begun, l.members depth ms ++ rest)
      (.after (.obj (done.reverse ++ (key, v) :: ms)), begun, rest)
  | depth, [], _, _, key, v, done, begun, rest => by
    have hfinish := finish?_lastMember limit begun (l.blank_line depth) v done
      key rest
    rw [members, List.append_assoc, List.length_append]
    exact (Leads.finish hfinish).mono (Nat.le_add_left 1 _)
  | depth, (next, w) :: ms, hs, hlimit, key, v, done, begun, rest => by
    obtain ⟨hnext, hw, hms⟩ := hs
    obtain ⟨s, rfl⟩ := Option.isSome_iff_exists.1 hnext
    have hlength := length_stringChars s
    rw [members, List.length_cons, List.length_append, List.length_append, List.length_cons,
      List.length_append, List.length_append] at hlimit
    have hfinish := finish?_nextMember limit begun .nil v done key
      (l.blank_line (depth + 1)) (s := s) (by omega)
      (l.colon ++ (l.chars (depth + 1) w ++ (l.members depth ms ++ rest)))
    have hvalue := leads_chars (depth + 1) w hw (by omega) l.blank_colon
      (.members ((key, v) :: done) (some s) :: begun) (l.ends_members depth ms rest)
    have hmembers := leads_members depth ms hms (by omega) (some s) w ((key, v) :: done) begun rest
    rw [List.reverse_cons, List.append_assoc, List.singleton_append] at hmembers
    rw [members, List.cons_append, List.append_assoc, List.append_assoc, List.cons_append,
      List.append_assoc, List.append_assoc]
    refine ((Leads.finish hfinish).trans (hvalue.trans hmembers)).mono ?_
    rw [List.length_cons, List.length_append, List.length_append, List.length_cons,
      List.length_append, List.length_append]
    omega

end

end Layout

/-! ## Reading a whole text -/

/-- A sound value is read back, however it is laid out. -/
theorem parse?_text (l : Layout) {j : Json} (h : Sound j) :
    parse? (String.ofList (l.chars 0 j)) = some j := by
  have hlimit : (l.chars 0 j).length < (l.chars 0 j).length + 2 := by omega
  obtain ⟨steps, hsteps, hread⟩ := l.leads_chars 0 j h hlimit .nil [] .nil
  obtain ⟨fuel, hfuel⟩ : ∃ fuel, (l.chars 0 j).length + 2 = fuel + 1 + steps :=
    ⟨(l.chars 0 j).length + 1 - steps, by omega⟩
  have hstart := hread (fuel + 1)
  rw [← hfuel, List.nil_append, List.append_nil] at hstart
  rw [parse?, parseChars?, String.toList_ofList]
  exact hstart

theorem parse?_compact {j : Json} (h : Sound j) : parse? j.compact = some j := by
  rw [compact, ← Layout.chars_compact 0, parse?_text _ h]

theorem parse?_pretty {j : Json} (h : Sound j) : parse? j.pretty = some j := by
  rw [pretty, ← Layout.chars_pretty, parse?_text _ h]

end SharedRuntime.Json
