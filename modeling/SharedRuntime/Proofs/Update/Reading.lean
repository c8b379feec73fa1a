import SharedRuntime.Proofs.Json.Reordered
import SharedRuntime.Update.State

/-!
# Failures, outcomes, states and events recovered

Each of the four types is recovered from what is written of it, one nested in the other, with tag and
content in either order at every level. Content that comes before its tag is kept until the tag is
read: it is nested three levels deep at most, and its numbers are exact, so there is always room.
-/

set_option autoImplicit false

namespace SharedRuntime

/-! ## Failures -/

namespace UpdateError

theorem sound_kindJson {kind : String} {detail : Json} (h : detail.Sound) :
    (kindJson kind detail).Sound :=
  ⟨rfl, rfl, rfl, h, trivial⟩

theorem sound_toJson (e : UpdateError) : e.toJson.Sound := by
  cases e with
  | configuration why | invalidArtifact why | installation why => exact sound_kindJson rfl
  | transport status code =>
    exact sound_kindJson ⟨rfl, Json.sound_nat _, rfl, Json.sound_nat _, trivial⟩
  | userCancelled => exact ⟨rfl, rfl, trivial⟩

theorem transportOfJson?_object (status : UInt16) (code : UInt32) :
    transportOfJson? (.object [("status", .nat status.toNat), ("code", .nat code.toNat)]) =
      some (transport status code) := by
  have hs : (Json.nat status.toNat).natUpTo? 65535 = some status.toNat :=
    Json.natUpTo?_nat (Nat.le_of_lt_succ status.toNat_lt)
  have hc : (Json.nat code.toNat).natUpTo? 4294967295 = some code.toNat :=
    Json.natUpTo?_nat (Nat.le_of_lt_succ code.toNat_lt)
  simp [transportOfJson?, Json.object, Json.record?, Json.single?, Json.required?, hs, hc]

/-- The two codes are read in either order. -/
theorem transportOfJson?_reordered {status : UInt16} {code : UInt32} {j : Json}
    (h : (Json.object [("status", .nat status.toNat), ("code", .nat code.toNat)]).Reordered j) :
    transportOfJson? j = some (transport status code) := by
  obtain ⟨_, _, rfl, rfl, rfl | rfl⟩ := h.pair
  · exact transportOfJson?_object status code
  · exact transportOfJson?_object status code

theorem isKeepable_codes (status : UInt16) (code : UInt32) {room : Nat} (h : 0 < room) :
    Json.isKeepable room
      (.object [("status", .nat status.toNat), ("code", .nat code.toNat)]) = true := by
  have hstatus : status.toNat ≤ Json.significandLimit :=
    Nat.le_trans (Nat.le_of_lt status.toNat_lt) (by decide)
  have hcode : code.toNat ≤ Json.significandLimit :=
    Nat.le_trans (Nat.le_of_lt code.toNat_lt) (by decide)
  have hs := Json.isKeepable_nat hstatus (room - 1)
  have hc := Json.isKeepable_nat hcode (room - 1)
  simp [Json.object, Json.isKeepable, Json.membersKeepable, h, hs, hc]

theorem isKeepable_toJson (e : UpdateError) {room : Nat} (h : 1 < room) :
    e.toJson.isKeepable room = true := by
  have hroom : 0 < room := Nat.zero_lt_of_lt h
  have hless : 0 < room - 1 := Nat.sub_pos_of_lt h
  cases e with
  | transport status code =>
    have hcodes := isKeepable_codes status code hless
    simp only [toJson, kindJson, Json.object, List.map_cons, List.map_nil] at hcodes ⊢
    simp [Json.isKeepable, Json.membersKeepable, Json.text, hroom] at hcodes ⊢
    exact hcodes
  | configuration why | invalidArtifact why | installation why | userCancelled =>
    simp [toJson, kindJson, Json.object, Json.text, Json.isKeepable, Json.membersKeepable, hroom]

/-- A failure is read wherever there is room to keep its codes. -/
theorem ofJsonAt?_reordered {p : Json.Place} {e : UpdateError} {j : Json}
    (h : e.toJson.Reordered j) (hp : p.level < 126) : ofJsonAt? p j = some e := by
  have hroom : 0 < Json.nestingLimit - p.level - 1 := by
    have hlimit : Json.nestingLimit = 127 := rfl
    omega
  have hne : "kind" ≠ "detail" := by decide
  unfold ofJsonAt?
  cases e with
  | configuration why | invalidArtifact why | installation why =>
    obtain ⟨_, kept, rfl, hread⟩ := Json.tagged?_reordered p variants rfl hne rfl h
    exact hread
  | transport status code =>
    obtain ⟨d, kept, hd, hread⟩ := Json.tagged?_reordered p variants rfl hne
      (isKeepable_codes status code hroom) h
    exact hread.trans (transportOfJson?_reordered hd)
  | userCancelled => exact Json.tagged?_unit_reordered rfl hne h

theorem recovers : Json.Recovers toJson ofJson? :=
  .of_reads sound_toJson fun _ _ h => ofJsonAt?_reordered h (by decide)

end UpdateError

/-! ## Outcomes -/

namespace UpdateOutcome

theorem sound_toJson (o : UpdateOutcome) : o.toJson.Sound := by
  cases o with
  | completed | cancelled => exact ⟨rfl, rfl, trivial⟩
  | failed e => exact ⟨rfl, rfl, rfl, e.sound_toJson, trivial⟩

theorem isKeepable_toJson (o : UpdateOutcome) {room : Nat} (h : 2 < room) :
    o.toJson.isKeepable room = true := by
  have hroom : 0 < room := by omega
  have hless : 1 < room - 1 := by omega
  cases o with
  | completed | cancelled =>
    simp [toJson, Json.object, Json.text, Json.isKeepable, Json.membersKeepable, hroom]
  | failed e =>
    have he := e.isKeepable_toJson hless
    simp [toJson, Json.object, Json.text, Json.isKeepable, Json.membersKeepable, hroom, he]

theorem ofJsonAt?_reordered {p : Json.Place} {o : UpdateOutcome} {j : Json}
    (h : o.toJson.Reordered j) (hp : p.level < 125) : ofJsonAt? p j = some o := by
  have hroom : 1 < Json.nestingLimit - p.level - 1 := by
    have hlimit : Json.nestingLimit = 127 := rfl
    omega
  have hne : "outcome" ≠ "error" := by decide
  unfold ofJsonAt?
  cases o with
  | completed | cancelled => exact Json.tagged?_unit_reordered rfl hne h
  | failed e =>
    obtain ⟨d, kept, hd, hread⟩ := Json.tagged?_reordered p variants rfl hne
      (e.isKeepable_toJson hroom) h
    have he : UpdateError.ofJsonAt? (p.content kept) d = some e :=
      UpdateError.ofJsonAt?_reordered hd (Nat.succ_lt_succ hp)
    rw [hread, he]
    rfl

theorem recovers : Json.Recovers toJson ofJson? :=
  .of_reads sound_toJson fun _ _ h => ofJsonAt?_reordered h (by decide)

end UpdateOutcome

/-! ## States -/

namespace UpdateState

theorem sound_toJson (s : UpdateState) : s.toJson.Sound := by
  cases s with
  | terminal o => exact ⟨rfl, rfl, rfl, o.sound_toJson, trivial⟩
  | idle | awaitingUserDecision | downloading | verifying | installing =>
    exact ⟨rfl, rfl, trivial⟩

theorem ofJson?_reordered {s : UpdateState} {j : Json} (h : s.toJson.Reordered j) :
    ofJson? j = some s := by
  have hne : "state" ≠ "outcome" := by decide
  unfold ofJson?
  cases s with
  | terminal o =>
    obtain ⟨d, kept, hd, hread⟩ := Json.tagged?_reordered .top variants rfl hne
      (o.isKeepable_toJson (by decide)) h
    rw [hread, UpdateOutcome.ofJsonAt?_reordered hd (show 1 < 125 by decide)]
    rfl
  | idle | awaitingUserDecision | downloading | verifying | installing =>
    exact Json.tagged?_unit_reordered rfl hne h

theorem recovers : Json.Recovers toJson ofJson? :=
  .of_reads sound_toJson fun _ _ h => ofJson?_reordered h

end UpdateState

/-! ## Events -/

namespace UpdateEvent

theorem sound_toJson (e : UpdateEvent) : e.toJson.Sound := by
  cases e with
  | progress percent => exact ⟨rfl, rfl, rfl, Json.sound_nat _, trivial⟩
  | failed e => exact ⟨rfl, rfl, rfl, e.sound_toJson, trivial⟩
  | started | cancelled | completed => exact ⟨rfl, rfl, trivial⟩

theorem ofJson?_reordered {e : UpdateEvent} {j : Json} (h : e.toJson.Reordered j) :
    ofJson? j = some e := by
  have hne : "event" ≠ "data" := by decide
  unfold ofJson?
  cases e with
  | progress percent =>
    have hp : (Json.num (toString percent.toNat)).natUpTo? 255 = some percent.toNat :=
      Json.natUpTo?_nat (Nat.le_of_lt_succ percent.toNat_lt)
    have hkeep : percent.toNat ≤ Json.significandLimit :=
      Nat.le_trans (Nat.le_of_lt percent.toNat_lt) (by decide)
    obtain ⟨_, kept, rfl, hread⟩ := Json.tagged?_reordered .top variants rfl
      hne (Json.isKeepable_nat hkeep _) h
    rw [hread, hp, Option.map_some, UInt8.ofNat_toNat]
  | failed e =>
    obtain ⟨d, kept, hd, hread⟩ := Json.tagged?_reordered .top variants rfl hne
      (e.isKeepable_toJson (by decide)) h
    rw [hread, UpdateError.ofJsonAt?_reordered hd (show 1 < 126 by decide)]
    rfl
  | started | cancelled | completed => exact Json.tagged?_unit_reordered rfl hne h

theorem recovers : Json.Recovers toJson ofJson? :=
  .of_reads sound_toJson fun _ _ h => ofJson?_reordered h

/-- Reads an event from a line. -/
def ofLine? (line : String) : Option UpdateEvent := (Json.parse? line).bind ofJson?

/-- An event is read back from the line that it is written on. -/
theorem ofLine?_compact (e : UpdateEvent) : ofLine? e.toJson.compact = some e :=
  recovers.reads e _ (.refl _)

end UpdateEvent

end SharedRuntime
