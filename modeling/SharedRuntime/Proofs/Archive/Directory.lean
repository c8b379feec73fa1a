import Mathlib.Algebra.Group.Nat.Defs
import SharedRuntime.Archive.Zip.Archive

/-!
# What holds of every directory

Whatever bytes an archive is opened from, its entries have distinct names, and the size of each is
a number of eight bytes: of four in the entry itself, or of eight in an extra field
(`ofBytes_entries`).
-/

set_option autoImplicit false

namespace SharedRuntime

theorem Bytes.natLE_lt (bs : Bytes) : natLE bs < 256 ^ bs.length := by
  induction bs with
  | nil => simp [natLE]
  | cons b bs ih =>
    have hb : b.toNat < 256 := b.toNat_lt
    simp only [natLE, List.length_cons, Nat.pow_succ]
    omega

namespace Zip

theorem field_lt (bs : Bytes) (start len : Nat) : field bs start len < 256 ^ len := by
  refine Nat.lt_of_lt_of_le (Bytes.natLE_lt _) (Nat.pow_le_pow_right (by decide) ?_)
  rw [List.length_take]
  omega

/-! ## Sizes -/

/-- What is known of an entry once a field was read. -/
def ExtraResult.draft? : ExtraResult → Option Draft
  | .next d _ => some d
  | .stop d => some d
  | .refused => none

section
variable {n : Nat} {rest : Bytes} {d d' : Draft}

theorem skipExtra_draft (h : (skipExtra n rest d).draft? = some d') : d' = d := by
  unfold skipExtra at h
  split at h <;> exact (Option.some.inj h).symm

theorem readTimes_draft (h : (readTimes n rest d).draft? = some d') : d' = d := by
  unfold readTimes at h
  split at h
  · exact (Option.some.inj h).symm
  · dsimp only at h
    split at h
    · cases h
    · split at h <;> exact skipExtra_draft h

theorem readFileTimes_draft (h : (readFileTimes n rest d).draft? = some d') : d' = d := by
  unfold readFileTimes at h
  repeat' split at h
  · cases h
  · exact (Option.some.inj h).symm
  · cases h
  · exact (Option.some.inj h).symm
  · cases h
  · exact skipExtra_draft h

theorem readKeyStrength_size (h : (readKeyStrength n rest d).draft? = some d') :
    d'.entry.size = d.entry.size := by
  unfold readKeyStrength at h
  repeat' split at h
  all_goals cases h
  all_goals rfl

theorem readText_size {plain : Bytes} {use : Bytes → String → Draft}
    (huse : ∀ raw text, (use raw text).entry.size = d.entry.size)
    (h : (readText n rest plain d use).draft? = some d') : d'.entry.size = d.entry.size := by
  unfold readText at h
  dsimp only at h
  repeat' split at h
  · exact Option.some.inj h ▸ rfl
  · cases h
  · exact Option.some.inj h ▸ rfl
  · cases h
  · cases h
  · exact Option.some.inj h ▸ huse _ _

theorem mem_largeValues {wants : List Bool} {bs : Bytes} {v : Nat}
    (h : some v ∈ (largeValues wants bs).1) : v < 256 ^ 8 := by
  induction wants generalizing bs with
  | nil => cases h
  | cons want wants ih =>
    unfold largeValues at h
    split at h
    · split at h
      · simp at h
      · rcases List.mem_cons.1 h with h | h
        · cases h
          exact field_lt bs 0 8
        · exact ih h
    · rcases List.mem_cons.1 h with h | h
      · cases h
      · exact ih h

theorem Entry.withLarge_size {e : Entry} {values : List (Option Nat)} (he : e.size < 256 ^ 8)
    (h : ∀ v, some v ∈ values → v < 256 ^ 8) : (e.withLarge values).size < 256 ^ 8 := by
  unfold withLarge
  split
  · rename_i size compressedSize start
    cases size with
    | none => exact he
    | some v => exact h v List.mem_cons_self
  · exact he

theorem readLarge_size (hd : d.entry.size < 256 ^ 8)
    (h : (readLarge n rest d).draft? = some d') : d'.entry.size < 256 ^ 8 := by
  have hlarge : ∀ wants : List Bool,
      (d.entry.withLarge (largeValues wants rest).1).size < 256 ^ 8 :=
    fun _ => Entry.withLarge_size hd fun _ hv => mem_largeValues hv
  unfold readLarge at h
  dsimp only at h
  split at h
  · cases h
    exact hlarge _
  · split at h
    · cases h
    · rw [skipExtra_draft h]
      exact hlarge _

theorem readExtra_size {kind : Nat} (hd : d.entry.size < 256 ^ 8)
    (h : (readExtra kind n rest d).draft? = some d') : d'.entry.size < 256 ^ 8 := by
  unfold readExtra at h
  repeat' split at h
  · exact readLarge_size hd h
  · exact readKeyStrength_size h ▸ hd
  · exact readTimes_draft h ▸ hd
  · exact readFileTimes_draft h ▸ hd
  · rw [readText_size (by intros; rfl) h]
    exact hd
  · rw [readText_size (by intros; rfl) h]
    exact hd
  · exact skipExtra_draft h ▸ hd

end

theorem readExtras_size {fuel : Nat} {extra : Bytes} {d d' : Draft} (hd : d.entry.size < 256 ^ 8)
    (h : readExtras fuel extra d = some d') : d'.entry.size < 256 ^ 8 := by
  induction fuel generalizing extra d with
  | zero => exact Option.some.inj h ▸ hd
  | succ fuel ih =>
    unfold readExtras at h
    split at h
    · exact Option.some.inj h ▸ hd
    · split at h
      · rename_i e rest he
        exact ih (readExtra_size hd (by rw [he]; rfl)) h
      · rename_i e he
        exact readExtra_size hd (by rw [he]; exact h)
      · cases h

theorem readEntry?_size {p : Placement} {bs rest : Bytes} {e : Entry}
    (h : readEntry? p bs = some (e, rest)) : e.size < 256 ^ 8 := by
  unfold readEntry? at h
  split at h
  · cases h
  · dsimp only at h
    split at h
    · cases h
    · obtain ⟨d, hd, h⟩ := Option.bind_eq_some_iff.1 h
      have hsize : d.entry.size < 256 ^ 8 :=
        readExtras_size (Nat.lt_of_lt_of_le (field_lt bs 24 4) (by decide)) hd
      split at h
      · cases h
      · split at h
        · cases h
        · cases h
          exact hsize

theorem readEntries?_size {p : Placement} {n : Nat} {bs : Bytes} {es : List Entry}
    (h : readEntries? p n bs = some es) : ∀ e ∈ es, e.size < 256 ^ 8 := by
  induction n generalizing bs es with
  | zero =>
    cases h
    simp
  | succ n ih =>
    obtain ⟨⟨e, rest⟩, he, h⟩ := Option.bind_eq_some_iff.1 h
    obtain ⟨es', hes, h⟩ := Option.bind_eq_some_iff.1 h
    cases h
    exact List.forall_mem_cons.2 ⟨readEntry?_size he, ih hes⟩

/-! ## Names -/

theorem mem_putEntry {e x : Entry} {es : List Entry} (h : x ∈ putEntry e es) : x = e ∨ x ∈ es := by
  induction es with
  | nil => simpa [putEntry] using h
  | cons f fs ih =>
    unfold putEntry at h
    split at h
    · exact (List.mem_cons.1 h).imp_right (List.mem_cons_of_mem _)
    · rcases List.mem_cons.1 h with rfl | h
      · exact .inr List.mem_cons_self
      · exact (ih h).imp_right (List.mem_cons_of_mem _)

theorem nodup_putEntry {e : Entry} {es : List Entry} (h : (es.map Entry.name).Nodup) :
    ((putEntry e es).map Entry.name).Nodup := by
  induction es with
  | nil => simp [putEntry]
  | cons f fs ih =>
    obtain ⟨hf, hfs⟩ := List.nodup_cons.1 h
    unfold putEntry
    split
    · rename_i hname
      exact List.nodup_cons.2 ⟨hname ▸ hf, hfs⟩
    · rename_i hname
      refine List.nodup_cons.2 ⟨fun hm => ?_, ih hfs⟩
      obtain ⟨x, hx, hxf⟩ := List.mem_map.1 hm
      rcases mem_putEntry hx with rfl | hx
      · exact hname hxf.symm
      · exact hf (hxf ▸ List.mem_map_of_mem hx)

theorem foldl_putEntry (es : List Entry) {done : List Entry} (hdone : (done.map Entry.name).Nodup) :
    ((es.foldl (fun done e => putEntry e done) done).map Entry.name).Nodup ∧
      ∀ x ∈ es.foldl (fun done e => putEntry e done) done, x ∈ done ∨ x ∈ es := by
  induction es generalizing done with
  | nil => exact ⟨hdone, fun x hx => .inl hx⟩
  | cons e es ih =>
    obtain ⟨hn, hm⟩ := ih (nodup_putEntry (e := e) hdone)
    refine ⟨hn, fun x hx => ?_⟩
    rcases hm x hx with hx | hx
    · rcases mem_putEntry hx with rfl | hx
      · exact .inr List.mem_cons_self
      · exact .inl hx
    · exact .inr (List.mem_cons_of_mem _ hx)

theorem searchEntries_ok {bs : Bytes} {pending : Option Fault} {ends : List (Nat × Bytes)}
    {es : List Entry} (h : searchEntries bs pending ends = .ok es) :
    ∃ p, entriesAt? bs p = some es := by
  induction ends generalizing pending with
  | nil => cases h
  | cons x rest ih =>
    obtain ⟨endPlace, block⟩ := x
    unfold searchEntries at h
    split at h
    · exact ih h
    · split at h
      · exact ih h
      · split at h
        · exact ih h
        · rename_i hp
          cases h
          exact ⟨_, hp⟩

theorem entriesAt?_spec {bs : Bytes} {p : Placement} {es : List Entry}
    (h : entriesAt? bs p = some es) :
    (es.map Entry.name).Nodup ∧ ∀ e ∈ es, e.size < 256 ^ 8 := by
  unfold entriesAt? at h
  split at h
  · cases h
  · obtain ⟨all, hall, rfl⟩ := Option.map_eq_some_iff.1 h
    have hnone : (([] : List Entry).map Entry.name).Nodup := List.nodup_nil
    obtain ⟨hn, hm⟩ := foldl_putEntry all hnone
    refine ⟨hn, fun e he => ?_⟩
    rcases hm e he with he | he
    · cases he
    · exact readEntries?_size hall e he

theorem ofBytes_entries {bs : Bytes} {z : Zip} (h : ofBytes bs = .ok z) :
    (z.entries.map Entry.name).Nodup ∧ ∀ e ∈ z.entries, e.size < 256 ^ 8 := by
  unfold ofBytes readDirectory at h
  cases hs : searchEntries bs none (findAll endMagic bs) with
  | error f =>
    rw [hs] at h
    cases h
  | ok es =>
    rw [hs] at h
    cases h
    obtain ⟨p, hp⟩ := searchEntries_ok hs
    exact entriesAt?_spec hp

/-- An entry is found under its name, as no other has it. -/
theorem find?_of_mem {bs : Bytes} {z : Zip} (h : ofBytes bs = .ok z) {e : Entry}
    (he : e ∈ z.entries) : z.find? e.name = some e := by
  obtain ⟨hnodup, -⟩ := ofBytes_entries h
  unfold find?
  generalize z.entries = es at hnodup he
  induction es with
  | nil => cases he
  | cons d es ih =>
    obtain ⟨hd, hes⟩ := List.nodup_cons.1 hnodup
    rcases List.mem_cons.1 he with rfl | he
    · simp
    · have hne : d.name ≠ e.name := fun h => hd (h ▸ List.mem_map_of_mem he)
      rw [List.find?_cons_of_neg (by simpa using hne)]
      exact ih hes he

end Zip

end SharedRuntime
