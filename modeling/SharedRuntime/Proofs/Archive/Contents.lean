import SharedRuntime.Proofs.Archive.Directory
import SharedRuntime.Proofs.Failing

/-!
# What an archive holds

An entry is read as its contents if it decodes to them and they have the recorded checksum
(`Zip.ReadsAs`). An archive holds a list of files if its entries are read as them, in order
(`Zip.Holds`).
-/

set_option autoImplicit false

namespace SharedRuntime

namespace Zip

/-! ## Entries -/

/-- The entry is read to its end: its decoded contents have the recorded checksum. -/
structure ReadsAs (z : Zip) (e : Entry) (contents : Bytes) : Prop where
  plain : e.encrypted = false
  keyless : e.hasKeyStrength = false
  decoded : ∃ raw decode, z.rawContents e = .ok raw ∧ decoder? e.method = some decode ∧
    (decode raw).fault = none ∧ (decode raw).data = contents
  checksum : Digest.Crc32.checksum contents = e.crc

/-- A checked stream ends if the stream does and the checksum is right. -/
theorem readAll_checked_iff {crc : UInt32} {s : ByteStream} {contents : Bytes} :
    (checked crc s).readAll = .ok contents ↔
      s.fault = none ∧ s.data = contents ∧ Digest.Crc32.checksum contents = crc := by
  unfold checked ByteStream.readAll
  cases hf : s.fault with
  | some f => simp [hf]
  | none =>
    dsimp only
    by_cases hc : Digest.Crc32.checksum s.data = crc
    · rw [if_pos hc, hf]
      constructor
      · intro h
        cases h
        exact ⟨rfl, rfl, hc⟩
      · rintro ⟨-, rfl, -⟩
        rfl
    · rw [if_neg hc]
      constructor
      · intro h
        cases h
      · rintro ⟨-, rfl, h⟩
        exact absurd h hc

theorem openEntry_iff {z : Zip} {e : Entry} {s : ByteStream} :
    z.openEntry e = .ok s ↔ e.encrypted = false ∧ e.hasKeyStrength = false ∧
      ∃ raw decode, z.rawContents e = .ok raw ∧ decoder? e.method = some decode ∧
        s = checked e.crc (decode raw) := by
  unfold openEntry
  cases he : e.encrypted with
  | true => simp
  | false =>
    simp only [Bool.false_eq_true, if_false, except_bind_ok_iff, true_and]
    constructor
    · rintro ⟨raw, hraw, h⟩
      cases hd : decoder? e.method with
      | none =>
        simp only [hd] at h
        split at h <;> cases h
      | some decode =>
        simp only [hd] at h
        cases hk : e.hasKeyStrength with
        | true =>
          rw [hk] at h
          cases h
        | false =>
          rw [hk] at h
          cases h
          exact ⟨rfl, raw, decode, hraw, rfl, rfl⟩
    · rintro ⟨hk, raw, decode, hraw, hd, rfl⟩
      refine ⟨raw, hraw, ?_⟩
      simp [hd, hk]

theorem readsAs_iff {z : Zip} {e : Entry} {contents : Bytes} :
    z.ReadsAs e contents ↔ ∃ s, z.openEntry e = .ok s ∧ s.readAll = .ok contents := by
  constructor
  · rintro ⟨hp, hk, ⟨raw, decode, hraw, hd, hf, hdata⟩, hcrc⟩
    exact ⟨_, openEntry_iff.2 ⟨hp, hk, raw, decode, hraw, hd, rfl⟩,
      readAll_checked_iff.2 ⟨hf, hdata, hcrc⟩⟩
  · rintro ⟨s, ho, hr⟩
    obtain ⟨hp, hk, raw, decode, hraw, hd, rfl⟩ := openEntry_iff.1 ho
    obtain ⟨hf, hdata, hcrc⟩ := readAll_checked_iff.1 hr
    exact ⟨hp, hk, ⟨raw, decode, hraw, hd, hf, hdata⟩, hcrc⟩

/-! ## Archives of given files -/

/-- The archive holds the files, in order, and nothing else. -/
def Holds (z : Zip) (files : List (String × Bytes)) : Prop :=
  List.Forall₂ (fun e f => e.name = f.1 ∧ z.ReadsAs e f.2 ∧ f.2.length = e.size) z.entries files

/-- The bytes are an archive of the files. -/
def IsArchive (bs : Bytes) (files : List (String × Bytes)) : Prop :=
  ∃ z, ofBytes bs = .ok z ∧ z.Holds files

section
variable {bs : Bytes} {z : Zip} {files : List (String × Bytes)}

theorem Holds.names (h : z.Holds files) : z.entries.map Entry.name = files.map Prod.fst := by
  unfold Holds at h
  generalize z.entries = es at h
  induction h with
  | nil => rfl
  | cons hf _ ih => rw [List.map_cons, List.map_cons, hf.1, ih]

/-- Each of the files is found under its name. -/
theorem Holds.find? (h : z.Holds files) (hz : ofBytes bs = .ok z) {f : String × Bytes}
    (hf : f ∈ files) :
    ∃ e, z.find? f.1 = some e ∧ z.ReadsAs e f.2 ∧ f.2.length = e.size := by
  obtain ⟨e, he, hname, hreads, hsize⟩ : ∃ e ∈ z.entries,
      e.name = f.1 ∧ z.ReadsAs e f.2 ∧ f.2.length = e.size := by
    unfold Holds at h
    generalize z.entries = es at h
    induction h with
    | nil => cases hf
    | @cons e g _ _ hg _ ih =>
      rcases List.mem_cons.1 hf with rfl | hf
      · exact ⟨e, List.mem_cons_self, hg⟩
      · obtain ⟨d, hd, hrest⟩ := ih hf
        exact ⟨d, List.mem_cons_of_mem e hd, hrest⟩
  exact ⟨e, hname ▸ find?_of_mem hz he, hreads, hsize⟩

end

end Zip

end SharedRuntime
