import SharedRuntime.Proofs.FileSystem.Vacant
import SharedRuntime.Proofs.Text.Utf8

/-!
# What files say

A path that can be read leads to a file (`locate_of_read`), and a text that was written is read back
(`readText_written`).
-/

set_option autoImplicit false

namespace SharedRuntime.FileSystem

variable {fs t : FileSystem} {p : Path} {data : Bytes} {text : String}

theorem exists?_of_locate {found : Location × Node} (h : fs.locate p = .ok found) :
    fs.exists? p = true := by
  rw [exists?, h]
  rfl

/-- What is read stands in a file. -/
theorem locate_of_read (h : fs.read p = .ok data) :
    ∃ l i, fs.locate p = .ok (l, .file i) ∧ fs.contentsOf i = data := by
  unfold read at h
  cases hl : fs.locate p with
  | error f =>
    rw [hl] at h
    cases h
  | ok found =>
    obtain ⟨l, n⟩ := found
    rw [hl] at h
    cases n with
    | file i => exact ⟨l, i, rfl, Except.ok.inj h⟩
    | dir => cases h
    | link target => cases h

theorem read_of_readText (h : fs.readText p = .ok text) : ∃ data, fs.read p = .ok data := by
  unfold readText at h
  cases hr : fs.read p with
  | error f =>
    rw [hr] at h
    cases h
  | ok data => exact ⟨data, rfl⟩

theorem locate_of_readText (h : fs.readText p = .ok text) :
    ∃ l i, fs.locate p = .ok (l, .file i) := by
  obtain ⟨data, hdata⟩ := read_of_readText h
  obtain ⟨l, i, hl, -⟩ := locate_of_read hdata
  exact ⟨l, i, hl⟩

theorem readText_of_read (h : fs.read p = .ok (Bytes.ofString text)) :
    fs.readText p = .ok text := by
  unfold readText
  rw [h]
  simp only [bind, Except.bind, Utf8.decode?_ofString]

/-- A text that was written is read. -/
theorem readText_written (h : fs.write p (Bytes.ofString text) = .ok t) :
    t.readText p = .ok text := by
  obtain ⟨l, i, hlocate, hcontents⟩ := locate_written h
  refine readText_of_read ?_
  unfold read
  rw [hlocate]
  exact congrArg Except.ok hcontents

end SharedRuntime.FileSystem
