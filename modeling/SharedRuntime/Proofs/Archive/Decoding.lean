import SharedRuntime.Archive.Decoding

/-!
# Decoders and their input

What a decoder makes of its input is decided by the bytes that it takes. How they are cut into
refills makes no difference, and neither does what follows them: a decoder that comes to its end
does so with any more bytes behind, and leaves these (`Local.forth`); one that leaves bytes at the
end does the same without them (`Local.back`). Whatever is built of such decoders is such a decoder
(`Local.bind`).
-/

set_option autoImplicit false

namespace SharedRuntime

namespace Decoding

/-- The bytes to come, with the one of which bits are used. -/
def ahead (d : Decoding) : Bytes := d.input ++ d.later.flatten

/-- How many bits are to come. -/
def bitsAhead (d : Decoding) : Nat := 8 * d.ahead.length - d.used

/-- Bits are used of a byte at hand only, and not all of them. -/
structure Tidy (d : Decoding) : Prop where
  used_lt : d.used < 8
  input : d.used ≠ 0 → d.input ≠ []

/-- Two decoders are at one point. The second has more bytes to come behind those of the first. -/
structure Alongside (extra : Bytes) (d d' : Decoding) : Prop where
  used : d'.used = d.used
  out : d'.out = d.out
  ahead : d'.ahead = d.ahead ++ extra
  tidy : d.Tidy
  tidy' : d'.Tidy

variable {d d' : Decoding} {extra : Bytes}

theorem Tidy.rest_eq (h : d.Tidy) : d.rest = if d.used = 0 then d.ahead else d.ahead.tail := by
  unfold rest ahead
  split
  · rfl
  · rename_i hused
    cases hin : d.input with
    | nil => exact absurd hin (h.input hused)
    | cons b bs => rfl

theorem Tidy.ahead_ne_nil (h : d.Tidy) (hused : d.used ≠ 0) : d.ahead ≠ [] :=
  fun hnil => h.input hused (List.append_eq_nil_iff.1 hnil).1

/-- The whole bytes to come are the whole eights of bits to come. -/
theorem Tidy.rest_length (h : d.Tidy) : d.rest.length = d.bitsAhead / 8 := by
  rw [h.rest_eq, bitsAhead]
  split
  · rename_i hused
    rw [hused]
    omega
  · rename_i hused
    have hpos := List.length_pos_iff.2 (h.ahead_ne_nil hused)
    have hlt := h.used_lt
    rw [List.length_tail]
    omega

theorem tidy_start (refills : List Bytes) : (start refills).Tidy :=
  ⟨Nat.zero_lt_succ 7, fun h => absurd rfl h⟩

/-- Decoders start at one point if the second has all the bytes of the first. -/
theorem alongside_start {refills refills' : List Bytes}
    (h : refills'.flatten = refills.flatten ++ extra) :
    Alongside extra (start refills) (start refills') :=
  ⟨rfl, rfl, h, tidy_start refills, tidy_start refills'⟩

theorem Alongside.rest (h : Alongside extra d d') : d'.rest = d.rest ++ extra := by
  rw [h.tidy.rest_eq, h.tidy'.rest_eq, h.used, h.ahead]
  split
  · rfl
  · rename_i hused
    exact List.tail_append_of_ne_nil (h.tidy.ahead_ne_nil hused)

/-! ## Refills -/

end Decoding

namespace Decode

open Decoding

variable {α β : Type} {m : Decode α} {d d' e e' : Decoding} {extra : Bytes}

/-! ## What decoders do -/

/-- Runs a step: what it gives, and the decoder afterwards. -/
def perform (m : Decode α) (d : Decoding) : Except DecodingFault α × Decoding := m d

theorem perform_bind (m : Decode α) (f : α → Decode β) (d : Decoding) :
    (m >>= f).perform d =
      match m.perform d with
      | (.ok a, e) => (f a).perform e
      | (.error g, e) => (.error g, e) := by
  show (match m d with
    | (r, e) => ExceptT.bindCont f r e) = _
  unfold perform
  cases m d with
  | mk r e => cases r <;> rfl

theorem bind_ok_iff {f : α → Decode β} {b : β} : (m >>= f).perform d = (.ok b, e) ↔
    ∃ a c, m.perform d = (.ok a, c) ∧ (f a).perform c = (.ok b, e) := by
  rw [perform_bind]
  cases h : m.perform d with
  | mk r t =>
    cases r with
    | ok a =>
      constructor
      · exact fun hf => ⟨a, t, rfl, hf⟩
      · rintro ⟨a', t', he, hf⟩
        cases he
        exact hf
    | error g =>
      constructor
      · intro he
        cases he
      · rintro ⟨a', t', he, -⟩
        cases he

/-- What the decoder does is decided by the bytes that it takes. -/
structure Local (m : Decode α) : Prop where
  forth : ∀ {extra d d' a e}, Alongside extra d d' → m.perform d = (.ok a, e) →
    ∃ e', m.perform d' = (.ok a, e') ∧ Alongside extra e e'
  back : ∀ {extra d d' a e'}, Alongside extra d d' → m.perform d' = (.ok a, e') →
    extra.length ≤ e'.rest.length → ∃ e, m.perform d = (.ok a, e) ∧ Alongside extra e e'
  tidy : ∀ {d a e}, d.Tidy → m.perform d = (.ok a, e) → e.Tidy
  bitsAhead : ∀ {d a e}, d.Tidy → m.perform d = (.ok a, e) → e.bitsAhead ≤ d.bitsAhead

/-- The decoder takes at least one bit. -/
def Consumes (m : Decode α) : Prop :=
  ∀ d a e, d.Tidy → m.perform d = (.ok a, e) → e.bitsAhead < d.bitsAhead

theorem Local.rest_length (h : Local m) {a : α} (hd : d.Tidy) (hm : m.perform d = (.ok a, e)) :
    e.rest.length ≤ d.rest.length := by
  rw [(h.tidy hd hm).rest_length, hd.rest_length]
  exact Nat.div_le_div_right (h.bitsAhead hd hm)

theorem Local.bind {f : α → Decode β} (h : Local m) (hf : ∀ a, Local (f a)) :
    Local (m >>= f) where
  forth hd hm := by
    obtain ⟨a, c, hm, hrest⟩ := bind_ok_iff.1 hm
    obtain ⟨c', hm', hc⟩ := h.forth hd hm
    obtain ⟨e', hrest', he⟩ := (hf a).forth hc hrest
    exact ⟨e', bind_ok_iff.2 ⟨a, c', hm', hrest'⟩, he⟩
  back hd hm hlen := by
    obtain ⟨a, c', hm', hrest'⟩ := bind_ok_iff.1 hm
    have hleaves := (hf a).rest_length (h.tidy hd.tidy' hm') hrest'
    obtain ⟨c, hm, hc⟩ := h.back hd hm' (Nat.le_trans hlen hleaves)
    obtain ⟨e, hrest, he⟩ := (hf a).back hc hrest' hlen
    exact ⟨e, bind_ok_iff.2 ⟨a, c, hm, hrest⟩, he⟩
  tidy hd hm := by
    obtain ⟨a, c, hm, hrest⟩ := bind_ok_iff.1 hm
    exact (hf a).tidy (h.tidy hd hm) hrest
  bitsAhead hd hm := by
    obtain ⟨a, c, hm, hrest⟩ := bind_ok_iff.1 hm
    exact Nat.le_trans ((hf a).bitsAhead (h.tidy hd hm) hrest) (h.bitsAhead hd hm)

theorem Consumes.bind {f : α → Decode β} (hc : Consumes m) (h : Local m)
    (hf : ∀ a, Local (f a)) : Consumes (m >>= f) := by
  intro d b e hd hm
  obtain ⟨a, c, hm, hrest⟩ := bind_ok_iff.1 hm
  exact Nat.lt_of_le_of_lt ((hf a).bitsAhead (h.tidy hd hm) hrest) (hc d a c hd hm)

/-- The step reads the byte at hand, from the bit on that is next. The byte is done with, or more of
its bits are used afterwards. -/
structure Takes (m : Decode α) (value : UInt8 → Nat → α) (next : Nat → Option Nat) : Prop where
  lt : ∀ {used used'}, used < 8 → next used = some used' → used < used' ∧ used' < 8
  nil : ∀ {d}, d.Tidy → d.ahead = [] → ∃ f e, m.perform d = (.error f, e)
  cons : ∀ {d b bs}, d.Tidy → d.ahead = b :: bs → ∃ e,
    m.perform d = (.ok (value b d.used), e) ∧ e.out = d.out ∧ e.Tidy ∧
      e.used = (next d.used).getD 0 ∧
        e.ahead = if (next d.used).isSome then b :: bs else bs

section Takes

variable {value : UInt8 → Nat → α} {next : Nat → Option Nat} {a : α}

/-- Where the step comes to its end, there was a byte. -/
theorem Takes.byte (h : Takes m value next) (hd : d.Tidy) (hm : m.perform d = (.ok a, e)) :
    ∃ b bs, d.ahead = b :: bs ∧ a = value b d.used ∧ e.out = d.out ∧ e.Tidy ∧
      e.used = (next d.used).getD 0 ∧
        e.ahead = if (next d.used).isSome then b :: bs else bs := by
  cases hahead : d.ahead with
  | nil =>
    obtain ⟨f, e', he⟩ := h.nil hd hahead
    rw [he] at hm
    cases hm
  | cons b bs =>
    obtain ⟨e', he, hrest⟩ := h.cons hd hahead
    rw [he] at hm
    cases hm
    exact ⟨b, bs, rfl, rfl, hrest⟩

theorem Takes.forth (h : Takes m value next) (hd : Alongside extra d d')
    (hm : m.perform d = (.ok a, e)) :
    ∃ e', m.perform d' = (.ok a, e') ∧ Alongside extra e e' := by
  obtain ⟨b, bs, hahead, rfl, hout, htidy, hused, hleft⟩ := h.byte hd.tidy hm
  have hahead' : d'.ahead = b :: (bs ++ extra) := by rw [hd.ahead, hahead, List.cons_append]
  obtain ⟨e', he', hout', htidy', hused', hleft'⟩ := h.cons hd.tidy' hahead'
  rw [hd.used] at he' hused' hleft'
  refine ⟨e', he', hused'.trans hused.symm, ?_, ?_, htidy, htidy'⟩
  · rw [hout', hout, hd.out]
  · rw [hleft', hleft]
    split
    · rfl
    · rfl

end Takes

/-- What a decoder leaves are the last bytes. Of those before it makes the same. -/
theorem Local.front {a : α} (h : Local m) {refills : List Bytes}
    (hm : m.perform (start refills) = (.ok a, e)) :
    ∃ front t, refills.flatten = front ++ e.rest ∧ m.perform (start [front]) = (.ok a, t) ∧
      t.rest = [] ∧ t.out = e.out := by
  have hlen : e.rest.length ≤ refills.flatten.length := h.rest_length (tidy_start refills) hm
  generalize hn : refills.flatten.length - e.rest.length = n
  have hflat : refills.flatten = [refills.flatten.take n].flatten ++ refills.flatten.drop n := by
    rw [List.flatten_singleton, List.take_append_drop]
  have hdrop : (refills.flatten.drop n).length = e.rest.length := by
    rw [List.length_drop]
    omega
  obtain ⟨t, ht, hafter⟩ := h.back (alongside_start hflat) hm (Nat.le_of_eq hdrop)
  have hrest := hafter.rest
  have hnil : t.rest = [] := by
    have hlength := congrArg List.length hrest
    rw [List.length_append, hdrop] at hlength
    exact List.eq_nil_of_length_eq_zero (by omega)
  rw [hnil, List.nil_append] at hrest
  refine ⟨refills.flatten.take n, t, ?_, ht, hnil, hafter.out.symm⟩
  rw [hrest, List.take_append_drop]

end Decode

end SharedRuntime
