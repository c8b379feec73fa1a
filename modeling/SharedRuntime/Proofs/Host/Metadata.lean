import Mathlib.Data.List.Nodup
import SharedRuntime.Host.Metadata

/-!
# Metadata as a map

Metadata that are read hold every name once (`Metadata.nodup_ofPairs`), and pairs whose names differ
are read as they are (`Metadata.ofPairs_eq`). Then their order does not matter
(`Metadata.get?_perm`).
-/

set_option autoImplicit false

namespace SharedRuntime.Metadata

variable {m m' : Metadata} {key value : String}

/-- The names that have a value. -/
def keys (m : Metadata) : List String := m.map Prod.fst

theorem keys_put (m : Metadata) (key value : String) :
    (m.put key value).keys = if key ∈ m.keys then m.keys else m.keys ++ [key] := by
  induction m with
  | nil => rfl
  | cons p m ih =>
    obtain ⟨k, v⟩ := p
    have hkeys : keys ((k, v) :: m) = k :: keys m := rfl
    rw [hkeys]
    unfold put
    by_cases hk : k = key
    · rw [if_pos hk, if_pos (by simp [hk])]
      rfl
    · have hput : keys ((k, v) :: put key value m) = k :: keys (put key value m) := rfl
      have hk' : ¬ key = k := fun he => hk he.symm
      rw [if_neg hk, hput, ih]
      by_cases hm : key ∈ keys m
      · rw [if_pos hm, if_pos (List.mem_cons_of_mem k hm)]
      · rw [if_neg hm, if_neg (by simp [hk', hm]), List.cons_append]

theorem nodup_put (h : m.keys.Nodup) : (m.put key value).keys.Nodup := by
  rw [keys_put]
  split
  · exact h
  · rename_i hkey
    exact h.append (List.nodup_singleton key) (by simpa using hkey)

theorem nodup_foldl_put (pairs : List (String × String)) (h : m.keys.Nodup) :
    (pairs.foldl (fun m p => put p.1 p.2 m) m).keys.Nodup := by
  induction pairs generalizing m with
  | nil => exact h
  | cons p pairs ih => exact ih (nodup_put h)

/-- Every name is held once. -/
theorem nodup_ofPairs (pairs : List (String × String)) : (ofPairs pairs).keys.Nodup :=
  nodup_foldl_put pairs List.nodup_nil

theorem put_new (h : key ∉ m.keys) : m.put key value = m ++ [(key, value)] := by
  induction m with
  | nil => rfl
  | cons p m ih =>
    obtain ⟨k, v⟩ := p
    obtain ⟨hk, hm⟩ : ¬ key = k ∧ key ∉ keys m := by simpa [keys] using h
    unfold put
    rw [if_neg fun he => hk he.symm, ih hm]
    rfl

theorem foldl_put_new {pairs : Metadata} (h : (keys (m ++ pairs)).Nodup) :
    pairs.foldl (fun m p => put p.1 p.2 m) m = m ++ pairs := by
  induction pairs generalizing m with
  | nil => exact (List.append_nil m).symm
  | cons p pairs ih =>
    have hp : p.1 ∉ keys m := by
      intro hmem
      unfold keys at h hmem
      rw [List.map_append, List.map_cons] at h
      exact (List.nodup_append.1 h).2.2 p.1 hmem p.1 List.mem_cons_self rfl
    rw [← List.singleton_append, ← List.append_assoc] at h ⊢
    rw [List.foldl_append, List.foldl_cons, List.foldl_nil, put_new hp]
    exact ih h

/-- Pairs whose names differ are held in their order. -/
theorem ofPairs_eq (h : m.keys.Nodup) : ofPairs m = m := foldl_put_new h

/-- The order of names that differ does not matter. -/
theorem get?_perm (h : m.Perm m') (hnodup : m.keys.Nodup) (key : String) :
    m.get? key = m'.get? key := by
  unfold get?
  induction h with
  | nil => rfl
  | @cons p m m' _ ih =>
    rw [List.lookup_cons, List.lookup_cons, ih (List.nodup_cons.1 hnodup).2]
  | swap p q m =>
    have hne : q.1 ≠ p.1 := fun he =>
      (List.nodup_cons.1 hnodup).1 (he ▸ List.mem_cons_self)
    rw [List.lookup_cons, List.lookup_cons, List.lookup_cons, List.lookup_cons]
    by_cases hp : key = p.1
    · have hq : (key == q.1) = false := beq_false_of_ne fun he => hne (he.symm.trans hp)
      rw [hq]
    · have hp' : (key == p.1) = false := beq_false_of_ne hp
      rw [hp']
  | trans h _ ih ih' => exact (ih hnodup).trans (ih' ((h.map Prod.fst).nodup_iff.1 hnodup))

/-- What is made of the values alone is the same for all orders. -/
theorem downloadUrl_perm (h : m.Perm m') (hnodup : m.keys.Nodup) (arch : String) :
    m.downloadUrl arch = m'.downloadUrl arch := by
  unfold downloadUrl
  rw [get?_perm h hnodup]

theorem verificationPolicy_perm (h : m.Perm m') (hnodup : m.keys.Nodup) :
    m.verificationPolicy = m'.verificationPolicy := by
  unfold verificationPolicy
  rw [get?_perm h hnodup]

end SharedRuntime.Metadata
