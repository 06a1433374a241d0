import Mathlib.Data.List.Nodup

/-!
# Entries with keys

Lists of keys with values are read by the first entry with a key. What is found after an entry is
added, after the entries of a key are dropped and after the values are changed is said for all keys
by one equation each.
-/

namespace Diagnosis.Keyed

variable {κ β : Type} [BEq κ] [LawfulBEq κ] {key : κ} {value : β} {l : List (κ × β)}

/-- What is found under a key stands in an entry with it. -/
theorem mem_of_lookup (h : l.lookup key = some value) : (key, value) ∈ l := by
  obtain ⟨before, after, rfl, _⟩ := List.lookup_eq_some_iff.mp h
  simp

/-- Nothing is found under a key iff no entry has it. -/
theorem lookup_eq_none : l.lookup key = none ↔ key ∉ l.map Prod.fst := by
  rw [List.lookup_eq_none_iff, List.mem_map, not_exists]
  refine forall_congr' fun entry ↦ ?_
  rw [bne_iff_ne, not_and, ne_comm]

variable [DecidableEq κ]

/-- The first entry with the key counts. -/
theorem lookup_entry (key k : κ) (value : β) (l : List (κ × β)) :
    ((key, value) :: l).lookup k = if k = key then some value else l.lookup k := by
  rw [List.lookup_cons]
  by_cases h : k = key
  · simp [h]
  · simp [h, beq_eq_false_iff_ne.mpr h]

/-- Where keys stand once, the entries are what is found by their keys. -/
theorem mem_iff_lookup (h : (l.map Prod.fst).Nodup) :
    (key, value) ∈ l ↔ l.lookup key = some value := by
  refine ⟨fun hmem ↦ ?_, mem_of_lookup⟩
  induction l with
  | nil => cases hmem
  | cons first rest ih =>
      obtain ⟨other, old⟩ := first
      rw [List.map_cons, List.nodup_cons] at h
      rw [lookup_entry]
      obtain hfirst | hrest := List.mem_cons.mp hmem
      · cases hfirst
        exact if_pos rfl
      · have hkey : key ∈ rest.map Prod.fst := List.mem_map.mpr ⟨_, hrest, rfl⟩
        have hne : key ≠ other := fun hsame ↦ h.1 (hsame ▸ hkey)
        rw [if_neg hne, ih h.2 hrest]

/-- Nothing is found under a key whose entries are dropped, and what other keys have stays. -/
theorem lookup_filter_ne (key k : κ) (l : List (κ × β)) :
    (l.filter (·.1 != key)).lookup k = if k = key then none else l.lookup k := by
  induction l with
  | nil => simp
  | cons first rest ih =>
      obtain ⟨other, old⟩ := first
      by_cases hother : other = key
      · subst hother
        rw [List.filter_cons_of_neg (by simp), ih, lookup_entry]
        split <;> rfl
      · rw [List.filter_cons_of_pos (by simpa using hother), lookup_entry, lookup_entry, ih]
        by_cases hk : k = other
        · rw [if_pos hk, if_pos hk, if_neg fun hkey ↦ hother (hk ▸ hkey)]
        · rw [if_neg hk, if_neg hk]

/-- Values changed by their keys are found as they are changed. -/
theorem lookup_map (f : κ → β → β) (k : κ) (l : List (κ × β)) :
    (l.map fun entry ↦ (entry.1, f entry.1 entry.2)).lookup k = (l.lookup k).map (f k) := by
  induction l with
  | nil => rfl
  | cons first rest ih =>
      rw [List.map_cons, lookup_entry, lookup_entry, ih]
      by_cases hk : k = first.1
      · rw [if_pos hk, if_pos hk, hk, Option.map_some]
      · rw [if_neg hk, if_neg hk]

end Diagnosis.Keyed
