import Diagnosis.Catalogue
import Diagnosis.Proofs.Keyed

/-!
# The components of a catalogue

A catalogue is a map whose keys are pairs of a category and a name: entering a component and
removing a name change what is found under their own key and nothing else (`find?_enter`,
`find?_unregister`). In a proper catalogue no key stands twice, and these steps keep it so. There
the entries of a category are what is found in it, and removing a key that has no component leaves
the whole catalogue as it is (`Proper.unregister_eq_self`).
-/

namespace Diagnosis.Catalogue

open Keyed

variable {α β : Type} {c : Catalogue α} {key name category : String} {value : β} {component : α}
  {l : List (String × β)}

/-! ## Putting entries -/

/-- A value that is put under a key is found there, and what other keys have stays. -/
theorem lookup_put (key k : String) (value : β) (l : List (String × β)) :
    (put key value l).lookup k = if k = key then some value else l.lookup k := by
  induction l with
  | nil => exact lookup_entry key k value []
  | cons first rest ih =>
      obtain ⟨other, old⟩ := first
      rw [put]
      split
      case isTrue hother =>
        subst hother
        rw [lookup_entry, lookup_entry]
        split <;> rfl
      case isFalse hother =>
        rw [lookup_entry, lookup_entry, ih]
        by_cases hk : k = other
        · rw [if_pos hk, if_pos hk, if_neg fun hkey ↦ hother (hk ▸ hkey)]
        · rw [if_neg hk, if_neg hk]

/-- A value is put behind entries that have not its key. -/
theorem put_append (h : key ∉ l.map Prod.fst) (m : List (String × β)) :
    put key value (l ++ m) = l ++ put key value m := by
  induction l with
  | nil => rfl
  | cons first rest ih =>
      rw [List.map_cons, List.mem_cons, not_or] at h
      rw [List.cons_append, put, if_neg (Ne.symm h.1), ih h.2, List.cons_append]

/-- Putting a value adds no entry but its own. -/
theorem mem_put {entry : String × β} (h : entry ∈ put key value l) :
    entry = (key, value) ∨ entry ∈ l := by
  induction l with
  | nil => exact .inl (List.mem_singleton.mp h)
  | cons first rest ih =>
      rw [put] at h
      split at h
      case isTrue => exact (List.mem_cons.mp h).imp_right (List.mem_cons_of_mem first)
      case isFalse =>
        obtain rfl | h := List.mem_cons.mp h
        · exact .inr List.mem_cons_self
        · exact (ih h).imp_right (List.mem_cons_of_mem first)

/-- Keys that stand once stand once after a value is put. -/
theorem nodup_put (h : (l.map Prod.fst).Nodup) : ((put key value l).map Prod.fst).Nodup := by
  induction l with
  | nil => exact List.nodup_singleton key
  | cons first rest ih =>
      rw [List.map_cons, List.nodup_cons] at h
      rw [put]
      split
      case isTrue hkey => exact List.nodup_cons.mpr ⟨hkey ▸ h.1, h.2⟩
      case isFalse hkey =>
        refine List.nodup_cons.mpr ⟨fun hmem ↦ ?_, ih h.2⟩
        obtain ⟨entry, hentry, hfirst⟩ := List.mem_map.mp hmem
        obtain rfl | hentry := mem_put hentry
        · exact hkey hfirst.symm
        · exact h.1 (hfirst ▸ List.mem_map_of_mem hentry)

/-! ## Components by keys -/

/-- The entries of the categories after one of them is put. -/
theorem entries_put (c : Catalogue α) (category k : String) (bucket : List (String × α)) :
    entries { buckets := put category bucket c.buckets } k =
      if k = category then bucket else c.entries k := by
  rw [entries, lookup_put]
  split <;> rfl

/-- The entries of the categories after a name is removed from one of them. -/
theorem entries_unregister (c : Catalogue α) (name category k : String) :
    (c.unregister name category).entries k =
      if k = category then (c.entries k).filter (·.1 != name) else c.entries k := by
  have hlookup := lookup_map
    (fun k bucket ↦ if k = category then bucket.filter (·.1 != name) else bucket) k c.buckets
  rw [entries, unregister, hlookup, entries]
  cases c.buckets.lookup k with
  | none => simp
  | some bucket => rfl

/-- Nothing is left under a key that is removed, and what other keys have stays. -/
theorem find?_unregister (c : Catalogue α) (name category n k : String) :
    (c.unregister name category).find? n k =
      if n = name ∧ k = category then none else c.find? n k := by
  rw [find?, entries_unregister]
  by_cases hk : k = category
  · simp only [hk, if_pos, and_true]
    exact lookup_filter_ne name n (c.entries category)
  · simp only [hk, if_false, and_false]
    rfl

/-! ## Proper catalogues -/

/-- No category stands twice in the catalogue, and no name within a category. -/
structure Proper (c : Catalogue α) : Prop where
  /-- The categories are different from each other. -/
  categories : (c.buckets.map Prod.fst).Nodup
  /-- The names of each category are different from each other. -/
  names : ∀ bucket ∈ c.buckets, (bucket.2.map Prod.fst).Nodup

namespace Proper

/-- The names that a category shows are different from each other. -/
theorem entries (h : c.Proper) (category : String) :
    ((c.entries category).map Prod.fst).Nodup := by
  cases hbucket : c.buckets.lookup category with
  | none => simp [Catalogue.entries, hbucket]
  | some bucket =>
      rw [Catalogue.entries, hbucket, Option.getD_some]
      exact h.names (category, bucket) ((mem_iff_lookup h.categories).mpr hbucket)

/-- A bucket holds the entries of its category. -/
theorem entries_eq (h : c.Proper) {bucket : List (String × α)}
    (hbucket : (category, bucket) ∈ c.buckets) : c.entries category = bucket := by
  rw [Catalogue.entries, (mem_iff_lookup h.categories).mp hbucket, Option.getD_some]

/-- Removing a key that has no component changes nothing. -/
theorem unregister_eq_self (h : c.Proper) (hnone : c.find? name category = none) :
    c.unregister name category = c := by
  have hkept : ∀ bucket ∈ c.buckets,
      (bucket.1, if bucket.1 = category then bucket.2.filter (·.1 != name) else bucket.2) =
        bucket := by
    rintro ⟨k, bucket⟩ hbucket
    by_cases hk : k = category
    · subst hk
      rw [find?, h.entries_eq hbucket, lookup_eq_none] at hnone
      have hfilter : bucket.filter (·.1 != name) = bucket := by
        refine List.filter_eq_self.mpr fun entry hentry ↦ bne_iff_ne.mpr fun hname ↦ ?_
        exact hnone (hname ▸ List.mem_map_of_mem hentry)
      rw [if_pos rfl, hfilter]
    · rw [if_neg hk]
  cases c with
  | mk buckets =>
      refine congrArg Catalogue.mk ?_
      exact (List.map_congr_left hkept).trans (List.map_id buckets)

/-- A catalogue stays proper when a name is removed. -/
theorem unregister (h : c.Proper) (name category : String) :
    (c.unregister name category).Proper where
  categories := by
    rw [Catalogue.unregister, List.map_map]
    exact h.categories
  names := by
    intro bucket hbucket
    obtain ⟨⟨k, old⟩, hold, rfl⟩ := List.mem_map.mp hbucket
    dsimp only
    split
    case isTrue => exact (h.names _ hold).sublist (List.filter_sublist.map Prod.fst)
    case isFalse => exact h.names _ hold

end Proper

/-! ## Entering components -/

/-- The catalogue in which a component is under a key, whatever was there. -/
def enter (c : Catalogue α) (name : String) (component : α) (category : String) : Catalogue α :=
  { buckets := put category (put name component (c.entries category)) c.buckets }

/-- The catalogue with a category, which has no names unless it was there already. -/
def opened (c : Catalogue α) (category : String) : Catalogue α :=
  match c.buckets.lookup category with
  | some _ => c
  | none => { buckets := c.buckets ++ [(category, [])] }

/-- A component that is entered is found under its key, and what other keys have stays. -/
theorem find?_enter (c : Catalogue α) (name : String) (component : α) (category n k : String) :
    (c.enter name component category).find? n k =
      if n = name ∧ k = category then some component else c.find? n k := by
  rw [find?, enter, entries_put]
  by_cases hk : k = category
  · simp only [hk, if_pos, and_true]
    exact lookup_put name n component (c.entries category)
  · simp only [hk, if_false, and_false]
    rfl

/-- A catalogue stays proper when a component is entered. -/
theorem Proper.enter (h : c.Proper) (name : String) (component : α) (category : String) :
    (c.enter name component category).Proper where
  categories := nodup_put h.categories
  names := by
    intro bucket hbucket
    obtain rfl | hbucket := mem_put hbucket
    · exact nodup_put (h.entries category)
    · exact h.names bucket hbucket

/-- An opened category shows the entries that it had. -/
theorem entries_opened (c : Catalogue α) (category k : String) :
    (c.opened category).entries k = c.entries k := by
  rw [opened]
  split
  case h_1 => rfl
  case h_2 hnone =>
    rw [entries, entries, List.lookup_append, lookup_entry]
    cases c.buckets.lookup k with
    | some bucket => rfl
    | none => split <;> rfl

/-- A category that has a name is open. -/
theorem opened_eq_self (h : c.find? name category = some component) : c.opened category = c := by
  rw [opened]
  split
  case h_1 => rfl
  case h_2 hnone =>
    rw [find?, entries, hnone] at h
    cases h

/-- Opening a category before a component is entered there makes no difference. -/
theorem enter_opened (c : Catalogue α) (name : String) (component : α) (category : String) :
    (c.opened category).enter name component category = c.enter name component category := by
  rw [enter, entries_opened, enter, opened]
  split
  case h_1 => rfl
  case h_2 hnone =>
    have hkey := lookup_eq_none.mp hnone
    have hend (bucket : List (String × α)) :
        put category bucket c.buckets = c.buckets ++ [(category, bucket)] := by
      simpa [put] using put_append hkey []
    rw [put_append hkey, hend, put, if_pos rfl]

end Diagnosis.Catalogue
