import Diagnosis.Proofs.Catalogue.Components

/-!
# Catalogues under requests

A catalogue serves requests one after another, and the log keeps them with their answers. What is
live under a key is told by the log: the component that was entered there last, or that was there
from the start, unless the key was removed since. It is what is found under the key (`find?_after`),
and each answer follows from it (`serves_live`). One listing cannot be had: that of a category whose
name is empty, since an empty name asks for the overview.
-/

namespace Diagnosis.Catalogue

open Keyed

variable {α : Type}

/-! ## Requests and answers -/

/-- What a catalogue can be asked for. -/
inductive Request (α : Type) where
  /-- To enter a component, if the name is free or is to be overridden. -/
  | register (name : String) (component : α) (category : String) (override : Bool)
  /-- To remove a name. -/
  | unregister (name category : String)
  /-- To find the component of a name. -/
  | get (name category : String)
  /-- To list a category, or to give the overview. -/
  | list (category : Option String)

/-- What a catalogue answers. -/
inductive Answer (α : Type) where
  /-- The request was met and has no result. -/
  | done
  /-- The component of a name. -/
  | found (component : α)
  /-- What the catalogue shows of itself. -/
  | listed (listing : Listing α)
  /-- The request was refused. -/
  | refused (reason : Error)

/-- A request with its answer. -/
abbrev Exchange (α : Type) := Request α × Answer α

/-- The answer to a request and the catalogue after it. A category is opened before the names in it
are looked at, and stays open if the request to enter a component is refused. -/
def serve (c : Catalogue α) : Request α → Answer α × Catalogue α
  | .register name component category override =>
      match (c.opened category).register name component category override with
      | .ok entered => (.done, entered)
      | .error reason => (.refused reason, c.opened category)
  | .unregister name category => (.done, c.unregister name category)
  | .get name category =>
      match c.get name category with
      | .ok component => (.found component, c)
      | .error reason => (.refused reason, c)
  | .list category => (.listed (c.list category), c)

/-- The catalogue after requests. -/
def after (c : Catalogue α) : List (Request α) → Catalogue α
  | [] => c
  | request :: later => (c.serve request).2.after later

/-- The requests with the answers that they get one after another. -/
def log (c : Catalogue α) : List (Request α) → List (Exchange α)
  | [] => []
  | request :: later => (request, (c.serve request).1) :: (c.serve request).2.log later

/-! ## What is live -/

/-- The exchange leaves the content under the key: a component that was entered, or none. -/
inductive Writes (name category : String) : Exchange α → Option α → Prop where
  /-- Entering a component, unless it is refused. -/
  | entered (component : α) (override : Bool) :
      Writes name category (.register name component category override, .done) (some component)
  /-- Removing the name. -/
  | removed : Writes name category (.unregister name category, .done) none

/-- A component is written only by entering it. -/
theorem Writes.eq_register {name category : String} {component : α} {exchange : Exchange α}
    (h : Writes name category exchange (some component)) :
    ∃ override, exchange = (.register name component category override, .done) := by
  cases h with
  | entered component override => exact ⟨override, rfl⟩

/-- The component is under the key after a log of exchanges with a catalogue. -/
inductive Live (start : Catalogue α) (log : List (Exchange α)) (name category : String)
    (component : α) : Prop where
  /-- The component was entered, and the key was neither entered again nor removed since. -/
  | entered (earlier later : List (Exchange α)) (override : Bool)
      (hlog : log =
        earlier ++ (.register name component category override, .done) :: later)
      (hlater : ∀ exchange ∈ later, ∀ content, ¬ Writes name category exchange content)
  /-- The component was there from the start, and the key was neither entered nor removed. -/
  | kept (hstart : start.find? name category = some component)
      (hlog : ∀ exchange ∈ log, ∀ content, ¬ Writes name category exchange content)

/-! ## One request -/

variable {c start : Catalogue α} {name category : String} {component : α} {content : Option α}
  {request : Request α} {log : List (Exchange α)}

/-- A component is refused iff its name is taken and not to be overridden, and is entered else. A
category that was opened for nothing is never left behind. -/
theorem serve_register (c : Catalogue α) (name : String) (component : α) (category : String)
    (override : Bool) :
    c.serve (.register name component category override) =
      if (c.find? name category).isSome && !override then (.refused (.nameTaken name category), c)
      else (.done, c.enter name component category) := by
  have hfind : (c.opened category).find? name category = c.find? name category := by
    rw [find?, entries_opened, find?]
  rw [serve, register, hfind]
  split
  case h_1 entered hentered =>
    split at hentered
    case isTrue => cases hentered
    case isFalse htaken =>
      cases hentered
      rw [if_neg htaken, ← enter_opened]
      rfl
  case h_2 reason hrefused =>
    split at hrefused
    case isTrue htaken =>
      cases hrefused
      obtain ⟨present, hpresent⟩ := Option.isSome_iff_exists.mp (Bool.and_eq_true_iff.mp htaken).1
      rw [if_pos htaken, opened_eq_self hpresent]
    case isFalse => cases hrefused

/-- The component of a name is found if there is one, and else the names that there are are told. -/
theorem serve_get (c : Catalogue α) (name category : String) :
    c.serve (.get name category) =
      match c.find? name category with
      | some component => (.found component, c)
      | none => (.refused (.unknownName name category (c.names category)), c) := by
  rw [serve, get]
  cases c.find? name category <;> rfl

/-- A catalogue stays proper under a request. -/
theorem Proper.serve (h : c.Proper) (request : Request α) : (c.serve request).2.Proper := by
  cases request with
  | register name component category override =>
      rw [serve_register]
      split
      case isTrue => exact h
      case isFalse => exact h.enter name component category
  | unregister name category => exact h.unregister name category
  | get name category =>
      rw [serve_get]
      split <;> exact h
  | list category => exact h

/-- What an exchange writes under a key is found there afterwards. -/
theorem Writes.find? (h : Writes name category (request, (c.serve request).1) content) :
    (c.serve request).2.find? name category = content := by
  generalize hanswer : (c.serve request).1 = answer at h
  cases h with
  | entered component override =>
      rw [serve_register] at hanswer ⊢
      split at hanswer
      case isTrue => cases hanswer
      case isFalse htaken =>
        rw [if_neg htaken, find?_enter, if_pos ⟨rfl, rfl⟩]
  | removed =>
      exact (find?_unregister c name category name category).trans (if_pos ⟨rfl, rfl⟩)

/-- What is found under a key stays if an exchange does not write it. -/
theorem find?_serve_of_not_writes
    (h : ∀ content, ¬ Writes name category (request, (c.serve request).1) content) :
    (c.serve request).2.find? name category = c.find? name category := by
  cases request with
  | register n component k override =>
      rw [serve_register] at h ⊢
      split at h
      case isTrue htaken => rw [if_pos htaken]
      case isFalse htaken =>
        rw [if_neg htaken, find?_enter, if_neg]
        rintro ⟨rfl, rfl⟩
        exact h _ (.entered component override)
  | unregister n k =>
      refine (find?_unregister c n k name category).trans (if_neg ?_)
      rintro ⟨rfl, rfl⟩
      exact h _ .removed
  | get n k =>
      rw [serve_get]
      split <;> rfl
  | list k => rfl

/-! ## Requests one after another -/

/-- A catalogue stays proper under requests. -/
theorem Proper.after (h : c.Proper) (requests : List (Request α)) : (c.after requests).Proper := by
  induction requests generalizing c with
  | nil => exact h
  | cons request later ih => exact ih (h.serve request)

/-- A log that begins with an exchange tells what its rest tells of the catalogue after the
exchange. -/
theorem live_cons :
    Live c ((request, (c.serve request).1) :: log) name category component ↔
      Live (c.serve request).2 log name category component := by
  constructor
  · rintro (⟨earlier, later, override, hlog, hlater⟩ | ⟨hstart, hlog⟩)
    · obtain ⟨rfl, hlog⟩ | ⟨earlier, rfl, rfl⟩ := List.cons_eq_append_iff.mp hlog
      · obtain ⟨hfirst, rfl⟩ := List.cons.inj hlog
        have hwrites : Writes name category (request, (c.serve request).1) (some component) :=
          hfirst ▸ .entered component override
        exact .kept hwrites.find? hlater
      · exact .entered earlier later override rfl hlater
    · obtain ⟨hfirst, hlater⟩ := List.forall_mem_cons.mp hlog
      exact .kept ((find?_serve_of_not_writes hfirst).trans hstart) hlater
  · rintro (⟨earlier, later, override, rfl, hlater⟩ | ⟨hstart, hlog⟩)
    · exact .entered (_ :: earlier) later override rfl hlater
    · by_cases hfirst : ∃ content, Writes name category (request, (c.serve request).1) content
      · obtain ⟨content, hwrites⟩ := hfirst
        obtain rfl := hwrites.find?.symm.trans hstart
        obtain ⟨override, hexchange⟩ := hwrites.eq_register
        exact .entered [] log override (hexchange ▸ rfl) hlog
      · rw [not_exists] at hfirst
        exact .kept ((find?_serve_of_not_writes hfirst).symm.trans hstart)
          (List.forall_mem_cons.mpr ⟨hfirst, hlog⟩)

/-- What is found after requests is what the log says is live. -/
theorem find?_after (c : Catalogue α) (requests : List (Request α)) (name category : String)
    (component : α) :
    (c.after requests).find? name category = some component ↔
      Live c (c.log requests) name category component := by
  induction requests generalizing c with
  | nil =>
      refine ⟨fun h ↦ .kept h (List.forall_mem_nil _), ?_⟩
      rintro (⟨earlier, later, override, hlog, -⟩ | ⟨hstart, -⟩)
      · exact absurd hlog.symm (List.append_ne_nil_of_right_ne_nil _ (List.cons_ne_nil _ _))
      · exact hstart
  | cons request later ih => exact (ih _).trans live_cons.symm

/-! ## The answers -/

/-- The names of a category are those with a component. -/
theorem mem_names :
    name ∈ c.names category ↔ ∃ component, c.find? name category = some component := by
  rw [names, Text.mem_sorted, ← Option.ne_none_iff_exists', Ne, find?, lookup_eq_none, not_not]

/-- Single requests are answered by what is live under each name and category. -/
structure Serves (c : Catalogue α) (live : String → String → α → Prop) : Prop where
  /-- Getting a name gives the component that is live. -/
  found (name category : String) (component : α) :
    (c.serve (.get name category)).1 = .found component ↔ live name category component
  /-- Getting a name is refused iff nothing is live, and the names of the category are told. -/
  unknown (name category : String) (reason : Error) :
    (c.serve (.get name category)).1 = .refused reason ↔
      (∀ component, ¬ live name category component) ∧
        reason = .unknownName name category (c.names category)
  /-- The names of a category are those that have a live component. -/
  names (name category : String) :
    name ∈ c.names category ↔ ∃ component, live name category component
  /-- Entering a component is refused iff one is live and is not to be overridden. -/
  taken (name : String) (component : α) (category : String) (override : Bool) (reason : Error) :
    (c.serve (.register name component category override)).1 = .refused reason ↔
      (∃ present, live name category present) ∧ override = false ∧
        reason = .nameTaken name category
  /-- Entering a component is met iff none is live or it is to be overridden. -/
  entered (name : String) (component : α) (category : String) (override : Bool) :
    (c.serve (.register name component category override)).1 = .done ↔
      (∀ present, ¬ live name category present) ∨ override = true
  /-- A refused request leaves the catalogue as it is. -/
  refused (request : Request α) (reason : Error)
    (h : (c.serve request).1 = .refused reason) : (c.serve request).2 = c
  /-- Removing a name under which nothing is live leaves the catalogue as it is. -/
  absent (name category : String) (h : ∀ component, ¬ live name category component) :
    (c.serve (.unregister name category)).2 = c
  /-- A category whose name is not empty is listed with its live names, each of them once. -/
  listed (category : String) (h : category ≠ "") : ∃ entries,
    (c.serve (.list (some category))).1 = .listed (.category entries) ∧
      (entries.map Prod.fst).Nodup ∧
      ∀ name component, (name, component) ∈ entries ↔ live name category component
  /-- The overview has each category once, with its live names. -/
  overview : ∃ categories,
    (c.serve (.list none)).1 = .listed (.overview categories) ∧
      (categories.map Prod.fst).Nodup ∧
      ∀ name category, (∃ names, (category, names) ∈ categories ∧ name ∈ names) ↔
        ∃ component, live name category component
  /-- An empty category name asks for the overview. -/
  unnamed : (c.serve (.list (some ""))).1 = (c.serve (.list none)).1

namespace Proper

/-- A category with a name is listed with what is found there. -/
theorem listed (h : c.Proper) (hcategory : category ≠ "") : ∃ entries,
    c.list (some category) = .category entries ∧ (entries.map Prod.fst).Nodup ∧
      ∀ name component, (name, component) ∈ entries ↔ c.find? name category = some component := by
  have hempty : ¬ category.isEmpty = true := fun hempty ↦
    hcategory (String.isEmpty_iff.mp hempty)
  exact ⟨c.entries category, if_neg hempty, h.entries category,
    fun name component ↦ mem_iff_lookup (h.entries category)⟩

/-- The overview has each category with the names that are found there. -/
theorem overview (h : c.Proper) : ∃ categories,
    c.list none = .overview categories ∧ (categories.map Prod.fst).Nodup ∧
      ∀ name category, (∃ names, (category, names) ∈ categories ∧ name ∈ names) ↔
        ∃ component, c.find? name category = some component := by
  refine ⟨_, rfl, ?_, fun name category ↦ ?_⟩
  · rw [List.map_map]
    exact h.categories
  · rw [← mem_names, Catalogue.names, Text.mem_sorted]
    constructor
    · rintro ⟨names, hnames, hname⟩
      obtain ⟨⟨k, bucket⟩, hbucket, hpair⟩ := List.mem_map.mp hnames
      cases hpair
      rw [h.entries_eq hbucket]
      exact Text.mem_sorted.mp hname
    · intro hname
      cases hbucket : c.buckets.lookup category with
      | none => simp [Catalogue.entries, hbucket] at hname
      | some bucket =>
          rw [Catalogue.entries, hbucket, Option.getD_some] at hname
          have hmem := (mem_iff_lookup h.categories).mpr hbucket
          exact ⟨_, List.mem_map_of_mem hmem, Text.mem_sorted.mpr hname⟩

/-- A proper catalogue answers by what is found in it. -/
theorem serves (h : c.Proper) :
    c.Serves fun name category component ↦ c.find? name category = some component where
  found name category component := by
    rw [serve_get]
    cases c.find? name category <;> simp
  unknown name category reason := by
    rw [serve_get]
    cases c.find? name category <;> simp [eq_comm]
  names name category := mem_names
  taken name component category override reason := by
    rw [serve_register]
    cases c.find? name category <;> cases override <;> simp [eq_comm]
  entered name component category override := by
    rw [serve_register]
    cases c.find? name category <;> cases override <;> simp
  refused request reason hrefused := by
    cases request with
    | register name component category override =>
        rw [serve_register] at hrefused ⊢
        split at hrefused
        case isTrue htaken => rw [if_pos htaken]
        case isFalse => cases hrefused
    | unregister name category => cases hrefused
    | get name category =>
        rw [serve_get]
        split <;> rfl
    | list category => rfl
  absent name category hnone := h.unregister_eq_self (Option.eq_none_iff_forall_ne_some.mpr hnone)
  listed category hcategory := by
    obtain ⟨entries, hlist, hentries⟩ := h.listed hcategory
    exact ⟨entries, congrArg Answer.listed hlist, hentries⟩
  overview := by
    obtain ⟨categories, hlist, hcategories⟩ := h.overview
    exact ⟨categories, congrArg Answer.listed hlist, hcategories⟩
  unnamed := rfl

end Proper

/-- After requests to a proper catalogue, each answer is the one that the log of them tells: what is
live under a key is the component that was entered there last, unless it was removed since. -/
theorem serves_live (h : start.Proper) (requests : List (Request α)) :
    (start.after requests).Serves (Live start (start.log requests)) := by
  have hlive : (fun name category component ↦
      (start.after requests).find? name category = some component) =
        Live start (start.log requests) := by
    funext name category component
    exact propext (find?_after start requests name category component)
  exact hlive ▸ (h.after requests).serves

/-- A category without a name has a component, which is found, and which was entered in the place of
another one. But the overview is given in the place of the list of the category. -/
theorem unnamed_category_served :
    let start := ofEntries "" [("x", 1)]
    let requests := [.register "x" 2 "" false, .unregister "y" "", .register "x" 2 "" true]
    start.Proper ∧ (start.after requests).Serves (Live start (start.log requests)) ∧
      ((start.after requests).serve (.get "x" "")).1 = .found 2 ∧
      ((start.after requests).serve (.list (some ""))).1 = .listed (.overview [("", ["x"])]) := by
  intro start requests
  have hproper : start.Proper := ⟨by simp [start, ofEntries], by simp [start, ofEntries]⟩
  have hserves := serves_live hproper requests
  have hafter : start.after requests = ofEntries "" [("x", 2)] := rfl
  refine ⟨hproper, hserves, ?_, ?_⟩
  · rw [hafter]
    rfl
  · rw [hserves.unnamed, hafter]
    simp [serve, list, list.overview, ofEntries, Text.sorted]

end Diagnosis.Catalogue
