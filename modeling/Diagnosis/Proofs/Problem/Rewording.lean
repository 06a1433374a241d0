import Diagnosis.Problem.Basic
import Diagnosis.Proofs.Problem.Grounding
import Diagnosis.Proofs.Problem.MinimalConflicts
import Mathlib.Logic.Relation

/-!
# The wording of a problem

A problem under a hypothesis can be written down in many ways: its lists can be permuted, statements
and observations can be repeated, and two observations can be joined into one. `Rewords` is one such
change. What it keeps are the members of the lists, and of the observations their conjuncts
(`Alike`), and this is all that grounding, contradictions and minimal conflicts depend on.
-/

namespace Diagnosis

/-! ## Rewordings -/

/-- One change in the way in which a problem under a hypothesis is written down. -/
inductive Rewords : Problem × List String → Problem × List String → Prop where
  /-- The statements in another order. -/
  | description {problem : Problem} {suspects : List String} {statements : List Formula}
      (hperm : problem.description.Perm statements) :
      Rewords (problem, suspects) ({ problem with description := statements }, suspects)
  /-- The components in another order. -/
  | components {problem : Problem} {suspects names : List String}
      (hperm : problem.components.Perm names) :
      Rewords (problem, suspects) ({ problem with components := names }, suspects)
  /-- The observations in another order. -/
  | observations {problem : Problem} {suspects : List String} {observed : List Formula}
      (hperm : problem.observations.Perm observed) :
      Rewords (problem, suspects) ({ problem with observations := observed }, suspects)
  /-- The suspects in another order. -/
  | suspects {problem : Problem} {suspects names : List String} (hperm : suspects.Perm names) :
      Rewords (problem, suspects) (problem, names)
  /-- A statement once more. -/
  | restated {problem : Problem} {suspects : List String} {f : Formula}
      (hf : f ∈ problem.description) :
      Rewords (problem, suspects)
        ({ problem with description := f :: problem.description }, suspects)
  /-- An observation once more. -/
  | reobserved {problem : Problem} {suspects : List String} {f : Formula}
      (hf : f ∈ problem.observations) :
      Rewords (problem, suspects)
        ({ problem with observations := f :: problem.observations }, suspects)
  /-- Two observations as one. -/
  | joined {problem : Problem} {suspects : List String} {f g : Formula} {others : List Formula}
      (hobserved : problem.observations = f :: g :: others) :
      Rewords (problem, suspects)
        ({ problem with observations := .conj [f, g] :: others }, suspects)

/-- The same problem under the same hypothesis, written down in any two ways. -/
abbrev Reworded : Problem × List String → Problem × List String → Prop :=
  Relation.EqvGen Rewords

/-! ## What rewording keeps -/

namespace Formula

variable {fs gs : List Formula} {f : Formula}

/-- The conjuncts of a conjunction are those of its parts. -/
theorem mem_conjuncts_conj : f ∈ (conj fs).conjuncts ↔ ∃ g ∈ fs, f ∈ g.conjuncts := by
  simp only [mem_conjuncts, conjunctLeaves_conj, List.mem_flatMap]

/-- The conjuncts of facts of two kinds. -/
theorem mem_conjuncts_append :
    f ∈ (conj (fs ++ gs)).conjuncts ↔ f ∈ (conj fs).conjuncts ∨ f ∈ (conj gs).conjuncts := by
  simp only [mem_conjuncts_conj, List.mem_append, or_and_right, exists_or]

/-- Two facts have the conjuncts of the one that joins them. -/
theorem mem_conjuncts_joined {g g' : Formula} :
    f ∈ (conj (conj [g, g'] :: fs)).conjuncts ↔ f ∈ (conj (g :: g' :: fs)).conjuncts := by
  simp

end Formula

/-- Two problems under hypotheses that say the same, whatever the order, the repetitions and the
conjunctions in which they say it. -/
structure Alike (left right : Problem × List String) : Prop where
  description : ∀ f, f ∈ left.1.description ↔ f ∈ right.1.description
  components : ∀ c, c ∈ left.1.components ↔ c ∈ right.1.components
  observations : ∀ f, f ∈ (Formula.conj left.1.observations).conjuncts ↔
    f ∈ (Formula.conj right.1.observations).conjuncts
  suspects : ∀ c, c ∈ left.2 ↔ c ∈ right.2

namespace Alike

variable {left middle right : Problem × List String}

/-- A problem says what it says. -/
theorem refl (problem : Problem × List String) : Alike problem problem :=
  ⟨fun _ ↦ Iff.rfl, fun _ ↦ Iff.rfl, fun _ ↦ Iff.rfl, fun _ ↦ Iff.rfl⟩

/-- Saying the same goes both ways. -/
theorem symm (h : Alike left right) : Alike right left :=
  ⟨fun f ↦ (h.description f).symm, fun c ↦ (h.components c).symm,
    fun f ↦ (h.observations f).symm, fun c ↦ (h.suspects c).symm⟩

/-- What says the same as the same says the same. -/
theorem trans (h : Alike left middle) (h' : Alike middle right) : Alike left right :=
  ⟨fun f ↦ (h.description f).trans (h'.description f),
    fun c ↦ (h.components c).trans (h'.components c),
    fun f ↦ (h.observations f).trans (h'.observations f),
    fun c ↦ (h.suspects c).trans (h'.suspects c)⟩

end Alike

/-- One change in the wording keeps what is said. -/
theorem Rewords.alike {left right : Problem × List String} (h : Rewords left right) :
    Alike left right := by
  cases h with
  | description hperm => exact { Alike.refl _ with description := fun f ↦ hperm.mem_iff }
  | components hperm => exact { Alike.refl _ with components := fun c ↦ hperm.mem_iff }
  | suspects hperm => exact { Alike.refl _ with suspects := fun c ↦ hperm.mem_iff }
  | observations hperm =>
      refine { Alike.refl _ with observations := fun f ↦ ?_ }
      simp only [Formula.mem_conjuncts_conj, hperm.mem_iff]
  | restated hf =>
      refine { Alike.refl _ with description := fun g ↦ ?_ }
      exact (or_iff_right_of_imp fun heq ↦ heq ▸ hf).symm.trans List.mem_cons.symm
  | reobserved hf =>
      refine { Alike.refl _ with observations := fun g ↦ ?_ }
      simp only [Formula.mem_conjuncts_conj, List.exists_mem_cons_iff]
      exact (or_iff_right_of_imp fun hg ↦ ⟨_, hf, hg⟩).symm
  | joined hobserved =>
      refine { Alike.refl _ with observations := fun g ↦ ?_ }
      rw [hobserved]
      exact Formula.mem_conjuncts_joined.symm

/-- Any number of changes in the wording keep what is said. -/
theorem Reworded.alike {left right : Problem × List String} (h : Reworded left right) :
    Alike left right := by
  induction h with
  | rel left right hstep => exact hstep.alike
  | refl problem => exact .refl problem
  | symm left right _ ih => exact ih.symm
  | trans left middle right _ _ ih ih' => exact ih.trans ih'

/-! ## What depends on what is said alone -/

section Facts

variable {abnormal : String} {facts facts' : List Formula} {names names' : List String}
  {working : Finset String} {f : Formula}

/-- Facts are contradicted for what they say. -/
theorem contradicts_congr (hfacts : ∀ f, f ∈ facts ↔ f ∈ facts') :
    Contradicts abnormal facts working ↔ Contradicts abnormal facts' working := by
  simp only [Contradicts, hfacts]

/-- Well-formed facts are contradicted for what their conjuncts say. -/
theorem contradicts_congr_conjuncts (hwellFormed : ∀ f ∈ facts, f.WellFormed)
    (hwellFormed' : ∀ f ∈ facts', f.WellFormed)
    (hfacts : ∀ f, f ∈ (Formula.conj facts).conjuncts ↔ f ∈ (Formula.conj facts').conjuncts) :
    Contradicts abnormal facts working ↔ Contradicts abnormal facts' working := by
  rw [← contradicts_conjuncts_iff hwellFormed, ← contradicts_conjuncts_iff hwellFormed']
  exact contradicts_congr hfacts

/-- The background depends on the conjuncts of the facts and on which components are trusted. -/
theorem mem_background_congr
    (hfacts : ∀ f, f ∈ (Formula.conj facts).conjuncts ↔ f ∈ (Formula.conj facts').conjuncts)
    (hnames : ∀ c, c ∈ names ↔ c ∈ names') :
    f ∈ background abnormal facts names ↔ f ∈ background abnormal facts' names' := by
  simp only [background, List.mem_filter, hfacts, Bool.not_eq_true', List.contains_eq_mem,
    decide_eq_false_iff_not, List.mem_map, hnames]

/-- Minimal conflicts depend on which components are trusted. -/
theorem minimalConflict_congr_names (hnames : ∀ c, c ∈ names ↔ c ∈ names')
    {conflict : Finset String} :
    MinimalConflict abnormal facts names conflict ↔
      MinimalConflict abnormal facts names' conflict := by
  have hsame : names.toFinset = names'.toFinset := by
    ext c
    rw [List.mem_toFinset, List.mem_toFinset, hnames]
  rw [MinimalConflict, MinimalConflict, hsame]

end Facts

namespace Alike

variable {problem problem' : Problem} {suspects suspects' : List String} {sort : String}
  {grounded grounded' : List Formula}

/-- The same components are trusted. -/
theorem mem_trusted (h : Alike (problem, suspects) (problem', suspects')) (c : String) :
    c ∈ trusted problem.components suspects ↔ c ∈ trusted problem'.components suspects' := by
  rw [Diagnosis.mem_trusted, Diagnosis.mem_trusted, h.components c, h.suspects c]

/-- The descriptions are grounded to the same instances. -/
theorem mem_grounded (h : Alike (problem, suspects) (problem', suspects'))
    (hgrounded : Formula.ground problem.description problem.components sort = .ok grounded)
    (hgrounded' : Formula.ground problem'.description problem'.components sort = .ok grounded')
    (f : Formula) : f ∈ grounded ↔ f ∈ grounded' := by
  rw [Formula.mem_ground hgrounded, Formula.mem_ground hgrounded', h.description f]
  simp only [h.description, h.components]

/-- The facts have the same conjuncts. -/
theorem mem_conjuncts (h : Alike (problem, suspects) (problem', suspects'))
    (hgrounded : Formula.ground problem.description problem.components sort = .ok grounded)
    (hgrounded' : Formula.ground problem'.description problem'.components sort = .ok grounded')
    (f : Formula) :
    f ∈ (Formula.conj (grounded ++ problem.observations)).conjuncts ↔
      f ∈ (Formula.conj (grounded' ++ problem'.observations)).conjuncts := by
  rw [Formula.mem_conjuncts_append, Formula.mem_conjuncts_append, h.observations f]
  refine or_congr_left ?_
  simp only [Formula.mem_conjuncts_conj, h.mem_grounded hgrounded hgrounded']

end Alike

end Diagnosis
