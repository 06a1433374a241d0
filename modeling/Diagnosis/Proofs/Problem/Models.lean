import Diagnosis.Problem.Basic
import Diagnosis.Proofs.Problem.Grounding
import Diagnosis.Proofs.Problem.Theory

/-!
# Models of a problem

A model of a problem under a hypothesis agrees with the description, whose quantifiers range over
the components, with the observations, and with the normality of every component that is not
suspected. Grounding keeps this reading: there is a model if the trusted components do not
contradict the grounded description and the observations (`Problem.exists_model_iff`).
-/

namespace Diagnosis.Problem

variable {problem : Problem} {sort : String} {grounded : List Formula}

/-- The assignment agrees with all that is said and assumed of the components. -/
structure Model (problem : Problem) (abnormal : String) (suspects : List String)
    (truth : Atom → Prop) : Prop where
  description : ∀ f ∈ problem.description, f.HoldsIn problem.components truth
  observations : ∀ f ∈ problem.observations, f.HoldsIn problem.components truth
  normal : ∀ c ∈ problem.components, c ∉ suspects → ¬ truth { name := abnormal, args := [c] }

/-- There is a model if the trusted components do not contradict the facts. -/
theorem exists_model_iff (abnormal : String) (suspects : List String)
    (hdescription : ∀ f ∈ problem.description, f.WellFormed)
    (hobservations : ∀ f ∈ problem.observations, f.Propositional Formula.anyConnective)
    (hgrounded : Formula.ground problem.description problem.components sort = .ok grounded) :
    (∃ truth, problem.Model abnormal suspects truth) ↔
      ¬ Contradicts abnormal (grounded ++ problem.observations)
        (trusted problem.components suspects).toFinset := by
  rw [Contradicts, not_not]
  refine exists_congr fun truth ↦ ?_
  have hdescribed : (∀ f ∈ grounded, trueUnder truth f) ↔
      ∀ f ∈ problem.description, f.HoldsIn problem.components truth :=
    Formula.holdsIn_ground hdescription hgrounded
  have hobserved : (∀ f ∈ problem.observations, trueUnder truth f) ↔
      ∀ f ∈ problem.observations, f.HoldsIn problem.components truth :=
    forall₂_congr fun f hf ↦ (hobservations f hf).holds_range _ _
  rw [List.forall_mem_append, hdescribed, hobserved]
  simp only [trueUnder_normality, List.mem_toFinset, mem_trusted, and_imp]
  exact ⟨fun h ↦ ⟨⟨h.description, h.observations⟩, h.normal⟩, fun h ↦ ⟨h.1.1, h.1.2, h.2⟩⟩

end Diagnosis.Problem
