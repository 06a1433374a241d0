import Diagnosis.Proofs.Problem.Grounding
import Diagnosis.Proofs.Problem.Reports

/-!
# Refusals

A problem may be refused because it is not valid or because its description cannot be grounded.
If its formulas are well formed, no step of validation or grounding fails otherwise: what a message
shows can be written, and a quantifier has a body.
-/

namespace Diagnosis

/-- The error refuses the problem: it is not valid, or its description cannot be grounded. -/
def Error.Refuses : Error → Prop
  | .invalidProblem _ => True
  | .ungroundable _ _ _ => True
  | _ => False

/-- The error blames a statement for not fitting the grounding scheme. -/
def Error.Blames (statement : Formula) (e : Error) : Prop :=
  ∃ defect written, e = .ungroundable defect statement written

/-- An error that blames a statement refuses the problem. -/
theorem Error.Blames.refuses {statement : Formula} {e : Error} (h : e.Blames statement) :
    e.Refuses := by
  obtain ⟨defect, written, rfl⟩ := h
  trivial

/-! ## Validation -/

namespace Problem

/-- Well-formed problems pass validation or are refused. -/
theorem assertValid_failsOnly {problem : Problem} {suspects : List String}
    (hobservations : ∀ f ∈ problem.observations, f.WellFormed) :
    FailsOnly Error.Refuses (problem.assertValid suspects) := by
  have hreport : ∃ defects, problem.defects suspects = .ok defects :=
    exists_defects_iff.mpr fun f hf ↦ .inr (f.exists_render_iff.mp (hobservations f hf).render)
  have hlifted : ∃ defects, liftFault (problem.defects suspects) = .ok defects :=
    hreport.imp fun defects hdefects ↦ liftFault_eq_ok_iff.mpr hdefects
  refine (FailsOnly.of_ok hlifted).bind fun defects _ ↦ ?_
  split
  case isTrue => exact .of_ok ⟨(), rfl⟩
  case isFalse =>
    rintro e h
    cases h
    trivial

end Problem

/-! ## Grounding -/

namespace Formula

variable {sort : String} {statement : Formula}

/-- A well-formed statement that does not fit the scheme is blamed. -/
theorem WellFormed.ungroundable_failsOnly {α : Type} (hf : statement.WellFormed)
    (defect : GroundingDefect) :
    FailsOnly (Error.Blames statement) (statement.ungroundable defect : Except Error α) := by
  obtain ⟨text, htext⟩ := hf.render
  refine (FailsOnly.of_ok ⟨text, liftFault_eq_ok_iff.mpr htext⟩).bind fun text _ ↦ ?_
  rintro e h
  cases h
  exact ⟨defect, text, rfl⟩

/-- A plain well-formed statement passes or is blamed. -/
theorem WellFormed.checkPlain_failsOnly (hf : statement.WellFormed) :
    FailsOnly (Error.Blames statement) statement.checkPlain := by
  unfold checkPlain
  split
  case isTrue => exact .of_ok ⟨(), rfl⟩
  case isFalse => exact hf.ungroundable_failsOnly _

/-- A well-formed statement with a quantifier at the top passes or is blamed. -/
theorem WellFormed.checkGroundable_failsOnly (hf : statement.WellFormed) :
    FailsOnly (Error.Blames statement) (statement.checkGroundable sort) := by
  unfold checkGroundable
  split
  case isTrue => exact hf.ungroundable_failsOnly _
  case isFalse huniversal =>
    obtain ⟨x, f, sort', rfl, _⟩ := hf.eq_univ (not_not.mp huniversal)
    refine (FailsOnly.of_ok ⟨f, rfl⟩).bind fun body _ ↦ ?_
    split
    case isTrue => exact hf.ungroundable_failsOnly _
    case isFalse =>
      split
      case isTrue => exact hf.ungroundable_failsOnly _
      case isFalse =>
        split
        case isTrue => exact .of_ok ⟨(), rfl⟩
        case isFalse => exact hf.ungroundable_failsOnly _

/-- The instances of a well-formed statement are listed unless the check of the statement fails.
Components play no part in it. -/
theorem WellFormed.instances_eq_error_iff (hf : statement.WellFormed) (components : List String)
    {e : Error} :
    statement.instances sort components = .error e ↔ statement.checkGroundable sort = .error e := by
  rw [instances, bind_eq_error_iff]
  refine or_iff_left ?_
  rintro ⟨_, hcheck, hinstances⟩
  obtain ⟨x, f, sort', rfl, _⟩ := hf.eq_univ (checkGroundable_eq_ok hcheck).1
  obtain ⟨c, _, hinstance⟩ := mapM_eq_error_iff.mp hinstances
  cases hinstance

/-- A well-formed description is grounded or refused. -/
theorem ground_failsOnly {description : List Formula} (components : List String)
    (hdescription : ∀ f ∈ description, f.WellFormed) :
    FailsOnly Error.Refuses (ground description components sort) := by
  simp only [ground, partitionStatements, List.partition_eq_filter_filter]
  refine (FailsOnly.forM fun f hf ↦ ?_).bind fun u _ ↦
    (FailsOnly.mapM fun f hf ↦ ?_).bind fun fss _ ↦ .of_ok ⟨_, rfl⟩
  · have hwellFormed := hdescription f (List.mem_of_mem_filter hf)
    exact hwellFormed.checkPlain_failsOnly.mono fun _ ↦ Error.Blames.refuses
  · have hwellFormed := hdescription f (List.mem_of_mem_filter hf)
    intro e he
    exact (hwellFormed.checkGroundable_failsOnly e
      ((hwellFormed.instances_eq_error_iff components).mp he)).refuses

end Formula

end Diagnosis
