import Diagnosis.Proofs.Formula.Legibility
import Diagnosis.Proofs.Problem.Validation

/-!
# What validation reports

Validation lists the defects of a problem. It shows an open observation in its report, so that it
gives no report where an open observation cannot be written: it ends with the fault that writing the
first such observation ends with. A problem with a report is refused with exactly the defects
reported, or accepted if there are none (`validation_reports`).
-/

namespace Diagnosis.Problem

variable {problem : Problem} {suspects : List String} {f : Formula} {fs : List Formula}
  {fault : Fault}

/-- The observation is open and cannot be written. -/
def Unreportable (f : Formula) : Prop :=
  f.isClosed = false ∧ ¬ f.Legible

/-- Listing the defects of an observation fails if it is open and writing it fails. -/
theorem observationDefects_eq_error_iff :
    observationDefects f = .error fault ↔ f.isClosed = false ∧ f.render = .error fault := by
  rw [observationDefects]
  cases hclosed : f.isClosed with
  | true => simp [bind, Except.bind, pure, Except.pure]
  | false => simp [bind_eq_error_iff, pure, Except.pure]

/-- Exactly an open observation that cannot be written has no list of defects. -/
theorem exists_observationDefects_eq_error_iff :
    (∃ fault, observationDefects f = .error fault) ↔ Unreportable f := by
  simp only [observationDefects_eq_error_iff, exists_and_left, exists_eq_error_iff,
    Formula.exists_render_iff, Unreportable]

/-- Listing the defects of observations ends at the first open one that cannot be written. -/
theorem observationsDefects_eq_error_iff :
    observationsDefects fs = .error fault ↔
      ∃ f, First Unreportable fs f ∧ f.render = .error fault := by
  rw [observationsDefects_eq_mapM, flatten_mapM_eq_error_iff, mapM_eq_error_iff]
  refine exists_congr fun f ↦ ?_
  rw [first_congr fun f _ ↦ exists_observationDefects_eq_error_iff, observationDefects_eq_error_iff]
  exact and_congr_right fun h ↦ and_iff_right h.holds.1

/-- The other defects of a problem can always be listed. -/
theorem defects_eq_error_iff :
    problem.defects suspects = .error fault ↔
      ∃ f, First Unreportable problem.observations f ∧ f.render = .error fault := by
  rw [← observationsDefects_eq_error_iff, defects, bind_eq_error_iff]
  refine or_iff_left ?_
  rintro ⟨_, _, ⟨⟩⟩

/-- Exactly a problem whose open observations can be written has a report. -/
theorem exists_defects_iff :
    (∃ defects, problem.defects suspects = .ok defects) ↔
      ∀ f ∈ problem.observations, f.isClosed = true ∨ f.Legible := by
  have hfault : (∃ fault, problem.defects suspects = .error fault) ↔
      ∃ f ∈ problem.observations, Unreportable f := by
    rw [← exists_first_iff]
    simp only [defects_eq_error_iff]
    constructor
    · rintro ⟨_, f, hfirst, _⟩
      exact ⟨f, hfirst⟩
    · rintro ⟨f, hfirst⟩
      obtain ⟨fault, hfault⟩ := exists_observationDefects_eq_error_iff.mpr hfirst.holds
      exact ⟨fault, f, hfirst, (observationDefects_eq_error_iff.mp hfault).2⟩
  rw [← not_iff_not, ← exists_eq_error_iff, hfault]
  simp only [Unreportable, not_forall, not_or, exists_prop, Bool.not_eq_true]

/-- Validation reports the defects of a problem exactly if each of its observations is closed or can
be written. Otherwise it ends with the fault of writing the first observation that is neither,
which lacks a connective or an operand somewhere. A problem without defects is accepted, one with
defects is refused with exactly these, and one without a report is neither accepted nor refused. -/
theorem validation_reports (problem : Problem) (suspects : List String) :
    ((∃ defects, problem.defects suspects = .ok defects) ↔
      ∀ f ∈ problem.observations, f.isClosed = true ∨ f.Legible) ∧
    (∀ fault, problem.defects suspects = .error fault ↔
      ∃ f, First (fun f ↦ f.isClosed = false ∧ ¬ f.Legible) problem.observations f ∧
        f.render = .error fault) ∧
    (∀ defects, problem.defects suspects = .ok defects →
      problem.assertValid suspects =
        if defects = [] then .ok () else .error (.invalidProblem defects)) ∧
    ∀ fault, problem.defects suspects = .error fault →
      (fault = .missingConnective ∨ fault = .missingOperand) ∧
        problem.assertValid suspects = .error (.fault fault) := by
  refine ⟨exists_defects_iff, fun fault ↦ defects_eq_error_iff, fun defects h ↦ ?_,
    fun fault h ↦ ⟨?_, ?_⟩⟩
  · rw [assertValid, h]
    cases defects <;> rfl
  · obtain ⟨f, _, hf⟩ := defects_eq_error_iff.mp h
    exact f.render_failsOnly fault hf
  · rw [assertValid, h]
    rfl

/-- A problem without components that observes a negation of nothing and a property of the term. -/
def danglingProblem (term : String) : Problem where
  description := []
  components := []
  observations := [.conj [{ connective := some .not }, .atom "p" [term]]]

/-- If the term is a constant, the negation is reported. If it is a variable, the report would have
to show the observation, and validation ends with a fault. -/
theorem danglingProblem_unreported :
    (∃ defects, (danglingProblem "a").defects [] = .ok defects) ∧
      (danglingProblem "?x").defects [] = .error .missingOperand ∧
      (danglingProblem "?x").assertValid [] = .error (.fault .missingOperand) := by
  obtain ⟨hreported, -, -, -⟩ := validation_reports (danglingProblem "a") []
  obtain ⟨-, hfault, -, hunreported⟩ := validation_reports (danglingProblem "?x") []
  have hdefects : (danglingProblem "?x").defects [] = .error .missingOperand := by
    refine (hfault _).mpr ⟨_, .here ⟨by decide, fun h ↦ ?_⟩, rfl⟩
    -- Writing the observation ends at the negation.
    obtain ⟨text, htext⟩ := (Formula.exists_render_iff _).mpr h
    cases htext
  refine ⟨hreported.mpr ?_, hdefects, (hunreported _ hdefects).2⟩
  exact List.forall_mem_singleton.mpr (.inl (by decide))

end Diagnosis.Problem
