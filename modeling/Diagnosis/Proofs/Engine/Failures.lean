import Diagnosis.Proofs.Engine.Outcomes
import Diagnosis.Proofs.Problem.Refusals
import Diagnosis.Proofs.Smt.Backend

/-!
# How a diagnosis fails

A diagnosis of a well-formed problem that is validated first is refused, as invalid or as not
groundable, or comes to a search (`diagnose_refused_or_valid`). With the propositional back end the
search always has an outcome. The first-order back end also refutes theories with quantified
observations, and then there is no outcome: conflicts are read off clauses, which a quantified
observation does not have.
-/

namespace Diagnosis

variable {σ : Type} {backend : Backend σ} {limits : Cores.Limits} {settings : ProblemSettings}
  {problem : Problem} {suspects components : List String} {grounded premises : List Formula}
  {oracle : Cores.Oracle σ} {abnormal : String}

/-! ## Refusals -/

/-- A well-formed problem that is validated first is refused, or it is valid and grounded. -/
theorem diagnose_refused_or_valid (backend : Backend σ) (limits : Cores.Limits)
    (suspects : List String) (hdescription : ∀ f ∈ problem.description, f.WellFormed)
    (hobservations : ∀ f ∈ problem.observations, f.WellFormed)
    (hvalidate : settings.validateInputs = true) :
    (∃ e : Error, e.Refuses ∧
        diagnose backend limits settings problem suspects = .error e) ∨
      (problem.assertValid suspects = .ok () ∧ ∃ grounded,
        Formula.ground problem.description problem.components settings.componentSort =
          .ok grounded) := by
  cases hvalid : problem.assertValid suspects with
  | error e =>
      refine .inl ⟨e, Problem.assertValid_failsOnly hobservations e hvalid, ?_⟩
      rw [diagnose, if_pos hvalidate, hvalid]
      rfl
  | ok u =>
      cases hgrounded :
        Formula.ground problem.description problem.components settings.componentSort with
      | error e =>
          refine .inl ⟨e, Formula.ground_failsOnly problem.components hdescription e hgrounded, ?_⟩
          rw [diagnose, if_pos hvalidate, hvalid, hgrounded]
          rfl
      | ok grounded => exact .inr ⟨rfl, grounded, rfl⟩

/-! ## Quantified premises -/

/-- A search has no outcome if it refutes premises among which a quantified one belongs to the
background. -/
theorem outcome_of_quantified (hpremises : ∀ f ∈ premises, f.WellFormed) {tracked : List Nat}
    (hquantified : ∃ i, i ∉ tracked ∧ ∃ f, premises[i]? = some f ∧ f.containsQuantifier = true)
    {start : σ}
    (hproved : (searchProof premises tracked limits oracle start).attempt.status = .proved) :
    ∃ written, outcomeOfProof settings components
      (searchProof premises tracked limits oracle start) = .error (.quantifiedClauses written) := by
  have hruns := runs_searchProof premises tracked limits oracle start
  obtain ⟨written, hwritten⟩ : ∃ written, mineConflicts settings.abnormal
      (searchProof premises tracked limits oracle start).refutations =
        .error (.quantifiedClauses written) := by
    rw [refutations_searchProof]
    refine mineConflicts_of_quantified settings.abnormal ?_ (fun r hr f hf ↦ ?_) fun r hr ↦ ?_
    · exact List.map_eq_nil_iff.not.mpr (hruns.cores_ne_nil_iff.mpr hproved)
    · obtain ⟨core, _, rfl⟩ := List.mem_map.mp hr
      exact hpremises f (certificate_subset _ _ core hf)
    · -- Whatever its core, a certificate holds the background.
      obtain ⟨core, _, rfl⟩ := List.mem_map.mp hr
      obtain ⟨i, huntracked, f, hf, hquantifier⟩ := hquantified
      exact ⟨f, (mem_certificate _ _).mpr ⟨i, hf, .inr huntracked⟩, hquantifier⟩
  refine ⟨written, ?_⟩
  rw [outcomeOfProof, hproved, hwritten]
  rfl

/-- The premises of a regular problem have a quantifier if its observations have one. -/
theorem Problem.Regular.exists_quantified_iff {sort : String} (hproblem : problem.Regular)
    (abnormal : String) (suspects : List String)
    (hgrounded : Formula.ground problem.description problem.components sort = .ok grounded) :
    (∃ f ∈ problem.premises abnormal suspects grounded, f.containsQuantifier = true) ↔
      ∃ f ∈ problem.observations, f.containsQuantifier = true := by
  have hground := Formula.ground_of_ground hproblem.constants hproblem.description hgrounded
  have htheory := wellFormed_assembleTheory problem.components suspects abnormal
    (hproblem.facts hgrounded)
  have hplain : (∀ f ∈ problem.premises abnormal suspects grounded,
      f.containsQuantifier = false) ↔
        ∀ f ∈ problem.observations, f.containsQuantifier = false := by
    rw [Problem.premises, Formula.forall_conjuncts _ (fun _ ↦ Formula.plain_conj) htheory,
      assembleTheory, Formula.plain_conj, List.forall_mem_append, List.forall_mem_append]
    refine and_iff_right ⟨fun f hf ↦ (hground f hf).plain, List.forall_mem_map.mpr fun c hc ↦ ?_⟩
    exact (ground_normality (hproblem.constants c (List.mem_of_mem_filter hc))).plain
  simpa using not_congr hplain

/-- The premises of a regular problem are closed if its observations are. -/
theorem Problem.Regular.premises_closed {sort : String} (hproblem : problem.Regular)
    (abnormal : String) (suspects : List String)
    (hgrounded : Formula.ground problem.description problem.components sort = .ok grounded)
    (hclosed : ∀ f ∈ problem.observations, f.isClosed = true) :
    ∀ f ∈ problem.premises abnormal suspects grounded, f.isClosed = true := by
  have hground := Formula.ground_of_ground hproblem.constants hproblem.description hgrounded
  have htheory := wellFormed_assembleTheory problem.components suspects abnormal
    (hproblem.facts hgrounded)
  rw [Problem.premises, Formula.forall_conjuncts _ (fun _ ↦ Formula.isClosed_conj) htheory,
    assembleTheory, Formula.isClosed_conj, List.forall_mem_append, List.forall_mem_append]
  refine ⟨⟨fun f hf ↦ (hground f hf).closed, List.forall_mem_map.mpr fun c hc ↦ ?_⟩, hclosed⟩
  exact (ground_normality (hproblem.constants c (List.mem_of_mem_filter hc))).closed

/-! ## The two back ends -/

/-- With the propositional back end, a valid and grounded problem has an outcome. -/
theorem exists_propositional_outcome (maxDecisions : Int) (order : LiteralOrder)
    (hproblem : problem.Regular)
    (hvalid : problem.assertValid suspects = .ok ())
    (hgrounded : Formula.ground problem.description problem.components settings.componentSort =
      .ok grounded) :
    ∃ outcome,
      diagnose (.propositional maxDecisions order) limits settings problem suspects =
        .ok outcome := by
  have hpremises := hproblem.premises settings.abnormal suspects hgrounded
  by_cases hquantified : ∃ f ∈ problem.premises settings.abnormal suspects grounded,
    f.containsQuantifier = true
  · -- The back end gives up on quantified premises, so that nothing is proved.
    obtain ⟨reason, hload⟩ := Backend.propositional_load_of_quantified maxDecisions order
      hpremises hquantified
    obtain ⟨asked, _, hloaded, hdiagnose⟩ := diagnose_of_load limits hvalid hgrounded
      hload
    obtain ⟨reason', rfl⟩ : ∃ reason', asked = Backend.givingUp reason' := by
      rcases hloaded with rfl | hloaded
      · exact ⟨_, rfl⟩
      · exact ⟨reason, Except.ok.inj (hloaded.symm.trans hload)⟩
    rw [hdiagnose]
    refine exists_outcomeOfProof fun hproved ↦ ?_
    cases (Backend.status_givingUp _ _ _).symm.trans hproved
  · obtain ⟨oracle, hload⟩ := Backend.propositional_loads maxDecisions order _ hpremises
    obtain ⟨asked, _, _, hdiagnose⟩ := diagnose_of_load limits hvalid hgrounded hload
    rw [hdiagnose]
    refine exists_outcome_of_plain (fun f hf ↦ (hpremises f hf).propositional ?_) _ _
    exact Bool.eq_false_iff.mpr fun hquantifier ↦ hquantified ⟨f, hf, hquantifier⟩

/-- With the first-order back end, a valid and grounded problem is searched, and the search proves
if a question is allowed and the solver refutes the premises. -/
theorem firstOrder_diagnose (solver : Smt.Solver) (limits : Cores.Limits)
    (hproblem : problem.Regular)
    (hvalid : problem.assertValid suspects = .ok ())
    (hgrounded : Formula.ground problem.description problem.components settings.componentSort =
      .ok grounded) :
    ∃ asked : Cores.Oracle Unit,
      diagnose (.firstOrder solver) limits settings problem suspects =
        outcomeOfProof settings problem.components
          (searchProof (problem.premises settings.abnormal suspects grounded)
            (problem.tracked settings.abnormal suspects grounded) limits asked ()) ∧
      ((searchProof (problem.premises settings.abnormal suspects grounded)
          (problem.tracked settings.abnormal suspects grounded) limits asked ()).attempt.status =
            .proved ↔
        0 < limits.checks ∧
          Backend.SolverRefutes solver (problem.premises settings.abnormal suspects grounded)) := by
  have hpremises := hproblem.premises settings.abnormal suspects hgrounded
  have hclosed := hproblem.premises_closed settings.abnormal suspects hgrounded
    (Problem.isClosed_of_assertValid hvalid)
  obtain ⟨asked, hasked, _, hdiagnose⟩ := diagnose_of_load limits hvalid hgrounded
    (Backend.firstOrder_load_of_closed solver hpremises hclosed)
  refine ⟨asked, hdiagnose, ?_⟩
  rw [Backend.status_searchProof]
  by_cases hchecks : 0 < limits.checks
  · rw [if_neg (Int.not_le.mpr hchecks), hasked hchecks, Backend.status_premiseOracle,
      and_iff_right hchecks]
  · simp [Int.not_lt.mp hchecks, hchecks]

/-- With the first-order back end, a valid and grounded problem with a quantified observation has no
outcome if the solver refutes the premises. The error shows the refutation. -/
theorem firstOrder_fails {solver : Smt.Solver} (hproblem : problem.Regular)
    (hvalid : problem.assertValid suspects = .ok ())
    (hgrounded : Formula.ground problem.description problem.components settings.componentSort =
      .ok grounded)
    (hquantified : ∃ f ∈ problem.observations, f.containsQuantifier = true)
    (hchecks : 0 < limits.checks)
    (hrefutes : Backend.SolverRefutes solver
      (problem.premises settings.abnormal suspects grounded)) :
    ∃ written, diagnose (.firstOrder solver) limits settings problem suspects =
      .error (.quantifiedClauses written) := by
  obtain ⟨asked, hdiagnose, hproved⟩ := firstOrder_diagnose solver limits hproblem hvalid hgrounded
  obtain ⟨f, hf, hquantifier⟩ := (hproblem.exists_quantified_iff settings.abnormal suspects
    hgrounded).mpr hquantified
  obtain ⟨i, hi⟩ := List.mem_iff_getElem?.mp hf
  rw [hdiagnose]
  refine outcome_of_quantified (hproblem.premises _ _ hgrounded) ⟨i, fun htracked ↦ ?_, f, hi,
    hquantifier⟩ (hproved.mpr ⟨hchecks, hrefutes⟩)
  -- What is tracked says that a component is normal, and has no quantifier.
  obtain ⟨c, _, hpremise⟩ := mem_normalityPositions.mp htracked
  rw [hi, Option.some.injEq] at hpremise
  rw [hpremise] at hquantifier
  cases hquantifier

/-- With the first-order back end, a valid and grounded problem has an outcome unless an observation
is quantified and the solver refutes the premises. -/
theorem firstOrder_succeeds {solver : Smt.Solver} {limits : Cores.Limits}
    (hproblem : problem.Regular)
    (hvalid : problem.assertValid suspects = .ok ())
    (hgrounded : Formula.ground problem.description problem.components settings.componentSort =
      .ok grounded)
    (h : (∃ f ∈ problem.observations, f.containsQuantifier = true) → 0 < limits.checks →
      ¬ Backend.SolverRefutes solver (problem.premises settings.abnormal suspects grounded)) :
    ∃ outcome,
      diagnose (.firstOrder solver) limits settings problem suspects = .ok outcome := by
  have hpremises := hproblem.premises settings.abnormal suspects hgrounded
  obtain ⟨asked, hdiagnose, hproved⟩ := firstOrder_diagnose solver limits hproblem hvalid hgrounded
  rw [hdiagnose]
  by_cases hquantified : ∃ f ∈ problem.observations, f.containsQuantifier = true
  · refine exists_outcomeOfProof fun hstatus ↦ ?_
    obtain ⟨hchecks, hrefutes⟩ := hproved.mp hstatus
    exact absurd hrefutes (h hquantified hchecks)
  · rw [← hproblem.exists_quantified_iff settings.abnormal suspects hgrounded] at hquantified
    refine exists_outcome_of_plain (fun f hf ↦ (hpremises f hf).propositional ?_) _ _
    exact Bool.eq_false_iff.mpr fun hquantifier ↦ hquantified ⟨f, hf, hquantifier⟩

/-! ## Failures -/

/-- A component that is normal gives output. No component is observed to give any. -/
def silentProblem : Problem where
  description := [.univ "?x" (.imp (.neg (.atom "ab" ["?x"])) (.atom "out" ["?x"]))]
  components := ["a"]
  observations := [.univ "?x" (.neg (.atom "out" ["?x"]))]

/-- With the propositional back end and any order of the literals, a diagnosis of a well-formed
problem that is validated first fails only if the problem is refused. With the first-order back end
and any solver it can fail in one more way, and does so exactly if an observation is quantified and
the solver is asked about the premises of the valid, grounded problem and refutes them: then no
conflicts can be read off the refutation. -/
theorem diagnose_failures (limits : Cores.Limits) (suspects : List String)
    (hdescription : ∀ f ∈ problem.description, f.WellFormed)
    (hobservations : ∀ f ∈ problem.observations, f.WellFormed)
    (hvalidate : settings.validateInputs = true) :
    (∀ maxDecisions order, FailsOnly Error.Refuses
      (diagnose (.propositional maxDecisions order) limits settings problem suspects)) ∧
    ∀ solver,
      FailsOnly (fun e ↦ e.Refuses ∨ ∃ written, e = .quantifiedClauses written)
        (diagnose (.firstOrder solver) limits settings problem suspects) ∧
      ((∃ written, diagnose (.firstOrder solver) limits settings problem suspects =
          .error (.quantifiedClauses written)) ↔
        (∃ f ∈ problem.observations, f.containsQuantifier = true) ∧
          problem.assertValid suspects = .ok () ∧ 0 < limits.checks ∧
          ∃ grounded,
            Formula.ground problem.description problem.components settings.componentSort =
              .ok grounded ∧
            Backend.SolverRefutes solver
              (problem.premises settings.abnormal suspects grounded)) := by
  have hcases {σ : Type} (backend : Backend σ) := diagnose_refused_or_valid backend limits
    suspects hdescription hobservations hvalidate
  have hregular (hvalid : problem.assertValid suspects = .ok ()) : problem.Regular :=
    ⟨hdescription, hobservations, Problem.isVariable_of_assertValid hvalid⟩
  refine ⟨fun maxDecisions order ↦ ?_, fun solver ↦ ⟨?_, ?_, ?_⟩⟩
  · rcases hcases (.propositional maxDecisions order) with
      ⟨e, hrefuses, h⟩ | ⟨hvalid, grounded, hgrounded⟩
    · exact .of_error h hrefuses
    · exact .of_ok (exists_propositional_outcome maxDecisions order (hregular hvalid) hvalid
        hgrounded)
  · rcases hcases (.firstOrder solver) with ⟨e, hrefuses, h⟩ | ⟨hvalid, grounded, hgrounded⟩
    · exact .of_error h (.inl hrefuses)
    · by_cases hfails : (∃ f ∈ problem.observations, f.containsQuantifier = true) ∧
        0 < limits.checks ∧
          Backend.SolverRefutes solver (problem.premises settings.abnormal suspects grounded)
      · obtain ⟨hquantified, hchecks, hrefutes⟩ := hfails
        obtain ⟨written, h⟩ := firstOrder_fails (hregular hvalid) hvalid hgrounded hquantified
          hchecks hrefutes
        exact .of_error h (.inr ⟨written, rfl⟩)
      · exact .of_ok (firstOrder_succeeds (hregular hvalid) hvalid hgrounded
          fun hquantified hchecks hrefutes ↦ hfails ⟨hquantified, hchecks, hrefutes⟩)
  · rintro ⟨written, h⟩
    rcases hcases (.firstOrder solver) with ⟨e, hrefuses, h'⟩ | ⟨hvalid, grounded, hgrounded⟩
    · cases h.symm.trans h'
      exact hrefuses.elim
    · by_contra hnot
      have hrefuted : (∃ f ∈ problem.observations, f.containsQuantifier = true) →
          0 < limits.checks → ¬ Backend.SolverRefutes solver
            (problem.premises settings.abnormal suspects grounded) :=
        fun hquantified hchecks hrefutes ↦
          hnot ⟨hquantified, hvalid, hchecks, grounded, hgrounded, hrefutes⟩
      obtain ⟨outcome, h'⟩ := firstOrder_succeeds (hregular hvalid) hvalid hgrounded hrefuted
      cases h.symm.trans h'
  · rintro ⟨hquantified, hvalid, hchecks, grounded, hgrounded, hrefutes⟩
    exact firstOrder_fails (hregular hvalid) hvalid hgrounded hquantified hchecks hrefutes

/-- The solver refutes that the component is normal, and there is no outcome. The propositional back
end does not fail on the problem, which is valid. -/
theorem silentProblem_fails :
    (∃ written, diagnose .firstOrder { checks := 512, refutations := 32 } {} silentProblem [] =
      .error (.quantifiedClauses written)) ∧
    FailsOnly Error.Refuses
      (diagnose (.propositional 100) { checks := 512, refutations := 32 } {} silentProblem []) := by
  have hdescription : ∀ f ∈ silentProblem.description, f.WellFormed := by
    rw [silentProblem, List.forall_mem_singleton]
    exact .univ (.imp (.neg (.atom _)) (.atom _))
  have hobservations : ∀ f ∈ silentProblem.observations, f.WellFormed := by
    rw [silentProblem, List.forall_mem_singleton]
    exact .univ (.neg (.atom _))
  have hrefutes : Backend.SolverRefutes Smt.finiteSolver (silentProblem.premises "ab" []
      [.imp (.neg (.atom "ab" ["a"])) (.atom "out" ["a"])]) :=
    ⟨[0, 1, 2], rfl⟩
  have hvalidate : ({} : ProblemSettings).validateInputs = true := rfl
  have hvalid : silentProblem.assertValid [] = .ok () :=
    Problem.assertValid_eq_ok_iff.mpr (by decide)
  obtain ⟨hpropositional, hfirstOrder⟩ := diagnose_failures { checks := 512, refutations := 32 } []
    hdescription hobservations hvalidate
  refine ⟨(hfirstOrder Smt.finiteSolver).2.mpr ⟨?_, hvalid, by decide, _, rfl, hrefutes⟩,
    hpropositional 100 .collected⟩
  exact ⟨_, List.mem_singleton_self _, by decide⟩

end Diagnosis
