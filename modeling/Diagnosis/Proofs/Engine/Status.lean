import Diagnosis.Proofs.Engine.Conflicts
import Diagnosis.Proofs.Engine.Outcomes
import Diagnosis.Proofs.Problem.Models
import Diagnosis.Proofs.Prover.Decisions

/-!
# The status of a propositional diagnosis

With the propositional back end a valid problem with a groundable description and observations
without quantifiers has an outcome, and its status is right, in whatever order the literals come: it
tells whether the problem has a model under the hypothesis. One question and fewer decisions than
there are assignments to the atoms of the theory are enough to settle it.
-/

namespace Diagnosis

variable {settings : ProblemSettings} {problem : Problem} {suspects : List String}
  {grounded : List Formula}

/-- With the propositional back end, all budgets and every order of the literals: a valid problem
with a groundable description and observations without quantifiers has an outcome. A consistent
problem has a model under the hypothesis, and one with a conflict has none. Where a question is
allowed, and a decision for every assignment to the atoms of the theory but one, the diagnosis is
not inconclusive. -/
theorem propositional_status_right (maxDecisions : Int) (order : LiteralOrder)
    (limits : Cores.Limits)
    (hdescription : ∀ f ∈ problem.description, f.WellFormed)
    (hobservations : ∀ f ∈ problem.observations, f.WellFormed)
    (hplain : ∀ f ∈ problem.observations, f.containsQuantifier = false)
    (hvalid : problem.assertValid suspects = .ok ())
    (hgrounded : Formula.ground problem.description problem.components settings.componentSort =
      .ok grounded) :
    ∃ outcome,
      diagnose (.propositional maxDecisions order) limits settings problem suspects =
        .ok outcome ∧
      (outcome.status = .consistent →
        ∃ truth, problem.Model settings.abnormal suspects truth) ∧
      (outcome.status = .conflict →
        ¬ ∃ truth, problem.Model settings.abnormal suspects truth) ∧
      (1 ≤ limits.checks →
        (2 : Int) ^ (assembleTheory grounded problem.components problem.observations suspects
          settings.abnormal).atoms.eraseDups.length - 1 ≤ maxDecisions →
        outcome.status ≠ .inconclusive) := by
  have hproblem : problem.Regular :=
    ⟨hdescription, hobservations, Problem.isVariable_of_assertValid hvalid⟩
  have hpropositional : ∀ f ∈ problem.observations, f.Propositional Formula.anyConnective :=
    fun f hf ↦ (hobservations f hf).propositional (hplain f hf)
  have hground : ∀ f ∈ problem.observations, f.Ground := fun f hf ↦
    (hpropositional f hf).ground (Problem.isClosed_of_assertValid hvalid f hf)
  have hpremises := hproblem.premises_ground settings.abnormal suspects hgrounded hground
  obtain ⟨table, hload, htable⟩ :=
    Backend.propositional_load_of_ground maxDecisions order hpremises
  obtain ⟨asked, hasked, _, hdiagnose⟩ := diagnose_of_load limits hvalid hgrounded hload
  obtain ⟨outcome, h⟩ : ∃ outcome,
      diagnose (.propositional maxDecisions order) limits settings problem suspects =
        .ok outcome := by
    rw [hdiagnose]
    exact exists_outcome_of_plain (fun f hf ↦ (hpremises f hf).propositional) _ _
  have hright := status_sound (Backend.propositional_sound maxDecisions order) hproblem hground
    hgrounded h
  have hmodel := Problem.exists_model_iff settings.abnormal suspects hdescription hpropositional
    hgrounded
  refine ⟨outcome, h, fun hstatus ↦ hmodel.mpr (hright.1 hstatus),
    fun hstatus hexists ↦ hmodel.mp hexists (hright.2 hstatus),
    fun hchecks hlimit ↦ ?_⟩
  have htheory := wellFormed_assembleTheory problem.components suspects settings.abnormal
    (hproblem.facts hgrounded)
  have hdecides := Backend.clauseOracle_decides htable
    (fun f hf ↦ Formula.atoms_subset_of_mem_conjuncts htheory hf) hlimit
  rw [(outcomeOfProof_status (hdiagnose.symm.trans h)).1, Backend.status_searchProof,
    if_neg (by omega), hasked (by omega)]
  exact fun hstatus ↦ hdecides _ _ (OutcomeStatus.ofAttempt_injective hstatus)

/-- The theory has four atoms. With fifteen decisions and a single question, a conflict is found and
there is no model; if the second component is suspected, the problem is consistent and has one. For
the conflict the search comes to the literals in the opposite order. -/
theorem vouchedProblem_status :
    (diagnose (.propositional 15) { checks := 1, refutations := 1 } {} vouchedProblem ["a2"] =
        .ok { status := .consistent, checks := 1 } ∧
      ∃ truth, vouchedProblem.Model "ab" ["a2"] truth) ∧
    ∃ outcome,
      diagnose (.propositional 15 Backend.backwards) { checks := 1, refutations := 1 } {}
        vouchedProblem [] = .ok outcome ∧
      outcome.status = .conflict ∧ outcome.status ≠ .inconclusive ∧
        ¬ ∃ truth, vouchedProblem.Model "ab" [] truth := by
  have hgrounded : Formula.ground vouchedProblem.description vouchedProblem.components
      "component" = .ok
        [.imp (.neg (.atom "ab" ["a1"])) (.atom "ok" ["a1"]),
          .imp (.neg (.atom "ab" ["a2"])) (.atom "ok" ["a2"])] := by
    rfl
  have hright (order : LiteralOrder) (suspects : List String)
      (hvalid : vouchedProblem.assertValid suspects = .ok ()) :=
    @propositional_status_right {} _ _ _ 15 order { checks := 1, refutations := 1 }
      vouchedProblem_regular.description vouchedProblem_regular.observations (by decide) hvalid
      hgrounded
  have hvalid : vouchedProblem.assertValid ["a2"] = .ok () :=
    Problem.assertValid_of_subset vouchedProblem_valid (by decide)
  have hsuspected : diagnose (.propositional 15) { checks := 1, refutations := 1 } {}
      vouchedProblem ["a2"] = .ok { status := .consistent, checks := 1 } :=
    diagnose_of_valid hvalid
  have htrusted : diagnose (.propositional 15 Backend.backwards)
      { checks := 1, refutations := 1 } {} vouchedProblem [] = .ok
        { status := .conflict, conflicts := [["a1", "a2"]], checks := 1, complete := false } :=
    diagnose_of_mined ["a1", "a2"] vouchedProblem_valid rfl (by decide) (by decide) (by decide)
  obtain ⟨outcome, h, hmodel, -⟩ := hright .collected ["a2"] hvalid
  obtain rfl := Except.ok.inj (hsuspected.symm.trans h)
  obtain ⟨outcome, h', -, hnone, hsettled⟩ := hright Backend.backwards [] vouchedProblem_valid
  obtain rfl := Except.ok.inj (htrusted.symm.trans h')
  exact ⟨⟨hsuspected, hmodel rfl⟩, _, htrusted, rfl, hsettled (by decide) (by decide), hnone rfl⟩

end Diagnosis
