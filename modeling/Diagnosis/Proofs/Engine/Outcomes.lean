import Diagnosis.Proofs.Engine.Diagnose
import Diagnosis.Proofs.Problem.Mining
import Diagnosis.Proofs.Prover.Loading

/-!
# How a diagnosis ends

The status of a diagnosis is that of its search. What is found without quantifiers has an outcome
(`exists_outcome_of_plain`), so that a valid problem whose description can be grounded and whose
premises can be loaded is diagnosed (`diagnose_of_load`). With a sound back end the status tells
whether the trusted components contradict the facts (`status_sound`).
-/

namespace Diagnosis

variable {σ : Type} {backend : Backend σ} {limits : Cores.Limits} {settings : ProblemSettings}
  {problem : Problem} {suspects components : List String} {outcome : Outcome}
  {grounded : List Formula} {oracle : Cores.Oracle σ} {proof : Proof}

/-- How a diagnosis ends whose search ends in this way. -/
def OutcomeStatus.ofAttempt : Cores.Status → OutcomeStatus
  | .proved => .conflict
  | .notProved => .consistent
  | .unknown => .inconclusive

/-- Searches that end differently make diagnoses end differently. -/
theorem OutcomeStatus.ofAttempt_injective : Function.Injective OutcomeStatus.ofAttempt := by
  intro status status' h
  cases status <;> cases status' <;> simp_all [OutcomeStatus.ofAttempt]

/-! ## Outcomes of proofs -/

/-- The status of an outcome is that of the search. Conflicts are listed only where there are
some. -/
theorem outcomeOfProof_status (h : outcomeOfProof settings components proof = .ok outcome) :
    outcome.status = .ofAttempt proof.attempt.status ∧
      (outcome.status ≠ .conflict → outcome.conflicts = []) := by
  unfold outcomeOfProof at h
  split at h
  case h_1 hstatus =>
    cases h
    exact ⟨hstatus ▸ rfl, fun _ ↦ rfl⟩
  case h_2 hstatus =>
    cases h
    exact ⟨hstatus ▸ rfl, fun _ ↦ rfl⟩
  case h_3 hstatus =>
    obtain ⟨mined, _, h⟩ := bind_eq_ok_iff.mp h
    cases h
    exact ⟨hstatus ▸ rfl, fun hne ↦ absurd rfl hne⟩

/-- A proof has an outcome if it proves nothing or its refutations can be mined. -/
theorem exists_outcomeOfProof (hmined : proof.attempt.status = .proved →
      ∃ mined, mineConflicts settings.abnormal proof.refutations = .ok mined) :
    ∃ outcome, outcomeOfProof settings components proof = .ok outcome := by
  unfold outcomeOfProof
  split
  case h_1 => exact ⟨_, rfl⟩
  case h_2 => exact ⟨_, rfl⟩
  case h_3 hstatus =>
    obtain ⟨mined, hmined⟩ := hmined hstatus
    exact ⟨_, bind_eq_ok_iff.mpr ⟨mined, hmined, rfl⟩⟩

/-- A search over premises without quantifiers has an outcome. -/
theorem exists_outcome_of_plain {premises : List Formula}
    (hplain : ∀ f ∈ premises, f.Propositional Formula.anyConnective) (tracked : List Nat)
    (start : σ) : ∃ outcome, outcomeOfProof settings components
      (searchProof premises tracked limits oracle start) = .ok outcome := by
  refine exists_outcomeOfProof fun _ ↦ ?_
  rw [refutations_searchProof]
  refine exists_mined settings.abnormal fun r hr f hf ↦ ?_
  obtain ⟨core, _, rfl⟩ := List.mem_map.mp hr
  exact hplain f (certificate_subset _ _ core hf)

/-! ## Diagnoses -/

/-- Where a problem is valid and grounded, and its premises are loaded, a diagnosis is a search with
the oracle that they are loaded as or, where no question is allowed, with none. -/
theorem diagnose_of_load (limits : Cores.Limits)
    (hvalid : problem.assertValid suspects = .ok ())
    (hgrounded : Formula.ground problem.description problem.components settings.componentSort =
      .ok grounded)
    (hload : backend.load (problem.premises settings.abnormal suspects grounded) = .ok oracle) :
    ∃ asked, (0 < limits.checks → asked = oracle) ∧
      (asked = Backend.givingUp Cores.budgetReason ∨
        backend.load (problem.premises settings.abnormal suspects grounded) = .ok asked) ∧
      diagnose backend limits settings problem suspects =
        outcomeOfProof settings problem.components
          (searchProof (problem.premises settings.abnormal suspects grounded)
            (problem.tracked settings.abnormal suspects grounded) limits asked backend.start) := by
  obtain ⟨asked, hasked, hloaded, hrefute⟩ := Backend.refute_neg limits
    (some (normalAssumptions problem.components suspects settings.abnormal)) hload
  refine ⟨asked, hasked, hloaded, ?_⟩
  have hrest : diagnose backend limits settings problem suspects = (do
      let grounded ←
        Formula.ground problem.description problem.components settings.componentSort
      let proof ← liftFault (backend.refute limits
        (.neg (assembleTheory grounded problem.components problem.observations suspects
          settings.abnormal))
        (some (normalAssumptions problem.components suspects settings.abnormal)))
      outcomeOfProof settings problem.components proof) :=
    diagnose_of_valid hvalid
  rw [hrest, hgrounded]
  exact congrArg (liftFault · >>= outcomeOfProof settings problem.components) hrefute

/-- A valid problem with a groundable description and ground observations has an outcome if the back
end loads ground premises. -/
theorem exists_outcome (hloads : backend.Loads Formula.Ground) (hproblem : problem.Regular)
    (hobservations : ∀ f ∈ problem.observations, f.Ground)
    (hvalid : problem.assertValid suspects = .ok ())
    (hgrounded : Formula.ground problem.description problem.components settings.componentSort =
      .ok grounded) :
    ∃ outcome, diagnose backend limits settings problem suspects = .ok outcome := by
  have hpremises := hproblem.premises_ground settings.abnormal suspects hgrounded
    hobservations
  obtain ⟨oracle, hload⟩ := hloads _ hpremises
  obtain ⟨asked, _, _, hdiagnose⟩ := diagnose_of_load limits hvalid hgrounded hload
  rw [hdiagnose]
  exact exists_outcome_of_plain (fun f hf ↦ (hpremises f hf).propositional) _ _

/-- Where no conflict is found, none is reported. -/
theorem conflicts_eq_nil (h : diagnose backend limits settings problem suspects = .ok outcome)
    (hstatus : outcome.status ≠ .conflict) : outcome.conflicts = [] := by
  obtain ⟨_, _, _, _, houtcome⟩ := diagnose_search h
  exact (outcomeOfProof_status houtcome).2 hstatus

/-- Conflicts are reported where one is found, and only there. -/
theorem conflicts_eq_nil_iff (hproblem : problem.Regular)
    (h : diagnose backend limits settings problem suspects = .ok outcome) :
    outcome.conflicts = [] ↔ outcome.status ≠ .conflict := by
  refine ⟨fun hnone hstatus ↦ ?_, conflicts_eq_nil h⟩
  obtain ⟨grounded, oracle, attempt, hfound⟩ := diagnose_conflict hproblem h hstatus
  obtain ⟨conflict, hconflict⟩ := hfound.exists_conflict
  rw [hnone] at hconflict
  cases hconflict

/-- With a sound back end and ground observations: a consistent problem has trusted components that
do not contradict the facts, and one with a conflict has trusted components that do. -/
theorem status_sound (hsound : backend.Sound) (hproblem : problem.Regular)
    (hobservations : ∀ f ∈ problem.observations, f.Ground)
    (hgrounded : Formula.ground problem.description problem.components settings.componentSort =
      .ok grounded)
    (h : diagnose backend limits settings problem suspects = .ok outcome) :
    (outcome.status = .consistent → ¬ Contradicts settings.abnormal
        (grounded ++ problem.observations) (trusted problem.components suspects).toFinset) ∧
      (outcome.status = .conflict → Contradicts settings.abnormal
        (grounded ++ problem.observations) (trusted problem.components suspects).toFinset) := by
  obtain ⟨grounded', oracle, hgrounded', hload, houtcome⟩ := diagnose_search h
  obtain rfl : grounded = grounded' := Except.ok.inj (hgrounded.symm.trans hgrounded')
  have hpremises := hproblem.premises_ground settings.abnormal suspects hgrounded
    hobservations
  have hruns := runs_searchProof (problem.premises settings.abnormal suspects grounded)
    (problem.tracked settings.abnormal suspects grounded) limits oracle backend.start
  have hright := hsound.oracle hpremises hload
  have hsatisfiable : SatisfiableIn trueUnder
      (problem.premises settings.abnormal suspects grounded) ↔ ¬ Contradicts settings.abnormal
        (grounded ++ problem.observations) (trusted problem.components suspects).toFinset :=
    satisfiableIn_conjuncts_iff (hproblem.facts hgrounded)
  rw [(outcomeOfProof_status houtcome).1]
  constructor
  · intro hstatus
    have hconsistent := hruns.consistent hright (OutcomeStatus.ofAttempt_injective hstatus)
    rwa [conflicting_tracked_iff, not_not, hsatisfiable] at hconsistent
  · intro hstatus
    have hconflicting := hruns.conflicting_tracked hright (ordered_normalityPositions _)
      (OutcomeStatus.ofAttempt_injective hstatus)
    rwa [conflicting_tracked_iff, hsatisfiable, not_not] at hconflicting

end Diagnosis
