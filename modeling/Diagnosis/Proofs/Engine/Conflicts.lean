import Diagnosis.Proofs.Engine.Diagnose
import Diagnosis.Proofs.Problem.Validation
import Diagnosis.Proofs.Prover.Propositional

/-!
# Reported conflicts

With a sound back end every reported conflict contradicts the facts, also when the search was cut
short. Suspected components may be reported nevertheless: a suspect is reported exactly if a fact
blames it, and then it is in every reported conflict.
-/

namespace Diagnosis

variable {σ : Type} {backend : Backend σ} {limits : Cores.Limits} {settings : ProblemSettings}
  {problem : Problem} {suspects : List String} {outcome : Outcome}

/-! ## A small problem -/

/-- Normal components are in order. The second one is observed not to be in order, and the first
one to be normal. -/
def vouchedProblem : Problem where
  description := [.univ "?x" (.imp (.neg (.atom "ab" ["?x"])) (.atom "ok" ["?x"]))]
  components := ["a1", "a2"]
  observations := [.neg (.atom "ok" ["a2"]), .neg (.atom "ab" ["a1"])]

/-- The problem is regular. -/
theorem vouchedProblem_regular : vouchedProblem.Regular where
  description := by
    rw [vouchedProblem, List.forall_mem_singleton]
    exact .univ (.imp (.neg (.atom _)) (.atom _))
  observations := by
    rw [vouchedProblem, List.forall_mem_cons, List.forall_mem_singleton]
    exact ⟨.neg (.atom _), .neg (.atom _)⟩
  constants := by decide

/-- The problem is valid without suspects. -/
theorem vouchedProblem_valid : vouchedProblem.assertValid [] = .ok () :=
  Problem.assertValid_eq_ok_iff.mpr (by decide)

/-! ## What is reported -/

/-- With a sound back end, all budgets and whatever questions the back end gives up on: the
conflicts of a regular problem with closed observations are distinct sets of components, at least
one, and each of them contradicts the facts, also when the search was cut short and no core was
shrunk. -/
theorem conflicts_contradict (hsound : backend.Sound) (hproblem : problem.Regular)
    (hclosed : ∀ f ∈ problem.observations, f.isClosed = true)
    (h : diagnose backend limits settings problem suspects = .ok outcome)
    (hstatus : outcome.status = .conflict) :
    outcome.conflicts ≠ [] ∧ (outcome.conflicts.map List.toFinset).Nodup ∧
      ∃ grounded,
        Formula.ground problem.description problem.components settings.componentSort =
          .ok grounded ∧
        ∀ conflict ∈ outcome.conflicts, conflict ⊆ problem.components ∧
          Contradicts settings.abnormal (grounded ++ problem.observations) conflict.toFinset := by
  obtain ⟨grounded, oracle, attempt, hfound⟩ := diagnose_conflict hproblem h hstatus
  refine ⟨?_, hfound.reports.distinct, grounded, hfound.grounding, fun conflict hconflict ↦ ?_⟩
  · obtain ⟨conflict, hconflict⟩ := hfound.exists_conflict
    exact List.ne_nil_of_mem hconflict
  · obtain ⟨_, hr, hmem⟩ := hfound.reports.source conflict hconflict
    obtain ⟨core, hcore, rfl⟩ := List.mem_map.mp hr
    refine ⟨fun c hc ↦ ((hmem c).mp hc).1, ?_⟩
    have hcontradicts := hfound.contradicts hsound hproblem hclosed hcore
    refine (hcontradicts.mono fun c hc ↦ ?_).of_imp
      (Found.background_true hproblem hfound.grounding)
    rw [List.mem_toFinset, hmem, Found.implicates_iff hproblem (hfound.core_sublist hcore)]
    exact .inl hc

/-- With a single question the core is not shrunk, and what is reported contradicts the facts. -/
theorem vouchedProblem_contradicts :
    diagnose (.propositional 100) { checks := 1, refutations := 1 } {} vouchedProblem [] =
      .ok { status := .conflict, conflicts := [["a1", "a2"]], checks := 1, complete := false } ∧
    ∃ grounded,
      Formula.ground vouchedProblem.description ["a1", "a2"] "component" = .ok grounded ∧
      Contradicts "ab" (grounded ++ vouchedProblem.observations) {"a1", "a2"} := by
  have h : diagnose (.propositional 100) { checks := 1, refutations := 1 } {} vouchedProblem [] =
      .ok { status := .conflict, conflicts := [["a1", "a2"]], checks := 1, complete := false } :=
    diagnose_of_mined ["a1", "a2"] vouchedProblem_valid rfl (by decide) (by decide) (by decide)
  obtain ⟨_, _, grounded, hgrounded, hall⟩ := conflicts_contradict
    (Backend.propositional_sound 100) vouchedProblem_regular (by decide) h rfl
  exact ⟨h, grounded, hgrounded, (hall ["a1", "a2"] (List.mem_singleton_self _)).2⟩

/-- With any back end and all budgets: the suspects in a reported conflict are those that a fact
blames. The conflicts of a valid problem respect the hypothesis, so that they consist of trusted
components, exactly if no fact of the problem blames a suspect. -/
theorem conflicts_trusted_iff (hdescription : ∀ f ∈ problem.description, f.WellFormed)
    (hobservations : ∀ f ∈ problem.observations, f.WellFormed)
    (hvalid : problem.assertValid suspects = .ok ())
    (h : diagnose backend limits settings problem suspects = .ok outcome)
    (hstatus : outcome.status = .conflict) :
    ∃ grounded,
      Formula.ground problem.description problem.components settings.componentSort =
        .ok grounded ∧
      (∀ conflict ∈ outcome.conflicts, ∀ c ∈ suspects, c ∈ conflict ↔
        ∃ f ∈ grounded ++ problem.observations, f.Blames settings.abnormal c) ∧
      ((∀ conflict ∈ outcome.conflicts, conflict ⊆ trusted problem.components suspects) ↔
        ∀ f ∈ grounded ++ problem.observations, ∀ c ∈ suspects,
          ¬ f.Blames settings.abnormal c) := by
  have hproblem : problem.Regular :=
    ⟨hdescription, hobservations, Problem.isVariable_of_assertValid hvalid⟩
  have hsuspects := Problem.suspects_subset_of_assertValid hvalid
  obtain ⟨grounded, oracle, attempt, hfound⟩ := diagnose_conflict hproblem h hstatus
  have hsuspect : ∀ conflict ∈ outcome.conflicts, ∀ c ∈ suspects, c ∈ conflict ↔
      ∃ f ∈ grounded ++ problem.observations, f.Blames settings.abnormal c :=
    fun conflict hconflict c hc ↦
      hfound.mem_conflict_of_suspected hproblem (hsuspects hc) hc hconflict
  refine ⟨grounded, hfound.grounding, hsuspect, fun hrespect f hf c hc hblames ↦ ?_, ?_⟩
  · obtain ⟨conflict, hconflict⟩ := hfound.exists_conflict
    have hreported := (hsuspect conflict hconflict c hc).mpr ⟨f, hf, hblames⟩
    have htrusted := hrespect conflict hconflict hreported
    simp [trusted, hc] at htrusted
  · intro hnone conflict hconflict c hc
    obtain ⟨_, _, hmem⟩ := hfound.reports.source conflict hconflict
    have hcomponent := ((hmem c).mp hc).1
    by_cases hsuspected : c ∈ suspects
    · obtain ⟨f, hf, hblames⟩ := (hsuspect conflict hconflict c hsuspected).mp hc
      exact absurd hblames (hnone f hf c hsuspected)
    · simp [trusted, hcomponent, hsuspected]

/-- The first component is suspected, and reported because it is observed to be normal. -/
theorem vouchedProblem_reports_suspect :
    diagnose (.propositional 100) { checks := 512, refutations := 32 } {} vouchedProblem ["a1"] =
      .ok { status := .conflict, conflicts := [["a1", "a2"]], checks := 3 } ∧
    ∃ grounded,
      Formula.ground vouchedProblem.description ["a1", "a2"] "component" = .ok grounded ∧
      ∃ f ∈ grounded ++ vouchedProblem.observations, f.Blames "ab" "a1" := by
  have hvalid : vouchedProblem.assertValid ["a1"] = .ok () :=
    Problem.assertValid_of_subset vouchedProblem_valid (by decide)
  have h : diagnose (.propositional 100) { checks := 512, refutations := 32 } {} vouchedProblem
      ["a1"] = .ok { status := .conflict, conflicts := [["a1", "a2"]], checks := 3 } :=
    diagnose_of_mined ["a2", "a1"] hvalid rfl (by decide) (by decide) (by decide)
  obtain ⟨grounded, hgrounded, hsuspect, _⟩ := conflicts_trusted_iff
    vouchedProblem_regular.description vouchedProblem_regular.observations hvalid h rfl
  exact ⟨h, grounded, hgrounded,
    (hsuspect ["a1", "a2"] (List.mem_singleton_self _) "a1" (by decide)).mp (by decide)⟩

end Diagnosis
