import Diagnosis.Proofs.Engine.Conflicts

/-!
# What a complete diagnosis reports

The cores of a complete diagnosis are the minimal sets of trusted components that contradict the
background. What is reported for a core are its components and all that the background blames
(`mem_conflicts_iff`). The report differs from the minimal conflicts of the problem where facts
speak of the normality of components: a fact that blames a component puts it into every reported
conflict, and a fact that is equal to an assumption is left out of the background.
-/

namespace Diagnosis

variable {σ : Type} {backend : Backend σ} {limits : Cores.Limits} {settings : ProblemSettings}
  {problem : Problem} {suspects : List String} {outcome : Outcome} {grounded : List Formula}
  {oracle : Cores.Oracle σ} {attempt : Cores.Attempt} {abnormal : String}

namespace Found

/-- The cores of a complete diagnosis stand for the minimal contradictions to the background. -/
theorem exists_core_iff
    (h : Found backend limits settings problem suspects outcome grounded oracle attempt)
    (hsound : backend.Sound) (hproblem : problem.Regular)
    (hclosed : ∀ f ∈ problem.observations, f.isClosed = true)
    (hcomplete : outcome.complete = true) (working : Finset String) :
    (∃ core ∈ attempt.cores, normalAt settings.abnormal
        (problem.premises settings.abnormal suspects grounded)
        (trusted problem.components suspects) core = working) ↔
      MinimalConflict settings.abnormal
        (problem.background settings.abnormal suspects grounded)
        (trusted problem.components suspects) working := by
  have hnodup : (problem.premises settings.abnormal suspects grounded).Nodup :=
    Formula.conjuncts_nodup _
  have hpremises : ∀ c ∈ trusted problem.components suspects,
      normality settings.abnormal c ∈ problem.premises settings.abnormal suspects grounded :=
    fun c hc ↦ mem_conjuncts_assembleTheory.mpr (.inr ⟨c, hc, rfl⟩)
  have hcores := h.runs.mem_cores_iff (h.oracle_sound hsound hproblem hclosed)
    (ordered_normalityPositions _) h.proved (h.complete ▸ hcomplete)
  have hminimal {core : List Nat}
      (hcore : core.Sublist (problem.tracked settings.abnormal suspects grounded)) :=
    minimalCore_iff_minimal (fun f ↦ mem_background) hnodup hpremises hcore
  constructor
  · rintro ⟨core, hcore, rfl⟩
    exact (hminimal (h.core_sublist hcore)).mp ((hcores core).mp hcore)
  · intro hworking
    obtain ⟨core, hcore, rfl⟩ := exists_normalAt hpremises hworking.prop.1
    exact ⟨core, (hcores core).mpr ((hminimal hcore).mpr hworking), rfl⟩

/-- A complete diagnosis reports every minimal contradiction to the background, together with the
components that the background blames. -/
theorem mem_conflicts_iff
    (h : Found backend limits settings problem suspects outcome grounded oracle attempt)
    (hsound : backend.Sound) (hproblem : problem.Regular)
    (hclosed : ∀ f ∈ problem.observations, f.isClosed = true)
    (hcomplete : outcome.complete = true) (conflict : Finset String) :
    conflict ∈ outcome.conflicts.map List.toFinset ↔
      ∃ core, MinimalConflict settings.abnormal
          (problem.background settings.abnormal suspects grounded)
          (trusted problem.components suspects) core ∧
        ∀ c, c ∈ conflict ↔
          c ∈ core ∨ problem.BlamedByBackground settings.abnormal suspects grounded c := by
  simp only [← h.exists_core_iff hsound hproblem hclosed hcomplete]
  constructor
  · intro hconflict
    obtain ⟨reported, hreported, rfl⟩ := List.mem_map.mp hconflict
    obtain ⟨_, hr, hmem⟩ := h.reports.source reported hreported
    obtain ⟨core, hcore, rfl⟩ := List.mem_map.mp hr
    refine ⟨_, ⟨core, hcore, rfl⟩, fun c ↦ ?_⟩
    rw [List.mem_toFinset, hmem, implicates_iff hproblem (h.core_sublist hcore)]
  · rintro ⟨_, ⟨core, hcore, rfl⟩, hmem⟩
    obtain ⟨reported, hreported, hmem'⟩ := h.reports.reported _ (List.mem_map_of_mem hcore)
    refine List.mem_map.mpr ⟨reported, hreported, ?_⟩
    ext c
    rw [List.mem_toFinset, hmem', implicates_iff hproblem (h.core_sublist hcore), hmem]

end Found

/-! ## A small problem -/

/-- The first component is observed to be faulty, and the second one not to be faulty and worn. -/
def wornProblem : Problem where
  components := ["a1", "a2"]
  observations :=
    [.atom "ab" ["a1"], .neg (.conj [.atom "ab" ["a2"], .atom "worn" []])]

/-- The observations are well formed. -/
theorem wornProblem_observations : ∀ f ∈ wornProblem.observations, f.WellFormed := by
  rw [wornProblem, List.forall_mem_cons, List.forall_mem_singleton]
  refine ⟨.atom _, .neg (.conj ?_)⟩
  rw [List.forall_mem_cons, List.forall_mem_singleton]
  exact ⟨.atom _, .atom _⟩

/-- The first component alone contradicts the observations, whatever else is known. -/
theorem wornProblem_first (grounded : List Formula) :
    ¬ MinimalConflict "ab" (grounded ++ wornProblem.observations)
      (trusted wornProblem.components []) {"a1", "a2"} := by
  intro hminimal
  have hcontradicts : Contradicts "ab" (grounded ++ wornProblem.observations) {"a1"} := by
    rintro ⟨truth, hfacts, hworking⟩
    exact hworking "a1" (Finset.mem_singleton_self _)
      (hfacts _ (List.mem_append_right _ List.mem_cons_self))
  have hsub := hminimal.le_of_le ⟨by decide, hcontradicts⟩ (by decide)
  exact absurd hsub (by decide)

/-! ## What is reported -/

/-- With a sound back end, a complete diagnosis of a valid problem that ends in a conflict reports
distinct sets of components: the minimal contradictions to the background, together with the
components that the background blames. The reported sets are the minimal conflicts of the problem
exactly if each of the latter contradicts the background and contains all components that the
background blames. -/
theorem conflicts_minimal_iff (hsound : backend.Sound)
    (hdescription : ∀ f ∈ problem.description, f.WellFormed)
    (hobservations : ∀ f ∈ problem.observations, f.WellFormed)
    (hvalid : problem.assertValid suspects = .ok ())
    (h : diagnose backend limits settings problem suspects = .ok outcome)
    (hstatus : outcome.status = .conflict) (hcomplete : outcome.complete = true) :
    (outcome.conflicts.map List.toFinset).Nodup ∧
      ∃ grounded,
        Formula.ground problem.description problem.components settings.componentSort =
          .ok grounded ∧
        (∀ conflict, conflict ∈ outcome.conflicts.map List.toFinset ↔
          ∃ core, MinimalConflict settings.abnormal
              (problem.background settings.abnormal suspects grounded)
              (trusted problem.components suspects) core ∧
            ∀ c, c ∈ conflict ↔
              c ∈ core ∨ problem.BlamedByBackground settings.abnormal suspects grounded c) ∧
        ((∀ conflict, conflict ∈ outcome.conflicts.map List.toFinset ↔
            MinimalConflict settings.abnormal (grounded ++ problem.observations)
              (trusted problem.components suspects) conflict) ↔
          ∀ conflict, MinimalConflict settings.abnormal (grounded ++ problem.observations)
              (trusted problem.components suspects) conflict →
            Contradicts settings.abnormal
                (problem.background settings.abnormal suspects grounded) conflict ∧
              ∀ c, problem.BlamedByBackground settings.abnormal suspects grounded c →
                c ∈ conflict) := by
  have hproblem : problem.Regular :=
    ⟨hdescription, hobservations, Problem.isVariable_of_assertValid hvalid⟩
  have hclosed := Problem.isClosed_of_assertValid hvalid
  obtain ⟨grounded, oracle, attempt, hfound⟩ := diagnose_conflict hproblem h hstatus
  have hmem := hfound.mem_conflicts_iff hsound hproblem hclosed hcomplete
  refine ⟨hfound.reports.distinct, grounded, hfound.grounding, hmem, ?_⟩
  simp only [hmem]
  exact reports_minimal_iff (Found.background_true hproblem hfound.grounding)

/-- For the core that the first component is, the complete report names both components, since the
second observation blames the second one. The condition on the minimal conflicts fails. -/
theorem wornProblem_not_minimal :
    diagnose (.propositional 100) { checks := 512, refutations := 32 } {} wornProblem [] =
      .ok { status := .conflict, conflicts := [["a1", "a2"]], checks := 4 } ∧
    ∃ grounded,
      Formula.ground wornProblem.description wornProblem.components "component" =
        .ok grounded ∧
      ¬ MinimalConflict "ab" (grounded ++ wornProblem.observations)
        (trusted wornProblem.components []) {"a1", "a2"} ∧
      ¬ ∀ conflict, MinimalConflict "ab" (grounded ++ wornProblem.observations)
          (trusted wornProblem.components []) conflict →
        Contradicts "ab" (wornProblem.background "ab" [] grounded) conflict ∧
          ∀ c, wornProblem.BlamedByBackground "ab" [] grounded c → c ∈ conflict := by
  have hvalid : wornProblem.assertValid [] = .ok () :=
    Problem.assertValid_eq_ok_iff.mpr (by decide)
  have h : diagnose (.propositional 100) { checks := 512, refutations := 32 } {} wornProblem [] =
      .ok { status := .conflict, conflicts := [["a1", "a2"]], checks := 4 } :=
    diagnose_of_mined ["a1", "a2"] hvalid rfl (by decide) (by decide) (by decide)
  obtain ⟨_, grounded, hgrounded, _, hiff⟩ := conflicts_minimal_iff
    (Backend.propositional_sound 100) (by simp [wornProblem]) wornProblem_observations hvalid h
    rfl rfl
  have hlarge := wornProblem_first grounded
  refine ⟨h, grounded, hgrounded, hlarge, fun hcondition ↦ hlarge ?_⟩
  exact (hiff.mpr hcondition _).mp (List.mem_singleton_self _)

end Diagnosis
