import Diagnosis.Proofs.Engine.Rewording

/-!
# Diagnoses of extended problems

A problem is extended by more statements, components and observations, and by trusting more
components. Its theory then says more: grounding adds instances and takes none away
(`Extends.grounded_subset`), so what contradicts the facts goes on to do so. Hence a conflict is
never turned into consistency, whatever the budgets of the two diagnoses and wherever one of them
gives up (`status_monotone`).
-/

namespace Diagnosis

variable {σ σ' : Type} {backend : Backend σ} {backend' : Backend σ'} {limits limits' : Cores.Limits}
  {settings settings' : ProblemSettings} {problem problem' : Problem}
  {suspects suspects' : List String} {outcome again : Outcome} {grounded grounded' : List Formula}
  {abnormal sort sort' : String}

/-! ## Extensions -/

/-- The second problem says at least what the first one says of at least its components, and trusts
at least the components that the first one trusts. -/
structure Extends (small large : Problem × List String) : Prop where
  description : small.1.description ⊆ large.1.description
  components : small.1.components ⊆ large.1.components
  observations : small.1.observations ⊆ large.1.observations
  trust : trusted small.1.components small.2 ⊆ trusted large.1.components large.2

namespace Extends

variable {small middle large : Problem × List String}

/-- A problem extends itself. -/
theorem refl (problem : Problem × List String) : Extends problem problem :=
  ⟨List.Subset.refl _, List.Subset.refl _, List.Subset.refl _, List.Subset.refl _⟩

/-- An extension may be extended. -/
theorem trans (h : Extends small middle) (h' : Extends middle large) : Extends small large :=
  ⟨List.Subset.trans h.description h'.description, List.Subset.trans h.components h'.components,
    List.Subset.trans h.observations h'.observations, List.Subset.trans h.trust h'.trust⟩

/-- Suspecting fewer components extends a problem. -/
theorem of_suspects (problem : Problem) (h : suspects' ⊆ suspects) :
    Extends (problem, suspects) (problem, suspects') where
  __ := refl (problem, suspects)
  trust c hc := by
    rw [mem_trusted] at hc ⊢
    exact ⟨hc.1, fun hsuspected ↦ hc.2 (h hsuspected)⟩

/-- Adding statements, components and observations extends a problem. -/
theorem extend (problem more : Problem) (suspects : List String) :
    Extends (problem, suspects) (problem.extend more, suspects) where
  description := List.subset_append_left _ _
  components := List.subset_append_left _ _
  observations := List.subset_append_left _ _
  trust c hc := by
    rw [mem_trusted] at hc ⊢
    exact ⟨List.subset_append_left _ _ hc.1, hc.2⟩

variable (h : Extends (problem, suspects) (problem', suspects'))
  (hgrounded : Formula.ground problem.description problem.components sort = .ok grounded)
  (hgrounded' : Formula.ground problem'.description problem'.components sort' = .ok grounded')

include h hgrounded hgrounded'

/-- Every instance is an instance of the extension. -/
theorem grounded_subset : grounded ⊆ grounded' := by
  intro f hf
  rw [Formula.mem_ground hgrounded] at hf
  rw [Formula.mem_ground hgrounded']
  obtain ⟨statement, hstatement, hquantified, c, hc, hinstance⟩ | ⟨hstatement, hplain⟩ := hf
  · exact .inl ⟨statement, h.description hstatement, hquantified, c, h.components hc, hinstance⟩
  · exact .inr ⟨h.description hstatement, hplain⟩

/-- Trusted components that contradict the facts are among those that contradict the facts of the
extension. -/
theorem contradicts
    (hcontradicts : Contradicts abnormal (grounded ++ problem.observations)
      (trusted problem.components suspects).toFinset) :
    Contradicts abnormal (grounded' ++ problem'.observations)
      (trusted problem'.components suspects').toFinset := by
  have hfacts : grounded ++ problem.observations ⊆ grounded' ++ problem'.observations :=
    List.append_subset.mpr
      ⟨List.subset_append_of_subset_left _ (h.grounded_subset hgrounded hgrounded'),
        List.subset_append_of_subset_right _ h.observations⟩
  refine (hcontradicts.of_imp fun truth htrue f hf ↦ htrue f (hfacts hf)).mono ?_
  exact fun c hc ↦ List.mem_toFinset.mpr (h.trust (List.mem_toFinset.mp hc))

end Extends

/-! ## Statuses -/

/-- With sound back ends, which may have any budgets, and two admissible problems of which the
second extends the first: if one diagnosis of the first finds a conflict, no diagnosis of the
second finds it consistent, and the other way round. -/
theorem status_monotone (hsound : backend.Sound) (hsound' : backend'.Sound)
    (hproblem : problem.Admissible suspects) (hproblem' : problem'.Admissible suspects')
    (hextends : Extends (problem, suspects) (problem', suspects'))
    (habnormal : settings'.abnormal = settings.abnormal)
    (h : diagnose backend limits settings problem suspects = .ok outcome)
    (h' : diagnose backend' limits' settings' problem' suspects' = .ok again) :
    (outcome.status = .conflict → again.status ≠ .consistent) ∧
      (again.status = .consistent → outcome.status ≠ .conflict) := by
  obtain ⟨grounded, _, hgrounded, _⟩ := diagnose_search h
  obtain ⟨grounded', _, hgrounded', _⟩ := diagnose_search h'
  obtain ⟨-, hconflict⟩ := status_sound hsound hproblem.regular hproblem.ground hgrounded h
  obtain ⟨hconsistent, -⟩ := status_sound hsound' hproblem'.regular hproblem'.ground hgrounded' h'
  rw [habnormal] at hconsistent
  have hkeeps : outcome.status = .conflict → again.status ≠ .consistent :=
    fun hfound hnone ↦ hconsistent hnone
      (hextends.contradicts hgrounded hgrounded' (hconflict hfound))
  exact ⟨hkeeps, fun hnone hfound ↦ hkeeps hfound hnone⟩

/-- The problem with a third component, which is observed to be in order. -/
def deadProblemExtended : Problem :=
  deadProblem.extend { components := ["a3"], observations := [.atom "ok" ["a3"]] }

/-- It extends the problem on two components, with no more suspects. -/
theorem deadProblem_extends (h : suspects' ⊆ suspects) :
    Extends (deadProblem, suspects) (deadProblemExtended, suspects') :=
  (Extends.of_suspects deadProblem h).trans (.extend _ _ _)

/-- The extended problem is admissible. -/
theorem deadProblemExtended_admissible : deadProblemExtended.Admissible [] where
  description := by
    rw [deadProblemExtended, Problem.extend, List.forall_mem_append]
    exact ⟨deadProblem_admissible.description, by simp⟩
  observations := by
    rw [deadProblemExtended, Problem.extend, List.forall_mem_append, List.forall_mem_singleton]
    exact ⟨deadProblem_admissible.observations, .atom _⟩
  plain := by decide
  valid := Problem.assertValid_eq_ok_iff.mpr (by decide)

/-- The conflict that is left when the first component is suspected is not lost in the large problem
without suspects, here with a single question. With both components suspected the large problem is
consistent, and a diagnosis of the small one that may ask nothing says as little as possible, but
not that there is a conflict. -/
theorem deadProblem_extended :
    (diagnose (.propositional 100) { checks := 512, refutations := 32 } {} deadProblem ["a1"] =
        .ok { status := .conflict, conflicts := [["a2"]], checks := 3 } ∧
      ∃ again, diagnose (.propositional 9) { checks := 1, refutations := 1 } {}
        deadProblemExtended [] = .ok again ∧ again.status ≠ .consistent) ∧
    (diagnose (.propositional 9) { checks := 1, refutations := 1 } {} deadProblemExtended
        ["a1", "a2"] = .ok { status := .consistent, checks := 1 } ∧
      ∃ outcome, diagnose (.propositional 9) { checks := 0, refutations := 1 } {} deadProblem
        ["a1", "a2"] = .ok outcome ∧ outcome.status ≠ .conflict) := by
  have hsound := Backend.propositional_sound
  have hfirst : deadProblem.Admissible ["a1"] := deadProblem_admissible.of_subset (by decide)
  have hboth : deadProblem.Admissible ["a1", "a2"] := deadProblem_admissible.of_subset (by decide)
  have hlarge := deadProblemExtended_admissible
  have hlargeBoth : deadProblemExtended.Admissible ["a1", "a2"] := hlarge.of_subset (by decide)
  have hfound : diagnose (.propositional 100) { checks := 512, refutations := 32 } {} deadProblem
      ["a1"] = .ok { status := .conflict, conflicts := [["a2"]], checks := 3 } :=
    diagnose_of_mined ["a2"] hfirst.valid rfl (by decide) (by decide) (by decide)
  have hkept : diagnose (.propositional 9) { checks := 1, refutations := 1 } {} deadProblemExtended
      [] = .ok
        { status := .conflict, conflicts := [["a1", "a2", "a3"]], checks := 1,
          complete := false } :=
    diagnose_of_mined ["a1", "a2", "a3"] hlarge.valid rfl (by decide) (by decide) (by decide)
  have hnone : diagnose (.propositional 9) { checks := 1, refutations := 1 } {} deadProblemExtended
      ["a1", "a2"] = .ok { status := .consistent, checks := 1 } :=
    diagnose_of_valid hlargeBoth.valid
  have huntold : diagnose (.propositional 9) { checks := 0, refutations := 1 } {} deadProblem
      ["a1", "a2"] = .ok
        { status := .inconclusive, reason := Cores.budgetReason, checks := 0,
          complete := false } :=
    diagnose_of_valid hboth.valid
  refine ⟨⟨hfound, _, hkept, ?_⟩, hnone, _, huntold, ?_⟩
  · exact (status_monotone (hsound _) (hsound _) hfirst hlarge
      (deadProblem_extends (List.nil_subset _)) rfl hfound hkept).1 rfl
  · exact (status_monotone (hsound _) (hsound _) hboth hlargeBoth
      (deadProblem_extends (List.Subset.refl _)) rfl huntold hnone).2 rfl

end Diagnosis
