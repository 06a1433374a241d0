import Diagnosis.Proofs.Engine.Hypotheses
import Diagnosis.Proofs.Problem.Rewording

/-!
# Diagnoses of reworded problems

The order of premises settles the order in which a search tries them, and with it the cores that it
meets and what it reuses. The answer of a settled diagnosis does not depend on it: status and
conflicts are told by minimal contradictions to the background and by what the background blames,
which are the same however the problem is written down (`settled_reworded`).
-/

namespace Diagnosis

variable {σ σ' : Type} {backend : Backend σ} {backend' : Backend σ'} {limits limits' : Cores.Limits}
  {settings : ProblemSettings} {problem problem' : Problem} {suspects suspects' : List String}
  {outcome again : Outcome} {grounded grounded' : List Formula} {abnormal sort : String}

/-- The problem is valid under the hypothesis, it is written with the constructors alone, and its
observations have no quantifiers. -/
structure Problem.Admissible (problem : Problem) (suspects : List String) : Prop where
  description : ∀ f ∈ problem.description, f.WellFormed
  observations : ∀ f ∈ problem.observations, f.WellFormed
  plain : ∀ f ∈ problem.observations, f.containsQuantifier = false
  valid : problem.assertValid suspects = .ok ()

namespace Problem.Admissible

/-- An admissible problem is regular. -/
theorem regular (h : problem.Admissible suspects) : problem.Regular :=
  ⟨h.description, h.observations, isVariable_of_assertValid h.valid⟩

/-- Admissible observations are ground. -/
theorem ground (h : problem.Admissible suspects) : ∀ f ∈ problem.observations, f.Ground :=
  fun f hf ↦ ⟨h.observations f hf, h.plain f hf, isClosed_of_assertValid h.valid f hf⟩

/-- An admissible problem stays so whichever of its components are suspected. -/
theorem of_subset (h : problem.Admissible suspects) (hmore : suspects' ⊆ problem.components) :
    problem.Admissible suspects' :=
  { h with valid := assertValid_of_subset h.valid hmore }

end Problem.Admissible

/-! ## Backgrounds -/

namespace Alike

variable (h : Alike (problem, suspects) (problem', suspects'))
  (hgrounded : Formula.ground problem.description problem.components sort = .ok grounded)
  (hgrounded' : Formula.ground problem'.description problem'.components sort = .ok grounded')

include h hgrounded hgrounded'

/-- The backgrounds have the same members. -/
theorem mem_background (f : Formula) :
    f ∈ problem.background abnormal suspects grounded ↔
      f ∈ problem'.background abnormal suspects' grounded' :=
  mem_background_congr (h.mem_conjuncts hgrounded hgrounded') h.mem_trusted

/-- The backgrounds blame the same components. -/
theorem blamedByBackground_iff (c : String) :
    problem.BlamedByBackground abnormal suspects grounded c ↔
      problem'.BlamedByBackground abnormal suspects' grounded' c := by
  simp only [Problem.BlamedByBackground, h.components, h.mem_background hgrounded hgrounded']

/-- The same sets of trusted components are minimal contradictions to the backgrounds. -/
theorem minimalConflict_iff (conflict : Finset String) :
    MinimalConflict abnormal (problem.background abnormal suspects grounded)
        (trusted problem.components suspects) conflict ↔
      MinimalConflict abnormal (problem'.background abnormal suspects' grounded')
        (trusted problem'.components suspects') conflict :=
  (minimalConflict_congr fun _ ↦ contradicts_congr
    (h.mem_background hgrounded hgrounded')).trans (minimalConflict_congr_names h.mem_trusted)

/-- The trusted components contradict the facts of both problems or of none. -/
theorem contradicts_iff (hproblem : problem.Regular) (hproblem' : problem'.Regular) :
    Contradicts abnormal (grounded ++ problem.observations)
        (trusted problem.components suspects).toFinset ↔
      Contradicts abnormal (grounded' ++ problem'.observations)
        (trusted problem'.components suspects').toFinset := by
  have htrusted : (trusted problem.components suspects).toFinset =
      (trusted problem'.components suspects').toFinset := by
    ext c
    rw [List.mem_toFinset, List.mem_toFinset, h.mem_trusted]
  rw [htrusted]
  exact contradicts_congr_conjuncts (hproblem.facts hgrounded) (hproblem'.facts hgrounded')
    (h.mem_conjuncts hgrounded hgrounded')

end Alike

/-! ## Answers -/

/-- A settled diagnosis finds a conflict exactly if the trusted components contradict the facts. -/
theorem Outcome.Settled.conflict_iff (hsettled : outcome.Settled) (hsound : backend.Sound)
    (hproblem : problem.Admissible suspects)
    (hgrounded : Formula.ground problem.description problem.components settings.componentSort =
      .ok grounded)
    (h : diagnose backend limits settings problem suspects = .ok outcome) :
    outcome.status = .conflict ↔ Contradicts settings.abnormal
      (grounded ++ problem.observations) (trusted problem.components suspects).toFinset := by
  obtain ⟨hconsistent, hconflict⟩ :=
    status_sound hsound hproblem.regular hproblem.ground hgrounded h
  refine ⟨hconflict, fun hcontradicts ↦ ?_⟩
  by_contra hstatus
  exact hconsistent (hsettled.consistent_iff.mpr hstatus) hcontradicts

/-- With sound back ends, which may choose other cores and have other budgets: if two admissible
problems are the same but for the wording, and two diagnoses of them are settled, these have the
same status and report the same conflicts, each once. -/
theorem settled_reworded (hsound : backend.Sound) (hsound' : backend'.Sound)
    (hproblem : problem.Admissible suspects) (hproblem' : problem'.Admissible suspects')
    (hreworded : Reworded (problem, suspects) (problem', suspects'))
    (h : diagnose backend limits settings problem suspects = .ok outcome)
    (h' : diagnose backend' limits' settings problem' suspects' = .ok again)
    (hsettled : outcome.Settled) (hsettled' : again.Settled) :
    again.status = outcome.status ∧
      (again.conflicts.map List.toFinset).Perm (outcome.conflicts.map List.toFinset) := by
  have halike := hreworded.alike
  obtain ⟨grounded, _, hgrounded, _⟩ := diagnose_search h
  obtain ⟨grounded', _, hgrounded', _⟩ := diagnose_search h'
  have hconflict : again.status = .conflict ↔ outcome.status = .conflict := by
    rw [hsettled.conflict_iff hsound hproblem hgrounded h,
      hsettled'.conflict_iff hsound' hproblem' hgrounded' h']
    exact (halike.contradicts_iff hgrounded hgrounded' hproblem.regular hproblem'.regular).symm
  by_cases hstatus : outcome.status = .conflict
  case neg =>
    have hstatus' : ¬ again.status = .conflict := fun h ↦ hstatus (hconflict.mp h)
    rw [conflicts_eq_nil h hstatus, conflicts_eq_nil h' hstatus',
      hsettled.consistent_iff.mpr hstatus, hsettled'.consistent_iff.mpr hstatus']
    exact ⟨rfl, List.Perm.refl _⟩
  case pos =>
    have hstatus' := hconflict.mpr hstatus
    obtain ⟨_, _, _, hfound⟩ := diagnose_conflict hproblem.regular h hstatus
    obtain ⟨_, _, _, hfound'⟩ := diagnose_conflict hproblem'.regular h' hstatus'
    refine ⟨hstatus'.trans hstatus.symm, ?_⟩
    rw [List.perm_ext_iff_of_nodup hfound'.reports.distinct hfound.reports.distinct]
    intro conflict
    rw [hfound.mem_conflicts_iff hsound hproblem.regular (fun f hf ↦ (hproblem.ground f hf).closed)
        (hsettled.complete hstatus),
      hfound'.mem_conflicts_iff hsound' hproblem'.regular
        (fun f hf ↦ (hproblem'.ground f hf).closed) (hsettled'.complete hstatus')]
    simp only [halike.minimalConflict_iff hfound.grounding hfound'.grounding,
      halike.blamedByBackground_iff hfound.grounding hfound'.grounding]

/-! ### A small problem -/

/-- Normal components are in order. Neither component is observed to be in order. -/
def deadProblem : Problem where
  description := [.univ "?x" (.imp (.neg (.atom "ab" ["?x"])) (.atom "ok" ["?x"]))]
  components := ["a1", "a2"]
  observations := [.neg (.atom "ok" ["a1"]), .neg (.atom "ok" ["a2"])]

/-- The same problem with a statement given twice, the components in another order, and a single
observation. -/
def deadProblemReworded : Problem where
  description := deadProblem.description ++ deadProblem.description
  components := ["a2", "a1"]
  observations := [.conj deadProblem.observations]

/-- It is the same problem. -/
theorem deadProblem_rewording : Reworded (deadProblem, []) (deadProblemReworded, []) := by
  let restated : Problem :=
    { deadProblem with description := deadProblem.description ++ deadProblem.description }
  let swapped : Problem := { restated with components := ["a2", "a1"] }
  have hrestated : Rewords (deadProblem, []) (restated, []) := .restated List.mem_cons_self
  have hswapped : Rewords (restated, []) (swapped, []) := .components (.swap "a2" "a1" [])
  have hjoined : Rewords (swapped, []) (deadProblemReworded, []) := .joined rfl
  exact .trans _ _ _ (.rel _ _ hrestated) (.trans _ _ _ (.rel _ _ hswapped) (.rel _ _ hjoined))

/-- The problem is admissible. -/
theorem deadProblem_admissible : deadProblem.Admissible [] where
  description := List.forall_mem_singleton.mpr (.univ (.imp (.neg (.atom _)) (.atom _)))
  observations := by
    rw [deadProblem, List.forall_mem_cons, List.forall_mem_singleton]
    exact ⟨.neg (.atom _), .neg (.atom _)⟩
  plain := by decide
  valid := Problem.assertValid_eq_ok_iff.mpr (by decide)

/-- The reworded problem is admissible. -/
theorem deadProblemReworded_admissible : deadProblemReworded.Admissible [] where
  description := List.forall_mem_append.mpr
    ⟨deadProblem_admissible.description, deadProblem_admissible.description⟩
  observations := List.forall_mem_singleton.mpr (.conj deadProblem_admissible.observations)
  plain := by decide
  valid := Problem.assertValid_eq_ok_iff.mpr (by decide)

/-- With other budgets the reworded problem has the same conflicts, found in another order. -/
theorem deadProblem_reworded :
    diagnose (.propositional 100) { checks := 512, refutations := 32 } {} deadProblem [] =
      .ok { status := .conflict, conflicts := [["a2"], ["a1"]], checks := 6 } ∧
    diagnose (.propositional 9) { checks := 8, refutations := 2 } {} deadProblemReworded [] =
      .ok { status := .conflict, conflicts := [["a1"], ["a2"]], checks := 6 } ∧
    (([["a1"], ["a2"]] : List Conflict).map List.toFinset).Perm
      (([["a2"], ["a1"]] : List Conflict).map List.toFinset) := by
  have hsingle (c : String) : Conflict.ofList [c] = [c] :=
    ofList_eq (List.pairwise_singleton _ _).sortedLT fun _ ↦ Iff.rfl
  have h : diagnose (.propositional 100) { checks := 512, refutations := 32 } {} deadProblem [] =
      .ok { status := .conflict, conflicts := [["a2"], ["a1"]], checks := 6 } := by
    calc
      _ = .ok
          { status := .conflict
            conflicts := restrictConflicts ["a1", "a2"] [.ofList ["a2"], .ofList ["a1"]].eraseDups
            checks := 6 } := diagnose_of_valid deadProblem_admissible.valid
      _ = _ := by rw [hsingle, hsingle]; rfl
  have h' : diagnose (.propositional 9) { checks := 8, refutations := 2 } {} deadProblemReworded
      [] = .ok { status := .conflict, conflicts := [["a1"], ["a2"]], checks := 6 } := by
    calc
      _ = .ok
          { status := .conflict
            conflicts := restrictConflicts ["a2", "a1"] [.ofList ["a1"], .ofList ["a2"]].eraseDups
            checks := 6 } := diagnose_of_valid deadProblemReworded_admissible.valid
      _ = _ := by rw [hsingle, hsingle]; rfl
  obtain ⟨_, hconflicts⟩ := settled_reworded (Backend.propositional_sound 100)
    (Backend.propositional_sound 9) deadProblem_admissible deadProblemReworded_admissible
    deadProblem_rewording h h' ⟨by simp, fun _ ↦ rfl⟩ ⟨by simp, fun _ ↦ rfl⟩
  exact ⟨h, h', hconflicts⟩

end Diagnosis
