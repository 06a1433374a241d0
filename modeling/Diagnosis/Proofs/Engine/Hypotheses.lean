import Diagnosis.Proofs.Engine.MinimalConflicts
import Diagnosis.Proofs.Engine.Outcomes
import Mathlib.Data.Finset.Lattice.Lemmas

/-!
# Diagnoses under different hypotheses

Two diagnoses of one problem whose hypotheses differ are compared, whatever back ends they use. If
no fact blames a component, a settled diagnosis reports the minimal conflicts of the problem, and
suspecting more components leaves those that contain none of the new suspects. For all facts that
can be true at all, suspecting every reported component leaves no conflict.
-/

namespace Diagnosis

variable {σ σ' : Type} {backend : Backend σ} {backend' : Backend σ'} {limits limits' : Cores.Limits}
  {settings : ProblemSettings} {problem : Problem} {suspects more : List String}
  {outcome again : Outcome} {grounded : List Formula} {oracle : Cores.Oracle σ}
  {attempt : Cores.Attempt}

/-- The diagnosis did not give up, and where it found conflicts it found all of them. -/
structure Outcome.Settled (o : Outcome) : Prop where
  conclusive : o.status ≠ .inconclusive
  complete : o.status = .conflict → o.complete = true

/-- A settled diagnosis finds a conflict or finds the problem consistent. -/
theorem Outcome.Settled.consistent_iff {o : Outcome} (h : o.Settled) :
    o.status = .consistent ↔ o.status ≠ .conflict := by
  have hconclusive := h.conclusive
  cases hstatus : o.status with
  | consistent | conflict => simp
  | inconclusive => exact absurd hstatus hconclusive

/-! ## Facts that blame no component -/

/-- The background of facts that blame no component blames none either. -/
theorem not_blamedByBackground (hfacts : ∀ f ∈ grounded ++ problem.observations,
      f.Propositional Formula.anyConnective)
    (hblameless : ∀ f ∈ grounded ++ problem.observations, ∀ c ∈ problem.components,
      ¬ f.Blames settings.abnormal c) (c : String) :
    ¬ problem.BlamedByBackground settings.abnormal suspects grounded c := by
  rintro ⟨hc, g, hg, hblames⟩
  obtain ⟨f, hf, hblames⟩ := (Formula.blames_conjuncts_conj hfacts).mp
    ⟨g, List.mem_of_mem_filter hg, hblames⟩
  exact hblameless f hf c hc hblames

/-- If no fact blames a component, a settled diagnosis reports the minimal conflicts of the
problem. -/
theorem mem_conflicts_iff_of_blameless (hsound : backend.Sound) (hproblem : problem.Regular)
    (hobservations : ∀ f ∈ problem.observations, f.Ground)
    (hgrounded : Formula.ground problem.description problem.components settings.componentSort =
      .ok grounded)
    (hblameless : ∀ f ∈ grounded ++ problem.observations, ∀ c ∈ problem.components,
      ¬ f.Blames settings.abnormal c)
    (h : diagnose backend limits settings problem suspects = .ok outcome)
    (hsettled : outcome.Settled) (conflict : Finset String) :
    conflict ∈ outcome.conflicts.map List.toFinset ↔
      MinimalConflict settings.abnormal (grounded ++ problem.observations)
        (trusted problem.components suspects) conflict := by
  by_cases hstatus : outcome.status = .conflict
  · obtain ⟨grounded', oracle, attempt, hfound⟩ := diagnose_conflict hproblem h hstatus
    obtain rfl : grounded = grounded' := Except.ok.inj (hgrounded.symm.trans hfound.grounding)
    have hfacts := hfound.propositional hproblem
    have hasserted := asserted_eq_empty (trusted problem.components suspects) hfacts
      fun f hf c hc ↦ hblameless f hf c (mem_trusted.mp hc).1
    -- The background says what the facts say, and nothing is reported besides the cores.
    have hbackground (working : Finset String) :
        Contradicts settings.abnormal (problem.background settings.abnormal suspects grounded)
            working ↔
          Contradicts settings.abnormal (grounded ++ problem.observations) working := by
      rw [← contradicts_background_iff (trusted problem.components suspects)
        (hproblem.facts hgrounded), hasserted, Finset.union_empty]
      rfl
    rw [hfound.mem_conflicts_iff hsound hproblem (fun f hf ↦ (hobservations f hf).closed)
      (hsettled.complete hstatus)]
    simp only [not_blamedByBackground hfacts hblameless, or_false,
      minimalConflict_congr hbackground, ← Finset.ext_iff, exists_eq_right']
  · have hnone := (status_sound hsound hproblem hobservations hgrounded h).1
      (hsettled.consistent_iff.mpr hstatus)
    rw [conflicts_eq_nil h hstatus]
    refine iff_of_false (List.not_mem_nil) fun hminimal ↦ hnone ?_
    exact hminimal.prop.2.mono hminimal.prop.1

/-- With sound back ends: let no conflict clause of a fact of a valid problem with a groundable
description and observations without quantifiers name a component as abnormal. If two diagnoses are
settled, and the second one suspects at least what the first one suspects, the second one reports
those conflicts of the first that contain none of its suspects. It finds the problem consistent
exactly if its suspects hit every conflict of the first. -/
theorem conflicts_disjoint_iff (hsound : backend.Sound) (hsound' : backend'.Sound)
    (hdescription : ∀ f ∈ problem.description, f.WellFormed)
    (hobservations : ∀ f ∈ problem.observations, f.WellFormed)
    (hplain : ∀ f ∈ problem.observations, f.containsQuantifier = false)
    (hvalid : problem.assertValid suspects = .ok ()) (hmore : suspects ⊆ more)
    (h : diagnose backend limits settings problem suspects = .ok outcome)
    (h' : diagnose backend' limits' settings problem more = .ok again)
    (hgrounded : Formula.ground problem.description problem.components settings.componentSort =
      .ok grounded)
    (hblameless : ∀ f ∈ grounded ++ problem.observations, ∀ ss, f.conflictClauses = .ok ss →
      ∀ s ∈ ss, ∀ c ∈ problem.components,
        .atom { name := settings.abnormal, args := [c] } ∉ s.antecedent)
    (hsettled : outcome.Settled) (hsettled' : again.Settled) :
    (∀ conflict : Finset String, conflict ∈ again.conflicts.map List.toFinset ↔
        conflict ∈ outcome.conflicts.map List.toFinset ∧ Disjoint conflict more.toFinset) ∧
      (again.status = .consistent ↔ ∀ conflict ∈ outcome.conflicts, ∃ c ∈ more, c ∈ conflict) := by
  have hproblem : problem.Regular :=
    ⟨hdescription, hobservations, Problem.isVariable_of_assertValid hvalid⟩
  have hobserved : ∀ f ∈ problem.observations, f.Ground := fun f hf ↦
    ⟨hobservations f hf, hplain f hf, Problem.isClosed_of_assertValid hvalid f hf⟩
  have hfacts : ∀ f ∈ grounded ++ problem.observations, f.Ground := List.forall_mem_append.mpr
    ⟨Formula.ground_of_ground hproblem.constants hdescription hgrounded, hobserved⟩
  have hunblamed : ∀ f ∈ grounded ++ problem.observations, ∀ c ∈ problem.components,
      ¬ f.Blames settings.abnormal c := by
    intro f hf c hc hblames
    obtain ⟨ss, hss, s, hs, hmem⟩ :=
      (Formula.blames_iff_conflictClauses (hfacts f hf).plain).mp hblames
    exact hblameless f hf ss hss s hs c hc hmem
  have hconflicts (conflict : Finset String) : conflict ∈ again.conflicts.map List.toFinset ↔
      conflict ∈ outcome.conflicts.map List.toFinset ∧ Disjoint conflict more.toFinset := by
    rw [mem_conflicts_iff_of_blameless hsound hproblem hobserved hgrounded hunblamed h hsettled,
      mem_conflicts_iff_of_blameless hsound' hproblem hobserved hgrounded hunblamed h' hsettled']
    exact minimalConflict_trusted_iff hmore
  refine ⟨hconflicts, ?_⟩
  rw [hsettled'.consistent_iff, ← conflicts_eq_nil_iff hproblem h',
    ← List.map_eq_nil_iff (f := List.toFinset), List.eq_nil_iff_forall_not_mem]
  simp only [hconflicts, not_and, List.forall_mem_map, Finset.not_disjoint_iff, List.mem_toFinset]
  exact forall₂_congr fun conflict _ ↦ exists_congr fun c ↦ and_comm

/-! ### A small problem -/

/-- Normal components are in order. One of the first two is observed not to be in order, and so is
the third. -/
def pairProblem : Problem where
  description := [.univ "?x" (.imp (.neg (.atom "ab" ["?x"])) (.atom "ok" ["?x"]))]
  components := ["a1", "a2", "a3"]
  observations :=
    [.neg (.conj [.atom "ok" ["a1"], .atom "ok" ["a2"]]), .neg (.atom "ok" ["a3"])]

/-- The law of the components for one of them. -/
def pairLaw (c : String) : Formula :=
  .imp (.neg (.atom "ab" [c])) (.atom "ok" [c])

/-- The law is grounded for each component. -/
theorem ground_pairProblem : Formula.ground pairProblem.description pairProblem.components
    "component" = .ok [pairLaw "a1", pairLaw "a2", pairLaw "a3"] :=
  rfl

/-- The law is well formed. -/
theorem pairProblem_description : ∀ f ∈ pairProblem.description, f.WellFormed := by
  rw [pairProblem, List.forall_mem_singleton]
  exact .univ (.imp (.neg (.atom _)) (.atom _))

/-- The observations are ground. -/
theorem pairProblem_observations : ∀ f ∈ pairProblem.observations, f.Ground := by
  rw [pairProblem, List.forall_mem_cons, List.forall_mem_singleton]
  refine ⟨⟨.neg (.conj ?_), by decide, by decide⟩, ⟨.neg (.atom _), by decide, by decide⟩⟩
  rw [List.forall_mem_cons, List.forall_mem_singleton]
  exact ⟨.atom _, .atom _⟩

/-- The problem is valid without suspects. -/
theorem pairProblem_valid : pairProblem.assertValid [] = .ok () :=
  Problem.assertValid_eq_ok_iff.mpr (by decide)

/-- The third component is mined first, and then the first two. -/
theorem pairProblem_conflicts :
    restrictConflicts ["a1", "a2", "a3"] [.ofList ["a3"], .ofList ["a1", "a2"]].eraseDups =
      [["a3"], ["a1", "a2"]] := by
  rw [ofList_eq (by decide) fun _ ↦ Iff.rfl, ofList_eq (by decide) fun _ ↦ Iff.rfl]
  rfl

/-- With a single suspect of the first pair, only the third component is left in conflict, and with
both suspects there is none. -/
theorem pairProblem_filtered :
    diagnose (.propositional 100) { checks := 512, refutations := 32 } {} pairProblem [] =
      .ok { status := .conflict, conflicts := [["a3"], ["a1", "a2"]], checks := 9 } ∧
    ∃ again,
      diagnose (.propositional 15) { checks := 64, refutations := 4 } {} pairProblem ["a1"] =
        .ok again ∧
      (∀ conflict : Finset String, conflict ∈ again.conflicts.map List.toFinset ↔
        conflict ∈ ([["a3"], ["a1", "a2"]] : List Conflict).map List.toFinset ∧
          Disjoint conflict {"a1"}) ∧
      (again.status = .consistent ↔
        ∀ conflict ∈ ([["a3"], ["a1", "a2"]] : List Conflict), ∃ c ∈ ["a1"], c ∈ conflict) := by
  have h : diagnose (.propositional 100) { checks := 512, refutations := 32 } {} pairProblem [] =
      .ok { status := .conflict, conflicts := [["a3"], ["a1", "a2"]], checks := 9 } := by
    rw [diagnose_of_valid pairProblem_valid, ← pairProblem_conflicts]
    rfl
  have h' : diagnose (.propositional 15) { checks := 64, refutations := 4 } {} pairProblem ["a1"] =
      .ok { status := .conflict, conflicts := [["a3"]], checks := 4 } :=
    diagnose_of_mined ["a3"] (Problem.assertValid_of_subset pairProblem_valid (by decide)) rfl
      (by decide) (by decide) (by decide)
  have hlaw (c : String) : (pairLaw c).conflictClauses = .ok [] := rfl
  have hsecond : (Formula.neg (.conj [.atom "ok" ["a1"], .atom "ok" ["a2"]])).conflictClauses =
      .ok [{ antecedent := [.atom { name := "ok", args := ["a1"] },
        .atom { name := "ok", args := ["a2"] }], succedent := [] }] := rfl
  have hthird : (Formula.neg (.atom "ok" ["a3"])).conflictClauses =
      .ok [{ antecedent := [.atom { name := "ok", args := ["a3"] }], succedent := [] }] := rfl
  have hblameless : ∀ f ∈ [pairLaw "a1", pairLaw "a2", pairLaw "a3"] ++ pairProblem.observations,
      ∀ ss, f.conflictClauses = .ok ss → ∀ s ∈ ss, ∀ c ∈ pairProblem.components,
        .atom { name := "ab", args := [c] } ∉ s.antecedent := by
    simp [pairProblem, hlaw, hsecond, hthird]
  have hfiltered := conflicts_disjoint_iff (Backend.propositional_sound 100)
    (Backend.propositional_sound 15) pairProblem_description
    (fun f hf ↦ (pairProblem_observations f hf).wellFormed)
    (fun f hf ↦ (pairProblem_observations f hf).plain) pairProblem_valid (List.nil_subset _) h h'
    ground_pairProblem hblameless ⟨by simp, fun _ ↦ rfl⟩ ⟨by simp, fun _ ↦ rfl⟩
  exact ⟨h, _, h', hfiltered⟩

/-! ## All facts -/

/-- The components of an outcome are those of its conflicts. -/
theorem Outcome.mem_components {o : Outcome} {c : String} :
    c ∈ o.components ↔ ∃ conflict ∈ o.conflicts, c ∈ conflict := by
  rw [Outcome.components, Conflict.union, Conflict.ofList, Text.mem_sortedDistinct,
    List.mem_flatten]

namespace Found

/-- Only components are reported. -/
theorem components_subset
    (h : Found backend limits settings problem suspects outcome grounded oracle attempt) :
    outcome.components ⊆ problem.components := by
  intro c hc
  obtain ⟨conflict, hconflict, hc⟩ := Outcome.mem_components.mp hc
  obtain ⟨_, _, hmem⟩ := h.reports.source conflict hconflict
  exact ((hmem c).mp hc).1

/-- All components of a minimal contradiction to the background are reported. -/
theorem subset_components
    (h : Found backend limits settings problem suspects outcome grounded oracle attempt)
    (hsound : backend.Sound) (hproblem : problem.Regular)
    (hclosed : ∀ f ∈ problem.observations, f.isClosed = true)
    (hcomplete : outcome.complete = true) {conflict : Finset String}
    (hminimal : MinimalConflict settings.abnormal
      (problem.background settings.abnormal suspects grounded)
      (trusted problem.components suspects) conflict) :
    ∀ c ∈ conflict, c ∈ outcome.components := by
  obtain ⟨core, hcore, rfl⟩ :=
    (h.exists_core_iff hsound hproblem hclosed hcomplete conflict).mpr hminimal
  obtain ⟨reported, hreported, hmem⟩ := h.reports.reported _ (List.mem_map_of_mem hcore)
  refine fun c hc ↦ Outcome.mem_components.mpr ⟨reported, hreported, (hmem c).mpr ?_⟩
  exact (implicates_iff hproblem (h.core_sublist hcore)).mpr (.inl hc)

/-- If the facts can be true, they can be true while all components are normal that are neither
suspected nor reported by a complete diagnosis. -/
theorem not_contradicts
    (h : Found backend limits settings problem suspects outcome grounded oracle attempt)
    (hsound : backend.Sound) (hproblem : problem.Regular)
    (hclosed : ∀ f ∈ problem.observations, f.isClosed = true)
    (hcomplete : outcome.complete = true)
    (hsatisfiable : ¬ Contradicts settings.abnormal (grounded ++ problem.observations) ∅) :
    ¬ Contradicts settings.abnormal (grounded ++ problem.observations)
      (trusted problem.components (suspects ++ outcome.components)).toFinset := by
  have hfacts := hproblem.facts h.grounding
  intro hcontradicts
  rw [← contradicts_background_iff (trusted problem.components suspects) hfacts]
    at hcontradicts hsatisfiable
  have hstill {c : String}
      (hc : c ∈ (trusted problem.components (suspects ++ outcome.components)).toFinset) :
      c ∈ trusted problem.components suspects ∧ c ∉ outcome.components := by
    rw [List.mem_toFinset, mem_trusted, List.mem_append, not_or] at hc
    exact ⟨mem_trusted.mpr ⟨hc.1, hc.2.1⟩, hc.2.2⟩
  obtain ⟨core, hsub, hminimal⟩ := exists_minimalConflict
    (trusted problem.components suspects)
    (Finset.union_subset (fun c hc ↦ List.mem_toFinset.mpr (hstill hc).1)
      (Finset.filter_subset _ _)) hcontradicts
  -- The core avoids the components that are still trusted, since it is reported.
  refine hsatisfiable (hminimal.prop.2.mono fun c hc ↦ ?_)
  rcases Finset.mem_union.mp (hsub hc) with htrusted | hasserted
  · have hreported := h.subset_components hsound hproblem hclosed hcomplete hminimal c hc
    exact absurd hreported (hstill htrusted).2
  · exact Finset.mem_union_right _ hasserted

end Found

/-- With sound back ends: let a complete diagnosis of a valid problem with a groundable description
find conflicts, while the description and the observations alone can be true. If all reported
components are suspected too, another diagnosis finds the problem consistent or gives up, and it has
an outcome if its back end loads ground premises. -/
theorem reported_resolve (hsound : backend.Sound) (hsound' : backend'.Sound)
    (limits' : Cores.Limits)
    (h : diagnose backend limits settings problem suspects = .ok outcome)
    (hstatus : outcome.status = .conflict) (hcomplete : outcome.complete = true)
    (hdescription : ∀ f ∈ problem.description, f.WellFormed)
    (hobservations : ∀ f ∈ problem.observations, f.WellFormed)
    (hvalid : problem.assertValid suspects = .ok ())
    (hgrounded : Formula.ground problem.description problem.components settings.componentSort =
      .ok grounded)
    (hsatisfiable : Formula.Satisfiable (grounded ++ problem.observations)) :
    (∀ again, diagnose backend' limits' settings problem (suspects ++ outcome.components) =
        .ok again → again.status = .consistent ∨ again.status = .inconclusive) ∧
      (backend'.Loads Formula.Ground → ∃ again,
        diagnose backend' limits' settings problem (suspects ++ outcome.components) =
          .ok again) := by
  have hproblem : problem.Regular :=
    ⟨hdescription, hobservations, Problem.isVariable_of_assertValid hvalid⟩
  have hclosed := Problem.isClosed_of_assertValid hvalid
  obtain ⟨grounded', oracle, attempt, hfound⟩ := diagnose_conflict hproblem h hstatus
  obtain rfl : grounded = grounded' := Except.ok.inj (hgrounded.symm.trans hfound.grounding)
  have hobserved : ∀ f ∈ problem.observations, f.Ground := fun f hf ↦
    (hfound.propositional hproblem f (List.mem_append_right _ hf)).ground (hclosed f hf)
  have hpossible : ¬ Contradicts settings.abnormal (grounded ++ problem.observations) ∅ := by
    obtain ⟨truth, htruth⟩ := hsatisfiable
    exact fun hnot ↦ hnot ⟨truth, htruth, by simp⟩
  have hresolved := hfound.not_contradicts hsound hproblem hclosed hcomplete hpossible
  refine ⟨fun again hagain ↦ ?_, fun hloads ↦ ?_⟩
  · have hconflict := (status_sound hsound' hproblem hobserved hgrounded hagain).2
    cases hcase : again.status with
    | consistent => exact .inl rfl
    | conflict => exact absurd (hconflict hcase) hresolved
    | inconclusive => exact .inr rfl
  · refine exists_outcome hloads hproblem hobserved ?_ hgrounded
    refine Problem.assertValid_of_subset hvalid (List.append_subset.mpr ⟨?_, ?_⟩)
    · exact Problem.suspects_subset_of_assertValid hvalid
    · exact hfound.components_subset

/-- The first component of the pair is observed to be normal besides. -/
def vouchedPairProblem : Problem :=
  { pairProblem with observations := .neg (.atom "ab" ["a1"]) :: pairProblem.observations }

/-- The observation that the first component is normal is an assumption of the first diagnosis and
background of the second one, which finds no conflict. -/
theorem vouchedPairProblem_resolved :
    diagnose (.propositional 100) { checks := 512, refutations := 32 } {} vouchedPairProblem [] =
      .ok { status := .conflict, conflicts := [["a3"], ["a1", "a2"]], checks := 9 } ∧
    ∃ again,
      diagnose (.propositional 15) { checks := 64, refutations := 4 } {} vouchedPairProblem
        ["a1", "a2", "a3"] = .ok again ∧
      (again.status = .consistent ∨ again.status = .inconclusive) := by
  have hvalid : vouchedPairProblem.assertValid [] = .ok () :=
    Problem.assertValid_eq_ok_iff.mpr (by decide)
  have h : diagnose (.propositional 100) { checks := 512, refutations := 32 } {} vouchedPairProblem
      [] = .ok { status := .conflict, conflicts := [["a3"], ["a1", "a2"]], checks := 9 } := by
    rw [diagnose_of_valid hvalid, ← pairProblem_conflicts]
    rfl
  have hobservations : ∀ f ∈ vouchedPairProblem.observations, f.WellFormed :=
    List.forall_mem_cons.mpr
      ⟨.neg (.atom _), fun f hf ↦ (pairProblem_observations f hf).wellFormed⟩
  have hsatisfiable : Formula.Satisfiable
      ([pairLaw "a1", pairLaw "a2", pairLaw "a3"] ++ vouchedPairProblem.observations) := by
    refine ⟨fun a ↦ a ∈ [{ name := "ok", args := ["a1"] }, { name := "ab", args := ["a2"] },
      { name := "ab", args := ["a3"] }], ?_⟩
    simp [vouchedPairProblem, pairProblem, pairLaw, Formula.HoldsIn, Formula.atom]
  have hcomponents : Outcome.components
      { status := .conflict, conflicts := [["a3"], ["a1", "a2"]], checks := 9 } =
        ["a1", "a2", "a3"] :=
    ofList_eq (by decide) fun _ ↦ List.Perm.mem_iff (by decide)
  have hresolve := reported_resolve (Backend.propositional_sound 100)
    (Backend.propositional_sound 15) { checks := 64, refutations := 4 } h rfl rfl
    pairProblem_description hobservations hvalid ground_pairProblem hsatisfiable
  rw [hcomponents, List.nil_append] at hresolve
  obtain ⟨again, hagain⟩ := hresolve.2 fun premises hpremises ↦
    Backend.propositional_loads 15 .collected premises fun f hf ↦ (hpremises f hf).wellFormed
  exact ⟨h, again, hagain, hresolve.1 again hagain⟩

end Diagnosis
