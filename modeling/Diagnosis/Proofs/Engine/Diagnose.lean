import Diagnosis.Engine
import Diagnosis.Proofs.Problem.Grounding
import Diagnosis.Proofs.Problem.MinimalConflicts

/-!
# How a diagnosis finds conflicts

A diagnosis that ends with a conflict has searched the conjuncts of its theory for cores, and each
certificate that was found is reported as the components that it implicates. `Found` collects what
is known of such a diagnosis, and `diagnose_conflict` says that there is no other way to arrive at
a conflict. With a sound back end the components of every core contradict the background
(`Found.contradicts`).
-/

namespace Diagnosis

variable {σ : Type} {backend : Backend σ} {limits : Cores.Limits} {settings : ProblemSettings}
  {problem : Problem} {suspects components : List String} {outcome : Outcome} {abnormal : String}

/-! ## From refutations to conflicts -/

/-- The component is a constant that a premise of the refutation blames. -/
def Refutation.Implicates (abnormal : String) (components : List String) (r : Refutation)
    (c : String) : Prop :=
  c ∈ components ∧ isVariable c = false ∧ ∃ f ∈ r.premises, f.Blames abnormal c

/-- The conflicts are those of the refutations, each set of components once. -/
structure Reports (abnormal : String) (components : List String) (refutations : List Refutation)
    (conflicts : List Conflict) : Prop where
  plain : ∀ r ∈ refutations, ∀ f ∈ r.premises, f.containsQuantifier = false
  reported : ∀ r ∈ refutations, ∃ conflict ∈ conflicts,
    ∀ c, c ∈ conflict ↔ r.Implicates abnormal components c
  source : ∀ conflict ∈ conflicts, ∃ r ∈ refutations,
    ∀ c, c ∈ conflict ↔ r.Implicates abnormal components c
  distinct : (conflicts.map List.toFinset).Nodup

/-- What is mined from well-formed refutations reports them. -/
theorem reports_of_mineConflicts {refutations : List Refutation} {mined : List Conflict}
    (hwellFormed : ∀ r ∈ refutations, ∀ f ∈ r.premises, f.WellFormed)
    (h : mineConflicts abnormal refutations = .ok mined) :
    Reports abnormal components refutations (restrictConflicts components mined) := by
  obtain ⟨found, hfound, rfl⟩ := mineConflicts_eq_ok h
  have hmem {conflict : Conflict} : conflict ∈ restrictConflicts components found.eraseDups ↔
      ∃ whole ∈ found, whole.restrict components = conflict := by
    simp [restrictConflicts]
  have hrestrict {r : Refutation} {whole : Conflict} (hr : r ∈ refutations)
      (hwhole : r.conflict abnormal = .ok whole) (c : String) :
      c ∈ whole.restrict components ↔ r.Implicates abnormal components c := by
    rw [Conflict.restrict, List.mem_filter, List.contains_iff_mem, and_comm,
      mem_conflict (hwellFormed r hr) hwhole, Refutation.Implicates]
  refine ⟨fun r hr ↦ ?_, fun r hr ↦ ?_, fun conflict hconflict ↦ ?_, ?_⟩
  · obtain ⟨whole, _, hwhole⟩ := exists_of_forall₂ hfound.flip hr
    exact (conflict_eq_ok hwhole).1
  · obtain ⟨whole, hmember, hwhole⟩ := exists_of_forall₂ hfound.flip hr
    exact ⟨_, hmem.mpr ⟨whole, hmember, rfl⟩, hrestrict hr hwhole⟩
  · obtain ⟨whole, hmember, rfl⟩ := hmem.mp hconflict
    obtain ⟨r, hr, hwhole⟩ := exists_of_forall₂ hfound hmember
    exact ⟨r, hr, hrestrict hr hwhole⟩
  · -- Conflicts are listed in ascending order, so that as lists they differ only as sets.
    refine List.Nodup.map_on (fun left hleft right hright heq ↦ ?_) (nodup_eraseDups _)
    have hascending : ∀ conflict ∈ restrictConflicts components found.eraseDups,
        conflict.SortedLT := by
      intro conflict hconflict
      obtain ⟨whole, hmember, rfl⟩ := hmem.mp hconflict
      obtain ⟨r, _, hwhole⟩ := exists_of_forall₂ hfound hmember
      exact ((conflict_eq_ok hwhole).2.1.pairwise.filter _).sortedLT
    refine (hascending left hleft).eq_of_mem_iff (hascending right hright) fun c ↦ ?_
    rw [← List.mem_toFinset, heq, List.mem_toFinset]

/-! ## Diagnoses -/

/-- A proof that ends in a conflict proves, and its refutations are reported. -/
theorem outcomeOfProof_conflict {proof : Proof}
    (h : outcomeOfProof settings components proof = .ok outcome)
    (hstatus : outcome.status = .conflict) :
    proof.attempt.status = .proved ∧ outcome.complete = proof.attempt.complete ∧
      ∃ mined, mineConflicts settings.abnormal proof.refutations = .ok mined ∧
        outcome.conflicts = restrictConflicts components mined := by
  unfold outcomeOfProof at h
  split at h
  case h_1 =>
    cases h
    cases hstatus
  case h_2 =>
    cases h
    cases hstatus
  case h_3 hproved =>
    obtain ⟨mined, hmined, h⟩ := bind_eq_ok_iff.mp h
    cases h
    exact ⟨hproved, rfl, mined, hmined, rfl⟩

/-- A valid problem is diagnosed as if it were not validated. -/
theorem diagnose_of_valid (hvalid : problem.assertValid suspects = .ok ()) :
    diagnose backend limits settings problem suspects =
      diagnose backend limits { settings with validateInputs := false } problem suspects := by
  simp only [diagnose, hvalid]
  cases settings.validateInputs <;> rfl

/-- If a valid problem has a single refutation, and some components are mined from it in whatever
order, these are the only conflict. -/
theorem diagnose_of_mined (mined : List String) {conflict : Conflict} {checks : Int}
    {complete : Bool} (hvalid : problem.assertValid suspects = .ok ())
    (h : diagnose backend limits { settings with validateInputs := false } problem suspects =
      .ok
        { status := .conflict
          conflicts := restrictConflicts problem.components [.ofList mined]
          checks, complete })
    (hperm : mined.Perm conflict) (hsorted : conflict.SortedLT)
    (hsub : conflict ⊆ problem.components) :
    diagnose backend limits settings problem suspects =
      .ok { status := .conflict, conflicts := [conflict], checks, complete } := by
  have hconflict : Conflict.ofList mined = conflict := ofList_eq hsorted fun _ ↦ hperm.mem_iff
  have hrestrict : Conflict.restrict problem.components conflict = conflict :=
    List.filter_eq_self.mpr fun _ hc ↦ List.contains_iff_mem.mpr (hsub hc)
  rw [diagnose_of_valid hvalid, h, restrictConflicts, List.map_singleton, hconflict, hrestrict]
  rfl

/-- A diagnosis grounds the description, refutes the theory and reads the outcome off the
proof. -/
theorem diagnose_eq_ok (h : diagnose backend limits settings problem suspects = .ok outcome) :
    ∃ grounded proof,
      Formula.ground problem.description problem.components settings.componentSort =
        .ok grounded ∧
      backend.refute limits
        (.neg (assembleTheory grounded problem.components problem.observations suspects
          settings.abnormal))
        (some (normalAssumptions problem.components suspects settings.abnormal)) = .ok proof ∧
      outcomeOfProof settings problem.components proof = .ok outcome := by
  have hrest : (do
      let grounded ←
        Formula.ground problem.description problem.components settings.componentSort
      let proof ← liftFault (backend.refute limits
        (.neg (assembleTheory grounded problem.components problem.observations suspects
          settings.abnormal))
        (some (normalAssumptions problem.components suspects settings.abnormal)))
      outcomeOfProof settings problem.components proof) = .ok outcome := by
    unfold diagnose at h
    split at h
    · obtain ⟨_, _, h⟩ := bind_eq_ok_iff.mp h
      exact h
    · exact h
  simp only [bind_eq_ok_iff, liftFault_eq_ok_iff] at hrest
  obtain ⟨grounded, hgrounded, proof, hproof, hrest⟩ := hrest
  exact ⟨grounded, proof, hgrounded, hproof, hrest⟩

/-- The premises of a diagnosis: the conjuncts of its theory. -/
def Problem.premises (problem : Problem) (abnormal : String) (suspects : List String)
    (grounded : List Formula) : List Formula :=
  (assembleTheory grounded problem.components problem.observations suspects abnormal).conjuncts

/-- The positions of the premises that a diagnosis tracks. -/
def Problem.tracked (problem : Problem) (abnormal : String) (suspects : List String)
    (grounded : List Formula) : List Nat :=
  normalityPositions abnormal (problem.premises abnormal suspects grounded)
    (trusted problem.components suspects)

/-- The facts that are not taken for assumptions. -/
def Problem.background (problem : Problem) (abnormal : String) (suspects : List String)
    (grounded : List Formula) : List Formula :=
  Diagnosis.background abnormal (grounded ++ problem.observations)
    (trusted problem.components suspects)

/-- The component belongs to the problem and is blamed by the background. -/
def Problem.BlamedByBackground (problem : Problem) (abnormal : String) (suspects : List String)
    (grounded : List Formula) (c : String) : Prop :=
  c ∈ problem.components ∧
    ∃ f ∈ problem.background abnormal suspects grounded, f.Blames abnormal c

/-- The problem is written with the constructors alone, and its components are constants. -/
structure Problem.Regular (problem : Problem) : Prop where
  description : ∀ f ∈ problem.description, f.WellFormed
  observations : ∀ f ∈ problem.observations, f.WellFormed
  constants : ∀ c ∈ problem.components, isVariable c = false

/-- What is known of a diagnosis that ends in a conflict: the attempt that found it, and that the
certificates of its cores are reported. -/
structure Found (backend : Backend σ) (limits : Cores.Limits) (settings : ProblemSettings)
    (problem : Problem) (suspects : List String) (outcome : Outcome) (grounded : List Formula)
    (oracle : Cores.Oracle σ) (attempt : Cores.Attempt) : Prop where
  grounding : Formula.ground problem.description problem.components settings.componentSort =
    .ok grounded
  loading : oracle = Backend.givingUp Cores.budgetReason ∨
    backend.load (problem.premises settings.abnormal suspects grounded) = .ok oracle
  runs : Cores.Search.Runs
    { frame :=
        { size := (problem.premises settings.abnormal suspects grounded).length
          tracked := problem.tracked settings.abnormal suspects grounded }
      limits, oracle } backend.start attempt
  proved : attempt.status = .proved
  complete : outcome.complete = attempt.complete
  reports : Reports settings.abnormal problem.components
    (attempt.cores.map (certificate (problem.premises settings.abnormal suspects grounded)
      (problem.tracked settings.abnormal suspects grounded))) outcome.conflicts

/-- The facts of a regular problem are well formed. -/
theorem Problem.Regular.facts {grounded : List Formula} {sort : String}
    (hproblem : problem.Regular)
    (hgrounded : Formula.ground problem.description problem.components sort = .ok grounded) :
    ∀ f ∈ grounded ++ problem.observations, f.WellFormed := by
  have hground := Formula.ground_of_ground hproblem.constants hproblem.description hgrounded
  exact List.forall_mem_append.mpr
    ⟨fun f hf ↦ (hground f hf).wellFormed, hproblem.observations⟩

/-- The premises of a regular problem are well formed. -/
theorem Problem.Regular.premises {grounded : List Formula} {sort : String}
    (hproblem : problem.Regular) (abnormal : String) (suspects : List String)
    (hgrounded : Formula.ground problem.description problem.components sort = .ok grounded) :
    ∀ f ∈ problem.premises abnormal suspects grounded, f.WellFormed := by
  have htheory := wellFormed_assembleTheory problem.components suspects abnormal
    (hproblem.facts hgrounded)
  exact (Formula.forall_conjuncts _ (fun _ ↦ Formula.wellFormed_conj) htheory).mpr htheory

/-- The premises of a regular problem are ground if the observations are. -/
theorem Problem.Regular.premises_ground {grounded : List Formula} {sort : String}
    (hproblem : problem.Regular) (abnormal : String) (suspects : List String)
    (hgrounded : Formula.ground problem.description problem.components sort = .ok grounded)
    (hobservations : ∀ f ∈ problem.observations, f.Ground) :
    ∀ f ∈ problem.premises abnormal suspects grounded, f.Ground := by
  have hground := Formula.ground_of_ground hproblem.constants hproblem.description hgrounded
  exact (ground_assembleTheory hground hobservations hproblem.constants).conjuncts

/-- A diagnosis with a result reads it off a search over its premises. -/
theorem diagnose_search (h : diagnose backend limits settings problem suspects = .ok outcome) :
    ∃ grounded oracle,
      Formula.ground problem.description problem.components settings.componentSort =
        .ok grounded ∧
      (oracle = Backend.givingUp Cores.budgetReason ∨
        backend.load (problem.premises settings.abnormal suspects grounded) = .ok oracle) ∧
      outcomeOfProof settings problem.components
        (searchProof (problem.premises settings.abnormal suspects grounded)
          (problem.tracked settings.abnormal suspects grounded) limits oracle backend.start) =
        .ok outcome := by
  obtain ⟨grounded, proof, hgrounded, hproof, houtcome⟩ := diagnose_eq_ok h
  -- The goal denies the theory, so that its denial is the theory again.
  obtain ⟨theory, oracle, htheory, hload, rfl⟩ := Backend.refute_eq_ok hproof
  obtain rfl := Except.ok.inj htheory
  exact ⟨grounded, oracle, hgrounded, hload, houtcome⟩

/-- Every diagnosis of a regular problem that ends in a conflict has found it in this way. -/
theorem diagnose_conflict (hproblem : problem.Regular)
    (h : diagnose backend limits settings problem suspects = .ok outcome)
    (hstatus : outcome.status = .conflict) :
    ∃ grounded oracle attempt,
      Found backend limits settings problem suspects outcome grounded oracle attempt := by
  obtain ⟨grounded, oracle, hgrounded, hload, houtcome⟩ := diagnose_search h
  obtain ⟨hproved, hcomplete, mined, hmined, hconflicts⟩ := outcomeOfProof_conflict houtcome hstatus
  refine ⟨grounded, oracle, _, hgrounded, hload, runs_searchProof _ _ _ _ _, hproved, hcomplete, ?_⟩
  rw [hconflicts]
  rw [refutations_searchProof] at hmined
  refine reports_of_mineConflicts (fun r hr f hf ↦ ?_) hmined
  obtain ⟨core, _, rfl⟩ := List.mem_map.mp hr
  exact hproblem.premises _ _ hgrounded f (certificate_subset _ _ core hf)

namespace Found

variable {grounded : List Formula} {oracle : Cores.Oracle σ} {attempt : Cores.Attempt}
  {core : List Nat} {c : String}

/-- The cores are positions of assumptions. -/
theorem core_sublist
    (h : Found backend limits settings problem suspects outcome grounded oracle attempt)
    (hcore : core ∈ attempt.cores) :
    core.Sublist (problem.tracked settings.abnormal suspects grounded) :=
  h.runs.listed.1 core hcore

/-- A conflict comes from a core. -/
theorem exists_core
    (h : Found backend limits settings problem suspects outcome grounded oracle attempt) :
    ∃ core, core ∈ attempt.cores :=
  List.exists_mem_of_ne_nil _ (h.runs.cores_ne_nil_iff.mpr h.proved)

/-- A core implicates its own components and those that the background blames. -/
theorem implicates_iff (hproblem : problem.Regular)
    (hcore : core.Sublist (problem.tracked abnormal suspects grounded)) :
    (certificate (problem.premises abnormal suspects grounded)
        (problem.tracked abnormal suspects grounded) core).Implicates abnormal
          problem.components c ↔
      c ∈ normalAt abnormal (problem.premises abnormal suspects grounded)
          (trusted problem.components suspects) core ∨
        problem.BlamedByBackground abnormal suspects grounded c := by
  rw [Refutation.Implicates, Problem.BlamedByBackground]
  simp only [Problem.tracked, mem_certificate_normalAt hcore]
  constructor
  · rintro ⟨hc, _, f, ⟨hf, hassumption⟩ | ⟨d, hd, rfl⟩, hblames⟩
    · exact .inr ⟨hc, f, mem_background.mpr ⟨hf, hassumption⟩, hblames⟩
    · exact .inl (Formula.blames_normality.mp hblames ▸ hd)
  · rintro (hc | ⟨hc, f, hf, hblames⟩)
    · have hcomponent := List.mem_of_mem_filter (mem_normalAt.mp hc).1
      exact ⟨hcomponent, hproblem.constants c hcomponent, _, .inr ⟨c, hc, rfl⟩,
        Formula.blames_normality.mpr rfl⟩
    · exact ⟨hc, hproblem.constants c hc, f, .inl (mem_background.mp hf), hblames⟩

/-- Where a conflict was found, no fact has a quantifier: the facts that are no assumptions belong
to every certificate, and what a certificate holds was brought into clauses. -/
theorem propositional
    (h : Found backend limits settings problem suspects outcome grounded oracle attempt)
    (hproblem : problem.Regular) :
    ∀ f ∈ grounded ++ problem.observations, f.Propositional Formula.anyConnective := by
  have hwellFormed := hproblem.facts h.grounding
  obtain ⟨core, hcore⟩ := h.exists_core
  have hplain : ∀ g ∈ (Formula.conj (grounded ++ problem.observations)).conjuncts,
      g.containsQuantifier = false := by
    intro g hg
    -- An assumption has no quantifier; any other conjunct is background.
    by_cases hassumption :
      g ∈ normalAssumptions problem.components suspects settings.abnormal
    · obtain ⟨c, hc, rfl⟩ := List.mem_map.mp hassumption
      exact (ground_normality (hproblem.constants c (List.mem_of_mem_filter hc))).plain
    · refine h.reports.plain _ (List.mem_map_of_mem hcore) g ?_
      refine (mem_certificate_normalAt (h.core_sublist hcore)).mpr (.inl ⟨?_, hassumption⟩)
      exact mem_conjuncts_assembleTheory.mpr (.inl hg)
  rw [Formula.forall_conjuncts _ (fun _ ↦ Formula.plain_conj) (.conj hwellFormed),
    Formula.plain_conj] at hplain
  exact fun f hf ↦ (hwellFormed f hf).propositional (hplain f hf)

/-- The premises of a diagnosis that found a conflict are ground if the observations are closed. -/
theorem premises_ground
    (h : Found backend limits settings problem suspects outcome grounded oracle attempt)
    (hproblem : problem.Regular) (hclosed : ∀ f ∈ problem.observations, f.isClosed = true) :
    ∀ f ∈ problem.premises settings.abnormal suspects grounded, f.Ground := by
  refine hproblem.premises_ground _ _ h.grounding fun f hf ↦ ?_
  exact (h.propositional hproblem f (List.mem_append_right _ hf)).ground (hclosed f hf)

/-- The oracle of a sound back end is sound. -/
theorem oracle_sound
    (h : Found backend limits settings problem suspects outcome grounded oracle attempt)
    (hsound : backend.Sound) (hproblem : problem.Regular)
    (hclosed : ∀ f ∈ problem.observations, f.isClosed = true) :
    oracle.Sound (premiseHolds trueUnder (problem.premises settings.abnormal suspects grounded))
      (problem.premises settings.abnormal suspects grounded).length :=
  hsound.oracle (h.premises_ground hproblem hclosed) h.loading

/-- With a sound back end, the components of a core contradict the background. -/
theorem contradicts
    (h : Found backend limits settings problem suspects outcome grounded oracle attempt)
    (hsound : backend.Sound) (hproblem : problem.Regular)
    (hclosed : ∀ f ∈ problem.observations, f.isClosed = true) (hcore : core ∈ attempt.cores) :
    Contradicts settings.abnormal (problem.background settings.abnormal suspects grounded)
      (normalAt settings.abnormal (problem.premises settings.abnormal suspects grounded)
        (trusted problem.components suspects) core) := by
  have hconflicting := h.runs.conflicting (h.oracle_sound hsound hproblem hclosed)
    (ordered_normalityPositions _) core hcore
  rw [conflicting_iff_certificate] at hconflicting
  exact (contradictory_certificate_iff (fun f ↦ mem_background) (h.core_sublist hcore)).mp
    hconflicting

/-- The conjuncts of true facts are true. -/
theorem background_true (hproblem : problem.Regular) {sort : String}
    (hgrounded : Formula.ground problem.description problem.components sort = .ok grounded)
    (truth : Atom → Prop) (hfacts : ∀ f ∈ grounded ++ problem.observations, trueUnder truth f) :
    ∀ f ∈ problem.background abnormal suspects grounded, trueUnder truth f := by
  intro f hf
  have hconjuncts := (trueUnder_conjuncts (hproblem.facts hgrounded) truth).mpr hfacts
  exact hconjuncts f (List.mem_of_mem_filter hf)

/-- Where a conflict was found, one is reported. -/
theorem exists_conflict
    (h : Found backend limits settings problem suspects outcome grounded oracle attempt) :
    ∃ conflict, conflict ∈ outcome.conflicts := by
  obtain ⟨core, hcore⟩ := h.exists_core
  obtain ⟨conflict, hconflict, _⟩ := h.reports.reported _ (List.mem_map_of_mem hcore)
  exact ⟨conflict, hconflict⟩

/-- A suspect belongs to a reported conflict if a fact blames it, whatever the core was. -/
theorem mem_conflict_of_suspected
    (h : Found backend limits settings problem suspects outcome grounded oracle attempt)
    (hproblem : problem.Regular) (hcomponent : c ∈ problem.components) (hc : c ∈ suspects)
    {conflict : Conflict} (hconflict : conflict ∈ outcome.conflicts) :
    c ∈ conflict ↔ ∃ f ∈ grounded ++ problem.observations, f.Blames settings.abnormal c := by
  obtain ⟨_, hr, hmem⟩ := h.reports.source conflict hconflict
  obtain ⟨core, hcore, rfl⟩ := List.mem_map.mp hr
  have huntrusted : c ∉ trusted problem.components suspects := by
    simp [trusted, hc]
  have hidle : c ∉ normalAt settings.abnormal
      (problem.premises settings.abnormal suspects grounded)
      (trusted problem.components suspects) core :=
    fun hmem ↦ huntrusted (mem_normalAt.mp hmem).1
  rw [hmem, implicates_iff hproblem (h.core_sublist hcore), or_iff_right hidle,
    Problem.BlamedByBackground, and_iff_right hcomponent, Problem.background,
    blames_background_iff (h.propositional hproblem) huntrusted]

end Found

end Diagnosis
