import Diagnosis.Proofs.Formula.Conjuncts
import Diagnosis.Proofs.Problem.Blame
import Diagnosis.Proofs.Prover.Certificates
import Mathlib.Data.Finset.Basic

/-!
# The theory of a diagnosis

The theory of a diagnosis has the conjuncts of the facts, which are the grounded description and
the observations, and the assumptions that trusted components are normal. A conflict is a set of
components that contradicts the facts when its members are assumed to be normal.

Conjuncts are compared as formulas. A fact that says that a trusted component is normal is
therefore taken for the assumption, and the background lacks it.
-/

namespace Diagnosis

variable {abnormal : String} {facts fewer more : List Formula} {working : Finset String}
  {grounded observations : List Formula} {components suspects : List String}

/-! ## Contradictions -/

/-- The facts cannot all be true while the components are normal. -/
def Contradicts (abnormal : String) (facts : List Formula) (working : Finset String) : Prop :=
  ¬ ∃ truth : Atom → Prop, (∀ f ∈ facts, trueUnder truth f) ∧
    ∀ c ∈ working, trueUnder truth (normality abnormal c)

/-- What contradicts some facts contradicts them when more components are normal. -/
theorem Contradicts.mono {part : Finset String} (h : Contradicts abnormal facts part)
    (hsub : part ⊆ working) : Contradicts abnormal facts working := by
  rintro ⟨truth, hfacts, hworking⟩
  exact h ⟨truth, hfacts, fun c hc ↦ hworking c (hsub hc)⟩

/-- What contradicts some facts contradicts all that implies them. -/
theorem Contradicts.of_imp (h : Contradicts abnormal fewer working)
    (himp : ∀ truth, (∀ f ∈ more, trueUnder truth f) → ∀ f ∈ fewer, trueUnder truth f) :
    Contradicts abnormal more working := by
  rintro ⟨truth, hfacts, hworking⟩
  exact h ⟨truth, himp truth hfacts, hworking⟩

/-- A conjunction of facts is true if its conjuncts are. -/
theorem trueUnder_conjuncts (hfacts : ∀ f ∈ facts, f.WellFormed) (truth : Atom → Prop) :
    (∀ g ∈ (Formula.conj facts).conjuncts, trueUnder truth g) ↔ ∀ f ∈ facts, trueUnder truth f := by
  rw [Formula.forall_conjuncts (trueUnder truth) (fun fs ↦ Formula.holds_conj fs) (.conj hfacts)]
  exact Formula.holds_conj facts

/-- The conjuncts of facts are contradicted like the facts. -/
theorem contradicts_conjuncts_iff (hfacts : ∀ f ∈ facts, f.WellFormed) :
    Contradicts abnormal (Formula.conj facts).conjuncts working ↔
      Contradicts abnormal facts working :=
  not_congr (exists_congr fun truth ↦ and_congr_left' (trueUnder_conjuncts hfacts truth))

/-- A component is normal where no atom says that it is abnormal. -/
@[simp] theorem trueUnder_normality {truth : Atom → Prop} {component : String} :
    trueUnder truth (normality abnormal component) ↔
      ¬ truth { name := abnormal, args := [component] } := by
  simp [trueUnder, normality, Formula.HoldsIn, Formula.atom]

/-- The theory of well-formed facts is well formed. -/
theorem wellFormed_assembleTheory (components suspects : List String) (abnormal : String)
    (hfacts : ∀ f ∈ grounded ++ observations, f.WellFormed) :
    (assembleTheory grounded components observations suspects abnormal).WellFormed := by
  obtain ⟨hgrounded, hobservations⟩ := List.forall_mem_append.mp hfacts
  refine .conj (List.forall_mem_append.mpr ⟨List.forall_mem_append.mpr ⟨hgrounded, ?_⟩,
    hobservations⟩)
  exact List.forall_mem_map.mpr fun c _ ↦ .neg (.atom _)

/-- A theory of facts is satisfiable if the trusted components do not contradict the facts. -/
theorem satisfiableIn_conjuncts_iff (hfacts : ∀ f ∈ grounded ++ observations, f.WellFormed) :
    SatisfiableIn trueUnder
        (assembleTheory grounded components observations suspects abnormal).conjuncts ↔
      ¬ Contradicts abnormal (grounded ++ observations)
        (trusted components suspects).toFinset := by
  have htheory := wellFormed_assembleTheory components suspects abnormal hfacts
  rw [assembleTheory, Formula.wellFormed_conj] at htheory
  rw [Contradicts, not_not, SatisfiableIn, assembleTheory]
  refine exists_congr fun truth ↦ ?_
  rw [trueUnder_conjuncts htheory]
  simp only [normalAssumptions, List.forall_mem_append, List.forall_mem_map, List.mem_toFinset]
  exact and_right_comm

/-! ## Premises -/

/-- The components that are not suspected are trusted. -/
@[simp] theorem mem_trusted {c : String} :
    c ∈ trusted components suspects ↔ c ∈ components ∧ c ∉ suspects := by
  simp [trusted]

/-- The assumption that a component is normal is its own conjunct. -/
@[simp] theorem conjunctLeaves_normality (component : String) :
    (normality abnormal component).conjunctLeaves = [normality abnormal component] :=
  Formula.conjunctLeaves_of_ne (by simp [normality, Formula.neg])

/-- The assumption that a component is normal says which one. -/
theorem normality_injective : Function.Injective (normality abnormal) := by
  intro c d h
  simpa [normality, Formula.neg, Formula.atom, Formula.ofAtom] using h

/-- The assumption that a constant is normal is ground. -/
theorem ground_normality {component : String} (hcomponent : isVariable component = false) :
    (normality abnormal component).Ground := by
  have hpropositional : (normality abnormal component).Propositional Formula.anyConnective :=
    .neg (.atom _)
  apply hpropositional.ground
  simp [normality, Formula.atom, Formula.isClosed, Atom.variableArgs, hcomponent]

/-- A conjunct of the theory is a conjunct of the facts or an assumption. -/
theorem mem_conjuncts_assembleTheory {f : Formula} :
    f ∈ (assembleTheory grounded components observations suspects abnormal).conjuncts ↔
      f ∈ (Formula.conj (grounded ++ observations)).conjuncts ∨
        ∃ c ∈ trusted components suspects, f = normality abnormal c := by
  have hassumptions : (normalAssumptions components suspects abnormal).flatMap
      Formula.conjunctLeaves = normalAssumptions components suspects abnormal := by
    rw [normalAssumptions, List.flatMap_map]
    simp only [conjunctLeaves_normality]
    exact List.map_eq_flatMap.symm
  rw [assembleTheory, Formula.mem_conjuncts, Formula.mem_conjuncts, Formula.conjunctLeaves_conj,
    Formula.conjunctLeaves_conj, List.flatMap_append, List.flatMap_append, List.flatMap_append,
    hassumptions, List.mem_append, List.mem_append, List.mem_append, or_right_comm,
    normalAssumptions, List.mem_map]
  simp only [eq_comm]

/-- The theory of ground facts is ground when the components are constants. -/
theorem ground_assembleTheory (hgrounded : ∀ f ∈ grounded, f.Ground)
    (hobservations : ∀ f ∈ observations, f.Ground)
    (hcomponents : ∀ c ∈ components, isVariable c = false) :
    (assembleTheory grounded components observations suspects abnormal).Ground := by
  refine Formula.ground_conj fun f hf ↦ ?_
  rcases List.mem_append.mp hf with hf | hf
  · rcases List.mem_append.mp hf with hf | hf
    · exact hgrounded f hf
    · obtain ⟨c, hc, rfl⟩ := List.mem_map.mp hf
      exact ground_normality (hcomponents c (List.mem_of_mem_filter hc))
  · exact hobservations f hf

/-! ## Background -/

/-- The conjuncts of the facts that do not say of a trusted component that it is normal. -/
def background (abnormal : String) (facts : List Formula) (trusted : List String) : List Formula :=
  (Formula.conj facts).conjuncts.filter fun f => !(trusted.map (normality abnormal)).contains f

/-- The background of a theory has the conjuncts that are no assumptions. -/
theorem mem_background {f : Formula} :
    f ∈ background abnormal (grounded ++ observations) (trusted components suspects) ↔
      f ∈ (assembleTheory grounded components observations suspects abnormal).conjuncts ∧
        f ∉ normalAssumptions components suspects abnormal := by
  rw [mem_conjuncts_assembleTheory, background, List.mem_filter, Bool.not_eq_true',
    List.contains_eq_mem, decide_eq_false_iff_not, normalAssumptions]
  refine and_congr_left fun hf ↦ (or_iff_left ?_).symm
  rintro ⟨c, hc, rfl⟩
  exact hf (List.mem_map_of_mem hc)

/-- The trusted components whose normality is a conjunct of the facts. -/
def asserted (abnormal : String) (facts : List Formula) (trusted : List String) : Finset String :=
  trusted.toFinset.filter fun c => normality abnormal c ∈ (Formula.conj facts).conjuncts

@[simp] theorem mem_asserted {trusted : List String} {c : String} :
    c ∈ asserted abnormal facts trusted ↔
      c ∈ trusted ∧ normality abnormal c ∈ (Formula.conj facts).conjuncts := by
  simp only [asserted, Finset.mem_filter, List.mem_toFinset]

/-- The facts say what the background says together with the normality of the components that they
assert. -/
theorem contradicts_background_iff (trusted : List String) (hfacts : ∀ f ∈ facts, f.WellFormed) :
    Contradicts abnormal (background abnormal facts trusted)
        (working ∪ asserted abnormal facts trusted) ↔ Contradicts abnormal facts working := by
  rw [← contradicts_conjuncts_iff hfacts]
  refine not_congr (exists_congr fun truth ↦ ?_)
  constructor
  · rintro ⟨hbackground, hnormal⟩
    refine ⟨fun f hf ↦ ?_, fun c hc ↦ hnormal c (Finset.mem_union_left _ hc)⟩
    by_cases hassumption : f ∈ trusted.map (normality abnormal)
    · obtain ⟨c, hc, rfl⟩ := List.mem_map.mp hassumption
      exact hnormal c (Finset.mem_union_right _ (mem_asserted.mpr ⟨hc, hf⟩))
    · refine hbackground f (List.mem_filter.mpr ⟨hf, ?_⟩)
      rwa [Bool.not_eq_true', List.contains_eq_mem, decide_eq_false_iff_not]
  · rintro ⟨hconjuncts, hnormal⟩
    refine ⟨fun f hf ↦ hconjuncts f (List.mem_of_mem_filter hf), fun c hc ↦ ?_⟩
    rcases Finset.mem_union.mp hc with hc | hc
    · exact hnormal c hc
    · exact hconjuncts _ (mem_asserted.mp hc).2

/-- Facts that blame no trusted component assert the normality of none. -/
theorem asserted_eq_empty (trusted : List String)
    (hfacts : ∀ f ∈ facts, f.Propositional Formula.anyConnective)
    (hblameless : ∀ f ∈ facts, ∀ c ∈ trusted, ¬ f.Blames abnormal c) :
    asserted abnormal facts trusted = ∅ := by
  rw [Finset.eq_empty_iff_forall_notMem]
  intro c hc
  obtain ⟨htrusted, hconjunct⟩ := mem_asserted.mp hc
  obtain ⟨f, hf, hblames⟩ := (Formula.blames_conjuncts_conj hfacts).mp
    ⟨_, hconjunct, Formula.blames_normality.mpr rfl⟩
  exact hblameless f hf c htrusted hblames

/-- The normality of components is no reason to blame others. What blames a component that is not
trusted is therefore in the background. -/
theorem blames_background_iff {trusted : List String} {c : String}
    (hfacts : ∀ f ∈ facts, f.Propositional Formula.anyConnective) (hc : c ∉ trusted) :
    (∃ f ∈ background abnormal facts trusted, f.Blames abnormal c) ↔
      ∃ f ∈ facts, f.Blames abnormal c := by
  rw [← Formula.blames_conjuncts_conj hfacts]
  constructor
  · rintro ⟨f, hf, hblames⟩
    exact ⟨f, List.mem_of_mem_filter hf, hblames⟩
  · rintro ⟨f, hf, hblames⟩
    refine ⟨f, List.mem_filter.mpr ⟨hf, ?_⟩, hblames⟩
    rw [Bool.not_eq_true', List.contains_eq_mem, decide_eq_false_iff_not, List.mem_map]
    rintro ⟨d, hd, rfl⟩
    exact hc (Formula.blames_normality.mp hblames ▸ hd)

end Diagnosis
