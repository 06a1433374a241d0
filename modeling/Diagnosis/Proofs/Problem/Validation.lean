import Diagnosis.Problem.Validation
import Diagnosis.Proofs.Results

/-!
# What validity says

A formula has no defects if its atoms and its compound nodes have none. A problem is valid exactly
if its formulas and its components have no defects, no component occurs twice, only components are
suspected, and the observations are closed (`assertValid_eq_ok_iff`). These conditions can be
decided.
-/

namespace Diagnosis

/-- A formula has no defects if its atoms and its compound nodes have none. In which order the atoms
are looked at makes no difference. -/
theorem Formula.defects_eq_nil_iff_shapeDefects {f : Formula} :
    f.defects = [] ↔ (∀ a ∈ f.atoms, a.defects = []) ∧ f.shapeDefects = [] := by
  have hmem (a : Atom) : a ∈ f.sortedAtoms ↔ a ∈ f.atoms := by
    rw [sortedAtoms, List.mem_mergeSort, List.mem_eraseDups]
  rw [defects, List.append_eq_nil_iff, List.flatMap_eq_nil_iff]
  simp only [hmem]

namespace Problem

variable {problem : Problem} {suspects components : List String} {component : String} {u : Unit}

/-- A component name without defects is a constant. -/
theorem isVariable_of_componentDefects (h : componentDefects component = []) :
    isVariable component = false := by
  unfold componentDefects at h
  split at h
  case isTrue => cases h
  case isFalse =>
    split at h
    case isTrue => cases h
    case isFalse hvariable => exact Bool.not_eq_true _ ▸ hvariable

/-- Nothing is repeated in a list of different names. -/
theorem repeated_eq_nil_iff : repeated components = [] ↔ components.Nodup := by
  rw [List.eq_nil_iff_forall_not_mem, List.nodup_iff_count]
  refine forall_congr' fun name ↦ ?_
  rw [repeated, Text.mem_sortedDistinct, List.mem_filter, decide_eq_true_iff, not_and, Nat.not_lt]
  refine ⟨fun h ↦ ?_, fun h _ ↦ h⟩
  by_cases hmem : name ∈ components
  · exact h hmem
  · rw [List.count_eq_zero_of_not_mem hmem]
    exact Nat.zero_le 1

/-- Components without defects are distinct and have none themselves. -/
theorem componentsDefects_eq_nil_iff :
    componentsDefects components = [] ↔
      (∀ c ∈ components, componentDefects c = []) ∧ components.Nodup := by
  rw [componentsDefects, List.append_eq_nil_iff, List.flatMap_eq_nil_iff, ← repeated_eq_nil_iff,
    ← List.isEmpty_iff]
  simp

/-- A hypothesis has no defects if it suspects components only. -/
theorem hypothesisDefects_eq_nil_iff :
    hypothesisDefects suspects components = [] ↔ suspects ⊆ components := by
  have hunknown : unknownSuspects suspects components = [] ↔ suspects ⊆ components := by
    rw [List.eq_nil_iff_forall_not_mem]
    simp [unknownSuspects, List.subset_def]
  rw [hypothesisDefects, ← hunknown, ← List.isEmpty_iff]
  simp

/-- The defects of a single observation. -/
def observationDefects (f : Formula) : Except Fault (List String) := do
  let openDefects ←
    if f.isClosed then pure []
    else do
      pure ["Observation '" ++ (← f.render) ++ "' has unbound variable(s) " ++
        Text.quotedList (Text.sortedDistinct f.freeVariables) ++
        ". Observations must be closed."]
  return f.defects ++ openDefects

/-- The defects of observations are those of each of them. -/
theorem observationsDefects_eq_mapM (fs : List Formula) :
    observationsDefects fs = List.flatten <$> fs.mapM observationDefects := by
  induction fs with
  | nil => rfl
  | cons f fs ih =>
      rw [flatten_mapM_cons, ← ih, observationsDefects, observationDefects]
      cases f.isClosed with
      | true => simp only [if_true, pure_bind, List.append_assoc]
      | false => simp only [Bool.false_eq_true, if_false, bind_assoc, pure_bind, List.append_assoc]

/-- An observation without defects is closed: an open one that can be written has a defect, and one
that cannot has no list of defects. -/
theorem observationDefects_eq_nil_iff {f : Formula} :
    observationDefects f = .ok [] ↔ f.defects = [] ∧ f.isClosed = true := by
  rw [observationDefects]
  cases f.isClosed with
  | true => simp [pure, Except.pure, bind, Except.bind]
  | false => simp [bind_eq_ok_iff, pure, Except.pure]

/-- Observations without defects are closed and have none themselves. -/
theorem observationsDefects_eq_nil_iff {fs : List Formula} :
    observationsDefects fs = .ok [] ↔ ∀ f ∈ fs, f.defects = [] ∧ f.isClosed = true := by
  simp only [observationsDefects_eq_mapM, flatten_mapM_eq_ok_iff, ← observationDefects_eq_nil_iff]
  constructor
  · rintro ⟨defects, hdefects, hnone⟩
    rw [List.flatten_eq_nil_iff] at hnone
    refine (forall_iff_of_forall₂ (mapM_eq_ok_iff.mp hdefects) fun f _ ds hds ↦ ?_).mpr hnone
    rw [hds, Except.ok.injEq]
  · intro hnone
    obtain ⟨defects, hdefects, hall⟩ := exists_mapM_all (P := (· = []))
      fun f hf ↦ ⟨[], hnone f hf, rfl⟩
    exact ⟨defects, hdefects, List.flatten_eq_nil_iff.mpr hall⟩

/-- Exactly a problem without defects is valid. -/
theorem assertValid_eq_ok_iff_defects :
    problem.assertValid suspects = .ok u ↔ problem.defects suspects = .ok [] := by
  rw [assertValid, bind_eq_ok_iff]
  simp only [liftFault_eq_ok_iff]
  constructor
  · rintro ⟨defects, hdefects, h⟩
    cases defects with
    | nil => exact hdefects
    | cons => cases h
  · exact fun h ↦ ⟨[], h, rfl⟩

/-- A problem is valid exactly if the atoms and the compound nodes of its formulas have no defects,
its components have none and are distinct, only components are suspected, and the observations are
closed. -/
theorem assertValid_eq_ok_iff :
    problem.assertValid suspects = .ok u ↔
      (∀ f ∈ problem.description ++ problem.observations,
        (∀ a ∈ f.atoms, a.defects = []) ∧ f.shapeDefects = []) ∧
      ((∀ c ∈ problem.components, componentDefects c = []) ∧ problem.components.Nodup) ∧
      suspects ⊆ problem.components ∧ ∀ f ∈ problem.observations, f.isClosed = true := by
  have hlisted : problem.defects suspects = .ok [] ↔
      (((∀ f ∈ problem.description, f.defects = []) ∧ componentsDefects problem.components = []) ∧
        hypothesisDefects suspects problem.components = []) ∧
          observationsDefects problem.observations = .ok [] := by
    rw [defects, bind_eq_ok_iff, ← List.flatMap_eq_nil_iff]
    simp only [pure, Except.pure, Except.ok.injEq, List.append_eq_nil_iff]
    constructor
    · rintro ⟨_, hobserved, hlisted, rfl⟩
      exact ⟨hlisted, hobserved⟩
    · rintro ⟨hlisted, hobserved⟩
      exact ⟨[], hobserved, hlisted, rfl⟩
  rw [assertValid_eq_ok_iff_defects, hlisted, componentsDefects_eq_nil_iff,
    hypothesisDefects_eq_nil_iff, observationsDefects_eq_nil_iff, List.forall_mem_append]
  simp only [Formula.defects_eq_nil_iff_shapeDefects]
  constructor
  · rintro ⟨⟨⟨hdescription, hcomponents⟩, hsuspects⟩, hobservations⟩
    exact ⟨⟨hdescription, fun f hf ↦ (hobservations f hf).1⟩, hcomponents, hsuspects,
      fun f hf ↦ (hobservations f hf).2⟩
  · rintro ⟨⟨hdescription, hobservations⟩, hcomponents, hsuspects, hclosed⟩
    exact ⟨⟨⟨hdescription, hcomponents⟩, hsuspects⟩, fun f hf ↦ ⟨hobservations f hf, hclosed f hf⟩⟩

variable (h : problem.assertValid suspects = .ok u)
include h

/-- The components of a valid problem are constants. -/
theorem isVariable_of_assertValid : ∀ c ∈ problem.components, isVariable c = false :=
  fun c hc ↦ isVariable_of_componentDefects ((assertValid_eq_ok_iff.mp h).2.1.1 c hc)

/-- Only components of a valid problem are suspected. -/
theorem suspects_subset_of_assertValid : suspects ⊆ problem.components :=
  (assertValid_eq_ok_iff.mp h).2.2.1

/-- A valid problem stays valid whichever of its components are suspected. -/
theorem assertValid_of_subset {more : List String} (hmore : more ⊆ problem.components) :
    problem.assertValid more = .ok () := by
  obtain ⟨hformulas, hcomponents, -, hclosed⟩ := assertValid_eq_ok_iff.mp h
  exact assertValid_eq_ok_iff.mpr ⟨hformulas, hcomponents, hmore, hclosed⟩

/-- The observations of a valid problem are closed. -/
theorem isClosed_of_assertValid : ∀ f ∈ problem.observations, f.isClosed = true :=
  (assertValid_eq_ok_iff.mp h).2.2.2

end Problem

end Diagnosis
