import Diagnosis.Proofs.Problem.Theory
import Diagnosis.Proofs.Prover.Backends
import Mathlib.Data.Finset.Filter
import Mathlib.Order.Minimal

/-!
# Cores as sets of components

The tracked premises of a diagnosis are assumptions that components are normal. A core, which is a
list of positions, stands for the components that are assumed to be normal there. Every set of
trusted components comes from a core in this way, and from one only, and inclusion is the same for
both. A core is therefore minimal if its components are a minimal contradiction to the background
(`minimalCore_iff_minimal`).
-/

namespace Diagnosis

/-- A minimal set of trusted components that contradicts the facts. -/
def MinimalConflict (abnormal : String) (facts : List Formula) (trusted : List String)
    (conflict : Finset String) : Prop :=
  Minimal (fun working ↦ working ⊆ trusted.toFinset ∧ Contradicts abnormal facts working) conflict

/-- The components, among those named, that are assumed to be normal at one of the positions. -/
def normalAt (abnormal : String) (premises : List Formula) (names : List String)
    (positions : List Nat) : Finset String :=
  names.toFinset.filter fun c => ∃ i ∈ positions, premises[i]? = some (normality abnormal c)

/-- The positions of the assumptions that the named components are normal. -/
def normalityPositions (abnormal : String) (premises : List Formula) (names : List String) :
    List Nat :=
  Backend.trackedPositions premises (some (names.map (normality abnormal)))

section Cores

variable {abnormal : String} {premises : List Formula} {names : List String}
  {core part : List Nat} {working : Finset String} {c : String} {i : Nat}

@[simp] theorem mem_normalAt : c ∈ normalAt abnormal premises names core ↔
    c ∈ names ∧ ∃ i ∈ core, premises[i]? = some (normality abnormal c) := by
  simp [normalAt]

@[simp] theorem mem_normalityPositions : i ∈ normalityPositions abnormal premises names ↔
    ∃ c ∈ names, premises[i]? = some (normality abnormal c) := by
  simp [normalityPositions, Backend.mem_trackedPositions]

/-- The positions of assumptions are listed in ascending order. -/
theorem ordered_normalityPositions (premises : List Formula) : Cores.Frame.Ordered
    { size := premises.length, tracked := normalityPositions abnormal premises names } :=
  Backend.trackedPositions_sublist premises (some (names.map (normality abnormal)))

/-- Only named components are assumed to be normal. -/
theorem normalAt_subset (core : List Nat) :
    normalAt abnormal premises names core ⊆ names.toFinset :=
  Finset.filter_subset _ _

/-- More positions stand for more components. -/
theorem normalAt_mono (hsub : part ⊆ core) :
    normalAt abnormal premises names part ⊆ normalAt abnormal premises names core := by
  intro c hc
  obtain ⟨hname, i, hi, hpremise⟩ := mem_normalAt.mp hc
  exact mem_normalAt.mpr ⟨hname, i, hsub hi, hpremise⟩

/-- Every set of named components stands at some positions. -/
theorem exists_normalAt (hpremises : ∀ c ∈ names, normality abnormal c ∈ premises)
    (hworking : working ⊆ names.toFinset) :
    ∃ core : List Nat, core.Sublist (normalityPositions abnormal premises names) ∧
      normalAt abnormal premises names core = working := by
  refine ⟨(normalityPositions abnormal premises names).filter fun i =>
    decide (∃ c ∈ working, premises[i]? = some (normality abnormal c)), List.filter_sublist, ?_⟩
  ext c
  rw [mem_normalAt]
  constructor
  · rintro ⟨_, i, hi, hpremise⟩
    obtain ⟨d, hd, hpremise'⟩ := of_decide_eq_true (List.mem_filter.mp hi).2
    rw [hpremise, Option.some.injEq] at hpremise'
    exact normality_injective hpremise' ▸ hd
  · intro hc
    have hname := List.mem_toFinset.mp (hworking hc)
    obtain ⟨i, hi⟩ := List.mem_iff_getElem?.mp (hpremises c hname)
    refine ⟨hname, i, List.mem_filter.mpr ⟨?_, ?_⟩, hi⟩
    · exact mem_normalityPositions.mpr ⟨c, hname, hi⟩
    · exact decide_eq_true ⟨c, hc, hi⟩

/-- Positions that stand for fewer components are fewer, since no premise is repeated. -/
theorem subset_of_normalAt_subset (hnodup : premises.Nodup)
    (hpart : part.Sublist (normalityPositions abnormal premises names))
    (hsub : normalAt abnormal premises names part ⊆ normalAt abnormal premises names core) :
    part ⊆ core := by
  intro i hi
  obtain ⟨c, hname, hpremise⟩ := mem_normalityPositions.mp (hpart.subset hi)
  obtain ⟨_, j, hj, hpremise'⟩ := mem_normalAt.mp (hsub (mem_normalAt.mpr ⟨hname, i, hi, hpremise⟩))
  obtain ⟨hlt, hi'⟩ := List.getElem?_eq_some_iff.mp hpremise
  obtain ⟨hlt', hj'⟩ := List.getElem?_eq_some_iff.mp hpremise'
  -- The same assumption stands at both positions.
  have hij : i = j := (hnodup.getElem_inj_iff).mp (hi'.trans hj'.symm)
  exact hij ▸ hj

/-- The certificate of a core has the premises that are no assumptions and the assumptions that
its components are normal. -/
theorem mem_certificate_normalAt (hcore : core.Sublist (normalityPositions abnormal premises names))
    {f : Formula} :
    f ∈ (certificate premises (normalityPositions abnormal premises names) core).premises ↔
      (f ∈ premises ∧ f ∉ names.map (normality abnormal)) ∨
        ∃ c ∈ normalAt abnormal premises names core, f = normality abnormal c := by
  rw [mem_certificate]
  constructor
  · rintro ⟨i, hi, hmember | huntracked⟩
    · obtain ⟨c, hname, hpremise⟩ := mem_normalityPositions.mp (hcore.subset hmember)
      rw [hi, Option.some.injEq] at hpremise
      exact .inr ⟨c, mem_normalAt.mpr ⟨hname, i, hmember, hpremise ▸ hi⟩, hpremise⟩
    · refine .inl ⟨List.mem_of_getElem? hi, fun hassumption ↦ huntracked ?_⟩
      obtain ⟨c, hname, rfl⟩ := List.mem_map.mp hassumption
      exact mem_normalityPositions.mpr ⟨c, hname, hi⟩
  · rintro (⟨hf, hassumption⟩ | ⟨c, hc, rfl⟩)
    · obtain ⟨i, hi⟩ := List.mem_iff_getElem?.mp hf
      refine ⟨i, hi, .inr fun htracked ↦ hassumption ?_⟩
      obtain ⟨c, hname, hpremise⟩ := mem_normalityPositions.mp htracked
      rw [hi, Option.some.injEq] at hpremise
      exact hpremise ▸ List.mem_map_of_mem hname
    · obtain ⟨_, i, hi, hpremise⟩ := mem_normalAt.mp hc
      exact ⟨i, hpremise, .inl hi⟩

/-- A certificate is unsatisfiable if the components of its core contradict the background. -/
theorem contradictory_certificate_iff {background : List Formula}
    (hbackground : ∀ f, f ∈ background ↔ f ∈ premises ∧ f ∉ names.map (normality abnormal))
    (hcore : core.Sublist (normalityPositions abnormal premises names)) :
    (certificate premises (normalityPositions abnormal premises names) core).Contradictory
        trueUnder ↔
      Contradicts abnormal background (normalAt abnormal premises names core) := by
  refine not_congr (exists_congr fun truth ↦ ?_)
  simp only [mem_certificate_normalAt hcore, ← hbackground, or_imp, forall_and,
    forall_exists_index, and_imp]
  refine and_congr_right fun _ ↦ ⟨fun h c hc ↦ h _ c hc rfl, fun h f c hc hf ↦ ?_⟩
  rw [hf]
  exact h c hc

/-- A core is minimal if its components are a minimal contradiction to the background. -/
theorem minimalCore_iff_minimal {background : List Formula}
    (hbackground : ∀ f, f ∈ background ↔ f ∈ premises ∧ f ∉ names.map (normality abnormal))
    (hnodup : premises.Nodup) (hpremises : ∀ c ∈ names, normality abnormal c ∈ premises)
    (hcore : core.Sublist (normalityPositions abnormal premises names)) :
    Cores.Frame.MinimalCore (premiseHolds trueUnder premises)
        { size := premises.length, tracked := normalityPositions abnormal premises names } core ↔
      MinimalConflict abnormal background names (normalAt abnormal premises names core) := by
  have hcontradicts {core : List Nat}
      (hcore : core.Sublist (normalityPositions abnormal premises names)) :=
    contradictory_certificate_iff hbackground hcore
  rw [minimalCore_iff_certificate]
  constructor
  · rintro ⟨_, hcontradictory, hminimal⟩
    refine ⟨⟨normalAt_subset core, (hcontradicts hcore).mp hcontradictory⟩, ?_⟩
    rintro working ⟨hworking, hcontradiction⟩ hsub
    obtain ⟨part, hpart, rfl⟩ := exists_normalAt hpremises hworking
    have hpart_sub := subset_of_normalAt_subset hnodup hpart hsub
    rw [hminimal part hpart ((hcontradicts hpart).mpr hcontradiction) hpart_sub]
  · rintro ⟨⟨_, hcontradiction⟩, hminimal⟩
    refine ⟨hcore, (hcontradicts hcore).mpr hcontradiction, fun part hpart hcontradictory hsub ↦ ?_⟩
    have hsub' := hminimal ⟨normalAt_subset part, (hcontradicts hpart).mp hcontradictory⟩
      (normalAt_mono hsub)
    have hsub'' := subset_of_normalAt_subset hnodup hcore hsub'
    exact (ordered_normalityPositions premises).ext hpart hcore fun i ↦ ⟨@hsub i, @hsub'' i⟩

end Cores

/-! ## Minimal conflicts -/

section Minimal

variable {abnormal : String} {facts facts' : List Formula} {names components suspects : List String}
  {working conflict : Finset String}

/-- A contradiction between named components contains a minimal one. -/
theorem exists_minimalConflict (names : List String) (hworking : working ⊆ names.toFinset)
    (h : Contradicts abnormal facts working) :
    ∃ conflict, conflict ⊆ working ∧ MinimalConflict abnormal facts names conflict :=
  exists_minimal_le_of_wellFoundedLT
    (fun working ↦ working ⊆ names.toFinset ∧ Contradicts abnormal facts working) working
    ⟨hworking, h⟩

/-- What the same sets contradict has the same minimal conflicts. -/
theorem minimalConflict_congr
    (h : ∀ working, Contradicts abnormal facts working ↔ Contradicts abnormal facts' working) :
    MinimalConflict abnormal facts names conflict ↔
      MinimalConflict abnormal facts' names conflict := by
  simp only [MinimalConflict, h]

/-- Suspecting more components leaves the minimal conflicts that contain none of them. -/
theorem minimalConflict_trusted_iff {more : List String} (hmore : suspects ⊆ more) :
    MinimalConflict abnormal facts (trusted components more) conflict ↔
      MinimalConflict abnormal facts (trusted components suspects) conflict ∧
        Disjoint conflict more.toFinset := by
  have htrusted (working : Finset String) : working ⊆ (trusted components more).toFinset ↔
      working ⊆ (trusted components suspects).toFinset ∧ Disjoint working more.toFinset := by
    simp only [Finset.subset_iff, Finset.disjoint_left, List.mem_toFinset, mem_trusted]
    constructor
    · intro h
      exact ⟨fun c hc ↦ ⟨(h hc).1, fun hsuspected ↦ (h hc).2 (hmore hsuspected)⟩,
        fun c hc ↦ (h hc).2⟩
    · rintro ⟨hcomponents, hdisjoint⟩ c hc
      exact ⟨(hcomponents hc).1, hdisjoint hc⟩
  constructor
  · intro h
    obtain ⟨hcomponents, hdisjoint⟩ := (htrusted conflict).mp h.prop.1
    refine ⟨⟨⟨hcomponents, h.prop.2⟩, fun working hworking hsub ↦ ?_⟩, hdisjoint⟩
    exact h.le_of_le ⟨(htrusted working).mpr ⟨hworking.1, hdisjoint.mono_left hsub⟩, hworking.2⟩
      hsub
  · rintro ⟨h, hdisjoint⟩
    refine ⟨⟨(htrusted conflict).mpr ⟨h.prop.1, hdisjoint⟩, h.prop.2⟩,
      fun working hworking hsub ↦ ?_⟩
    exact h.le_of_le ⟨((htrusted working).mp hworking.1).1, hworking.2⟩ hsub

end Minimal

/-! ## Reports of the background -/

/-- The minimal contradictions to a background are reported with further components, the blamed
ones. These reports are the minimal contradictions to facts that imply the background exactly if
each of the latter contradicts the background already and contains all blamed components. -/
theorem reports_minimal_iff {abnormal : String} {background facts : List Formula}
    {trusted : List String} {blamed : String → Prop}
    (himp : ∀ truth, (∀ f ∈ facts, trueUnder truth f) → ∀ f ∈ background, trueUnder truth f) :
    (∀ conflict : Finset String, (∃ core, MinimalConflict abnormal background trusted core ∧
        ∀ c, c ∈ conflict ↔ c ∈ core ∨ blamed c) ↔
          MinimalConflict abnormal facts trusted conflict) ↔
      ∀ conflict : Finset String, MinimalConflict abnormal facts trusted conflict →
        Contradicts abnormal background conflict ∧ ∀ c, blamed c → c ∈ conflict := by
  constructor
  · intro h conflict hconflict
    obtain ⟨core, hcore, hmem⟩ := (h conflict).mpr hconflict
    exact ⟨hcore.prop.2.mono fun c hc ↦ (hmem c).mpr (.inl hc), fun c hc ↦ (hmem c).mpr (.inr hc)⟩
  intro h
  -- Both kinds of minimal contradictions are the same, and adding what is blamed adds nothing.
  have hsame (conflict : Finset String) : MinimalConflict abnormal background trusted conflict ↔
      MinimalConflict abnormal facts trusted conflict := by
    constructor
    · intro hconflict
      -- It contains a minimal contradiction to the facts, which is one to the background.
      obtain ⟨smaller, hsub, hsmaller⟩ :=
        exists_minimalConflict trusted hconflict.prop.1 (hconflict.prop.2.of_imp himp)
      have heq := hconflict.eq_of_le ⟨hsmaller.prop.1, (h smaller hsmaller).1⟩ hsub
      exact heq ▸ hsmaller
    · intro hconflict
      refine ⟨⟨hconflict.prop.1, (h conflict hconflict).1⟩, fun working hworking hsub ↦ ?_⟩
      exact hconflict.le_of_le ⟨hworking.1, hworking.2.of_imp himp⟩ hsub
  intro conflict
  constructor
  · rintro ⟨core, hcore, hmem⟩
    have hcore' := (hsame core).mp hcore
    have heq : conflict = core := by
      ext c
      rw [hmem, or_iff_left_of_imp ((h core hcore').2 c)]
    exact heq ▸ hcore'
  · intro hconflict
    exact ⟨conflict, (hsame conflict).mpr hconflict,
      fun c ↦ (or_iff_left_of_imp ((h conflict hconflict).2 c)).symm⟩

end Diagnosis
