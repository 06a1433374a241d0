import Diagnosis.Problem.Conflicts
import Diagnosis.Problem.Theory
import Diagnosis.Proofs.Clause.NormalForm
import Diagnosis.Proofs.Formula.Conjuncts
import Mathlib.Data.List.Sort
import Mathlib.Data.String.Basic

/-!
# Blame

A formula blames a component if one of its clauses denies the abnormality of the component and
affirms nothing. The conflict that is read off a refutation consists of the components that its
premises blame (`mem_conflict`), whatever else the premises say. A normality assumption blames its
own component; nothing keeps other premises from blaming components too.
-/

namespace Diagnosis

/-! ## Conflict clauses -/

namespace Sequent

/-- A side has the propositions of the literals with its polarity. -/
@[simp] theorem mem_side {positive : Bool} {literals : List (Literal Proposition)}
    {p : Proposition} : p ∈ side positive literals ↔ { subject := p, positive } ∈ literals := by
  rw [side, List.mem_eraseDups, List.mem_map]
  constructor
  · rintro ⟨⟨subject, sign⟩, hl, rfl⟩
    obtain ⟨hl, hsign⟩ := List.mem_filter.mp hl
    rw [beq_iff_eq] at hsign
    exact hsign ▸ hl
  · intro hl
    exact ⟨_, List.mem_filter.mpr ⟨hl, beq_self_eq_true positive⟩, rfl⟩

/-- A conflict clause has an antecedent and no succedent. -/
theorem isConflict_iff {s : Sequent} :
    s.isConflict = true ↔ s.antecedent ≠ [] ∧ s.succedent = [] := by
  obtain ⟨antecedent, succedent⟩ := s
  cases succedent <;> simp [isConflict, isTautology, isEmpty]

/-- The clauses that are conflict clauses with a proposition in the antecedent are those that deny
the proposition and affirm nothing. -/
theorem isConflict_and_mem_antecedent {c : Clause Proposition} {p : Proposition} :
    (ofLiterals c).isConflict = true ∧ p ∈ (ofLiterals c).antecedent ↔
      (∀ l ∈ c, l.positive = false) ∧ { subject := p, positive := false } ∈ c := by
  rw [isConflict_iff]
  simp only [ofLiterals, mem_side]
  refine and_congr_left fun hp ↦ ?_
  rw [List.eq_nil_iff_forall_not_mem]
  constructor
  · rintro ⟨_, hnone⟩ l hl
    by_contra hpositive
    rw [Bool.not_eq_false] at hpositive
    exact hnone l.subject (mem_side.mpr (hpositive ▸ hl))
  · intro hall
    refine ⟨List.ne_nil_of_mem (mem_side.mpr hp), fun q hq ↦ ?_⟩
    exact Bool.noConfusion (hall _ (mem_side.mp hq))

end Sequent

/-! ## Blame -/

namespace Formula

variable {abnormal component : String}

/-- One of the clauses of the formula denies that the component is abnormal and affirms nothing. -/
def Blames (abnormal : String) (f : Formula) (component : String) : Prop :=
  ∃ cs, f.clauses = .ok cs ∧ ∃ c ∈ cs, (∀ l ∈ c, l.positive = false) ∧
    { subject := .atom { name := abnormal, args := [component] }, positive := false } ∈ c

/-- Whom a formula blames, once its clauses are known. -/
theorem blames_iff {f : Formula} {cs : List (Clause Proposition)} (h : f.clauses = .ok cs) :
    f.Blames abnormal component ↔ ∃ c ∈ cs, (∀ l ∈ c, l.positive = false) ∧
      { subject := .atom { name := abnormal, args := [component] }, positive := false } ∈ c := by
  simp [Blames, h]

/-- A conjunction blames what its parts blame. -/
theorem blames_conj {fs : List Formula} (hfs : ∀ f ∈ fs, f.Propositional anyConnective) :
    (conj fs).Blames abnormal component ↔ ∃ f ∈ fs, f.Blames abnormal component := by
  obtain ⟨css, hcss, hall⟩ :=
    exists_mapM_forall₂ fun f hf ↦ (hfs f hf).clauses.imp fun cs h ↦ ⟨h.1, h.1⟩
  rw [blames_iff (clauses_conj hcss), exists_iff_of_forall₂ hall fun f cs h ↦ blames_iff h]
  simp only [List.mem_flatten]
  constructor
  · rintro ⟨c, ⟨cs, hcs, hc⟩, h⟩
    exact ⟨cs, hcs, c, hc, h⟩
  · rintro ⟨cs, hcs, c, hc, h⟩
    exact ⟨c, ⟨cs, hcs, hc⟩, h⟩

/-- A plain formula blames what its conjuncts blame. -/
theorem blames_conjuncts {f : Formula} (hf : f.WellFormed) (hplain : f.containsQuantifier = false) :
    f.Blames abnormal component ↔ ∃ g ∈ f.conjuncts, g.Blames abnormal component := by
  simp only [mem_conjuncts]
  revert hplain
  refine conjunctLeaves_induction (P := fun f ↦ f.containsQuantifier = false →
    (f.Blames abnormal component ↔ ∃ g ∈ f.conjunctLeaves, g.Blames abnormal component)) hf
    (fun fs ih hplain ↦ ?_) fun f _ hleaf _ ↦ by simp [hleaf]
  rw [plain_conj] at hplain
  rw [blames_conj fun f hf ↦ (ih f hf).1.propositional (hplain f hf), conjunctLeaves_conj]
  simp only [List.mem_flatMap]
  constructor
  · rintro ⟨f, hf, hblames⟩
    obtain ⟨g, hg, hblames⟩ := ((ih f hf).2 (hplain f hf)).mp hblames
    exact ⟨g, ⟨f, hf, hg⟩, hblames⟩
  · rintro ⟨g, ⟨f, hf, hg⟩, hblames⟩
    exact ⟨f, hf, ((ih f hf).2 (hplain f hf)).mpr ⟨g, hg, hblames⟩⟩

/-- The conjuncts of plain facts blame what the facts blame. -/
theorem blames_conjuncts_conj {fs : List Formula}
    (hfs : ∀ f ∈ fs, f.Propositional anyConnective) :
    (∃ g ∈ (conj fs).conjuncts, g.Blames abnormal component) ↔
      ∃ f ∈ fs, f.Blames abnormal component := by
  have hconj := Propositional.conj hfs
  rw [← blames_conj hfs, blames_conjuncts hconj.wellFormed hconj.plain]

/-- The assumption that a component is normal has one clause. -/
theorem clauses_normality : (normality abnormal component).clauses =
    .ok [[{ subject := .atom { name := abnormal, args := [component] }, positive := false }]] :=
  rfl

/-- The assumption that a component is normal blames this component and no other. -/
@[simp] theorem blames_normality {other : String} :
    (normality abnormal component).Blames abnormal other ↔ other = component := by
  simp [Blames, clauses_normality]

/-- The conflict clauses of a plain formula come from its clauses. -/
theorem conflictClauses_eq_ok_iff {f : Formula} {ss : List Sequent} :
    f.conflictClauses = .ok ss ↔ f.containsQuantifier = false ∧
      ∃ cs, f.clauses = .ok cs ∧ (cs.map Sequent.ofLiterals).filter Sequent.isConflict = ss := by
  simp only [conflictClauses, sequents, toClauses, bind_eq_ok_iff]
  split
  case isTrue hquantified =>
    simp [hquantified, bind_eq_ok_iff]
  case isFalse hplain =>
    rw [Bool.not_eq_true] at hplain
    simp [hplain, liftFault_eq_ok_iff, pure, Except.pure]

/-- A plain formula blames the components that its conflict clauses name as abnormal. -/
theorem blames_iff_conflictClauses {f : Formula} (hplain : f.containsQuantifier = false) :
    f.Blames abnormal component ↔ ∃ ss, f.conflictClauses = .ok ss ∧
      ∃ s ∈ ss, .atom { name := abnormal, args := [component] } ∈ s.antecedent := by
  simp only [conflictClauses_eq_ok_iff, hplain, true_and]
  constructor
  · rintro ⟨cs, hcs, c, hc, hblames⟩
    obtain ⟨hconflict, hmem⟩ := Sequent.isConflict_and_mem_antecedent.mpr hblames
    refine ⟨_, ⟨cs, hcs, rfl⟩, _, ?_, hmem⟩
    exact List.mem_filter.mpr ⟨List.mem_map_of_mem hc, hconflict⟩
  · rintro ⟨_, ⟨cs, hcs, rfl⟩, s, hs, hmem⟩
    obtain ⟨hs, hconflict⟩ := List.mem_filter.mp hs
    obtain ⟨c, hc, rfl⟩ := List.mem_map.mp hs
    exact ⟨cs, hcs, c, hc, Sequent.isConflict_and_mem_antecedent.mp ⟨hconflict, hmem⟩⟩

end Formula

/-! ## Conflicts -/

section Conflicts

variable {abnormal component : String}

/-- An abnormality atom is about the constant that is its only argument. -/
theorem abnormalComponent?_eq_some_iff {a : Atom} :
    a.abnormalComponent? abnormal = some component ↔
      isVariable component = false ∧ a = { name := abnormal, args := [component] } := by
  obtain ⟨name, args⟩ := a
  unfold Atom.abnormalComponent?
  split
  case h_1 term hargs =>
    simp only at hargs
    subst hargs
    simp
    grind
  case h_2 hargs =>
    simp
    rintro _ rfl rfl
    exact hargs _ rfl

/-- The components found among propositions are those of their abnormality atoms. -/
theorem mem_abnormalComponents {ps : List Proposition} {found : List String}
    (h : abnormalComponents abnormal ps = .ok found) :
    component ∈ found ↔ isVariable component = false ∧
      .atom { name := abnormal, args := [component] } ∈ ps := by
  induction ps generalizing found with
  | nil =>
      cases h
      simp
  | cons p ps ih =>
      cases p with
      | compound => cases h
      | atom a =>
          rw [abnormalComponents, bind_eq_ok_iff] at h
          obtain ⟨rest, hrest, hfound⟩ := h
          cases hfound
          rw [List.mem_append, Option.mem_toList, abnormalComponent?_eq_some_iff,
            ih hrest, ← and_or_left, List.mem_cons, Proposition.atom.injEq]
          simp only [eq_comm]

/-- The set of listed components lists them in ascending order. -/
theorem sortedLT_ofList (components : List String) : (Conflict.ofList components).SortedLT := by
  have hle (a b : String) : (!decide (b < a)) = true ↔ a ≤ b := by
    rw [Bool.not_eq_true', decide_eq_false_iff_not, not_lt]
  have hsorted : (Text.sorted components.eraseDups).Pairwise (· ≤ ·) := by
    refine (List.pairwise_mergeSort ?_ ?_ _).imp fun {a b} h ↦ (hle a b).mp h
    · intro a b c hab hbc
      rw [hle] at hab hbc ⊢
      exact hab.trans hbc
    · intro a b
      rw [Bool.or_eq_true, hle, hle]
      exact le_total a b
  have hnodup : (Text.sorted components.eraseDups).Nodup :=
    (List.mergeSort_perm _ _).nodup_iff.mpr (nodup_eraseDups _)
  exact (List.sortedLE_iff_pairwise.mpr hsorted).sortedLT_of_nodup hnodup

/-- The set of listed components is the ascending list of the same components. -/
theorem ofList_eq {components : List String} {conflict : Conflict} (hsorted : conflict.SortedLT)
    (hmem : ∀ component, component ∈ components ↔ component ∈ conflict) :
    Conflict.ofList components = conflict := by
  refine (sortedLT_ofList components).eq_of_mem_iff hsorted fun component ↦ ?_
  rw [Conflict.ofList, Text.mem_sortedDistinct, hmem]

/-- A refutation that a conflict is read off has no quantifier. Its conflict consists of the
constants that it blames. -/
theorem conflict_eq_ok {r : Refutation} {conflict : Conflict}
    (h : r.conflict abnormal = .ok conflict) :
    (∀ f ∈ r.premises, f.containsQuantifier = false) ∧ conflict.SortedLT ∧
      ∀ component, component ∈ conflict ↔
        isVariable component = false ∧ r.formula.Blames abnormal component := by
  simp only [Refutation.conflict, bind_eq_ok_iff, Formula.conflictClauses_eq_ok_iff] at h
  obtain ⟨ss, ⟨hplain, cs, hcs, rfl⟩, found, hfound, hconflict⟩ := h
  cases hconflict
  refine ⟨Formula.plain_conj.mp hplain, sortedLT_ofList _, fun component ↦ ?_⟩
  simp only [mapM_eq_ok_iff, liftFault_eq_ok_iff] at hfound
  rw [Conflict.ofList, Text.mem_sortedDistinct, List.mem_flatten,
    ← exists_iff_of_forall₂ hfound fun s found hs ↦ (mem_abnormalComponents hs).symm,
    Formula.blames_iff hcs]
  simp only [List.mem_filter, List.mem_map, ← Sequent.isConflict_and_mem_antecedent]
  constructor
  · rintro ⟨_, ⟨⟨c, hc, rfl⟩, hconflict⟩, hconstant, hmem⟩
    exact ⟨hconstant, c, hc, hconflict, hmem⟩
  · rintro ⟨hconstant, c, hc, hconflict, hmem⟩
    exact ⟨_, ⟨⟨c, hc, rfl⟩, hconflict⟩, hconstant, hmem⟩

/-- The conflict read off well-formed premises consists of the constants that some premise
blames. -/
theorem mem_conflict {r : Refutation} {conflict : Conflict}
    (hpremises : ∀ f ∈ r.premises, f.WellFormed) (h : r.conflict abnormal = .ok conflict) :
    component ∈ conflict ↔
      isVariable component = false ∧ ∃ f ∈ r.premises, f.Blames abnormal component := by
  obtain ⟨hplain, _, hmem⟩ := conflict_eq_ok h
  rw [hmem, Refutation.formula, Formula.blames_conj]
  exact fun f hf ↦ (hpremises f hf).propositional (hplain f hf)

/-- Mined conflicts are those of the refutations, each once. -/
theorem mineConflicts_eq_ok {refutations : List Refutation} {conflicts : List Conflict}
    (h : mineConflicts abnormal refutations = .ok conflicts) :
    ∃ mined, List.Forall₂ (fun r conflict ↦ r.conflict abnormal = .ok conflict) refutations mined ∧
      mined.eraseDups = conflicts := by
  obtain ⟨mined, hmined, hconflicts⟩ := bind_eq_ok_iff.mp h
  exact ⟨mined, mapM_eq_ok_iff.mp hmined, Except.ok.inj hconflicts⟩

end Conflicts

end Diagnosis
