import Diagnosis.Proofs.Clause.Collection
import Diagnosis.Proofs.Problem.Validation

/-!
# What accepted formulas are good for

Validation accepts a formula whose atoms are well named and whose compound nodes have the operands
of their connectives. It does not ask whether a node has a connective at all, nor whether an atom
has one beside its predicate. Both decide what the rest of the program does with the formula: it is
written if no node lacks predicate and connective, and every function that looks at the connective
first goes by the connective of an atom instead of its predicate (`accepted_guarantees`). A
formula with neither fault keeps every promise (`Fitting.dependable`).
-/

namespace Diagnosis.Formula

variable {f : Formula}

/-- Accepted are the fitting formulas whose atoms are. -/
theorem defects_eq_nil_iff : f.defects = [] ↔ (∀ a ∈ f.atoms, a.defects = []) ∧ f.Fitting := by
  rw [defects_eq_nil_iff_shapeDefects, shapeDefects_eq_nil_iff]

/-- A fitting negation has its operand, so that only an atom can lack one where it is denied. -/
theorem Fitting.exists_negate_iff (hf : f.Fitting) :
    (∃ g, f.negate = .ok g) ↔ ¬ (f.isAtom = true ∧ f.connective = some .not ∧ f.children = []) := by
  cases hf with
  | atom a c fs x s =>
      by_cases hc : c = some .not
      · subst hc
        cases fs <;> simp [negate, isAtom]
      · simp [negate, hc]
  | @compound c fs x hnode parts s =>
      refine iff_of_true ?_ (by simp [isAtom])
      by_cases hc : c = some .not
      · subst hc
        obtain ⟨f, rfl⟩ := List.length_eq_one_iff.mp (length_of_leads (.inl rfl) hnode)
        exact ⟨f, rfl⟩
      · exact ⟨_, if_neg hc⟩

/-- The denial of a fitting formula is true where the formula is false, unless it is an atom with
the connective of a negation. -/
theorem Fitting.holds_negate (hf : f.Fitting)
    (hmark : ¬ (f.isAtom = true ∧ f.connective = some .not)) {g : Formula}
    (hg : f.negate = .ok g) {D : Type} (range : D → Prop) (M : Structure D)
    (env : Environment D) : g.Holds range M env ↔ ¬ f.Holds range M env := by
  by_cases hc : f.connective = some .not
  · cases hf with
    | atom a c fs x s => exact absurd ⟨rfl, hc⟩ hmark
    | @compound c fs x hnode parts s =>
        subst hc
        obtain ⟨f, rfl⟩ := List.length_eq_one_iff.mp (length_of_leads (.inl rfl) hnode)
        cases hg
        exact not_not.symm
  · rw [negate, if_neg hc] at hg
    cases hg
    exact holds_neg f

/-- What accepting a formula promises: it can be written, denied and, without quantifiers, brought
into clauses, and its conjuncts say together what it says. -/
structure Dependable (f : Formula) : Prop where
  written : ∃ text, f.render = .ok text
  denied : ∃ g, f.negate = .ok g
  clausified : f.containsQuantifier = false → ∃ clauses, f.toClauses = .ok clauses
  conjoined : ∀ constants truth,
    f.HoldsIn constants truth ↔ ∀ g ∈ f.conjuncts, g.HoldsIn constants truth

/-- Where no part has the connective of a conjunction, the conjuncts say what the formula says. -/
theorem holdsIn_iff_conjuncts (hparts : ∀ g ∈ f.parts, g.connective ≠ some .and)
    (constants : List String) (truth : Atom → Prop) :
    f.HoldsIn constants truth ↔ ∀ g ∈ f.conjuncts, g.HoldsIn constants truth := by
  simp only [mem_conjuncts_iff_mem_parts.mpr hparts]
  exact f.holds_iff_parts _ _ _

/-- A fitting formula is dependable if each of its nodes has either a predicate or a connective. -/
theorem Fitting.dependable (hf : f.Fitting)
    (hnodes : ∀ g ∈ f.nodes, (g.isAtom = true ↔ g.connective = none)) : f.Dependable where
  written := by
    rw [exists_render_iff, hf.legible_iff]
    exact fun g hg ↦ or_iff_not_imp_right.mpr fun hnone ↦
      (hnodes g hg).mpr (not_not.mp hnone)
  denied := by
    refine hf.exists_negate_iff.mpr fun ⟨hatom, hnot, _⟩ ↦ ?_
    rw [(hnodes f f.mem_nodes).mp hatom] at hnot
    cases hnot
  clausified hplain := hf.exists_toClauses hplain fun g hg hatom ↦
    collects_of_ne hatom (by simp [(hnodes g hg).mp hatom])
  conjoined := by
    refine holdsIn_iff_conjuncts fun g hg hand ↦ ?_
    rw [(hnodes g (f.parts_subset_nodes hg)).mp (isAtom_of_mem_parts hg hand)] at hand
    cases hand

/-- When an accepted formula is dependable, and what becomes of each promise otherwise. It is
dependable if each of its nodes has either a predicate or a connective. It can be written exactly if
none of its nodes lacks both. It can be denied unless it is an atom with the connective of a
negation and no operands, and then the denial says the opposite unless it is an atom with the
connective of a negation at all. Without quantifiers it has clauses if literals can be collected
from the operands of its atoms with the connective of a conjunction. Its conjuncts are its parts
exactly if none of the parts is such an atom, and then they say what the formula says. -/
theorem accepted_guarantees (h : f.defects = []) :
    ((∀ g ∈ f.nodes, (g.isAtom = true ↔ g.connective = none)) → f.Dependable) ∧
    ((∃ text, f.render = .ok text) ↔ ∀ g ∈ f.nodes, g.isAtom = true ∨ g.connective ≠ none) ∧
    ((∃ g, f.negate = .ok g) ↔
      ¬ (f.isAtom = true ∧ f.connective = some .not ∧ f.children = [])) ∧
    (¬ (f.isAtom = true ∧ f.connective = some .not) → ∀ g, f.negate = .ok g →
      ∀ constants truth, g.HoldsIn constants truth ↔ ¬ f.HoldsIn constants truth) ∧
    (f.containsQuantifier = false →
      (∀ g ∈ f.nodes, g.isAtom = true → ∀ leaf ∈ g.conjunctLeaves, leaf.Collectable) →
      ∃ clauses, f.toClauses = .ok clauses) ∧
    ((∀ g, g ∈ f.conjuncts ↔ g ∈ f.parts) ↔ ∀ g ∈ f.parts, g.connective ≠ some .and) ∧
    ((∀ g ∈ f.parts, g.connective ≠ some .and) → ∀ constants truth,
      f.HoldsIn constants truth ↔ ∀ g ∈ f.conjuncts, g.HoldsIn constants truth) := by
  have hfitting := (defects_eq_nil_iff.mp h).2
  refine ⟨hfitting.dependable, ?_, hfitting.exists_negate_iff, fun hmark g hg constants truth ↦ ?_,
    hfitting.exists_toClauses, mem_conjuncts_iff_mem_parts, holdsIn_iff_conjuncts⟩
  · rw [exists_render_iff, hfitting.legible_iff]
  · exact hfitting.holds_negate hmark hg _ _ _

/-- An atom that has a connective and operands too. -/
def markedAtom (c : Connective) (fs : List Formula) : Formula :=
  { atom "p" [] with connective := some c, children := fs }

/-- Such atoms are accepted. -/
theorem markedAtom_defects (c : Connective) (fs : List Formula) : (markedAtom c fs).defects = [] :=
  defects_eq_nil_iff.mpr
    ⟨List.forall_mem_singleton.mpr (by decide +kernel), .atom _ _ _ _ _⟩

/-- A denied atom is dependable. Of the other formulas here, which are accepted as well, a node with
neither predicate nor connective cannot be written, an atom that is marked as a negation cannot be
denied, one that is marked as a conjunction of nothing has no conjuncts, and one that is marked as a
conjunction of a negation of nothing has no clauses. -/
theorem markedAtom_betrayed :
    ((neg (atom "p" [])).defects = [] ∧ (neg (atom "p" [])).Dependable) ∧
      (({} : Formula).defects = [] ∧ ¬ ∃ text, ({} : Formula).render = .ok text) ∧
      ((markedAtom .not []).defects = [] ∧ ¬ ∃ g, (markedAtom .not []).negate = .ok g) ∧
      ((markedAtom .and []).defects = [] ∧ (markedAtom .and []).conjuncts = [] ∧
        ¬ (markedAtom .and []).HoldsIn [] fun _ ↦ False) ∧
      ((markedAtom .and [{ connective := some .not }]).defects = [] ∧
        (markedAtom .and [{ connective := some .not }]).toClauses =
          .error (.fault .missingOperand)) := by
  have hplain : (neg (atom "p" [])).defects = [] := by
    refine defects_eq_nil_iff.mpr ⟨List.forall_mem_singleton.mpr (by decide +kernel), ?_⟩
    exact .compound rfl (List.forall_mem_singleton.mpr (.atom _ _ _ _ _)) none
  have hbare : ({} : Formula).defects = [] :=
    defects_eq_nil_iff.mpr ⟨by simp [atoms, atomsAll], .compound rfl (by simp) none⟩
  obtain ⟨hdependable, -⟩ := accepted_guarantees hplain
  obtain ⟨-, hrender, -⟩ := accepted_guarantees hbare
  obtain ⟨-, -, hnegate, -⟩ := accepted_guarantees (markedAtom_defects .not [])
  have hatom : ∀ g ∈ (atom "p" []).nodes, (g.isAtom = true ↔ g.connective = none) :=
    List.forall_mem_singleton.mpr (iff_of_true rfl rfl)
  refine ⟨⟨hplain, hdependable (forall_nodes_compound.mpr ⟨by simp [isAtom], ?_⟩)⟩,
    ⟨hbare, fun hwritten ↦ ?_⟩,
    ⟨markedAtom_defects .not [], fun hdenied ↦ hnegate.mp hdenied ⟨rfl, rfl, rfl⟩⟩,
    ⟨markedAtom_defects .and [], by decide, id⟩, ⟨markedAtom_defects .and _, rfl⟩⟩
  · exact List.forall_mem_singleton.mpr hatom
  · simpa [nodes, isAtom] using hrender.mp hwritten {}

end Diagnosis.Formula
