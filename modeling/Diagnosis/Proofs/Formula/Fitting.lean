import Diagnosis.Problem.Validation
import Diagnosis.Proofs.Formula.Conjuncts
import Diagnosis.Proofs.Formula.Legibility

/-!
# Trees that fit their connectives

The connectives of a fitting tree have the operands that they need (`shapeDefects_eq_nil_iff`). Its
nodes still need not have a connective, and atoms may have one. A fitting tree can be written if no
node lacks both a predicate and a connective (`legible_iff`). An atom that has the connective of a
conjunction is part of what the formula says, but not a conjunct: taking the formula apart goes to
its operands (`mem_conjuncts_iff_mem_parts`).
-/

namespace Diagnosis.Formula

/-! ## Nodes and parts -/

mutual

/-- The nodes of a tree from the top down. The operands of atoms do not count. -/
def nodes : Formula → List Formula
  | ⟨some a, c, fs, x, s⟩ => [⟨some a, c, fs, x, s⟩]
  | ⟨none, c, fs, x, s⟩ => ⟨none, c, fs, x, s⟩ :: nodesAll fs
termination_by structural f => f

/-- The nodes of the trees of a list. -/
def nodesAll : List Formula → List Formula
  | [] => []
  | f :: fs => f.nodes ++ nodesAll fs
termination_by structural fs => fs

end

mutual

/-- The nodes below the conjunctions at the top of the tree, left to right. An atom is such a node
whatever its connective is. -/
def parts : Formula → List Formula
  | ⟨some a, c, fs, x, s⟩ => [⟨some a, c, fs, x, s⟩]
  | ⟨none, c, fs, x, s⟩ => if c = some .and then partsAll fs else [⟨none, c, fs, x, s⟩]
termination_by structural f => f

/-- The parts of each formula of a list. -/
def partsAll : List Formula → List Formula
  | [] => []
  | f :: fs => f.parts ++ partsAll fs
termination_by structural fs => fs

end

section Parts

variable {c : Option Connective} {f : Formula} {fs : List Formula} {x s : Option String}

/-- The nodes of a list are those of its members. -/
@[simp] theorem nodesAll_eq_flatMap (fs : List Formula) : nodesAll fs = fs.flatMap nodes := by
  induction fs with
  | nil => rfl
  | cons f fs ih => simp [nodesAll, ih]

/-- The parts of a list are those of its members. -/
@[simp] theorem partsAll_eq_flatMap (fs : List Formula) : partsAll fs = fs.flatMap parts := by
  induction fs with
  | nil => rfl
  | cons f fs ih => simp [partsAll, ih]

/-- What is true of all nodes is true of a compound node and of all nodes of its operands. -/
theorem forall_nodes_compound {P : Formula → Prop} :
    (∀ g ∈ (⟨none, c, fs, x, s⟩ : Formula).nodes, P g) ↔
      P ⟨none, c, fs, x, s⟩ ∧ ∀ f ∈ fs, ∀ g ∈ f.nodes, P g := by
  rw [nodes, nodesAll_eq_flatMap, List.forall_mem_cons, List.forall_mem_flatMap]

/-- The parts are nodes. -/
theorem parts_subset_nodes (f : Formula) : f.parts ⊆ f.nodes := by
  induction f using tree_induction with
  | node p c fs x s ih =>
      cases p with
      | some a => exact List.Subset.refl _
      | none =>
          rw [parts, nodes, nodesAll_eq_flatMap]
          split
          · rw [partsAll_eq_flatMap]
            refine List.subset_cons_of_subset _ fun g hg ↦ ?_
            obtain ⟨f, hf, hg⟩ := List.mem_flatMap.mp hg
            exact List.mem_flatMap.mpr ⟨f, hf, ih f hf hg⟩
          · exact List.cons_subset_cons _ (List.nil_subset _)

/-- A part that has the connective of a conjunction is an atom. -/
theorem isAtom_of_mem_parts {g : Formula} (hg : g ∈ f.parts) (hand : g.connective = some .and) :
    g.isAtom = true := by
  induction f using tree_induction with
  | node p c fs x s ih =>
      cases p with
      | some a =>
          rw [parts, List.mem_singleton] at hg
          rw [hg]
          rfl
      | none =>
          rw [parts] at hg
          split at hg
          case isTrue hc =>
              rw [partsAll_eq_flatMap, List.mem_flatMap] at hg
              obtain ⟨f, hf, hg⟩ := hg
              exact ih f hf hg
          case isFalse hc =>
              rw [List.mem_singleton] at hg
              subst hg
              exact absurd hand hc

/-- A tree is the first of its nodes. -/
theorem mem_nodes (f : Formula) : f ∈ f.nodes := by
  obtain ⟨_ | a, c, fs, x, s⟩ := f <;> exact List.mem_cons_self

/-- A formula is true exactly if its parts are. -/
theorem holds_iff_parts {D : Type} (range : D → Prop) (M : Structure D) (env : Environment D)
    (f : Formula) : f.Holds range M env ↔ ∀ g ∈ f.parts, g.Holds range M env := by
  induction f using tree_induction with
  | node p c fs x s ih =>
      cases p with
      | some a => simp [parts]
      | none =>
          by_cases hc : c = some .and
          · subst hc
            rw [parts, if_pos rfl, partsAll_eq_flatMap, List.forall_mem_flatMap, Holds,
              holdsAll_iff]
            exact forall₂_congr ih
          · rw [parts, if_neg hc, List.forall_mem_singleton]

/-- Where no part has the connective of a conjunction, the parts are the leaves. -/
theorem conjunctLeaves_eq_parts (h : ∀ g ∈ f.parts, g.connective ≠ some .and) :
    f.conjunctLeaves = f.parts := by
  induction f using tree_induction with
  | node p c fs x s ih =>
      cases p with
      | some a =>
          rw [parts, List.forall_mem_singleton] at h
          rw [parts, conjunctLeaves_of_ne h]
      | none =>
          by_cases hc : c = some .and
          · subst hc
            rw [parts, if_pos rfl, partsAll_eq_flatMap, List.forall_mem_flatMap] at h
            rw [parts, if_pos rfl, partsAll_eq_flatMap, conjunctLeaves_of_and rfl]
            exact List.flatMap_congr fun f hf ↦ ih f hf (h f hf)
          · rw [parts, if_neg hc, conjunctLeaves_of_ne hc]

/-- The conjuncts are the parts exactly if no part has the connective of a conjunction. -/
theorem mem_conjuncts_iff_mem_parts :
    (∀ g, g ∈ f.conjuncts ↔ g ∈ f.parts) ↔ ∀ g ∈ f.parts, g.connective ≠ some .and := by
  refine ⟨fun h g hg ↦ connective_ne_of_mem_conjuncts ((h g).mpr hg), fun h g ↦ ?_⟩
  rw [mem_conjuncts, conjunctLeaves_eq_parts h]

end Parts

/-! ## Fitting trees -/

/-- Every compound node has the operands and the variable that its connective needs. -/
inductive Fitting : Formula → Prop where
  | atom (a : Atom) (c : Option Connective) (fs : List Formula) (x s : Option String) :
      Fitting ⟨some a, c, fs, x, s⟩
  | compound {c : Option Connective} {fs : List Formula} {x : Option String}
      (hnode : nodeDefects c fs.length x = []) (parts : ∀ f ∈ fs, Fitting f) (s : Option String) :
      Fitting ⟨none, c, fs, x, s⟩

section Fitting

variable {f : Formula}

/-- The defects of a list of nodes are those of its members. -/
theorem shapeDefectsAll_eq_nil_iff {fs : List Formula} :
    shapeDefectsAll fs = [] ↔ ∀ f ∈ fs, f.shapeDefects = [] := by
  induction fs with
  | nil => simp [shapeDefectsAll]
  | cons f fs ih => rw [shapeDefectsAll, List.append_eq_nil_iff, ih, List.forall_mem_cons, and_comm]

/-- The trees without defects of their nodes are the fitting ones. -/
theorem shapeDefects_eq_nil_iff (f : Formula) : f.shapeDefects = [] ↔ f.Fitting := by
  induction f using tree_induction with
  | node p c fs x s ih =>
      cases p with
      | some a => exact iff_of_true rfl (.atom a c fs x s)
      | none =>
          rw [shapeDefects, List.append_eq_nil_iff, shapeDefectsAll_eq_nil_iff, forall₂_congr ih]
          refine ⟨fun h ↦ .compound h.1 h.2 s, fun h ↦ ?_⟩
          cases h with
          | compound hnode parts _ => exact ⟨hnode, parts⟩

/-- A sign that leads has one operand. -/
theorem length_of_leads {c : Connective} {n : Nat} {x : Option String} (hc : c.Leads)
    (h : nodeDefects (some c) n x = []) : n = 1 := by
  rcases hc with rfl | rfl | rfl <;> simp only [nodeDefects] at h <;> split at h
  all_goals simp_all

/-- A fitting tree is legible if each of its nodes has a predicate or a connective. -/
theorem Fitting.legible_iff (hf : f.Fitting) :
    f.Legible ↔ ∀ g ∈ f.nodes, g.isAtom = true ∨ g.connective ≠ none := by
  induction hf with
  | atom a c fs x s => exact iff_of_true (.atom a c fs x s) (by simp [nodes, isAtom])
  | @compound c fs x hnode parts s ih =>
      rw [forall_nodes_compound, ← forall₂_congr ih]
      cases c with
      | none => exact iff_of_false (fun h ↦ nomatch h) fun h ↦ by simp [isAtom] at h
      | some c =>
          rw [and_iff_right (.inr (Option.some_ne_none c))]
          by_cases hc : c.Leads
          · obtain ⟨f, rfl⟩ := List.length_eq_one_iff.mp (length_of_leads hc hnode)
            rw [legible_leading_iff hc, List.forall_mem_singleton]
          · exact legible_joined_iff hc

end Fitting

end Diagnosis.Formula
