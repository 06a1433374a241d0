import Diagnosis.Proofs.Clause.NormalForm
import Diagnosis.Proofs.Formula.Fitting

/-!
# Clauses of fitting trees

The steps to normal form go through on fitting trees without quantifiers, also where a node has no
connective: from the negations on it is taken for a disjunction. Only the last step can fail. It
looks at the connective first, so that it takes an atom with the connective of a conjunction apart
and collects from the operands as they stand, which no step has prepared. It succeeds if the
operands of all such atoms can be collected from (`Fitting.exists_toClauses`).
-/

namespace Diagnosis.Formula

/-! ## Collection -/

/-- Literals can be collected from the tree: every negation that is come to has an operand. -/
inductive Collectable : Formula → Prop where
  | atom (a : Atom) (c : Option Connective) (fs : List Formula) (x s : Option String) :
      Collectable ⟨some a, c, fs, x, s⟩
  | denied (f : Formula) (fs : List Formula) (x s : Option String) :
      Collectable ⟨none, some .not, f :: fs, x, s⟩
  | compound {c : Option Connective} (hc : c ≠ some .not) {fs : List Formula}
      (parts : ∀ f ∈ fs, Collectable f) (x s : Option String) : Collectable ⟨none, c, fs, x, s⟩

/-- Literals can be collected from every leaf below the conjunctions at the top, those of atoms
included. -/
def Collects (f : Formula) : Prop :=
  ∀ leaf ∈ f.conjunctLeaves, leaf.Collectable

section Collection

variable {c : Option Connective} {f g : Formula} {fs : List Formula} {x s : Option String}

/-- At a compound node that is no negation, literals are collected from the operands. -/
theorem literals_compound (hc : c ≠ some .not) :
    (⟨none, c, fs, x, s⟩ : Formula).literals = List.flatten <$> fs.mapM literals := by
  rw [← literalsAll_eq_mapM]
  cases c with
  | none => rfl
  | some c =>
      cases c with
      | not => exact absurd rfl hc
      | and | or | implies | iff | universal | existential => rfl

/-- From a collectable tree literals are collected. -/
theorem Collectable.exists_literals (hf : f.Collectable) : ∃ ls, f.literals = .ok ls := by
  induction hf with
  | atom a c fs x s => exact ⟨_, rfl⟩
  | denied f fs x s => exact ⟨_, rfl⟩
  | @compound c hc fs _ x s ih =>
      obtain ⟨lss, hlss⟩ := exists_mapM_ok ih
      exact ⟨lss.flatten, by rw [literals_compound hc, hlss]; rfl⟩

/-- Clauses are collected where literals can be collected from every leaf. -/
theorem Collects.exists_clauses (hf : f.Collects) : ∃ cs, f.collectClauses = .ok cs := by
  induction f using tree_induction with
  | node p c fs x s ih =>
      by_cases hc : c = some .and
      · subst hc
        rw [Collects, conjunctLeaves_of_and rfl, List.forall_mem_flatMap] at hf
        obtain ⟨css, hcss⟩ := exists_mapM_ok fun f hmem ↦ ih f hmem (hf f hmem)
        refine ⟨css.flatten, ?_⟩
        rw [collectClauses, if_pos rfl, collectClausesAll_eq_mapM, hcss]
        rfl
      · rw [Collects, conjunctLeaves_of_ne hc, List.forall_mem_singleton] at hf
        obtain ⟨ls, hls⟩ := hf.exists_literals
        exact ⟨[ls.eraseDups], by rw [collectClauses, if_neg hc, hls]; rfl⟩

/-- An atom without the connective of a conjunction is its own leaf. -/
theorem collects_of_ne (hatom : f.isAtom = true) (hc : f.connective ≠ some .and) :
    f.Collects := by
  rw [Collects, conjunctLeaves_of_ne hc, List.forall_mem_singleton]
  obtain ⟨_ | a, c, fs, x, s⟩ := f
  · cases hatom
  · exact .atom a c fs x s

/-- What clauses can be collected from has a conjunction from which they can. -/
theorem collects_conj (hfs : ∀ f ∈ fs, f.Collects) : (conj fs).Collects := by
  rw [Collects, conjunctLeaves_conj, List.forall_mem_flatMap]
  exact hfs

end Collection

/-! ## Distribution -/

section Distribution

variable {f g : Formula} {fs : List Formula}

/-- Every leaf of the first formula is joined with the second. -/
theorem conjunctLeaves_joinLeft (f g : Formula) :
    (joinLeft g f).conjunctLeaves = f.conjunctLeaves.map fun leaf ↦ disj [leaf, g] := by
  induction f using tree_induction with
  | node p c fs x s ih =>
      by_cases hc : c = some .and
      · subst hc
        rw [joinLeft, if_pos rfl, joinLeftAll_eq_map, conjunctLeaves_conj, List.flatMap_map,
          conjunctLeaves_of_and rfl, List.map_flatMap]
        exact List.flatMap_congr ih
      · rw [joinLeft, if_neg hc, conjunctLeaves_of_ne (by simp [disj]), conjunctLeaves_of_ne hc,
          List.map_singleton]

/-- Every leaf of the one formula is joined with every leaf of the other. -/
theorem conjunctLeaves_join (f g : Formula) :
    (join f g).conjunctLeaves =
      g.conjunctLeaves.flatMap fun leaf ↦ (joinLeft leaf f).conjunctLeaves := by
  induction g using tree_induction with
  | node p c gs x s ih =>
      by_cases hc : c = some .and
      · subst hc
        rw [join, if_pos rfl, joinAll_eq_map, conjunctLeaves_conj, List.flatMap_map,
          conjunctLeaves_of_and rfl, List.flatMap_assoc]
        exact List.flatMap_congr ih
      · have hleaf : (⟨p, c, gs, x, s⟩ : Formula).conjunctLeaves = [⟨p, c, gs, x, s⟩] :=
          conjunctLeaves_of_ne hc
        rw [join, if_neg hc, hleaf, List.flatMap_singleton]

/-- Joining keeps the leaves collectable. -/
theorem Collects.join (hf : f.Collects) (hg : g.Collects) : (join f g).Collects := by
  simp only [Collects, conjunctLeaves_join, conjunctLeaves_joinLeft, List.forall_mem_flatMap,
    List.forall_mem_map]
  intro right hright left hleft
  refine .compound (by simp) (List.forall_mem_cons.mpr ⟨hf left hleft, ?_⟩) none none
  exact List.forall_mem_singleton.mpr (hg right hright)

/-- So does joining one formula after the other. -/
theorem Collects.foldl_join (hf : f.Collects) (hfs : ∀ g ∈ fs, g.Collects) :
    (fs.foldl Formula.join f).Collects := by
  induction fs generalizing f with
  | nil => exact hf
  | cons g fs ih =>
      obtain ⟨hg, hrest⟩ := List.forall_mem_cons.mp hfs
      exact ih (hf.join hg) hrest

/-- Negations stand on atoms only, and clauses can be collected from the other atoms. -/
inductive Prepared : Formula → Prop where
  | atom {a : Atom} {c : Option Connective} {fs : List Formula} {x s : Option String}
      (hatom : Collects ⟨some a, c, fs, x, s⟩) : Prepared ⟨some a, c, fs, x, s⟩
  | negAtom (a : Atom) (c : Option Connective) (fs : List Formula) (x s : Option String) :
      Prepared (neg ⟨some a, c, fs, x, s⟩)
  | joined {c : Option Connective} (hc : c = none ∨ c = some .and ∨ c = some .or)
      {fs : List Formula} (parts : ∀ f ∈ fs, Prepared f) :
      Prepared { connective := c, children := fs }

/-- After distribution clauses can be collected. -/
theorem Prepared.distribute (hf : f.Prepared) : f.distribute.Collects := by
  induction hf with
  | @atom a c fs x s hatom =>
      rwa [Formula.distribute, if_pos (by simp [isLiteral, isAtom])]
  | negAtom a c fs x s =>
      rw [neg, Formula.distribute, if_pos (by simp [isLiteral, isAtom]), Collects,
        conjunctLeaves_of_ne (by simp), List.forall_mem_singleton]
      exact .denied _ [] none none
  | @joined c hc fs _ ih =>
      have hliteral : isLiteral { connective := c, children := fs } = false := by
        rcases hc with rfl | rfl | rfl <;> simp [isLiteral, isAtom]
      rw [Formula.distribute, if_neg (by simp [hliteral]), distributeAll_eq_map]
      by_cases hand : c = some .and
      · rw [if_pos hand]
        exact collects_conj (List.forall_mem_map.mpr ih)
      · rw [if_neg hand]
        cases fs with
        | nil =>
            rw [List.map_nil, Collects, conjunctLeaves_of_ne hand, List.forall_mem_singleton]
            exact .compound (by rcases hc with rfl | rfl | rfl <;> simp) (by simp) none none
        | cons f fs =>
            obtain ⟨hf, hfs⟩ := List.forall_mem_cons.mp ih
            exact hf.foldl_join (List.forall_mem_map.mpr hfs)

end Distribution

/-! ## The steps before -/

section Steps

/-- The tree fits its connectives, among which are no quantifiers and of the implications and
equivalences those that are allowed, and clauses can be collected from its atoms. -/
inductive Reducible (allowed : Connective → Prop) : Formula → Prop where
  | atom {a : Atom} {c : Option Connective} {fs : List Formula} {x s : Option String}
      (hatom : Collects ⟨some a, c, fs, x, s⟩) : Reducible allowed ⟨some a, c, fs, x, s⟩
  | joined {c : Option Connective} (hc : c = none ∨ c = some .and ∨ c = some .or)
      {fs : List Formula} (parts : ∀ f ∈ fs, Reducible allowed f) {x s : Option String} :
      Reducible allowed ⟨none, c, fs, x, s⟩
  | neg {f : Formula} (part : Reducible allowed f) {x s : Option String} :
      Reducible allowed ⟨none, some .not, [f], x, s⟩
  | imp (hallowed : allowed .implies) {f g : Formula} (left : Reducible allowed f)
      (right : Reducible allowed g) {x s : Option String} :
      Reducible allowed ⟨none, some .implies, [f, g], x, s⟩
  | equiv (hallowed : allowed .iff) {f g : Formula} (left : Reducible allowed f)
      (right : Reducible allowed g) {x s : Option String} :
      Reducible allowed ⟨none, some .iff, [f, g], x, s⟩

/-- Equivalences can be removed. -/
theorem Reducible.eliminateEquivalences {f : Formula} (hf : f.Reducible anyConnective) :
    ∃ g, f.eliminateEquivalences = .ok g ∧ g.Reducible (· ≠ .iff) := by
  induction hf with
  | atom hatom => exact ⟨_, rfl, .atom hatom⟩
  | joined hc parts ih =>
      obtain ⟨gs, hgs, hparts⟩ := exists_mapM_all ih
      refine ⟨_, eliminateEquivalences_node ?_ hgs, .joined hc hparts⟩
      rcases hc with rfl | rfl | rfl <;> simp
  | neg part ih =>
      obtain ⟨g, hg, hpart⟩ := ih
      exact ⟨_, eliminateEquivalences_node (by decide) (mapM_eq_ok_iff.mpr (.cons hg .nil)),
        .neg hpart⟩
  | imp hallowed left right ihl ihr =>
      obtain ⟨g, hg, hleft⟩ := ihl
      obtain ⟨h, hh, hright⟩ := ihr
      exact ⟨_, eliminateEquivalences_node (by decide) (mapM_pair hg hh),
        .imp (by decide) hleft hright⟩
  | equiv hallowed left right ihl ihr =>
      obtain ⟨g, hg, hleft⟩ := ihl
      obtain ⟨h, hh, hright⟩ := ihr
      have hpair := mapM_pair hg hh
      refine ⟨conj [Formula.imp g h, Formula.imp h g], ?_, .joined (.inr (.inl rfl)) ?_⟩
      · simp [Formula.eliminateEquivalences, eliminateEquivalencesAll_eq_mapM, hpair, bind,
          Except.bind, pure, Except.pure]
      · simp only [List.forall_mem_cons]
        exact ⟨.imp (by decide) hleft hright, .imp (by decide) hright hleft, by simp⟩

/-- Implications can be removed when there are no equivalences. -/
theorem Reducible.eliminateImplications {f : Formula} (hf : f.Reducible (· ≠ .iff)) :
    ∃ g, f.eliminateImplications = .ok g ∧ g.Reducible basicConnective := by
  induction hf with
  | atom hatom => exact ⟨_, rfl, .atom hatom⟩
  | joined hc parts ih =>
      obtain ⟨gs, hgs, hparts⟩ := exists_mapM_all ih
      refine ⟨_, eliminateImplications_node ?_ hgs, .joined hc hparts⟩
      rcases hc with rfl | rfl | rfl <;> simp
  | neg part ih =>
      obtain ⟨g, hg, hpart⟩ := ih
      exact ⟨_, eliminateImplications_node (by decide) (mapM_eq_ok_iff.mpr (.cons hg .nil)),
        .neg hpart⟩
  | imp hallowed left right ihl ihr =>
      obtain ⟨g, hg, hleft⟩ := ihl
      obtain ⟨h, hh, hright⟩ := ihr
      have hpair := mapM_pair hg hh
      refine ⟨disj [Formula.neg g, h], ?_, .joined (.inr (.inr rfl)) ?_⟩
      · simp [Formula.eliminateImplications, eliminateImplicationsAll_eq_mapM, hpair, bind,
          Except.bind, pure, Except.pure]
      · simp only [List.forall_mem_cons]
        exact ⟨.neg hleft, hright, by simp⟩
  | equiv hallowed left right ihl ihr => exact absurd rfl hallowed

/-- Negations can be moved down to the atoms. -/
theorem Reducible.pushNegations {f : Formula} (hf : f.Reducible basicConnective)
    (negated : Bool) : ∃ g, f.pushNegations negated = .ok g ∧ g.Prepared := by
  induction hf generalizing negated with
  | @atom a c fs x s hatom =>
      cases negated with
      | false => exact ⟨_, rfl, .atom hatom⟩
      | true => exact ⟨_, rfl, .negAtom a c fs x s⟩
  | @joined c hc fs parts x s ih =>
      obtain ⟨gs, hgs, hparts⟩ := exists_mapM_all fun f hf ↦ ih f hf negated
      refine ⟨_, pushNegations_node ?_ hgs, .joined ?_ hparts⟩
      · rcases hc with rfl | rfl | rfl <;> simp
      · rcases hc with rfl | rfl | rfl <;> cases negated <;> simp [dualConnective]
  | neg part ih => exact ih (!negated)
  | imp hallowed => exact hallowed.elim
  | equiv hallowed => exact hallowed.elim

/-- The steps to normal form go through. -/
theorem Reducible.exists_clauses {f : Formula} (hf : f.Reducible anyConnective) :
    ∃ cs, f.clauses = .ok cs := by
  obtain ⟨f₁, h₁, hf₁⟩ := hf.eliminateEquivalences
  obtain ⟨f₂, h₂, hf₂⟩ := hf₁.eliminateImplications
  obtain ⟨f₃, h₃, hf₃⟩ := hf₂.pushNegations false
  obtain ⟨cs, hcs⟩ := hf₃.distribute.exists_clauses
  exact ⟨cs, clauses_eq_ok_iff.mpr ⟨f₁, f₂, f₃, h₁, h₂, h₃, hcs⟩⟩

/-- A negation has one operand, an implication or an equivalence two. -/
theorem length_eq_of_nodeDefects {c : Connective} {n : Nat} {x : Option String}
    (h : nodeDefects (some c) n x = []) :
    (c = .not → n = 1) ∧ (c = .implies ∨ c = .iff → n = 2) := by
  refine ⟨fun hc ↦ length_of_leads (.inl hc) h, ?_⟩
  rintro (rfl | rfl) <;> by_contra hn <;> simp [nodeDefects, hn] at h

/-- A fitting tree without quantifiers can be brought into normal form if clauses can be collected
from its atoms. -/
theorem Fitting.reducible {f : Formula} (hf : f.Fitting) (hplain : f.containsQuantifier = false)
    (hatoms : ∀ g ∈ f.nodes, g.isAtom = true → g.Collects) : f.Reducible anyConnective := by
  induction hf with
  | atom a c fs x s => exact .atom (hatoms _ (by simp [nodes]) rfl)
  | @compound c fs x hnode parts s ih =>
      rw [containsQuantifier, anyContainsQuantifier_eq_any, Bool.or_eq_false_iff,
        List.any_eq_false] at hplain
      obtain ⟨hquantifier, hplain⟩ := hplain
      rw [forall_nodes_compound] at hatoms
      have hparts : ∀ f ∈ fs, f.Reducible anyConnective := fun f hf ↦
        ih f hf (Bool.eq_false_iff.mpr (hplain f hf)) (hatoms.2 f hf)
      cases c with
      | none => exact .joined (.inl rfl) hparts
      | some c =>
          obtain ⟨hone, htwo⟩ := length_eq_of_nodeDefects hnode
          cases c with
          | and => exact .joined (.inr (.inl rfl)) hparts
          | or => exact .joined (.inr (.inr rfl)) hparts
          | not =>
              obtain ⟨f, rfl⟩ := List.length_eq_one_iff.mp (hone rfl)
              exact .neg (hparts f (by simp))
          | implies =>
              obtain ⟨f, g, rfl⟩ := List.length_eq_two.mp (htwo (.inl rfl))
              exact .imp trivial (hparts f (by simp)) (hparts g (by simp))
          | iff =>
              obtain ⟨f, g, rfl⟩ := List.length_eq_two.mp (htwo (.inr rfl))
              exact .equiv trivial (hparts f (by simp)) (hparts g (by simp))
          | universal | existential => cases hquantifier

/-- The clauses of a fitting tree without quantifiers can be collected if they can from its
atoms. -/
theorem Fitting.exists_toClauses {f : Formula} (hf : f.Fitting)
    (hplain : f.containsQuantifier = false)
    (hatoms : ∀ g ∈ f.nodes, g.isAtom = true → g.Collects) : ∃ cs, f.toClauses = .ok cs := by
  obtain ⟨cs, hcs⟩ := (hf.reducible hplain hatoms).exists_clauses
  exact ⟨cs, by rw [toClauses, if_neg (by simp [hplain]), hcs]; rfl⟩

end Steps

end Diagnosis.Formula
