import Diagnosis.Proofs.Formula.Propositional

/-!
# Conjuncts say what the formula says

The loop that takes a formula apart with a stack enters the leaves below the conjunctions at its top
from left to right (`split_eq`), so that the conjuncts are the leaves without repetitions. What is
true of all of them, that they hold, are closed or have no quantifier, is true of the formula, if it
is well formed (`forall_conjuncts`). Taking the conjunction of the conjuncts apart yields them again
(`conjuncts_faithful`).
-/

namespace Diagnosis

namespace Formula

@[simp] theorem conjunctLeaves_conj (fs : List Formula) :
    (conj fs).conjunctLeaves = fs.flatMap conjunctLeaves := by
  simp [conj, conjunctLeaves]

/-- A formula that is no conjunction is its own leaf. -/
theorem conjunctLeaves_of_ne {f : Formula} (hf : f.connective ≠ some .and) :
    f.conjunctLeaves = [f] := by
  obtain ⟨p, c, fs, x, s⟩ := f
  rw [conjunctLeaves, if_neg hf]

/-- A conjunction has the leaves of its operands. -/
theorem conjunctLeaves_of_and {f : Formula} (hf : f.connective = some .and) :
    f.conjunctLeaves = f.children.flatMap conjunctLeaves := by
  obtain ⟨p, c, fs, x, s⟩ := f
  rw [conjunctLeaves, if_pos hf, conjunctLeavesAll_eq_flatMap]

/-- The formulas on the stack are taken apart from the top down, and their leaves are entered. -/
theorem split_eq (stack found : List Formula) :
    split stack found = enterAll (stack.flatMap conjunctLeaves) found := by
  induction stack, found using split.induct with
  | case1 found => rw [split, List.flatMap_nil, enterAll_nil]
  | case2 found f stack hand ih =>
      rw [split, if_pos hand, ih, List.flatMap_append, List.flatMap_cons,
        conjunctLeaves_of_and hand]
  | case3 found f stack hleaf ih =>
      rw [split, if_neg hleaf, ih, List.flatMap_cons, conjunctLeaves_of_ne hleaf,
        List.singleton_append, enterAll_cons]

/-- The conjuncts are the leaves, each at its first place. -/
theorem conjuncts_eq (f : Formula) : f.conjuncts = f.conjunctLeaves.eraseDups := by
  rw [conjuncts, split_eq, enterAll_empty, List.flatMap_singleton]

@[simp] theorem mem_conjuncts {f g : Formula} : g ∈ f.conjuncts ↔ g ∈ f.conjunctLeaves := by
  rw [conjuncts_eq, List.mem_eraseDups]

/-- Every conjunct is listed once. -/
theorem conjuncts_nodup (f : Formula) : f.conjuncts.Nodup :=
  conjuncts_eq f ▸ nodup_eraseDups _

/-- A turn of the loop keeps conjunctions out of what is found, and so do all of them. -/
theorem connective_ne_of_mem_split {stack found : List Formula}
    (hfound : ∀ g ∈ found, g.connective ≠ some .and) :
    ∀ g ∈ split stack found, g.connective ≠ some .and := by
  induction stack, found using split.induct with
  | case1 found => rwa [split]
  | case2 found f stack hand ih =>
      rw [split, if_pos hand]
      exact ih hfound
  | case3 found f stack hleaf ih =>
      rw [split, if_neg hleaf]
      refine ih fun g hg ↦ ?_
      rcases mem_enter.mp hg with hg | rfl
      · exact hfound g hg
      · exact hleaf

/-- No conjunct is a conjunction. -/
theorem connective_ne_of_mem_conjuncts {f g : Formula} (hg : g ∈ f.conjuncts) :
    g.connective ≠ some .and :=
  connective_ne_of_mem_split (by simp) g hg

/-- Formulas none of which is a conjunction are their leaves. -/
theorem flatMap_conjunctLeaves {fs : List Formula} (hfs : ∀ f ∈ fs, f.connective ≠ some .and) :
    fs.flatMap conjunctLeaves = fs := by
  induction fs with
  | nil => rfl
  | cons f fs ih =>
      obtain ⟨hf, hrest⟩ := List.forall_mem_cons.mp hfs
      rw [List.flatMap_cons, conjunctLeaves_of_ne hf, ih hrest, List.singleton_append]

/-- Different formulas none of which is a conjunction are the conjuncts of their conjunction. -/
theorem conjuncts_conj_of_ne {fs : List Formula} (hfs : ∀ f ∈ fs, f.connective ≠ some .and)
    (hnodup : fs.Nodup) : (conj fs).conjuncts = fs := by
  rw [conjuncts_eq, conjunctLeaves_conj, flatMap_conjunctLeaves hfs, ← enterAll_empty]
  exact enterAll_of_nodup hnodup

/-- The parts of a well-formed conjunction are well formed, and no other conjunction is. -/
@[simp] theorem wellFormed_conj {fs : List Formula} :
    (conj fs).WellFormed ↔ ∀ f ∈ fs, f.WellFormed := by
  refine ⟨fun h ↦ ?_, .conj⟩
  generalize hf : conj fs = f at h
  cases h with
  | conj parts =>
      injection hf with _ _ hchildren
      exact hchildren ▸ parts
  | _ => simp [ofAtom, conj, disj, neg, imp, equiv, univ, exist] at hf

theorem plain_conj {fs : List Formula} :
    (conj fs).containsQuantifier = false ↔ ∀ f ∈ fs, f.containsQuantifier = false := by
  simp

@[simp] theorem isClosed_conj {fs : List Formula} :
    (conj fs).isClosed = true ↔ ∀ f ∈ fs, f.isClosed = true := by
  simp [isClosed, List.flatMap_eq_nil_iff]

/-- Conjunctions apart, a well-formed formula is its own leaf. -/
theorem conjunctLeaves_induction {P : Formula → Prop} {f : Formula} (hf : f.WellFormed)
    (hconj : ∀ fs, (∀ f ∈ fs, f.WellFormed ∧ P f) → P (conj fs))
    (hleaf : ∀ f, f.WellFormed → f.conjunctLeaves = [f] → P f) : P f := by
  induction hf with
  | conj parts ih => exact hconj _ fun f hf ↦ ⟨parts f hf, ih f hf⟩
  | atom a => exact hleaf _ (.atom a) (conjunctLeaves_of_ne (by simp [ofAtom]))
  | disj parts => exact hleaf _ (.disj parts) (conjunctLeaves_of_ne (by simp [disj]))
  | neg part => exact hleaf _ (.neg part) (conjunctLeaves_of_ne (by simp [neg]))
  | imp left right => exact hleaf _ (.imp left right) (conjunctLeaves_of_ne (by simp [imp]))
  | equiv left right => exact hleaf _ (.equiv left right) (conjunctLeaves_of_ne (by simp [equiv]))
  | univ body => exact hleaf _ (.univ body) (conjunctLeaves_of_ne (by simp [univ]))
  | exist body => exact hleaf _ (.exist body) (conjunctLeaves_of_ne (by simp [exist]))

/-- What a conjunction has in common with its parts, a well-formed formula has in common with its
conjuncts. -/
theorem forall_conjuncts (P : Formula → Prop)
    (hconj : ∀ fs, P (conj fs) ↔ ∀ f ∈ fs, P f) {f : Formula} (hf : f.WellFormed) :
    (∀ g ∈ f.conjuncts, P g) ↔ P f := by
  simp only [mem_conjuncts]
  refine conjunctLeaves_induction (P := fun f ↦ (∀ g ∈ f.conjunctLeaves, P g) ↔ P f) hf
    (fun fs ih ↦ ?_) fun f _ hleaf ↦ by simp [hleaf]
  rw [conjunctLeaves_conj, hconj]
  simp only [List.mem_flatMap, forall_exists_index, and_imp]
  rw [forall_comm]
  refine forall_congr' fun f ↦ ?_
  rw [forall_comm]
  exact forall_congr' fun hf ↦ (ih f hf).2

/-- What the conjuncts of a well-formed formula are: none is repeated or is a conjunction, they
stand in the order of the leaves, the formula is true exactly if they all are, and their conjunction
has the same conjuncts. -/
theorem conjuncts_faithful {f : Formula} (hf : f.WellFormed) :
    f.conjuncts.Nodup ∧
    (∀ g ∈ f.conjuncts, g.connective ≠ some .and) ∧
    f.conjuncts = f.conjunctLeaves.eraseDups ∧
    (∀ {D : Type} (range : D → Prop) (M : Structure D) (env : Environment D),
      f.Holds range M env ↔ ∀ g ∈ f.conjuncts, g.Holds range M env) ∧
    (conj f.conjuncts).conjuncts = f.conjuncts := by
  have hleaves : ∀ g ∈ f.conjuncts, g.connective ≠ some .and :=
    fun g hg ↦ connective_ne_of_mem_conjuncts hg
  refine ⟨conjuncts_nodup f, hleaves, conjuncts_eq f, fun range M env ↦ ?_,
    conjuncts_conj_of_ne hleaves (conjuncts_nodup f)⟩
  exact (forall_conjuncts (·.Holds range M env) (fun fs ↦ holds_conj fs) hf).symm

/-- A conjunction with empty conjunctions, conjunctions of one formula and repetitions below it. -/
def tangledFormula : Formula :=
  conj [top, conj [disj [atom "p" [], top]],
    conj [atom "q" ["a"], conj [], conj [disj [atom "p" [], top]]],
    univ "?x" (conj [atom "q" ["?x"]]), atom "q" ["a"]]

/-- The conjunctions below the disjunction and the quantifier stay, and what is repeated is kept at
its first place. -/
theorem tangledFormula_conjuncts :
    let leaves := [disj [atom "p" [], top], atom "q" ["a"], univ "?x" (conj [atom "q" ["?x"]])]
    tangledFormula.WellFormed ∧ tangledFormula.conjuncts = leaves ∧
      (conj leaves).conjuncts = leaves ∧
      ∀ {D : Type} (range : D → Prop) (M : Structure D) (env : Environment D),
        tangledFormula.Holds range M env ↔ ∀ g ∈ leaves, g.Holds range M env := by
  intro leaves
  have htop : top.WellFormed := .conj (by simp)
  have hdisj : (disj [atom "p" [], top]).WellFormed :=
    .disj (List.forall_mem_cons.mpr ⟨.atom _, List.forall_mem_singleton.mpr htop⟩)
  have hunary : (conj [disj [atom "p" [], top]]).WellFormed :=
    .conj (List.forall_mem_singleton.mpr hdisj)
  have huniv : (univ "?x" (conj [atom "q" ["?x"]])).WellFormed :=
    .univ (.conj (List.forall_mem_singleton.mpr (.atom _)))
  have hwellFormed : tangledFormula.WellFormed := by
    refine .conj ?_
    simp only [List.forall_mem_cons]
    refine ⟨htop, hunary, .conj ?_, huniv, .atom _, by simp⟩
    simp only [List.forall_mem_cons]
    exact ⟨.atom _, htop, hunary, by simp⟩
  obtain ⟨_, _, hconjuncts, hholds, hstable⟩ := conjuncts_faithful hwellFormed
  have hleaves : tangledFormula.conjunctLeaves.eraseDups = leaves := by decide
  rw [hleaves] at hconjuncts
  rw [hconjuncts] at hholds hstable
  exact ⟨hwellFormed, hconjuncts, hstable, hholds⟩

/-- The atoms of the conjuncts are atoms of the formula. -/
theorem atoms_subset_of_mem_conjuncts {f g : Formula} (hf : f.WellFormed) (hg : g ∈ f.conjuncts) :
    g.atoms ⊆ f.atoms := by
  rw [mem_conjuncts] at hg
  revert hg
  refine conjunctLeaves_induction (P := fun f ↦ g ∈ f.conjunctLeaves → g.atoms ⊆ f.atoms) hf
    (fun fs ih hg ↦ ?_) fun f _ hleaf hg ↦ ?_
  · rw [conjunctLeaves_conj, List.mem_flatMap] at hg
    obtain ⟨f, hf, hg⟩ := hg
    rw [atoms_conj]
    exact fun a ha ↦ List.mem_flatMap.mpr ⟨f, hf, (ih f hf).2 hg ha⟩
  · rw [hleaf, List.mem_singleton] at hg
    exact hg ▸ List.Subset.refl _

/-- A ground formula has a denial, which is ground and true where the formula is false. -/
theorem Ground.exists_negate {f : Formula} (hf : f.Ground) :
    ∃ g, f.negate = .ok g ∧ g.Ground ∧
      ∀ truth : Atom → Prop, g.HoldsIn [] truth ↔ ¬ f.HoldsIn [] truth := by
  -- A negation loses its sign; every other formula gains one.
  have hsigned (hne : f.connective ≠ some .not) : f.negate = .ok (neg f) ∧ (neg f).Ground ∧
      ∀ truth : Atom → Prop, (neg f).HoldsIn [] truth ↔ ¬ f.HoldsIn [] truth :=
    ⟨if_neg hne, ⟨.neg hf.wellFormed, by simpa using hf.plain, by simpa [isClosed] using hf.closed⟩,
      fun truth ↦ holds_neg f⟩
  cases hf.wellFormed with
  | @neg g part =>
      refine ⟨g, rfl, ⟨part, by simpa using hf.plain, by simpa [isClosed] using hf.closed⟩, ?_⟩
      intro truth
      simp [HoldsIn]
  | atom a => exact ⟨_, hsigned (by simp [ofAtom])⟩
  | conj parts => exact ⟨_, hsigned (by simp [conj])⟩
  | disj parts => exact ⟨_, hsigned (by simp [disj])⟩
  | imp left right => exact ⟨_, hsigned (by simp [imp])⟩
  | equiv left right => exact ⟨_, hsigned (by simp [equiv])⟩
  | univ body => exact ⟨_, hsigned (by simp [univ])⟩
  | exist body => exact ⟨_, hsigned (by simp [exist])⟩

/-- A conjunction of ground formulas is ground. -/
theorem ground_conj {fs : List Formula} (hfs : ∀ f ∈ fs, f.Ground) : (conj fs).Ground :=
  ⟨wellFormed_conj.mpr fun f hf ↦ (hfs f hf).wellFormed,
    plain_conj.mpr fun f hf ↦ (hfs f hf).plain, isClosed_conj.mpr fun f hf ↦ (hfs f hf).closed⟩

/-- The conjuncts of a ground formula are ground. -/
theorem Ground.conjuncts {f : Formula} (hf : f.Ground) : ∀ g ∈ f.conjuncts, g.Ground := by
  have hwellFormed := (forall_conjuncts WellFormed (fun _ ↦ wellFormed_conj) hf.wellFormed).mpr
    hf.wellFormed
  have hplain := (forall_conjuncts (·.containsQuantifier = false) (fun _ ↦ plain_conj)
    hf.wellFormed).mpr hf.plain
  have hclosed := (forall_conjuncts (·.isClosed = true) (fun _ ↦ isClosed_conj)
    hf.wellFormed).mpr hf.closed
  exact fun g hg ↦ ⟨hwellFormed g hg, hplain g hg, hclosed g hg⟩

end Formula

end Diagnosis
