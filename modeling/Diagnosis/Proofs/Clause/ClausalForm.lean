import Diagnosis.Clause.Basic
import Diagnosis.Proofs.Formula.Propositional
import Mathlib.Data.List.Basic

/-!
# Clausal form

The clauses of a propositional formula can be told from those of its parts: a conjunction has the
clauses of all its parts, a disjunction every clause that joins one of each part, and a negation
those of the denied operand. `clausalForm` reads them off in this way, without rewriting the
formula. They say what the formula says (`allHold_clausalForm`), about none but its atoms
(`about_clausalForm`).

Truth and falsity are the empty cases: at any depth, the one has no clause and the other only the
empty one. Under a denial it is the other way round.
-/

namespace Diagnosis

/-! ## Joining clauses -/

namespace Clause

variable {α : Type} {c d : Clause α} {cs ds : List (Clause α)} {css : List (List (Clause α))}
  {truth : α → Bool} {conjunctive : Bool}

/-- The clauses of a disjunction of two parts: each clause of the first with each of the second. -/
def product (cs ds : List (Clause α)) : List (Clause α) :=
  ds.flatMap fun d ↦ cs.map (· ++ d)

/-- The clauses of a conjunction or of a disjunction, from the clauses of its parts. -/
def combine (conjunctive : Bool) (css : List (List (Clause α))) : List (Clause α) :=
  if conjunctive then css.flatten else css.foldl product [[]]

/-- Joining with the empty clause changes nothing. -/
@[simp] theorem product_singleton_nil (ds : List (Clause α)) : product [[]] ds = ds := by
  simp [product]

/-- A product goes clause by clause through the second factor. -/
theorem product_flatten (cs : List (Clause α)) (dss : List (List (Clause α))) :
    product cs dss.flatten = (dss.map (product cs)).flatten := by
  induction dss with
  | nil => rfl
  | cons ds dss ih =>
      rw [List.map_cons, List.flatten_cons, List.flatten_cons, ← ih]
      simp only [product, List.flatMap_append]

/-- A product with a single clause goes clause by clause through the first factor. -/
theorem flatten_product (css : List (List (Clause α))) (d : Clause α) :
    product css.flatten [d] = (css.map (product · [d])).flatten := by
  simp only [product, List.flatMap_singleton, List.map_flatten]

/-- A disjunction joins the clauses of its parts one after the other. -/
theorem combine_cons (cs : List (Clause α)) (css : List (List (Clause α))) :
    combine false (cs :: css) = css.foldl product cs := by
  rw [combine, if_neg Bool.false_ne_true, List.foldl_cons, product_singleton_nil]

/-- A disjunction of single clauses is the clause that joins them. -/
theorem combine_singletons (lss : List (Clause α)) :
    combine false (lss.map fun ls ↦ [ls]) = [lss.flatten] := by
  have hfoldl (c : Clause α) :
      (lss.map fun ls ↦ [ls]).foldl product [c] = [c ++ lss.flatten] := by
    induction lss generalizing c with
    | nil => simp
    | cons ls lss ih => simp [product, ih]
  exact hfoldl []

/-- The clauses of a product join one clause of each factor. -/
theorem mem_product : c ∈ product cs ds ↔ ∃ d ∈ ds, ∃ c' ∈ cs, c' ++ d = c := by
  simp only [product, List.mem_flatMap, List.mem_map]

/-- All the clauses are true. -/
def AllHold (truth : α → Bool) (cs : List (Clause α)) : Prop :=
  ∀ c ∈ cs, c.Holds truth

/-- A product holds if one of its factors does. -/
theorem allHold_product : AllHold truth (product cs ds) ↔ AllHold truth cs ∨ AllHold truth ds := by
  have happend (c d : Clause α) : Holds truth (c ++ d) ↔ c.Holds truth ∨ d.Holds truth := by
    simp only [Holds, List.mem_append, or_and_right, exists_or]
  simp only [AllHold, product, List.forall_mem_flatMap, List.forall_mem_map, happend]
  grind

/-- Joined one after the other, clauses hold if those of one part do. -/
theorem allHold_foldl_product :
    AllHold truth (css.foldl product cs) ↔ AllHold truth cs ∨ ∃ ds ∈ css, AllHold truth ds := by
  induction css generalizing cs with
  | nil => simp
  | cons ds css ih =>
      rw [List.foldl_cons, ih, allHold_product, List.exists_mem_cons_iff, or_assoc]

/-- The clauses of a conjunction hold if those of all parts do. -/
theorem allHold_conjunctive :
    AllHold truth (combine true css) ↔ ∀ cs ∈ css, AllHold truth cs := by
  simp only [combine, if_true, AllHold, List.forall_mem_flatten]

/-- The clauses of a disjunction hold if those of one part do. -/
theorem allHold_disjunctive :
    AllHold truth (combine false css) ↔ ∃ cs ∈ css, AllHold truth cs := by
  have hempty : ¬ AllHold truth [[]] := by simp [AllHold, Holds]
  rw [combine, if_neg Bool.false_ne_true, allHold_foldl_product, or_iff_right hempty]

/-- The clauses of a conjunction of two parts hold if those of both do. -/
theorem allHold_both :
    AllHold truth (combine true [cs, ds]) ↔ AllHold truth cs ∧ AllHold truth ds := by
  simp [allHold_conjunctive]

/-- The clauses of a disjunction of two parts hold if those of either do. -/
theorem allHold_either :
    AllHold truth (combine false [cs, ds]) ↔ AllHold truth cs ∨ AllHold truth ds := by
  simp [allHold_disjunctive]

/-- Joining clauses, in whichever way, adds no literals. -/
theorem forall_mem_combine {P : Literal α → Prop} (h : ∀ cs ∈ css, ∀ c ∈ cs, ∀ l ∈ c, P l) :
    ∀ c ∈ combine conjunctive css, ∀ l ∈ c, P l := by
  have hproduct : ∀ {css : List (List (Clause α))} {cs : List (Clause α)},
      (∀ c ∈ cs, ∀ l ∈ c, P l) → (∀ ds ∈ css, ∀ d ∈ ds, ∀ l ∈ d, P l) →
        ∀ c ∈ css.foldl product cs, ∀ l ∈ c, P l := by
    intro css
    induction css with
    | nil => exact fun hcs _ ↦ hcs
    | cons ds css ih =>
        intro cs hcs hcss
        rw [List.forall_mem_cons] at hcss
        refine ih (fun c hc ↦ ?_) hcss.2
        obtain ⟨d, hd, c', hc', rfl⟩ := mem_product.mp hc
        exact List.forall_mem_append.mpr ⟨hcs c' hc', hcss.1 d hd⟩
  cases conjunctive with
  | true => simpa only [combine, if_true, List.forall_mem_flatten] using h
  | false => exact hproduct (by simp) h

end Clause

/-! ## Clauses of formulas -/

namespace Formula

open Clause

mutual

/-- The clauses of the formula, denied if `negated`. -/
def clausalForm : Formula → (negated : Bool) → List (Clause Proposition)
  | ⟨some a, _, _, _, _⟩, negated => [[{ subject := .atom a, positive := !negated }]]
  | ⟨none, some .and, fs, _, _⟩, negated => combine (!negated) (clausalForms fs negated)
  | ⟨none, some .or, fs, _, _⟩, negated => combine negated (clausalForms fs negated)
  | ⟨none, some .not, f :: _, _, _⟩, negated => f.clausalForm (!negated)
  | ⟨none, some .implies, [f, g], _, _⟩, negated =>
    combine negated [f.clausalForm (!negated), g.clausalForm negated]
  | ⟨none, some .iff, [f, g], _, _⟩, negated =>
    combine (!negated)
      [combine negated [f.clausalForm (!negated), g.clausalForm negated],
        combine negated [g.clausalForm (!negated), f.clausalForm negated]]
  | _, _ => []
termination_by structural f => f

/-- The clauses of each formula of a list. -/
def clausalForms : List Formula → (negated : Bool) → List (List (Clause Proposition))
  | [], _ => []
  | f :: fs, negated => f.clausalForm negated :: clausalForms fs negated
termination_by structural fs => fs

end

section Constructors

variable (a : Atom) (fs : List Formula) (f g : Formula) (negated : Bool)

/-- The clauses of a list are those of its members. -/
@[simp] theorem clausalForms_eq_map :
    clausalForms fs negated = fs.map (·.clausalForm negated) := by
  induction fs with
  | nil => rfl
  | cons f fs ih => simp [clausalForms, ih]

@[simp] theorem clausalForm_ofAtom :
    (ofAtom a).clausalForm negated = [[{ subject := .atom a, positive := !negated }]] :=
  rfl

@[simp] theorem clausalForm_conj :
    (conj fs).clausalForm negated = combine (!negated) (fs.map (·.clausalForm negated)) := by
  rw [← clausalForms_eq_map]
  rfl

@[simp] theorem clausalForm_disj :
    (disj fs).clausalForm negated = combine negated (fs.map (·.clausalForm negated)) := by
  rw [← clausalForms_eq_map]
  rfl

@[simp] theorem clausalForm_neg : (neg f).clausalForm negated = f.clausalForm (!negated) :=
  rfl

@[simp] theorem clausalForm_imp :
    (imp f g).clausalForm negated =
      combine negated [f.clausalForm (!negated), g.clausalForm negated] :=
  rfl

@[simp] theorem clausalForm_equiv :
    (equiv f g).clausalForm negated =
      combine (!negated) [(imp f g).clausalForm negated, (imp g f).clausalForm negated] :=
  rfl

end Constructors

variable {allowed : Connective → Prop} {f : Formula}

/-- The clauses say what the formula says, and denied they say the contrary. -/
theorem allHold_clausalForm (hf : f.Propositional allowed) (constants : List String)
    (truth : Proposition → Bool) :
    (AllHold truth (f.clausalForm false) ↔
        f.HoldsIn constants fun a ↦ truth (.atom a) = true) ∧
      (AllHold truth (f.clausalForm true) ↔
        ¬ f.HoldsIn constants fun a ↦ truth (.atom a) = true) := by
  simp only [HoldsIn]
  induction hf with
  | atom a => simp [AllHold, Clause.Holds, Literal.Holds]
  | @conj fs _ ih =>
      rw [clausalForm_conj, clausalForm_conj, holds_conj]
      constructor
      · rw [Bool.not_false, allHold_conjunctive, List.forall_mem_map]
        exact forall₂_congr fun f hf ↦ (ih f hf).1
      · simp only [Bool.not_true, allHold_disjunctive, List.mem_map, exists_exists_and_eq_and,
          not_forall, exists_prop]
        exact exists_congr fun f ↦ and_congr_right fun hf ↦ (ih f hf).2
  | @disj fs _ ih =>
      rw [clausalForm_disj, clausalForm_disj, holds_disj]
      constructor
      · simp only [allHold_disjunctive, List.mem_map, exists_exists_and_eq_and]
        exact exists_congr fun f ↦ and_congr_right fun hf ↦ (ih f hf).1
      · simp only [allHold_conjunctive, List.forall_mem_map, not_exists, not_and]
        exact forall₂_congr fun f hf ↦ (ih f hf).2
  | neg _ ih => simpa [and_comm] using ih
  | imp _ _ _ ihl ihr =>
      simp only [clausalForm_imp, allHold_both, allHold_either, Bool.not_false, Bool.not_true,
        holds_imp, ihl, ihr]
      grind
  | equiv _ _ _ ihl ihr =>
      simp only [clausalForm_equiv, clausalForm_imp, allHold_both, allHold_either, Bool.not_false,
        Bool.not_true, holds_equiv, ihl, ihr]
      grind

/-- The clauses are about some of the atoms. -/
def About (atoms : List Atom) (cs : List (Clause Proposition)) : Prop :=
  ∀ c ∈ cs, ∀ l ∈ c, ∃ a ∈ atoms, l.subject = .atom a

namespace About

variable {atoms more : List Atom} {cs : List (Clause Proposition)} {fs : List Formula}
  {css : List (List (Clause Proposition))} {f g : Formula} {negated conjunctive : Bool}

/-- Clauses about some atoms are about any atoms among which these are. -/
theorem mono (h : About atoms cs) (hsub : atoms ⊆ more) : About more cs :=
  fun c hc l hl ↦ (h c hc l hl).imp fun _ ha ↦ ⟨hsub ha.1, ha.2⟩

/-- Combined clauses are about the atoms that the clauses of the parts are about. -/
theorem combine (h : ∀ cs ∈ css, About atoms cs) : About atoms (Clause.combine conjunctive css) :=
  forall_mem_combine h

/-- The clauses of parts are about the atoms of the parts. -/
theorem parts (h : ∀ f ∈ fs, About f.atoms (f.clausalForm negated)) :
    About (fs.flatMap Formula.atoms)
      (Clause.combine conjunctive (fs.map (·.clausalForm negated))) := by
  refine .combine (List.forall_mem_map.mpr fun f hf ↦ (h f hf).mono fun a ha ↦ ?_)
  exact List.mem_flatMap.mpr ⟨f, hf, ha⟩

/-- The clauses of an implication are about the atoms of its operands. -/
theorem imp (hf : ∀ negated, About atoms (f.clausalForm negated))
    (hg : ∀ negated, About atoms (g.clausalForm negated)) :
    About atoms ((Formula.imp f g).clausalForm negated) := by
  rw [clausalForm_imp]
  exact .combine (List.forall_mem_cons.mpr ⟨hf _, List.forall_mem_singleton.mpr (hg _)⟩)

end About

/-- The clauses are about the atoms of the formula. -/
theorem about_clausalForm (hf : f.Propositional allowed) (negated : Bool) :
    About f.atoms (f.clausalForm negated) := by
  induction hf generalizing negated with
  | atom a => simp [About]
  | conj _ ih =>
      rw [clausalForm_conj, atoms_conj]
      exact .parts fun f hf ↦ ih f hf negated
  | disj _ ih =>
      rw [clausalForm_disj, atoms_disj]
      exact .parts fun f hf ↦ ih f hf negated
  | neg _ ih => simpa using ih (!negated)
  | imp _ _ _ ihl ihr =>
      rw [atoms_imp]
      exact .imp (fun negated ↦ (ihl negated).mono (List.subset_append_left _ _))
        fun negated ↦ (ihr negated).mono (List.subset_append_right _ _)
  | @equiv f g _ _ _ ihl ihr =>
      rw [atoms_equiv, clausalForm_equiv]
      have hleft (negated : Bool) : About (f.atoms ++ g.atoms) (f.clausalForm negated) :=
        (ihl negated).mono (List.subset_append_left _ _)
      have hright (negated : Bool) : About (f.atoms ++ g.atoms) (g.clausalForm negated) :=
        (ihr negated).mono (List.subset_append_right _ _)
      exact .combine (List.forall_mem_cons.mpr
        ⟨.imp hleft hright, List.forall_mem_singleton.mpr (.imp hright hleft)⟩)

end Formula

end Diagnosis
