import Diagnosis.Proofs.Formula.Propositional
import Mathlib.Data.List.Basic

/-!
# Free and bound terms

The terms of a formula are the arguments of its atoms, constants and variables alike. A quantifier
binds the terms that are its variable, and the others are free. The free variables are those of the
free terms that are variables. The binders are the variables of the quantifiers. Names are what
predicates, terms and binders are known by.
-/

namespace Diagnosis.Formula

mutual

/-- The free occurrences of terms. -/
def freeTerms : Formula → List String
  | ⟨some a, _, _, _, _⟩ => a.args
  | ⟨none, c, fs, x, _⟩ =>
    if c.any Connective.isQuantifier then (freeTermsAll fs).filter fun y ↦ some y != x
    else freeTermsAll fs
termination_by structural f => f

/-- The free occurrences of terms in a list of formulas. -/
def freeTermsAll : List Formula → List String
  | [] => []
  | f :: fs => f.freeTerms ++ freeTermsAll fs
termination_by structural fs => fs

end

mutual

/-- The variables of the quantifiers in a formula. -/
def binders : Formula → List String
  | ⟨some _, _, _, _, _⟩ => []
  | ⟨none, c, fs, x, _⟩ =>
    if c.any Connective.isQuantifier then x.toList ++ bindersAll fs else bindersAll fs
termination_by structural f => f

/-- The variables of the quantifiers in a list of formulas. -/
def bindersAll : List Formula → List String
  | [] => []
  | f :: fs => f.binders ++ bindersAll fs
termination_by structural fs => fs

end

section Constructors

variable (a : Atom) (fs : List Formula) (f g : Formula) (x sort : String)

/-- The free occurrences in a list are those in its members. -/
@[simp] theorem freeTermsAll_eq_flatMap : freeTermsAll fs = fs.flatMap freeTerms := by
  induction fs with
  | nil => rfl
  | cons f fs ih => simp [freeTermsAll, ih]

@[simp] theorem freeTerms_ofAtom : (ofAtom a).freeTerms = a.args :=
  rfl

@[simp] theorem freeTerms_conj : (conj fs).freeTerms = fs.flatMap freeTerms :=
  freeTermsAll_eq_flatMap fs

@[simp] theorem freeTerms_disj : (disj fs).freeTerms = fs.flatMap freeTerms :=
  freeTermsAll_eq_flatMap fs

@[simp] theorem freeTerms_neg : (neg f).freeTerms = f.freeTerms :=
  List.append_nil _

@[simp] theorem freeTerms_imp : (imp f g).freeTerms = f.freeTerms ++ g.freeTerms := by
  show f.freeTerms ++ (g.freeTerms ++ []) = _
  rw [List.append_nil]

@[simp] theorem freeTerms_equiv : (equiv f g).freeTerms = f.freeTerms ++ g.freeTerms := by
  show f.freeTerms ++ (g.freeTerms ++ []) = _
  rw [List.append_nil]

@[simp] theorem freeTerms_univ :
    (univ x f sort).freeTerms = f.freeTerms.filter fun y ↦ some y != some x := by
  show (f.freeTerms ++ []).filter _ = _
  rw [List.append_nil]

@[simp] theorem freeTerms_exist :
    (exist x f sort).freeTerms = f.freeTerms.filter fun y ↦ some y != some x := by
  show (f.freeTerms ++ []).filter _ = _
  rw [List.append_nil]

/-- The binders of a list are those of its members. -/
@[simp] theorem bindersAll_eq_flatMap : bindersAll fs = fs.flatMap binders := by
  induction fs with
  | nil => rfl
  | cons f fs ih => simp [bindersAll, ih]

@[simp] theorem binders_ofAtom : (ofAtom a).binders = [] :=
  rfl

@[simp] theorem binders_conj : (conj fs).binders = fs.flatMap binders :=
  bindersAll_eq_flatMap fs

@[simp] theorem binders_disj : (disj fs).binders = fs.flatMap binders :=
  bindersAll_eq_flatMap fs

@[simp] theorem binders_neg : (neg f).binders = f.binders :=
  List.append_nil _

@[simp] theorem binders_imp : (imp f g).binders = f.binders ++ g.binders := by
  show f.binders ++ (g.binders ++ []) = _
  rw [List.append_nil]

@[simp] theorem binders_equiv : (equiv f g).binders = f.binders ++ g.binders := by
  show f.binders ++ (g.binders ++ []) = _
  rw [List.append_nil]

@[simp] theorem binders_univ : (univ x f sort).binders = x :: f.binders := by
  show [x] ++ (f.binders ++ []) = _
  rw [List.append_nil, List.singleton_append]

@[simp] theorem binders_exist : (exist x f sort).binders = x :: f.binders := by
  show [x] ++ (f.binders ++ []) = _
  rw [List.append_nil, List.singleton_append]

end Constructors

/-- All names in a formula: those of predicates, terms and bound variables. -/
def names (f : Formula) : List String :=
  (f.atoms.flatMap fun a ↦ a.name :: a.args) ++ f.binders

/-- A propositional formula has no binders. -/
theorem Propositional.binders_eq_nil {allowed : Connective → Prop} {f : Formula}
    (hf : f.Propositional allowed) : f.binders = [] := by
  induction hf with
  | atom a => rfl
  | conj _ ih => rwa [binders_conj, List.flatMap_eq_nil_iff]
  | disj _ ih => rwa [binders_disj, List.flatMap_eq_nil_iff]
  | neg _ ih => rwa [binders_neg]
  | imp _ _ _ ihl ihr => rw [binders_imp, ihl, ihr, List.append_nil]
  | equiv _ _ _ ihl ihr => rw [binders_equiv, ihl, ihr, List.append_nil]

/-- The free variables are the free terms that are variables. -/
theorem WellFormed.freeVariables_eq {f : Formula} (hf : f.WellFormed) :
    f.freeVariables = f.freeTerms.filter isVariable := by
  induction hf with
  | atom a => simp [Atom.variableArgs]
  | conj _ ih => simpa [List.filter_flatMap] using List.flatMap_congr ih
  | disj _ ih => simpa [List.filter_flatMap] using List.flatMap_congr ih
  | neg _ ih => simpa using ih
  | imp _ _ ihl ihr => simp [ihl, ihr]
  | equiv _ _ ihl ihr => simp [ihl, ihr]
  | univ _ ih => simp [ih, List.filter_filter, Bool.and_comm]
  | exist _ ih => simp [ih, List.filter_filter, Bool.and_comm]

end Diagnosis.Formula
