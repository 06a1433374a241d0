import Diagnosis.Formula.Basic

/-!
# Variables, quantifiers and atoms of a formula

`freeVariables` lists the variables that no quantifier above them binds, `atoms` the atoms. Both
go left to right and repeat what occurs repeatedly. The operands of an atom node do not count.
-/

namespace Diagnosis.Formula

mutual

/-- The free occurrences of variables. A quantifier binds its variable in all of its operands. -/
def freeVariables : Formula → List String
  | ⟨some a, _, _, _, _⟩ => a.variableArgs
  | ⟨none, c, fs, x, _⟩ =>
    if c.any Connective.isQuantifier then
      (freeVariablesAll fs).filter fun y => some y != x
    else freeVariablesAll fs
termination_by structural f => f

/-- The free occurrences of variables in a list of formulas. -/
def freeVariablesAll : List Formula → List String
  | [] => []
  | f :: fs => f.freeVariables ++ freeVariablesAll fs
termination_by structural fs => fs

end

/-- The free occurrences in a list are those in its members. -/
@[simp] theorem freeVariablesAll_eq_flatMap (fs : List Formula) :
    freeVariablesAll fs = fs.flatMap freeVariables := by
  induction fs with
  | nil => rfl
  | cons f fs ih => simp [freeVariablesAll, ih]

/-- No variable is free. -/
def isClosed (f : Formula) : Bool :=
  f.freeVariables.isEmpty

mutual

/-- A quantifier occurs in the formula. -/
def containsQuantifier : Formula → Bool
  | ⟨some _, _, _, _, _⟩ => false
  | ⟨none, c, fs, _, _⟩ => c.any Connective.isQuantifier || anyContainsQuantifier fs
termination_by structural f => f

/-- A quantifier occurs in one of the formulas. -/
def anyContainsQuantifier : List Formula → Bool
  | [] => false
  | f :: fs => f.containsQuantifier || anyContainsQuantifier fs
termination_by structural fs => fs

end

/-- A quantifier occurs in a list if it occurs in a member. -/
@[simp] theorem anyContainsQuantifier_eq_any (fs : List Formula) :
    anyContainsQuantifier fs = fs.any containsQuantifier := by
  induction fs with
  | nil => rfl
  | cons f fs ih => simp [anyContainsQuantifier, ih]

mutual

/-- The occurrences of atoms. -/
def atoms : Formula → List Atom
  | ⟨some a, _, _, _, _⟩ => [a]
  | ⟨none, _, fs, _, _⟩ => atomsAll fs
termination_by structural f => f

/-- The occurrences of atoms in a list of formulas. -/
def atomsAll : List Formula → List Atom
  | [] => []
  | f :: fs => f.atoms ++ atomsAll fs
termination_by structural fs => fs

end

/-- The atoms of a list are those of its members. -/
@[simp] theorem atomsAll_eq_flatMap (fs : List Formula) :
    atomsAll fs = fs.flatMap atoms := by
  induction fs with
  | nil => rfl
  | cons f fs ih => simp [atomsAll, ih]

end Diagnosis.Formula
