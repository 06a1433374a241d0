import Diagnosis.Clause.Sequent
import Diagnosis.Prover.Refutation

/-!
# Conflicts

A refutation is read as the components it blames. Its formula is brought into clauses, and every
conflict clause names components by the abnormality atoms in its antecedent. Other atoms say
nothing.
-/

namespace Diagnosis

/-- A set of components, in ascending order and each once. -/
abbrev Conflict := List String

namespace Conflict

/-- The set of the listed components. -/
def ofList (components : List String) : Conflict :=
  Text.sortedDistinct components

/-- The union of conflicts. -/
def union (conflicts : List Conflict) : Conflict :=
  ofList conflicts.flatten

/-- The members that are in the domain. -/
def restrict (domain : List String) (conflict : Conflict) : Conflict :=
  conflict.filter domain.contains

end Conflict

/-- The component that an abnormality atom is about. -/
def Atom.abnormalComponent? (abnormal : String) (a : Atom) : Option String :=
  match a.args with
  | [term] => if a.name = abnormal ∧ isVariable term = false then some term else none
  | _ => none

/-- The components that the abnormality atoms among the propositions are about. -/
def abnormalComponents (abnormal : String) : List Proposition → Except Fault (List String)
  | [] => .ok []
  | .compound :: _ => .error .compoundLiteral
  | .atom a :: rest => do
    return (a.abnormalComponent? abnormal).toList ++ (← abnormalComponents abnormal rest)

/-- The components blamed by a refutation. -/
def Refutation.conflict (abnormal : String) (r : Refutation) : Except Error Conflict := do
  let clauses ← r.formula.conflictClauses
  let found ← clauses.mapM fun s => liftFault (abnormalComponents abnormal s.antecedent)
  return Conflict.ofList found.flatten

/-- The conflicts of refutations in order, each once. -/
def mineConflicts (abnormal : String) (refutations : List Refutation) :
    Except Error (List Conflict) := do
  return (← refutations.mapM (Refutation.conflict abnormal)).eraseDups

end Diagnosis
