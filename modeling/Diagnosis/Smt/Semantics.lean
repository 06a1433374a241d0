import Diagnosis.Formula.Semantics
import Diagnosis.Smt.Term

/-!
# Truth of terms

A term is true or false in a structure, given the values of the constants and those of the bound
variables in scope. All of the structure's domain is what quantifiers range over. Terms have a
model when some structure over a non-empty domain makes them all true.
-/

namespace Diagnosis.Smt

/-- The values of the variables in scope, by their indices. -/
abbrev Valuation (D : Type) := Nat → D

/-- The valuation below one more quantifier. -/
def Valuation.push {D : Type} (d : D) (scope : Valuation D) : Valuation D
  | 0 => d
  | n + 1 => scope n

/-- The value of an individual. -/
def Individual.value {D : Type} (constants : Environment D) (scope : Valuation D) :
    Individual → D
  | .constant name => constants name
  | .bound index => scope index

namespace Term

mutual

/-- Truth of a term in a structure. -/
def Holds {D : Type} (M : Structure D) (constants : Environment D) :
    Term → Valuation D → Prop
  | .truth value, _ => value = true
  | .predicate name args, scope => M name (args.map (·.value constants scope))
  | .conj ts, scope => HoldsAll M constants ts scope
  | .disj ts, scope => HoldsAny M constants ts scope
  | .neg t, scope => ¬ t.Holds M constants scope
  | .imp s t, scope => s.Holds M constants scope → t.Holds M constants scope
  | .equiv s t, scope => s.Holds M constants scope ↔ t.Holds M constants scope
  | .quantified .universal _ t, scope => ∀ d, t.Holds M constants (scope.push d)
  | .quantified .existential _ t, scope => ∃ d, t.Holds M constants (scope.push d)
  | .distinct names, _ => (names.map constants).Nodup
termination_by structural t => t

/-- All terms of a list hold. -/
def HoldsAll {D : Type} (M : Structure D) (constants : Environment D) :
    List Term → Valuation D → Prop
  | [], _ => True
  | t :: ts, scope => t.Holds M constants scope ∧ HoldsAll M constants ts scope
termination_by structural ts => ts

/-- Some term of a list holds. -/
def HoldsAny {D : Type} (M : Structure D) (constants : Environment D) :
    List Term → Valuation D → Prop
  | [], _ => False
  | t :: ts, scope => t.Holds M constants scope ∨ HoldsAny M constants ts scope
termination_by structural ts => ts

end

/-- A list holds as a conjunction if every member does. -/
@[simp] theorem holdsAll_iff {D : Type} (M : Structure D) (constants : Environment D)
    (ts : List Term) (scope : Valuation D) :
    HoldsAll M constants ts scope ↔ ∀ t ∈ ts, t.Holds M constants scope := by
  induction ts with
  | nil => simp [HoldsAll]
  | cons t ts ih => simp [HoldsAll, ih]

/-- A list holds as a disjunction if some member does. -/
@[simp] theorem holdsAny_iff {D : Type} (M : Structure D) (constants : Environment D)
    (ts : List Term) (scope : Valuation D) :
    HoldsAny M constants ts scope ↔ ∃ t ∈ ts, t.Holds M constants scope := by
  induction ts with
  | nil => simp [HoldsAny]
  | cons t ts ih => simp [HoldsAny, ih]

/-- Some structure over a non-empty domain makes all the terms true. -/
def HaveModel (terms : List Term) : Prop :=
  ∃ (D : Type) (M : Structure D) (constants : Environment D) (scope : Valuation D),
    ∀ t ∈ terms, t.Holds M constants scope

end Term

end Diagnosis.Smt
