import Diagnosis.Clause.NormalForm
import Diagnosis.Text.Blank
import Diagnosis.Text.Order

/-!
# Sequents

A clause read as a sequent says that if all of its antecedent holds then some of its succedent
does: the propositions that the clause denies stand before the turnstile, those that it affirms
after it. A conflict clause is a sequent that blames its antecedent: nothing stands after the
turnstile.
-/

namespace Diagnosis

/-- The two sides of a clause, each proposition once on a side. -/
structure Sequent where
  antecedent : List Proposition
  succedent : List Proposition
  deriving DecidableEq, Repr, Inhabited

namespace Sequent

/-- The propositions of the literals with the given polarity. -/
def side (positive : Bool) (literals : List (Literal Proposition)) : List Proposition :=
  ((literals.filter fun l => l.positive == positive).map Literal.subject).eraseDups

/-- The sequent of a clause. -/
def ofLiterals (literals : List (Literal Proposition)) : Sequent :=
  { antecedent := side false literals, succedent := side true literals }

/-- A proposition stands on both sides. -/
def isTautology (s : Sequent) : Bool :=
  s.antecedent.any s.succedent.contains

/-- Nothing stands on either side. -/
def isEmpty (s : Sequent) : Bool :=
  s.antecedent.isEmpty && s.succedent.isEmpty

/-- The antecedent cannot hold as a whole, and there is one. -/
def isConflict (s : Sequent) : Bool :=
  !s.isTautology && !s.isEmpty && s.succedent.isEmpty

/-- The written form of one side. -/
def sideText (side : List Proposition) : String :=
  ", ".intercalate (Text.sorted (side.map Proposition.text))

/-- The written form of a sequent, without white space at its ends. -/
def text (s : Sequent) : String :=
  Text.trim (sideText s.antecedent ++ " ⊢ " ++ sideText s.succedent)

end Sequent

namespace Formula

/-- The clauses of a quantifier-free formula as sequents. -/
def sequents (f : Formula) : Except Error (List Sequent) := do
  return (← f.toClauses).map Sequent.ofLiterals

/-- The clauses of a formula that are conflict clauses. -/
def conflictClauses (f : Formula) : Except Error (List Sequent) := do
  return (← f.sequents).filter Sequent.isConflict

end Formula

end Diagnosis
