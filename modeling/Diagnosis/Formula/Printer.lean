import Diagnosis.Fault
import Diagnosis.Formula.Basic

/-!
# Written formulas

`render` writes a formula with the signs of its connectives. An operand stands in parentheses
unless it is an atom, a negation or a node without operands. A node's own connective is looked at
before its operands, and operands are written left to right, so the first fault in that order is
the one reported.
-/

namespace Diagnosis.Formula

/-- The node is written without parentheses wherever it stands. -/
def standsAlone (f : Formula) : Bool :=
  f.isAtom || f.connective == some .not || f.children.isEmpty

/-- The written form of an operand, given the written form of the formula. -/
def enclose (f : Formula) (text : String) : String :=
  if f.standsAlone then text else "(" ++ text ++ ")"

/-- The text for the bound variable of a quantifier. -/
def binderText (binder : Option String) : String :=
  binder.getD "None"

mutual

/-- The written form of a formula. -/
def render : Formula → Except Fault String
  | ⟨some a, _, _, _, _⟩ => .ok a.text
  | ⟨none, none, _, _, _⟩ => .error .missingConnective
  | ⟨none, some .and, [], _, _⟩ => .ok "⊤"
  | ⟨none, some .or, [], _, _⟩ => .ok "⊥"
  | ⟨none, some .not, [], _, _⟩ => .error .missingOperand
  | ⟨none, some .not, f :: _, _, _⟩ => do
    return Connective.not.symbol ++ f.enclose (← f.render)
  | ⟨none, some .universal, [], _, _⟩ => .error .missingOperand
  | ⟨none, some .universal, f :: _, x, _⟩ => do
    return Connective.universal.symbol ++ binderText x ++ " (" ++ (← f.render) ++ ")"
  | ⟨none, some .existential, [], _, _⟩ => .error .missingOperand
  | ⟨none, some .existential, f :: _, x, _⟩ => do
    return Connective.existential.symbol ++ binderText x ++ " (" ++ (← f.render) ++ ")"
  | ⟨none, some c, fs, _, _⟩ => do
    return (" " ++ c.symbol ++ " ").intercalate (← renderOperands fs)
termination_by structural f => f

/-- The written forms of operands, in parentheses where they need them. -/
def renderOperands : List Formula → Except Fault (List String)
  | [] => .ok []
  | f :: fs => do
    let text ← f.render
    return f.enclose text :: (← renderOperands fs)
termination_by structural fs => fs

end

example : (neg (conj [atom "p" [], disj [], atom "q" ["a", "?x"]])).render =
    .ok "¬(p ∧ ⊥ ∧ q(a, ?x))" := by rfl

end Diagnosis.Formula
