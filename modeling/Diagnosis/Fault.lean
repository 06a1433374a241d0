/-!
# Faults

A formula is a tree of nodes that need not fit their connectives. An operation that asks a node
for something it lacks stops with a fault, which names what was missing.
-/

namespace Diagnosis

/-- What an operation asked of a node in vain. -/
inductive Fault where
  /-- A negation or a quantifier has no operand. -/
  | missingOperand
  /-- An implication or an equivalence has this many operands and not two. -/
  | operandCount (given : Nat)
  /-- A compound node has no connective. -/
  | missingConnective
  /-- A literal negates something that is no atom. -/
  | compoundLiteral
  /-- A term that no quantifier binds is a variable. -/
  | freeVariable (name : String)
  deriving DecidableEq, Repr

/-- The text of a fault. -/
def Fault.message : Fault → String
  | missingOperand => "tuple index out of range"
  | operandCount given =>
    if given < 2 then
      "not enough values to unpack (expected 2, got " ++ toString given ++ ")"
    else "too many values to unpack (expected 2)"
  | missingConnective => "'NoneType' object has no attribute 'value'"
  | compoundLiteral => "'NoneType' object has no attribute 'name'"
  | freeVariable name =>
    "Free variable '" ++ name ++ "' in premise; premises must be closed."

end Diagnosis
