import Diagnosis.Fault
import Diagnosis.Formula.Basic
import Diagnosis.Text.Quoted

/-!
# Errors

The reasons for which an operation of the library refuses its input, and their texts. That a
theory is consistent, or that a prover gave up, is no error but an outcome.
-/

namespace Diagnosis

/-- Why a statement of a system description cannot be grounded. -/
inductive GroundingDefect where
  /-- A quantifier-free statement with free variables. -/
  | openPlain (names : List String)
  /-- A quantifier that is no universal at the top. -/
  | notUniversal
  /-- A quantifier below the universal at the top. -/
  | innerQuantifier
  /-- A universal over another sort than the expected one. -/
  | otherSort (expected : String)
  /-- A universal statement with free variables. -/
  | openUniversal (names : List String)
  deriving DecidableEq, Repr

/-- Why an operation refuses its input. Where a cause shows a formula, `written` is its text. -/
inductive Error where
  /-- A node does not fit its connective. -/
  | fault (cause : Fault)
  /-- A formula to be brought into clauses contains a quantifier. -/
  | quantifiedClauses (written : String)
  /-- A statement of the system description does not fit the grounding scheme. -/
  | ungroundable (defect : GroundingDefect) (statement : Formula) (written : String)
  /-- A diagnosis problem is not valid; there is at least one reason. -/
  | invalidProblem (reasons : List String)
  /-- A name is not in the catalogue. -/
  | unknownName (name category : String) (available : List String)
  /-- A name is in the catalogue already. -/
  | nameTaken (name category : String)
  deriving Repr

namespace Error

/-- The text of a grounding defect in a statement. -/
def groundingMessage (sort : Option String) (written : String) : GroundingDefect → String
  | .openPlain names =>
    "Open axiom with free variable(s) " ++ Text.quotedList names ++ ": " ++ written
  | .notUniversal => "Quantified axiom must be a top-level universal: " ++ written
  | .innerQuantifier => "Axiom quantifies more than one variable: " ++ written
  | .otherSort expected =>
    "Axiom quantifies over sort '" ++ sort.getD "None" ++ "', expected '" ++ expected ++ "': " ++
      written
  | .openUniversal names =>
    "Axiom has free variable(s) " ++ Text.quotedList names ++ ": " ++ written

/-- The text of an error. -/
def message : Error → String
  | fault cause => cause.message
  | quantifiedClauses written =>
    "Cannot clausify quantified formula propositionally: " ++ written
  | ungroundable defect statement written => groundingMessage statement.sort written defect
  | invalidProblem reasons =>
    "Invalid diagnosis problem: " ++ toString reasons.length ++ " error(s): " ++
      reasons.headD ""
  | unknownName name category available =>
    "'" ++ name ++ "' not found in category '" ++ category ++ "'. Available: " ++
      Text.quotedList available
  | nameTaken name category =>
    "'" ++ name ++ "' already registered in category '" ++ category ++
      "'. Use override=True to replace."

end Error

/-- The result of an operation, a fault taken for an error. -/
def liftFault {α : Type} (result : Except Fault α) : Except Error α :=
  result.mapError Error.fault

end Diagnosis
