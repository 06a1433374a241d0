import Diagnosis.Error
import Diagnosis.Formula.Printer
import Diagnosis.Formula.Substitution
import Diagnosis.Formula.Variables
import Diagnosis.Text.Order

/-!
# Grounding

A system description speaks of all components by universal statements. Grounding replaces such a
statement by its instances, one for each component of a finite list. Only a universal at the top
over the expected sort, with a quantifier-free body and nothing free, is instantiated; any other
quantified statement is refused, and so is a plain statement with free variables.
-/

namespace Diagnosis.Formula

/-- The free variables of a statement for a message. -/
def freeNames (f : Formula) : List String :=
  Text.sortedDistinct f.freeVariables

/-- The error for a statement that cannot be grounded. -/
def ungroundable {α : Type} (statement : Formula) (defect : GroundingDefect) : Except Error α := do
  .error (.ungroundable defect statement (← liftFault statement.render))

/-- The body of a quantified statement. -/
def body (statement : Formula) : Except Fault Formula :=
  match statement.children with
  | [] => .error .missingOperand
  | f :: _ => .ok f

/-- The body of a quantified statement with its variable replaced by a term. -/
def instantiate (statement : Formula) (term : String) : Except Fault Formula := do
  return (← statement.body).substitute [(statement.binder, term)]

/-- Refuses a quantified statement that does not fit the grounding scheme. -/
def checkGroundable (sort : String) (statement : Formula) : Except Error Unit := do
  if statement.connective ≠ some .universal then statement.ungroundable .notUniversal
  else if (← liftFault statement.body).containsQuantifier then
    statement.ungroundable .innerQuantifier
  else if statement.sort ≠ some sort then statement.ungroundable (.otherSort sort)
  else if statement.isClosed then return ()
  else statement.ungroundable (.openUniversal statement.freeNames)

/-- Refuses a plain statement with free variables. -/
def checkPlain (statement : Formula) : Except Error Unit :=
  if statement.isClosed then .ok ()
  else statement.ungroundable (.openPlain statement.freeNames)

/-- The statements with a quantifier and those without, each in order. -/
def partitionStatements (description : List Formula) : List Formula × List Formula :=
  description.partition containsQuantifier

/-- The instances of a universal statement, in the order of the components. -/
def instances (sort : String) (components : List String) (statement : Formula) :
    Except Error (List Formula) := do
  statement.checkGroundable sort
  components.mapM fun component => liftFault (statement.instantiate component)

/-- The instances of all universal statements, followed by the plain statements. Plain statements
are looked at first. -/
def ground (description : List Formula) (components : List String) (sort : String) :
    Except Error (List Formula) := do
  let (quantified, plain) := partitionStatements description
  plain.forM checkPlain
  let instances ← quantified.mapM (instances sort components)
  return instances.flatten ++ plain

end Diagnosis.Formula
