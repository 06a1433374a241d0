import Diagnosis.Error
import Diagnosis.Formula.Printer
import Diagnosis.Formula.Variables
import Diagnosis.Problem.Basic
import Diagnosis.Text.Identifier
import Diagnosis.Text.Order

/-!
# Validation

The defects of a problem are listed as texts: badly written names, connectives with the wrong
number of operands, components that are no constants or occur twice, suspects that are no
components, observations with free variables. A problem without defects is valid.
-/

namespace Diagnosis

namespace Atom

/-- The defects of the argument at an index. -/
def argDefects (name : String) (index : Nat) (arg : String) : List String :=
  let place := "Predicate '" ++ name ++ "' arg[" ++ toString index ++ "]"
  if arg.isEmpty then [place ++ " is empty"]
  else if isVariable arg then
    if Text.isVariableName arg then []
    else [place ++ " '" ++ arg ++ "' looks like variable but has invalid format. " ++
      "Expected ?[A-Za-z_][A-Za-z0-9_]*"]
  else if Text.isConstantName arg then []
  else [place ++ " '" ++ arg ++ "' has invalid characters. Ground terms: [A-Za-z0-9_.-]+"]

/-- The defects of the name of a predicate. -/
def nameDefects (name : String) : List String :=
  if name.isEmpty then ["Predicate name is empty"]
  else if Text.isName name then []
  else ["Predicate name '" ++ name ++ "' invalid: must be [A-Za-z_][A-Za-z0-9_]*"]

/-- The defects of an atom: first of its name, then of its arguments in order. -/
def defects (a : Atom) : List String :=
  nameDefects a.name ++ a.args.zipIdx.flatMap fun (arg, index) => argDefects a.name index arg

end Atom

namespace Formula

/-- The defects of a compound node: its number of operands does not fit its connective, or a
quantifier has no variable. -/
def nodeDefects (connective : Option Connective) (operands : Nat) (binder : Option String) :
    List String :=
  match connective with
  | some .implies | some .iff =>
    if operands = 2 then []
    else [(connective.map Connective.label).getD "" ++ " needs 2 operands, got " ++
      toString operands]
  | some .not =>
    if operands = 1 then [] else ["NOT needs 1 operand, got " ++ toString operands]
  | some .universal | some .existential =>
    if operands = 1 ∧ (binder.getD "").isEmpty = false then []
    else [(connective.map Connective.label).getD "" ++ " needs a variable and one body"]
  | _ => []

mutual

/-- The defects of the compound nodes: a node before its operands, the last operand first. -/
def shapeDefects : Formula → List String
  | ⟨some _, _, _, _, _⟩ => []
  | ⟨none, c, fs, x, _⟩ => nodeDefects c fs.length x ++ shapeDefectsAll fs
termination_by structural f => f

/-- The defects of the compound nodes of a list, the last formula first. -/
def shapeDefectsAll : List Formula → List String
  | [] => []
  | f :: fs => shapeDefectsAll fs ++ f.shapeDefects
termination_by structural fs => fs

end

/-- The atoms of a formula, each once, by their written forms in ascending order. -/
def sortedAtoms (f : Formula) : List Atom :=
  f.atoms.eraseDups.mergeSort fun a b => !decide (b.text < a.text)

/-- The defects of a formula: first of its atoms, then of its compound nodes. -/
def defects (f : Formula) : List String :=
  f.sortedAtoms.flatMap Atom.defects ++ f.shapeDefects

end Formula

namespace Problem

/-- The defects of a component name. -/
def componentDefects (component : String) : List String :=
  if component.isEmpty then ["Component identifier is empty"]
  else if isVariable component then ["Component '" ++ component ++ "' looks like a variable"]
  else if Text.isConstantName component then []
  else ["Component '" ++ component ++ "' has invalid characters"]

/-- The names that occur more than once. -/
def repeated (names : List String) : List String :=
  Text.sortedDistinct (names.filter fun name => 1 < names.count name)

/-- The defects of a list of components. -/
def componentsDefects (components : List String) : List String :=
  components.flatMap componentDefects ++
    if (repeated components).isEmpty then []
    else ["Duplicate component identifier(s): " ++ Text.quotedList (repeated components)]

/-- The suspects that are no components. -/
def unknownSuspects (suspects components : List String) : List String :=
  Text.sortedDistinct (suspects.filter fun name => !components.contains name)

/-- The defects of a hypothesis, which is to suspect components only. -/
def hypothesisDefects (suspects components : List String) : List String :=
  let unknown := unknownSuspects suspects components
  if unknown.isEmpty then []
  else ["Hypothesis names unknown component(s): " ++ Text.quotedList unknown]

/-- The defects of observations, which are to be closed. A text that shows an open observation may
be impossible to write. -/
def observationsDefects : List Formula → Except Fault (List String)
  | [] => .ok []
  | f :: fs => do
    let openDefects ←
      if f.isClosed then pure []
      else do
        pure ["Observation '" ++ (← f.render) ++ "' has unbound variable(s) " ++
          Text.quotedList (Text.sortedDistinct f.freeVariables) ++
          ". Observations must be closed."]
    return f.defects ++ openDefects ++ (← observationsDefects fs)

/-- The defects of a problem under a hypothesis. -/
def defects (problem : Problem) (suspects : List String) : Except Fault (List String) := do
  let observed ← observationsDefects problem.observations
  return problem.description.flatMap Formula.defects ++ componentsDefects problem.components ++
    hypothesisDefects suspects problem.components ++ observed

/-- Refuses a problem with defects. -/
def assertValid (problem : Problem) (suspects : List String) : Except Error Unit := do
  let defects ← liftFault (problem.defects suspects)
  if defects.isEmpty then return () else .error (.invalidProblem defects)

end Problem

end Diagnosis
