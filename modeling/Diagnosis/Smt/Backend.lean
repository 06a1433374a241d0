import Diagnosis.Prover.Backend
import Diagnosis.Smt.Encoding
import Diagnosis.Smt.Solver

/-!
# The first-order back end

Closed premises are encoded as terms, and a solver is asked about them together with the
statement that different constants are different. Open premises are refused.

The solver follows every premise by a label, a boolean constant named after the place of the premise
in the question: it is asserted that the label implies the premise, and the labels are assumed. A
premise that speaks of a boolean constant of such a name speaks of the label.
-/

namespace Diagnosis.Backend

/-- The label of the premise at a place in a question. -/
def label (place : Nat) : String :=
  "premise!" ++ toString place

/-- The terms of premises, or the fault of the first that has none. -/
def premiseTerms (premises : List Formula) : Except Fault (List Smt.Term × Smt.Signature) := do
  let (results, signature) := Smt.encodeEach premises {}
  return (← results.mapM id, signature)

/-- The assertion that follows a term by the label of its place. -/
def labelled (term : Smt.Term) (place : Nat) : Smt.Term :=
  .imp (.predicate (label place) []) term

/-- What a solver says of premises. -/
def askSolver (solver : Smt.Solver) (premises : List Formula) : Except Fault Smt.Answer := do
  let (terms, signature) ← premiseTerms premises
  let assertions := terms.zipIdx.map fun (term, place) => labelled term place
  return solver (assertions ++ signature.uniqueNames) ((List.range terms.length).map label)

/-- The verdict of a solver on the premises at some positions. A core comes as places in the list
of positions. -/
def solverVerdict (positions : List Nat) : Smt.Answer → Cores.Verdict
  | .sat => .sat
  | .unsat core => .unsat (some (core.filterMap (positions[·]?)))
  | .unknown reason => .unknown ("z3: " ++ if reason.isEmpty then "unknown" else reason)

/-- The oracle that asks a solver about premises. Those at some positions have terms if all do, so
the reason for which they have none is never seen. -/
def premiseOracle (solver : Smt.Solver) (premises : List Formula) : Cores.Oracle Unit :=
  fun positions state =>
    match askSolver solver (positions.filterMap (premises[·]?)) with
    | .ok answer => (solverVerdict positions answer, state)
    | .error fault => (.unknown fault.message, state)

/-- The back end that hands closed premises to a first-order solver. -/
def firstOrder (solver : Smt.Solver := Smt.finiteSolver) : Backend Unit where
  name := "z3"
  start := ()
  load premises := do
    match ← openPremise "z3" premises with
    | some reason => return givingUp reason
    | none =>
      let _ ← premiseTerms premises
      return premiseOracle solver premises

end Diagnosis.Backend
