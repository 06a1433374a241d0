import Diagnosis.Clause.NormalForm
import Diagnosis.Prover.Backend
import Diagnosis.Satisfiability.Search

/-!
# The propositional back end

Ground premises are brought into clauses, and their atoms are taken for independent propositions.
Only atoms are branched on. A literal on a compound, which well-formed premises never lead to, has
no value of its own unless a clause forces one.
Quantified and open premises are beyond this back end: it gives up on them and says why.

The literals of a clause are a set, and the search may come to them in any order. The order can
decide whether the search gives up, but not what it finds.
-/

namespace Diagnosis

/-- An order for the literals of every clause, here of the clause at a place of a premise. -/
structure LiteralOrder where
  arrange (premise place : Nat) (c : Clause Proposition) : Clause Proposition
  perm : ∀ premise place c, (arrange premise place c).Perm c

namespace LiteralOrder

/-- The order in which the literals are collected. -/
def collected : LiteralOrder where
  arrange _ _ c := c
  perm _ _ := .refl

/-- The clauses of premises, each with its literals in order. -/
def arrangeAll (order : LiteralOrder) (table : List (List (Clause Proposition))) :
    List (List (Clause Proposition)) :=
  table.mapIdx fun premise cs => cs.mapIdx (order.arrange premise)

/-- Literals in the order in which they are collected stay where they are. -/
@[simp] theorem arrangeAll_collected (table : List (List (Clause Proposition))) :
    collected.arrangeAll table = table := by
  have hsame {β : Type} (l : List β) : l.mapIdx (fun _ a => a) = l := by
    refine List.ext_getElem? fun i => ?_
    rw [List.getElem?_mapIdx, Option.map_id']
  simp only [arrangeAll, collected, hsame]

end LiteralOrder

namespace Backend

/-- The clauses of each premise, or why one of the premises is beyond propositional logic. -/
def premiseClauses :
    List Formula → Except Fault (Except String (List (List (Clause Proposition))))
  | [] => .ok (.ok [])
  | f :: fs => do
    if f.containsQuantifier then
      return .error ("quantified premise not supported by dpll backend: " ++ (← f.render))
    let cs ← f.clauses
    return (← premiseClauses fs).map (cs :: ·)

/-- The verdict of a satisfiability search. -/
def searchVerdict (maxDecisions : Int) : Clause.SearchOutcome → Cores.Verdict
  | .decided true _ => .sat
  | .decided false _ => .unsat none
  | .exhausted => .unknown ("decision budget of " ++ toString maxDecisions ++ " exhausted")

/-- The clauses of the premises at some positions. -/
def clausesAt (table : List (List (Clause Proposition))) (positions : List Nat) :
    List (Clause Proposition) :=
  positions.flatMap fun i => table.getD i []

/-- The oracle for the premises with the given clauses. -/
def clauseOracle (maxDecisions : Int) (table : List (List (Clause Proposition))) :
    Cores.Oracle Unit :=
  fun positions state =>
    let outcome := Clause.solve (clausesAt table positions) maxDecisions Proposition.isAtom
    (searchVerdict maxDecisions outcome, state)

/-- The back end that decides ground premises, with at most the given number of decisions for a
question. -/
def propositional (maxDecisions : Int) (order : LiteralOrder := .collected) : Backend Unit where
  name := "dpll"
  start := ()
  load premises := do
    match ← openPremise "dpll" premises with
    | some reason => return givingUp reason
    | none =>
      match ← premiseClauses premises with
      | .error reason => return givingUp reason
      | .ok table => return clauseOracle maxDecisions (order.arrangeAll table)

end Backend

end Diagnosis
