import Diagnosis.Satisfiability.Search
import Diagnosis.Smt.Term

/-!
# A solver for finite domains

`finiteSolver` decides terms in which no existential stands below a universal, polarity counted. It
names a witness for every existential and lets universals range over all constants and witnesses,
at least one. Different names may stand for different individuals, since nothing but
distinctness speaks of identity: a model in which two names share an individual can be changed
into one in which each has a copy. What is left is a question about facts, brought into clauses. A
disjunction with several compound parts gets a mark for each of them.

A question has assumptions, which are boolean constants taken for true, and the answer to an
unsatisfiable one names assumptions that suffice. An assumption that was given up is free again,
and false if no clause affirms it.
-/

namespace Diagnosis.Smt

/-- What a solver says of a question: for an unsatisfiable one it names places of assumptions that
suffice. -/
inductive Answer where
  | sat
  | unsat (core : List Nat)
  | unknown (reason : String)
  deriving DecidableEq, Repr

/-- A solver is asked whether assertions can be true together with assumptions, which are boolean
constants. -/
abbrev Solver := (assertions : List Term) → (assumptions : List String) → Answer

/-- The solver that gives up, for one reason. -/
def givingUp (reason : String) : Solver :=
  fun _ _ => .unknown reason

/-! ## Witnesses -/

mutual

/-- The number of witnesses that a term, denied unless `positive`, calls for; nothing if an
existential stands below a universal. -/
def witnesses : Term → (positive : Bool) → Option Nat
  | .truth _, _ => some 0
  | .predicate _ _, _ => some 0
  | .distinct _, _ => some 0
  | .conj ts, positive => witnessesAll ts positive
  | .disj ts, positive => witnessesAll ts positive
  | .neg t, positive => witnesses t !positive
  | .imp s t, positive => do
    return (← witnesses s !positive) + (← witnesses t positive)
  | .equiv s t, _ => do
    return (← witnesses s true) + (← witnesses s false) + (← witnesses t true) +
      (← witnesses t false)
  | .quantified kind _ t, positive => do
    let count ← witnesses t positive
    if (kind == .existential) == positive then return count + 1
    else if count = 0 then return 0
    else none
termination_by structural t => t

/-- The number of witnesses that the terms of a list call for. -/
def witnessesAll : List Term → (positive : Bool) → Option Nat
  | [], _ => some 0
  | t :: ts, positive => do
    return (← witnesses t positive) + (← witnessesAll ts positive)
termination_by structural ts => ts

end

/-! ## Facts -/

/-- A member of the domain. -/
inductive Element where
  | named (name : String)
  | witness (number : Nat)
  deriving DecidableEq, Repr, Inhabited

/-- A predicate applied to members of the domain. -/
structure Fact where
  name : String
  args : List Element
  deriving DecidableEq, Repr, Inhabited

/-- Literals on facts joined by conjunction and disjunction. -/
inductive Matrix where
  | literal (l : Literal Fact)
  | all (parts : List Matrix)
  | any (parts : List Matrix)
  deriving Repr, Inhabited

namespace Matrix

/-- A truth value as a matrix. -/
def ofBool (value : Bool) : Matrix :=
  if value then .all [] else .any []

/-- The conjunction of matrices, with the conjunctions among them taken apart. -/
def conj (parts : List Matrix) : Matrix :=
  match parts.flatMap fun | .all parts => parts | part => [part] with
  | [part] => part
  | parts => .all parts

/-- The disjunction of matrices, with the disjunctions among them taken apart. -/
def disj (parts : List Matrix) : Matrix :=
  match parts.flatMap fun | .any parts => parts | part => [part] with
  | [part] => part
  | parts => .any parts

/-- Joins parts as a conjunction, or denied as a disjunction. -/
def join (positive : Bool) (parts : List Matrix) : Matrix :=
  if positive then conj parts else disj parts

end Matrix

/-- The member of the domain that an individual stands for. -/
def Individual.element (scope : List Element) : Individual → Element
  | .constant name => .named name
  | .bound index => scope.getD index default

mutual

/-- The matrix of a term, denied unless `positive`, with the witnesses numbered from `next`. -/
def matrix (domain : List Element) :
    Term → (positive : Bool) → (scope : List Element) → (next : Nat) → Matrix × Nat
  | .truth value, positive, _, next => (.ofBool (value == positive), next)
  | .predicate name args, positive, scope, next =>
    (.literal ⟨⟨name, args.map (·.element scope)⟩, positive⟩, next)
  | .distinct names, positive, _, next =>
    (.ofBool ((names.eraseDups.length == names.length) == positive), next)
  | .conj ts, positive, scope, next =>
    let (parts, next) := matrixAll domain ts positive scope next
    (.join positive parts, next)
  | .disj ts, positive, scope, next =>
    let (parts, next) := matrixAll domain ts positive scope next
    (.join (!positive) parts, next)
  | .neg t, positive, scope, next => matrix domain t (!positive) scope next
  | .imp s t, positive, scope, next =>
    let (left, next) := matrix domain s (!positive) scope next
    let (right, next) := matrix domain t positive scope next
    (.join (!positive) [left, right], next)
  | .equiv s t, positive, scope, next =>
    let (left, next) := matrix domain s true scope next
    let (notLeft, next) := matrix domain s false scope next
    let (right, next) := matrix domain t true scope next
    let (notRight, next) := matrix domain t false scope next
    let parts := if positive then [[notLeft, right], [left, notRight]]
      else [[left, right], [notLeft, notRight]]
    (.conj (parts.map .disj), next)
  | .quantified kind _ t, positive, scope, next =>
    if (kind == .existential) == positive then
      matrix domain t positive (.witness next :: scope) (next + 1)
    else
      (.conj (domain.map fun element => (matrix domain t positive (element :: scope) next).1), next)
termination_by structural t => t

/-- The matrices of the terms of a list. -/
def matrixAll (domain : List Element) :
    List Term → (positive : Bool) → (scope : List Element) → (next : Nat) → List Matrix × Nat
  | [], _, _, next => ([], next)
  | t :: ts, positive, scope, next =>
    let (part, next) := matrix domain t positive scope next
    let (parts, next) := matrixAll domain ts positive scope next
    (part :: parts, next)
termination_by structural ts => ts

end

mutual

/-- The constants of a term. -/
def Term.constants : Term → List String
  | .truth _ => []
  | .predicate _ args => args.filterMap fun
    | .constant name => some name
    | .bound _ => none
  | .distinct names => names
  | .conj ts => constantsAll ts
  | .disj ts => constantsAll ts
  | .neg t => t.constants
  | .imp s t => s.constants ++ t.constants
  | .equiv s t => s.constants ++ t.constants
  | .quantified _ _ t => t.constants
termination_by structural t => t

/-- The constants of the terms of a list. -/
def constantsAll : List Term → List String
  | [] => []
  | t :: ts => t.constants ++ constantsAll ts
termination_by structural ts => ts

end

/-- The matrices of terms taken together, if they can be built. -/
def matricesOf (terms : List Term) : Option (List Matrix) := do
  let count ← witnessesAll terms true
  let domain := (constantsAll terms).eraseDups.map Element.named ++
    (List.range count).map Element.witness
  let domain := if domain.isEmpty then [.witness 0] else domain
  return (matrixAll domain terms true [] 0).1

/-! ## Clauses -/

/-- What a clause speaks of: facts, and marks for compound parts of disjunctions. -/
inductive Subject where
  | fact (f : Fact)
  | mark (number : Nat)
  deriving DecidableEq, Repr, Inhabited

/-- The literal of a clause for a literal of a matrix. -/
def factLiteral (l : Literal Fact) : Literal Subject :=
  ⟨.fact l.subject, l.positive⟩

/-- The literals among the parts of a disjunction. -/
def literalParts (parts : List Matrix) : Clause Subject :=
  parts.filterMap fun
    | .literal l => some (factLiteral l)
    | _ => none

/-- The number of the parts of a disjunction that are no literals. -/
def compoundCount (parts : List Matrix) : Nat :=
  parts.length - (literalParts parts).length

mutual

/-- Clauses that make a matrix true unless a literal of the guard is, with marks numbered from
`next`. The only compound part of a disjunction is guarded by its literals. Several get marks: where
a mark is true, its part is. -/
def require : Matrix → (guard : Clause Subject) → (next : Nat) → List (Clause Subject) × Nat
  | .literal l, guard, next => ([guard ++ [factLiteral l]], next)
  | .all parts, guard, next => requireAll parts guard next
  | .any parts, guard, next =>
    let alternatives := guard ++ literalParts parts
    match compoundCount parts with
    | 0 => ([alternatives], next)
    | 1 => requireCompounds parts alternatives next
    | _ =>
      let (marks, clauses, next) := requireMarked parts guard next
      ((alternatives ++ marks) :: clauses, next)
termination_by structural m => m

/-- Clauses that make all matrices of a list true unless a literal of the guard is. -/
def requireAll : List Matrix → (guard : Clause Subject) → (next : Nat) →
    List (Clause Subject) × Nat
  | [], _, next => ([], next)
  | m :: ms, guard, next =>
    let (clauses, next) := require m guard next
    let (more, next) := requireAll ms guard next
    (clauses ++ more, next)
termination_by structural ms => ms

/-- Clauses that make the compound matrices of a list true unless a literal of the guard is. -/
def requireCompounds : List Matrix → (guard : Clause Subject) → (next : Nat) →
    List (Clause Subject) × Nat
  | [], _, next => ([], next)
  | .literal _ :: ms, guard, next => requireCompounds ms guard next
  | m :: ms, guard, next =>
    let (clauses, next) := require m guard next
    let (more, next) := requireCompounds ms guard next
    (clauses ++ more, next)
termination_by structural ms => ms

/-- A mark for every compound matrix of a list, and clauses that make the matrices of true marks
true unless a literal of the guard is. -/
def requireMarked : List Matrix → (guard : Clause Subject) → (next : Nat) →
    Clause Subject × List (Clause Subject) × Nat
  | [], _, next => ([], [], next)
  | .literal _ :: ms, guard, next => requireMarked ms guard next
  | m :: ms, guard, next =>
    let (clauses, after) := require m (guard ++ [⟨.mark next, false⟩]) (next + 1)
    let (marks, more, after) := requireMarked ms guard after
    (⟨.mark next, true⟩ :: marks, clauses ++ more, after)
termination_by structural ms => ms

end

/-- A clause with every subject replaced by its place in the table, without repetitions. -/
def numbered (table : List Subject) (c : Clause Subject) : Clause Nat :=
  (c.map fun l => ⟨table.idxOf l.subject, l.positive⟩).eraseDups

/-- A question in clauses: subjects are numbers, and the assumptions are given by theirs. -/
structure Question where
  clauses : List (Clause Nat)
  assumptions : List Nat
  deriving Repr

/-- The clauses of a question, or nothing if it is beyond the solver. -/
def Question.ofTerms (assertions : List Term) (assumptions : List String) : Option Question := do
  let clauses := (requireAll (← matricesOf assertions) [] 0).1
  let facts := assumptions.map fun name => Subject.fact { name, args := [] }
  let table := (facts ++ Clause.subjects clauses).eraseDups
  return { clauses := clauses.map (numbered table), assumptions := facts.map (table.idxOf ·) }

/-! ## Answers -/

namespace Question

/-- The clauses without what is settled by values: clauses with a true literal, and false
literals. -/
def settle (value : Nat → Option Bool) (clauses : List (Clause Nat)) : List (Clause Nat) :=
  (clauses.filter fun c => !c.any fun l => value l.subject == some l.positive).map
    fun c => c.filter fun l => (value l.subject).isNone

/-- The assumptions that no clause affirms. -/
def unaffirmed (q : Question) : List Nat :=
  q.assumptions.filter fun a => !q.clauses.any fun c => c.contains ⟨a, true⟩

/-- The value of a subject when the listed assumptions are made: they are true, and the others are
false if they can be without loss. -/
def valueUnder (made idle : List Nat) (subject : Nat) : Option Bool :=
  if made.contains subject then some true
  else if idle.contains subject then some false
  else none

/-- Decides a question under the assumptions at some places. A search over `n` subjects makes fewer
than `2 ^ n` decisions, so the limit is never met. -/
def isSatisfiable (q : Question) (idle : List Nat) (places : List Nat) : Bool :=
  let made := places.filterMap (q.assumptions[·]?)
  let clauses := settle (valueUnder made idle) q.clauses
  Clause.solve clauses (Nat.pow 2 (Clause.subjects clauses).length) matches .decided true _

/-- Drops every place whose assumption is not needed for the question to be unsatisfiable. -/
def dropUnneeded (q : Question) (idle : List Nat) : (candidates kept : List Nat) → List Nat
  | [], kept => kept
  | i :: rest, kept =>
    let others := kept.filter (· != i)
    if q.isSatisfiable idle others then q.dropUnneeded idle rest kept
    else q.dropUnneeded idle rest others

/-- The answer to a question, with a minimal core. -/
def answer (q : Question) : Answer :=
  let places := List.range q.assumptions.length
  let idle := q.unaffirmed
  if q.isSatisfiable idle places then .sat else .unsat (q.dropUnneeded idle places places)

end Question

/-- The solver for terms without existentials below universals. Its cores are minimal. -/
def finiteSolver : Solver := fun assertions assumptions =>
  match Question.ofTerms assertions assumptions with
  | none => .unknown "(incomplete quantifiers)"
  | some q => q.answer

/-- The second assumption suffices: it implies its own denial. -/
example : finiteSolver [.imp (.predicate "a" []) (.predicate "p" []),
    .imp (.predicate "b" []) (.neg (.predicate "b" []))] ["a", "b"] = .unsat [1] := by
  decide

end Diagnosis.Smt
