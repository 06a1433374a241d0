import Diagnosis.Clause.Basic
import Diagnosis.Error
import Diagnosis.Formula.Printer
import Diagnosis.Formula.Variables

/-!
# Clausal normal form

A quantifier-free formula is brought into clauses in five steps: equivalences become pairs of
implications, implications become disjunctions, negations move down to the atoms, disjunctions
are distributed over conjunctions, and the literals are collected. No step names a subformula, so
the clauses are equivalent to the formula; truth contributes no clause and falsity the empty one.

The steps are defined on all trees. The first two keep of a compound node only its connective and
its operands. Distribution takes every node that is neither a literal nor a conjunction for a
disjunction. The last step looks at the connective before the atom, so the operands of an atom
node that is marked as a conjunction are collected as they stand.
-/

namespace Diagnosis.Formula

/-! ## Equivalences and implications -/

mutual

/-- The formula with every equivalence replaced by the implications in both directions. -/
def eliminateEquivalences : Formula → Except Fault Formula
  | ⟨some a, c, fs, x, s⟩ => .ok ⟨some a, c, fs, x, s⟩
  | ⟨none, c, fs, _, _⟩ => do
    let gs ← eliminateEquivalencesAll fs
    if c = some .iff then
      match gs with
      | [g, h] => return conj [imp g h, imp h g]
      | _ => .error (.operandCount gs.length)
    else return { connective := c, children := gs }
termination_by structural f => f

/-- Elimination of equivalences in each formula of a list. -/
def eliminateEquivalencesAll : List Formula → Except Fault (List Formula)
  | [] => .ok []
  | f :: fs => do
    let g ← f.eliminateEquivalences
    return g :: (← eliminateEquivalencesAll fs)
termination_by structural fs => fs

end

mutual

/-- The formula with every implication replaced by a disjunction. -/
def eliminateImplications : Formula → Except Fault Formula
  | ⟨some a, c, fs, x, s⟩ => .ok ⟨some a, c, fs, x, s⟩
  | ⟨none, c, fs, _, _⟩ => do
    let gs ← eliminateImplicationsAll fs
    if c = some .implies then
      match gs with
      | [g, h] => return disj [neg g, h]
      | _ => .error (.operandCount gs.length)
    else return { connective := c, children := gs }
termination_by structural f => f

/-- Elimination of implications in each formula of a list. -/
def eliminateImplicationsAll : List Formula → Except Fault (List Formula)
  | [] => .ok []
  | f :: fs => do
    let g ← f.eliminateImplications
    return g :: (← eliminateImplicationsAll fs)
termination_by structural fs => fs

end

/-! ## Negations -/

/-- The connective of a node that a negation has passed: a conjunction becomes a disjunction, and
everything else a conjunction. -/
def dualConnective (negated : Bool) (c : Option Connective) : Option Connective :=
  if negated then (if c = some .and then some .or else some .and) else c

mutual

/-- The formula, denied if `negated`, with negations on atoms only. -/
def pushNegations : Formula → (negated : Bool) → Except Fault Formula
  | ⟨some a, c, fs, x, s⟩, negated =>
    .ok (if negated then neg ⟨some a, c, fs, x, s⟩ else ⟨some a, c, fs, x, s⟩)
  | ⟨none, some .not, [], _, _⟩, _ => .error .missingOperand
  | ⟨none, some .not, f :: _, _, _⟩, negated => f.pushNegations (!negated)
  | ⟨none, c, fs, _, _⟩, negated => do
    return { connective := dualConnective negated c, children := ← pushNegationsAll fs negated }
termination_by structural f => f

/-- Pushing negations in each formula of a list. -/
def pushNegationsAll : List Formula → (negated : Bool) → Except Fault (List Formula)
  | [], _ => .ok []
  | f :: fs, negated => do
    let g ← f.pushNegations negated
    return g :: (← pushNegationsAll fs negated)
termination_by structural fs => fs

end

/-! ## Distribution -/

mutual

/-- The disjunction of two formulas, distributed over the conjunctions at the top of the first. -/
def joinLeft (g : Formula) : Formula → Formula
  | ⟨p, c, fs, x, s⟩ =>
    if c = some .and then conj (joinLeftAll g fs) else disj [⟨p, c, fs, x, s⟩, g]
termination_by structural f => f

/-- The disjunction of each formula of a list with a last one. -/
def joinLeftAll (g : Formula) : List Formula → List Formula
  | [] => []
  | f :: fs => joinLeft g f :: joinLeftAll g fs
termination_by structural fs => fs

end

/-- Joining a list with a last formula joins its members. -/
@[simp] theorem joinLeftAll_eq_map (g : Formula) (fs : List Formula) :
    joinLeftAll g fs = fs.map (joinLeft g) := by
  induction fs with
  | nil => rfl
  | cons f fs ih => simp [joinLeftAll, ih]

mutual

/-- The disjunction of two formulas, distributed over the conjunctions at the top of both; those
of the second one come out on top. -/
def join (f : Formula) : Formula → Formula
  | ⟨p, c, gs, x, s⟩ =>
    if c = some .and then conj (joinAll f gs) else joinLeft ⟨p, c, gs, x, s⟩ f
termination_by structural g => g

/-- The disjunction of a formula with each formula of a list. -/
def joinAll (f : Formula) : List Formula → List Formula
  | [] => []
  | g :: gs => join f g :: joinAll f gs
termination_by structural gs => gs

end

/-- Joining a formula with a list joins it with its members. -/
@[simp] theorem joinAll_eq_map (f : Formula) (gs : List Formula) :
    joinAll f gs = gs.map (join f) := by
  induction gs with
  | nil => rfl
  | cons g gs ih => simp [joinAll, ih]

/-- An atom, or a negation whose first operand is one. -/
def isLiteral (f : Formula) : Bool :=
  f.isAtom || (f.connective == some .not && f.children.head?.any isAtom)

mutual

/-- The formula with no conjunction below a disjunction. -/
def distribute : Formula → Formula
  | ⟨p, c, fs, x, s⟩ =>
    if isLiteral ⟨p, c, fs, x, s⟩ then ⟨p, c, fs, x, s⟩
    else if c = some .and then conj (distributeAll fs)
    else match distributeAll fs with
      | [] => ⟨p, c, fs, x, s⟩
      | g :: gs => gs.foldl join g
termination_by structural f => f

/-- Distribution in each formula of a list. -/
def distributeAll : List Formula → List Formula
  | [] => []
  | f :: fs => f.distribute :: distributeAll fs
termination_by structural fs => fs

end

/-- Distribution in a list is distribution in its members. -/
@[simp] theorem distributeAll_eq_map (fs : List Formula) :
    distributeAll fs = fs.map distribute := by
  induction fs with
  | nil => rfl
  | cons f fs ih => simp [distributeAll, ih]

/-! ## Collection -/

/-- What a literal on the formula is about. -/
def proposition (f : Formula) : Proposition :=
  f.predicate.elim .compound .atom

mutual

/-- The literals below the disjunctions of a formula. -/
def literals : Formula → Except Fault (List (Literal Proposition))
  | ⟨some a, _, _, _, _⟩ => .ok [{ subject := .atom a }]
  | ⟨none, some .not, [], _, _⟩ => .error .missingOperand
  | ⟨none, some .not, f :: _, _, _⟩ => .ok [{ subject := f.proposition, positive := false }]
  | ⟨none, _, fs, _, _⟩ => literalsAll fs
termination_by structural f => f

/-- The literals of each formula of a list. -/
def literalsAll : List Formula → Except Fault (List (Literal Proposition))
  | [] => .ok []
  | f :: fs => do
    let ls ← f.literals
    return ls ++ (← literalsAll fs)
termination_by structural fs => fs

end

mutual

/-- The clauses below the conjunctions of a formula. -/
def collectClauses : Formula → Except Fault (List (Clause Proposition))
  | ⟨p, c, fs, x, s⟩ =>
    if c = some .and then collectClausesAll fs
    else do
      let ls ← literals ⟨p, c, fs, x, s⟩
      return [ls.eraseDups]
termination_by structural f => f

/-- The clauses of each formula of a list. -/
def collectClausesAll : List Formula → Except Fault (List (Clause Proposition))
  | [] => .ok []
  | f :: fs => do
    let cs ← f.collectClauses
    return cs ++ (← collectClausesAll fs)
termination_by structural fs => fs

end

/-- The clauses of a formula, its quantifiers taken as the steps take them. -/
def clauses (f : Formula) : Except Fault (List (Clause Proposition)) := do
  let f ← f.eliminateEquivalences
  let f ← f.eliminateImplications
  let f ← f.pushNegations false
  f.distribute.collectClauses

/-- The clauses of a quantifier-free formula. -/
def toClauses (f : Formula) : Except Error (List (Clause Proposition)) := do
  if f.containsQuantifier then
    .error (.quantifiedClauses (← liftFault f.render))
  else liftFault f.clauses

example : (equiv (atom "p" []) top).clauses =
    .ok [[{ subject := .atom { name := "p" } }]] := by rfl

end Diagnosis.Formula
