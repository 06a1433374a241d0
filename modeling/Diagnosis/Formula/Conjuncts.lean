import Diagnosis.Distinct
import Diagnosis.Fault
import Diagnosis.Formula.Basic

/-!
# Negation and conjuncts

`negate` denies a formula without stacking two negations, and `conjuncts` takes nested
conjunctions apart. Both look at the connective of the top node, also where the node is an atom.

The conjuncts are found with a stack. They are the leaves below the conjunctions at the top of the
tree, `conjunctLeaves`, each at its first place only.
-/

namespace Diagnosis.Formula

/-- The denial of a formula: a negation loses its sign, any other formula gains one. -/
def negate (f : Formula) : Except Fault Formula :=
  if f.connective = some .not then
    match f.children with
    | [] => .error .missingOperand
    | g :: _ => .ok g
  else .ok (neg f)

mutual

/-- The nodes below the conjunctions at the top of the tree, left to right. -/
def conjunctLeaves : Formula → List Formula
  | ⟨p, c, fs, x, s⟩ =>
    if c = some .and then conjunctLeavesAll fs else [⟨p, c, fs, x, s⟩]
termination_by structural f => f

/-- The conjunct leaves of each formula of a list. -/
def conjunctLeavesAll : List Formula → List Formula
  | [] => []
  | f :: fs => f.conjunctLeaves ++ conjunctLeavesAll fs
termination_by structural fs => fs

end

/-- The leaves of a list are those of its members. -/
@[simp] theorem conjunctLeavesAll_eq_flatMap (fs : List Formula) :
    conjunctLeavesAll fs = fs.flatMap conjunctLeaves := by
  induction fs with
  | nil => rfl
  | cons f fs ih => simp [conjunctLeavesAll, ih]

mutual

/-- The number of nodes of a formula. -/
def nodeCount : Formula → Nat
  | ⟨_, _, fs, _, _⟩ => nodeCountAll fs + 1
termination_by structural f => f

/-- The number of nodes of the formulas of a list. -/
def nodeCountAll : List Formula → Nat
  | [] => 0
  | f :: fs => f.nodeCount + nodeCountAll fs
termination_by structural fs => fs

end

/-- A formula has one node more than its operands. -/
theorem nodeCount_eq (f : Formula) : f.nodeCount = nodeCountAll f.children + 1 := by
  cases f
  rfl

/-- The nodes of a list are those of its parts. -/
theorem nodeCountAll_append (fs gs : List Formula) :
    nodeCountAll (fs ++ gs) = nodeCountAll fs + nodeCountAll gs := by
  induction fs with
  | nil => simp [nodeCountAll]
  | cons f fs ih => simp [nodeCountAll, ih, Nat.add_assoc]

/-- Takes one formula after the other off a stack: a conjunction leaves its operands there, the
first one on top, and anything else is entered among what was found. Every turn takes at least one
node off the stack. -/
@[semireducible] def split : (stack found : List Formula) → List Formula
  | [], found => found
  | f :: stack, found =>
    if f.connective = some .and then split (f.children ++ stack) found
    else split stack (enter f found)
termination_by stack => nodeCountAll stack
decreasing_by
  · rw [nodeCountAll_append, nodeCountAll, nodeCount_eq]
    omega
  · rw [nodeCountAll, nodeCount_eq]
    omega

/-- The conjuncts of a formula, each at its first place only. -/
def conjuncts (f : Formula) : List Formula :=
  split [f] []

example : (conj [conj [atom "p" [], top], atom "q" [], atom "p" []]).conjuncts =
    [atom "p" [], atom "q" []] := by
  decide

end Diagnosis.Formula
