import Diagnosis.Satisfiability.Propagation

/-!
# Satisfiability search

`solve` decides whether clauses can be true together. It propagates, picks the first open subject
in clause order, tries it as true and then as false, and counts a decision for every subject it
branches on. The search is exhausted when it would count more decisions than the limit allows,
which a search without any branching never does.

A caller may name the subjects that can be branched on. Any other subject gets a value by
propagation or none at all: when the search comes to one that is open, it ends there and takes the
clauses for satisfiable. If all subjects can be branched on, a clause list is taken for satisfiable
only when it is.

Subjects only become assigned along a branch, so the next subject to branch on is found by going
on in the list of subjects from the last one.
-/

namespace Diagnosis.Clause

variable {α : Type} [DecidableEq α]

/-- The end of a search. -/
inductive SearchOutcome where
  /-- The question is settled after this many decisions. -/
  | decided (satisfiable : Bool) (decisions : Nat)
  /-- The search asked for more decisions than allowed. -/
  | exhausted
  deriving DecidableEq, Repr

/-- The subjects of the clauses in the order of their first places. -/
def subjects (cs : List (Clause α)) : List α :=
  (cs.flatMap fun c => c.map Literal.subject).eraseDups

/-- Searches below an assignment that is closed under propagation, branching on the listed
subjects that are open, up to the first of them that is not `branchable`. -/
def explore (cs : List (Clause α)) (limit : Int) (branchable : α → Bool) :
    List α → Assignment α → (decisions : Nat) → SearchOutcome
  | [], _, decisions => .decided true decisions
  | x :: xs, a, decisions =>
    if (a.value? x).isSome then explore cs limit branchable xs a decisions
    else if !branchable x then .decided true decisions
    else if limit < decisions + 1 then .exhausted
    else
      let descend (value : Bool) (decisions : Nat) : SearchOutcome :=
        match propagate cs (a.assign x value) with
        | none => .decided false decisions
        | some a => explore cs limit branchable xs a decisions
      match descend true (decisions + 1) with
      | .decided false decisions => descend false decisions
      | outcome => outcome

/-- Decides the satisfiability of clauses with at most `limit` decisions. -/
def solve (cs : List (Clause α)) (limit : Int) (branchable : α → Bool := fun _ => true) :
    SearchOutcome :=
  match propagate cs [] with
  | none => .decided false 0
  | some a => explore cs limit branchable (subjects cs) a 0

example : solve [[⟨0, true⟩, ⟨1, true⟩], [⟨0, false⟩], [⟨1, false⟩, ⟨2, true⟩]] 0 =
    .decided true 0 := by
  decide

example : solve [[⟨0, true⟩, ⟨1, true⟩], [⟨0, true⟩, ⟨1, false⟩], [⟨0, false⟩, ⟨1, true⟩],
    [⟨0, false⟩, ⟨1, false⟩]] 1 = .decided false 1 := by
  decide

example : solve [[⟨0, false⟩, ⟨1, true⟩], [⟨2, true⟩, ⟨3, true⟩]] 0 (· != 0) =
    .decided true 0 := by
  decide

end Diagnosis.Clause
