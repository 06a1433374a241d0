import Diagnosis.Satisfiability.Assignment

/-!
# Unit propagation

A clause whose literals are all false but one forces that literal. `propagate` follows these forced
literals until none is left or a clause is falsified. It sweeps over the clauses, later clauses
seeing what earlier ones forced; every sweep but the last forces at least one literal, so that one
sweep more than there are literals is enough.
-/

namespace Diagnosis.Clause

variable {α : Type} [DecidableEq α]

/-- One sweep over the clauses: nothing if a clause is falsified, else the extended assignment and
whether a literal was forced. -/
def sweep : List (Clause α) → Assignment α → (forced : Bool) → Option (Assignment α × Bool)
  | [], a, forced => some (a, forced)
  | c :: cs, a, forced =>
    match c.inspect a with
    | .falsified => none
    | .unit l => sweep cs (a.assign l.subject l.positive) true
    | .satisfied => sweep cs a forced
    | .undetermined => sweep cs a forced

/-- At most the given number of sweeps, ending with the first that forces nothing. -/
def sweeps (cs : List (Clause α)) : Nat → Assignment α → Option (Assignment α)
  | 0, a => some a
  | n + 1, a =>
    match sweep cs a false with
    | none => none
    | some (a, true) => sweeps cs n a
    | some (a, false) => some a

/-- The number of literals in the clauses. -/
def literalCount (cs : List (Clause α)) : Nat :=
  cs.flatten.length

/-- The assignment extended by all forced literals, or nothing if a clause is falsified. -/
def propagate (cs : List (Clause α)) (a : Assignment α) : Option (Assignment α) :=
  sweeps cs (literalCount cs + 1) a

end Diagnosis.Clause
