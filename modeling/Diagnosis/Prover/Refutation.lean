import Diagnosis.Cores.Attempt
import Diagnosis.Formula.Conjuncts
import Diagnosis.Prover.Backend

/-!
# Refutation

A goal is proved by refuting its denial. The conjuncts of the denial are the premises. The caller
may name assumptions: then only premises among them are tracked, and the others are background. A
certificate is the background together with a minimal core; the conjunction of its premises is
unsatisfiable.
-/

namespace Diagnosis

/-- An unsatisfiable set of premises. -/
structure Refutation where
  premises : List Formula
  deriving DecidableEq, Repr

/-- The closed formula of a refutation: its premises together. -/
def Refutation.formula (r : Refutation) : Formula :=
  .conj r.premises

/-- An attempt to prove a goal: the premises refuted, the search they were refuted in. -/
structure Proof where
  premises : List Formula
  frame : Cores.Frame
  attempt : Cores.Attempt
  deriving DecidableEq, Repr

namespace Proof

/-- The positions of the premises of each refutation, ascending. -/
def positions (p : Proof) : List (List Nat) :=
  p.attempt.cores.map p.frame.withBackground

/-- The refutations found, in order of discovery. -/
def refutations (p : Proof) : List Refutation :=
  p.positions.map fun positions =>
    { premises := positions.filterMap fun i => p.premises[i]? }

/-- The first refutation found. -/
def certificate (p : Proof) : Option Refutation :=
  p.refutations.head?

end Proof

namespace Backend

variable {σ : Type}

/-- The positions of the premises that cores are drawn from. -/
def trackedPositions (premises : List Formula) (assumptions : Option (List Formula)) :
    List Nat :=
  match assumptions with
  | none => List.range premises.length
  | some wanted =>
    (List.range premises.length).filter fun i => premises[i]?.any wanted.contains

/-- Refutes premises. With no question to ask, the premises are not even loaded. -/
def refutePremises (backend : Backend σ) (limits : Cores.Limits) (premises : List Formula)
    (assumptions : Option (List Formula)) : Except Fault Proof := do
  let frame : Cores.Frame :=
    { size := premises.length, tracked := trackedPositions premises assumptions }
  let oracle ←
    if limits.checks ≤ 0 then pure (givingUp Cores.budgetReason) else backend.load premises
  let search : Cores.Search σ := { frame, limits, oracle }
  return { premises, frame, attempt := (search.run backend.start).1 }

/-- Tries to prove a goal by refuting its denial. -/
def refute (backend : Backend σ) (limits : Cores.Limits) (goal : Formula)
    (assumptions : Option (List Formula) := none) : Except Fault Proof := do
  let denial ← goal.negate
  backend.refutePremises limits denial.conjuncts assumptions

end Backend

end Diagnosis
