/-!
# Questions about premises

A search for cores asks a solver about sets of premises. Premises are known by their positions in
a list. Some are tracked: cores are drawn from them alone. The others are background and belong
to every question. `Search.ask` counts questions against a budget and cuts the core that comes
with an answer down to the tracked premises asked about.
-/

namespace Diagnosis.Cores

/-- What a solver says of a set of premises. -/
inductive Verdict where
  /-- They can be true together. -/
  | sat
  /-- They cannot; the solver may name positions that cannot already. -/
  | unsat (core : Option (List Nat))
  /-- The solver gave up. -/
  | unknown (reason : String)
  deriving DecidableEq, Repr

/-- A solver for the premises of one list. It is asked about ascending positions, and its answers
may depend on a state of its own. -/
abbrev Oracle (σ : Type) := List Nat → σ → Verdict × σ

/-- The budgets of a search: how many questions it may ask and how many cores it may report. The
first core is reported whatever the second budget. -/
structure Limits where
  checks : Int
  refutations : Int
  deriving DecidableEq, Repr

/-- The premises of a search: their number and, in ascending order, the tracked ones. -/
structure Frame where
  size : Nat
  tracked : List Nat
  deriving DecidableEq, Repr

/-- The background together with the given tracked premises, ascending. -/
def Frame.withBackground (frame : Frame) (members : List Nat) : List Nat :=
  (List.range frame.size).filter fun i => members.contains i || !frame.tracked.contains i

/-- A search: its premises, its budgets and its solver. -/
structure Search (σ : Type) where
  frame : Frame
  limits : Limits
  oracle : Oracle σ

/-- The state of a running search: that of the solver, the questions with their answers, newest
first, and whether every unknown answer so far was without consequence. -/
structure Progress (σ : Type) where
  solver : σ
  log : List (List Nat × Verdict) := []
  complete : Bool := true

/-- What a search learns about a set of tracked premises over the background. -/
inductive Answer where
  | sat
  | unsat (core : List Nat)
  | unknown (reason : String)
  deriving DecidableEq, Repr

/-- The reason for which a question over the budget has no answer. -/
def budgetReason : String := "check budget exhausted"

namespace Search

variable {σ : Type}

/-- The verdict on tracked premises, the core cut down to them. -/
def restrict (members : List Nat) : Verdict → Answer
  | .sat => .sat
  | .unsat none => .unsat members
  | .unsat (some core) => .unsat (members.filter core.contains)
  | .unknown reason => .unknown reason

/-- Asks about tracked premises over the background, if the budget allows one more question. -/
def ask (s : Search σ) (members : List Nat) (p : Progress σ) : Answer × Progress σ :=
  if s.limits.checks ≤ p.log.length then (.unknown budgetReason, p)
  else
    let positions := s.frame.withBackground members
    let (verdict, solver) := s.oracle positions p.solver
    (restrict members verdict, { p with solver, log := (positions, verdict) :: p.log })

end Search

end Diagnosis.Cores
