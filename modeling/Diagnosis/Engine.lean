import Diagnosis.Catalogue
import Diagnosis.Outcome
import Diagnosis.Problem.Circuits
import Diagnosis.Problem.Grounding
import Diagnosis.Problem.Validation
import Diagnosis.Prover.Propositional
import Diagnosis.Settings
import Diagnosis.Smt.Backend

/-!
# Diagnosis

`diagnose` computes the conflicts of a problem under a hypothesis, that is, under a list of
suspected components. The description is grounded over the components, joined with the normality
of the others and with the observations, and the theory is refuted over the normality assumptions.
Each refutation is a minimal conflict. A consistent theory and a prover that gives up are outcomes
like any other; an invalid or unsupported problem is an error.

An `Engine` is a prover chosen for good together with settings that may change between diagnoses.
-/

namespace Diagnosis

/-- The conflicts with what is no component taken out, each once. -/
def restrictConflicts (components : List String) (conflicts : List Conflict) : List Conflict :=
  (conflicts.map (Conflict.restrict components)).eraseDups

/-- The outcome that a proof of inconsistency amounts to. -/
def outcomeOfProof (settings : ProblemSettings) (components : List String) (p : Proof) :
    Except Error Outcome :=
  match p.attempt.status with
  | .notProved => .ok { status := .consistent, checks := p.attempt.checks }
  | .unknown =>
    .ok { status := .inconclusive, reason := p.attempt.reason, checks := p.attempt.checks
          complete := false }
  | .proved => do
    let conflicts ← mineConflicts settings.abnormal p.refutations
    return { status := .conflict, conflicts := restrictConflicts components conflicts
             checks := p.attempt.checks, complete := p.attempt.complete }

/-- Computes the conflicts of a problem under a hypothesis with the given back end. -/
def diagnose {σ : Type} (backend : Backend σ) (limits : Cores.Limits)
    (settings : ProblemSettings) (problem : Problem) (suspects : List String) :
    Except Error Outcome := do
  if settings.validateInputs then problem.assertValid suspects
  let grounded ←
    Formula.ground problem.description problem.components settings.componentSort
  let theory :=
    assembleTheory grounded problem.components problem.observations suspects settings.abnormal
  let assumptions := normalAssumptions problem.components suspects settings.abnormal
  let proof ← liftFault (backend.refute limits (.neg theory) (some assumptions))
  outcomeOfProof settings problem.components proof

/-- The provers that an engine may use. -/
inductive ProverKind where
  /-- The propositional prover. -/
  | propositional
  /-- The first-order prover. -/
  | firstOrder
  /-- The prover that gives up on every question. -/
  | idle (reason : String)
  deriving DecidableEq, Repr, Inhabited

namespace ProverKind

/-- The category of provers. -/
def category : String := "prover"

/-- The provers by name. -/
def catalogue : Catalogue ProverKind :=
  .ofEntries category [("dpll", propositional), ("z3", firstOrder)]

/-- The prover that settings name. -/
def select (settings : ProverSettings) : Except Error ProverKind :=
  catalogue.get settings.backend category

/-- The back end of a prover under the settings. -/
def backend (kind : ProverKind) (settings : ProverSettings) : Backend Unit :=
  match kind with
  | propositional => .propositional settings.maxDecisions
  | firstOrder => .firstOrder
  | idle reason => .idle reason

end ProverKind

/-- A prover with the settings it runs under. -/
structure Engine where
  prover : ProverKind
  settings : Settings
  deriving DecidableEq, Repr, Inhabited

namespace Engine

/-- The engine for settings, with the prover they name. -/
def ofSettings (settings : Settings) : Except Error Engine := do
  return { prover := ← ProverKind.select settings.prover, settings }

/-- The conflicts of a problem under a hypothesis. -/
def diagnose (e : Engine) (problem : Problem) (suspects : List String) : Except Error Outcome :=
  Diagnosis.diagnose (e.prover.backend e.settings.prover) e.settings.prover.limits
    e.settings.problem problem suspects

/-- The components blamed for a problem, if a conflict was found. -/
def blame? (e : Engine) (problem : Problem) (suspects : List String) :
    Except Error (Option Conflict) := do
  return (← e.diagnose problem suspects).blamed?

end Engine

end Diagnosis
