import Diagnosis.Cores.Query
import Diagnosis.Formula.Basic
import Diagnosis.Problem.Theory

/-!
# Settings

What can be tuned: the back end of the prover and its budgets, and the conventions of diagnosis
problems.
-/

namespace Diagnosis

/-- The settings of a prover. The timeout in milliseconds matters to solvers that watch a clock, of
which this library has none; zero stands for no limit. -/
structure ProverSettings where
  backend : String := "z3"
  timeoutMs : Int := 10000
  maxRefutations : Int := 32
  maxChecks : Int := 512
  maxDecisions : Int := 100000
  deriving DecidableEq, Repr, Inhabited

/-- The budgets of a search for cores. -/
def ProverSettings.limits (s : ProverSettings) : Cores.Limits where
  checks := s.maxChecks
  refutations := s.maxRefutations

/-- The conventions of diagnosis problems. -/
structure ProblemSettings where
  abnormal : String := abnormalPredicate
  componentSort : String := Formula.componentSort
  validateInputs : Bool := true
  deriving DecidableEq, Repr, Inhabited

/-- All settings. -/
structure Settings where
  prover : ProverSettings := {}
  problem : ProblemSettings := {}
  deriving DecidableEq, Repr, Inhabited

/-- The settings for a back end. The propositional one is limited by decisions and not by time. -/
def Settings.forBackend (backend : String) : Settings where
  prover := if backend = "dpll" then { backend, timeoutMs := 0 } else { backend }

end Diagnosis
