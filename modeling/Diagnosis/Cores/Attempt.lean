import Diagnosis.Cores.HittingTree

/-!
# Attempts

A search first asks about all premises. If they are satisfiable nothing is proved, and if the
solver gives up nothing is known. Otherwise the first core is shrunk and the hitting-set tree
finds the others. The attempt is complete when no budget and no unknown answer cut it short.
-/

namespace Diagnosis.Cores

/-- The outcome of an attempt to refute premises. -/
inductive Status where
  /-- The premises are unsatisfiable. -/
  | proved
  /-- The premises are satisfiable. -/
  | notProved
  /-- The solver gave up. -/
  | unknown
  deriving DecidableEq, Repr, Inhabited

/-- The text of an outcome. -/
def Status.text : Status → String
  | proved => "proved"
  | notProved => "not_proved"
  | unknown => "unknown"

/-- What a search has to tell. The cores hold tracked premises only and come, like the paths that
closed as satisfiable, in order of discovery; the questions come in the order asked. -/
structure Attempt where
  status : Status
  cores : List (List Nat) := []
  closed : List Path := []
  reason : String := ""
  complete : Bool := true
  questions : List (List Nat × Verdict)
  deriving DecidableEq, Repr

/-- The number of questions asked. -/
def Attempt.checks (a : Attempt) : Nat :=
  a.questions.length

namespace Search

variable {σ : Type}

/-- Runs the search and gives the attempt with the last state of the solver. -/
def run (s : Search σ) (start : σ) : Attempt × σ :=
  match s.ask s.frame.tracked { solver := start } with
  | (.sat, p) => ({ status := .notProved, questions := p.log.reverse }, p.solver)
  | (.unknown reason, p) =>
    ({ status := .unknown, reason, complete := false, questions := p.log.reverse }, p.solver)
  | (.unsat core, p) =>
    let (first, p) := s.shrink core p
    let (finished, tree) := s.walk { cores := [first], progress := p }
    ({ status := .proved
       cores := tree.cores
       closed := tree.closed
       complete := tree.progress.complete && finished
       questions := tree.progress.log.reverse }, tree.progress.solver)

end Search

/-- Premises 0 and 1 exclude each other, and so do 1 and 2. -/
example :
    let oracle : Oracle Unit := fun positions _ =>
      (if positions.contains 1 && (positions.contains 0 || positions.contains 2)
        then .unsat none else .sat, ())
    let search : Search Unit :=
      { frame := { size := 3, tracked := [0, 1, 2] }
        limits := { checks := 100, refutations := 10 }
        oracle }
    (search.run ()).1.cores = [[1, 2], [0, 1]] := by
  decide

end Diagnosis.Cores
