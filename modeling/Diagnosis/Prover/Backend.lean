import Diagnosis.Cores.Query
import Diagnosis.Formula.Printer
import Diagnosis.Formula.Variables
import Diagnosis.Text.Order
import Diagnosis.Text.Quoted

/-!
# Back ends

A back end decides whether premises can be true together. It loads the premises of a proof once,
which may fail on misshapen ones, and is an oracle for sets of their positions from then on. A back
end that cannot deal with the premises loads them as an oracle that knows no answer.
-/

namespace Diagnosis

/-- A way of deciding premises, with the state it starts from. -/
structure Backend (σ : Type) where
  name : String
  start : σ
  load : List Formula → Except Fault (Cores.Oracle σ)

namespace Backend

variable {σ : Type}

/-- The oracle that gives up on every question, for one reason. -/
def givingUp (reason : String) : Cores.Oracle σ :=
  fun _ state => (.unknown reason, state)

/-- The verdict on all of the premises together. -/
def decide (backend : Backend σ) (premises : List Formula) : Except Fault Cores.Verdict := do
  let oracle ← backend.load premises
  return (oracle (List.range premises.length) backend.start).1

/-- Why the premises are not all closed: the text for the first that has free variables. An open
premise has no fixed truth value. -/
def openPremise (name : String) : List Formula → Except Fault (Option String)
  | [] => .ok none
  | f :: fs =>
    if f.isClosed then openPremise name fs
    else do
      return some ("open premise not supported by " ++ name ++ " backend: " ++ (← f.render) ++
        " (free: " ++ Text.quotedList (Text.sortedDistinct f.freeVariables) ++ ")")

/-- The back end that gives up on every question, for one reason. -/
def idle (reason : String) : Backend Unit where
  name := "gives_up"
  start := ()
  load _ := .ok (givingUp reason)

end Backend

end Diagnosis
