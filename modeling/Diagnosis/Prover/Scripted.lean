import Diagnosis.Prover.Backend

/-!
# A back end for known cores

This back end does not look at the premises: it is told which sets of positions are unsatisfiable
and on which of its questions, counted from one, it is to give up. It lets a search run on any
family of cores and with any policy of naming them.
-/

namespace Diagnosis

/-- Which core the back end names when several known ones are asked about. -/
inductive CoreChoice where
  | nothing
  | first
  | last
  | union
  deriving DecidableEq, Repr

/-- What a scripted back end knows. Numbers that are no positions are allowed in cores, which then
lie within no set of positions. -/
structure Script where
  cores : List (List Int) := []
  choice : CoreChoice := .nothing
  unknownAt : List Int := []
  reason : String := ""
  deriving Repr

namespace Script

/-- The known cores that lie within the positions asked about. -/
def hits (script : Script) (positions : List Nat) : List (List Nat) :=
  (script.cores.filter fun core => core.all (positions.map Int.ofNat).contains).map
    fun core => core.map Int.toNat

/-- The core named for some hits. -/
def named (hits : List (List Nat)) : CoreChoice → Option (List Nat)
  | .nothing => none
  | .first => hits.head?
  | .last => hits.getLast?
  | .union => some hits.flatten.eraseDups

/-- The scripted oracle, which counts its questions. -/
def oracle (script : Script) : Cores.Oracle Nat :=
  fun positions asked =>
    let number := asked + 1
    if script.unknownAt.contains (number : Int) then (.unknown script.reason, number)
    else
      let hits := script.hits positions
      if hits.isEmpty then (.sat, number) else (.unsat (named hits script.choice), number)

end Script

/-- The back end that answers as scripted. -/
def Backend.scripted (script : Script) : Backend Nat where
  name := "scripted"
  start := 0
  load _ := .ok script.oracle

end Diagnosis
