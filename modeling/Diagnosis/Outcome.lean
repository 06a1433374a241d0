import Diagnosis.Problem.Conflicts

/-!
# Outcomes of a diagnosis

A diagnosis finds conflicts, or finds the theory consistent, or gives up. `Outcome.report` writes
the outcome out for a reader.
-/

namespace Diagnosis

/-- How a diagnosis ends. -/
inductive OutcomeStatus where
  | consistent
  | conflict
  | inconclusive
  deriving DecidableEq, Repr, Inhabited

namespace OutcomeStatus

/-- The word for a status. -/
def text : OutcomeStatus → String
  | consistent => "consistent"
  | conflict => "conflict"
  | inconclusive => "inconclusive"

/-- The status that a word stands for. -/
def ofText? (word : String) : Option OutcomeStatus :=
  [consistent, conflict, inconclusive].find? (·.text == word)

end OutcomeStatus

/-- The outcome of a diagnosis, with the conflicts in order of discovery. -/
structure Outcome where
  status : OutcomeStatus
  conflicts : List Conflict := []
  reason : String := ""
  checks : Int := 0
  complete : Bool := true
  deriving DecidableEq, Repr, Inhabited

namespace Outcome

/-- The components of all conflicts. -/
def components (o : Outcome) : Conflict :=
  Conflict.union o.conflicts

/-- A conflict was found. -/
def hasConflict (o : Outcome) : Bool :=
  o.status == .conflict

/-- The components of all conflicts, if a conflict was found. -/
def blamed? (o : Outcome) : Option Conflict :=
  if o.hasConflict then some o.components else none

/-- The first of two texts that is not empty. -/
def firstNonempty (text fallback : String) : String :=
  if text.isEmpty then fallback else text

/-- The outcome in one line. -/
def summary (o : Outcome) : String :=
  match o.status with
  | .conflict =>
    let count := o.conflicts.length
    "DiagnosisResult(conflict: " ++ toString count ++ " minimal conflict" ++
      (if count = 1 then "" else "s") ++ ", components \x7b" ++
      firstNonempty (", ".intercalate o.components) "∅" ++ "\x7d)"
  | .inconclusive =>
    "DiagnosisResult(inconclusive: " ++ firstNonempty o.reason "no reason given" ++ ")"
  | .consistent => "DiagnosisResult(consistent)"

/-- Names in braces, in ascending order and repetitions kept. -/
def namesText (names : List String) : String :=
  "\x7b" ++ ", ".intercalate (Text.sorted names) ++ "\x7d"

/-- The headline of a report. -/
def title (status : OutcomeStatus) : String :=
  match status with
  | .conflict => "CONFLICT FOUND — observations contradict normal behaviour"
  | .inconclusive => "INCONCLUSIVE — prover gave up before deciding"
  | .consistent => "NO CONFLICT — observations consistent with hypothesis"

/-- The part of a report that depends on the status. -/
def details (o : Outcome) : List String :=
  match o.status with
  | .conflict =>
    ["── Minimal Conflicts ─────────────────────────────────────"] ++
      (o.conflicts.zipIdx 1).map (fun (conflict, number) =>
        "  " ++ toString number ++ ". " ++ namesText conflict) ++
      ["  Union: " ++ namesText o.components] ++
      (if o.complete then [] else ["  (enumeration truncated by prover budget)"]) ++ [""]
  | .inconclusive => ["Reason: " ++ firstNonempty o.reason "unknown", ""]
  | .consistent => []

/-- A full report on the diagnosis of a problem under a hypothesis. -/
def report (o : Outcome) (problem : Option String) (suspects : List String) : String :=
  let rule := String.ofList (List.replicate 60 '=')
  let name := problem.getD ""
  "\n".intercalate <|
    [rule, "  " ++ title o.status, rule, ""] ++
    (if name.isEmpty then [] else ["Problem:    " ++ name]) ++
    ["Hypothesis: " ++ namesText suspects, ""] ++ o.details ++
    ["── " ++ o.summary ++ " [" ++ toString o.checks ++ " check(s)]", rule]

end Outcome

end Diagnosis
