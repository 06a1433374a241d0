import Diagnosis.CommandLine.Arguments
import Diagnosis.Engine
import Diagnosis.Version

/-!
# The program

`run` does what the arguments ask for: it shows the version or the problems there are, or it
diagnoses one of them and prints the report.
-/

namespace Diagnosis.CommandLine

/-- Why a run breaks off. It does so when it comes to need a value for which an option was given a
separator. -/
inductive Breakdown where
  /-- There is no name to look the back end up by. -/
  | noBackend
  /-- The first-order back end is asked a question, and there is no time limit for it. -/
  | noTimeLimit
  deriving DecidableEq, Repr

/-- The text of a breakdown. -/
def Breakdown.message : Breakdown → String
  | noBackend => "unhashable type: 'list'"
  | noTimeLimit => "'>' not supported between instances of 'list' and 'int'"

/-- What a run leaves: the exit code, the texts on both streams, and why it broke off if it did. -/
structure Result where
  code : Nat
  output : String := ""
  errors : String := ""
  breakdown : Option Breakdown := none
  deriving DecidableEq, Repr, Inhabited

/-- The result of a run that breaks off after some output. -/
def Result.broken (output : String) (breakdown : Breakdown) : Result where
  code := 1
  output := output
  errors := "error: " ++ breakdown.message ++ "\n"
  breakdown := some breakdown

/-- The name that the program calls itself by in usage errors. -/
def commandName : String := "diagnose.py"

/-- How the program is called. -/
def usage : String :=
  "usage: " ++ commandName ++ " [-h] [--hs [HS ...]] [--backend \x7bz3,dpll\x7d]\n" ++
  "                   [--timeout-ms TIMEOUT_MS] [--list] [--verbose] [--version]\n" ++
  "                   [problem]\n"

/-- The help text. -/
def helpText : String :=
  usage ++ "\n" ++ Version.programName ++ ": " ++ Version.programDescription ++ "\n"

/-- The settings for a back end under a time limit. -/
def settingsFor (backend : String) (limit : TimeLimit) : Settings :=
  let settings := Settings.forBackend backend
  match limit with
  | .milliseconds timeoutMs =>
    { settings with prover := { settings.prover with timeoutMs } }
  | _ => settings

/-- The outcome for a problem, or why it cannot be diagnosed. -/
def outcomeFor (o : Options) (backend : String) (problem : Problem) : Except Error Outcome := do
  let engine ← Engine.ofSettings (settingsFor backend o.timeLimit)
  engine.diagnose problem o.suspects

/-- The first-order back end needs a time limit as soon as it is asked a question. -/
def lacksTimeLimit (o : Options) (backend : String) : Bool :=
  backend == "z3" && o.timeLimit == .blank

/-- Diagnoses the problem that the options name. A problem that is refused is so before the back end
is asked anything. -/
def runDiagnosis (o : Options) : Result :=
  match Circuits.catalogue.get o.problem Circuits.category with
  | .error e => { code := 1, errors := "error: " ++ e.message ++ "\n" }
  | .ok problem =>
    let opening := "Running diagnostics on " ++ o.problem ++ " with HS=" ++
      Text.quotedList (Text.sorted o.suspects) ++ "..\n"
    match o.backend with
    | none => .broken opening .noBackend
    | some backend =>
      match outcomeFor o backend problem with
      | .error e => { code := 2, output := opening, errors := "error: " ++ e.message ++ "\n" }
      | .ok outcome =>
        if lacksTimeLimit o backend then .broken opening .noTimeLimit
        else
          { code := 0, output := opening ++ outcome.report (some o.problem) o.suspects ++ "\n" }

/-- Carries out a request. -/
def carryOut : Request → Result
  | .showHelp => { code := 0, output := helpText }
  | .showVersion =>
    { code := 0, output := Version.programName ++ " " ++ Version.current.text ++ "\n" }
  | .diagnose o =>
    if o.list then
      { code := 0
        output := String.join ((Circuits.catalogue.names Circuits.category).map (· ++ "\n")) }
    else runDiagnosis o

/-- Runs the program on its arguments. -/
def run (arguments : List String) : Result :=
  match readArguments arguments with
  | .ok request => carryOut request
  | .error e =>
    { code := 2, errors := usage ++ commandName ++ ": error: " ++ e.message ++ "\n" }

end Diagnosis.CommandLine
