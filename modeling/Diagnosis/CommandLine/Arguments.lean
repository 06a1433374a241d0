import Diagnosis.Text.Identifier
import Diagnosis.Text.Integer
import Diagnosis.Text.Quoted

/-!
# Command-line arguments

The arguments of the program name at most one problem and any options. An option may be shortened
as long as it stays unambiguous, a value may be joined to it by an equals sign, and options of one
letter may be written together. After `--` everything is a word. `readArguments` reads all
arguments as tokens first, so an ambiguous option is reported before anything else; then it goes
through the tokens in order and stops at the first that settles what to do.
-/

namespace Diagnosis.CommandLine

/-- The options of the program. -/
inductive Switch where
  | help
  | suspects
  | backend
  | timeout
  | list
  | verbose
  | version
  deriving DecidableEq, Repr, Inhabited

/-- How many values an option takes. -/
inductive Arity where
  | none
  | one
  | any
  deriving DecidableEq, Repr, Inhabited

namespace Switch

/-- The number of values of an option. -/
def arity : Switch → Arity
  | suspects => .any
  | backend | timeout => .one
  | help | list | verbose | version => .none

/-- The spellings of options, in the order in which they are compared. -/
def spellings : List (String × Switch) :=
  [("-h", help), ("--help", help), ("--hs", suspects), ("--backend", backend),
   ("--timeout-ms", timeout), ("--list", list), ("--verbose", verbose), ("-v", verbose),
   ("--version", version)]

/-- The option of a full spelling. -/
def ofSpelling? (text : String) : Option Switch :=
  spellings.lookup text

/-- The name of an option in messages: all of its spellings. -/
def name (s : Switch) : String :=
  "/".intercalate ((spellings.filter (·.2 == s)).map Prod.fst)

end Switch

/-- The time limit that the program is given. -/
inductive TimeLimit where
  /-- None was given, and the settings decide. -/
  | unset
  /-- The option was given a separator in the place of its value. -/
  | blank
  | milliseconds (n : Int)
  deriving DecidableEq, Repr, Inhabited

/-- What the program is told to do. There is no back end if its option was given a separator in the
place of a name. -/
structure Options where
  problem : String := "problem1"
  suspects : List String := []
  backend : Option String := some "z3"
  timeLimit : TimeLimit := .unset
  list : Bool := false
  verbose : Bool := false
  deriving DecidableEq, Repr, Inhabited

/-- The back ends that may be chosen. -/
def backendChoices : List String := ["z3", "dpll"]

/-- Why arguments cannot be read. -/
inductive UsageError where
  | ambiguous (text : String) (candidates : List String)
  | missingValue (switch : Switch)
  | unwantedValue (switch : Switch) (value : String)
  | notAnInteger (switch : Switch) (value : String)
  | notAChoice (switch : Switch) (value : String) (choices : List String)
  | unrecognized (texts : List String)
  deriving DecidableEq, Repr

namespace UsageError

/-- A message about an option. -/
def about (s : Switch) (text : String) : String :=
  "argument " ++ s.name ++ ": " ++ text

/-- The text of a usage error. -/
def message : UsageError → String
  | ambiguous text candidates =>
    "ambiguous option: " ++ text ++ " could match " ++ ", ".intercalate candidates
  | missingValue s => about s "expected one argument"
  | unwantedValue s value => about s ("ignored explicit argument " ++ Text.quoted value)
  | notAnInteger s value => about s ("invalid int value: " ++ Text.quoted value)
  | notAChoice s value choices =>
    about s ("invalid choice: " ++ Text.quoted value ++ " (choose from " ++
      ", ".intercalate (choices.map Text.quoted) ++ ")")
  | unrecognized texts => "unrecognized arguments: " ++ " ".intercalate texts

end UsageError

/-! ## Tokens -/

/-- How an argument reads. -/
inductive Token where
  /-- A word: the problem, or a value of an option. -/
  | word (text : String)
  /-- An option, spelled with one hyphen if `short`, with the value joined to it. -/
  | option (switch : Switch) (short : Bool) (joined : Option String)
  /-- An option that the program does not know. -/
  | unknown (text : String)
  /-- The sign after which everything is a word. -/
  | separator
  deriving DecidableEq, Repr, Inhabited

/-- The part before the first equals sign and, if there is one, the part after it. -/
def splitAtEquals (text : List Char) : List Char × Option (List Char) :=
  match text.dropWhile (· != '=') with
  | [] => (text, none)
  | _ :: value => (text.takeWhile (· != '='), some value)

/-- A negative number, which is a word and not an option: a hyphen and digits, perhaps with a
point among them or before them. -/
def isNegativeNumber (text : List Char) : Bool :=
  match Text.dropLineFeed text with
  | '-' :: rest =>
    let fraction := rest.dropWhile Text.isDecimalDigit
    (fraction.isEmpty && !rest.isEmpty) ||
      (match fraction with
        | '.' :: digits => !digits.isEmpty && digits.all Text.isDecimalDigit
        | _ => false)
  | _ => false

/-- The spellings that a text may be short for, with the value joined to it. A text with one hyphen
starts with an option of one letter and goes on with its value. -/
def candidates (text : List Char) : List (String × Switch × Option String) :=
  match text with
  | '-' :: '-' :: _ =>
    let (start, value) := splitAtEquals text
    (Switch.spellings.filter fun (spelling, _) => start.isPrefixOf spelling.toList).map
      fun (spelling, switch) => (spelling, switch, value.map String.ofList)
  | '-' :: letter :: value =>
    (Switch.spellings.filter fun (spelling, _) => spelling.toList == ['-', letter]).map
      fun (spelling, switch) => (spelling, switch, some (String.ofList value))
  | _ => []

/-- The spelling has one hyphen. -/
def isShort (spelling : List Char) : Bool :=
  match spelling with
  | '-' :: '-' :: _ => false
  | _ => true

/-- Reads one argument before any separator. -/
def readToken (text : String) : Except UsageError Token :=
  match text.toList with
  | '-' :: letter :: rest =>
    let chars := '-' :: letter :: rest
    match Switch.ofSpelling? text with
    | some switch => .ok (.option switch (isShort chars) none)
    | none =>
      let (start, value) := splitAtEquals chars
      match value, Switch.ofSpelling? (String.ofList start) with
      | some value, some switch =>
        .ok (.option switch (isShort chars) (some (String.ofList value)))
      | _, _ =>
        match candidates chars with
        | [(spelling, switch, value)] => .ok (.option switch (isShort spelling.toList) value)
        | [] =>
          if isNegativeNumber chars || chars.contains ' ' then .ok (.word text)
          else .ok (.unknown text)
        | several => .error (.ambiguous text (several.map Prod.fst))
  | _ => .ok (.word text)

/-- Reads all arguments as tokens. -/
def readTokens : List String → Except UsageError (List Token)
  | [] => .ok []
  | text :: rest =>
    if text = "--" then .ok (.separator :: rest.map .word)
    else do
      let token ← readToken text
      return token :: (← readTokens rest)

/-! ## Requests -/

/-- What the arguments ask for. -/
inductive Request where
  | diagnose (options : Options)
  | showHelp
  | showVersion
  deriving DecidableEq, Repr, Inhabited

/-- What has been read so far. -/
structure Reading where
  options : Options := {}
  /-- The problem has been named. -/
  named : Bool := false
  /-- The last word was the problem. -/
  justNamed : Bool := false
  /-- What belongs to nothing. -/
  extras : List String := []
  deriving DecidableEq, Repr, Inhabited

/-- The request that an option amounts to by itself, if it is one, or the options with it set. The
values are those that belong to it. A separator joined to the option is no value, so that an option
which takes one value may come to have none. -/
def applySwitch (switch : Switch) (values : List String) (options : Options) :
    Except UsageError (Request ⊕ Options) :=
  let values := values.erase "--"
  match switch, values with
  | .help, _ => .ok (.inl .showHelp)
  | .version, _ => .ok (.inl .showVersion)
  | .list, _ => .ok (.inr { options with list := true })
  | .verbose, _ => .ok (.inr { options with verbose := true })
  | .suspects, names => .ok (.inr { options with suspects := names })
  | .backend, name :: _ =>
    if backendChoices.contains name then .ok (.inr { options with backend := some name })
    else .error (.notAChoice .backend name backendChoices)
  | .timeout, text :: _ =>
    match Text.readInteger? text with
    | some value => .ok (.inr { options with timeLimit := .milliseconds value })
    | none => .error (.notAnInteger .timeout text)
  | .backend, [] => .ok (.inr { options with backend := none })
  | .timeout, [] => .ok (.inr { options with timeLimit := .blank })

/-- The options of one letter that are written together after a first one. -/
def letterSwitches (first : Switch) : List Char → Except UsageError (List Switch)
  | [] => .ok []
  | letter :: rest =>
    match Switch.ofSpelling? (String.ofList ['-', letter]) with
    | some switch => do return switch :: (← letterSwitches switch rest)
    | none => .error (.unwantedValue first (String.ofList (letter :: rest)))

/-- Applies options that take no value, in order. -/
def applySwitches : List Switch → Options → Except UsageError (Request ⊕ Options)
  | [], options => .ok (.inr options)
  | switch :: rest, options => do
    match ← applySwitch switch [] options with
    | .inl request => return .inl request
    | .inr options => applySwitches rest options

/-- Applies an option with the value joined to it. -/
def applyJoined (switch : Switch) (short : Bool) (value : String) (options : Options) :
    Except UsageError (Request ⊕ Options) :=
  match switch.arity with
  | .none =>
    if short && !value.isEmpty then do
      applySwitches (switch :: (← letterSwitches switch value.toList)) options
    else .error (.unwantedValue switch value)
  | _ => applySwitch switch [value] options

/-- Takes a word: the first is the problem, any other belongs to nothing. -/
def Reading.takeWord (r : Reading) (text : String) : Reading :=
  if r.named then { r with justNamed := false, extras := r.extras ++ [text] }
  else { r with options := { r.options with problem := text }, named := true, justNamed := true }

/-- Takes a separator. It belongs to the problem next to it; without one it belongs to nothing. -/
def Reading.takeSeparator (r : Reading) : Reading :=
  if r.named && !r.justNamed then { r with extras := r.extras ++ ["--"] }
  else { r with justNamed := false }

/-- The words at the start of the tokens, as far as values may go. -/
def leadingWords : List Token → List String
  | .word text :: rest => text :: leadingWords rest
  | _ => []

/-- Goes through the tokens. The first `skip` of them are values of the option before them. -/
def interpret : (skip : Nat) → List Token → Reading → Except UsageError Request
  | _, [], r =>
    if r.extras.isEmpty then .ok (.diagnose r.options) else .error (.unrecognized r.extras)
  | skip + 1, _ :: rest, r => interpret skip rest r
  | 0, .word text :: rest, r => interpret 0 rest (r.takeWord text)
  | 0, .unknown text :: rest, r =>
    interpret 0 rest { r with justNamed := false, extras := r.extras ++ [text] }
  | 0, .separator :: rest, r => interpret 0 rest r.takeSeparator
  | 0, .option switch short (some value) :: rest, r => do
    match ← applyJoined switch short value r.options with
    | .inl request => return request
    | .inr options => interpret 0 rest { r with options, justNamed := false }
  | 0, .option switch _ none :: rest, r => do
    let words := leadingWords rest
    let values ←
      match switch.arity, words with
      | .none, _ => pure []
      | .one, [] => .error (.missingValue switch)
      | .one, value :: _ => pure [value]
      | .any, words => pure words
    match ← applySwitch switch values r.options with
    | .inl request => return request
    | .inr options => interpret values.length rest { r with options, justNamed := false }

/-- What the arguments ask for. -/
def readArguments (arguments : List String) : Except UsageError Request := do
  interpret 0 (← readTokens arguments) {}

end Diagnosis.CommandLine
