/-!
# Identifiers

The words that may name a predicate, a variable or a constant. Each of the three readers accepts
one line feed after the word and nothing else besides it.
-/

namespace Diagnosis.Text

/-- A letter or an underscore. -/
def startsName (c : Char) : Bool :=
  c.isAlpha || c == '_'

/-- A letter, a digit or an underscore. -/
def continuesName (c : Char) : Bool :=
  c.isAlphanum || c == '_'

/-- What a constant may go on with: a letter, a digit, an underscore, a dot or a hyphen. -/
def continuesConstant (c : Char) : Bool :=
  continuesName c || c == '.' || c == '-'

/-- The text without one line feed at its end. -/
def dropLineFeed (text : List Char) : List Char :=
  if text.getLast? = some '\n' then text.dropLast else text

/-- A word of a name: a letter or an underscore, then letters, digits and underscores. -/
def isNameWord : List Char → Bool
  | [] => false
  | c :: rest => startsName c && rest.all continuesName

/-- A word of a constant: it may start with a digit and go on with dots and hyphens. -/
def isConstantWord : List Char → Bool
  | [] => false
  | c :: rest => continuesName c && rest.all continuesConstant

/-- A word of a variable: a question mark and a name. -/
def isVariableWord : List Char → Bool
  | '?' :: rest => isNameWord rest
  | _ => false

/-- Reads as the name of a predicate. -/
def isName (text : String) : Bool :=
  isNameWord (dropLineFeed text.toList)

/-- Reads as a variable. -/
def isVariableName (text : String) : Bool :=
  isVariableWord (dropLineFeed text.toList)

/-- Reads as a constant. -/
def isConstantName (text : String) : Bool :=
  isConstantWord (dropLineFeed text.toList)

example : isName "in1\n" = true ∧ isName "in1\n\n" = false := by decide +kernel

end Diagnosis.Text
