/-!
# Atoms

An atom applies a predicate name to terms. A term is written as a string: one that starts with a
question mark is a variable, any other one a constant. Names and terms are arbitrary strings here;
which of them are well written is a question of its own.
-/

namespace Diagnosis

/-- A variable starts with a question mark. -/
def isVariable (term : String) : Bool :=
  term.toList.head? == some '?'

/-- An atomic statement: a predicate name with its arguments. -/
structure Atom where
  name : String
  args : List String := []
  deriving DecidableEq, Repr, Inhabited

namespace Atom

/-- The written form: the name, followed by the arguments in parentheses if there are any. -/
def text (a : Atom) : String :=
  if a.args.isEmpty then a.name else a.name ++ "(" ++ ", ".intercalate a.args ++ ")"

/-- The variables among the arguments, left to right. -/
def variableArgs (a : Atom) : List String :=
  a.args.filter isVariable

/-- The atom with every argument replaced by its image. -/
def mapArgs (image : String → String) (a : Atom) : Atom :=
  { a with args := a.args.map image }

end Atom

end Diagnosis
