/-!
# Terms of the solver

The language in which a first-order solver is asked about premises. Individuals are constants
or bound variables, the latter known by the number of quantifiers between the variable and its
own. A predicate without arguments is a boolean constant.

The names in terms are symbols. A name reaches the solver up to its first null character only, so
that two names may be one symbol, and what is left of it may be empty: there is one symbol that has
no text.
-/

namespace Diagnosis.Smt

/-- The symbol for a name: the part before the first null character. -/
def symbol (name : String) : String :=
  String.ofList (name.toList.takeWhile (· != '\x00'))

/-- The text that a symbol is shown by. -/
def symbolText (symbol : String) : String :=
  if symbol.isEmpty then "<null>" else symbol

/-- An individual: a constant, or the variable bound so many quantifiers further out. -/
inductive Individual where
  | constant (name : String)
  | bound (index : Nat)
  deriving DecidableEq, Repr, Inhabited

/-- The two kinds of quantifiers. -/
inductive Quantifier where
  | universal
  | existential
  deriving DecidableEq, Repr, Inhabited

/-- A boolean term. -/
inductive Term where
  | truth (value : Bool)
  | predicate (name : String) (args : List Individual)
  | conj (parts : List Term)
  | disj (parts : List Term)
  | neg (part : Term)
  | imp (left right : Term)
  | equiv (left right : Term)
  /-- A quantifier, with the symbol its variable had. -/
  | quantified (kind : Quantifier) (name : String) (body : Term)
  /-- The constants are pairwise different. -/
  | distinct (names : List String)
  deriving Repr, Inhabited

namespace Term

/-- The term is a quantifier with its body. -/
def isQuantified : Term → Bool
  | quantified _ _ _ => true
  | _ => false

/-- The equivalence of two terms. If one side alone is quantified, it comes first. -/
def equivalence (left right : Term) : Term :=
  if right.isQuantified && !left.isQuantified then equiv right left else equiv left right

end Term

end Diagnosis.Smt
