import Diagnosis.Atom

/-!
# Literals and clauses

A literal affirms or denies something, and a clause claims that one of its literals is true. What
literals are about is left open: the clauses of a formula are about `Proposition`s, its atoms in
all but misshapen formulas.
-/

namespace Diagnosis

/-- Something affirmed (`positive`) or denied. -/
structure Literal (α : Type) where
  subject : α
  positive : Bool := true
  deriving DecidableEq, Repr, Inhabited

namespace Literal

variable {α : Type}

/-- The literal with the other polarity. -/
def negate (l : Literal α) : Literal α :=
  { l with positive := !l.positive }

/-- The written form of a literal on an atom. -/
def text (l : Literal Atom) : String :=
  if l.positive then l.subject.text else "¬" ++ l.subject.text

/-- Truth of a literal under an assignment. -/
def Holds (truth : α → Bool) (l : Literal α) : Prop :=
  truth l.subject = l.positive

instance (truth : α → Bool) (l : Literal α) : Decidable (l.Holds truth) :=
  inferInstanceAs (Decidable (_ = _))

end Literal

/-- A disjunction of literals, each at its first place only. -/
abbrev Clause (α : Type) := List (Literal α)

namespace Clause

variable {α : Type}

/-- One of the literals is true. The empty clause is false. -/
def Holds (truth : α → Bool) (c : Clause α) : Prop :=
  ∃ l ∈ c, l.Holds truth

instance (truth : α → Bool) (c : Clause α) : Decidable (c.Holds truth) :=
  inferInstanceAs (Decidable (∃ l ∈ c, l.Holds truth))

/-- Some assignment makes all the clauses true. -/
def Satisfiable (clauses : List (Clause α)) : Prop :=
  ∃ truth : α → Bool, ∀ c ∈ clauses, c.Holds truth

end Clause

/-- What a literal of a formula is about: an atom, or all that is not one taken together. -/
inductive Proposition where
  | atom (a : Atom)
  | compound
  deriving DecidableEq, Repr, Inhabited

namespace Proposition

/-- The proposition is an atom. -/
def isAtom : Proposition → Bool
  | atom _ => true
  | compound => false

/-- The written form of a proposition. -/
def text : Proposition → String
  | atom a => a.text
  | compound => "None"

end Proposition

end Diagnosis
