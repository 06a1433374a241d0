import Diagnosis.Clause.Basic

/-!
# Partial assignments

A partial assignment gives truth values to some subjects. `inspect` says what it makes of a clause:
one of the literals may be true, all may be false, or all but one may be false and that one open.
-/

namespace Diagnosis

variable {α : Type} [DecidableEq α]

/-- Truth values for some subjects; an earlier entry hides later ones of its subject. -/
abbrev Assignment (α : Type) := List (α × Bool)

namespace Assignment

/-- The value of a subject, if it has one. -/
def value? (a : Assignment α) (subject : α) : Option Bool :=
  a.lookup subject

/-- The assignment with one more value. -/
def assign (a : Assignment α) (subject : α) (value : Bool) : Assignment α :=
  (subject, value) :: a

/-- The literal is true. -/
def makesTrue (a : Assignment α) (l : Literal α) : Bool :=
  a.value? l.subject == some l.positive

/-- The literal is neither true nor false. -/
def leavesOpen (a : Assignment α) (l : Literal α) : Bool :=
  (a.value? l.subject).isNone

/-- A total assignment agrees with every value given. -/
def Extends (truth : α → Bool) (a : Assignment α) : Prop :=
  ∀ subject value, a.value? subject = some value → truth subject = value

end Assignment

/-- What a partial assignment makes of a clause. -/
inductive ClauseStanding (α : Type) where
  /-- A literal is true. -/
  | satisfied
  /-- All literals are false. -/
  | falsified
  /-- All literals are false but this one, which is open. -/
  | unit (l : Literal α)
  /-- No literal is true and several are open. -/
  | undetermined
  deriving DecidableEq, Repr

/-- The standing of a clause under an assignment. -/
def Clause.inspect (a : Assignment α) (c : Clause α) : ClauseStanding α :=
  if c.any a.makesTrue then .satisfied
  else match c.filter a.leavesOpen with
    | [] => .falsified
    | [l] => .unit l
    | _ => .undetermined

end Diagnosis
