import Diagnosis.Formula.Basic

/-!
# Truth of formulas

A structure interprets predicate names as relations on the members of a domain; an environment
gives every term, constant or variable, a value. `Holds` is the truth of a formula in them, its
quantifiers ranging over the given part of the domain. The ground reading `HoldsIn` takes terms
for themselves and says of each atom whether it is true.

Of a node that does not fit its connective, `Holds` takes what is there: a negation denies its
first operand, and a node that no clause covers is false.
-/

namespace Diagnosis

/-- The relations that interpret predicate names, by the values of the arguments. -/
abbrev Structure (D : Type) := String → List D → Prop

/-- The values of terms. -/
abbrev Environment (D : Type) := String → D

/-- The environment with another value for one term. -/
def Environment.update {D : Type} (env : Environment D) (x : String) (d : D) : Environment D :=
  fun y => if y = x then d else env y

namespace Formula

mutual

/-- Truth of a formula in a structure and an environment. -/
def Holds {D : Type} (range : D → Prop) (M : Structure D) :
    Formula → Environment D → Prop
  | ⟨some a, _, _, _, _⟩, env => M a.name (a.args.map env)
  | ⟨none, some .and, fs, _, _⟩, env => HoldsAll range M fs env
  | ⟨none, some .or, fs, _, _⟩, env => HoldsAny range M fs env
  | ⟨none, some .not, f :: _, _, _⟩, env => ¬ f.Holds range M env
  | ⟨none, some .implies, [f, g], _, _⟩, env => f.Holds range M env → g.Holds range M env
  | ⟨none, some .iff, [f, g], _, _⟩, env => f.Holds range M env ↔ g.Holds range M env
  | ⟨none, some .universal, f :: _, some x, _⟩, env =>
    ∀ d, range d → f.Holds range M (env.update x d)
  | ⟨none, some .existential, f :: _, some x, _⟩, env =>
    ∃ d, range d ∧ f.Holds range M (env.update x d)
  | _, _ => False
termination_by structural f => f

/-- All formulas of a list hold. -/
def HoldsAll {D : Type} (range : D → Prop) (M : Structure D) :
    List Formula → Environment D → Prop
  | [], _ => True
  | f :: fs, env => f.Holds range M env ∧ HoldsAll range M fs env
termination_by structural fs => fs

/-- Some formula of a list holds. -/
def HoldsAny {D : Type} (range : D → Prop) (M : Structure D) :
    List Formula → Environment D → Prop
  | [], _ => False
  | f :: fs, env => f.Holds range M env ∨ HoldsAny range M fs env
termination_by structural fs => fs

end

/-- A list holds as a conjunction if every member does. -/
@[simp] theorem holdsAll_iff {D : Type} (range : D → Prop) (M : Structure D) (fs : List Formula)
    (env : Environment D) : HoldsAll range M fs env ↔ ∀ f ∈ fs, f.Holds range M env := by
  induction fs with
  | nil => simp [HoldsAll]
  | cons f fs ih => simp [HoldsAll, ih]

/-- A list holds as a disjunction if some member does. -/
@[simp] theorem holdsAny_iff {D : Type} (range : D → Prop) (M : Structure D) (fs : List Formula)
    (env : Environment D) : HoldsAny range M fs env ↔ ∃ f ∈ fs, f.Holds range M env := by
  induction fs with
  | nil => simp [HoldsAny]
  | cons f fs ih => simp [HoldsAny, ih]

/-- Truth under an assignment to atoms, the quantifiers ranging over the listed constants. -/
def HoldsIn (constants : List String) (truth : Atom → Prop) (f : Formula) : Prop :=
  f.Holds (· ∈ constants) (fun name args => truth { name, args }) id

/-- Some assignment to atoms makes all the formulas true. -/
def Satisfiable (fs : List Formula) : Prop :=
  ∃ truth : Atom → Prop, ∀ f ∈ fs, f.HoldsIn [] truth

end Formula

end Diagnosis
