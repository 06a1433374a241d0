import Diagnosis.Atom

/-!
# Formulas

A formula is a tree of nodes with five independent fields. The constructors below fill them in the
way that belongs to each connective, and `WellFormed` says that a tree was built by them alone.
Other trees are formulas too: they have operands that do not fit the connective, or both a
predicate and a connective, or neither. A node with a predicate is an atom.

Truth and falsity are encoded as the conjunction and the disjunction of no formulas.
-/

namespace Diagnosis

/-- The connectives and quantifiers of compound formulas. -/
inductive Connective where
  | and
  | or
  | not
  | implies
  | iff
  | universal
  | existential
  deriving DecidableEq, Repr, Inhabited

namespace Connective

/-- The sign that a connective is written with. -/
def symbol : Connective → String
  | and => "∧"
  | or => "∨"
  | not => "¬"
  | implies => "→"
  | iff => "↔"
  | universal => "∀"
  | existential => "∃"

/-- The word that stands for a connective in messages. -/
def label : Connective → String
  | and => "AND"
  | or => "OR"
  | not => "NOT"
  | implies => "IMPLIES"
  | iff => "IFF"
  | universal => "FORALL"
  | existential => "EXISTS"

/-- All connectives. -/
def all : List Connective :=
  [and, or, not, implies, iff, universal, existential]

/-- The connective that a word stands for. -/
def ofLabel? (word : String) : Option Connective :=
  all.find? (·.label == word)

/-- The two quantifiers. -/
def isQuantifier (c : Connective) : Bool :=
  c == universal || c == existential

end Connective

/-- A node of a formula tree. The binder and the sort are the bound variable of a quantifier and
the domain it ranges over. -/
structure Formula where
  predicate : Option Atom := none
  connective : Option Connective := none
  children : List Formula := []
  binder : Option String := none
  sort : Option String := none
  deriving Repr, Inhabited

namespace Formula

/-- The sort of components, over which quantifiers range unless told otherwise. -/
def componentSort : String := "component"

/-! ## Constructors -/

/-- The atomic formula of an atom. -/
def ofAtom (a : Atom) : Formula :=
  { predicate := some a }

/-- The atomic formula of a predicate name and its arguments. -/
def atom (name : String) (args : List String) : Formula :=
  ofAtom { name, args }

/-- The conjunction of the formulas. -/
def conj (fs : List Formula) : Formula :=
  { connective := some .and, children := fs }

/-- The disjunction of the formulas. -/
def disj (fs : List Formula) : Formula :=
  { connective := some .or, children := fs }

/-- Truth, the conjunction of no formulas. -/
def top : Formula := conj []

/-- Falsity, the disjunction of no formulas. -/
def bottom : Formula := disj []

/-- The negation of the formula. -/
def neg (f : Formula) : Formula :=
  { connective := some .not, children := [f] }

/-- The implication between two formulas. -/
def imp (f g : Formula) : Formula :=
  { connective := some .implies, children := [f, g] }

/-- The equivalence of two formulas. -/
def equiv (f g : Formula) : Formula :=
  { connective := some .iff, children := [f, g] }

/-- The formula for all values of the variable. -/
def univ (x : String) (f : Formula) (sort : String := componentSort) : Formula :=
  { connective := some .universal, children := [f], binder := some x, sort := some sort }

/-- The formula for some value of the variable. -/
def exist (x : String) (f : Formula) (sort : String := componentSort) : Formula :=
  { connective := some .existential, children := [f], binder := some x, sort := some sort }

/-- The tree is built by the constructors alone. -/
inductive WellFormed : Formula → Prop where
  | atom (a : Atom) : WellFormed (ofAtom a)
  | conj {fs : List Formula} (parts : ∀ f ∈ fs, WellFormed f) : WellFormed (conj fs)
  | disj {fs : List Formula} (parts : ∀ f ∈ fs, WellFormed f) : WellFormed (disj fs)
  | neg {f : Formula} (part : WellFormed f) : WellFormed (neg f)
  | imp {f g : Formula} (left : WellFormed f) (right : WellFormed g) : WellFormed (imp f g)
  | equiv {f g : Formula} (left : WellFormed f) (right : WellFormed g) : WellFormed (equiv f g)
  | univ {x : String} {f : Formula} {sort : String} (body : WellFormed f) :
      WellFormed (univ x f sort)
  | exist {x : String} {f : Formula} {sort : String} (body : WellFormed f) :
      WellFormed (exist x f sort)

/-! ## Tests on the top node -/

/-- The node carries a predicate, whatever else it carries. -/
def isAtom (f : Formula) : Bool :=
  f.predicate.isSome

/-- The node's connective is a quantifier. -/
def isQuantifier (f : Formula) : Bool :=
  f.connective.any Connective.isQuantifier

/-- The node is a conjunction of nothing. -/
def isTop (f : Formula) : Bool :=
  f.connective == some .and && f.children.isEmpty

/-- The node is a disjunction of nothing. -/
def isBottom (f : Formula) : Bool :=
  f.connective == some .or && f.children.isEmpty

/-! ## Equality

Two formulas are equal when all five fields are, at every node. -/

mutual

/-- Decides whether two formulas are the same tree. -/
def decEq : (f g : Formula) → Decidable (f = g)
  | ⟨p, c, fs, x, s⟩, ⟨p', c', gs, x', s'⟩ =>
    match decEqAll fs gs with
    | isTrue children =>
      if rest : p = p' ∧ c = c' ∧ x = x' ∧ s = s' then
        isTrue (by
          obtain ⟨rfl, rfl, rfl, rfl⟩ := rest
          rw [children])
      else isFalse (by
        intro same
        cases same
        exact rest ⟨rfl, rfl, rfl, rfl⟩)
    | isFalse children => isFalse (by
        intro same
        cases same
        exact children rfl)
termination_by structural f => f

/-- Decides whether two lists of formulas are the same. -/
def decEqAll : (fs gs : List Formula) → Decidable (fs = gs)
  | [], [] => isTrue rfl
  | [], _ :: _ => isFalse (by simp)
  | _ :: _, [] => isFalse (by simp)
  | f :: fs, g :: gs =>
    match decEq f g with
    | isTrue first =>
      match decEqAll fs gs with
      | isTrue rest => isTrue (by rw [first, rest])
      | isFalse rest => isFalse (by simp [rest])
    | isFalse first => isFalse (by simp [first])
termination_by structural fs => fs

end

instance : DecidableEq Formula := decEq

end Formula

end Diagnosis
