import Diagnosis.Formula.Basic

/-!
# Substitution

`substitute` replaces terms by terms, all at once. Every argument that is a key is replaced, be it
a variable or a constant, except where a quantifier binds it. A bound variable that equals a new
term captures it: terms are not renamed.
-/

namespace Diagnosis

/-- Terms with their replacements. The key `none` stands for the variable of a quantifier that
names none; it replaces no term. -/
abbrev Substitution := List (Option String × String)

namespace Substitution

/-- The replacement of a term, or the term itself. -/
def image (theta : Substitution) (term : String) : String :=
  (theta.lookup (some term)).getD term

/-- The substitution without the entries of a bound variable. -/
def without (theta : Substitution) (binder : Option String) : Substitution :=
  theta.filter fun entry => entry.1 != binder

end Substitution

/-- The atom with every argument replaced. -/
def Atom.substitute (theta : Substitution) (a : Atom) : Atom :=
  a.mapArgs theta.image

namespace Formula

mutual

/-- The formula with the free occurrences of the keys replaced. Without entries every node stays
as it is; otherwise an atom keeps nothing besides its predicate. -/
def substitute : Formula → Substitution → Formula
  | ⟨p, c, fs, x, s⟩, theta =>
    if theta.isEmpty then ⟨p, c, fs, x, s⟩
    else match p with
      | some a => ofAtom (a.substitute theta)
      | none =>
        let inner := if c.any Connective.isQuantifier then theta.without x else theta
        ⟨none, c, substituteAll fs inner, x, s⟩
termination_by structural f => f

/-- Substitution in each formula of a list. -/
def substituteAll : List Formula → Substitution → List Formula
  | [], _ => []
  | f :: fs, theta => f.substitute theta :: substituteAll fs theta
termination_by structural fs => fs

end

/-- Substitution in a list is substitution in its members. -/
@[simp] theorem substituteAll_eq_map (fs : List Formula) (theta : Substitution) :
    substituteAll fs theta = fs.map (·.substitute theta) := by
  induction fs with
  | nil => rfl
  | cons f fs ih => simp [substituteAll, ih]

example : (conj [atom "p" ["?x", "?y"], univ "?x" (atom "q" ["?x"])]).substitute
    [(some "?x", "?y"), (some "?y", "?x")] =
      conj [atom "p" ["?y", "?x"], univ "?x" (atom "q" ["?x"])] := by
  decide

end Formula

end Diagnosis
