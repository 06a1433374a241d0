import Diagnosis.Formula.Basic

/-!
# The theory of a diagnosis

The theory whose consistency is checked joins the grounded system description, the assumption that
every component outside the hypothesis works normally, and the observations. Nothing is assumed of
the components that the hypothesis suspects.
-/

namespace Diagnosis

/-- The predicate that marks faulty components, unless told otherwise. -/
def abnormalPredicate : String := "ab"

/-- The statement that a component is not faulty. -/
def normality (abnormal component : String) : Formula :=
  .neg (.atom abnormal [component])

/-- The components that are assumed to work, in order. -/
def trusted (components suspects : List String) : List String :=
  components.filter fun component => !suspects.contains component

/-- The normality of every component outside the hypothesis, in order. -/
def normalAssumptions (components suspects : List String) (abnormal : String) : List Formula :=
  (trusted components suspects).map (normality abnormal)

/-- The theory of a grounded description, components under a hypothesis, and observations. -/
def assembleTheory (grounded : List Formula) (components : List String)
    (observations : List Formula) (suspects : List String) (abnormal : String) : Formula :=
  .conj (grounded ++ normalAssumptions components suspects abnormal ++ observations)

end Diagnosis
