import Diagnosis.Formula.Basic

/-!
# Diagnosis problems

A problem describes a system of components by formulas, lists the components that may be faulty,
and states what was observed.
-/

namespace Diagnosis

/-- A system description with the components it is about and the observations made. -/
structure Problem where
  description : List Formula := []
  components : List String := []
  observations : List Formula := []
  deriving DecidableEq, Repr, Inhabited

/-- The problem with statements, components and observations added at the ends. -/
def Problem.extend (problem more : Problem) : Problem where
  description := problem.description ++ more.description
  components := problem.components ++ more.components
  observations := problem.observations ++ more.observations

end Diagnosis
