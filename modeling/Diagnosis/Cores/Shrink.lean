import Diagnosis.Cores.Query

/-!
# Shrinking a core

A core is made minimal by dropping its members one at a time, in ascending order, and keeping a
drop whenever the rest is still unsatisfiable. A member that is needed in a core is needed in every
unsatisfiable part of it, so none has to be tried twice, also when the solver answers with a much
smaller core.
-/

namespace Diagnosis.Cores.Search

variable {σ : Type}

/-- Tries to drop each candidate from the members, where it still is one. An unknown answer keeps
the candidate and leaves the search incomplete. -/
def dropEach (s : Search σ) : (candidates members : List Nat) → Progress σ →
    List Nat × Progress σ
  | [], members, p => (members, p)
  | i :: rest, members, p =>
    if members.contains i then
      match s.ask (members.filter (· != i)) p with
      | (.unsat core, p) => s.dropEach rest core p
      | (.sat, p) => s.dropEach rest members p
      | (.unknown _, p) => s.dropEach rest members { p with complete := false }
    else s.dropEach rest members p

/-- A minimal core within an ascending one. -/
def shrink (s : Search σ) (core : List Nat) (p : Progress σ) : List Nat × Progress σ :=
  s.dropEach core core p

end Diagnosis.Cores.Search
