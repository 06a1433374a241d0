import Diagnosis.Proofs.Satisfiability.Search
import Mathlib.Algebra.Ring.Int.Defs
import Mathlib.Algebra.Ring.Nat

/-!
# How many decisions a search needs

A search that has `n` subjects left to branch on counts fewer than `2 ^ n` further decisions: each
decision leaves two searches over the subjects behind it. A limit that allows so many decisions is
therefore never met, and the question is settled (`solve_within`).
-/

namespace Diagnosis.Clause

variable {α : Type} [DecidableEq α] {a : Assignment α} {xs : List α} {cs : List (Clause α)}
  {limit : Int} {branchable : α → Bool} {decisions : Nat}

/-- The search is settled after fewer decisions than the bound. -/
def SearchOutcome.Within (bound : Nat) : SearchOutcome → Prop
  | .decided _ decisions => decisions < bound
  | .exhausted => False

/-- What is within a bound is within a larger one. -/
theorem SearchOutcome.Within.mono {bound larger : Nat} {outcome : SearchOutcome}
    (h : outcome.Within bound) (hle : bound ≤ larger) : outcome.Within larger := by
  cases outcome with
  | decided satisfiable n => exact Nat.lt_of_lt_of_le h hle
  | exhausted => exact h

/-- Propagation needs no decision. -/
theorem descend_within {bound : Nat} (hbound : decisions < bound)
    (h : ∀ a', (explore cs limit branchable xs a' decisions).Within bound) :
    (descend cs limit branchable xs a decisions).Within bound := by
  unfold descend
  split
  case h_1 => exact hbound
  case h_2 a' _ => exact h a'

/-- A search over `n` subjects is settled if the limit allows for `2 ^ n - 1` more decisions, and it
counts no more of them. -/
theorem explore_within (hlimit : (decisions + 2 ^ xs.length : Nat) ≤ limit + 1) :
    (explore cs limit branchable xs a decisions).Within (decisions + 2 ^ xs.length) := by
  induction xs generalizing a decisions with
  | nil => exact Nat.lt_succ_self decisions
  | cons x xs ih =>
      have hpos : 0 < 2 ^ xs.length := Nat.two_pow_pos _
      rw [List.length_cons, Nat.pow_succ] at hlimit ⊢
      cases hvalue : a.value? x with
      | some value =>
          rw [explore, hvalue, Option.isSome_some, if_pos rfl]
          exact (ih (by omega)).mono (by omega)
      | none =>
          cases hx : branchable x with
          | false =>
              rw [explore, hvalue, hx, Option.isSome_none, if_neg Bool.false_ne_true,
                Bool.not_false, if_pos rfl]
              exact Nat.lt_add_of_pos_right (by omega)
          | true =>
              rw [explore_cons hvalue hx, if_neg (by omega)]
              have hfirst : (descend cs limit branchable xs (a.assign x true)
                  (decisions + 1)).Within (decisions + 1 + 2 ^ xs.length) :=
                descend_within (by omega) fun a' ↦ ih (by omega)
              cases hdescend : descend cs limit branchable xs (a.assign x true) (decisions + 1) with
              | exhausted =>
                  rw [hdescend] at hfirst
                  exact hfirst.elim
              | decided satisfiable n =>
                  rw [hdescend] at hfirst
                  have hn : n < decisions + 1 + 2 ^ xs.length := hfirst
                  cases satisfiable with
                  | true => exact hfirst.mono (by omega)
                  | false =>
                      -- The second half starts from the decisions that the first one has counted.
                      have hsecond : (descend cs limit branchable xs (a.assign x false) n).Within
                          (n + 2 ^ xs.length) :=
                        descend_within (by omega) fun a' ↦ ih (by omega)
                      exact hsecond.mono (by omega)

/-- Clauses over `n` subjects are decided if `2 ^ n - 1` decisions are allowed. -/
theorem solve_within (hlimit : (2 : Int) ^ (subjects cs).length - 1 ≤ limit) :
    (solve cs limit branchable).Within (2 ^ (subjects cs).length) := by
  show (descend cs limit branchable (subjects cs) [] 0).Within _
  refine descend_within (Nat.two_pow_pos _) fun a ↦ ?_
  have hwithin : (explore cs limit branchable (subjects cs) a 0).Within
      (0 + 2 ^ (subjects cs).length) :=
    explore_within (by push_cast; omega)
  rwa [Nat.zero_add] at hwithin

end Diagnosis.Clause
