import Diagnosis.Proofs.Satisfiability.Search

/-!
# The limit of decisions is a threshold

The limit of a search does not guide it, but only stops it. A search therefore has one answer, which
it finds after one number of decisions under every limit that allows for them, and it is exhausted
under every other limit (`exists_solve_settles`). Only a search that makes decisions is stopped.
-/

namespace Diagnosis.Clause

variable {α : Type} [DecidableEq α] {a : Assignment α} {cs : List (Clause α)}
  {branchable : α → Bool} {xs : List α} {search : Int → SearchOutcome} {satisfiable : Bool}
  {start decisions : Nat}

/-- The search, which starts from some number of decisions, has this answer after so many of them.
It is exhausted if it makes decisions of its own and the limit does not allow for all of them. -/
structure Settles (search : Int → SearchOutcome) (start decisions : Nat) (satisfiable : Bool) :
    Prop where
  start_le : start ≤ decisions
  outcome : ∀ limit : Int, search limit =
    if start < decisions ∧ limit < decisions then .exhausted
    else .decided satisfiable decisions

/-- A search that has come to its end makes no decisions. -/
theorem settles_decided (start : Nat) (satisfiable : Bool) :
    Settles (fun _ ↦ .decided satisfiable start) start start satisfiable :=
  ⟨Nat.le_refl start, fun limit ↦ by simp⟩

/-- Propagation makes no decisions. -/
theorem exists_descend_settles
    (h : ∀ a', ∃ decisions satisfiable,
      Settles (fun limit ↦ explore cs limit branchable xs a' start) start decisions satisfiable) :
    ∃ decisions satisfiable,
      Settles (fun limit ↦ descend cs limit branchable xs a start) start decisions satisfiable := by
  unfold descend
  cases propagate cs a with
  | none => exact ⟨start, false, settles_decided start false⟩
  | some a' => exact h a'

/-- A decision is followed by the search of the first half, where the subject is true. -/
theorem Settles.branch_true {first : Int → SearchOutcome} {second : Nat → Int → SearchOutcome}
    (hfirst : Settles first (start + 1) decisions true) :
    Settles (fun limit ↦ if limit < start + 1 then .exhausted
      else match first limit with
        | .decided false n => second n limit
        | outcome => outcome) start decisions true := by
  have hle := hfirst.start_le
  refine ⟨by omega, fun limit ↦ ?_⟩
  rw [hfirst.outcome limit]
  by_cases hstart : limit < start + 1
  · rw [if_pos hstart, if_pos (by omega)]
  · rw [if_neg hstart]
    by_cases hlimit : limit < decisions
    · rw [if_pos (by omega), if_pos (by omega)]
    · rw [if_neg (by omega), if_neg (by omega)]

/-- If the first half has no model, the second one goes on from the decisions counted there. -/
theorem Settles.branch_false {first : Int → SearchOutcome} {second : Nat → Int → SearchOutcome}
    {counted : Nat} (hfirst : Settles first (start + 1) counted false)
    (hsecond : Settles (second counted) counted decisions satisfiable) :
    Settles (fun limit ↦ if limit < start + 1 then .exhausted
      else match first limit with
        | .decided false n => second n limit
        | outcome => outcome) start decisions satisfiable := by
  have hle := hfirst.start_le
  have hle' := hsecond.start_le
  refine ⟨by omega, fun limit ↦ ?_⟩
  rw [hfirst.outcome limit]
  by_cases hstart : limit < start + 1
  · rw [if_pos hstart, if_pos (by omega)]
  · rw [if_neg hstart]
    by_cases hcounted : limit < counted
    · -- The first half takes a decision more than allowed.
      rw [if_pos (by omega), if_pos (by omega)]
    · rw [if_neg (by omega)]
      simp only
      rw [hsecond.outcome limit]
      by_cases hlimit : limit < decisions
      · rw [if_pos (by omega), if_pos (by omega)]
      · rw [if_neg (by omega), if_neg (by omega)]

/-- The search below an assignment has one answer and one number of decisions. -/
theorem exists_explore_settles (cs : List (Clause α)) (branchable : α → Bool) (xs : List α)
    (a : Assignment α) (start : Nat) :
    ∃ decisions satisfiable,
      Settles (fun limit ↦ explore cs limit branchable xs a start) start decisions satisfiable := by
  induction xs generalizing a start with
  | nil => exact ⟨start, true, settles_decided start true⟩
  | cons x xs ih =>
      cases hvalue : a.value? x with
      | some value =>
          simp only [explore, hvalue, Option.isSome_some, if_true]
          exact ih a start
      | none =>
          cases hx : branchable x with
          | false =>
              simp only [explore, hvalue, hx, Option.isSome_none, Bool.not_false, if_true,
                Bool.false_eq_true, if_false]
              exact ⟨start, true, settles_decided start true⟩
          | true =>
              simp only [explore_cons hvalue hx]
              have hdescend (value : Bool) (counted : Nat) :=
                exists_descend_settles (a := a.assign x value) fun a' ↦ ih a' counted
              obtain ⟨counted, satisfiable, hfirst⟩ := hdescend true (start + 1)
              cases satisfiable with
              | true => exact ⟨counted, true, hfirst.branch_true⟩
              | false =>
                  obtain ⟨decisions, satisfiable, hsecond⟩ := hdescend false counted
                  exact ⟨decisions, satisfiable, hfirst.branch_false hsecond⟩

/-- Clauses have one answer and one number of decisions that it takes, whatever the limit. -/
theorem exists_solve_settles (cs : List (Clause α)) (branchable : α → Bool) :
    ∃ decisions satisfiable,
      Settles (fun limit ↦ solve cs limit branchable) 0 decisions satisfiable :=
  exists_descend_settles fun a ↦ exists_explore_settles cs branchable (subjects cs) a 0

end Diagnosis.Clause
