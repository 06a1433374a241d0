import Diagnosis.Proofs.Prover.Loading
import Diagnosis.Proofs.Satisfiability.Thresholds

/-!
# The propositional back end decides validity

A goal is valid if no assignment makes its denial true. The propositional back end refutes a ground
goal exactly if it is valid and finds out otherwise if it is not, unless it gives up: no question is
allowed, or the search on the clauses of the denial makes more decisions than allowed. The premises
that are tracked have no part in this, and the order of the literals only in the number of decisions
(`propositional_decides_validity`).
-/

namespace Diagnosis.Backend

variable {premises : List Formula} {table : List (List (Clause Proposition))} {maxDecisions : Int}
  {goal denial : Formula} {limits : Cores.Limits}

/-! ## The question about all premises -/

/-- The clauses of all premises are those of the first, of the second, and so on. -/
theorem clausesAt_range (table : List (List (Clause Proposition))) :
    clausesAt table (List.range table.length) = table.flatten := by
  have htable : (List.range table.length).map (fun i ↦ table.getD i []) = table := by
    refine List.ext_getElem (by simp) fun i hi hi' ↦ ?_
    simp [List.getD_eq_getElem?_getD, hi']
  rw [clausesAt, List.flatMap_def, htable]

/-- The search on the clauses of premises settles after so many decisions, if the limit allows for
them. -/
def SettledAfter (table : List (List (Clause Proposition))) (decisions : Nat) : Prop :=
  ∃ satisfiable, ∀ limit : Int, decisions ≤ limit →
    Clause.solve table.flatten limit Proposition.isAtom = .decided satisfiable decisions

/-- Some number of decisions settles the question about all premises. It is left open exactly if
decisions are made, and more of them than allowed. -/
theorem exists_settledAfter (h : List.Forall₂ Formula.ClausesOf premises table)
    (maxDecisions : Int) :
    ∃ decisions, SettledAfter table decisions ∧
      ((clauseOracle maxDecisions table (List.range premises.length) ()).1.status = .unknown ↔
        0 < decisions ∧ maxDecisions < decisions) := by
  obtain ⟨decisions, satisfiable, hsettles⟩ :=
    Clause.exists_solve_settles table.flatten Proposition.isAtom
  refine ⟨decisions, ⟨satisfiable, fun limit hlimit ↦ ?_⟩, ?_⟩
  · rw [hsettles.outcome limit, if_neg (by omega)]
  · rw [clauseOracle, h.length_eq, clausesAt_range, hsettles.outcome maxDecisions]
    split
    case isTrue hexhausted => simpa [searchVerdict, Cores.Verdict.status] using hexhausted
    case isFalse hsettled =>
      cases satisfiable <;> simpa [searchVerdict, Cores.Verdict.status] using hsettled

/-- What a sound oracle says of all premises together is right. -/
theorem satisfiableIn_of_sound {W : Type*} {models : W → Formula → Prop} {σ : Type}
    {oracle : Cores.Oracle σ}
    (hsound : oracle.Sound (premiseHolds models premises) premises.length) (state : σ) :
    ((oracle (List.range premises.length) state).1.status = .notProved →
        SatisfiableIn models premises) ∧
      ((oracle (List.range premises.length) state).1.status = .proved →
        ¬ SatisfiableIn models premises) := by
  have hright := (hsound _ state (List.Sublist.refl _)).of_status
  rwa [consistent_premiseHolds_iff, filterMap_range_getElem?] at hright

/-! ## Validity -/

/-- The conjuncts of the denial are satisfiable if some assignment makes the goal false. -/
theorem satisfiableIn_denial_iff (hdenial : denial.WellFormed)
    (hnegates : ∀ truth : Atom → Prop, denial.HoldsIn [] truth ↔ ¬ goal.HoldsIn [] truth) :
    SatisfiableIn trueUnder denial.conjuncts ↔ ∃ truth : Atom → Prop, ¬ goal.HoldsIn [] truth := by
  refine exists_congr fun truth ↦ ?_
  rw [Formula.forall_conjuncts (trueUnder truth) (fun fs ↦ Formula.holds_conj fs) hdenial]
  exact hnegates truth

/-- With the propositional back end, every ground goal, all budgets and every order of the literals:
refuting the denial of the goal yields an attempt whose status does not depend on what is tracked. A
proved goal is true under every assignment, one that is not proved is false under some assignment.
The status is unknown exactly if no question is allowed or if the search on the clauses of the
denial, which is settled after some number of decisions, makes any and more of them than allowed. -/
theorem propositional_decides_validity (maxDecisions : Int) (order : LiteralOrder)
    (limits : Cores.Limits) (hgoal : goal.Ground) :
    ∃ denial table decisions status,
      goal.negate = .ok denial ∧ premiseClauses denial.conjuncts = .ok (.ok table) ∧
      SettledAfter (order.arrangeAll table) decisions ∧
      (∀ assumptions, ∃ proof,
        (propositional maxDecisions order).refute limits goal assumptions = .ok proof ∧
          proof.attempt.status = status) ∧
      (status = .proved → ∀ truth : Atom → Prop, goal.HoldsIn [] truth) ∧
      (status = .notProved → ∃ truth : Atom → Prop, ¬ goal.HoldsIn [] truth) ∧
      (status = .unknown ↔
        limits.checks ≤ 0 ∨ 0 < decisions ∧ maxDecisions < decisions) := by
  obtain ⟨denial, hdenial, hground, hnegates⟩ := hgoal.exists_negate
  have hpremises := hground.conjuncts
  obtain ⟨table, htable⟩ := exists_premiseClauses fun f hf ↦ (hpremises f hf).propositional
  have hclauses := clausesOf_arrangeAll order (clausesOf_premiseClauses hpremises htable)
  have hload := propositional_load_of_clauses maxDecisions order
    (fun f hf ↦ (hpremises f hf).closed) htable
  obtain ⟨decisions, hsettled, hunknown⟩ := exists_settledAfter hclauses maxDecisions
  obtain ⟨hsat, hunsat⟩ := satisfiableIn_of_sound (clauseOracle_sound hclauses) ()
  rw [satisfiableIn_denial_iff hground.wellFormed hnegates] at hsat hunsat
  refine ⟨denial, table, decisions, if limits.checks ≤ 0 then .unknown
    else (clauseOracle maxDecisions (order.arrangeAll table)
      (List.range denial.conjuncts.length) ()).1.status,
    hdenial, htable, hsettled, fun assumptions ↦ ?_, ?_⟩
  · obtain ⟨asked, hasked, _, hrefute⟩ := refute_of_load limits assumptions hdenial hload
    refine ⟨_, hrefute, ?_⟩
    rw [status_searchProof]
    split
    case isTrue => rfl
    case isFalse hchecks => rw [hasked (Int.not_le.mp hchecks)]
  · split
    case isTrue hchecks => simp [hchecks]
    case isFalse hchecks =>
      refine ⟨fun hproved ↦ ?_, hsat, by rw [hunknown, or_iff_right hchecks]⟩
      simpa using hunsat hproved

/-- A goal whose denial takes a decision to refute: any of the four combinations would do. -/
def crossedGoal : Formula :=
  let p : Formula := .atom "p" []
  let q : Formula := .atom "q" []
  .neg (.conj [.disj [p, q], .disj [p, .neg q], .disj [.neg p, q], .disj [.neg p, .neg q]])

/-- The goal is ground. -/
theorem crossedGoal_ground : crossedGoal.Ground := by
  have hp : (Formula.atom "p" []).WellFormed := .atom _
  have hq : (Formula.atom "q" []).WellFormed := .atom _
  refine ⟨.neg (.conj ?_), by decide, by decide⟩
  simp only [List.forall_mem_cons, List.not_mem_nil, false_implies, implies_true, and_true]
  exact ⟨.disj (by simp [hp, hq]), .disj (by simp [hp, hq.neg]), .disj (by simp [hp.neg, hq]),
    .disj (by simp [hp.neg, hq.neg])⟩

/-- One decision is enough to prove the goal, whatever is tracked and with the literals in either
order, and without any the back end gives up. -/
theorem crossedGoal_decided :
    let refute (maxDecisions : Int) (order : LiteralOrder) (assumptions : Option (List Formula)) :=
      (propositional maxDecisions order).refute { checks := 1, refutations := 1 } crossedGoal
        assumptions
    crossedGoal.Ground ∧ (∀ truth : Atom → Prop, crossedGoal.HoldsIn [] truth) ∧
      ∀ order ∈ [.collected, backwards], ∀ assumptions,
        (∃ proof, refute 1 order assumptions = .ok proof ∧ proof.attempt.status = .proved) ∧
        ∃ proof, refute 0 order assumptions = .ok proof ∧ proof.attempt.status = .unknown := by
  intro refute
  have hground := crossedGoal_ground
  -- What is tracked has no part in the status, which a run without assumptions tells.
  have hstatus (maxDecisions : Int) (order : LiteralOrder) {status : Cores.Status}
      (hrun : (refute maxDecisions order none).map (·.attempt.status) = .ok status) :
      (∀ assumptions, ∃ proof, refute maxDecisions order assumptions = .ok proof ∧
        proof.attempt.status = status) ∧
      (status = .proved → ∀ truth : Atom → Prop, crossedGoal.HoldsIn [] truth) := by
    obtain ⟨_, _, _, status', _, _, _, hrefute, hvalid, _⟩ :=
      propositional_decides_validity maxDecisions order { checks := 1, refutations := 1 } hground
    obtain ⟨proof, hproof, rfl⟩ := hrefute none
    rw [show refute maxDecisions order none = .ok proof from hproof] at hrun
    cases hrun
    exact ⟨hrefute, hvalid⟩
  obtain ⟨hproved, hvalid⟩ := hstatus 1 .collected rfl
  refine ⟨hground, hvalid rfl, ?_⟩
  simp only [List.forall_mem_cons]
  refine ⟨fun assumptions ↦ ⟨hproved assumptions, ?_⟩, fun assumptions ↦ ⟨?_, ?_⟩, by simp⟩
  · exact (hstatus 0 .collected rfl).1 assumptions
  · exact (hstatus 1 backwards rfl).1 assumptions
  · exact (hstatus 0 backwards rfl).1 assumptions

/-- The search for a counterexample may begin with p, which leaves nothing else to decide, or with
q, which leaves p. -/
example :
    let p : Formula := .atom "p" []
    let q : Formula := .atom "q" []
    let status (order : LiteralOrder) :=
      ((propositional 1 order).refute { checks := 1, refutations := 1 }
        (.neg (.conj [.disj [p, q], .imp p q]))).map (·.attempt.status)
    (status .collected, status backwards) = (.ok .notProved, .ok .unknown) :=
  rfl

end Diagnosis.Backend
