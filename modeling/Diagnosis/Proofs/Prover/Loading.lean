import Diagnosis.Proofs.Formula.Written
import Diagnosis.Proofs.Prover.Propositional

/-!
# Back ends load well-formed premises

Loading fails at a premise whose text cannot be written or that has no clauses. Well-formed premises
are therefore loaded without a fault, by the propositional back end for one
(`propositional_loads`): those that are beyond it are loaded as an oracle that gives up. A
refutation of a theory that can be loaded is a search with the oracle loaded, and the first verdict
settles its status (`refute_neg`, `status_searchProof`).
-/

namespace Diagnosis.Backend

variable {σ : Type} {backend : Backend σ} {limits : Cores.Limits} {premises : List Formula}
  {maxDecisions : Int} {name : String}

/-- Premises of a kind are loaded without a fault. -/
def Loads (backend : Backend σ) (fits : Formula → Prop) : Prop :=
  ∀ premises, (∀ f ∈ premises, fits f) → ∃ oracle, backend.load premises = .ok oracle

/-! ## Open premises -/

/-- No premise is reported as open if all are closed. -/
theorem openPremise_of_closed (hclosed : ∀ f ∈ premises, f.isClosed = true) :
    openPremise name premises = .ok none := by
  induction premises with
  | nil => rfl
  | cons f fs ih =>
      obtain ⟨hf, hfs⟩ := List.forall_mem_cons.mp hclosed
      rw [openPremise, if_pos hf, ih hfs]

/-- Well-formed premises are all closed, or a text says which one is open. -/
theorem openPremise_cases (name : String) (hpremises : ∀ f ∈ premises, f.WellFormed) :
    (openPremise name premises = .ok none ∧ ∀ f ∈ premises, f.isClosed = true) ∨
      ∃ reason, openPremise name premises = .ok (some reason) := by
  induction premises with
  | nil => exact .inl ⟨rfl, by simp⟩
  | cons f fs ih =>
      obtain ⟨hf, hfs⟩ := List.forall_mem_cons.mp hpremises
      rw [openPremise]
      split
      case isTrue hclosed =>
        exact (ih hfs).imp_left fun ⟨hnone, hall⟩ ↦
          ⟨hnone, List.forall_mem_cons.mpr ⟨hclosed, hall⟩⟩
      case isFalse =>
        obtain ⟨text, htext⟩ := hf.render
        exact .inr ⟨_, bind_eq_ok_iff.mpr ⟨text, htext, rfl⟩⟩

/-! ## The propositional back end -/

/-- Premises without quantifiers have clauses. -/
theorem exists_premiseClauses (hpremises : ∀ f ∈ premises, f.Propositional Formula.anyConnective) :
    ∃ table, premiseClauses premises = .ok (.ok table) := by
  induction premises with
  | nil => exact ⟨[], rfl⟩
  | cons f fs ih =>
      obtain ⟨hf, hfs⟩ := List.forall_mem_cons.mp hpremises
      obtain ⟨cs, hcs, _⟩ := hf.clauses
      obtain ⟨table, htable⟩ := ih hfs
      rw [premiseClauses, hf.plain, hcs, htable]
      exact ⟨cs :: table, rfl⟩

/-- Where a well-formed premise has a quantifier, a text says which one. -/
theorem premiseClauses_of_quantified (hpremises : ∀ f ∈ premises, f.WellFormed)
    (hquantified : ∃ f ∈ premises, f.containsQuantifier = true) :
    ∃ reason, premiseClauses premises = .ok (.error reason) := by
  induction premises with
  | nil => simp at hquantified
  | cons f fs ih =>
      obtain ⟨hf, hfs⟩ := List.forall_mem_cons.mp hpremises
      rw [premiseClauses]
      cases hf' : f.containsQuantifier with
      | true =>
          obtain ⟨text, htext⟩ := hf.render
          rw [htext]
          exact ⟨_, rfl⟩
      | false =>
          have hrest : ∃ g ∈ fs, g.containsQuantifier = true := by
            obtain ⟨g, hg, hquantifier⟩ := hquantified
            rcases List.mem_cons.mp hg with rfl | hg
            · cases hf'.symm.trans hquantifier
            · exact ⟨g, hg, hquantifier⟩
          obtain ⟨cs, hcs, _⟩ := (hf.propositional hf').clauses
          obtain ⟨reason, hreason⟩ := ih hfs hrest
          rw [hcs, hreason]
          exact ⟨reason, rfl⟩

/-- Closed premises with clauses are loaded as the oracle for their clauses. -/
theorem propositional_load_of_clauses {table : List (List (Clause Proposition))}
    (maxDecisions : Int) (order : LiteralOrder) (hclosed : ∀ f ∈ premises, f.isClosed = true)
    (htable : premiseClauses premises = .ok (.ok table)) :
    (propositional maxDecisions order).load premises =
      .ok (clauseOracle maxDecisions (order.arrangeAll table)) :=
  bind_eq_ok_iff.mpr ⟨none, openPremise_of_closed hclosed,
    bind_eq_ok_iff.mpr ⟨.ok table, htable, rfl⟩⟩

/-- Ground premises are loaded as the oracle for their clauses. -/
theorem propositional_load_of_ground (maxDecisions : Int) (order : LiteralOrder)
    (hground : ∀ f ∈ premises, f.Ground) :
    ∃ table, (propositional maxDecisions order).load premises =
        .ok (clauseOracle maxDecisions table) ∧
      List.Forall₂ Formula.ClausesOf premises table := by
  obtain ⟨table, htable⟩ := exists_premiseClauses fun f hf ↦ (hground f hf).propositional
  have hclosed : ∀ f ∈ premises, f.isClosed = true := fun f hf ↦ (hground f hf).closed
  exact ⟨_, propositional_load_of_clauses maxDecisions order hclosed htable,
    clausesOf_arrangeAll order (clausesOf_premiseClauses hground htable)⟩

/-- Well-formed premises with a quantifier are loaded as an oracle that gives up. -/
theorem propositional_load_of_quantified (maxDecisions : Int) (order : LiteralOrder)
    (hpremises : ∀ f ∈ premises, f.WellFormed)
    (hquantified : ∃ f ∈ premises, f.containsQuantifier = true) :
    ∃ reason, (propositional maxDecisions order).load premises = .ok (givingUp reason) := by
  rcases openPremise_cases "dpll" hpremises with ⟨hnone, _⟩ | ⟨reason, hopen⟩
  · obtain ⟨reason, hreason⟩ := premiseClauses_of_quantified hpremises hquantified
    exact ⟨reason, bind_eq_ok_iff.mpr ⟨none, hnone, bind_eq_ok_iff.mpr ⟨_, hreason, rfl⟩⟩⟩
  · exact ⟨reason, bind_eq_ok_iff.mpr ⟨some reason, hopen, rfl⟩⟩

/-- The propositional back end loads well-formed premises. -/
theorem propositional_loads (maxDecisions : Int) (order : LiteralOrder) :
    (propositional maxDecisions order).Loads Formula.WellFormed := by
  intro premises hpremises
  by_cases hquantified : ∃ f ∈ premises, f.containsQuantifier = true
  · obtain ⟨reason, hload⟩ :=
      propositional_load_of_quantified maxDecisions order hpremises hquantified
    exact ⟨_, hload⟩
  · push Not at hquantified
    rcases openPremise_cases "dpll" hpremises with ⟨_, hclosed⟩ | ⟨reason, hopen⟩
    · obtain ⟨table, htable⟩ := exists_premiseClauses fun f hf ↦
        (hpremises f hf).propositional (by simpa using hquantified f hf)
      exact ⟨_, propositional_load_of_clauses maxDecisions order hclosed htable⟩
    · exact ⟨_, bind_eq_ok_iff.mpr ⟨some reason, hopen, rfl⟩⟩

/-! ## Refutations -/

variable {goal denial theory : Formula} {oracle : Cores.Oracle σ}

/-- A goal is refuted by a search over the conjuncts of its denial, with the oracle that they are
loaded as or, where no question is allowed, with none. -/
theorem refute_of_load (limits : Cores.Limits) (assumptions : Option (List Formula))
    (hdenial : goal.negate = .ok denial) (hload : backend.load denial.conjuncts = .ok oracle) :
    ∃ asked, (0 < limits.checks → asked = oracle) ∧
      (asked = givingUp Cores.budgetReason ∨ backend.load denial.conjuncts = .ok asked) ∧
      backend.refute limits goal assumptions = .ok (searchProof denial.conjuncts
        (trackedPositions denial.conjuncts assumptions) limits asked backend.start) := by
  rw [refute, hdenial]
  by_cases hchecks : limits.checks ≤ 0
  · refine ⟨givingUp Cores.budgetReason, fun hpos ↦ absurd hchecks (Int.not_le.mpr hpos),
      .inl rfl, ?_⟩
    refine bind_eq_ok_iff.mpr ⟨denial, rfl, ?_⟩
    rw [refutePremises, if_pos hchecks]
    rfl
  · refine ⟨oracle, fun _ ↦ rfl, .inr hload, bind_eq_ok_iff.mpr ⟨denial, rfl, ?_⟩⟩
    rw [refutePremises, if_neg hchecks, hload]
    rfl

/-- A theory is refuted by a search over its conjuncts. -/
theorem refute_neg (limits : Cores.Limits) (assumptions : Option (List Formula))
    (hload : backend.load theory.conjuncts = .ok oracle) :
    ∃ asked, (0 < limits.checks → asked = oracle) ∧
      (asked = givingUp Cores.budgetReason ∨ backend.load theory.conjuncts = .ok asked) ∧
      backend.refute limits (.neg theory) assumptions = .ok (searchProof theory.conjuncts
        (trackedPositions theory.conjuncts assumptions) limits asked backend.start) :=
  refute_of_load limits assumptions rfl hload

/-- The premises at all positions are the premises. -/
theorem filterMap_range_getElem? {α : Type} (xs : List α) :
    (List.range xs.length).filterMap (fun i => xs[i]?) = xs := by
  induction xs with
  | nil => rfl
  | cons x xs ih =>
      rw [List.length_cons, List.range_succ_eq_map, List.filterMap_cons, List.filterMap_map]
      exact congrArg (x :: ·) ih

/-- The first verdict, on all premises, settles the status of a proof. -/
theorem status_searchProof (tracked : List Nat) (start : σ) :
    (searchProof premises tracked limits oracle start).attempt.status =
      if limits.checks ≤ 0 then .unknown
      else (oracle (List.range premises.length) start).1.status :=
  (runs_searchProof premises tracked limits oracle start).status_eq

/-- Where the back end gives up, nothing is known. -/
theorem status_givingUp (tracked : List Nat) (start : σ) (reason : String) :
    (searchProof premises tracked limits (givingUp reason) start).attempt.status = .unknown := by
  rw [status_searchProof]
  exact ite_self _

end Diagnosis.Backend
