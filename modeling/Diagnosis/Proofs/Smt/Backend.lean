import Diagnosis.Proofs.Prover.Loading
import Diagnosis.Proofs.Smt.Encoding
import Diagnosis.Smt.Backend

/-!
# The first-order back end loads closed premises

Closed premises are loaded as an oracle that hands them to the solver (`firstOrder_load_of_closed`).
The first verdict on closed premises is the answer of the solver (`status_premiseOracle`).
-/

namespace Diagnosis.Backend

variable {solver : Smt.Solver} {premises : List Formula}

/-- The terms of closed well-formed premises are their translations, and their signature has the
terms of all of them for constants. -/
theorem premiseTerms_eq (hpremises : ∀ f ∈ premises, f.WellFormed)
    (hclosed : ∀ f ∈ premises, f.isClosed = true) :
    ∃ signature, premiseTerms premises = .ok (premises.map (Smt.translation · []), signature) ∧
      signature.constants = enterAll (premises.flatMap Formula.freeTerms) [] := by
  obtain ⟨signature, hresults, hconstants⟩ := Smt.encodeEach_eq hpremises hclosed {}
  refine ⟨signature, ?_, hconstants⟩
  have hterms : (premises.map fun f ↦ Except.ok (Smt.translation f [])).mapM id =
      (.ok (premises.map (Smt.translation · [])) : Except Fault (List Smt.Term)) :=
    mapM_eq_ok_iff.mpr (List.forall₂_map_left_iff.mpr
      (List.forall₂_map_right_iff.mpr (List.forall₂_same.mpr fun _ _ ↦ rfl)))
  rw [premiseTerms, hresults]
  exact bind_eq_ok_iff.mpr ⟨_, hterms, rfl⟩

/-- Closed well-formed premises are loaded as the oracle that asks the solver. -/
theorem firstOrder_load_of_closed (solver : Smt.Solver) (hpremises : ∀ f ∈ premises, f.WellFormed)
    (hclosed : ∀ f ∈ premises, f.isClosed = true) :
    (firstOrder solver).load premises = .ok (premiseOracle solver premises) := by
  obtain ⟨signature, hterms, _⟩ := premiseTerms_eq hpremises hclosed
  refine bind_eq_ok_iff.mpr ⟨none, openPremise_of_closed hclosed, ?_⟩
  exact bind_eq_ok_iff.mpr ⟨_, hterms, rfl⟩

/-- The solver refutes the premises. -/
def SolverRefutes (solver : Smt.Solver) (premises : List Formula) : Prop :=
  ∃ core, askSolver solver premises = .ok (.unsat core)

/-- A search over closed premises proves if the solver refutes them. -/
theorem status_premiseOracle :
    (premiseOracle solver premises (List.range premises.length) ()).1.status = .proved ↔
      SolverRefutes solver premises := by
  rw [premiseOracle, filterMap_range_getElem?, SolverRefutes]
  cases askSolver solver premises with
  | error fault => simp [Cores.Verdict.status]
  | ok answer => cases answer <;> simp [solverVerdict, Cores.Verdict.status]

end Diagnosis.Backend
