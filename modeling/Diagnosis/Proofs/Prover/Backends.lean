import Diagnosis.Proofs.Formula.Conjuncts
import Diagnosis.Proofs.Prover.Certificates
import Diagnosis.Proofs.Results

/-!
# Sound back ends

A back end is sound if its definite verdicts on ground premises are right. It may give up on any
question, name any core, and nothing is asked of it where premises have quantifiers or free
variables. A refutation is a search with the oracle that was loaded (`refute_eq_ok`), so that what
is known about searches applies to it.
-/

namespace Diagnosis.Backend

variable {σ : Type} {backend : Backend σ} {limits : Cores.Limits} {goal : Formula}
  {assumptions : Option (List Formula)} {premises : List Formula} {proof : Proof}

/-- Ground premises are loaded as an oracle whose definite verdicts are right. -/
def Sound (backend : Backend σ) : Prop :=
  ∀ premises oracle, (∀ f ∈ premises, f.Ground) → backend.load premises = .ok oracle →
    oracle.Sound (premiseHolds trueUnder premises) premises.length

/-- An oracle that always gives up is never wrong. -/
theorem givingUp_sound {W : Type*} {holds : W → Nat → Prop} {size : Nat} (reason : String) :
    (givingUp reason : Cores.Oracle σ).Sound holds size :=
  fun _ _ _ ↦ trivial

/-- Whether a back end gives up for want of questions or has loaded ground premises, what it has to
say of them is right if it is sound. -/
theorem Sound.oracle (hsound : backend.Sound) (hground : ∀ f ∈ premises, f.Ground)
    {oracle : Cores.Oracle σ} {reason : String}
    (h : oracle = givingUp reason ∨ backend.load premises = .ok oracle) :
    oracle.Sound (premiseHolds trueUnder premises) premises.length := by
  rcases h with rfl | hload
  · exact givingUp_sound reason
  · exact hsound premises oracle hground hload

/-! ## Tracked positions -/

/-- The tracked positions are listed in ascending order. -/
theorem trackedPositions_sublist (premises : List Formula) (assumptions : Option (List Formula)) :
    (trackedPositions premises assumptions).Sublist (List.range premises.length) := by
  cases assumptions with
  | none => exact List.Sublist.refl _
  | some wanted => exact List.filter_sublist

/-- The positions of assumptions are tracked, and no others. -/
theorem mem_trackedPositions {wanted : List Formula} {i : Nat} :
    i ∈ trackedPositions premises (some wanted) ↔ ∃ f ∈ wanted, premises[i]? = some f := by
  rw [trackedPositions, List.mem_filter, List.mem_range]
  cases hi : premises[i]? with
  | none => simp
  | some f =>
      have hlt := (List.getElem?_eq_some_iff.mp hi).1
      simp [hlt, eq_comm]

/-! ## Refutations -/

/-- A refutation is a search over the conjuncts of the denied goal. The back end is not asked to
load them if there is no question to ask. -/
theorem refute_eq_ok (h : backend.refute limits goal assumptions = .ok proof) :
    ∃ denial oracle, goal.negate = .ok denial ∧
      (oracle = givingUp Cores.budgetReason ∨ backend.load denial.conjuncts = .ok oracle) ∧
      proof = searchProof denial.conjuncts (trackedPositions denial.conjuncts assumptions) limits
        oracle backend.start := by
  rw [refute, bind_eq_ok_iff] at h
  obtain ⟨denial, hdenial, h⟩ := h
  unfold refutePremises at h
  split at h
  case isTrue =>
    exact ⟨denial, _, hdenial, .inl rfl, (Except.ok.inj h).symm⟩
  case isFalse =>
    obtain ⟨oracle, hload, hproof⟩ := bind_eq_ok_iff.mp h
    exact ⟨denial, oracle, hdenial, .inr hload, (Except.ok.inj hproof).symm⟩

end Diagnosis.Backend
