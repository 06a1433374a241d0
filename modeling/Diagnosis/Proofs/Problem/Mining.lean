import Diagnosis.Proofs.Formula.Written
import Diagnosis.Proofs.Problem.Blame

/-!
# What conflicts can be read off

Conflicts are read off clauses. Refutations without quantifiers have clauses about atoms, so that
their conflicts can be mined (`exists_mined`). A refutation with a quantifier has no clauses, and
mining ends with the error that shows it (`mineConflicts_of_quantified`).
-/

namespace Diagnosis

variable {r : Refutation} {refutations : List Refutation}

/-! ## Refutations without quantifiers -/

/-- Among atoms the abnormality atoms can be told. -/
theorem exists_abnormalComponents (abnormal : String) {ps : List Proposition}
    (hatoms : ∀ p ∈ ps, ∃ a, p = .atom a) :
    ∃ found, abnormalComponents abnormal ps = .ok found := by
  induction ps with
  | nil => exact ⟨[], rfl⟩
  | cons p ps ih =>
      obtain ⟨⟨a, rfl⟩, hrest⟩ := List.forall_mem_cons.mp hatoms
      obtain ⟨found, hfound⟩ := ih hrest
      exact ⟨_, bind_eq_ok_iff.mpr ⟨found, hfound, rfl⟩⟩

/-- A refutation without quantifiers has a conflict. -/
theorem exists_conflict (abnormal : String)
    (hplain : ∀ f ∈ r.premises, f.Propositional Formula.anyConnective) :
    ∃ conflict, r.conflict abnormal = .ok conflict := by
  have hformula : r.formula.Propositional Formula.anyConnective := .conj hplain
  obtain ⟨cs, hcs, hclauses⟩ := hformula.clauses
  have hsequents := Formula.conflictClauses_eq_ok_iff.mpr ⟨hformula.plain, cs, hcs, rfl⟩
  have hnamed : ∀ s ∈ (cs.map Sequent.ofLiterals).filter Sequent.isConflict,
      ∃ found, liftFault (abnormalComponents abnormal s.antecedent) = .ok found := by
    intro s hs
    obtain ⟨c, hc, rfl⟩ := List.mem_map.mp (List.mem_of_mem_filter hs)
    have hatoms : ∀ p ∈ (Sequent.ofLiterals c).antecedent, ∃ a, p = .atom a := by
      intro p hp
      obtain ⟨a, _, ha⟩ := hclauses.subjects c hc _ (Sequent.mem_side.mp hp)
      exact ⟨a, ha⟩
    obtain ⟨found, hfound⟩ := exists_abnormalComponents abnormal hatoms
    exact ⟨found, liftFault_eq_ok_iff.mpr hfound⟩
  obtain ⟨found, hfound⟩ := exists_mapM_ok hnamed
  exact ⟨_, bind_eq_ok_iff.mpr ⟨_, hsequents, bind_eq_ok_iff.mpr ⟨found, hfound, rfl⟩⟩⟩

/-- The conflicts of refutations without quantifiers can be mined. -/
theorem exists_mined (abnormal : String)
    (hplain : ∀ r ∈ refutations, ∀ f ∈ r.premises, f.Propositional Formula.anyConnective) :
    ∃ mined, mineConflicts abnormal refutations = .ok mined := by
  obtain ⟨mined, hmined⟩ := exists_mapM_ok fun r hr ↦ exists_conflict abnormal (hplain r hr)
  exact ⟨_, bind_eq_ok_iff.mpr ⟨mined, hmined, rfl⟩⟩

/-! ## Refutations with quantifiers -/

/-- A well-formed refutation with a quantifier has no clauses and no conflict. -/
theorem conflict_of_quantified (abnormal : String) (hwellFormed : ∀ f ∈ r.premises, f.WellFormed)
    (hquantified : ∃ f ∈ r.premises, f.containsQuantifier = true) :
    ∃ written, r.conflict abnormal = .error (.quantifiedClauses written) := by
  have hformula : r.formula.containsQuantifier = true := by
    rw [Refutation.formula, Formula.containsQuantifier_conj, List.any_eq_true]
    exact hquantified
  obtain ⟨written, hwritten⟩ := (Formula.WellFormed.conj hwellFormed).render
  refine ⟨written, ?_⟩
  have hclauses : r.formula.toClauses = .error (.quantifiedClauses written) := by
    rw [Formula.toClauses, if_pos hformula, Refutation.formula, hwritten]
    rfl
  rw [Refutation.conflict, Formula.conflictClauses, Formula.sequents, hclauses]
  rfl

/-- Refutations with quantifiers cannot be mined. -/
theorem mineConflicts_of_quantified (abnormal : String) (hne : refutations ≠ [])
    (hwellFormed : ∀ r ∈ refutations, ∀ f ∈ r.premises, f.WellFormed)
    (hquantified : ∀ r ∈ refutations, ∃ f ∈ r.premises, f.containsQuantifier = true) :
    ∃ written, mineConflicts abnormal refutations = .error (.quantifiedClauses written) := by
  obtain ⟨r, rest, rfl⟩ := List.exists_cons_of_ne_nil hne
  obtain ⟨written, hwritten⟩ := conflict_of_quantified abnormal
    (hwellFormed r List.mem_cons_self) (hquantified r List.mem_cons_self)
  refine ⟨written, ?_⟩
  rw [mineConflicts, List.mapM_cons, hwritten]
  rfl

end Diagnosis
