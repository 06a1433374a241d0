import Diagnosis.Proofs.Clause.NormalForm
import Diagnosis.Proofs.Prover.Backends
import Diagnosis.Proofs.Satisfiability.Search
import Diagnosis.Prover.Propositional

/-!
# The propositional back end is sound

The clauses of ground premises are about atoms alone, on all of which the search may branch, and
they say of the atoms what the premises say, in whatever order their literals come. The verdicts of
the search are therefore right about the premises.
-/

namespace Diagnosis.Backend

variable {premises : List Formula} {table : List (List (Clause Proposition))}
  {positions : List Nat} {maxDecisions : Int}

/-- The atoms that are true, as truth values of propositions. -/
noncomputable def propositionTruth (truth : Atom → Prop) : Proposition → Bool
  | .atom a => open Classical in if truth a then true else false
  | .compound => false

/-- An atom has the truth value that it is assigned. -/
@[simp] theorem propositionTruth_atom (truth : Atom → Prop) (a : Atom) :
    propositionTruth truth (.atom a) = true ↔ truth a := by
  simp [propositionTruth]

/-- The clauses of ground premises say what the premises say. -/
theorem clausesOf_premiseClauses (hground : ∀ f ∈ premises, f.Ground)
    (h : premiseClauses premises = .ok (.ok table)) :
    List.Forall₂ Formula.ClausesOf premises table := by
  induction premises generalizing table with
  | nil =>
      cases h
      exact .nil
  | cons f fs ih =>
      obtain ⟨hf, hfs⟩ := List.forall_mem_cons.mp hground
      obtain ⟨cs, hcs, hclauses⟩ := hf.propositional.clauses
      rw [premiseClauses, hf.plain, if_neg Bool.false_ne_true, bind_eq_ok_iff] at h
      obtain ⟨cs', hcs', h⟩ := h
      obtain rfl : cs = cs' := Except.ok.inj (hcs.symm.trans hcs')
      obtain ⟨rest, hrest, h⟩ := bind_eq_ok_iff.mp h
      cases rest with
      | error reason => cases h
      | ok css =>
          cases h
          exact .cons hclauses (ih hfs hrest)

/-- Each member of a list is related to what a function makes of it at its place. -/
theorem forall₂_mapIdx {α β : Type} {R : α → β → Prop} {f : Nat → α → β}
    (h : ∀ i x, R x (f i x)) (xs : List α) : List.Forall₂ R xs (xs.mapIdx f) := by
  induction xs generalizing f with
  | nil => exact .nil
  | cons x xs ih =>
      rw [List.mapIdx_cons]
      exact .cons (h 0 x) (ih fun i ↦ h (i + 1))

/-- The clauses of premises say the same with their literals in any order. -/
theorem clausesOf_arrangeAll (order : LiteralOrder)
    (h : List.Forall₂ Formula.ClausesOf premises table) :
    List.Forall₂ Formula.ClausesOf premises (order.arrangeAll table) := by
  have hperm : List.Forall₂ (List.Forall₂ List.Perm) table (order.arrangeAll table) :=
    forall₂_mapIdx (fun i ↦ forall₂_mapIdx fun j c ↦ (order.perm i j c).symm) table
  generalize order.arrangeAll table = arranged at hperm
  induction h generalizing arranged with
  | nil =>
      cases hperm
      exact .nil
  | cons hclauses _ ih =>
      cases hperm with
      | cons hfirst hrest => exact .cons (hclauses.perm hfirst) (ih _ hrest)

/-- The literals of every clause in the opposite order. -/
def backwards : LiteralOrder where
  arrange _ _ c := c.reverse
  perm _ _ c := List.reverse_perm c

/-- A premise is true if its clauses are. -/
theorem premiseHolds_iff (h : List.Forall₂ Formula.ClausesOf premises table)
    (truth : Proposition → Bool) (i : Nat) :
    premiseHolds trueUnder premises (fun a ↦ truth (.atom a) = true) i ↔
      ∀ c ∈ table.getD i [], c.Holds truth := by
  induction h generalizing i with
  | nil => simp [premiseHolds]
  | cons hf _ ih =>
      cases i with
      | zero => simpa [premiseHolds, trueUnder] using hf.equivalent [] truth
      | succ i => simpa [premiseHolds] using ih i

/-- Premises are consistent if their clauses are satisfiable. -/
theorem consistent_iff_satisfiable (h : List.Forall₂ Formula.ClausesOf premises table) :
    Cores.Consistent (premiseHolds trueUnder premises) positions ↔
      Clause.Satisfiable (clausesAt table positions) := by
  have hclauses (truth : Proposition → Bool) :
      (∀ i ∈ positions, premiseHolds trueUnder premises (fun a ↦ truth (.atom a) = true) i) ↔
        ∀ c ∈ clausesAt table positions, c.Holds truth := by
    simp only [premiseHolds_iff h, clausesAt, List.mem_flatMap, forall_exists_index, and_imp]
    exact ⟨fun hall c i hi hc ↦ hall i hi c hc, fun hall i hi c hc ↦ hall c i hi hc⟩
  constructor
  · rintro ⟨truth, htruth⟩
    refine ⟨propositionTruth truth, (hclauses _).mp ?_⟩
    simpa only [propositionTruth_atom] using htruth
  · rintro ⟨truth, htruth⟩
    exact ⟨_, (hclauses truth).mpr htruth⟩

/-- The clauses of premises are about the atoms of the premises. -/
theorem exists_atom_of_subject (h : List.Forall₂ Formula.ClausesOf premises table) :
    ∀ c ∈ clausesAt table positions, ∀ l ∈ c, ∃ f ∈ premises, ∃ a ∈ f.atoms,
      l.subject = .atom a := by
  intro c hc l hl
  obtain ⟨i, _, hc⟩ := List.mem_flatMap.mp hc
  rw [List.getD_eq_getElem?_getD] at hc
  cases hcs : table[i]? with
  | none =>
      rw [hcs] at hc
      cases hc
  | some cs =>
      rw [hcs, Option.getD_some] at hc
      obtain ⟨f, hf, hclauses⟩ := exists_of_forall₂ h (List.mem_of_getElem? hcs)
      exact ⟨f, hf, hclauses.subjects c hc l hl⟩

/-- All subjects of the clauses of premises are atoms. -/
theorem isAtom_subject (h : List.Forall₂ Formula.ClausesOf premises table) :
    ∀ c ∈ clausesAt table positions, ∀ l ∈ c, l.subject.isAtom = true := by
  intro c hc l hl
  obtain ⟨_, _, a, _, hsubject⟩ := exists_atom_of_subject h c hc l hl
  rw [hsubject, Proposition.isAtom]

/-- The oracle for the clauses of premises is sound. -/
theorem clauseOracle_sound (h : List.Forall₂ Formula.ClausesOf premises table) :
    (clauseOracle maxDecisions table).Sound (premiseHolds trueUnder premises) premises.length := by
  intro positions state _
  have hright : (Clause.solve (clausesAt table positions) maxDecisions Proposition.isAtom).Right
      (clausesAt table positions) [] :=
    Clause.solve_right (isAtom_subject h)
  rw [clauseOracle]
  simp only
  cases houtcome : Clause.solve (clausesAt table positions) maxDecisions Proposition.isAtom with
  | exhausted => trivial
  | decided satisfiable decisions =>
      rw [houtcome] at hright
      cases satisfiable with
      | true => exact (consistent_iff_satisfiable h).mpr (Clause.extendable_nil.mp hright)
      | false =>
          intro hconsistent
          exact hright (Clause.extendable_nil.mpr ((consistent_iff_satisfiable h).mp hconsistent))

/-- Whatever the propositional back end says of ground premises is right. -/
theorem propositional_sound (maxDecisions : Int) (order : LiteralOrder := .collected) :
    (propositional maxDecisions order).Sound := by
  intro premises oracle hground hload
  obtain ⟨openReason, _, hload⟩ := bind_eq_ok_iff.mp hload
  cases openReason with
  | some reason =>
      cases hload
      exact givingUp_sound reason
  | none =>
      obtain ⟨clauses, hclauses, hload⟩ := bind_eq_ok_iff.mp hload
      cases clauses with
      | error reason =>
          cases hload
          exact givingUp_sound reason
      | ok table =>
          cases hload
          exact clauseOracle_sound
            (clausesOf_arrangeAll order (clausesOf_premiseClauses hground hclauses))

end Diagnosis.Backend
