import Diagnosis.Proofs.Prover.Loading
import Diagnosis.Proofs.Satisfiability.Runs
import Mathlib.Data.List.Perm.Subperm

/-!
# How many decisions the propositional back end needs

The search branches on the atoms of the premises, whatever premises it is asked about. If `n` atoms
occur, `2 ^ n - 1` decisions are therefore enough for every question (`clauseOracle_decides`).

A question needs as many decisions as the search makes without a limit. A limit below that number
leaves the question open, and no other limit has a say in the answer (`decisions_threshold`).
-/

namespace Diagnosis.Backend

variable {premises : List Formula} {table : List (List (Clause Proposition))} {listed : List Atom}
  {maxDecisions : Int}

/-- Clauses of premises have no more subjects than atoms are listed. -/
theorem length_subjects_le (h : List.Forall₂ Formula.ClausesOf premises table)
    (hlisted : ∀ f ∈ premises, f.atoms ⊆ listed) (positions : List Nat) :
    (Clause.subjects (clausesAt table positions)).length ≤ listed.eraseDups.length := by
  have hsub : Clause.subjects (clausesAt table positions) ⊆
      listed.eraseDups.map Proposition.atom := by
    intro x hx
    obtain ⟨c, hc, l, hl, rfl⟩ := Clause.mem_subjects.mp hx
    obtain ⟨f, hf, a, ha, hsubject⟩ := exists_atom_of_subject h c hc l hl
    rw [hsubject]
    exact List.mem_map_of_mem (List.mem_eraseDups.mpr (hlisted f hf ha))
  have hlength := (List.subperm_of_subset (nodup_eraseDups _) hsub).length_le
  rwa [List.length_map] at hlength

/-- With a decision for every way to assign the listed atoms but one, every question about premises
with these atoms is settled. -/
theorem clauseOracle_decides (h : List.Forall₂ Formula.ClausesOf premises table)
    (hlisted : ∀ f ∈ premises, f.atoms ⊆ listed)
    (hlimit : (2 : Int) ^ listed.eraseDups.length - 1 ≤ maxDecisions) (positions : List Nat)
    (state : Unit) : (clauseOracle maxDecisions table positions state).1.status ≠ .unknown := by
  have hfewer : (2 : Int) ^ (Clause.subjects (clausesAt table positions)).length ≤
      2 ^ listed.eraseDups.length := by
    exact_mod_cast Nat.pow_le_pow_right Nat.two_pos (length_subjects_le h hlisted positions)
  have hwithin : (Clause.solve (clausesAt table positions) maxDecisions Proposition.isAtom).Within
      (2 ^ (Clause.subjects (clausesAt table positions)).length) :=
    Clause.solve_within (by omega)
  rw [clauseOracle]
  cases hsolve : Clause.solve (clausesAt table positions) maxDecisions Proposition.isAtom with
  | exhausted =>
      rw [hsolve] at hwithin
      exact hwithin.elim
  | decided satisfiable decisions =>
      cases satisfiable <;> simp [searchVerdict, Cores.Verdict.status]

/-- Clauses have a number of decisions and an answer, those of the search without a limit. With a
limit, the search is exhausted if it makes decisions and is not allowed all of them, and otherwise
it gives the answer after this number of decisions. So a limit that leads to an answer leads to the
same one if it is raised, and where propagation leaves nothing to branch on, every limit leads to
the answer, zero and negative ones too. -/
theorem decisions_threshold {α : Type} [DecidableEq α] (cs : List (Clause α))
    (branchable : α → Bool) :
    let outcome (limit : Int) := Clause.solve cs limit branchable
    let verdict (limit : Int) := searchVerdict limit (outcome limit)
    ∃ decisions satisfiable,
      (∀ reached, Clause.Searches cs branchable Clause.Unlimited [] 0 reached ↔
        reached = .decided satisfiable decisions) ∧
      (∀ limit, outcome limit =
        if 1 ≤ decisions ∧ limit < decisions then .exhausted
        else .decided satisfiable decisions) ∧
      (∀ limit larger, limit ≤ larger → (verdict limit).status ≠ .unknown →
        verdict larger = verdict limit) ∧
      (decisions = 0 ↔ ∀ a, Clause.Saturates cs [] (some a) →
        Clause.branching cs branchable a = none) ∧
      (decisions = 0 → ∀ limit, outcome limit = .decided satisfiable 0) := by
  intro outcome verdict
  obtain ⟨decisions, satisfiable, hunlimited, hsettles⟩ := Clause.exists_unlimited cs branchable
  have houtcome (limit : Int) : outcome limit = _ := hsettles.outcome limit
  refine ⟨decisions, satisfiable, hunlimited, houtcome, fun limit larger hle hdefinite ↦ ?_,
    ((hunlimited _).mpr rfl).decisions_eq_zero_iff, fun hzero limit ↦ ?_⟩
  · -- Either limit is not one that the search exceeds.
    have henough : ¬ (0 < decisions ∧ limit < decisions) := by
      intro hspent
      apply hdefinite
      simp only [verdict, houtcome, if_pos hspent, searchVerdict, Cores.Verdict.status]
    have hanswer : outcome limit = .decided satisfiable decisions := by
      rw [houtcome, if_neg henough]
    have hanswer' : outcome larger = .decided satisfiable decisions := by
      rw [houtcome, if_neg (by omega)]
    simp only [verdict, hanswer, hanswer']
    cases satisfiable <;> rfl
  · rw [houtcome, hzero, if_neg fun hspent ↦ Nat.lt_irrefl 0 hspent.1]

/-- One decision is needed for the crossing clauses, so that a limit of zero and a negative one
leave the question open, and every other limit answers it. The steps force one literal after another
and need no decision, so that every limit refutes them, whether zero or negative. -/
theorem crossingClauses_threshold :
    let outcome (limit : Int) := Clause.solve Clause.crossingClauses limit
    let steps : List (Clause Nat) :=
      [[⟨0, true⟩], [⟨1, true⟩, ⟨0, false⟩], [⟨2, true⟩, ⟨3, true⟩], [⟨0, false⟩, ⟨1, false⟩]]
    (outcome 0 = .exhausted ∧ outcome (-5) = .exhausted ∧
      ∀ limit ≥ 1, outcome limit = .decided false 1) ∧
    ∀ limit, Clause.solve steps limit = .decided false 0 ∧
      searchVerdict limit (Clause.solve steps limit) = .unsat none := by
  intro outcome steps
  obtain ⟨decisions, satisfiable, _, hthreshold, _⟩ :=
    decisions_threshold Clause.crossingClauses fun _ ↦ true
  have hanswer : outcome 1 = .decided false 1 := by decide
  have hone := (hthreshold 1).symm.trans hanswer
  obtain ⟨decisions', satisfiable', _, hthreshold', _, _, hpropagated⟩ :=
    decisions_threshold steps fun _ ↦ true
  have hzero := (hthreshold' 0).symm.trans (by decide : Clause.solve steps 0 = .decided false 0)
  split at hone
  case isTrue => cases hone
  case isFalse =>
    cases hone
    refine ⟨⟨hthreshold 0, hthreshold (-5), fun limit hlimit ↦ ?_⟩, fun limit ↦ ?_⟩
    · exact (hthreshold limit).trans (if_neg (by omega))
    · split at hzero
      case isTrue => cases hzero
      case isFalse =>
        cases hzero
        exact ⟨hpropagated rfl limit, congrArg (searchVerdict limit) (hpropagated rfl limit)⟩

end Diagnosis.Backend
