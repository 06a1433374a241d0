import Diagnosis.Proofs.Prover.Loading
import Diagnosis.Proofs.Smt.Backend
import Mathlib.Data.List.Nodup
import Mathlib.Data.List.TakeWhile

/-!
# What the back ends are asked

The propositional back end takes the atoms of ground premises for independent propositions. The
first-order back end asks about predicates of individuals, of which different constants name
different ones. The questions have the same answer as far as names are told apart by their symbols:
terms have a model exactly if the constants of the premises have different symbols and the clauses
hold under an assignment that does not tell atoms with the same symbols apart
(`premises_agree_iff`). The model is built from the symbols themselves.

The solver is asked about the terms under labels. These make no difference unless a premise speaks
of one of them (`haveModel_labelled_iff`).
-/

namespace Diagnosis

/-! ## Names and symbols -/

namespace Smt

/-- Different names have different symbols. -/
def Apart (names : List String) : Prop :=
  ∀ x ∈ names, ∀ y ∈ names, symbol x = symbol y → x = y

/-- Names without null characters have different symbols. -/
theorem apart_of_plain {names : List String} (h : ∀ name ∈ names, '\x00' ∉ name.toList) :
    Apart names := by
  intro x hx y hy hsymbol
  rwa [symbol_eq_self (h x hx), symbol_eq_self (h y hy)] at hsymbol

variable {D : Type} {M : Structure D} {constants : Environment D} {valuation : Valuation D}

/-- The unique names of a signature hold if its constants have different values. -/
theorem holds_uniqueNames {signature : Signature} (hnodup : signature.constants.Nodup) :
    (∀ t ∈ signature.uniqueNames, t.Holds M constants valuation) ↔
      ∀ x ∈ signature.constants, ∀ y ∈ signature.constants,
        constants (symbol x) = constants (symbol y) → x = y := by
  rw [Signature.uniqueNames]
  split
  case isTrue hfew =>
    -- Of fewer than two constants none are to be told apart.
    refine iff_of_true (by simp) fun x hx y hy _ ↦ ?_
    match h : signature.constants, hfew with
    | [], _ => rw [h] at hx; cases hx
    | [name], _ =>
        rw [h, List.mem_singleton] at hx hy
        exact hx.trans hy.symm
  case isFalse =>
    rw [List.forall_mem_singleton, Term.Holds, List.map_map, List.nodup_map_iff_inj_on hnodup]
    rfl

/-- The term of a ground formula says what the formula says, its atoms read by their symbols. -/
theorem holds_translation_ground {f : Formula} (hf : f.Ground) :
    (translation f []).Holds M constants valuation ↔
      f.HoldsIn [] fun a ↦ M (symbol a.name) (a.args.map fun term ↦ constants (symbol term)) := by
  rw [holds_translation hf.wellFormed agrees_nil, holds_reading hf.propositional]
  refine hf.propositional.holds_congr _ _ fun a _ ↦ ?_
  rw [List.map_id]
  rfl

end Smt

namespace Backend

open Smt

variable {premises : List Formula} {signature : Signature}

/-! ## Models -/

/-- The terms of ground premises with their unique names have a model exactly if their constants
have different symbols and the premises are true under an assignment that does not tell atoms with
the same symbols apart. -/
theorem haveModel_iff (hpremises : ∀ f ∈ premises, f.Ground)
    (hconstants : signature.constants = enterAll (premises.flatMap Formula.freeTerms) []) :
    Term.HaveModel (premises.map (translation · []) ++ signature.uniqueNames) ↔
      Apart (premises.flatMap Formula.freeTerms) ∧ ∃ truth : Atom → Prop,
        (∀ a ∈ premises.flatMap Formula.atoms, ∀ b ∈ premises.flatMap Formula.atoms,
          symbolic a = symbolic b → (truth a ↔ truth b)) ∧
        ∀ f ∈ premises, f.HoldsIn [] truth := by
  have hnodup : signature.constants.Nodup := hconstants ▸ nodup_enterAll List.nodup_nil
  have hmem (name : String) :
      name ∈ signature.constants ↔ name ∈ premises.flatMap Formula.freeTerms := by
    rw [hconstants, mem_enterAll, or_iff_right List.not_mem_nil]
  constructor
  · rintro ⟨D, M, constants, valuation, hholds⟩
    obtain ⟨hterms, hunique⟩ := List.forall_mem_append.mp hholds
    rw [holds_uniqueNames hnodup] at hunique
    refine ⟨fun x hx y hy hsymbol ↦ ?_, _, fun a _ b _ hsymbolic ↦ ?_, fun f hf ↦
      (holds_translation_ground (hpremises f hf)).mp (hterms _ (List.mem_map_of_mem hf))⟩
    · exact hunique x ((hmem x).mpr hx) y ((hmem y).mpr hy) (congrArg constants hsymbol)
    · have hname : symbol a.name = symbol b.name := congrArg Atom.name hsymbolic
      have hargs : a.args.map symbol = b.args.map symbol := congrArg Atom.args hsymbolic
      have hvalues : a.args.map (constants ∘ symbol) = b.args.map (constants ∘ symbol) := by
        rw [← List.map_map, ← List.map_map, hargs]
      exact iff_of_eq (congrArg₂ M hname hvalues)
  · rintro ⟨hapart, truth, hsame, htruth⟩
    -- The individuals are the symbols, and an atom is true of them if an atom of the premises is.
    let M : Structure String := fun name args ↦
      ∃ a ∈ premises.flatMap Formula.atoms, symbolic a = { name, args } ∧ truth a
    refine ⟨String, M, id, fun _ ↦ "", List.forall_mem_append.mpr ⟨?_, ?_⟩⟩
    · refine List.forall_mem_map.mpr fun f hf ↦ (holds_translation_ground (hpremises f hf)).mpr ?_
      refine ((hpremises f hf).propositional.holds_congr _ _ fun a ha ↦ ?_).mp (htruth f hf)
      have hmem : a ∈ premises.flatMap Formula.atoms := List.mem_flatMap.mpr ⟨f, hf, ha⟩
      simp only [List.map_id]
      exact ⟨fun h ↦ ⟨a, hmem, rfl, h⟩, fun ⟨b, hb, hsymbolic, h⟩ ↦
        (hsame b hb a hmem hsymbolic).mp h⟩
    · rw [holds_uniqueNames hnodup]
      exact fun x hx y hy ↦ hapart x ((hmem x).mp hx) y ((hmem y).mp hy)

/-! ## Labels -/

/-- The assertions for terms, each under the label of its place. -/
def assertions (terms : List Term) : List Term :=
  terms.zipIdx.map fun (term, place) ↦ labelled term place

/-- All labels of so many terms are true. -/
def labelsHold (count : Nat) : List Term :=
  (List.range count).map fun place ↦ .predicate (label place) []

/-- The question that a solver is asked about premises. -/
theorem askSolver_eq {terms : List Term} (solver : Solver)
    (h : premiseTerms premises = .ok (terms, signature)) :
    askSolver solver premises = .ok (solver (assertions terms ++ signature.uniqueNames)
      ((List.range terms.length).map label)) := by
  rw [askSolver, h]
  rfl

/-- Unique names speak of no predicate. -/
theorem holds_uniqueNames_congr {D : Type} {M M' : Structure D} {constants : Environment D}
    {valuation : Valuation D} (h : ∀ t ∈ signature.uniqueNames, t.Holds M constants valuation) :
    ∀ t ∈ signature.uniqueNames, t.Holds M' constants valuation := by
  intro t ht
  have hholds := h t ht
  rw [Signature.uniqueNames] at ht
  split at ht
  case isTrue => cases ht
  case isFalse =>
    rw [List.mem_singleton.mp ht, Term.Holds] at hholds ⊢
    exact hholds

/-- Where no premise speaks of a label, the assertions have a model in which all labels are true
exactly if the terms have a model. -/
theorem haveModel_labelled_iff (hpremises : ∀ f ∈ premises, f.Ground)
    (hlabels : ∀ a ∈ premises.flatMap Formula.atoms, a.args = [] →
      ∀ place < premises.length, symbol a.name ≠ label place) :
    Term.HaveModel (assertions (premises.map (translation · [])) ++ signature.uniqueNames ++
        labelsHold premises.length) ↔
      Term.HaveModel (premises.map (translation · []) ++ signature.uniqueNames) := by
  constructor
  · rintro ⟨D, M, constants, valuation, hholds⟩
    obtain ⟨hquestion, htrue⟩ := List.forall_mem_append.mp hholds
    obtain ⟨hasserted, hunique⟩ := List.forall_mem_append.mp hquestion
    refine ⟨D, M, constants, valuation, List.forall_mem_append.mpr ⟨fun t ht ↦ ?_, hunique⟩⟩
    obtain ⟨place, hplace⟩ := List.getElem?_of_mem ht
    have hlabelled : labelled t place ∈ assertions (premises.map (translation · [])) :=
      List.mem_map.mpr ⟨(t, place), List.mem_zipIdx_iff_getElem?.mpr hplace, rfl⟩
    have hcount : place < premises.length := by
      simpa using (List.getElem?_eq_some_iff.mp hplace).1
    have hlabel := htrue _ (List.mem_map_of_mem (List.mem_range.mpr hcount))
    have hassertion := hasserted _ hlabelled
    rw [labelled, Term.Holds] at hassertion
    exact hassertion hlabel
  · rintro ⟨D, M, constants, valuation, hholds⟩
    obtain ⟨hterms, hunique⟩ := List.forall_mem_append.mp hholds
    -- The labels are made true, which no premise takes notice of.
    let M' : Structure D := fun name args ↦
      M name args ∨ args = [] ∧ ∃ place < premises.length, name = label place
    have hterms' : ∀ t ∈ premises.map (translation · []), t.Holds M' constants valuation := by
      rw [List.forall_mem_map] at hterms ⊢
      intro f hf
      have hpremise := hterms f hf
      rw [holds_translation_ground (hpremises f hf)] at hpremise ⊢
      refine ((hpremises f hf).propositional.holds_congr _ _ fun a ha ↦ ?_).mp hpremise
      refine (or_iff_left ?_).symm
      rintro ⟨hnone, place, hplace, hname⟩
      refine hlabels a (List.mem_flatMap.mpr ⟨f, hf, ha⟩) ?_ place hplace hname
      simpa using hnone
    refine ⟨D, M', constants, valuation, List.forall_mem_append.mpr
      ⟨List.forall_mem_append.mpr ⟨?_, holds_uniqueNames_congr hunique⟩, ?_⟩⟩
    · refine List.forall_mem_map.mpr fun asserted hasserted ↦ ?_
      show (labelled asserted.1 asserted.2).Holds M' constants valuation
      rw [labelled, Term.Holds]
      exact fun _ ↦ hterms' asserted.1 (List.fst_mem_of_mem_zipIdx hasserted)
    · refine List.forall_mem_map.mpr fun place hplace ↦ ?_
      rw [Term.Holds]
      exact .inr ⟨rfl, place, List.mem_range.mp hplace, rfl⟩

/-! ## Agreement -/

variable {table : List (List (Clause Proposition))}

/-- All clauses of ground premises hold under an assignment that makes the premises true. -/
theorem holds_clauses_iff (h : List.Forall₂ Formula.ClausesOf premises table)
    (truth : Proposition → Bool) :
    (∀ c ∈ table.flatten, c.Holds truth) ↔
      ∀ f ∈ premises, f.HoldsIn [] fun a ↦ truth (.atom a) = true := by
  rw [List.forall_mem_flatten]
  exact (forall_iff_of_forall₂ h fun f _ cs hcs ↦ hcs.equivalent [] truth).symm

/-- With ground premises and any solver. Their terms with the unique names have a model exactly if
their constants have different symbols and their clauses hold under an assignment that does not tell
atoms with the same symbols apart. So, where different constants and different atoms have different
symbols, the terms have a model exactly if the clauses are satisfiable. Where no premise speaks of a
label, the question that the solver is asked has a model with all labels true exactly if the terms
have a model. -/
theorem premises_agree_iff (hpremises : ∀ f ∈ premises, f.Ground) (solver : Solver) :
    ∃ terms signature table,
      premiseTerms premises = .ok (terms, signature) ∧
      premiseClauses premises = .ok (.ok table) ∧
      (Term.HaveModel (terms ++ signature.uniqueNames) ↔
        Apart (premises.flatMap Formula.freeTerms) ∧ ∃ truth : Proposition → Bool,
          (∀ a ∈ premises.flatMap Formula.atoms, ∀ b ∈ premises.flatMap Formula.atoms,
            symbolic a = symbolic b → truth (.atom a) = truth (.atom b)) ∧
          ∀ c ∈ table.flatten, c.Holds truth) ∧
      (Apart (premises.flatMap Formula.freeTerms) →
        (∀ a ∈ premises.flatMap Formula.atoms, ∀ b ∈ premises.flatMap Formula.atoms,
          symbolic a = symbolic b → a = b) →
        (Term.HaveModel (terms ++ signature.uniqueNames) ↔ Clause.Satisfiable table.flatten)) ∧
      askSolver solver premises = .ok (solver (assertions terms ++ signature.uniqueNames)
        ((List.range terms.length).map label)) ∧
      ((∀ a ∈ premises.flatMap Formula.atoms, a.args = [] →
          ∀ place < premises.length, symbol a.name ≠ label place) →
        (Term.HaveModel (assertions terms ++ signature.uniqueNames ++ labelsHold terms.length) ↔
          Term.HaveModel (terms ++ signature.uniqueNames))) := by
  obtain ⟨signature, hterms, hconstants⟩ := premiseTerms_eq
    (fun f hf ↦ (hpremises f hf).wellFormed) fun f hf ↦ (hpremises f hf).closed
  obtain ⟨table, htable⟩ := exists_premiseClauses fun f hf ↦ (hpremises f hf).propositional
  have hclauses := clausesOf_premiseClauses hpremises htable
  have hmodel : Term.HaveModel (premises.map (translation · []) ++ signature.uniqueNames) ↔
      Apart (premises.flatMap Formula.freeTerms) ∧ ∃ truth : Proposition → Bool,
        (∀ a ∈ premises.flatMap Formula.atoms, ∀ b ∈ premises.flatMap Formula.atoms,
          symbolic a = symbolic b → truth (.atom a) = truth (.atom b)) ∧
        ∀ c ∈ table.flatten, c.Holds truth := by
    rw [haveModel_iff hpremises hconstants]
    simp only [holds_clauses_iff hclauses]
    refine and_congr_right fun _ ↦ ⟨?_, ?_⟩
    · rintro ⟨truth, hsame, htruth⟩
      refine ⟨propositionTruth truth, fun a ha b hb hsymbolic ↦ Bool.eq_iff_iff.mpr ?_, ?_⟩
      · simpa only [propositionTruth_atom] using hsame a ha b hb hsymbolic
      · simpa only [propositionTruth_atom] using htruth
    · rintro ⟨truth, hsame, htruth⟩
      exact ⟨_, fun a ha b hb hsymbolic ↦ by rw [hsame a ha b hb hsymbolic], htruth⟩
  refine ⟨_, signature, table, hterms, htable, hmodel, fun hapart hatoms ↦ ?_,
    askSolver_eq solver hterms, fun hlabels ↦ ?_⟩
  · rw [hmodel, and_iff_right hapart]
    refine exists_congr fun truth ↦ and_iff_right fun a ha b hb hsymbolic ↦ ?_
    rw [hatoms a ha b hb hsymbolic]
  · rw [List.length_map]
    exact haveModel_labelled_iff hpremises hlabels

/-- Two statements on different constants, which have the same symbol. -/
def mergedPremises : List Formula :=
  [.atom "p" ["a\x00b"], .atom "p" ["a\x00c"]]

/-- Three statements that speak of different atoms of one predicate, also without arguments. -/
def separatePremises : List Formula :=
  [.atom "p" ["a"], .neg (.atom "p" ["b"]), .neg (.atom "p" [])]

/-- The constants are taken for one that differs from itself: the terms of the first statements have
no model, though their clauses are satisfiable. The other statements, whose names are their symbols,
are independent of each other for both back ends, and so are they under labels. -/
theorem mergedPremises_disagree :
    (∃ terms signature table, premiseTerms mergedPremises = .ok (terms, signature) ∧
      premiseClauses mergedPremises = .ok (.ok table) ∧
      ¬ Term.HaveModel (terms ++ signature.uniqueNames) ∧
      Clause.Satisfiable table.flatten) ∧
    ∃ terms signature table, premiseTerms separatePremises = .ok (terms, signature) ∧
      premiseClauses separatePremises = .ok (.ok table) ∧
      Term.HaveModel (assertions terms ++ signature.uniqueNames ++ labelsHold terms.length) ∧
      Clause.Satisfiable table.flatten := by
  have hmerged : ∀ f ∈ mergedPremises, f.Ground := by
    rw [mergedPremises, List.forall_mem_cons, List.forall_mem_singleton]
    exact ⟨⟨.atom _, by decide, by decide⟩, ⟨.atom _, by decide, by decide⟩⟩
  have hseparate : ∀ f ∈ separatePremises, f.Ground := by
    rw [separatePremises, List.forall_mem_cons, List.forall_mem_cons, List.forall_mem_singleton]
    exact ⟨⟨.atom _, by decide, by decide⟩, ⟨.neg (.atom _), by decide, by decide⟩,
      ⟨.neg (.atom _), by decide, by decide⟩⟩
  constructor
  · obtain ⟨terms, signature, table, hterms, htable, hmodel, -⟩ :=
      premises_agree_iff hmerged finiteSolver
    refine ⟨terms, signature, table, hterms, htable, ?_, ?_⟩
    · have hsame : symbol "a\x00b" = symbol "a\x00c" := by decide
      rw [hmodel, not_and]
      intro hapart
      exact absurd (hapart "a\x00b" (by decide) "a\x00c" (by decide) hsame) (by decide)
    · have hclauses : premiseClauses mergedPremises = .ok (.ok
          [[[{ subject := .atom { name := "p", args := ["a\x00b"] } }]],
            [[{ subject := .atom { name := "p", args := ["a\x00c"] } }]]]) := by
        rfl
      obtain rfl := Except.ok.inj (Except.ok.inj (hclauses.symm.trans htable))
      exact ⟨fun _ ↦ true, by decide⟩
  · obtain ⟨terms, signature, table, hterms, htable, -, hagree, -, hlabels⟩ :=
      premises_agree_iff hseparate finiteSolver
    have hsatisfiable : Clause.Satisfiable table.flatten := by
      have hclauses : premiseClauses separatePremises = .ok (.ok
          [[[{ subject := .atom { name := "p", args := ["a"] } }]],
            [[{ subject := .atom { name := "p", args := ["b"] }, positive := false }]],
            [[{ subject := .atom { name := "p", args := [] }, positive := false }]]]) := by
        rfl
      obtain rfl := Except.ok.inj (Except.ok.inj (hclauses.symm.trans htable))
      exact ⟨fun proposition ↦ proposition == .atom { name := "p", args := ["a"] }, by decide⟩
    refine ⟨terms, signature, table, hterms, htable, ?_, hsatisfiable⟩
    rw [hlabels (by decide), hagree (apart_of_plain (by decide)) (by decide)]
    exact hsatisfiable

end Backend

end Diagnosis
