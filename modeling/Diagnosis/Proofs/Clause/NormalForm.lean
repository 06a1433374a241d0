import Diagnosis.Clause.NormalForm
import Diagnosis.Proofs.Clause.ClausalForm
import Diagnosis.Proofs.Formula.Written

/-!
# Normal form keeps the meaning

The steps to normal form bring a propositional formula into its clausal form
(`Propositional.clauses_eq`). Each step is treated on its own: it succeeds on the formulas that the
step before it leaves, removes what it is meant to remove, and keeps the clausal form. So the
clauses say what the formula says about its atoms (`WellFormed.toClauses_faithful`).

The clauses of a conjunction are those of its parts (`clauses_conj`), for all trees.
-/

namespace Diagnosis.Formula

/-! ## Lists of operands -/

theorem eliminateEquivalencesAll_eq_mapM (fs : List Formula) :
    eliminateEquivalencesAll fs = fs.mapM eliminateEquivalences := by
  induction fs with
  | nil => rfl
  | cons f fs ih => rw [eliminateEquivalencesAll, ih, List.mapM_cons]

theorem eliminateImplicationsAll_eq_mapM (fs : List Formula) :
    eliminateImplicationsAll fs = fs.mapM eliminateImplications := by
  induction fs with
  | nil => rfl
  | cons f fs ih => rw [eliminateImplicationsAll, ih, List.mapM_cons]

theorem pushNegationsAll_eq_mapM (fs : List Formula) (negated : Bool) :
    pushNegationsAll fs negated = fs.mapM (·.pushNegations negated) := by
  induction fs with
  | nil => rfl
  | cons f fs ih => rw [pushNegationsAll, ih, List.mapM_cons]

theorem literalsAll_eq_mapM (fs : List Formula) :
    literalsAll fs = List.flatten <$> fs.mapM literals := by
  induction fs with
  | nil => rfl
  | cons f fs ih => rw [literalsAll, ih, flatten_mapM_cons]

theorem collectClausesAll_eq_mapM (fs : List Formula) :
    collectClausesAll fs = List.flatten <$> fs.mapM collectClauses := by
  induction fs with
  | nil => rfl
  | cons f fs ih => rw [collectClausesAll, ih, flatten_mapM_cons]

/-! ## Equivalences and implications -/

/-- The formulas have the same clauses, and so do their denials. -/
def SameClauses (f g : Formula) : Prop :=
  ∀ negated, f.clausalForm negated = g.clausalForm negated

namespace SameClauses

variable {f g f' g' : Formula} {fs gs : List Formula}

theorem conj (h : List.Forall₂ SameClauses fs gs) :
    SameClauses (Formula.conj fs) (Formula.conj gs) := by
  intro negated
  rw [clausalForm_conj, clausalForm_conj,
    map_eq_map_of_forall₂ (h.imp fun _ _ hsame ↦ hsame negated)]

theorem disj (h : List.Forall₂ SameClauses fs gs) :
    SameClauses (Formula.disj fs) (Formula.disj gs) := by
  intro negated
  rw [clausalForm_disj, clausalForm_disj,
    map_eq_map_of_forall₂ (h.imp fun _ _ hsame ↦ hsame negated)]

theorem neg (h : SameClauses f g) : SameClauses (Formula.neg f) (Formula.neg g) := by
  intro negated
  rw [clausalForm_neg, clausalForm_neg, h]

theorem imp (hf : SameClauses f f') (hg : SameClauses g g') :
    SameClauses (Formula.imp f g) (Formula.imp f' g') := by
  intro negated
  rw [clausalForm_imp, clausalForm_imp, hf, hg]

end SameClauses

/-- An equivalence has the clauses of its two directions. -/
theorem sameClauses_equiv (f g : Formula) :
    SameClauses (equiv f g) (Formula.conj [Formula.imp f g, Formula.imp g f]) := by
  intro negated
  rw [clausalForm_equiv, clausalForm_conj, List.map_cons, List.map_singleton]

/-- An implication has the clauses of a disjunction: the first operand denied, or the second. -/
theorem sameClauses_imp (f g : Formula) :
    SameClauses (Formula.imp f g) (Formula.disj [Formula.neg f, g]) := by
  intro negated
  rw [clausalForm_imp, clausalForm_disj, List.map_cons, List.map_singleton, clausalForm_neg]

/-- Below a node that is no equivalence, the equivalences of the operands are removed. -/
theorem eliminateEquivalences_node {c : Option Connective} {fs gs : List Formula}
    {x s : Option String} (hc : c ≠ some .iff)
    (hgs : fs.mapM Formula.eliminateEquivalences = .ok gs) :
    (⟨none, c, fs, x, s⟩ : Formula).eliminateEquivalences =
      .ok { connective := c, children := gs } := by
  simp [Formula.eliminateEquivalences, eliminateEquivalencesAll_eq_mapM, hgs, hc, bind,
    Except.bind, pure, Except.pure]

/-- Below a node that is no implication, the implications of the operands are removed. -/
theorem eliminateImplications_node {c : Option Connective} {fs gs : List Formula}
    {x s : Option String} (hc : c ≠ some .implies)
    (hgs : fs.mapM Formula.eliminateImplications = .ok gs) :
    (⟨none, c, fs, x, s⟩ : Formula).eliminateImplications =
      .ok { connective := c, children := gs } := by
  simp [Formula.eliminateImplications, eliminateImplicationsAll_eq_mapM, hgs, hc, bind,
    Except.bind, pure, Except.pure]

/-- Two operands are processed one after the other. -/
theorem mapM_pair {step : Formula → Except Fault Formula} {f g f' g' : Formula}
    (hf : step f = .ok f') (hg : step g = .ok g') : [f, g].mapM step = .ok [f', g'] :=
  mapM_eq_ok_iff.mpr (.cons hf (.cons hg .nil))

/-- Equivalences can be removed from a propositional formula. -/
theorem eliminateEquivalences_keeps {f : Formula} (hf : f.Propositional anyConnective) :
    ∃ g, f.eliminateEquivalences = .ok g ∧ g.Propositional (· ≠ .iff) ∧ SameClauses f g := by
  induction hf with
  | atom a => exact ⟨ofAtom a, rfl, .atom a, fun _ ↦ rfl⟩
  | conj parts ih =>
      obtain ⟨gs, hgs, hparts, hkeeps⟩ := exists_mapM ih
      exact ⟨conj gs, eliminateEquivalences_node (by decide) hgs, .conj hparts, .conj hkeeps⟩
  | disj parts ih =>
      obtain ⟨gs, hgs, hparts, hkeeps⟩ := exists_mapM ih
      exact ⟨disj gs, eliminateEquivalences_node (by decide) hgs, .disj hparts, .disj hkeeps⟩
  | neg part ih =>
      obtain ⟨g, hg, hpart, hkeeps⟩ := ih
      exact ⟨neg g, eliminateEquivalences_node (by decide) (mapM_eq_ok_iff.mpr (.cons hg .nil)),
        .neg hpart, .neg hkeeps⟩
  | imp hallowed left right ihl ihr =>
      obtain ⟨g, hg, hleft, hgkeeps⟩ := ihl
      obtain ⟨h, hh, hright, hhkeeps⟩ := ihr
      exact ⟨imp g h, eliminateEquivalences_node (by decide) (mapM_pair hg hh),
        .imp (by decide) hleft hright, .imp hgkeeps hhkeeps⟩
  | @equiv f₁ f₂ hallowed left right ihl ihr =>
      obtain ⟨g, hg, hleft, hgkeeps⟩ := ihl
      obtain ⟨h, hh, hright, hhkeeps⟩ := ihr
      refine ⟨conj [imp g h, imp h g], ?_, .conj ?_, fun negated ↦ ?_⟩
      · have hpair := mapM_pair hg hh
        simp [equiv, Formula.eliminateEquivalences, eliminateEquivalencesAll_eq_mapM, hpair, bind,
          Except.bind, pure, Except.pure]
      · simp only [List.forall_mem_cons]
        exact ⟨.imp (by decide) hleft hright, .imp (by decide) hright hleft, by simp⟩
      · rw [sameClauses_equiv]
        exact SameClauses.conj (.cons (.imp hgkeeps hhkeeps) (.cons (.imp hhkeeps hgkeeps) .nil))
          negated

/-- No connective is allowed besides conjunction, disjunction and negation. -/
def basicConnective (_ : Connective) : Prop := False

/-- Implications can be removed when there are no equivalences. -/
theorem eliminateImplications_keeps {f : Formula} (hf : f.Propositional (· ≠ .iff)) :
    ∃ g, f.eliminateImplications = .ok g ∧ g.Propositional basicConnective ∧ SameClauses f g := by
  induction hf with
  | atom a => exact ⟨ofAtom a, rfl, .atom a, fun _ ↦ rfl⟩
  | conj parts ih =>
      obtain ⟨gs, hgs, hparts, hkeeps⟩ := exists_mapM ih
      exact ⟨conj gs, eliminateImplications_node (by decide) hgs, .conj hparts, .conj hkeeps⟩
  | disj parts ih =>
      obtain ⟨gs, hgs, hparts, hkeeps⟩ := exists_mapM ih
      exact ⟨disj gs, eliminateImplications_node (by decide) hgs, .disj hparts, .disj hkeeps⟩
  | neg part ih =>
      obtain ⟨g, hg, hpart, hkeeps⟩ := ih
      exact ⟨neg g, eliminateImplications_node (by decide) (mapM_eq_ok_iff.mpr (.cons hg .nil)),
        .neg hpart, .neg hkeeps⟩
  | imp hallowed left right ihl ihr =>
      obtain ⟨g, hg, hleft, hgkeeps⟩ := ihl
      obtain ⟨h, hh, hright, hhkeeps⟩ := ihr
      refine ⟨disj [neg g, h], ?_, .disj ?_, fun negated ↦ ?_⟩
      · have hpair := mapM_pair hg hh
        simp [imp, Formula.eliminateImplications, eliminateImplicationsAll_eq_mapM, hpair, bind,
          Except.bind, pure, Except.pure]
      · simp only [List.forall_mem_cons]
        exact ⟨.neg hleft, hright, by simp⟩
      · rw [sameClauses_imp]
        exact SameClauses.disj (.cons (.neg hgkeeps) (.cons hhkeeps .nil)) negated
  | equiv hallowed left right ihl ihr => exact absurd rfl hallowed

/-! ## Negations -/

/-- Negations stand on atoms only, below conjunctions and disjunctions. -/
inductive NegationNormal : Formula → Prop where
  | atom (a : Atom) : NegationNormal (ofAtom a)
  | negAtom (a : Atom) : NegationNormal (neg (ofAtom a))
  | conj {fs : List Formula} (parts : ∀ f ∈ fs, NegationNormal f) : NegationNormal (conj fs)
  | disj {fs : List Formula} (parts : ∀ f ∈ fs, NegationNormal f) : NegationNormal (disj fs)

/-- At a node that is no negation, the sign goes on to the operands. -/
theorem pushNegations_node {c : Option Connective} {fs gs : List Formula} {x s : Option String}
    {negated : Bool} (hc : c ≠ some .not) (hgs : fs.mapM (·.pushNegations negated) = .ok gs) :
    (⟨none, c, fs, x, s⟩ : Formula).pushNegations negated =
      .ok { connective := dualConnective negated c, children := gs } := by
  simp [pushNegations, pushNegationsAll_eq_mapM, hgs, hc, bind, Except.bind, pure, Except.pure]

/-- Negations can be moved down to the atoms. -/
theorem pushNegations_keeps {f : Formula} (hf : f.Propositional basicConnective)
    (negated : Bool) :
    ∃ g, f.pushNegations negated = .ok g ∧ g.NegationNormal ∧
      f.clausalForm negated = g.clausalForm false := by
  induction hf generalizing negated with
  | atom a =>
      cases negated with
      | false => exact ⟨ofAtom a, rfl, .atom a, rfl⟩
      | true => exact ⟨neg (ofAtom a), rfl, .negAtom a, by simp⟩
  | @conj fs parts ih =>
      obtain ⟨gs, hgs, hparts, hkeeps⟩ := exists_mapM fun f hf ↦ ih f hf negated
      have hpush : (conj fs).pushNegations negated =
          .ok { connective := dualConnective negated (some .and), children := gs } :=
        pushNegations_node (by decide) hgs
      rw [clausalForm_conj, map_eq_map_of_forall₂ hkeeps]
      cases negated with
      | false => exact ⟨conj gs, hpush, .conj hparts, (clausalForm_conj gs false).symm⟩
      | true => exact ⟨disj gs, hpush, .disj hparts, (clausalForm_disj gs false).symm⟩
  | @disj fs parts ih =>
      obtain ⟨gs, hgs, hparts, hkeeps⟩ := exists_mapM fun f hf ↦ ih f hf negated
      have hpush : (disj fs).pushNegations negated =
          .ok { connective := dualConnective negated (some .or), children := gs } :=
        pushNegations_node (by decide) hgs
      rw [clausalForm_disj, map_eq_map_of_forall₂ hkeeps]
      cases negated with
      | false => exact ⟨disj gs, hpush, .disj hparts, (clausalForm_disj gs false).symm⟩
      | true => exact ⟨conj gs, hpush, .conj hparts, (clausalForm_conj gs false).symm⟩
  | neg part ih =>
      obtain ⟨g, hg, hnormal, hkeeps⟩ := ih (!negated)
      exact ⟨g, hg, hnormal, by rw [clausalForm_neg, hkeeps]⟩
  | imp hallowed left right ihl ihr => exact hallowed.elim
  | equiv hallowed left right ihl ihr => exact hallowed.elim

/-! ## Distribution -/

/-- A disjunction of literals, as a tree. -/
inductive ClauseTree : Formula → Prop where
  | atom (a : Atom) : ClauseTree (ofAtom a)
  | negAtom (a : Atom) : ClauseTree (neg (ofAtom a))
  | disj {fs : List Formula} (parts : ∀ f ∈ fs, ClauseTree f) : ClauseTree (disj fs)

/-- A conjunction of such disjunctions, as a tree. -/
inductive ClausesTree : Formula → Prop where
  | clause {f : Formula} (hf : f.ClauseTree) : ClausesTree f
  | conj {fs : List Formula} (parts : ∀ f ∈ fs, ClausesTree f) : ClausesTree (conj fs)

/-- A disjunction of literals is no conjunction. -/
theorem ClauseTree.connective_ne {f : Formula} (hf : f.ClauseTree) : f.connective ≠ some .and := by
  cases hf with
  | atom => simp [ofAtom]
  | negAtom => simp [Formula.neg]
  | disj => simp [Formula.disj]

/-- A disjunction of literals has one clause, with these literals. -/
theorem ClauseTree.exists_literals {f : Formula} (hf : f.ClauseTree) :
    ∃ ls, f.literals = .ok ls ∧ f.clausalForm false = [ls] := by
  induction hf with
  | atom a => exact ⟨_, rfl, clausalForm_ofAtom _ _⟩
  | negAtom a => exact ⟨_, rfl, by rw [clausalForm_neg, clausalForm_ofAtom]; rfl⟩
  | @disj fs parts ih =>
      obtain ⟨lss, hlss, hall⟩ := exists_mapM_forall₂ ih
      refine ⟨lss.flatten, ?_, ?_⟩
      · simp [Formula.disj, literals, literalsAll_eq_mapM, hlss, Functor.map, Except.map]
      · rw [clausalForm_disj, map_eq_map_of_forall₂ hall, Clause.combine_singletons]

/-- Joining with a disjunction of literals goes to the clauses of the first formula. -/
theorem joinLeft_keeps {f g : Formula} (hf : f.ClausesTree) (hg : g.ClauseTree) :
    (joinLeft g f).ClausesTree ∧ (joinLeft g f).clausalForm false =
      Clause.product (f.clausalForm false) (g.clausalForm false) := by
  induction hf with
  | @clause f hf =>
      have hjoin : joinLeft g f = disj [f, g] := by
        have hne := hf.connective_ne
        obtain ⟨p, c, fs, x, s⟩ := f
        rw [joinLeft, if_neg hne]
      rw [hjoin]
      exact ⟨.clause (.disj (by simpa using ⟨hf, hg⟩)), by simp [Clause.combine]⟩
  | @conj fs parts ih =>
      have hjoin : joinLeft g (conj fs) = conj (fs.map (joinLeft g)) := by
        simp [conj, joinLeft]
      rw [hjoin]
      refine ⟨.conj (by simpa using fun f hf ↦ (ih f hf).1), ?_⟩
      obtain ⟨ls, -, hform⟩ := hg.exists_literals
      rw [hform] at ih ⊢
      have hparts : (fs.map (joinLeft g)).map (·.clausalForm false) =
          fs.map fun f ↦ Clause.product (f.clausalForm false) [ls] := by
        rw [List.map_map]
        exact List.map_congr_left fun f hf ↦ (ih f hf).2
      rw [clausalForm_conj, clausalForm_conj, hparts]
      simp only [Clause.combine, Bool.not_false, if_true, Clause.flatten_product, List.map_map,
        Function.comp_def]

/-- Joining goes to the clauses of both formulas. -/
theorem join_keeps {f g : Formula} (hf : f.ClausesTree) (hg : g.ClausesTree) :
    (join f g).ClausesTree ∧ (join f g).clausalForm false =
      Clause.product (f.clausalForm false) (g.clausalForm false) := by
  induction hg with
  | @clause g hg =>
      have hjoin : join f g = joinLeft g f := by
        have hne := hg.connective_ne
        obtain ⟨p, c, gs, x, s⟩ := g
        rw [join, if_neg hne]
      rw [hjoin]
      exact joinLeft_keeps hf hg
  | @conj gs parts ih =>
      have hjoin : join f (conj gs) = conj (gs.map (join f)) := by
        simp [conj, join]
      rw [hjoin]
      refine ⟨.conj (by simpa using fun g hg ↦ (ih g hg).1), ?_⟩
      have hparts : (gs.map (join f)).map (·.clausalForm false) =
          gs.map fun g ↦ Clause.product (f.clausalForm false) (g.clausalForm false) := by
        rw [List.map_map]
        exact List.map_congr_left fun g hg ↦ (ih g hg).2
      rw [clausalForm_conj, clausalForm_conj, hparts]
      simp only [Clause.combine, Bool.not_false, if_true, Clause.product_flatten, List.map_map,
        Function.comp_def]

/-- Joining a list one after the other joins the clauses one after the other. -/
theorem foldl_join_keeps {f : Formula} {fs : List Formula} (hf : f.ClausesTree)
    (hfs : ∀ g ∈ fs, g.ClausesTree) :
    (fs.foldl join f).ClausesTree ∧ (fs.foldl join f).clausalForm false =
      (fs.map (·.clausalForm false)).foldl Clause.product (f.clausalForm false) := by
  induction fs generalizing f with
  | nil => exact ⟨hf, rfl⟩
  | cons g fs ih =>
      rw [List.forall_mem_cons] at hfs
      obtain ⟨hjoin, hkeeps⟩ := join_keeps hf hfs.1
      rw [List.foldl_cons, List.map_cons, List.foldl_cons, ← hkeeps]
      exact ih hjoin hfs.2

/-- Disjunctions can be distributed over conjunctions. -/
theorem distribute_keeps {f : Formula} (hf : f.NegationNormal) :
    f.distribute.ClausesTree ∧ f.distribute.clausalForm false = f.clausalForm false := by
  induction hf with
  | atom a => exact ⟨.clause (.atom a), rfl⟩
  | negAtom a => exact ⟨.clause (.negAtom a), rfl⟩
  | @conj fs parts ih =>
      have hdistribute : (conj fs).distribute = conj (fs.map Formula.distribute) := by
        simp [conj, Formula.distribute, isLiteral, isAtom]
      rw [hdistribute]
      refine ⟨.conj (by simpa using fun f hf ↦ (ih f hf).1), ?_⟩
      rw [clausalForm_conj, clausalForm_conj, List.map_map]
      exact congrArg _ (List.map_congr_left fun f hf ↦ (ih f hf).2)
  | @disj fs parts ih =>
      cases fs with
      | nil => exact ⟨.clause (.disj (by simp)), rfl⟩
      | cons f fs =>
          have hdistribute : (disj (f :: fs)).distribute =
              (fs.map Formula.distribute).foldl join f.distribute := by
            simp [disj, Formula.distribute, isLiteral, isAtom]
          rw [hdistribute]
          rw [List.forall_mem_cons] at ih
          have hparts : ∀ g ∈ fs.map Formula.distribute, g.ClausesTree := by
            simpa using fun f hf ↦ (ih.2 f hf).1
          obtain ⟨hjoin, hkeeps⟩ := foldl_join_keeps ih.1.1 hparts
          refine ⟨hjoin, ?_⟩
          rw [hkeeps, ih.1.2, List.map_map, clausalForm_disj, List.map_cons, Clause.combine_cons]
          exact congrArg (List.foldl _ _) (List.map_congr_left fun g hg ↦ (ih.2 g hg).2)

/-! ## Collection -/

/-- The clauses of a conjunction of disjunctions of literals are collected without repetitions. -/
theorem ClausesTree.collectClauses_eq {f : Formula} (hf : f.ClausesTree) :
    f.collectClauses = .ok ((f.clausalForm false).map List.eraseDups) := by
  induction hf with
  | @clause f hf =>
      obtain ⟨ls, hls, hform⟩ := hf.exists_literals
      have hne := hf.connective_ne
      rw [hform]
      obtain ⟨p, c, fs, x, s⟩ := f
      rw [collectClauses, if_neg hne, hls]
      rfl
  | @conj fs parts ih =>
      have hcollect : fs.mapM collectClauses =
          .ok (fs.map fun f ↦ (f.clausalForm false).map List.eraseDups) :=
        mapM_eq_ok_iff.mpr (List.forall₂_map_right_iff.mpr (List.forall₂_same.mpr ih))
      rw [clausalForm_conj, Clause.combine, Bool.not_false, if_pos rfl, List.map_flatten,
        List.map_map]
      simp [Formula.conj, collectClauses, collectClausesAll_eq_mapM, hcollect, Functor.map,
        Except.map, Function.comp_def]

/-! ## Clauses -/

/-- The clauses of a propositional formula are its clausal form, without repeated literals. -/
theorem Propositional.clauses_eq {f : Formula} (hf : f.Propositional anyConnective) :
    f.clauses = .ok ((f.clausalForm false).map List.eraseDups) := by
  obtain ⟨f₁, h₁, hf₁, hkeeps₁⟩ := eliminateEquivalences_keeps hf
  obtain ⟨f₂, h₂, hf₂, hkeeps₂⟩ := eliminateImplications_keeps hf₁
  obtain ⟨f₃, h₃, hf₃, hkeeps₃⟩ := pushNegations_keeps hf₂ false
  obtain ⟨hf₄, hkeeps₄⟩ := distribute_keeps hf₃
  rw [hkeeps₁, hkeeps₂, hkeeps₃, ← hkeeps₄]
  exact bind_eq_ok_iff.mpr ⟨f₁, h₁, bind_eq_ok_iff.mpr ⟨f₂, h₂, bind_eq_ok_iff.mpr
    ⟨f₃, h₃, hf₄.collectClauses_eq⟩⟩⟩

/-- The clauses say the same as the formula, and they are about its atoms. -/
structure ClausesOf (f : Formula) (cs : List (Clause Proposition)) : Prop where
  equivalent : ∀ constants (truth : Proposition → Bool),
    f.HoldsIn constants (fun a ↦ truth (.atom a) = true) ↔ ∀ c ∈ cs, c.Holds truth
  subjects : ∀ c ∈ cs, ∀ l ∈ c, ∃ a ∈ f.atoms, l.subject = .atom a

/-- Clauses say the same in whatever order their literals come. -/
theorem ClausesOf.perm {f : Formula} {cs cs' : List (Clause Proposition)} (h : f.ClausesOf cs)
    (hperm : List.Forall₂ List.Perm cs cs') : f.ClausesOf cs' where
  equivalent constants truth := by
    rw [h.equivalent constants truth]
    refine forall_iff_of_forall₂ hperm fun c _ c' hc ↦ ?_
    exact exists_congr fun l ↦ and_congr_left' hc.mem_iff
  subjects := by
    refine (forall_iff_of_forall₂ hperm fun c _ c' hc ↦ ?_).mp h.subjects
    exact forall_congr' fun l ↦ imp_congr_left hc.mem_iff

/-- The clausal form says the same as the formula, also without repeated literals. -/
theorem Propositional.clausesOf {f : Formula} (hf : f.Propositional anyConnective) :
    f.ClausesOf ((f.clausalForm false).map List.eraseDups) where
  equivalent constants truth := by
    rw [← (allHold_clausalForm hf constants truth).1]
    simp [Clause.AllHold, Clause.Holds]
  subjects := by
    have habout := about_clausalForm hf false
    simpa [About] using habout

/-- A propositional formula has clauses that say the same about its atoms. -/
theorem Propositional.clauses {f : Formula} (hf : f.Propositional anyConnective) :
    ∃ cs, f.clauses = .ok cs ∧ f.ClausesOf cs :=
  ⟨_, hf.clauses_eq, hf.clausesOf⟩

/-- The steps by which a formula got its clauses. -/
theorem clauses_eq_ok_iff {f : Formula} {cs : List (Clause Proposition)} :
    f.clauses = .ok cs ↔ ∃ f₁ f₂ f₃, f.eliminateEquivalences = .ok f₁ ∧
      f₁.eliminateImplications = .ok f₂ ∧ f₂.pushNegations false = .ok f₃ ∧
        f₃.distribute.collectClauses = .ok cs := by
  simp only [Formula.clauses, bind_eq_ok_iff, exists_and_left]

/-- The clauses of a conjunction are those of its parts, one part after the other. This is so for
all trees. -/
theorem clauses_conj {fs : List Formula} {css : List (List (Clause Proposition))}
    (h : fs.mapM Formula.clauses = .ok css) : (conj fs).clauses = .ok css.flatten := by
  -- Every step processes the parts of the conjunction on their own.
  obtain ⟨fs₁, fs₂, fs₃, h₁, h₂, h₃, h₄⟩ : ∃ fs₁ fs₂ fs₃,
      fs.mapM Formula.eliminateEquivalences = .ok fs₁ ∧
      fs₁.mapM Formula.eliminateImplications = .ok fs₂ ∧
      fs₂.mapM (·.pushNegations false) = .ok fs₃ ∧
      (fs₃.map Formula.distribute).mapM collectClauses = .ok css := by
    rw [mapM_eq_ok_iff] at h
    induction h with
    | nil => exact ⟨[], [], [], rfl, rfl, rfl, rfl⟩
    | cons hf _ ih =>
        obtain ⟨f₁, f₂, f₃, h₁, h₂, h₃, h₄⟩ := clauses_eq_ok_iff.mp hf
        obtain ⟨fs₁, fs₂, fs₃, hs₁, hs₂, hs₃, hs₄⟩ := ih
        simp only [mapM_eq_ok_iff] at hs₁ hs₂ hs₃ hs₄ ⊢
        exact ⟨f₁ :: fs₁, f₂ :: fs₂, f₃ :: fs₃, .cons h₁ hs₁, .cons h₂ hs₂, .cons h₃ hs₃,
          .cons h₄ hs₄⟩
  refine clauses_eq_ok_iff.mpr ⟨conj fs₁, conj fs₂, conj fs₃,
    eliminateEquivalences_node (by decide) h₁, eliminateImplications_node (by decide) h₂,
    pushNegations_node (by decide) h₃, ?_⟩
  simp [conj, Formula.distribute, isLiteral, isAtom, collectClauses, collectClausesAll_eq_mapM,
    h₄, Functor.map, Except.map]

/-! ## Well-formed formulas -/

/-- A well-formed formula cannot be brought into clauses exactly if it contains a quantifier; the
error shows the formula, and there is no other one. Otherwise the clauses are those of its clausal
form, each literal once. Under every assignment the formula is true exactly if each clause has a
true literal, and the clauses are about no atoms but those of the formula. -/
theorem WellFormed.toClauses_faithful {f : Formula} (hf : f.WellFormed) :
    (f.containsQuantifier = true ↔ ∃ written, f.render = .ok written ∧
        f.toClauses = .error (.quantifiedClauses written)) ∧
      (∀ e, f.toClauses = .error e → ∃ written, e = .quantifiedClauses written) ∧
      (f.containsQuantifier = false → ∃ cs, f.toClauses = .ok cs ∧
        cs = (f.clausalForm false).map List.eraseDups ∧
        (∀ constants (truth : Proposition → Bool),
          f.HoldsIn constants (fun a ↦ truth (.atom a) = true) ↔
            ∀ c ∈ cs, ∃ l ∈ c, truth l.subject = l.positive) ∧
        ∀ c ∈ cs, ∀ l ∈ c, ∃ a ∈ f.atoms, l.subject = .atom a) := by
  obtain ⟨written, hwritten⟩ := hf.render
  cases hquantifier : f.containsQuantifier with
  | true =>
      have herror : f.toClauses = .error (.quantifiedClauses written) := by
        rw [toClauses, if_pos hquantifier, hwritten]
        rfl
      refine ⟨⟨fun _ ↦ ⟨written, hwritten, herror⟩, fun _ ↦ rfl⟩, fun e he ↦ ⟨written, ?_⟩,
        fun h ↦ Bool.noConfusion h⟩
      exact Except.error.inj (he.symm.trans herror)
  | false =>
      have hplain := hf.propositional hquantifier
      have hclauses : f.toClauses = .ok ((f.clausalForm false).map List.eraseDups) := by
        rw [toClauses, if_neg (by simp [hquantifier]), hplain.clauses_eq]
        rfl
      refine ⟨⟨fun h ↦ Bool.noConfusion h, ?_⟩, fun e he ↦ ?_, fun _ ↦
        ⟨_, hclauses, rfl, hplain.clausesOf.equivalent, hplain.clausesOf.subjects⟩⟩
      · rintro ⟨written, -, herror⟩
        cases hclauses.symm.trans herror
      · cases hclauses.symm.trans he

/-- A formula with truth and falsity inside: its only clause has the two atoms. -/
def clutteredFormula : Formula :=
  .disj [.conj [.atom "p" [], .top], .neg (.imp (.atom "q" []) .bottom)]

/-- The formula is well formed. -/
theorem clutteredFormula_wellFormed : clutteredFormula.WellFormed := by
  refine .disj (List.forall_mem_cons.mpr ⟨.conj ?_, List.forall_mem_singleton.mpr ?_⟩)
  · exact List.forall_mem_cons.mpr ⟨.atom _, List.forall_mem_singleton.mpr (.conj (by simp))⟩
  · exact .neg (.imp (.atom _) (.disj (by simp)))

/-- Neither truth nor falsity is left in the clauses of the formula, which say the same. Under a
quantifier it has none. -/
theorem clutteredFormula_toClauses :
    clutteredFormula.WellFormed ∧
      clutteredFormula.toClauses =
        .ok [[{ subject := .atom { name := "p" } }, { subject := .atom { name := "q" } }]] ∧
      (∀ constants (truth : Proposition → Bool),
        clutteredFormula.HoldsIn constants (fun a ↦ truth (.atom a) = true) ↔
          ∀ c ∈ [[{ subject := .atom { name := "p" } }, { subject := .atom { name := "q" } }]],
            ∃ l ∈ (c : Clause Proposition), truth l.subject = l.positive) ∧
      ∃ written, (univ "?x" clutteredFormula).toClauses = .error (.quantifiedClauses written) := by
  have hclauses : clutteredFormula.toClauses =
      .ok [[{ subject := .atom { name := "p" } }, { subject := .atom { name := "q" } }]] := by
    rfl
  obtain ⟨-, -, hplain⟩ := clutteredFormula_wellFormed.toClauses_faithful
  obtain ⟨cs, hcs, -, hequivalent, -⟩ := hplain (by decide)
  obtain rfl := Except.ok.inj (hclauses.symm.trans hcs)
  obtain ⟨hquantified, -⟩ := (WellFormed.univ clutteredFormula_wellFormed).toClauses_faithful
    (f := univ "?x" clutteredFormula)
  obtain ⟨written, -, herror⟩ := hquantified.mp (by decide)
  exact ⟨clutteredFormula_wellFormed, hclauses, hequivalent, written, herror⟩

end Diagnosis.Formula
