import Diagnosis.Proofs.Formula.Terms
import Diagnosis.Smt.Encoding
import Diagnosis.Smt.Semantics
import Mathlib.Data.List.TakeWhile

/-!
# The translation of formulas

`translation` is the term that a well-formed formula is encoded as. It depends on the formula and
on the variables in scope alone, and not on what was encoded before.

A term says the same as its formula with symbols for all names (`holds_translation`). A
quantifier of the formula may thereby bind terms that it did not bind by their names: all those with
the symbol of its variable.
-/

namespace Diagnosis.Smt

variable {D : Type} {M : Structure D} {constants : Environment D} {scope : Scope}
  {valuation : Valuation D}

/-! ## Terms of formulas -/

/-- The individual for a term: the innermost variable in scope with its symbol or, failing this, a
constant. -/
def individual (scope : Scope) (term : String) : Individual :=
  match (scope.map binderSymbol).idxOf? (symbol term) with
  | some index => .bound index
  | none => .constant (symbol term)

mutual

/-- The term for a well-formed formula. -/
def translation : Formula → Scope → Term
  | ⟨some a, _, _, _, _⟩, scope => .predicate (symbol a.name) (a.args.map (individual scope))
  | ⟨none, some .and, fs, _, _⟩, scope =>
    if fs.isEmpty then .truth true else .conj (translations fs scope)
  | ⟨none, some .or, fs, _, _⟩, scope =>
    if fs.isEmpty then .truth false else .disj (translations fs scope)
  | ⟨none, some .not, f :: _, _, _⟩, scope => .neg (translation f scope)
  | ⟨none, some .implies, [f, g], _, _⟩, scope => .imp (translation f scope) (translation g scope)
  | ⟨none, some .iff, [f, g], _, _⟩, scope =>
    .equivalence (translation f scope) (translation g scope)
  | ⟨none, some .universal, f :: _, x, _⟩, scope =>
    .quantified .universal (binderSymbol x) (translation f (x :: scope))
  | ⟨none, some .existential, f :: _, x, _⟩, scope =>
    .quantified .existential (binderSymbol x) (translation f (x :: scope))
  | _, _ => .truth false
termination_by structural f => f

/-- The terms for the formulas of a list. -/
def translations : List Formula → Scope → List Term
  | [], _ => []
  | f :: fs, scope => translation f scope :: translations fs scope
termination_by structural fs => fs

end

section Constructors

variable (a : Atom) (fs : List Formula) (f g : Formula) (x sort : String)

/-- The terms for a list are those for its members. -/
@[simp] theorem translations_eq_map : translations fs scope = fs.map (translation · scope) := by
  induction fs with
  | nil => rfl
  | cons f fs ih => simp [translations, ih]

@[simp] theorem translation_ofAtom : translation (.ofAtom a) scope =
    .predicate (symbol a.name) (a.args.map (individual scope)) :=
  rfl

@[simp] theorem translation_conj : translation (.conj fs) scope =
    if fs.isEmpty then .truth true else .conj (fs.map (translation · scope)) := by
  rw [← translations_eq_map]
  rfl

@[simp] theorem translation_disj : translation (.disj fs) scope =
    if fs.isEmpty then .truth false else .disj (fs.map (translation · scope)) := by
  rw [← translations_eq_map]
  rfl

@[simp] theorem translation_neg : translation (.neg f) scope = .neg (translation f scope) :=
  rfl

@[simp] theorem translation_imp : translation (.imp f g) scope =
    .imp (translation f scope) (translation g scope) :=
  rfl

@[simp] theorem translation_equiv : translation (.equiv f g) scope =
    .equivalence (translation f scope) (translation g scope) :=
  rfl

@[simp] theorem translation_univ : translation (.univ x f sort) scope =
    .quantified .universal (symbol x) (translation f (some x :: scope)) :=
  rfl

@[simp] theorem translation_exist : translation (.exist x f sort) scope =
    .quantified .existential (symbol x) (translation f (some x :: scope)) :=
  rfl

end Constructors

/-! ## Formulas of symbols -/

/-- The atom with symbols for its names. -/
def symbolic (a : Atom) : Atom where
  name := symbol a.name
  args := a.args.map symbol

mutual

/-- The formula with symbols for all names in it. -/
def reading : Formula → Formula
  | ⟨a, c, fs, x, sort⟩ => ⟨a.map symbolic, c, readings fs, x.map symbol, sort⟩
termination_by structural f => f

/-- The formulas of a list with symbols for all names in them. -/
def readings : List Formula → List Formula
  | [] => []
  | f :: fs => reading f :: readings fs
termination_by structural fs => fs

end

section Constructors

variable (a : Atom) (fs : List Formula) (f g : Formula) (x sort : String)

/-- A list is read member by member. -/
@[simp] theorem readings_eq_map : readings fs = fs.map reading := by
  induction fs with
  | nil => rfl
  | cons f fs ih => simp [readings, ih]

@[simp] theorem reading_ofAtom : reading (.ofAtom a) = .ofAtom (symbolic a) :=
  rfl

@[simp] theorem reading_conj : reading (.conj fs) = .conj (fs.map reading) := by
  rw [← readings_eq_map]
  rfl

@[simp] theorem reading_disj : reading (.disj fs) = .disj (fs.map reading) := by
  rw [← readings_eq_map]
  rfl

@[simp] theorem reading_neg : reading (.neg f) = .neg (reading f) :=
  rfl

@[simp] theorem reading_imp : reading (.imp f g) = .imp (reading f) (reading g) :=
  rfl

@[simp] theorem reading_equiv : reading (.equiv f g) = .equiv (reading f) (reading g) :=
  rfl

@[simp] theorem reading_univ :
    reading (.univ x f sort) = .univ (symbol x) (reading f) sort :=
  rfl

@[simp] theorem reading_exist :
    reading (.exist x f sort) = .exist (symbol x) (reading f) sort :=
  rfl

end Constructors

/-- A formula whose names are their own symbols is read as it is. -/
theorem reading_eq_self {f : Formula} (hf : f.WellFormed) (hatoms : ∀ a ∈ f.atoms, symbolic a = a)
    (hbinders : ∀ x ∈ f.binders, symbol x = x) : reading f = f := by
  induction hf with
  | atom a => rw [reading_ofAtom, hatoms a (List.mem_singleton_self a)]
  | conj _ ih =>
      rw [Formula.atoms_conj, List.forall_mem_flatMap] at hatoms
      rw [Formula.binders_conj, List.forall_mem_flatMap] at hbinders
      rw [reading_conj, List.map_congr_left fun f hf ↦ ih f hf (hatoms f hf) (hbinders f hf),
        List.map_id']
  | disj _ ih =>
      rw [Formula.atoms_disj, List.forall_mem_flatMap] at hatoms
      rw [Formula.binders_disj, List.forall_mem_flatMap] at hbinders
      rw [reading_disj, List.map_congr_left fun f hf ↦ ih f hf (hatoms f hf) (hbinders f hf),
        List.map_id']
  | neg _ ih =>
      rw [Formula.atoms_neg] at hatoms
      rw [Formula.binders_neg] at hbinders
      rw [reading_neg, ih hatoms hbinders]
  | imp _ _ ihl ihr =>
      rw [Formula.atoms_imp, List.forall_mem_append] at hatoms
      rw [Formula.binders_imp, List.forall_mem_append] at hbinders
      rw [reading_imp, ihl hatoms.1 hbinders.1, ihr hatoms.2 hbinders.2]
  | equiv _ _ ihl ihr =>
      rw [Formula.atoms_equiv, List.forall_mem_append] at hatoms
      rw [Formula.binders_equiv, List.forall_mem_append] at hbinders
      rw [reading_equiv, ihl hatoms.1 hbinders.1, ihr hatoms.2 hbinders.2]
  | univ _ ih =>
      rw [Formula.atoms_univ] at hatoms
      rw [Formula.binders_univ, List.forall_mem_cons] at hbinders
      rw [reading_univ, hbinders.1, ih hatoms hbinders.2]
  | exist _ ih =>
      rw [Formula.atoms_exist] at hatoms
      rw [Formula.binders_exist, List.forall_mem_cons] at hbinders
      rw [reading_exist, hbinders.1, ih hatoms hbinders.2]

/-- A name without null characters is its own symbol. -/
theorem symbol_eq_self {name : String} (h : '\x00' ∉ name.toList) : symbol name = name := by
  have hwhole : name.toList.takeWhile (· != '\x00') = name.toList := by
    rw [List.takeWhile_eq_self_iff]
    intro c hc
    rw [bne_iff_ne]
    rintro rfl
    exact h hc
  rw [symbol, hwhole, String.ofList_toList]

/-- A formula without null characters in its names is read as it is. -/
theorem reading_eq_self_of_plain {f : Formula} (hf : f.WellFormed)
    (hplain : ∀ name ∈ f.names, '\x00' ∉ name.toList) : reading f = f := by
  have hsymbol (name : String) (hname : name ∈ f.names) : symbol name = name :=
    symbol_eq_self (hplain name hname)
  rw [Formula.names] at hsymbol
  refine reading_eq_self hf (fun a ha ↦ ?_) fun x hx ↦
    hsymbol x (List.mem_append_right _ hx)
  have hnames (name : String) (hname : name ∈ a.name :: a.args) : symbol name = name :=
    hsymbol name (List.mem_append_left _ (List.mem_flatMap.mpr ⟨a, ha, hname⟩))
  rw [symbolic, hnames a.name List.mem_cons_self,
    List.map_congr_left fun term hterm ↦ hnames term (List.mem_cons_of_mem _ hterm), List.map_id']

/-- A quantifier binds everything with the symbol of its variable. -/
example : reading (.univ "a\x00b" (.atom "p" ["a\x00c"])) = .univ "a" (.atom "p" ["a"]) := by
  decide

/-! ## Truth -/

/-- The order in which an equivalence lists its sides does not matter. -/
theorem holds_equivalence (s t : Term) :
    (Term.equivalence s t).Holds M constants valuation ↔
      (s.Holds M constants valuation ↔ t.Holds M constants valuation) := by
  rw [Term.equivalence]
  split
  · rw [Term.Holds]
    exact iff_comm
  · rw [Term.Holds]

/-- The scope gives terms the values that the environment gives their symbols. -/
def Agrees (constants : Environment D) (valuation : Valuation D) (scope : Scope)
    (env : Environment D) : Prop :=
  ∀ term, (individual scope term).value constants valuation = env (symbol term)

/-- Outside all quantifiers symbols have the values of constants. -/
theorem agrees_nil : Agrees constants valuation [] constants :=
  fun _ ↦ rfl

/-- The innermost quantifier gives its value to all terms with the symbol of its variable. -/
theorem Agrees.push {env : Environment D} (h : Agrees constants valuation scope env) (x : String)
    (d : D) : Agrees constants (valuation.push d) (some x :: scope) (env.update (symbol x) d) := by
  intro term
  have hbinder : binderSymbol (some x) = symbol x := rfl
  have houter := h term
  rw [individual] at houter ⊢
  simp only [List.map_cons, List.idxOf?_cons, hbinder, beq_iff_eq, Environment.update]
  by_cases hsame : symbol x = symbol term
  case pos =>
    rw [if_pos hsame, if_pos hsame.symm]
    rfl
  case neg =>
    rw [if_neg hsame, if_neg (Ne.symm hsame), ← houter]
    cases (scope.map binderSymbol).idxOf? (symbol term) with
    | none => rfl
    | some index => rfl

/-- The term of a formula says what the formula says with symbols for its names. -/
theorem holds_translation {f : Formula} (hf : f.WellFormed) {env : Environment D}
    (henv : Agrees constants valuation scope env) :
    (translation f scope).Holds M constants valuation ↔
      (reading f).Holds (fun _ ↦ True) M env := by
  induction hf generalizing scope valuation env with
  | atom a =>
      have hargs : (a.args.map (individual scope)).map (·.value constants valuation) =
          (a.args.map symbol).map env := by
        rw [List.map_map, List.map_map]
        exact List.map_congr_left fun term _ ↦ henv term
      rw [translation_ofAtom, Term.Holds, reading_ofAtom, Formula.holds_ofAtom, hargs]
      rfl
  | @conj fs _ ih =>
      rw [translation_conj, reading_conj, Formula.holds_conj, List.forall_mem_map]
      split
      case isTrue hnone => simp [List.isEmpty_iff.mp hnone, Term.Holds]
      case isFalse =>
        rw [Term.Holds, Term.holdsAll_iff, List.forall_mem_map]
        exact forall₂_congr fun f hf ↦ ih f hf henv
  | @disj fs _ ih =>
      rw [translation_disj, reading_disj, Formula.holds_disj]
      split
      case isTrue hnone => simp [List.isEmpty_iff.mp hnone, Term.Holds]
      case isFalse =>
        simp only [Term.Holds, Term.holdsAny_iff, List.mem_map, exists_exists_and_eq_and]
        exact exists_congr fun f ↦ and_congr_right fun hf ↦ ih f hf henv
  | neg _ ih =>
      rw [translation_neg, Term.Holds, reading_neg, Formula.holds_neg, ih henv]
  | imp _ _ ihl ihr =>
      rw [translation_imp, Term.Holds, reading_imp, Formula.holds_imp, ihl henv, ihr henv]
  | equiv _ _ ihl ihr =>
      rw [translation_equiv, holds_equivalence, reading_equiv, Formula.holds_equiv, ihl henv,
        ihr henv]
  | univ _ ih =>
      simp only [translation_univ, Term.Holds, reading_univ, Formula.holds_univ, true_imp_iff]
      exact forall_congr' fun d ↦ ih (henv.push _ d)
  | exist _ ih =>
      simp only [translation_exist, Term.Holds, reading_exist, Formula.holds_exist, true_and]
      exact exists_congr fun d ↦ ih (henv.push _ d)

/-- Without quantifiers, truth with symbols for names is truth in the structure that interprets
names by their symbols. -/
theorem holds_reading {allowed : Connective → Prop} {f : Formula}
    (hf : f.Propositional allowed) {range : D → Prop} {env : Environment D} :
    (reading f).Holds range M env ↔
      f.Holds range (fun name args ↦ M (symbol name) args) (env ∘ symbol) := by
  induction hf with
  | atom a => simp [symbolic]
  | conj _ ih =>
      rw [reading_conj, Formula.holds_conj, Formula.holds_conj, List.forall_mem_map]
      exact forall₂_congr ih
  | disj _ ih =>
      simp only [reading_disj, Formula.holds_disj, List.mem_map, exists_exists_and_eq_and]
      exact exists_congr fun f ↦ and_congr_right (ih f)
  | neg _ ih => rw [reading_neg, Formula.holds_neg, Formula.holds_neg, ih]
  | imp _ _ _ ihl ihr => rw [reading_imp, Formula.holds_imp, Formula.holds_imp, ihl, ihr]
  | equiv _ _ _ ihl ihr => rw [reading_equiv, Formula.holds_equiv, Formula.holds_equiv, ihl, ihr]

end Diagnosis.Smt
