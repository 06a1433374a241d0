import Diagnosis.Formula.Conjuncts
import Diagnosis.Formula.Semantics
import Diagnosis.Formula.Variables

/-!
# Propositional formulas

What the tests and the truth of a formula come to on each constructor, and the formulas that are
built without quantifiers. `Propositional` is indexed by the connectives that may occur besides
conjunction, disjunction and negation, because the steps to normal form remove them one by one.

A ground formula is propositional and closed. Its truth is a matter of its atoms alone.
-/

namespace Diagnosis.Formula

/-! ## Constructors

The equations hold by computation. For a fixed number of operands they do so up to the empty rest of
their list, which has to be removed.
-/

section Constructors

variable (a : Atom) (fs : List Formula) (f g : Formula) (x sort : String)

@[simp] theorem containsQuantifier_ofAtom : (ofAtom a).containsQuantifier = false :=
  rfl

@[simp] theorem containsQuantifier_conj :
    (conj fs).containsQuantifier = fs.any containsQuantifier :=
  anyContainsQuantifier_eq_any fs

@[simp] theorem containsQuantifier_disj :
    (disj fs).containsQuantifier = fs.any containsQuantifier :=
  anyContainsQuantifier_eq_any fs

@[simp] theorem containsQuantifier_neg : (neg f).containsQuantifier = f.containsQuantifier :=
  Bool.or_false _

@[simp] theorem containsQuantifier_imp :
    (imp f g).containsQuantifier = (f.containsQuantifier || g.containsQuantifier) := by
  show (f.containsQuantifier || (g.containsQuantifier || false)) = _
  rw [Bool.or_false]

@[simp] theorem containsQuantifier_equiv :
    (equiv f g).containsQuantifier = (f.containsQuantifier || g.containsQuantifier) := by
  show (f.containsQuantifier || (g.containsQuantifier || false)) = _
  rw [Bool.or_false]

@[simp] theorem containsQuantifier_univ : (univ x f sort).containsQuantifier = true :=
  rfl

@[simp] theorem containsQuantifier_exist : (exist x f sort).containsQuantifier = true :=
  rfl

@[simp] theorem freeVariables_ofAtom : (ofAtom a).freeVariables = a.variableArgs :=
  rfl

@[simp] theorem freeVariables_conj : (conj fs).freeVariables = fs.flatMap freeVariables :=
  freeVariablesAll_eq_flatMap fs

@[simp] theorem freeVariables_disj : (disj fs).freeVariables = fs.flatMap freeVariables :=
  freeVariablesAll_eq_flatMap fs

@[simp] theorem freeVariables_neg : (neg f).freeVariables = f.freeVariables :=
  List.append_nil _

@[simp] theorem freeVariables_imp :
    (imp f g).freeVariables = f.freeVariables ++ g.freeVariables := by
  show f.freeVariables ++ (g.freeVariables ++ []) = _
  rw [List.append_nil]

@[simp] theorem freeVariables_equiv :
    (equiv f g).freeVariables = f.freeVariables ++ g.freeVariables := by
  show f.freeVariables ++ (g.freeVariables ++ []) = _
  rw [List.append_nil]

@[simp] theorem freeVariables_univ :
    (univ x f sort).freeVariables = f.freeVariables.filter fun y => some y != some x := by
  show (f.freeVariables ++ []).filter _ = _
  rw [List.append_nil]

@[simp] theorem freeVariables_exist :
    (exist x f sort).freeVariables = f.freeVariables.filter fun y => some y != some x := by
  show (f.freeVariables ++ []).filter _ = _
  rw [List.append_nil]

@[simp] theorem atoms_ofAtom : (ofAtom a).atoms = [a] :=
  rfl

@[simp] theorem atoms_conj : (conj fs).atoms = fs.flatMap atoms :=
  atomsAll_eq_flatMap fs

@[simp] theorem atoms_disj : (disj fs).atoms = fs.flatMap atoms :=
  atomsAll_eq_flatMap fs

@[simp] theorem atoms_neg : (neg f).atoms = f.atoms :=
  List.append_nil _

@[simp] theorem atoms_imp : (imp f g).atoms = f.atoms ++ g.atoms := by
  show f.atoms ++ (g.atoms ++ []) = _
  rw [List.append_nil]

@[simp] theorem atoms_equiv : (equiv f g).atoms = f.atoms ++ g.atoms := by
  show f.atoms ++ (g.atoms ++ []) = _
  rw [List.append_nil]

@[simp] theorem atoms_univ : (univ x f sort).atoms = f.atoms :=
  List.append_nil _

@[simp] theorem atoms_exist : (exist x f sort).atoms = f.atoms :=
  List.append_nil _

end Constructors

/-! ## Truth -/

section Truth

variable {D : Type} {range : D → Prop} {M : Structure D} {env : Environment D}

@[simp] theorem holds_ofAtom (a : Atom) :
    (ofAtom a).Holds range M env ↔ M a.name (a.args.map env) :=
  Iff.rfl

@[simp] theorem holds_conj (fs : List Formula) :
    (conj fs).Holds range M env ↔ ∀ f ∈ fs, f.Holds range M env :=
  holdsAll_iff range M fs env

@[simp] theorem holds_disj (fs : List Formula) :
    (disj fs).Holds range M env ↔ ∃ f ∈ fs, f.Holds range M env :=
  holdsAny_iff range M fs env

@[simp] theorem holds_neg (f : Formula) :
    (neg f).Holds range M env ↔ ¬ f.Holds range M env :=
  Iff.rfl

@[simp] theorem holds_imp (f g : Formula) :
    (imp f g).Holds range M env ↔ (f.Holds range M env → g.Holds range M env) :=
  Iff.rfl

@[simp] theorem holds_equiv (f g : Formula) :
    (equiv f g).Holds range M env ↔ (f.Holds range M env ↔ g.Holds range M env) :=
  Iff.rfl

@[simp] theorem holds_univ (x : String) (f : Formula) (sort : String) :
    (univ x f sort).Holds range M env ↔ ∀ d, range d → f.Holds range M (env.update x d) :=
  Iff.rfl

@[simp] theorem holds_exist (x : String) (f : Formula) (sort : String) :
    (exist x f sort).Holds range M env ↔ ∃ d, range d ∧ f.Holds range M (env.update x d) :=
  Iff.rfl

end Truth

/-! ## Propositional and ground formulas -/

/-- The formula is built without quantifiers, from conjunction, disjunction, negation and those of
implication and equivalence that are allowed. -/
inductive Propositional (allowed : Connective → Prop) : Formula → Prop where
  | atom (a : Atom) : Propositional allowed (ofAtom a)
  | conj {fs : List Formula} (parts : ∀ f ∈ fs, Propositional allowed f) :
      Propositional allowed (conj fs)
  | disj {fs : List Formula} (parts : ∀ f ∈ fs, Propositional allowed f) :
      Propositional allowed (disj fs)
  | neg {f : Formula} (part : Propositional allowed f) : Propositional allowed (neg f)
  | imp {f g : Formula} (hallowed : allowed .implies) (left : Propositional allowed f)
      (right : Propositional allowed g) : Propositional allowed (imp f g)
  | equiv {f g : Formula} (hallowed : allowed .iff) (left : Propositional allowed f)
      (right : Propositional allowed g) : Propositional allowed (equiv f g)

/-- All connectives are allowed. -/
def anyConnective (_ : Connective) : Prop := True

/-- A well-formed formula without quantifiers is propositional. -/
theorem WellFormed.propositional {f : Formula} (hf : f.WellFormed)
    (hplain : f.containsQuantifier = false) : f.Propositional anyConnective := by
  induction hf with
  | atom a => exact .atom a
  | conj parts ih =>
      refine .conj fun f hf ↦ ih f hf ?_
      rw [containsQuantifier_conj, List.any_eq_false] at hplain
      simpa using hplain f hf
  | disj parts ih =>
      refine .disj fun f hf ↦ ih f hf ?_
      rw [containsQuantifier_disj, List.any_eq_false] at hplain
      simpa using hplain f hf
  | neg part ih => exact .neg (ih (by simpa using hplain))
  | imp left right ihl ihr =>
      rw [containsQuantifier_imp, Bool.or_eq_false_iff] at hplain
      exact .imp trivial (ihl hplain.1) (ihr hplain.2)
  | equiv left right ihl ihr =>
      rw [containsQuantifier_equiv, Bool.or_eq_false_iff] at hplain
      exact .equiv trivial (ihl hplain.1) (ihr hplain.2)
  | univ body ih => simp at hplain
  | exist body ih => simp at hplain

/-- A propositional formula is well formed. -/
theorem Propositional.wellFormed {allowed : Connective → Prop} {f : Formula}
    (hf : f.Propositional allowed) : f.WellFormed := by
  induction hf with
  | atom a => exact .atom a
  | conj _ ih => exact .conj ih
  | disj _ ih => exact .disj ih
  | neg _ ih => exact .neg ih
  | imp _ _ _ ihl ihr => exact .imp ihl ihr
  | equiv _ _ _ ihl ihr => exact .equiv ihl ihr

/-- A propositional formula has no quantifiers. -/
theorem Propositional.plain {allowed : Connective → Prop} {f : Formula}
    (hf : f.Propositional allowed) : f.containsQuantifier = false := by
  induction hf with
  | atom a => simp
  | conj _ ih => simpa using ih
  | disj _ ih => simpa using ih
  | neg _ ih => simpa using ih
  | imp _ _ _ ihl ihr => simp [ihl, ihr]
  | equiv _ _ _ ihl ihr => simp [ihl, ihr]

/-- The truth of a propositional formula depends on the truth of its atoms alone. -/
theorem Propositional.holds_congr {allowed : Connective → Prop} {f : Formula}
    (hf : f.Propositional allowed) {D D' : Type} {M : Structure D} {M' : Structure D'}
    {env : Environment D} {env' : Environment D'} (range : D → Prop) (range' : D' → Prop)
    (h : ∀ a ∈ f.atoms, (M a.name (a.args.map env) ↔ M' a.name (a.args.map env'))) :
    f.Holds range M env ↔ f.Holds range' M' env' := by
  induction hf with
  | atom a => simpa using h
  | conj _ ih =>
      rw [atoms_conj] at h
      rw [holds_conj, holds_conj]
      exact forall₂_congr fun f hf ↦
        ih f hf fun a ha ↦ h a (List.mem_flatMap.mpr ⟨f, hf, ha⟩)
  | disj _ ih =>
      rw [atoms_disj] at h
      rw [holds_disj, holds_disj]
      exact exists_congr fun f ↦ and_congr_right fun hf ↦
        ih f hf fun a ha ↦ h a (List.mem_flatMap.mpr ⟨f, hf, ha⟩)
  | neg _ ih => simp [ih (by simpa using h)]
  | imp _ _ _ ihl ihr =>
      rw [atoms_imp, List.forall_mem_append] at h
      simp [ihl h.1, ihr h.2]
  | equiv _ _ _ ihl ihr =>
      rw [atoms_equiv, List.forall_mem_append] at h
      simp [ihl h.1, ihr h.2]

/-- What quantifiers would range over does not matter to a propositional formula. -/
theorem Propositional.holds_range {allowed : Connective → Prop} {f : Formula}
    (hf : f.Propositional allowed) {D : Type} {M : Structure D} {env : Environment D}
    (range range' : D → Prop) : f.Holds range M env ↔ f.Holds range' M env :=
  hf.holds_congr range range' fun _ _ ↦ Iff.rfl

/-- A well-formed formula without quantifiers and free variables. -/
structure Ground (f : Formula) : Prop where
  wellFormed : f.WellFormed
  plain : f.containsQuantifier = false
  closed : f.isClosed = true

/-- A ground formula is propositional. -/
theorem Ground.propositional {f : Formula} (hf : f.Ground) : f.Propositional anyConnective :=
  hf.wellFormed.propositional hf.plain

/-- A closed propositional formula is ground. -/
theorem Propositional.ground {allowed : Connective → Prop} {f : Formula}
    (hf : f.Propositional allowed) (hclosed : f.isClosed = true) : f.Ground :=
  ⟨hf.wellFormed, hf.plain, hclosed⟩

end Diagnosis.Formula
