import Diagnosis.Formula.Substitution
import Diagnosis.Proofs.Formula.Terms
import Diagnosis.Proofs.Keyed

/-!
# Substitution in well-formed formulas

Substitution keeps every constructor, and below a quantifier it leaves the variable alone. As long
as no new term is the variable of a quantifier, it replaces the free terms (`freeTerms_substitute`),
and what is true afterwards is what was true of the replacements (`holds_substitute`). Both together
are the substitution lemma (`substitute_faithful`). In a propositional formula nothing is captured.
-/

namespace Diagnosis

@[simp] theorem Atom.substitute_nil (a : Atom) : a.substitute [] = a := by
  have himage : Substitution.image [] = id := rfl
  simp [Atom.substitute, Atom.mapArgs, himage]

/-! ## Replacements -/

namespace Substitution

variable {theta : Substitution} {x term replacement : String}

/-- The image of a term is its replacement or, where it is no key, the term itself. -/
theorem image_eq_iff : theta.image term = replacement ↔
    theta.lookup (some term) = some replacement ∨
      some term ∉ theta.map Prod.fst ∧ term = replacement := by
  rw [image, ← Keyed.lookup_eq_none]
  cases theta.lookup (some term) with
  | none => simp
  | some other => simp

/-- A bound variable has no replacement, and other terms keep theirs. -/
theorem lookup_without (theta : Substitution) (x term : String) :
    (theta.without (some x)).lookup (some term) =
      if term = x then none else theta.lookup (some term) := by
  rw [without, Keyed.lookup_filter_ne]
  exact if_congr (Option.some_inj) rfl rfl

/-- A bound variable stays. -/
theorem image_without_self (theta : Substitution) (x : String) :
    (theta.without (some x)).image x = x := by
  rw [image, lookup_without, if_pos rfl, Option.getD_none]

/-- What is not bound is replaced as before. -/
theorem image_without_of_ne (h : term ≠ x) :
    (theta.without (some x)).image term = theta.image term := by
  rw [image, lookup_without, if_neg h, image]

/-- A term that is not among the new ones is the replacement of itself only. -/
theorem image_ne (hnew : ∀ entry ∈ theta, entry.2 ≠ x) (h : term ≠ x) : theta.image term ≠ x := by
  rw [image]
  cases hlookup : theta.lookup (some term) with
  | none => exact h
  | some replacement => exact hnew _ (Keyed.mem_of_lookup hlookup)

/-- The entries that a quantifier leaves are entries. -/
theorem forall_mem_without {P : Option String × String → Prop} (h : ∀ entry ∈ theta, P entry)
    (x : Option String) : ∀ entry ∈ theta.without x, P entry :=
  fun entry hentry ↦ h entry (List.mem_of_mem_filter hentry)

end Substitution

/-- The environment in which every key has the value of its replacement, all at once. -/
def Environment.under {D : Type} (env : Environment D) (theta : Substitution) : Environment D :=
  fun term ↦
    match theta.lookup (some term) with
    | some replacement => env replacement
    | none => env term

namespace Environment

variable {D : Type} {env : Environment D} {theta : Substitution} {x : String}

/-- Every term has the value of its image. -/
theorem under_eq (env : Environment D) (theta : Substitution) :
    env.under theta = fun term ↦ env (theta.image term) := by
  funext term
  rw [under, Substitution.image]
  cases theta.lookup (some term) with
  | none => rfl
  | some replacement => rfl

/-- Below a quantifier the variable has its own value, and so have the terms that the new ones
replace, none of which is the variable. -/
theorem update_under_without (hnew : ∀ entry ∈ theta, entry.2 ≠ x) (d : D) :
    (env.update x d).under (theta.without (some x)) = (env.under theta).update x d := by
  funext term
  simp only [under_eq, update]
  by_cases h : term = x
  · rw [h, Substitution.image_without_self, if_pos rfl, if_pos rfl]
  · rw [Substitution.image_without_of_ne h, if_neg (Substitution.image_ne hnew h), if_neg h]

end Environment

namespace Formula

/-! ## Constructors -/

section Constructors

variable (theta : Substitution) (a : Atom) (fs : List Formula) (f g : Formula) (x sort : String)

/-- Without entries nothing is replaced. -/
@[simp] theorem substitute_nil : f.substitute [] = f := by
  obtain ⟨p, c, fs, x, s⟩ := f
  simp [substitute]

@[simp] theorem substitute_ofAtom :
    (ofAtom a).substitute theta = ofAtom (a.substitute theta) := by
  cases theta <;> simp [ofAtom, substitute]

/-- At a node that binds no variable, substitution goes on to the operands. -/
theorem substitute_node {c : Connective} (hc : c.isQuantifier = false) :
    ({ connective := some c, children := fs } : Formula).substitute theta =
      { connective := some c, children := fs.map (·.substitute theta) } := by
  cases theta <;> simp [substitute, hc]

/-- At a quantifier, substitution goes on to the operands without the entries of the variable. -/
theorem substitute_quantifier {c : Connective} (hc : c.isQuantifier = true) :
    ({ connective := some c, children := [f], binder := some x, sort := some sort } :
        Formula).substitute theta =
      { connective := some c, children := [f.substitute (theta.without (some x))],
        binder := some x, sort := some sort } := by
  cases theta with
  | nil => simp [substitute, Substitution.without]
  | cons entry theta => simp [substitute, hc]

@[simp] theorem substitute_conj :
    (conj fs).substitute theta = conj (fs.map (·.substitute theta)) :=
  substitute_node theta fs rfl

@[simp] theorem substitute_disj :
    (disj fs).substitute theta = disj (fs.map (·.substitute theta)) :=
  substitute_node theta fs rfl

@[simp] theorem substitute_neg : (neg f).substitute theta = neg (f.substitute theta) :=
  substitute_node theta [f] rfl

@[simp] theorem substitute_imp :
    (imp f g).substitute theta = imp (f.substitute theta) (g.substitute theta) :=
  substitute_node theta [f, g] rfl

@[simp] theorem substitute_equiv :
    (equiv f g).substitute theta = equiv (f.substitute theta) (g.substitute theta) :=
  substitute_node theta [f, g] rfl

@[simp] theorem substitute_univ : (univ x f sort).substitute theta =
    univ x (f.substitute (theta.without (some x))) sort :=
  substitute_quantifier theta f x sort rfl

@[simp] theorem substitute_exist : (exist x f sort).substitute theta =
    exist x (f.substitute (theta.without (some x))) sort :=
  substitute_quantifier theta f x sort rfl

end Constructors

/-! ## Substitution without capture -/

variable {f : Formula} {theta : Substitution}

/-- No new term is the variable of a quantifier in the formula. -/
def CaptureFree (f : Formula) (theta : Substitution) : Prop :=
  ∀ entry ∈ theta, entry.2 ∉ f.binders

section CaptureFree

variable {fs : List Formula} {g : Formula} {x : String}

/-- What captures nothing in a list captures nothing in its members. -/
theorem captureFree_flatMap (h : ∀ entry ∈ theta, entry.2 ∉ fs.flatMap binders) :
    ∀ f ∈ fs, f.CaptureFree theta :=
  fun f hf entry hentry hmem ↦ h entry hentry (List.mem_flatMap.mpr ⟨f, hf, hmem⟩)

/-- What captures nothing in two formulas captures nothing in either. -/
theorem captureFree_append (h : ∀ entry ∈ theta, entry.2 ∉ f.binders ++ g.binders) :
    f.CaptureFree theta ∧ g.CaptureFree theta :=
  ⟨fun entry hentry hmem ↦ h entry hentry (List.mem_append_left _ hmem),
    fun entry hentry hmem ↦ h entry hentry (List.mem_append_right _ hmem)⟩

/-- What a quantifier does not capture is not its variable, and below it nothing is captured of the
entries that it leaves. -/
theorem captureFree_cons (h : ∀ entry ∈ theta, entry.2 ∉ x :: f.binders) :
    (∀ entry ∈ theta, entry.2 ≠ x) ∧ f.CaptureFree (theta.without (some x)) :=
  ⟨fun entry hentry hx ↦ h entry hentry (hx ▸ List.mem_cons_self),
    Substitution.forall_mem_without (fun entry hentry hmem ↦
      h entry hentry (List.mem_cons_of_mem _ hmem)) _⟩

end CaptureFree

/-- In a propositional formula nothing is captured. -/
theorem Propositional.captureFree {allowed : Connective → Prop} (hf : f.Propositional allowed)
    (theta : Substitution) : f.CaptureFree theta := by
  intro entry _
  rw [hf.binders_eq_nil]
  exact List.not_mem_nil

/-- Below a quantifier the terms that are free outside are replaced, and none of the replacements
is the variable. -/
theorem filter_image_without {x : String} (hnew : ∀ entry ∈ theta, entry.2 ≠ x)
    (terms : List String) :
    (terms.map (theta.without (some x)).image).filter (fun y ↦ some y != some x) =
      (terms.filter fun y ↦ some y != some x).map theta.image := by
  induction terms with
  | nil => rfl
  | cons term terms ih =>
      rw [List.map_cons]
      by_cases h : term = x
      · rw [h, Substitution.image_without_self, List.filter_cons_of_neg (by simp),
          List.filter_cons_of_neg (by simp), ih]
      · have himage : theta.image term ≠ x := Substitution.image_ne hnew h
        rw [Substitution.image_without_of_ne h, List.filter_cons_of_pos (by simpa using himage),
          List.filter_cons_of_pos (by simpa using h), List.map_cons, ih]

/-- Substitution keeps the connectives of a propositional formula. -/
theorem Propositional.substitute {allowed : Connective → Prop} (hf : f.Propositional allowed)
    (theta : Substitution) : (f.substitute theta).Propositional allowed := by
  induction hf with
  | atom a =>
      rw [substitute_ofAtom]
      exact .atom _
  | conj parts ih =>
      rw [substitute_conj]
      exact .conj (List.forall_mem_map.mpr ih)
  | disj parts ih =>
      rw [substitute_disj]
      exact .disj (List.forall_mem_map.mpr ih)
  | neg part ih =>
      rw [substitute_neg]
      exact .neg ih
  | imp hallowed left right ihl ihr =>
      rw [substitute_imp]
      exact .imp hallowed ihl ihr
  | equiv hallowed left right ihl ihr =>
      rw [substitute_equiv]
      exact .equiv hallowed ihl ihr

namespace WellFormed

/-- Substitution keeps the constructors. -/
theorem substitute (hf : f.WellFormed) (theta : Substitution) :
    (f.substitute theta).WellFormed := by
  induction hf generalizing theta with
  | atom a =>
      rw [substitute_ofAtom]
      exact .atom _
  | conj _ ih =>
      rw [substitute_conj]
      exact .conj (List.forall_mem_map.mpr fun f hf ↦ ih f hf theta)
  | disj _ ih =>
      rw [substitute_disj]
      exact .disj (List.forall_mem_map.mpr fun f hf ↦ ih f hf theta)
  | neg _ ih =>
      rw [substitute_neg]
      exact .neg (ih theta)
  | imp _ _ ihl ihr =>
      rw [substitute_imp]
      exact .imp (ihl theta) (ihr theta)
  | equiv _ _ ihl ihr =>
      rw [substitute_equiv]
      exact .equiv (ihl theta) (ihr theta)
  | univ _ ih =>
      rw [substitute_univ]
      exact .univ (ih _)
  | exist _ ih =>
      rw [substitute_exist]
      exact .exist (ih _)

/-- The free terms are replaced. -/
theorem freeTerms_substitute (hf : f.WellFormed) (hcapture : f.CaptureFree theta) :
    (f.substitute theta).freeTerms = f.freeTerms.map theta.image := by
  induction hf generalizing theta with
  | atom a =>
      rw [substitute_ofAtom, freeTerms_ofAtom, freeTerms_ofAtom]
      rfl
  | conj _ ih =>
      rw [CaptureFree, binders_conj] at hcapture
      rw [substitute_conj, freeTerms_conj, freeTerms_conj, List.flatMap_map, List.map_flatMap]
      exact List.flatMap_congr fun f hf ↦ ih f hf (captureFree_flatMap hcapture f hf)
  | disj _ ih =>
      rw [CaptureFree, binders_disj] at hcapture
      rw [substitute_disj, freeTerms_disj, freeTerms_disj, List.flatMap_map, List.map_flatMap]
      exact List.flatMap_congr fun f hf ↦ ih f hf (captureFree_flatMap hcapture f hf)
  | neg _ ih =>
      rw [CaptureFree, binders_neg] at hcapture
      rw [substitute_neg, freeTerms_neg, freeTerms_neg, ih hcapture]
  | imp _ _ ihl ihr =>
      rw [CaptureFree, binders_imp] at hcapture
      obtain ⟨hleft, hright⟩ := captureFree_append hcapture
      rw [substitute_imp, freeTerms_imp, freeTerms_imp, ihl hleft, ihr hright, List.map_append]
  | equiv _ _ ihl ihr =>
      rw [CaptureFree, binders_equiv] at hcapture
      obtain ⟨hleft, hright⟩ := captureFree_append hcapture
      rw [substitute_equiv, freeTerms_equiv, freeTerms_equiv, ihl hleft, ihr hright,
        List.map_append]
  | univ _ ih =>
      rw [CaptureFree, binders_univ] at hcapture
      obtain ⟨hnew, hbody⟩ := captureFree_cons hcapture
      rw [substitute_univ, freeTerms_univ, freeTerms_univ, ih hbody, filter_image_without hnew]
  | exist _ ih =>
      rw [CaptureFree, binders_exist] at hcapture
      obtain ⟨hnew, hbody⟩ := captureFree_cons hcapture
      rw [substitute_exist, freeTerms_exist, freeTerms_exist, ih hbody, filter_image_without hnew]

/-- After a substitution the formula says what it said of the replacements. -/
theorem holds_substitute (hf : f.WellFormed) (hcapture : f.CaptureFree theta) {D : Type}
    {range : D → Prop} {M : Structure D} {env : Environment D} :
    (f.substitute theta).Holds range M env ↔ f.Holds range M (env.under theta) := by
  induction hf generalizing theta env with
  | atom a =>
      rw [substitute_ofAtom, holds_ofAtom, holds_ofAtom, Atom.substitute, Atom.mapArgs,
        List.map_map, Environment.under_eq]
      rfl
  | conj _ ih =>
      rw [CaptureFree, binders_conj] at hcapture
      rw [substitute_conj, holds_conj, holds_conj, List.forall_mem_map]
      exact forall₂_congr fun f hf ↦ ih f hf (captureFree_flatMap hcapture f hf)
  | disj _ ih =>
      rw [CaptureFree, binders_disj] at hcapture
      simp only [substitute_disj, holds_disj, List.mem_map, exists_exists_and_eq_and]
      exact exists_congr fun f ↦ and_congr_right fun hf ↦
        ih f hf (captureFree_flatMap hcapture f hf)
  | neg _ ih =>
      rw [CaptureFree, binders_neg] at hcapture
      rw [substitute_neg, holds_neg, holds_neg, ih hcapture]
  | imp _ _ ihl ihr =>
      rw [CaptureFree, binders_imp] at hcapture
      obtain ⟨hleft, hright⟩ := captureFree_append hcapture
      rw [substitute_imp, holds_imp, holds_imp, ihl hleft, ihr hright]
  | equiv _ _ ihl ihr =>
      rw [CaptureFree, binders_equiv] at hcapture
      obtain ⟨hleft, hright⟩ := captureFree_append hcapture
      rw [substitute_equiv, holds_equiv, holds_equiv, ihl hleft, ihr hright]
  | univ _ ih =>
      rw [CaptureFree, binders_univ] at hcapture
      obtain ⟨hnew, hbody⟩ := captureFree_cons hcapture
      rw [substitute_univ, holds_univ, holds_univ]
      refine forall₂_congr fun d _ ↦ ?_
      rw [ih hbody, Environment.update_under_without hnew]
  | exist _ ih =>
      rw [CaptureFree, binders_exist] at hcapture
      obtain ⟨hnew, hbody⟩ := captureFree_cons hcapture
      rw [substitute_exist, holds_exist, holds_exist]
      refine exists_congr fun d ↦ and_congr_right fun _ ↦ ?_
      rw [ih hbody, Environment.update_under_without hnew]

/-- The free variables after a substitution of variables are those that are no keys, and the new
variables that replace free ones. -/
theorem mem_freeVariables_substitute (hf : f.WellFormed) (hcapture : f.CaptureFree theta)
    (hkeys : ∀ entry ∈ theta, ∃ x, entry.1 = some x ∧ isVariable x = true) {y : String} :
    y ∈ (f.substitute theta).freeVariables ↔
      y ∈ f.freeVariables ∧ some y ∉ theta.map Prod.fst ∨
        ∃ x ∈ f.freeVariables, theta.lookup (some x) = some y ∧ isVariable y = true := by
  rw [(hf.substitute theta).freeVariables_eq, hf.freeTerms_substitute hcapture, hf.freeVariables_eq]
  simp only [List.mem_filter, List.mem_map, Substitution.image_eq_iff]
  constructor
  · rintro ⟨⟨term, hterm, hlookup | ⟨hnone, rfl⟩⟩, hvariable⟩
    · obtain ⟨x, hx, hkey⟩ := hkeys _ (Keyed.mem_of_lookup hlookup)
      obtain rfl : term = x := Option.some.inj hx
      exact .inr ⟨term, ⟨hterm, hkey⟩, hlookup, hvariable⟩
    · exact .inl ⟨⟨hterm, hvariable⟩, hnone⟩
  · rintro (⟨⟨hterm, hvariable⟩, hnone⟩ | ⟨x, ⟨hterm, _⟩, hlookup, hvariable⟩)
    · exact ⟨⟨y, hterm, .inr ⟨hnone, rfl⟩⟩, hvariable⟩
    · exact ⟨⟨x, hterm, .inl hlookup⟩, hvariable⟩

/-- The substitution lemma. If every key is a variable and no new term is the variable of a
quantifier, the formula says after the substitution, in every structure, what it said of the
replacements, and its free variables are those that are no keys, and the variables that replace free
ones. -/
theorem substitute_faithful (hf : f.WellFormed)
    (hkeys : ∀ entry ∈ theta, ∃ x, entry.1 = some x ∧ isVariable x = true)
    (hcapture : ∀ entry ∈ theta, entry.2 ∉ f.binders) :
    (∀ {D : Type} (range : D → Prop) (M : Structure D) (env : Environment D),
      (f.substitute theta).Holds range M env ↔ f.Holds range M (env.under theta)) ∧
    ∀ y, y ∈ (f.substitute theta).freeVariables ↔
      y ∈ f.freeVariables ∧ some y ∉ theta.map Prod.fst ∨
        ∃ x ∈ f.freeVariables, theta.lookup (some x) = some y ∧ isVariable y = true :=
  ⟨fun _ _ _ ↦ hf.holds_substitute hcapture,
    fun _ ↦ hf.mem_freeVariables_substitute hcapture hkeys⟩

end WellFormed

/-- An atom of two variables and, below a quantifier of the first one, the same atom. -/
def shadowedFormula : Formula :=
  conj [atom "p" ["?x", "?y"], univ "?x" (atom "p" ["?x", "?y"])]

/-- Both variables are replaced at once, and below the quantifier the second one alone. -/
theorem shadowedFormula_substitute :
    let theta : Substitution := [(some "?x", "?y"), (some "?y", "a")]
    shadowedFormula.substitute theta =
        conj [atom "p" ["?y", "a"], univ "?x" (atom "p" ["?x", "a"])] ∧
      (∀ y, y ∈ (shadowedFormula.substitute theta).freeVariables ↔ y = "?y") ∧
      ∀ {D : Type} (range : D → Prop) (M : Structure D) (env : Environment D),
        (shadowedFormula.substitute theta).Holds range M env ↔
          M "p" [env "?y", env "a"] ∧ ∀ d, range d → M "p" [d, env "a"] := by
  intro theta
  have hwellFormed : shadowedFormula.WellFormed := by
    refine .conj (List.forall_mem_cons.mpr ⟨.atom _, List.forall_mem_singleton.mpr ?_⟩)
    exact .univ (.atom _)
  have hkeys : ∀ entry ∈ theta, ∃ x, entry.1 = some x ∧ isVariable x = true := by
    simp only [theta, List.forall_mem_cons]
    exact ⟨⟨"?x", rfl, by decide⟩, ⟨"?y", rfl, by decide⟩, by simp⟩
  have hcapture : ∀ entry ∈ theta, entry.2 ∉ shadowedFormula.binders := by decide
  obtain ⟨hholds, hfree⟩ := hwellFormed.substitute_faithful hkeys hcapture
  have hvariables : shadowedFormula.freeVariables = ["?x", "?y", "?y"] := by decide
  refine ⟨by decide, fun y ↦ ?_, fun range M env ↦ ?_⟩
  · rw [hfree, hvariables]
    constructor
    · rintro (⟨hy, hkey⟩ | ⟨x, hx, hlookup, hvariable⟩)
      · -- Both variables are keys.
        simp only [List.mem_cons, List.not_mem_nil, or_false, or_self] at hy
        rcases hy with rfl | rfl <;> exact absurd hkey (by decide)
      · simp only [List.mem_cons, List.not_mem_nil, or_false, or_self] at hx
        rcases hx with rfl | rfl
        · exact (Option.some.inj hlookup).symm
        · obtain rfl := Option.some.inj hlookup
          exact absurd hvariable (by decide)
    · rintro rfl
      exact .inr ⟨"?x", by decide, by decide, by decide⟩
  · rw [hholds, shadowedFormula, holds_conj, List.forall_mem_cons, List.forall_mem_singleton]
    exact Iff.rfl

/-- A constant in the place of the only free variable leaves nothing free. -/
theorem Propositional.isClosed_substitute {allowed : Connective → Prop}
    (hf : f.Propositional allowed) {x term : String} (hfree : ∀ y ∈ f.freeVariables, y = x)
    (hterm : isVariable term = false) : (f.substitute [(some x, term)]).isClosed = true := by
  rw [isClosed, List.isEmpty_iff, (hf.wellFormed.substitute _).freeVariables_eq,
    hf.wellFormed.freeTerms_substitute (hf.captureFree _), List.filter_eq_nil_iff,
    List.forall_mem_map]
  intro y hy hvariable
  by_cases hyx : y = x
  · simp [Substitution.image, hyx, hterm] at hvariable
  · -- Any other term stays, and were it a variable, it would be free already.
    rw [Substitution.image, Keyed.lookup_entry, if_neg (Option.some_inj.not.mpr hyx)] at hvariable
    refine hyx (hfree y ?_)
    rw [hf.wellFormed.freeVariables_eq]
    exact List.mem_filter.mpr ⟨hy, hvariable⟩

end Formula

end Diagnosis
