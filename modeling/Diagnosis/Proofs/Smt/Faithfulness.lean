import Diagnosis.Proofs.Smt.Agreement

/-!
# What an encoded formula says

Of formulas that are encoded one after the other, each open one is refused for its first free
variable, and each closed one becomes a term that is true in the same structures as the formula with
symbols for its names. All constants of the terms are entered, also those of formulas that were
encoded after a refusal, and the unique names keep them apart (`encodeEach_faithful`).

The formula with symbols is the formula itself where names have no null characters. Names that
differ only after their first null character are one name to the term, but remain two constants of
the signature.
-/

namespace Diagnosis.Smt

variable {scope : Scope} {signature : Signature}

/-! ## Constants of terms -/

/-- The constants of a list are those of its members. -/
theorem constantsAll_eq_flatMap (ts : List Term) : constantsAll ts = ts.flatMap Term.constants := by
  induction ts with
  | nil => rfl
  | cons t ts ih => rw [constantsAll, ih, List.flatMap_cons]

/-- The order in which an equivalence lists its sides does not matter. -/
theorem mem_constants_equivalence {s t : Term} {name : String} :
    name ∈ (Term.equivalence s t).constants ↔ name ∈ s.constants ∨ name ∈ t.constants := by
  rw [Term.equivalence]
  split
  · rw [Term.constants, List.mem_append, or_comm]
  · rw [Term.constants, List.mem_append]

/-- The name is the symbol of one of the terms that is no variable in scope. -/
def IsSymbolOutside (scope : Scope) (terms : List String) (name : String) : Prop :=
  ∃ term ∈ outside scope terms, symbol term = name

/-- More terms have more symbols. -/
theorem IsSymbolOutside.mono {terms more : List String} {name : String}
    (h : IsSymbolOutside scope terms name) (hmore : terms ⊆ more) :
    IsSymbolOutside scope more name := by
  obtain ⟨term, hterm, hsymbol⟩ := h
  rw [outside, List.mem_filter] at hterm
  exact ⟨term, List.mem_filter.mpr ⟨hmore hterm.1, hterm.2⟩, hsymbol⟩

/-- What becomes a constant is not in scope. -/
theorem isSymbolOutside_of_individual {term name : String}
    (h : individual scope term = .constant name) : IsSymbolOutside scope [term] name := by
  rw [individual] at h
  cases hindex : (scope.map binderSymbol).idxOf? (symbol term) with
  | some index =>
      rw [hindex] at h
      cases h
  | none =>
      rw [hindex] at h
      have houtside : scope.contains (some term) = false := by
        rw [← Bool.not_eq_true, List.contains_iff_mem]
        exact fun hscope ↦ List.idxOf?_eq_none_iff.mp hindex
          (List.mem_map.mpr ⟨some term, hscope, rfl⟩)
      refine ⟨term, List.mem_filter.mpr ⟨List.mem_singleton_self term, ?_⟩,
        Individual.constant.inj h⟩
      rw [houtside]
      rfl

/-- The constants of operands are those of the formulas. -/
theorem isSymbolOutside_of_operands {fs : List Formula} {name : String}
    (h : ∀ f ∈ fs, name ∈ (translation f scope).constants →
      IsSymbolOutside scope f.freeTerms name)
    (hname : name ∈ constantsAll (fs.map (translation · scope))) :
    IsSymbolOutside scope (fs.flatMap Formula.freeTerms) name := by
  rw [constantsAll_eq_flatMap, List.flatMap_map, List.mem_flatMap] at hname
  obtain ⟨f, hf, hname⟩ := hname
  exact (h f hf hname).mono fun term hterm ↦ List.mem_flatMap.mpr ⟨f, hf, hterm⟩

/-- The constants of a translation are the symbols of free terms that are not in scope. -/
theorem isSymbolOutside_of_mem_constants {f : Formula} (hf : f.WellFormed) {name : String}
    (hname : name ∈ (translation f scope).constants) :
    IsSymbolOutside scope f.freeTerms name := by
  induction hf generalizing scope with
  | atom a =>
      rw [translation_ofAtom, Term.constants, List.filterMap_map, List.mem_filterMap] at hname
      obtain ⟨term, hterm, hconstant⟩ := hname
      cases hindividual : individual scope term with
      | bound index => simp [hindividual] at hconstant
      | constant other =>
          obtain rfl : other = name := by simpa [hindividual] using hconstant
          exact (isSymbolOutside_of_individual hindividual).mono fun other hother ↦
            List.mem_singleton.mp hother ▸ hterm
  | @conj fs _ ih =>
      rw [translation_conj] at hname
      rw [Formula.freeTerms_conj]
      split at hname
      case isTrue => cases hname
      case isFalse => exact isSymbolOutside_of_operands (fun f hf ↦ ih f hf) hname
  | @disj fs _ ih =>
      rw [translation_disj] at hname
      rw [Formula.freeTerms_disj]
      split at hname
      case isTrue => cases hname
      case isFalse => exact isSymbolOutside_of_operands (fun f hf ↦ ih f hf) hname
  | neg _ ih =>
      rw [Formula.freeTerms_neg]
      exact ih hname
  | imp _ _ ihl ihr =>
      rw [translation_imp, Term.constants, List.mem_append] at hname
      rw [Formula.freeTerms_imp]
      rcases hname with hleft | hright
      · exact (ihl hleft).mono (List.subset_append_left _ _)
      · exact (ihr hright).mono (List.subset_append_right _ _)
  | equiv _ _ ihl ihr =>
      rw [translation_equiv, mem_constants_equivalence] at hname
      rw [Formula.freeTerms_equiv]
      rcases hname with hleft | hright
      · exact (ihl hleft).mono (List.subset_append_left _ _)
      · exact (ihr hright).mono (List.subset_append_right _ _)
  | univ _ ih =>
      have hbody := ih hname
      rwa [IsSymbolOutside, outside_cons, ← Formula.freeTerms_univ] at hbody
  | exist _ ih =>
      have hbody := ih hname
      rwa [IsSymbolOutside, outside_cons, ← Formula.freeTerms_exist] at hbody

/-! ## What encoding yields -/

/-- The term and the formula are true in the same structures. All individuals are what quantifiers
range over, whatever their sorts. -/
def SameTruth (t : Term) (f : Formula) : Prop :=
  ∀ (D : Type) (M : Structure D) (constants : Environment D) (valuation : Valuation D),
    t.Holds M constants valuation ↔ f.Holds (fun _ ↦ True) M constants

/-- What becomes of a formula: the fault of its first free variable or, if it has none, a term that
is true where the formula is with symbols for its names. The constants of the term are symbols of
constants of the formula, and these are in the signature. -/
inductive Encoded (signature : Signature) (f : Formula) : Except Fault Term → Prop where
  | refused {x : String} (first : f.freeVariables.head? = some x) :
      Encoded signature f (.error (.freeVariable x))
  | accepted {t : Term} (closed : f.isClosed = true) (truth : SameTruth t (reading f))
      (constants : ∀ s ∈ t.constants, ∃ name ∈ f.freeTerms, symbol name = s)
      (entered : ∀ name ∈ f.freeTerms, name ∈ signature.constants) :
      Encoded signature f (.ok t)

/-- A closed formula is one without a first free variable. -/
theorem isClosed_iff_head?_eq_none {f : Formula} :
    f.isClosed = true ↔ f.freeVariables.head? = none := by
  rw [Formula.isClosed, List.isEmpty_iff, List.head?_eq_none_iff]

/-- A formula with a free variable is refused for the first one. -/
theorem Encoded.eq_error {f : Formula} {result : Except Fault Term} {x : String}
    (h : Encoded signature f result) (hfirst : f.freeVariables.head? = some x) :
    result = .error (.freeVariable x) := by
  cases h with
  | refused hfirst' => rw [Option.some.inj (hfirst.symm.trans hfirst')]
  | accepted hclosed =>
      rw [isClosed_iff_head?_eq_none, hfirst] at hclosed
      cases hclosed

/-- A closed formula has a term, and its constants are in the signature. -/
theorem Encoded.exists_eq_ok {f : Formula} {result : Except Fault Term}
    (h : Encoded signature f result) (hclosed : f.isClosed = true) :
    ∃ t, result = .ok t ∧ SameTruth t (reading f) ∧
      ∀ name ∈ f.freeTerms, name ∈ signature.constants := by
  cases h with
  | refused hfirst =>
      rw [isClosed_iff_head?_eq_none, hfirst] at hclosed
      cases hclosed
  | accepted _ htruth _ hentered => exact ⟨_, rfl, htruth, hentered⟩

/-- The constants of a term are symbols of entered constants. -/
theorem Encoded.exists_constant {f : Formula} {t : Term} (h : Encoded signature f (.ok t))
    {s : String} (hs : s ∈ t.constants) : ∃ name ∈ signature.constants, symbol name = s := by
  cases h with
  | accepted _ _ hconstants hentered =>
      obtain ⟨name, hname, hsymbol⟩ := hconstants s hs
      exact ⟨name, hentered name hname, hsymbol⟩

/-- The outcome of a well-formed formula, if its terms up to the first variable are entered. -/
theorem encoded_outcome {f : Formula} (hf : f.WellFormed)
    (hentered : ∀ term ∈ entered f.freeTerms, term ∈ signature.constants) :
    Encoded signature f (outcome (translation f []) f.freeTerms) := by
  have hfirst : f.freeVariables.head? = f.freeTerms.find? isVariable := by
    rw [hf.freeVariables_eq, List.head?_filter]
  rw [outcome]
  cases hfree : f.freeTerms.find? isVariable with
  | some x => exact .refused (hfirst.trans hfree)
  | none =>
      have hclosed : f.isClosed = true := isClosed_iff_head?_eq_none.mpr (hfirst.trans hfree)
      rw [entered_of_constants (isVariable_of_isClosed hf hclosed)] at hentered
      refine .accepted hclosed (fun _ _ _ _ ↦ holds_translation hf agrees_nil) (fun s hs ↦ ?_)
        hentered
      have hsymbol := isSymbolOutside_of_mem_constants hf hs
      rwa [IsSymbolOutside, outside_nil] at hsymbol

/-- Well-formed formulas one after the other, from an empty signature. Each is refused for its first
free variable or, if it is closed, becomes a term that is true where the formula is with symbols for
its names, which is where the formula itself is if its names have no null characters. The signature
has no constant twice and has those of all terms. Its unique names hold where different constants
have different values, so that different constants of any of the terms do. -/
theorem encodeEach_faithful {fs : List Formula} (hfs : ∀ f ∈ fs, f.WellFormed) :
    ∃ results signature, encodeEach fs {} = (results, signature) ∧
      List.Forall₂ (Encoded signature) fs results ∧
      (∀ f ∈ fs, (∀ name ∈ f.names, '\x00' ∉ name.toList) → reading f = f) ∧
      signature.constants.Nodup ∧
      ∀ (D : Type) (M : Structure D) (constants : Environment D) (valuation : Valuation D),
        ((∀ u ∈ signature.uniqueNames, u.Holds M constants valuation) ↔
          ∀ x ∈ signature.constants, ∀ y ∈ signature.constants,
            constants (symbol x) = constants (symbol y) → x = y) ∧
        ((∀ u ∈ signature.uniqueNames, u.Holds M constants valuation) →
          ∀ t, .ok t ∈ results → ∀ t', .ok t' ∈ results →
            ∀ s ∈ t.constants, ∀ s' ∈ t'.constants, constants s = constants s' → s = s') := by
  obtain ⟨signature, hresults, hconstants⟩ := encodeEach_reads hfs {}
  have hnodup : signature.constants.Nodup := hconstants ▸ nodup_enterAll List.nodup_nil
  have hencoded : List.Forall₂ (Encoded signature) fs
      (fs.map fun f ↦ outcome (translation f []) f.freeTerms) := by
    rw [List.forall₂_map_right_iff, List.forall₂_same]
    refine fun f hf ↦ encoded_outcome (hfs f hf) fun term hterm ↦ ?_
    rw [hconstants, mem_enterAll]
    exact .inr (List.mem_flatMap.mpr ⟨f, hf, hterm⟩)
  refine ⟨_, signature, hresults, hencoded, fun f hf ↦ reading_eq_self_of_plain (hfs f hf), hnodup,
    fun D M constants valuation ↦ ⟨holds_uniqueNames hnodup, ?_⟩⟩
  rw [holds_uniqueNames hnodup]
  intro hunique t ht t' ht' s hs s' hs' hvalue
  obtain ⟨f, _, hf⟩ := exists_of_forall₂ hencoded ht
  obtain ⟨f', _, hf'⟩ := exists_of_forall₂ hencoded ht'
  obtain ⟨x, hx, rfl⟩ := hf.exists_constant hs
  obtain ⟨y, hy, rfl⟩ := hf'.exists_constant hs'
  rw [hunique x hx y hy hvalue]

/-- A formula whose quantifiers bind the name of its constant, one below the other. -/
def shadowedConstant : Formula :=
  .conj [.atom "p" ["a"], .univ "a" (.exist "a" (.atom "p" ["a"]))]

/-- A formula that says different things of two constants with the same symbol. -/
def mergedConstants : Formula :=
  .conj [.atom "p" ["a\x00b"], .neg (.atom "p" ["a\x00c"])]

/-- An open formula is refused and does not disturb the others. Where the quantifiers bind the name
of a constant, the term is true in the same structures as the formula. Where constants have the same
symbol, the formula is true in some structure and its term in none, and the unique names do not hold
in any either. -/
theorem mergedConstants_encoded :
    ∃ t u signature, encodeEach [.atom "q" ["a", "?x"], shadowedConstant, mergedConstants] {} =
        ([.error (.freeVariable "?x"), .ok t, .ok u], signature) ∧
      SameTruth t shadowedConstant ∧
      (∃ (D : Type) (M : Structure D) (env : Environment D),
        mergedConstants.Holds (fun _ ↦ True) M env) ∧
      ∀ (D : Type) (M : Structure D) (constants : Environment D) (valuation : Valuation D),
        ¬ u.Holds M constants valuation ∧
        ¬ ∀ v ∈ signature.uniqueNames, v.Holds M constants valuation := by
  have hpair (f g : Formula) (hf : f.WellFormed) (hg : g.WellFormed) :
      ∀ h ∈ [f, g], h.WellFormed :=
    List.forall_mem_cons.mpr ⟨hf, List.forall_mem_singleton.mpr hg⟩
  have hshadowed : shadowedConstant.WellFormed :=
    .conj (hpair _ _ (.atom _) (.univ (.exist (.atom _))))
  have hmerged : mergedConstants.WellFormed := .conj (hpair _ _ (.atom _) (.neg (.atom _)))
  have hfs := List.forall_mem_cons.mpr
    ⟨Formula.WellFormed.atom ⟨"q", ["a", "?x"]⟩, hpair _ _ hshadowed hmerged⟩
  obtain ⟨results, signature, hencode, hresults, hplain, -, hstructures⟩ := encodeEach_faithful hfs
  obtain ⟨_, _, hfirst, hlater, rfl⟩ := List.forall₂_cons_left_iff.mp hresults
  obtain ⟨_, _, hsecond, hlast, rfl⟩ := List.forall₂_cons_left_iff.mp hlater
  obtain ⟨_, _, hthird, hnone, rfl⟩ := List.forall₂_cons_left_iff.mp hlast
  obtain rfl := List.forall₂_nil_left_iff.mp hnone
  obtain rfl := hfirst.eq_error (show _ = some "?x" by decide)
  obtain ⟨t, rfl, htruth, -⟩ := hsecond.exists_eq_ok (by decide)
  obtain ⟨u, rfl, hfalse, hentered⟩ := hthird.exists_eq_ok (by decide)
  have hread : reading shadowedConstant = shadowedConstant :=
    hplain shadowedConstant (by simp) (by decide)
  have hsame : symbol "a\x00b" = symbol "a\x00c" := by decide
  refine ⟨t, u, signature, hencode, hread ▸ htruth, ?_, fun D M constants valuation ↦ ⟨?_, ?_⟩⟩
  · exact ⟨String, fun _ args ↦ args = ["a\x00b"], id, by simp [mergedConstants, Formula.atom]⟩
  · rw [hfalse D M constants valuation]
    have hreadMerged :
        reading mergedConstants = .conj [.atom "p" ["a"], .neg (.atom "p" ["a"])] := by
      decide
    simp [hreadMerged]
  · rw [(hstructures D M constants valuation).1]
    intro hunique
    exact absurd (hunique _ (hentered "a\x00b" (by decide)) _ (hentered "a\x00c" (by decide))
      (congrArg constants hsame)) (by decide)

end Diagnosis.Smt
