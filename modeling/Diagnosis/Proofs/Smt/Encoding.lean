import Diagnosis.Proofs.Results
import Diagnosis.Proofs.Smt.Translation
import Mathlib.Data.List.Nodup
import Mathlib.Data.List.TakeWhile

/-!
# What encoding yields

Encoding reads the terms of a formula that are not in scope from left to right and enters them as
constants. The first variable among them stops it with a fault. Without one a well-formed formula
results in its translation, whatever signature the encoding starts from (`encode_reads`). Formulas
one after the other are encoded as if each were alone, and the constants of all of them are entered,
also those that were met before a fault (`encodeEach_reads`).
-/

namespace Diagnosis.Smt

variable {α β : Type} {scope : Scope} {terms more : List String}

/-! ## Terms up to a free variable -/

/-- The value, unless one of the terms is a variable: the first one is the fault. -/
def outcome (a : α) (terms : List String) : Except Fault α :=
  match terms.find? isVariable with
  | some x => .error (.freeVariable x)
  | none => .ok a

/-- The terms before the first variable. -/
def entered (terms : List String) : List String :=
  terms.takeWhile fun term ↦ !isVariable term

/-- With constants alone there is a value. -/
theorem outcome_of_constants (a : α) (h : ∀ term ∈ terms, isVariable term = false) :
    outcome a terms = .ok a := by
  have hnone : terms.find? isVariable = none :=
    List.find?_eq_none.mpr fun term hterm ↦ Bool.eq_false_iff.mp (h term hterm)
  rw [outcome, hnone]

/-- A variable that is met first is the fault, whatever terms follow. -/
theorem outcome_append_of_some {x : String} (a : α) (h : terms.find? isVariable = some x) :
    outcome a (terms ++ more) = .error (.freeVariable x) := by
  rw [outcome, List.find?_append, h]
  rfl

/-- Constants do not change what becomes of the terms that follow. -/
theorem outcome_append_of_none (a : α) (h : terms.find? isVariable = none) :
    outcome a (terms ++ more) = outcome a more := by
  rw [outcome, List.find?_append, h]
  rfl

/-- With constants alone all terms are entered. -/
theorem entered_of_constants (h : ∀ term ∈ terms, isVariable term = false) :
    entered terms = terms := by
  rw [entered, List.takeWhile_eq_self_iff]
  exact fun term hterm ↦ by rw [h term hterm]; rfl

/-- After a variable nothing is entered. -/
theorem entered_append_of_some {x : String} (h : terms.find? isVariable = some x) :
    entered (terms ++ more) = entered terms := by
  induction terms with
  | nil => cases h
  | cons term terms ih =>
      rw [List.cons_append, entered, entered]
      cases hterm : isVariable term with
      | true =>
          rw [List.takeWhile_cons_of_neg (by simpa using hterm),
            List.takeWhile_cons_of_neg (by simpa using hterm)]
      | false =>
          rw [List.find?_cons_of_neg (by simpa using hterm)] at h
          rw [List.takeWhile_cons_of_pos (by simpa using hterm),
            List.takeWhile_cons_of_pos (by simpa using hterm)]
          exact congrArg (term :: ·) (ih h)

/-- Constants are entered together with what follows. -/
theorem entered_append_of_none (h : terms.find? isVariable = none) :
    entered (terms ++ more) = terms ++ entered more := by
  refine List.takeWhile_append_of_pos fun term hterm ↦ ?_
  rw [Bool.not_eq_true', ← Bool.not_eq_true]
  exact List.find?_eq_none.mp h term hterm

/-! ## Steps -/

/-- From every signature, the step reads the terms from left to right. It enters them as constants
up to the first variable, which is its fault, and if there is none it results in the value. -/
def Reads (m : Encoder α) (a : α) (terms : List String) : Prop :=
  ∀ signature, ∃ after, m.run.run signature = (outcome a terms, after) ∧
    after.constants = enterAll (entered terms) signature.constants

theorem reads_pure (a : α) : Reads (pure a) a [] :=
  fun signature ↦ ⟨signature, rfl, rfl⟩

/-- A step that changes predicates alone enters no constant. -/
theorem reads_modify_predicates (change : Signature → List (String × Nat)) :
    Reads (modify fun signature ↦ { signature with predicates := change signature }) () [] :=
  fun _ ↦ ⟨_, rfl, rfl⟩

/-- Entering a constant reads it. -/
theorem reads_modify_constants {name : String} (h : isVariable name = false) :
    Reads (modify fun signature ↦
      { signature with constants := enter name signature.constants }) () [name] := by
  have hconstants : ∀ term ∈ [name], isVariable term = false := by simpa using h
  intro signature
  rw [outcome_of_constants () hconstants, entered_of_constants hconstants]
  exact ⟨_, rfl, rfl⟩

/-- A step that reports a variable reads it and is the last one. -/
theorem reads_throw {name : String} (h : isVariable name = true) (step : α → Encoder β) (b : β) :
    Reads (throw (.freeVariable name) >>= step) b [name] := by
  intro signature
  refine ⟨signature, ?_, ?_⟩
  · rw [outcome, List.find?_cons_of_pos h]
    rfl
  · rw [entered, List.takeWhile_cons_of_neg (by simpa using h)]
    rfl

namespace Reads

variable {m : Encoder α} {a : α} {b : β} {step : α → Encoder β}

/-- Steps read one after the other. A fault of the first one is that of both. -/
theorem bind (hm : Reads m a terms) (hstep : Reads (step a) b more) :
    Reads (m >>= step) b (terms ++ more) := by
  intro signature
  obtain ⟨middle, hfirst, hentered⟩ := hm signature
  cases hfree : terms.find? isVariable with
  | some x =>
      have hfault : outcome a terms = .error (.freeVariable x) := by rw [outcome, hfree]
      rw [outcome_append_of_some b hfree, entered_append_of_some hfree]
      refine ⟨middle, ?_, hentered⟩
      rw [ExceptT.run_bind, StateT.run_bind, hfirst, hfault]
      rfl
  | none =>
      have hvalue : outcome a terms = .ok a := by rw [outcome, hfree]
      obtain ⟨after, hsecond, hentered'⟩ := hstep middle
      rw [outcome_append_of_none b hfree, entered_append_of_none hfree]
      refine ⟨after, ?_, ?_⟩
      · rw [ExceptT.run_bind, StateT.run_bind, hfirst, hvalue]
        exact hsecond
      · have hconstants : entered terms = terms :=
          entered_of_constants fun term hterm ↦
            Bool.eq_false_iff.mpr (List.find?_eq_none.mp hfree term hterm)
        rw [hentered', hentered, enterAll_append, hconstants]

/-- What is read may be passed on through a function. -/
theorem map (hm : Reads m a terms) (g : α → β) :
    Reads (m >>= fun a ↦ pure (g a)) (g a) terms := by
  rw [← List.append_nil terms]
  exact hm.bind (reads_pure _)

/-- A list is processed member by member. -/
theorem mapM {step : α → Encoder β} {result : α → β} {read : α → List String} {xs : List α}
    (h : ∀ x ∈ xs, Reads (step x) (result x) (read x)) :
    Reads (xs.mapM step) (xs.map result) (xs.flatMap read) := by
  induction xs with
  | nil => exact reads_pure []
  | cons x xs ih =>
      obtain ⟨hx, hxs⟩ := List.forall_mem_cons.mp h
      rw [List.mapM_cons]
      exact hx.bind ((ih hxs).map _)

end Reads

/-! ## Terms and atoms -/

/-- The terms that are no variables in scope. -/
def outside (scope : Scope) (terms : List String) : List String :=
  terms.filter fun term ↦ !scope.contains (some term)

theorem outside_append :
    outside scope (terms ++ more) = outside scope terms ++ outside scope more :=
  List.filter_append _ _

theorem outside_flatMap {xs : List α} (g : α → List String) :
    outside scope (xs.flatMap g) = xs.flatMap fun x ↦ outside scope (g x) :=
  List.filter_flatMap

/-- Outside all quantifiers no variable is in scope. -/
theorem outside_nil (terms : List String) : outside [] terms = terms :=
  List.filter_eq_self.mpr fun _ _ ↦ rfl

/-- What a quantifier does not bind is outside it. -/
theorem outside_cons (x : String) (terms : List String) :
    outside (some x :: scope) terms =
      outside scope (terms.filter fun term ↦ some term != some x) := by
  rw [outside, outside, List.filter_filter]
  refine List.filter_congr fun term _ ↦ ?_
  rw [List.contains_cons, Bool.not_or, Bool.and_comm]
  rfl

/-- Whether a term is entered depends on the scope. What it becomes depends on the symbols in scope
and is its individual in any case. -/
theorem encodeIndividual_eq (scope : Scope) (term : String) :
    encodeIndividual scope term = (do
      if !scope.contains (some term) then
        if isVariable term then throw (.freeVariable term)
        modify fun signature ↦ { signature with constants := enter term signature.constants }
      return individual scope term) := by
  unfold encodeIndividual individual
  cases (scope.map binderSymbol).idxOf? (symbol term) with
  | none => rfl
  | some index => rfl

/-- A term in scope is encoded as it is, and another one is read. -/
theorem encodeIndividual_reads (scope : Scope) (term : String) :
    Reads (encodeIndividual scope term) (individual scope term) (outside scope [term]) := by
  rw [encodeIndividual_eq]
  cases hscope : scope.contains (some term) with
  | true =>
      have hread : outside scope [term] = [] := by rw [outside, List.filter_cons, hscope]; rfl
      rw [hread]
      simp only [Bool.not_true, Bool.false_eq_true, if_false]
      exact reads_pure _
  | false =>
      have hread : outside scope [term] = [term] := by rw [outside, List.filter_cons, hscope]; rfl
      rw [hread]
      cases hvariable : isVariable term with
      | true =>
          simp only [Bool.not_false, if_pos]
          exact reads_throw hvariable _ _
      | false =>
          simp only [Bool.not_false, if_pos, Bool.false_eq_true, if_false]
          rw [← List.append_nil [term]]
          exact (reads_modify_constants hvariable).bind (reads_pure _)

/-- The terms of an atom are read from left to right. -/
theorem encodeAtom_reads (scope : Scope) (a : Atom) :
    Reads (encodeAtom scope a) (translation (.ofAtom a) scope) (outside scope a.args) := by
  have hargs : Reads (a.args.mapM (encodeIndividual scope)) (a.args.map (individual scope))
      (a.args.flatMap fun term ↦ outside scope [term]) :=
    .mapM fun term _ ↦ encodeIndividual_reads scope term
  rw [← outside_flatMap, List.flatMap_singleton'] at hargs
  unfold encodeAtom
  rw [translation_ofAtom]
  split
  case isTrue hnone =>
    rw [List.isEmpty_iff.mp hnone]
    exact reads_pure _
  case isFalse => exact (reads_modify_predicates _).bind (hargs.map _)

/-! ## Formulas -/

/-- Operands are encoded one after the other. -/
theorem encodeAll_reads {fs : List Formula}
    (h : ∀ f ∈ fs, Reads (encode f scope) (translation f scope) (outside scope f.freeTerms)) :
    Reads (encodeAll fs scope) (fs.map (translation · scope))
      (outside scope (fs.flatMap Formula.freeTerms)) := by
  rw [outside_flatMap]
  induction fs with
  | nil => exact reads_pure []
  | cons f fs ih =>
      obtain ⟨hf, hfs⟩ := List.forall_mem_cons.mp h
      exact hf.bind ((ih hfs).map _)

/-- The operands of a conjunction or of a disjunction, the first of which is encoded before the
others. -/
theorem encodeOperands_reads {f : Formula} {fs : List Formula} (make : List Term → Term)
    (h : ∀ g ∈ f :: fs, Reads (encode g scope) (translation g scope) (outside scope g.freeTerms)) :
    Reads (encode f scope >>= fun part ↦
        encodeAll fs scope >>= fun parts ↦ pure (make (part :: parts)))
      (make ((f :: fs).map (translation · scope)))
      (outside scope ((f :: fs).flatMap Formula.freeTerms)) := by
  obtain ⟨hfirst, hrest⟩ := List.forall_mem_cons.mp h
  rw [List.flatMap_cons, outside_append]
  exact hfirst.bind ((encodeAll_reads hrest).map _)

/-- A well-formed formula is encoded as its translation, unless a variable is free. -/
theorem encode_reads {f : Formula} (hf : f.WellFormed) (scope : Scope) :
    Reads (encode f scope) (translation f scope) (outside scope f.freeTerms) := by
  induction hf generalizing scope with
  | atom a => exact encodeAtom_reads scope a
  | @conj fs _ ih =>
      rw [Formula.freeTerms_conj, translation_conj]
      cases fs with
      | nil => exact reads_pure _
      | cons f fs => exact encodeOperands_reads .conj fun g hg ↦ ih g hg scope
  | @disj fs _ ih =>
      rw [Formula.freeTerms_disj, translation_disj]
      cases fs with
      | nil => exact reads_pure _
      | cons f fs => exact encodeOperands_reads .disj fun g hg ↦ ih g hg scope
  | neg _ ih =>
      rw [Formula.freeTerms_neg, translation_neg]
      exact (ih scope).map _
  | imp _ _ ihl ihr =>
      rw [Formula.freeTerms_imp, translation_imp, outside_append]
      exact (ihl scope).bind ((ihr scope).map _)
  | equiv _ _ ihl ihr =>
      rw [Formula.freeTerms_equiv, translation_equiv, outside_append]
      exact (ihl scope).bind ((ihr scope).map _)
  | univ _ ih =>
      rw [Formula.freeTerms_univ, translation_univ, ← outside_cons]
      exact (ih _).map _
  | exist _ ih =>
      rw [Formula.freeTerms_exist, translation_exist, ← outside_cons]
      exact (ih _).map _

/-- Well-formed formulas one after the other result each in its translation or in its first free
variable, and the constants that were met are entered. -/
theorem encodeEach_reads {fs : List Formula} (hfs : ∀ f ∈ fs, f.WellFormed)
    (signature : Signature) :
    ∃ after,
      encodeEach fs signature = (fs.map fun f ↦ outcome (translation f []) f.freeTerms, after) ∧
      after.constants =
        enterAll (fs.flatMap fun f ↦ entered f.freeTerms) signature.constants := by
  induction fs generalizing signature with
  | nil => exact ⟨signature, rfl, rfl⟩
  | cons f fs ih =>
      obtain ⟨hf, hrest⟩ := List.forall_mem_cons.mp hfs
      obtain ⟨middle, hresult, hmiddle⟩ := encode_reads hf [] signature
      obtain ⟨after, hresults, hafter⟩ := ih hrest middle
      rw [outside_nil] at hresult hmiddle
      refine ⟨after, ?_, ?_⟩
      · rw [encodeEach, encodeClosed, hresult]
        simp only [hresults, List.map_cons]
      · rw [hafter, hmiddle, List.flatMap_cons, enterAll_append]

/-- In a closed formula the free terms are constants. -/
theorem isVariable_of_isClosed {f : Formula} (hf : f.WellFormed) (hclosed : f.isClosed = true) :
    ∀ term ∈ f.freeTerms, isVariable term = false := by
  rw [Formula.isClosed, List.isEmpty_iff, hf.freeVariables_eq, List.filter_eq_nil_iff] at hclosed
  exact fun term hterm ↦ Bool.eq_false_iff.mpr (hclosed term hterm)

/-- Closed well-formed formulas all have terms, their translations, and their constants are
entered. -/
theorem encodeEach_eq {fs : List Formula} (hfs : ∀ f ∈ fs, f.WellFormed)
    (hclosed : ∀ f ∈ fs, f.isClosed = true) (signature : Signature) :
    ∃ after, encodeEach fs signature = (fs.map fun f ↦ .ok (translation f []), after) ∧
      after.constants = enterAll (fs.flatMap Formula.freeTerms) signature.constants := by
  have hconstants (f : Formula) (hf : f ∈ fs) : ∀ term ∈ f.freeTerms, isVariable term = false :=
    isVariable_of_isClosed (hfs f hf) (hclosed f hf)
  obtain ⟨after, hresults, hafter⟩ := encodeEach_reads hfs signature
  refine ⟨after, ?_, ?_⟩
  · rw [hresults, List.map_congr_left fun f hf ↦ outcome_of_constants _ (hconstants f hf)]
  · rw [hafter, List.flatMap_congr fun f hf ↦ entered_of_constants (hconstants f hf)]

end Diagnosis.Smt
