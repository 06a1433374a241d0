import Diagnosis.Proofs.Problem.Validation
import Diagnosis.Proofs.Text.Languages

/-!
# Accepted identifiers

An atom has no defects if its name and its arguments are words of the languages of identifiers, and
a list of components has none if it lists different constants. The words may have one line feed
after them; other white space is refused (`accepted_identifiers`).
-/

open scoped Computability

namespace Diagnosis

open Text

/-! ## Variables and constants -/

section Terms

variable {s : String}

/-- A text that reads as a variable starts with a question mark. -/
theorem isVariable_of_isVariableName (h : isVariableName s = true) : isVariable s = true := by
  obtain ⟨c, rest, rfl, hs⟩ := exists_head (isVariableName_iff.mp h)
  rw [isVariable, hs]
  rfl

/-- A text that reads as a constant does not. -/
theorem isVariable_of_isConstantName (h : isConstantName s = true) : isVariable s = false := by
  obtain ⟨c, rest, hc, hs⟩ := exists_head (isConstantName_iff.mp h)
  rw [isVariable, hs, List.head?_cons, beq_eq_false_iff_ne]
  rintro ⟨⟩
  unfold Letter Digit at hc
  revert hc
  decide

/-- What reads as a word of a language without the empty word is not empty. -/
theorem isEmpty_eq_false {kind : Char → Prop} {L : Language Char}
    (h : s.toList ∈ oneOf kind * L * optionalLineFeed) : s.isEmpty = false := by
  obtain ⟨c, rest, -, hs⟩ := exists_head h
  rw [Bool.eq_false_iff, ne_eq, String.isEmpty_iff]
  rintro rfl
  cases hs

end Terms

/-! ## Atoms -/

namespace Atom

/-- A name without defects is a name. -/
theorem nameDefects_eq_nil_iff {name : String} :
    nameDefects name = [] ↔ name.toList ∈ nameLanguage * optionalLineFeed := by
  rw [← isName_iff, nameDefects]
  cases hname : isName name with
  | true => simp [isEmpty_eq_false (isName_iff.mp hname)]
  | false =>
      simp only [Bool.false_eq_true, if_false, iff_false]
      split <;> simp

/-- An argument without defects is a variable or a constant. -/
theorem argDefects_eq_nil_iff {name arg : String} {index : Nat} :
    argDefects name index arg = [] ↔
      arg.toList ∈ (variableLanguage + constantLanguage) * optionalLineFeed := by
  rw [add_mul, Language.mem_add, ← isVariableName_iff, ← isConstantName_iff]
  simp only [argDefects]
  cases hvariable : isVariableName arg with
  | true =>
      simp [isEmpty_eq_false (isVariableName_iff.mp hvariable),
        isVariable_of_isVariableName hvariable]
  | false =>
      cases hconstant : isConstantName arg with
      | true =>
          simp [isEmpty_eq_false (isConstantName_iff.mp hconstant),
            isVariable_of_isConstantName hconstant]
      | false =>
          simp only [Bool.false_eq_true, if_false, or_false, iff_false]
          split
          · simp
          · split <;> simp

/-- An atom without defects has a name and, as arguments, variables and constants. -/
theorem defects_eq_nil_iff {a : Atom} :
    a.defects = [] ↔ a.name.toList ∈ nameLanguage * optionalLineFeed ∧
      ∀ arg ∈ a.args, arg.toList ∈ (variableLanguage + constantLanguage) * optionalLineFeed := by
  rw [defects, List.append_eq_nil_iff, nameDefects_eq_nil_iff, List.flatMap_eq_nil_iff]
  simp only [argDefects_eq_nil_iff]
  refine and_congr_right fun _ ↦ ⟨fun h arg harg ↦ ?_, fun h place hplace ↦ ?_⟩
  · rw [← List.zipIdx_map_fst 0 a.args] at harg
    obtain ⟨place, hplace, rfl⟩ := List.mem_map.mp harg
    exact h place hplace
  · exact h place.1 (List.fst_mem_of_mem_zipIdx hplace)

end Atom

/-! ## Components -/

namespace Problem

variable {component : String} {components : List String}

/-- A component without defects is a constant. -/
theorem componentDefects_eq_nil_iff :
    componentDefects component = [] ↔ component.toList ∈ constantLanguage * optionalLineFeed := by
  rw [← isConstantName_iff, componentDefects]
  cases hconstant : isConstantName component with
  | true =>
      simp [isEmpty_eq_false (isConstantName_iff.mp hconstant),
        isVariable_of_isConstantName hconstant]
  | false =>
      simp only [Bool.false_eq_true, if_false, iff_false]
      split
      · simp
      · split <;> simp

/-- Components without defects are different constants. -/
theorem componentsDefects_eq_nil_iff_constants :
    componentsDefects components = [] ↔ components.Nodup ∧
      ∀ c ∈ components, c.toList ∈ constantLanguage * optionalLineFeed := by
  rw [componentsDefects_eq_nil_iff, and_comm]
  simp only [componentDefects_eq_nil_iff]

end Problem

/-- Exactly these identifiers are accepted: names as the names of atoms, variables and constants as
their arguments, and lists of different constants as components, where every identifier may have one
line feed after it. So the identifiers that are words of their languages are those that are accepted
and have no white space. -/
theorem accepted_identifiers (a : Atom) (components : List String) :
    (a.defects = [] ↔ a.name.toList ∈ nameLanguage * optionalLineFeed ∧
      ∀ arg ∈ a.args, arg.toList ∈ (variableLanguage + constantLanguage) * optionalLineFeed) ∧
    (Problem.componentsDefects components = [] ↔ components.Nodup ∧
      ∀ c ∈ components, c.toList ∈ constantLanguage * optionalLineFeed) ∧
    ((a.name.toList ∈ nameLanguage ∧
        ∀ arg ∈ a.args, arg.toList ∈ variableLanguage + constantLanguage) ↔
      a.defects = [] ∧ ∀ text ∈ a.name :: a.args, ∀ c ∈ text.toList, isBlank c = false) ∧
    ((components.Nodup ∧ ∀ c ∈ components, c.toList ∈ constantLanguage) ↔
      Problem.componentsDefects components = [] ∧
        ∀ text ∈ components, ∀ c ∈ text.toList, isBlank c = false) := by
  have hargument := unblank_variableLanguage.add unblank_constantLanguage
  refine ⟨Atom.defects_eq_nil_iff, Problem.componentsDefects_eq_nil_iff_constants, ?_, ?_⟩
  · rw [Atom.defects_eq_nil_iff, List.forall_mem_cons, and_and_and_comm, ← forall₂_and,
      unblank_nameLanguage.mem_iff]
    simp only [hargument.mem_iff]
  · rw [Problem.componentsDefects_eq_nil_iff_constants, and_assoc, ← forall₂_and]
    simp only [unblank_constantLanguage.mem_iff]

/-- A line feed after each identifier of an atom, and after one of two component names that are the
same but for it, goes unnoticed. None of these texts is a word. -/
theorem lineFeeds_accepted :
    ({ name := "p\n", args := ["?x\n", "a1\n"] } : Atom).defects = [] ∧
      Problem.componentsDefects ["a1", "a1\n"] = [] ∧
      "p\n".toList ∉ nameLanguage ∧ "?x\n".toList ∉ variableLanguage ∧
      "a1\n".toList ∉ constantLanguage := by
  obtain ⟨hatom, hcomponents, -⟩ := accepted_identifiers
    { name := "p\n", args := ["?x\n", "a1\n"] } ["a1", "a1\n"]
  have hname := isName_iff.mp (by decide +kernel : isName "p\n" = true)
  have hvariable := isVariableName_iff.mp (by decide +kernel : isVariableName "?x\n" = true)
  have hconstant := isConstantName_iff.mp (by decide +kernel : isConstantName "a1\n" = true)
  have hplain := isConstantName_iff.mp (by decide +kernel : isConstantName "a1" = true)
  have hblank : isBlank '\n' ≠ false := by decide
  refine ⟨hatom.mpr ⟨hname, ?_⟩, hcomponents.mpr ⟨by decide, ?_⟩, fun h ↦ ?_, fun h ↦ ?_,
    fun h ↦ ?_⟩
  · simp only [add_mul, Language.mem_add, List.forall_mem_cons]
    exact ⟨.inl hvariable, .inr hconstant, by simp⟩
  · simp only [List.forall_mem_cons]
    exact ⟨hplain, hconstant, by simp⟩
  · exact hblank (unblank_nameLanguage _ h '\n' (by decide +kernel))
  · exact hblank (unblank_variableLanguage _ h '\n' (by decide +kernel))
  · exact hblank (unblank_constantLanguage _ h '\n' (by decide +kernel))

end Diagnosis
