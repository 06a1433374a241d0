import Diagnosis.Text.Blank
import Diagnosis.Text.Identifier
import Mathlib.Computability.Language

/-!
# The languages of identifiers

The names of predicates, the variables and the constants as languages: a first character of one
class and any number of characters of another. The readers accept the words of these languages,
each also with one line feed after it (`isName_iff`, `isVariableName_iff`, `isConstantName_iff`).
White space has no place in the words themselves.
-/

open scoped Computability

namespace Diagnosis.Text

/-! ## Languages -/

/-- A letter between A and Z or between a and z. -/
def Letter (c : Char) : Prop :=
  'A' ≤ c ∧ c ≤ 'Z' ∨ 'a' ≤ c ∧ c ≤ 'z'

/-- A digit between 0 and 9. -/
def Digit (c : Char) : Prop :=
  '0' ≤ c ∧ c ≤ '9'

/-- The words of one character, which is of the class. -/
def oneOf (kind : Char → Prop) : Language Char :=
  {word | ∃ c, kind c ∧ word = [c]}

/-- Names: `[A-Za-z_][A-Za-z0-9_]*`. -/
def nameLanguage : Language Char :=
  oneOf (fun c ↦ Letter c ∨ c = '_') * (oneOf fun c ↦ Letter c ∨ Digit c ∨ c = '_')∗

/-- Variables: a question mark and a name. -/
def variableLanguage : Language Char :=
  oneOf (· = '?') * nameLanguage

/-- Constants: `[A-Za-z0-9_][A-Za-z0-9_.-]*`. -/
def constantLanguage : Language Char :=
  oneOf (fun c ↦ Letter c ∨ Digit c ∨ c = '_') *
    (oneOf fun c ↦ Letter c ∨ Digit c ∨ c = '_' ∨ c = '.' ∨ c = '-')∗

/-- Nothing or a line feed. -/
def optionalLineFeed : Language Char :=
  1 + oneOf (· = '\n')

section Words

variable {kind rest : Char → Prop} {L : Language Char} {c : Char} {word text : List Char}

/-- A word of the repeated class has characters of the class only. -/
theorem mem_kstar_oneOf : word ∈ (oneOf kind)∗ ↔ ∀ c ∈ word, kind c := by
  rw [Language.mem_kstar]
  constructor
  · rintro ⟨parts, rfl, hparts⟩ c hc
    obtain ⟨part, hpart, hc⟩ := List.mem_flatten.mp hc
    obtain ⟨d, hd, rfl⟩ := hparts part hpart
    exact List.mem_singleton.mp hc ▸ hd
  · intro hword
    refine ⟨word.map fun c ↦ [c], ?_, fun part hpart ↦ ?_⟩
    · rw [← List.flatMap_def, List.flatMap_singleton']
    · obtain ⟨c, hc, rfl⟩ := List.mem_map.mp hpart
      exact ⟨c, hword c hc, rfl⟩

/-- A word that starts with one character of a class has such a character at its head. -/
theorem cons_mem_oneOf_mul : c :: word ∈ oneOf kind * L ↔ kind c ∧ word ∈ L := by
  rw [Language.mem_mul]
  constructor
  · rintro ⟨_, ⟨d, hd, rfl⟩, tail, htail, hword⟩
    obtain ⟨rfl, rfl⟩ := List.cons.inj hword
    exact ⟨hd, htail⟩
  · rintro ⟨hc, hword⟩
    exact ⟨[c], ⟨c, hc, rfl⟩, word, hword, rfl⟩

/-- A word that starts with one character of a class is not empty. -/
theorem nil_not_mem_oneOf_mul : [] ∉ oneOf kind * L := by
  rw [Language.mem_mul]
  rintro ⟨_, ⟨c, _, rfl⟩, tail, _, hword⟩
  cases hword

/-- What may be followed by a line feed is the word alone or the word with a line feed. -/
theorem mem_mul_optionalLineFeed :
    text ∈ L * optionalLineFeed ↔ text ∈ L ∨ ∃ word ∈ L, text = word ++ ['\n'] := by
  rw [optionalLineFeed, mul_add, mul_one, Language.mem_add, Language.mem_mul]
  refine or_congr_right ?_
  constructor
  · rintro ⟨word, hword, _, ⟨c, rfl, rfl⟩, rfl⟩
    exact ⟨word, hword, rfl⟩
  · rintro ⟨word, hword, rfl⟩
    exact ⟨word, hword, ['\n'], ⟨'\n', rfl, rfl⟩, rfl⟩

/-- What starts with one character of a class does so also where a line feed may follow. -/
theorem exists_head (h : text ∈ oneOf kind * L * optionalLineFeed) :
    ∃ c tail, kind c ∧ text = c :: tail := by
  rw [mul_assoc] at h
  cases text with
  | nil => exact absurd h nil_not_mem_oneOf_mul
  | cons c tail => exact ⟨c, tail, (cons_mem_oneOf_mul.mp h).1, rfl⟩

end Words

/-! ## Readers -/

section Readers

variable {c : Char} {word : List Char}

theorem isAlpha_iff : c.isAlpha = true ↔ Letter c := by
  have hupper : c.isUpper = true ↔ 'A' ≤ c ∧ c ≤ 'Z' := decide_eq_true_iff
  have hlower : c.isLower = true ↔ 'a' ≤ c ∧ c ≤ 'z' :=
    Bool.and_eq_true_iff.trans (and_congr decide_eq_true_iff decide_eq_true_iff)
  exact Bool.or_eq_true_iff.trans (or_congr hupper hlower)

theorem isDigit_iff : c.isDigit = true ↔ Digit c :=
  Bool.and_eq_true_iff.trans (and_congr decide_eq_true_iff decide_eq_true_iff)

theorem isAlphanum_iff : c.isAlphanum = true ↔ Letter c ∨ Digit c :=
  Bool.or_eq_true_iff.trans (or_congr isAlpha_iff isDigit_iff)

theorem startsName_iff : startsName c = true ↔ Letter c ∨ c = '_' := by
  rw [startsName, Bool.or_eq_true, isAlpha_iff, beq_iff_eq]

theorem continuesName_iff : continuesName c = true ↔ Letter c ∨ Digit c ∨ c = '_' := by
  rw [continuesName, Bool.or_eq_true, isAlphanum_iff, beq_iff_eq, or_assoc]

theorem continuesConstant_iff :
    continuesConstant c = true ↔ Letter c ∨ Digit c ∨ c = '_' ∨ c = '.' ∨ c = '-' := by
  simp [continuesConstant, continuesName_iff, or_assoc]

theorem isNameWord_iff : isNameWord word = true ↔ word ∈ nameLanguage := by
  cases word with
  | nil => exact iff_of_false Bool.false_ne_true nil_not_mem_oneOf_mul
  | cons c rest =>
      rw [nameLanguage, cons_mem_oneOf_mul, mem_kstar_oneOf, isNameWord, Bool.and_eq_true,
        startsName_iff, List.all_eq_true]
      simp only [continuesName_iff]

theorem isConstantWord_iff : isConstantWord word = true ↔ word ∈ constantLanguage := by
  cases word with
  | nil => exact iff_of_false Bool.false_ne_true nil_not_mem_oneOf_mul
  | cons c rest =>
      rw [constantLanguage, cons_mem_oneOf_mul, mem_kstar_oneOf, isConstantWord, Bool.and_eq_true,
        continuesName_iff, List.all_eq_true]
      simp only [continuesConstant_iff]

theorem isVariableWord_iff : isVariableWord word = true ↔ word ∈ variableLanguage := by
  unfold isVariableWord
  split
  case h_1 rest => rw [isNameWord_iff, variableLanguage, cons_mem_oneOf_mul, and_iff_right rfl]
  case h_2 hother =>
      refine iff_of_false Bool.false_ne_true fun hword ↦ ?_
      cases word with
      | nil => exact nil_not_mem_oneOf_mul hword
      | cons c rest =>
          obtain ⟨rfl, _⟩ := cons_mem_oneOf_mul.mp hword
          exact hother rest rfl

end Readers

/-! ## Characters of words, and line feeds after them -/

section LineFeeds

variable {c : Char} {word text : List Char} {L : Language Char}

/-- Every character of a word is of the class. -/
def Over (kind : Char → Prop) (L : Language Char) : Prop :=
  ∀ word ∈ L, ∀ c ∈ word, kind c

/-- Words of one class of characters and then another are of every class that contains both. -/
theorem over_oneOf_mul {kind first : Char → Prop} (hfirst : ∀ c, first c → kind c)
    (hL : Over kind L) : Over kind (oneOf first * L) := by
  intro word hword
  cases word with
  | nil => simp
  | cons c rest =>
      obtain ⟨hc, hrest⟩ := cons_mem_oneOf_mul.mp hword
      exact List.forall_mem_cons.mpr ⟨hfirst c hc, hL rest hrest⟩

/-- Repeating a class of characters does not lead out of a larger one. -/
theorem over_kstar_oneOf {kind repeated : Char → Prop} (hrepeated : ∀ c, repeated c → kind c) :
    Over kind (oneOf repeated)∗ :=
  fun _ hword c hc ↦ hrepeated c (mem_kstar_oneOf.mp hword c hc)

/-- What holds of the characters of two languages holds of both together. -/
theorem Over.add {kind : Char → Prop} {L' : Language Char} (hL : Over kind L)
    (hL' : Over kind L') : Over kind (L + L') := by
  intro word hword
  rcases (Language.mem_add L L' word).mp hword with hword | hword
  · exact hL word hword
  · exact hL' word hword

/-- A line feed after a word is of a class that contains it. -/
theorem Over.mul_optionalLineFeed {kind : Char → Prop} (hL : Over kind L) (hfeed : kind '\n') :
    Over kind (L * optionalLineFeed) := by
  intro text htext c hc
  rcases mem_mul_optionalLineFeed.mp htext with hword | ⟨word, hword, rfl⟩
  · exact hL text hword c hc
  · rcases List.mem_append.mp hc with hc | hc
    · exact hL word hword c hc
    · exact List.mem_singleton.mp hc ▸ hfeed

/-- What identifiers are written with. -/
def IdentifierChar (c : Char) : Prop :=
  c = '?' ∨ Letter c ∨ Digit c ∨ c = '_' ∨ c = '.' ∨ c = '-'

theorem over_nameLanguage : Over IdentifierChar nameLanguage :=
  over_oneOf_mul (fun _ h ↦ by unfold IdentifierChar; tauto)
    (over_kstar_oneOf fun _ h ↦ by unfold IdentifierChar; tauto)

theorem over_variableLanguage : Over IdentifierChar variableLanguage :=
  over_oneOf_mul (fun _ h ↦ .inl h) over_nameLanguage

theorem over_constantLanguage : Over IdentifierChar constantLanguage :=
  over_oneOf_mul (fun _ h ↦ by unfold IdentifierChar; tauto)
    (over_kstar_oneOf fun _ h ↦ .inr (by tauto))

/-- No character of an identifier is white space. -/
theorem isBlank_eq_false (h : IdentifierChar c) : isBlank c = false := by
  have hranges : c.toNat = 63 ∨ 65 ≤ c.toNat ∧ c.toNat ≤ 90 ∨ 97 ≤ c.toNat ∧ c.toNat ≤ 122 ∨
      48 ≤ c.toNat ∧ c.toNat ≤ 57 ∨ c.toNat = 95 ∨ c.toNat = 46 ∨ c.toNat = 45 := by
    rcases h with rfl | (h | h) | h | rfl | rfl | rfl
    · exact .inl rfl
    · exact .inr (.inl h)
    · exact .inr (.inr (.inl h))
    · exact .inr (.inr (.inr (.inl h)))
    · exact .inr (.inr (.inr (.inr (.inl rfl))))
    · exact .inr (.inr (.inr (.inr (.inr (.inl rfl)))))
    · exact .inr (.inr (.inr (.inr (.inr (.inr rfl)))))
  simp only [isBlank, Bool.or_eq_false_iff, Bool.and_eq_false_iff, decide_eq_false_iff_not,
    beq_eq_false_iff_ne]
  omega

/-- No word of the language has white space. -/
def Unblank (L : Language Char) : Prop :=
  ∀ word ∈ L, ∀ c ∈ word, isBlank c = false

/-- Words of identifier characters have no white space. -/
theorem Unblank.of_over (hL : Over IdentifierChar L) : Unblank L :=
  fun word hword c hc ↦ isBlank_eq_false (hL word hword c hc)

theorem unblank_nameLanguage : Unblank nameLanguage :=
  .of_over over_nameLanguage

theorem unblank_variableLanguage : Unblank variableLanguage :=
  .of_over over_variableLanguage

theorem unblank_constantLanguage : Unblank constantLanguage :=
  .of_over over_constantLanguage

/-- Two languages without white space have none together. -/
theorem Unblank.add {L' : Language Char} (hL : Unblank L) (hL' : Unblank L') :
    Unblank (L + L') :=
  Over.add hL hL'

/-- Where a line feed may follow, the words are the texts without white space. -/
theorem Unblank.mem_iff (hL : Unblank L) :
    text ∈ L ↔ text ∈ L * optionalLineFeed ∧ ∀ c ∈ text, isBlank c = false := by
  rw [mem_mul_optionalLineFeed]
  refine ⟨fun h ↦ ⟨.inl h, hL text h⟩, fun ⟨h, hsolid⟩ ↦ h.resolve_right ?_⟩
  rintro ⟨word, _, rfl⟩
  exact absurd (hsolid '\n' (by simp)) (by decide)

/-- A text without the line feed at its end is a word if the text is the word, with a line feed or
without. -/
theorem dropLineFeed_mem (hL : Unblank L) :
    dropLineFeed text ∈ L ↔ text ∈ L * optionalLineFeed := by
  rw [mem_mul_optionalLineFeed, dropLineFeed]
  split
  case isTrue hlast =>
    obtain ⟨word, rfl⟩ := List.getLast?_eq_some_iff.mp hlast
    -- The whole text ends with white space, so that it is no word.
    have hwhole : word ++ ['\n'] ∉ L := fun h ↦ absurd (hL _ h '\n' (by simp)) (by decide)
    simp [hwhole]
  case isFalse hlast =>
    refine (or_iff_left ?_).symm
    rintro ⟨word, _, rfl⟩
    exact hlast (by simp)

/-- What reads as a name is a name, up to one line feed after it. -/
theorem isName_iff {s : String} : isName s = true ↔ s.toList ∈ nameLanguage * optionalLineFeed := by
  rw [isName, isNameWord_iff, dropLineFeed_mem unblank_nameLanguage]

/-- What reads as a variable is a variable, up to one line feed after it. -/
theorem isVariableName_iff {s : String} :
    isVariableName s = true ↔ s.toList ∈ variableLanguage * optionalLineFeed := by
  rw [isVariableName, isVariableWord_iff, dropLineFeed_mem unblank_variableLanguage]

/-- What reads as a constant is a constant, up to one line feed after it. -/
theorem isConstantName_iff {s : String} :
    isConstantName s = true ↔ s.toList ∈ constantLanguage * optionalLineFeed := by
  rw [isConstantName, isConstantWord_iff, dropLineFeed_mem unblank_constantLanguage]

end LineFeeds

end Diagnosis.Text
