import Diagnosis.Proofs.Formula.Legibility
import Diagnosis.Proofs.Formula.Propositional
import Diagnosis.Proofs.Problem.Identifiers
import Diagnosis.Proofs.Text.Separated

/-!
# Written formulas are unambiguous

Parentheses are left out round atoms, negations and nodes without operands, and a conjunction or a
disjunction of one formula shows no sign at all. Still a text has one meaning: it shows where each
operand ends (`Readable.unique`), and what it does not show, which sign joins a single operand,
makes no difference to the truth. The texts of atoms without defects are all different
(`Atom.text_unique`).
-/

namespace Diagnosis

open Text

/-- What may follow a formula that is not in parentheses: nothing or a closing parenthesis. -/
def EndsFormula (r : List Char) : Prop :=
  ∀ c ∈ r.head?, c = ')'

/-- What may follow an operand: also a space. -/
abbrev EndsOperand (r : List Char) : Prop :=
  AfterItem ' ' EndsFormula r

/-! ## Atoms -/

namespace Atom

/-- The characters that the written form of an atom puts between its identifiers and after it. -/
def Punctuation (c : Char) : Prop :=
  c = ' ' ∨ c = '(' ∨ c = ')' ∨ c = ','

/-- Identifiers, also with a line feed after them, have no such characters. -/
theorem not_punctuation {c : Char} (h : IdentifierChar c ∨ c = '\n') : ¬ Punctuation c := by
  rintro (rfl | rfl | rfl | rfl) <;> revert h <;> unfold IdentifierChar Letter Digit <;> decide

/-- The written form of the arguments. -/
def argsText : List String → List Char
  | [] => []
  | arg :: args =>
      '(' :: arg.toList ++ args.flatMap (fun arg => ',' :: [' '] ++ arg.toList) ++ [')']

/-- The written form of an atom is its name with its arguments. -/
theorem toList_text (a : Atom) : a.text.toList = a.name.toList ++ argsText a.args := by
  obtain ⟨name, args⟩ := a
  cases args with
  | nil => simp [text, argsText]
  | cons arg args =>
      simp [text, argsText, intercalate_cons, List.flatMap_map]

variable {a b : Atom} {r r' : List Char}

/-- The identifiers of an atom without defects have no punctuation. -/
theorem unpunctuated (ha : a.defects = []) :
    (∀ c ∈ a.name.toList, ¬ Punctuation c) ∧
      ∀ arg ∈ a.args, ∀ c ∈ arg.toList, ¬ Punctuation c := by
  obtain ⟨hname, hargs⟩ := defects_eq_nil_iff.mp ha
  have hidentifier {L : Language Char} (hL : Over IdentifierChar L) :
      Over (fun c ↦ ¬ Punctuation c) (L * optionalLineFeed) :=
    Over.mul_optionalLineFeed (fun word hword c hc ↦ not_punctuation (.inl (hL word hword c hc)))
      (not_punctuation (.inr rfl))
  exact ⟨hidentifier over_nameLanguage _ hname, fun arg harg ↦
    hidentifier (over_variableLanguage.add over_constantLanguage) _ (hargs arg harg)⟩

/-- Punctuation may follow an operand, but no opening parenthesis. -/
theorem punctuation_of_ends (hr : EndsOperand r) :
    ∀ c ∈ r.head?, Punctuation c ∧ c ≠ '(' := by
  intro c hc
  rcases hr with hend | hspace
  · rw [hend c hc]
    exact ⟨.inr (.inr (.inl rfl)), by decide⟩
  · cases hspace.symm.trans hc
    exact ⟨.inl rfl, by decide⟩

/-- Punctuation follows the name of an atom. -/
theorem punctuation_argsText (args : List String) (hr : EndsOperand r) :
    ∀ c ∈ (argsText args ++ r).head?, Punctuation c := by
  cases args with
  | nil => exact fun c hc ↦ (punctuation_of_ends hr c hc).1
  | cons arg args =>
      rintro c ⟨⟩
      exact .inr (.inl rfl)

/-- It can be seen where the arguments end. -/
theorem argsText_unique {args args' : List String}
    (hargs : ∀ arg ∈ args, ∀ c ∈ arg.toList, ¬ Punctuation c)
    (hargs' : ∀ arg ∈ args', ∀ c ∈ arg.toList, ¬ Punctuation c) (hr : EndsOperand r)
    (hr' : EndsOperand r') (h : argsText args ++ r = argsText args' ++ r') :
    args = args' ∧ r = r' := by
  have hafter : ∀ r, AfterItem ',' (fun r => r.head? = some ')') r →
      ∀ c ∈ r.head?, ¬ ¬ Punctuation c := by
    rintro r (hend | hcomma) c hc
    · cases hend.symm.trans hc
      exact not_not_intro (.inr (.inr (.inl rfl)))
    · cases hcomma.symm.trans hc
      exact not_not_intro (.inr (.inr (.inr rfl)))
  cases args with
  | nil =>
      cases args' with
      | nil => exact ⟨rfl, h⟩
      | cons arg' args' =>
          rw [argsText, List.nil_append] at h
          subst h
          exact absurd rfl (punctuation_of_ends hr '(' rfl).2
  | cons arg args =>
      cases args' with
      | nil =>
          rw [argsText.eq_1, List.nil_append] at h
          subst h
          exact absurd rfl (punctuation_of_ends hr' '(' rfl).2
      | cons arg' args' =>
          simp only [argsText, List.cons_append, List.cons.injEq, true_and, List.append_assoc,
            List.nil_append] at h
          have hitems :
              arg.toList ++ args.flatMap (fun arg => ',' :: [' '] ++ arg.toList) ++ ')' :: r =
                arg'.toList ++ args'.flatMap (fun arg => ',' :: [' '] ++ arg.toList) ++
                  ')' :: r' := by
            simpa using h
          have hunique : ∀ x ∈ arg :: args, ∀ y ∈ arg' :: args', ∀ u u',
              AfterItem ',' (fun r => r.head? = some ')') u →
              AfterItem ',' (fun r => r.head? = some ')') u' →
              x.toList ++ u = y.toList ++ u' → x = y ∧ u = u' := by
            intro x hx y hy u u' hu hu' h
            exact (word_unique (hargs x hx) (hargs' y hy) (hafter u hu) (hafter u' hu') h).imp_left
              String.toList_inj.mp
          obtain ⟨hall, hend, -⟩ := separated_cons_unique rfl (by simp) hunique rfl rfl hitems
          exact ⟨List.forall₂_eq_eq_eq ▸ hall, (List.cons.inj hend).2⟩

/-- The text of an atom without defects shows which atom it is and where it ends. -/
theorem text_unique (ha : a.defects = []) (hb : b.defects = []) (hr : EndsOperand r)
    (hr' : EndsOperand r') (h : a.text.toList ++ r = b.text.toList ++ r') : a = b ∧ r = r' := by
  obtain ⟨hname, hargs⟩ := unpunctuated ha
  obtain ⟨hname', hargs'⟩ := unpunctuated hb
  rw [toList_text, toList_text, List.append_assoc, List.append_assoc] at h
  obtain ⟨hsame, hrest⟩ := word_unique hname hname'
    (fun c hc ↦ not_not_intro (punctuation_argsText a.args hr c hc))
    (fun c hc ↦ not_not_intro (punctuation_argsText b.args hr' c hc)) h
  obtain ⟨hsame', hend⟩ := argsText_unique hargs hargs' hr hr' hrest
  obtain ⟨name, args⟩ := a
  obtain ⟨name', args'⟩ := b
  cases String.toList_inj.mp hsame
  cases hsame'
  exact ⟨rfl, hend⟩

end Atom

/-! ## Signs -/

namespace Connective

/-- Every connective has a sign of its own. -/
theorem symbol_injective {c d : Connective} (h : c.symbol.toList = d.symbol.toList) : c = d := by
  cases c <;> cases d <;> first | rfl | exact absurd h (by decide)

/-- A sign is one character. -/
theorem length_symbol (c : Connective) : c.symbol.toList.length = 1 := by
  cases c <;> rfl

end Connective

namespace Formula

/-- The connective joins so many operands. -/
inductive Joins : Connective → List Formula → Prop where
  | conj (f : Formula) (fs : List Formula) : Joins .and (f :: fs)
  | disj (f : Formula) (fs : List Formula) : Joins .or (f :: fs)
  | imp (f g : Formula) : Joins .implies [f, g]
  | equiv (f g : Formula) : Joins .iff [f, g]

/-- The operands joined by the connective. -/
def joint (c : Connective) (fs : List Formula) : Formula :=
  { connective := some c, children := fs }

variable {c d : Connective} {f g : Formula} {fs gs : List Formula} {r r' : List Char}

/-- A connective that joins does not stand before a single operand. -/
theorem Joins.not_leads (h : Joins c fs) : ¬ c.Leads := by
  cases h <;> simp [Connective.Leads]

/-! ## Truth -/

/-- The formulas have the same truth value under every assignment to atoms. -/
def SameTruth (f g : Formula) : Prop :=
  ∀ constants truth, f.HoldsIn constants truth ↔ g.HoldsIn constants truth

theorem SameTruth.symm (h : f.SameTruth g) : g.SameTruth f :=
  fun constants truth ↦ (h constants truth).symm

theorem SameTruth.trans {k : Formula} (h : f.SameTruth g) (h' : g.SameTruth k) : f.SameTruth k :=
  fun constants truth ↦ (h constants truth).trans (h' constants truth)

/-- Negation keeps the same truth the same. -/
theorem SameTruth.neg (h : f.SameTruth g) : (neg f).SameTruth (neg g) :=
  fun constants truth ↦ not_congr (h constants truth)

/-- A connective that joins a single operand says what the operand says. -/
theorem Joins.sameTruth_singleton (h : Joins c [f]) : (joint c [f]).SameTruth f := by
  intro constants truth
  cases h with
  | conj => exact (holds_conj [f]).trans List.forall_mem_singleton
  | disj => exact (holds_disj [f]).trans (by simp [HoldsIn])

/-- A connective that joins keeps the same truth the same. -/
theorem Joins.sameTruth (h : Joins c fs) (h' : Joins c gs)
    (hall : List.Forall₂ SameTruth fs gs) : (joint c fs).SameTruth (joint c gs) := by
  intro constants truth
  cases h with
  | conj f fs =>
      refine (holds_conj _).trans (Iff.trans ?_ (holds_conj _).symm)
      exact forall_iff_of_forall₂ hall fun x _ y hxy ↦ hxy constants truth
  | disj f fs =>
      refine (holds_disj _).trans (Iff.trans ?_ (holds_disj _).symm)
      exact exists_iff_of_forall₂ hall fun x y hxy ↦ hxy constants truth
  | imp =>
      cases h' with
      | imp =>
          obtain ⟨hleft, hright⟩ := List.forall₂_cons.mp hall
          exact imp_congr (hleft constants truth) ((List.forall₂_cons.mp hright).1 constants truth)
  | equiv =>
      cases h' with
      | equiv =>
          obtain ⟨hleft, hright⟩ := List.forall₂_cons.mp hall
          exact iff_congr (hleft constants truth) ((List.forall₂_cons.mp hright).1 constants truth)

/-- No matter which connective joins a single operand, what has the same truth keeps it. -/
theorem Joins.sameTruth_join (hc : Joins c (f :: fs)) (hd : Joins d (g :: gs))
    (hall : List.Forall₂ SameTruth (f :: fs) (g :: gs)) (hsign : fs = [] ∨ c = d) :
    (joint c (f :: fs)).SameTruth (joint d (g :: gs)) := by
  rcases hsign with rfl | rfl
  · obtain ⟨hfg, hrest⟩ := List.forall₂_cons.mp hall
    cases hrest
    exact hc.sameTruth_singleton.trans (hfg.trans hd.sameTruth_singleton.symm)
  · exact hc.sameTruth hd hall

/-! ## Texts of operands -/

/-- The written form of an operand, with parentheses where it needs them; nothing where the formula
cannot be written. -/
def operandText (f : Formula) : List Char :=
  match f.render with
  | .ok text => (f.enclose text).toList
  | .error _ => []

/-- The text of an operand that can be written. -/
theorem operandText_eq {text : String} (h : f.render = .ok text) :
    f.operandText = (f.enclose text).toList := by
  rw [operandText, h]

/-- The written form of operands, the sign of the connective with spaces around it before each but
the first. -/
def joinedText (c : Connective) (f : Formula) (fs : List Formula) : List Char :=
  f.operandText ++ fs.flatMap fun g => ' ' :: (c.symbol.toList ++ [' ']) ++ g.operandText

/-- Operands that can be written are written as they stand in a joined text. -/
theorem exists_renderOperands_text (h : ∀ f ∈ fs, ∃ text, f.render = .ok text) :
    ∃ texts, renderOperands fs = .ok texts ∧ texts.map String.toList = fs.map operandText := by
  induction fs with
  | nil => exact ⟨[], rfl, rfl⟩
  | cons f fs ih =>
      obtain ⟨⟨text, hf⟩, hfs⟩ := List.forall_mem_cons.mp h
      obtain ⟨texts, hrest, htexts⟩ := ih hfs
      refine ⟨f.enclose text :: texts, ?_, ?_⟩
      · exact bind_eq_ok_iff.mpr ⟨text, hf, bind_eq_ok_iff.mpr ⟨texts, hrest, rfl⟩⟩
      · rw [List.map_cons, List.map_cons, htexts, operandText_eq hf]

/-- A node that joins operands is written as they are joined. -/
theorem exists_render_join (h : Joins c (f :: fs))
    (hfs : ∀ g ∈ f :: fs, ∃ text, g.render = .ok text) :
    ∃ text, (joint c (f :: fs)).render = .ok text ∧ text.toList = joinedText c f fs := by
  obtain ⟨texts, htexts, hmap⟩ := exists_renderOperands_text hfs
  refine ⟨(" " ++ c.symbol ++ " ").intercalate texts, ?_, ?_⟩
  · rw [joint, render_joined h.not_leads]
    exact bind_eq_ok_iff.mpr ⟨texts, htexts, rfl⟩
  · rw [String.toList_intercalate, hmap, List.map_cons, intercalate_cons, List.flatMap_map]
    simp [joinedText]

/-- As an operand such a node stands in parentheses. -/
theorem operandText_join (h : Joins c (f :: fs))
    (hfs : ∀ g ∈ f :: fs, ∃ text, g.render = .ok text) :
    (joint c (f :: fs)).operandText = '(' :: joinedText c f fs ++ [')'] := by
  obtain ⟨text, htext, hlist⟩ := exists_render_join h hfs
  have halone : (joint c (f :: fs)).standsAlone = false := by cases h <;> rfl
  rw [operandText_eq htext, enclose, halone, ← hlist]
  simp

/-- The text of a negation. -/
theorem operandText_neg (hf : ∃ text, f.render = .ok text) :
    (neg f).operandText = '¬' :: f.operandText := by
  obtain ⟨text, htext⟩ := hf
  have hneg : (neg f).render = .ok ("¬" ++ f.enclose text) :=
    bind_eq_ok_iff.mpr ⟨text, htext, rfl⟩
  rw [operandText_eq hneg, operandText_eq htext]
  simp [enclose, standsAlone, neg]

/-! ## Reading -/

/-- Built without quantifiers from atoms that have no defects. -/
inductive Readable : Formula → Prop where
  | atom {a : Atom} (ha : a.defects = []) : Readable (ofAtom a)
  | top : Readable top
  | bottom : Readable bottom
  | neg {f : Formula} (part : Readable f) : Readable (neg f)
  | join {c : Connective} {f : Formula} {fs : List Formula} (h : Joins c (f :: fs))
      (parts : ∀ g ∈ f :: fs, Readable g) : Readable (joint c (f :: fs))

/-- A propositional formula with atoms without defects is readable. -/
theorem Propositional.readable {allowed : Connective → Prop} (hf : f.Propositional allowed)
    (hatoms : ∀ a ∈ f.atoms, a.defects = []) : f.Readable := by
  induction hf with
  | atom a => exact .atom (hatoms a (by simp))
  | @conj fs _ ih =>
      rw [atoms_conj] at hatoms
      have hparts : ∀ f ∈ fs, f.Readable := fun f hf ↦
        ih f hf fun a ha ↦ hatoms a (List.mem_flatMap.mpr ⟨f, hf, ha⟩)
      cases fs with
      | nil => exact .top
      | cons f fs => exact .join (.conj f fs) hparts
  | @disj fs _ ih =>
      rw [atoms_disj] at hatoms
      have hparts : ∀ f ∈ fs, f.Readable := fun f hf ↦
        ih f hf fun a ha ↦ hatoms a (List.mem_flatMap.mpr ⟨f, hf, ha⟩)
      cases fs with
      | nil => exact .bottom
      | cons f fs => exact .join (.disj f fs) hparts
  | neg _ ih => exact .neg (ih (by simpa using hatoms))
  | @imp f g _ _ _ ihl ihr =>
      rw [atoms_imp, List.forall_mem_append] at hatoms
      exact .join (.imp f g)
        (List.forall_mem_cons.mpr ⟨ihl hatoms.1, List.forall_mem_singleton.mpr (ihr hatoms.2)⟩)
  | @equiv f g _ _ _ ihl ihr =>
      rw [atoms_equiv, List.forall_mem_append] at hatoms
      exact .join (.equiv f g)
        (List.forall_mem_cons.mpr ⟨ihl hatoms.1, List.forall_mem_singleton.mpr (ihr hatoms.2)⟩)

namespace Readable

/-- A readable formula can be written. -/
theorem exists_render (hf : f.Readable) : ∃ text, f.render = .ok text := by
  induction hf with
  | @atom a _ => exact ⟨a.text, rfl⟩
  | top => exact ⟨"⊤", rfl⟩
  | bottom => exact ⟨"⊥", rfl⟩
  | @neg f _ ih =>
      obtain ⟨text, htext⟩ := ih
      exact ⟨_, bind_eq_ok_iff.mpr ⟨text, htext, rfl⟩⟩
  | join h _ ih =>
      obtain ⟨text, htext, _⟩ := exists_render_join h ih
      exact ⟨text, htext⟩

end Readable

/-- How the text of an operand starts. -/
inductive Start where
  | name
  | top
  | bottom
  | negation
  | parenthesis

/-- What the first character shows. -/
def Start.ofChar (c : Char) : Start :=
  if c = '⊤' then .top
  else if c = '⊥' then .bottom
  else if c = '¬' then .negation
  else if c = '(' then .parenthesis
  else .name

/-- What the top node asks for. -/
def start (f : Formula) : Start :=
  if f.isAtom then .name
  else if f.connective = some .not then .negation
  else if f.children.isEmpty then if f.connective = some .and then .top else .bottom
  else .parenthesis

theorem start_join (h : Joins c fs) : (joint c fs).start = .parenthesis := by
  cases h <;> rfl

namespace Readable

/-- The first character of an operand shows what its top node is. -/
theorem exists_start (hf : f.Readable) :
    ∃ c rest, f.operandText = c :: rest ∧ Start.ofChar c = f.start := by
  cases hf with
  | @atom a ha =>
      obtain ⟨c, rest, hc, hname⟩ := exists_head (Atom.defects_eq_nil_iff.mp ha).1
      refine ⟨c, rest ++ Atom.argsText a.args, ?_, ?_⟩
      · exact (Atom.toList_text a).trans (by rw [hname, List.cons_append])
      · have hother : ¬ (c = '⊤' ∨ c = '⊥' ∨ c = '¬' ∨ c = '(') := by
          rintro (rfl | rfl | rfl | rfl) <;> revert hc <;> unfold Letter <;> decide
        simp only [not_or] at hother
        rw [Start.ofChar, if_neg hother.1, if_neg hother.2.1, if_neg hother.2.2.1,
          if_neg hother.2.2.2]
        rfl
  | top => exact ⟨'⊤', [], by decide +kernel, rfl⟩
  | bottom => exact ⟨'⊥', [], by decide +kernel, rfl⟩
  | neg part => exact ⟨'¬', _, operandText_neg part.exists_render, rfl⟩
  | join h parts =>
      refine ⟨'(', _, operandText_join h fun g hg ↦ (parts g hg).exists_render, ?_⟩
      exact (start_join h).symm

/-- Operands whose texts start alike have top nodes alike. -/
theorem start_eq (hf : f.Readable) (hg : g.Readable)
    (h : f.operandText ++ r = g.operandText ++ r') : f.start = g.start := by
  obtain ⟨c, rest, hc, hstart⟩ := hf.exists_start
  obtain ⟨d, rest', hd, hstart'⟩ := hg.exists_start
  rw [hc, hd, List.cons_append, List.cons_append] at h
  rw [← hstart, ← hstart', (List.cons.inj h).1]

/-- An operand can be told from others, up to its truth, and from what follows it. -/
def Told (f : Formula) : Prop :=
  ∀ g, g.Readable → ∀ r r', EndsOperand r → EndsOperand r' →
    f.operandText ++ r = g.operandText ++ r' → f.SameTruth g ∧ r = r'

/-- Where the operands can be told, so can joined ones, and their sign if there are several. -/
theorem joinedText_unique (hfs : ∀ x ∈ f :: fs, Told x) (hgs : ∀ y ∈ g :: gs, y.Readable)
    (hr : EndsFormula r) (hr' : EndsFormula r')
    (h : joinedText c f fs ++ r = joinedText d g gs ++ r') :
    List.Forall₂ SameTruth (f :: fs) (g :: gs) ∧ r = r' ∧ (fs = [] ∨ c = d) := by
  have hlength : (c.symbol.toList ++ [' ']).length = (d.symbol.toList ++ [' ']).length := by
    rw [List.length_append, List.length_append, c.length_symbol, d.length_symbol]
  have hspace : ∀ r, ¬ EndsFormula (' ' :: r) :=
    fun r hend ↦ absurd (hend ' ' rfl) (by decide)
  obtain ⟨hall, hend, hsign⟩ := separated_cons_unique hlength hspace
    (fun x hx y hy u u' hu hu' h ↦ hfs x hx y (hgs y hy) u u' hu hu' h) hr hr' h
  refine ⟨hall, hend, hsign.imp_right fun hsame ↦ ?_⟩
  exact Connective.symbol_injective (List.append_left_injective _ hsame)

/-- Every operand can be told. -/
theorem told (hf : f.Readable) : Told f := by
  induction hf with
  | atom ha =>
      intro g hg r r' hr hr' h
      have hstart := start_eq (.atom ha) hg h
      cases hg with
      | atom hb =>
          obtain ⟨rfl, hend⟩ := Atom.text_unique ha hb hr hr' h
          exact ⟨fun _ _ ↦ Iff.rfl, hend⟩
      | top | bottom | neg => cases hstart
      | join hd => cases hstart.trans (start_join hd)
  | top =>
      intro g hg r r' hr hr' h
      have hstart := start_eq .top hg h
      cases hg with
      | top => exact ⟨fun _ _ ↦ Iff.rfl, List.append_cancel_left h⟩
      | atom | bottom | neg => cases hstart
      | join hd => cases hstart.trans (start_join hd)
  | bottom =>
      intro g hg r r' hr hr' h
      have hstart := start_eq .bottom hg h
      cases hg with
      | bottom => exact ⟨fun _ _ ↦ Iff.rfl, List.append_cancel_left h⟩
      | atom | top | neg => cases hstart
      | join hd => cases hstart.trans (start_join hd)
  | neg hf ih =>
      intro g hg r r' hr hr' h
      have hstart := start_eq (.neg hf) hg h
      cases hg with
      | neg hg =>
          rw [operandText_neg hf.exists_render, operandText_neg hg.exists_render] at h
          obtain ⟨hsame, hend⟩ := ih _ hg r r' hr hr' (List.cons.inj h).2
          exact ⟨hsame.neg, hend⟩
      | atom | top | bottom => cases hstart
      | join hd => cases hstart.trans (start_join hd)
  | join hc hfs ih =>
      intro g hg r r' hr hr' h
      have hstart := (start_join hc).symm.trans (start_eq (.join hc hfs) hg h)
      cases hg with
      | atom | top | bottom | neg => cases hstart
      | join hd hgs =>
          rw [operandText_join hc fun g hg ↦ (hfs g hg).exists_render,
            operandText_join hd fun g hg ↦ (hgs g hg).exists_render] at h
          simp only [List.cons_append, List.cons.injEq, true_and, List.append_assoc] at h
          have hclosing (r : List Char) : EndsFormula (')' :: r) := by
            rintro c ⟨⟩
            rfl
          obtain ⟨hall, hend, hsign⟩ :=
            joinedText_unique ih hgs (hclosing r) (hclosing r') h
          exact ⟨hc.sameTruth_join hd hall hsign, (List.cons.inj hend).2⟩

/-- Every text is that of joined operands, or of a single one. Together they say what the formula
says. -/
theorem exists_joined (hf : f.Readable) {text : String} (htext : f.render = .ok text) :
    ∃ c h hs, text.toList = joinedText c h hs ∧ (∀ x ∈ h :: hs, x.Readable) ∧
      Joins c (h :: hs) ∧ f.SameTruth (Formula.joint c (h :: hs)) := by
  have hsingle (halone : f.standsAlone = true) :
      text.toList = joinedText .and f [] ∧ (∀ x ∈ [f], x.Readable) ∧
        Joins .and [f] ∧ f.SameTruth (Formula.joint .and [f]) := by
    refine ⟨?_, List.forall_mem_singleton.mpr hf, .conj f [],
      (Joins.conj f []).sameTruth_singleton.symm⟩
    simp [joinedText, operandText_eq htext, enclose, halone]
  cases hf with
  | atom | top | bottom | neg => exact ⟨_, _, _, hsingle rfl⟩
  | join h parts =>
      obtain ⟨text', htext', hlist⟩ := exists_render_join h fun g hg ↦ (parts g hg).exists_render
      cases htext.symm.trans htext'
      exact ⟨_, _, _, hlist, parts, h, fun _ _ ↦ Iff.rfl⟩

/-- Readable formulas that are written alike say the same. -/
theorem sameTruth_of_render (hf : f.Readable) (hg : g.Readable) (h : f.render = g.render) :
    f.SameTruth g := by
  obtain ⟨text, htext⟩ := hf.exists_render
  obtain ⟨c, x, xs, hlist, hparts, hjoins, hsame⟩ := hf.exists_joined htext
  obtain ⟨d, y, ys, hlist', hparts', hjoins', hsame'⟩ := hg.exists_joined (h ▸ htext)
  have hend : EndsFormula [] := fun c hc ↦ nomatch hc
  have htexts : joinedText c x xs ++ [] = joinedText d y ys ++ [] :=
    congrArg (· ++ []) (hlist.symm.trans hlist')
  obtain ⟨hall, -, hsign⟩ :=
    joinedText_unique (fun x hx ↦ (hparts x hx).told) hparts' hend hend htexts
  exact hsame.trans ((hjoins.sameTruth_join hjoins' hall hsign).trans hsame'.symm)

end Readable

/-- Two formulas built by the constructors without quantifiers, whose atoms have no defects, can be
written, and if they are written alike they have the same truth value under every assignment to
atoms. Different atoms without defects are written differently. -/
theorem written_unambiguous {f g : Formula} (hf : f.WellFormed) (hg : g.WellFormed)
    (hplain : f.containsQuantifier = false) (hplain' : g.containsQuantifier = false)
    (hatoms : ∀ a ∈ f.atoms, a.defects = []) (hatoms' : ∀ a ∈ g.atoms, a.defects = []) :
    (∃ text, f.render = .ok text) ∧ (∃ text, g.render = .ok text) ∧
    (f.render = g.render →
      ∀ constants truth, f.HoldsIn constants truth ↔ g.HoldsIn constants truth) ∧
    ∀ a b : Atom, a.defects = [] → b.defects = [] → (a.text = b.text ↔ a = b) := by
  have hread := (hf.propositional hplain).readable hatoms
  have hread' := (hg.propositional hplain').readable hatoms'
  refine ⟨hread.exists_render, hread'.exists_render, hread.sameTruth_of_render hread',
    fun a b ha hb ↦ ⟨fun h ↦ ?_, congrArg Atom.text⟩⟩
  have hend : EndsOperand [] := .inl fun c hc ↦ nomatch hc
  exact (Atom.text_unique ha hb hend hend (congrArg (String.toList · ++ []) h)).1

/-- The negation of p in two shells, q in two shells and truth, with these signs for the shells. -/
def shelled (outer inner : List Formula → Formula) : Formula :=
  .conj [outer [.neg (inner [.atom "p" ["a-1", "?x"]])], inner [outer [.atom "q" []]],
    outer [.top]]

/-- A shell of a single formula can be a conjunction or a disjunction: the text is the same, and so
is the truth. -/
theorem shelled_same :
    let f := shelled .conj .disj
    let g := shelled .disj .conj
    f ≠ g ∧ f.WellFormed ∧ f.containsQuantifier = false ∧ (∀ a ∈ f.atoms, a.defects = []) ∧
      f.render = .ok "(¬(p(a-1, ?x))) ∧ ((q)) ∧ (⊤)" ∧ g.render = f.render ∧
      ∀ constants truth, f.HoldsIn constants truth ↔ g.HoldsIn constants truth := by
  intro f g
  have hbuilt {outer inner : List Formula → Formula}
      (houter : ∀ k : Formula, k.WellFormed → (outer [k]).WellFormed)
      (hinner : ∀ k : Formula, k.WellFormed → (inner [k]).WellFormed) :
      (shelled outer inner).WellFormed := by
    refine .conj ?_
    simp only [List.forall_mem_cons]
    exact ⟨houter _ (.neg (hinner _ (.atom _))), hinner _ (houter _ (.atom _)),
      houter _ (.conj (by simp)), by simp⟩
  have hconj (k : Formula) (hk : k.WellFormed) : (conj [k]).WellFormed :=
    .conj (List.forall_mem_singleton.mpr hk)
  have hdisj (k : Formula) (hk : k.WellFormed) : (disj [k]).WellFormed :=
    .disj (List.forall_mem_singleton.mpr hk)
  have hatoms : ∀ a ∈ f.atoms, a.defects = [] := by decide +kernel
  have hatoms' : ∀ a ∈ g.atoms, a.defects = [] := by decide +kernel
  have htext : f.render = .ok "(¬(p(a-1, ?x))) ∧ ((q)) ∧ (⊤)" := by rfl
  have htext' : g.render = f.render := by rfl
  obtain ⟨_, _, hsame, _⟩ := written_unambiguous (hbuilt hconj hdisj) (hbuilt hdisj hconj)
    (by decide) (by decide) hatoms hatoms'
  exact ⟨by decide, hbuilt hconj hdisj, by decide, hatoms, htext, htext', hsame htext'.symm⟩

end Formula

end Diagnosis
