import Diagnosis.Proofs.Formula.Written

/-!
# Which trees can be written

Trees need not be built by the constructors. Writing goes from a node to its operands: all of them
below a connective that joins, the first one below a negation or a quantifier. A tree is legible if
every node that writing comes to has a predicate or a connective, and an operand where one is
written after the sign. Exactly the legible trees have a written form (`exists_render_iff`), and the
faults of the others are a missing connective or a missing operand (`render_failsOnly`).
-/

namespace Diagnosis

/-- The sign stands before a single operand: a negation or a quantifier. -/
def Connective.Leads (c : Connective) : Prop :=
  c = .not ∨ c = .universal ∨ c = .existential

namespace Formula

/-- What a node has if its operands have it, every tree has. -/
theorem tree_induction {P : Formula → Prop}
    (node : ∀ p c fs x s, (∀ f ∈ fs, P f) → P ⟨p, c, fs, x, s⟩) (f : Formula) : P f :=
  @Formula.rec P (fun fs ↦ ∀ f ∈ fs, P f) node (by simp)
    (fun _ _ hf hfs ↦ List.forall_mem_cons.mpr ⟨hf, hfs⟩) f

/-- Every node that writing comes to can be written. -/
inductive Legible : Formula → Prop where
  | atom (a : Atom) (c : Option Connective) (fs : List Formula) (x s : Option String) :
      Legible ⟨some a, c, fs, x, s⟩
  | leading {c : Connective} (hc : c.Leads) {f : Formula} (first : Legible f) (fs : List Formula)
      (x s : Option String) : Legible ⟨none, some c, f :: fs, x, s⟩
  | joined {c : Connective} (hc : ¬ c.Leads) {fs : List Formula} (parts : ∀ f ∈ fs, Legible f)
      (x s : Option String) : Legible ⟨none, some c, fs, x, s⟩

section Nodes

variable {c : Connective} {f : Formula} {fs : List Formula} {x s : Option String}

/-- Behind a sign that leads, the first operand has to be legible. -/
theorem legible_leading_iff (hc : c.Leads) :
    Legible ⟨none, some c, f :: fs, x, s⟩ ↔ f.Legible := by
  refine ⟨fun h ↦ ?_, fun h ↦ .leading hc h fs x s⟩
  cases h with
  | leading _ first _ _ _ => exact first
  | joined hjoins _ _ _ => exact absurd hc hjoins

/-- Between signs that join, all the operands have to be legible. -/
theorem legible_joined_iff (hc : ¬ c.Leads) :
    Legible ⟨none, some c, fs, x, s⟩ ↔ ∀ f ∈ fs, f.Legible := by
  refine ⟨fun h ↦ ?_, fun h ↦ .joined hc h x s⟩
  cases h with
  | leading hleads _ _ _ _ => exact absurd hleads hc
  | joined _ parts _ _ => exact parts

/-- Operands are written if each of them is. -/
theorem exists_renderOperands_iff :
    (∃ texts, renderOperands fs = .ok texts) ↔ ∀ f ∈ fs, ∃ text, f.render = .ok text := by
  refine ⟨?_, exists_renderOperands⟩
  induction fs with
  | nil => simp
  | cons f fs ih =>
      rintro ⟨texts, h⟩
      obtain ⟨text, htext, h⟩ := bind_eq_ok_iff.mp h
      obtain ⟨rest, hrest, -⟩ := bind_eq_ok_iff.mp h
      exact List.forall_mem_cons.mpr ⟨⟨text, htext⟩, ih ⟨rest, hrest⟩⟩

/-- Behind a sign that leads stands the first operand. -/
theorem exists_render_leading_iff (hc : c.Leads) :
    (∃ text, (⟨none, some c, f :: fs, x, s⟩ : Formula).render = .ok text) ↔
      ∃ text, f.render = .ok text := by
  rcases hc with rfl | rfl | rfl <;> simp [render, bind_eq_ok_iff, pure, Except.pure]

/-- A sign that leads cannot be written without an operand. -/
theorem render_leading_nil (hc : c.Leads) :
    (⟨none, some c, [], x, s⟩ : Formula).render = .error .missingOperand := by
  rcases hc with rfl | rfl | rfl <;> rfl

/-- A connective that joins has a written form also without operands. -/
theorem exists_render_joined_nil (hc : ¬ c.Leads) :
    ∃ text, (⟨none, some c, [], x, s⟩ : Formula).render = .ok text := by
  cases c with
  | and | or | implies | iff => exact ⟨_, rfl⟩
  | not | universal | existential => simp [Connective.Leads] at hc

/-- Between signs that join stand all the operands. -/
theorem render_joined (hc : ¬ c.Leads) :
    (⟨none, some c, f :: fs, x, s⟩ : Formula).render = do
      return (" " ++ c.symbol ++ " ").intercalate (← renderOperands (f :: fs)) := by
  cases c with
  | and | or | implies | iff => rfl
  | not | universal | existential => simp [Connective.Leads] at hc

/-- A node that joins its operands is written if each of them is. -/
theorem exists_render_joined_iff (hc : ¬ c.Leads) :
    (∃ text, (⟨none, some c, fs, x, s⟩ : Formula).render = .ok text) ↔
      ∀ f ∈ fs, ∃ text, f.render = .ok text := by
  cases fs with
  | nil => simpa using exists_render_joined_nil hc
  | cons f fs =>
      rw [← exists_renderOperands_iff, render_joined hc]
      simp [bind_eq_ok_iff, pure, Except.pure]

end Nodes

/-- Exactly the legible trees have a written form. -/
theorem exists_render_iff (f : Formula) : (∃ text, f.render = .ok text) ↔ f.Legible := by
  induction f using tree_induction with
  | node p c fs x s ih =>
      cases p with
      | some a => exact iff_of_true ⟨a.text, rfl⟩ (.atom a c fs x s)
      | none =>
          cases c with
          | none => exact iff_of_false (fun ⟨_, h⟩ ↦ nomatch h) fun h ↦ nomatch h
          | some c =>
              by_cases hc : c.Leads
              · cases fs with
                | nil =>
                    rw [render_leading_nil hc]
                    refine iff_of_false (fun ⟨_, h⟩ ↦ nomatch h) fun h ↦ ?_
                    cases h with
                    | joined hjoins _ _ _ => exact hjoins hc
                | cons f fs =>
                    rw [exists_render_leading_iff hc, ih f List.mem_cons_self,
                      legible_leading_iff hc]
              · rw [exists_render_joined_iff hc, forall₂_congr ih, legible_joined_iff hc]

/-- What keeps a tree from being written is a missing connective or a missing operand. -/
theorem render_failsOnly (f : Formula) :
    FailsOnly (fun fault ↦ fault = .missingConnective ∨ fault = .missingOperand) f.render := by
  induction f using tree_induction with
  | node p c fs x s ih =>
      have hoperands : FailsOnly (fun fault ↦ fault = .missingConnective ∨ fault = .missingOperand)
          (renderOperands fs) := by
        induction fs with
        | nil => exact .of_ok ⟨[], rfl⟩
        | cons f fs ihs =>
            obtain ⟨hf, hfs⟩ := List.forall_mem_cons.mp ih
            exact hf.bind fun text _ ↦ (ihs hfs).bind fun texts _ ↦ .of_ok ⟨_, rfl⟩
      cases p with
      | some a => exact .of_ok ⟨a.text, rfl⟩
      | none =>
          cases c with
          | none => exact .of_error rfl (.inl rfl)
          | some c =>
              by_cases hc : c.Leads
              · cases fs with
                | nil => exact .of_error (render_leading_nil hc) (.inr rfl)
                | cons f fs =>
                    have hfirst := ih f List.mem_cons_self
                    rcases hc with rfl | rfl | rfl <;>
                      exact hfirst.bind fun text _ ↦ .of_ok ⟨_, rfl⟩
              · cases fs with
                | nil => exact .of_ok (exists_render_joined_nil hc)
                | cons f fs =>
                    rw [render_joined hc]
                    exact hoperands.bind fun texts _ ↦ .of_ok ⟨_, rfl⟩

end Formula

end Diagnosis
