import Diagnosis.Formula.Printer
import Diagnosis.Proofs.Results

/-!
# Well-formed formulas can be written

Writing stops at a node that lacks a connective or an operand. A well-formed formula has no such
node, so that it has a written form (`WellFormed.render`).
-/

namespace Diagnosis.Formula

/-- Operands that can be written can be written one after the other. -/
theorem exists_renderOperands {fs : List Formula} (h : ∀ f ∈ fs, ∃ text, f.render = .ok text) :
    ∃ texts, renderOperands fs = .ok texts := by
  induction fs with
  | nil => exact ⟨[], rfl⟩
  | cons f fs ih =>
      obtain ⟨⟨text, hf⟩, hfs⟩ := List.forall_mem_cons.mp h
      obtain ⟨texts, hrest⟩ := ih hfs
      exact ⟨f.enclose text :: texts, bind_eq_ok_iff.mpr
        ⟨text, hf, bind_eq_ok_iff.mpr ⟨texts, hrest, rfl⟩⟩⟩

/-- A node whose operands are joined by its connective is written if they are. A conjunction and a
disjunction of nothing have a sign of their own. -/
theorem exists_render_joined {c : Connective} {fs : List Formula}
    (hc : c = .and ∨ c = .or ∨ c = .implies ∨ c = .iff)
    (h : ∀ f ∈ fs, ∃ text, f.render = .ok text) :
    ∃ text, ({ connective := some c, children := fs } : Formula).render = .ok text := by
  obtain ⟨texts, htexts⟩ := exists_renderOperands h
  have hjoined : ∃ text, (do return (" " ++ c.symbol ++ " ").intercalate (← renderOperands fs) :
      Except Fault String) = .ok text := ⟨_, bind_eq_ok_iff.mpr ⟨texts, htexts, rfl⟩⟩
  rcases hc with rfl | rfl | rfl | rfl
  · cases fs with
    | nil => exact ⟨_, rfl⟩
    | cons f fs => exact hjoined
  · cases fs with
    | nil => exact ⟨_, rfl⟩
    | cons f fs => exact hjoined
  · exact hjoined
  · exact hjoined

/-- A well-formed formula has a written form. -/
theorem WellFormed.render {f : Formula} (hf : f.WellFormed) : ∃ text, f.render = .ok text := by
  induction hf with
  | atom a => exact ⟨a.text, rfl⟩
  | conj parts ih => exact exists_render_joined (.inl rfl) ih
  | disj parts ih => exact exists_render_joined (.inr (.inl rfl)) ih
  | neg part ih =>
      obtain ⟨text, hf⟩ := ih
      exact ⟨_, bind_eq_ok_iff.mpr ⟨text, hf, rfl⟩⟩
  | imp left right ihl ihr =>
      refine exists_render_joined (.inr (.inr (.inl rfl))) ?_
      exact List.forall_mem_cons.mpr ⟨ihl, List.forall_mem_singleton.mpr ihr⟩
  | equiv left right ihl ihr =>
      refine exists_render_joined (.inr (.inr (.inr rfl))) ?_
      exact List.forall_mem_cons.mpr ⟨ihl, List.forall_mem_singleton.mpr ihr⟩
  | univ body ih =>
      obtain ⟨text, hf⟩ := ih
      exact ⟨_, bind_eq_ok_iff.mpr ⟨text, hf, rfl⟩⟩
  | exist body ih =>
      obtain ⟨text, hf⟩ := ih
      exact ⟨_, bind_eq_ok_iff.mpr ⟨text, hf, rfl⟩⟩

end Diagnosis.Formula
