import Diagnosis.Proofs.Satisfiability.Propagation
import Diagnosis.Satisfiability.Search

/-!
# The search decides satisfiability

An assignment is extendable if some model of the clauses extends it. Propagation changes nothing
about that, and an open subject is true or false in a model, so that the search is right about the
assignment it starts from, provided that it may branch on every subject that occurs.
-/

namespace Diagnosis.Clause

variable {α : Type} [DecidableEq α] {a a' : Assignment α} {x : α} {xs : List α}
  {cs : List (Clause α)} {limit : Int} {branchable : α → Bool} {decisions : Nat}

/-- Some model of the clauses extends the assignment. -/
def Extendable (cs : List (Clause α)) (a : Assignment α) : Prop :=
  ∃ truth : α → Bool, a.Extends truth ∧ ∀ c ∈ cs, c.Holds truth

/-- What the search decides about the assignment is right. -/
def SearchOutcome.Right (cs : List (Clause α)) (a : Assignment α) : SearchOutcome → Prop
  | .decided true _ => Extendable cs a
  | .decided false _ => ¬ Extendable cs a
  | .exhausted => True

/-- The empty assignment is extendable if the clauses are satisfiable. -/
theorem extendable_nil : Extendable cs [] ↔ Satisfiable cs := by
  refine exists_congr fun truth ↦ ?_
  rw [and_iff_right (Assignment.extends_nil truth)]

/-- A derivation does not change what is extendable. -/
theorem Propagates.extendable_iff (h : Propagates cs a a') :
    Extendable cs a ↔ Extendable cs a' := by
  refine exists_congr fun truth ↦ and_congr_left fun hmodel ↦ ?_
  exact h.extends_iff hmodel

/-- An open subject is true or false in a model. -/
theorem extendable_iff_assign (hopen : a.value? x = none) :
    Extendable cs a ↔ Extendable cs (a.assign x true) ∨ Extendable cs (a.assign x false) := by
  simp only [Extendable, Assignment.extends_assign hopen]
  constructor
  · rintro ⟨truth, hextends, hmodel⟩
    cases hx : truth x with
    | true => exact .inl ⟨truth, ⟨hextends, hx⟩, hmodel⟩
    | false => exact .inr ⟨truth, ⟨hextends, hx⟩, hmodel⟩
  · rintro (⟨truth, ⟨hextends, _⟩, hmodel⟩ | ⟨truth, ⟨hextends, _⟩, hmodel⟩)
    · exact ⟨truth, hextends, hmodel⟩
    · exact ⟨truth, hextends, hmodel⟩

/-- What is right about an assignment is right about those that are extendable alike. -/
theorem SearchOutcome.Right.of_iff {outcome : SearchOutcome} (h : outcome.Right cs a')
    (hiff : Extendable cs a ↔ Extendable cs a') : outcome.Right cs a := by
  cases outcome with
  | exhausted => trivial
  | decided satisfiable n =>
      cases satisfiable with
      | true => exact hiff.mpr h
      | false => exact fun hextendable ↦ h (hiff.mp hextendable)

/-- Where all clauses are quiet and nothing is open, the assignment is a model. -/
theorem extendable_of_quiet (hquiet : ∀ c ∈ cs, Quiet a c)
    (hassigned : ∀ c ∈ cs, ∀ l ∈ c, (a.value? l.subject).isSome = true) : Extendable cs a := by
  have hextends : a.Extends fun x ↦ (a.value? x).getD false := by
    intro subject value hvalue
    exact congrArg (Option.getD · false) hvalue
  refine ⟨_, hextends, fun c hc ↦ ?_⟩
  -- A quiet clause is satisfied, or else undetermined, which needs an open literal.
  have hstands := stands_inspect a c
  rcases hquiet c hc with h | h <;> rw [h] at hstands
  · cases hstands with
    | satisfied hl htrue => exact ⟨_, hl, Assignment.holds_of_makesTrue hextends htrue⟩
  · cases hstands with
    | undetermined hl hopen =>
        have hsome := hassigned c hc _ hl
        rw [Option.isNone_iff_eq_none.mp hopen] at hsome
        cases hsome

/-- A subject that has been given a value leaves the list of subjects to branch on. -/
theorem listed_of_propagates {value : Bool}
    (hlisted : ∀ c ∈ cs, ∀ l ∈ c, (a.value? l.subject).isSome = true ∨ l.subject ∈ x :: xs)
    (h : Propagates cs (a.assign x value) a') :
    ∀ c ∈ cs, ∀ l ∈ c, (a'.value? l.subject).isSome = true ∨ l.subject ∈ xs := by
  intro c hc l hl
  by_cases hlx : l.subject = x
  · exact .inl (h.isSome_value? (.inl hlx))
  · rcases hlisted c hc l hl with hsome | hmem
    · exact .inl (h.isSome_value? (.inr hsome))
    · exact .inr ((List.mem_cons.mp hmem).resolve_left hlx)

/-- The search below an assignment with one more value. -/
def descend (cs : List (Clause α)) (limit : Int) (branchable : α → Bool) (xs : List α)
    (a : Assignment α) (decisions : Nat) : SearchOutcome :=
  match propagate cs a with
  | none => .decided false decisions
  | some a => explore cs limit branchable xs a decisions

/-- A search that propagates first is right if the search from there is. -/
theorem descend_right (h : ∀ a', Propagates cs a a' → (∀ c ∈ cs, Quiet a' c) →
      (explore cs limit branchable xs a' decisions).Right cs a') :
    (descend cs limit branchable xs a decisions).Right cs a := by
  unfold descend
  split
  case h_1 hstop =>
    rintro ⟨truth, hextends, hmodel⟩
    exact (conflicts_of_propagate hstop).not_model hextends hmodel
  case h_2 a' hpropagate =>
    obtain ⟨hpropagates, hquiet⟩ := propagates_of_propagate hpropagate
    exact (h a' hpropagates hquiet).of_iff hpropagates.extendable_iff

/-- A subject that is open and may be branched on is tried as true and then as false. -/
theorem explore_cons (hopen : a.value? x = none) (hx : branchable x = true) :
    explore cs limit branchable (x :: xs) a decisions =
      if limit < decisions + 1 then .exhausted
      else match descend cs limit branchable xs (a.assign x true) (decisions + 1) with
        | .decided false n => descend cs limit branchable xs (a.assign x false) n
        | outcome => outcome := by
  rw [explore, hopen, Option.isSome_none, if_neg Bool.false_ne_true, hx, Bool.not_true,
    if_neg Bool.false_ne_true]
  rfl

/-- The search below an assignment under which all clauses are quiet is right, if it may branch on
all subjects that are open. -/
theorem explore_right (hquiet : ∀ c ∈ cs, Quiet a c)
    (hlisted : ∀ c ∈ cs, ∀ l ∈ c, (a.value? l.subject).isSome = true ∨ l.subject ∈ xs)
    (hbranchable : ∀ x ∈ xs, branchable x = true) :
    (explore cs limit branchable xs a decisions).Right cs a := by
  induction xs generalizing a decisions with
  | nil =>
      exact extendable_of_quiet hquiet fun c hc l hl ↦
        (hlisted c hc l hl).resolve_right List.not_mem_nil
  | cons x xs ih =>
      obtain ⟨hx, hxs⟩ := List.forall_mem_cons.mp hbranchable
      cases hvalue : a.value? x with
      | some value =>
          have hsome : (a.value? x).isSome = true := Option.isSome_iff_exists.mpr ⟨value, hvalue⟩
          rw [explore, if_pos hsome]
          refine ih hquiet (fun c hc l hl ↦ ?_) hxs
          rcases hlisted c hc l hl with h | hmem
          · exact .inl h
          · rcases List.mem_cons.mp hmem with hlx | hmem
            · exact .inl (hlx ▸ hsome)
            · exact .inr hmem
      | none =>
          have hdescend (value : Bool) (n : Nat) :
              (descend cs limit branchable xs (a.assign x value) n).Right cs (a.assign x value) :=
            descend_right fun a' hpropagates hquiet' ↦
              ih hquiet' (listed_of_propagates hlisted hpropagates) hxs
          have hbranch : Extendable cs a ↔
              Extendable cs (a.assign x true) ∨ Extendable cs (a.assign x false) :=
            extendable_iff_assign hvalue
          have htrue := hdescend true (decisions + 1)
          rw [explore_cons hvalue hx]
          split
          case isTrue => trivial
          case isFalse =>
            cases hfirst : descend cs limit branchable xs (a.assign x true) (decisions + 1) with
            | exhausted => trivial
            | decided satisfiable n =>
                rw [hfirst] at htrue
                cases satisfiable with
                | true => exact hbranch.mpr (.inl htrue)
                | false =>
                    -- No model makes x true, so the question is whether one makes it false.
                    exact (hdescend false n).of_iff (hbranch.trans (or_iff_right htrue))

/-- The subjects of the clauses are listed. -/
theorem mem_subjects : x ∈ subjects cs ↔ ∃ c ∈ cs, ∃ l ∈ c, l.subject = x := by
  simp [subjects]

/-- What is decided about clauses is right, if the search may branch on all of their subjects. -/
theorem solve_right (hbranchable : ∀ c ∈ cs, ∀ l ∈ c, branchable l.subject = true) :
    (solve cs limit branchable).Right cs [] := by
  show (descend cs limit branchable (subjects cs) [] 0).Right cs []
  refine descend_right fun a _ hquiet ↦
    explore_right hquiet (fun c hc l hl ↦ .inr ?_) fun x hx ↦ ?_
  · exact mem_subjects.mpr ⟨c, hc, l, hl, rfl⟩
  · obtain ⟨c, hc, l, hl, rfl⟩ := mem_subjects.mp hx
    exact hbranchable c hc l hl

end Diagnosis.Clause
