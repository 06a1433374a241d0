import Diagnosis.Proofs.Keyed
import Diagnosis.Satisfiability.Propagation
import Mathlib.Data.List.Basic

/-!
# Propagation keeps the models

`Propagates` adds forced literals one by one. Whatever `propagate` does is such a derivation
(`propagates_of_propagate`), so that it keeps the models that extend the assignment, and where it
finds a falsified clause there are none. Sweeps end with one that forces nothing, because each
other sweep leaves fewer literals open; the assignment they end with is closed: it neither
falsifies a clause nor leaves one unit.
-/

namespace Diagnosis

variable {α : Type} [DecidableEq α] {a a' : Assignment α} {truth : α → Bool} {x y : α}
  {value : Bool} {c : Clause α} {cs more : List (Clause α)} {l : Literal α}

/-! ## Assignments -/

namespace Assignment

@[simp] theorem value?_assign :
    (a.assign x value).value? y = if y = x then some value else a.value? y := by
  rw [value?, assign, Keyed.lookup_entry, value?]

/-- Every assignment extends the empty one. -/
theorem extends_nil (truth : α → Bool) : Extends truth ([] : Assignment α) := by
  intro subject value h
  cases h

/-- A new value restricts the extensions to those that have it. -/
theorem extends_assign (hopen : a.value? x = none) :
    Extends truth (a.assign x value) ↔ Extends truth a ∧ truth x = value := by
  constructor
  · intro h
    refine ⟨fun y v hy ↦ h y v ?_, h x value (by simp)⟩
    have hyx : y ≠ x := by
      rintro rfl
      rw [hopen] at hy
      cases hy
    rw [value?_assign, if_neg hyx, hy]
  · rintro ⟨hextends, hx⟩ y v hy
    rw [value?_assign] at hy
    split at hy
    case isTrue hyx =>
      cases hy
      exact hyx ▸ hx
    case isFalse => exact hextends y v hy

/-- A literal that an assignment makes true is true in its extensions. -/
theorem holds_of_makesTrue (hextends : Extends truth a) (h : a.makesTrue l = true) :
    l.Holds truth := by
  rw [makesTrue, beq_iff_eq] at h
  exact hextends _ _ h

/-- The literal is neither true nor open. -/
def MakesFalse (a : Assignment α) (l : Literal α) : Prop :=
  a.makesTrue l = false ∧ a.leavesOpen l = false

/-- A literal that an assignment makes false is false in its extensions. -/
theorem MakesFalse.not_holds (h : a.MakesFalse l) (hextends : Extends truth a) :
    ¬ l.Holds truth := by
  obtain ⟨htrue, hopen⟩ := h
  rw [leavesOpen, Option.isNone_eq_false_iff, Option.isSome_iff_exists] at hopen
  obtain ⟨v, hv⟩ := hopen
  rw [makesTrue, beq_eq_false_iff_ne, hv] at htrue
  intro hholds
  exact htrue (congrArg some ((hextends _ _ hv).symm.trans hholds))

end Assignment

namespace Clause

/-! ## The standing of a clause -/

/-- What the standing of a clause says of its literals. -/
inductive Stands (a : Assignment α) (c : Clause α) : ClauseStanding α → Prop where
  | satisfied {l : Literal α} (hl : l ∈ c) (htrue : a.makesTrue l = true) : Stands a c .satisfied
  | falsified (hfalse : ∀ l ∈ c, a.MakesFalse l) : Stands a c .falsified
  | unit {l : Literal α} (hl : l ∈ c) (hopen : a.leavesOpen l = true)
      (hfalse : ∀ l' ∈ c, l' ≠ l → a.MakesFalse l') : Stands a c (.unit l)
  | undetermined {l : Literal α} (hl : l ∈ c) (hopen : a.leavesOpen l = true) :
      Stands a c .undetermined

/-- The standing of a clause is as inspected. -/
theorem stands_inspect (a : Assignment α) (c : Clause α) : Stands a c (c.inspect a) := by
  unfold inspect
  split
  case isTrue hany =>
    obtain ⟨l, hl, htrue⟩ := List.any_eq_true.mp hany
    exact .satisfied hl htrue
  case isFalse hany =>
    rw [Bool.not_eq_true, List.any_eq_false] at hany
    have hfalse : ∀ l ∈ c, l ∉ c.filter a.leavesOpen → a.MakesFalse l := by
      intro l hl hclosed
      refine ⟨by simpa using hany l hl, ?_⟩
      simpa [hl] using hclosed
    split
    case h_1 hnone => exact .falsified fun l hl ↦ hfalse l hl (hnone ▸ List.not_mem_nil)
    case h_2 l hone =>
      have hl : l ∈ c.filter a.leavesOpen := hone ▸ List.mem_singleton_self l
      refine .unit (List.mem_of_mem_filter hl) (List.mem_filter.mp hl).2 fun l' hl' hne ↦ ?_
      refine hfalse l' hl' ?_
      rwa [hone, List.mem_singleton]
    case h_3 hnone _ =>
      obtain ⟨l, hl⟩ := List.exists_mem_of_ne_nil _ hnone
      exact .undetermined (List.mem_of_mem_filter hl) (List.mem_filter.mp hl).2

/-- The literal that a unit clause forces is one of its own and open. -/
theorem inspect_eq_unit (h : c.inspect a = .unit l) : l ∈ c ∧ a.value? l.subject = none := by
  have hstands := stands_inspect a c
  rw [h] at hstands
  cases hstands with
  | unit hl hopen hfalse => exact ⟨hl, by simpa [Assignment.leavesOpen] using hopen⟩

/-- A falsified clause is false in all extensions. -/
theorem not_holds_of_falsified (h : c.inspect a = .falsified)
    (hextends : Assignment.Extends truth a) : ¬ c.Holds truth := by
  have hstands := stands_inspect a c
  rw [h] at hstands
  cases hstands with
  | falsified hfalse =>
      rintro ⟨l, hl, hholds⟩
      exact (hfalse l hl).not_holds hextends hholds

/-- In the extensions that make a unit clause true, its open literal is true. -/
theorem holds_of_unit (h : c.inspect a = .unit l) (hextends : Assignment.Extends truth a)
    (hc : c.Holds truth) : l.Holds truth := by
  have hstands := stands_inspect a c
  rw [h] at hstands
  cases hstands with
  | unit hl hopen hfalse =>
      obtain ⟨l', hl', hholds⟩ := hc
      by_cases heq : l' = l
      · exact heq ▸ hholds
      · exact absurd hholds ((hfalse l' hl' heq).not_holds hextends)

/-! ## Derivations -/

/-- The second assignment adds to the first one literals that clauses force. -/
inductive Propagates (cs : List (Clause α)) : Assignment α → Assignment α → Prop where
  | refl (a : Assignment α) : Propagates cs a a
  | unit {a a' : Assignment α} {c : Clause α} {l : Literal α} (hc : c ∈ cs)
      (h : c.inspect a = .unit l) (rest : Propagates cs (a.assign l.subject l.positive) a') :
      Propagates cs a a'

namespace Propagates

/-- Derivations compose. -/
theorem trans {a'' : Assignment α} (h : Propagates cs a a') (h' : Propagates cs a' a'') :
    Propagates cs a a'' := by
  induction h with
  | refl a => exact h'
  | unit hc h _ ih => exact .unit hc h (ih h')

/-- A derivation keeps the models of the clauses that extend the assignment. -/
theorem extends_iff (h : Propagates cs a a') (hmodel : ∀ c ∈ cs, c.Holds truth) :
    Assignment.Extends truth a ↔ Assignment.Extends truth a' := by
  induction h with
  | refl a => rfl
  | @unit a a' c l hc h _ ih =>
      rw [← ih, Assignment.extends_assign (inspect_eq_unit h).2]
      exact ⟨fun hextends ↦ ⟨hextends, holds_of_unit h hextends (hmodel c hc)⟩, And.left⟩

/-- A derivation keeps the values that there are. -/
theorem value?_eq_some (h : Propagates cs a a') (hx : a.value? x = some value) :
    a'.value? x = some value := by
  induction h with
  | refl a => exact hx
  | @unit a a' c l hc h _ ih =>
      apply ih
      rw [Assignment.value?_assign, if_neg, hx]
      rintro rfl
      rw [(inspect_eq_unit h).2] at hx
      cases hx

/-- A derivation from an assignment with one more value keeps the subjects that are assigned. -/
theorem isSome_value? (h : Propagates cs (a.assign x value) a')
    (hy : y = x ∨ (a.value? y).isSome = true) : (a'.value? y).isSome = true := by
  have hassigned : ((a.assign x value).value? y).isSome = true := by
    rw [Assignment.value?_assign]
    split
    case isTrue => exact Option.isSome_some
    case isFalse hne => exact hy.resolve_left hne
  obtain ⟨v, hv⟩ := Option.isSome_iff_exists.mp hassigned
  rw [h.value?_eq_some hv, Option.isSome_some]

end Propagates

/-! ## Open literals -/

/-- The occurrences of literals that are open. -/
def openLiterals (cs : List (Clause α)) (a : Assignment α) : List (Literal α) :=
  cs.flatten.filter a.leavesOpen

/-- There are at most as many open literals as literals. -/
theorem length_openLiterals_le (cs : List (Clause α)) (a : Assignment α) :
    (openLiterals cs a).length ≤ literalCount cs :=
  List.length_filter_le _ _

/-- Giving a value closes the literals of its subject. -/
theorem openLiterals_assign (cs : List (Clause α)) (a : Assignment α) (x : α) (value : Bool) :
    openLiterals cs (a.assign x value) = (openLiterals cs a).filter (·.subject != x) := by
  rw [openLiterals, openLiterals, List.filter_filter]
  refine List.filter_congr fun l _ ↦ ?_
  rw [Assignment.leavesOpen, Assignment.value?_assign, Assignment.leavesOpen]
  by_cases hl : l.subject = x
  · simp [hl]
  · simp [hl]

/-- A unit clause leaves fewer literals open. -/
theorem length_openLiterals_lt (hc : c ∈ cs) (h : c.inspect a = .unit l) :
    (openLiterals cs (a.assign l.subject l.positive)).length < (openLiterals cs a).length := by
  obtain ⟨hl, hopen⟩ := inspect_eq_unit h
  rw [openLiterals_assign, List.length_filter_lt_length_iff_exists]
  refine ⟨l, List.mem_filter.mpr ⟨List.mem_flatten.mpr ⟨c, hc, hl⟩, ?_⟩, by simp⟩
  rw [Assignment.leavesOpen, hopen, Option.isNone_none]

/-- A derivation leaves no more literals open. -/
theorem Propagates.length_openLiterals_le (h : Propagates cs a a') :
    (openLiterals cs a').length ≤ (openLiterals cs a).length := by
  induction h with
  | refl a => exact Nat.le_refl _
  | unit hc h _ ih => exact Nat.le_of_lt (Nat.lt_of_le_of_lt ih (length_openLiterals_lt hc h))

/-! ## Sweeps -/

/-- The clause is satisfied, or has no true literal and several open ones. -/
def Quiet (a : Assignment α) (c : Clause α) : Prop :=
  c.inspect a = .satisfied ∨ c.inspect a = .undetermined

/-- A derivation arrives at a falsified clause. -/
def Conflicts (cs : List (Clause α)) (a : Assignment α) : Prop :=
  ∃ a' c, Propagates cs a a' ∧ c ∈ cs ∧ c.inspect a' = .falsified

/-- Where a derivation arrives at a falsified clause, no extension is a model. -/
theorem Conflicts.not_model (h : Conflicts cs a) (hextends : Assignment.Extends truth a) :
    ¬ ∀ c ∈ cs, c.Holds truth := by
  intro hmodel
  obtain ⟨a', c, hpropagates, hc, hfalsified⟩ := h
  exact not_holds_of_falsified hfalsified ((hpropagates.extends_iff hmodel).mp hextends)
    (hmodel c hc)

/-- What follows a derivation follows its start. -/
theorem Conflicts.of_propagates (h : Propagates cs a a') (hconflicts : Conflicts cs a') :
    Conflicts cs a := by
  obtain ⟨a'', c, hrest, hc, hfalsified⟩ := hconflicts
  exact ⟨a'', c, h.trans hrest, hc, hfalsified⟩

/-- A sweep that stops has found a falsified clause. -/
theorem conflicts_of_sweep {forced : Bool} (hsub : cs ⊆ more) (h : sweep cs a forced = none) :
    Conflicts more a := by
  induction cs generalizing a forced with
  | nil => cases h
  | cons c cs ih =>
      obtain ⟨hc, hcs⟩ := List.cons_subset.mp hsub
      unfold sweep at h
      split at h
      case h_1 hfalsified => exact ⟨a, c, .refl a, hc, hfalsified⟩
      case h_2 l hunit => exact (ih hcs h).of_propagates (.unit hc hunit (.refl _))
      case h_3 => exact ih hcs h
      case h_4 => exact ih hcs h

/-- A sweep is a derivation. If it forces something, fewer literals are open afterwards, and if
not, it has passed quiet clauses only. -/
theorem propagates_of_sweep {forced forced' : Bool} (hsub : cs ⊆ more)
    (h : sweep cs a forced = some (a', forced')) :
    Propagates more a a' ∧
      (forced' = true → forced = true ∨
        (openLiterals more a').length < (openLiterals more a).length) ∧
      (forced' = false → forced = false ∧ a' = a ∧ ∀ c ∈ cs, Quiet a c) := by
  induction cs generalizing a forced with
  | nil =>
      cases h
      exact ⟨.refl _, .inl, fun hforced ↦ ⟨hforced, rfl, by simp⟩⟩
  | cons c cs ih =>
      obtain ⟨hc, hcs⟩ := List.cons_subset.mp hsub
      unfold sweep at h
      split at h
      case h_1 => cases h
      case h_2 l hunit =>
        obtain ⟨hpropagates, -, hquiet⟩ := ih hcs h
        -- The flag is up from here on, so that the sweep cannot end without it.
        refine ⟨.unit hc hunit hpropagates, fun _ ↦ .inr ?_, fun hforced ↦ ?_⟩
        · exact Nat.lt_of_le_of_lt hpropagates.length_openLiterals_le
            (length_openLiterals_lt hc hunit)
        · cases (hquiet hforced).1
      case h_3 hsatisfied =>
        obtain ⟨hpropagates, hforces, hquiet⟩ := ih hcs h
        refine ⟨hpropagates, hforces, fun hforced ↦ ?_⟩
        obtain ⟨hnot, rfl, hall⟩ := hquiet hforced
        exact ⟨hnot, rfl, List.forall_mem_cons.mpr ⟨.inl hsatisfied, hall⟩⟩
      case h_4 hundetermined =>
        obtain ⟨hpropagates, hforces, hquiet⟩ := ih hcs h
        refine ⟨hpropagates, hforces, fun hforced ↦ ?_⟩
        obtain ⟨hnot, rfl, hall⟩ := hquiet hforced
        exact ⟨hnot, rfl, List.forall_mem_cons.mpr ⟨.inr hundetermined, hall⟩⟩

/-- Sweeps that stop have found a falsified clause. -/
theorem conflicts_of_sweeps {n : Nat} (h : sweeps cs n a = none) : Conflicts cs a := by
  induction n generalizing a with
  | zero => cases h
  | succ n ih =>
      unfold sweeps at h
      split at h
      case h_1 hsweep => exact conflicts_of_sweep (List.Subset.refl cs) hsweep
      case h_2 a' hsweep =>
        exact (ih h).of_propagates (propagates_of_sweep (List.Subset.refl cs) hsweep).1
      case h_3 => cases h

/-- Sweeps are a derivation. If there are more of them than open literals, they end at an
assignment under which all clauses are quiet. -/
theorem propagates_of_sweeps {n : Nat} (h : sweeps cs n a = some a') :
    Propagates cs a a' ∧ ((openLiterals cs a).length < n → ∀ c ∈ cs, Quiet a' c) := by
  induction n generalizing a with
  | zero =>
      cases h
      exact ⟨.refl _, fun hlt ↦ absurd hlt (Nat.not_lt_zero _)⟩
  | succ n ih =>
      unfold sweeps at h
      split at h
      case h_1 => cases h
      case h_2 a'' hsweep =>
        obtain ⟨hfirst, hforces, -⟩ := propagates_of_sweep (List.Subset.refl cs) hsweep
        obtain ⟨hrest, hquiet⟩ := ih h
        refine ⟨hfirst.trans hrest, fun hlt ↦ hquiet ?_⟩
        -- A sweep that forces something pays for itself with an open literal.
        have hfewer := (hforces rfl).resolve_left Bool.false_ne_true
        omega
      case h_3 a'' hsweep =>
        cases h
        obtain ⟨hfirst, -, hquiet⟩ := propagates_of_sweep (List.Subset.refl cs) hsweep
        obtain ⟨_, rfl, hall⟩ := hquiet rfl
        exact ⟨hfirst, fun _ ↦ hall⟩

/-! ## Propagation -/

/-- Propagation that stops has found a falsified clause. -/
theorem conflicts_of_propagate (h : propagate cs a = none) : Conflicts cs a :=
  conflicts_of_sweeps h

/-- Propagation is a derivation and ends where all clauses are quiet. -/
theorem propagates_of_propagate (h : propagate cs a = some a') :
    Propagates cs a a' ∧ ∀ c ∈ cs, Quiet a' c := by
  obtain ⟨hpropagates, hquiet⟩ := propagates_of_sweeps h
  exact ⟨hpropagates, hquiet (Nat.lt_succ_of_le (length_openLiterals_le cs a))⟩

end Clause

end Diagnosis
