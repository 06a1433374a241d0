import Diagnosis.Proofs.Satisfiability.Runs

/-!
# The closure under propagation

An assignment within another one has no values that the other has not. Where all clauses are quiet
under the larger assignment, each literal that the clauses force from the smaller one is true in the
larger one, and no clause is falsified on the way (`Propagates.within_of_quiet`). So the assignment
at which propagation arrives is the least one that is closed, and which clause or literal comes
first makes no difference to it (`propagate_closure`).
-/

namespace Diagnosis

variable {α : Type} [DecidableEq α] {a a' b : Assignment α} {x : α} {value : Bool} {c c' : Clause α}
  {cs cs' : List (Clause α)} {l : Literal α}

/-! ## Assignments within others -/

namespace Assignment

/-- The other assignment has all the values of this one. -/
def Within (a b : Assignment α) : Prop :=
  ∀ x value, a.value? x = some value → b.value? x = some value

/-- The assignments give the same values. -/
def Alike (a b : Assignment α) : Prop :=
  ∀ x, a.value? x = b.value? x

/-- Assignments within each other give the same values. -/
theorem Within.antisymm (h : a.Within b) (h' : b.Within a) : a.Alike b := by
  intro x
  cases hx : a.value? x with
  | some value => exact (h x value hx).symm
  | none =>
      cases hx' : b.value? x with
      | none => rfl
      | some value => exact hx.symm.trans (h' x value hx')

/-- An assignment stays within another one when it takes a value from there. -/
theorem Within.assign (h : a.Within b) (hx : b.value? x = some value) :
    (a.assign x value).Within b := by
  intro y v hy
  rw [value?_assign] at hy
  split at hy
  case isTrue hyx =>
    cases hy
    exact hyx ▸ hx
  case isFalse => exact h y v hy

/-- A literal is made true by the value that it asks for. -/
theorem makesTrue_iff : a.makesTrue l = true ↔ a.value? l.subject = some l.positive :=
  beq_iff_eq

/-- A literal is open if its subject has no value. -/
theorem leavesOpen_iff : a.leavesOpen l = true ↔ a.value? l.subject = none :=
  Option.isNone_iff_eq_none

/-- A literal is made false by the opposite value. -/
theorem makesFalse_iff : a.MakesFalse l ↔ a.value? l.subject = some (!l.positive) := by
  rw [MakesFalse, makesTrue, leavesOpen]
  cases a.value? l.subject with
  | none => simp
  | some value => cases value <;> cases l.positive <;> decide

/-- A literal that is made false is not made true. -/
theorem MakesFalse.not_makesTrue (h : a.MakesFalse l) : ¬ a.makesTrue l = true := by
  rw [h.1]
  exact Bool.false_ne_true

/-- A literal that is made false is not open. -/
theorem MakesFalse.not_leavesOpen (h : a.MakesFalse l) : ¬ a.leavesOpen l = true := by
  rw [h.2]
  exact Bool.false_ne_true

/-- What is false stays so under more values. -/
theorem MakesFalse.mono (hwithin : a.Within b) (h : a.MakesFalse l) : b.MakesFalse l :=
  makesFalse_iff.mpr (hwithin _ _ (makesFalse_iff.mp h))

end Assignment

namespace Clause

/-! ## Standings under more values -/

/-- Literals that are open under more values are open under fewer. -/
theorem filter_leavesOpen_sublist (hwithin : a.Within b) (c : Clause α) :
    (c.filter b.leavesOpen).Sublist (c.filter a.leavesOpen) := by
  refine List.monotone_filter_right c fun l hopen ↦ ?_
  rw [Assignment.leavesOpen_iff] at hopen ⊢
  cases hvalue : a.value? l.subject with
  | none => rfl
  | some value => cases hopen.symm.trans (hwithin _ _ hvalue)

/-- A clause of false literals only is falsified. -/
theorem inspect_eq_falsified (h : ∀ l ∈ c, a.MakesFalse l) : c.inspect a = .falsified := by
  have htrue : c.any a.makesTrue = false :=
    List.any_eq_false.mpr fun l hl ↦ (h l hl).not_makesTrue
  have hopen : c.filter a.leavesOpen = [] :=
    List.filter_eq_nil_iff.mpr fun l hl ↦ (h l hl).not_leavesOpen
  rw [inspect, htrue, hopen, if_neg Bool.false_ne_true]

/-- A falsified clause stays so under more values. -/
theorem inspect_falsified_mono (hwithin : a.Within b) (h : c.inspect a = .falsified) :
    c.inspect b = .falsified := by
  have hstands := stands_inspect a c
  rw [h] at hstands
  cases hstands with
  | falsified hfalse => exact inspect_eq_falsified fun l hl ↦ (hfalse l hl).mono hwithin

/-- A unit clause has no other open literal, also not a second copy of the one it forces. -/
theorem filter_leavesOpen_of_unit (h : c.inspect a = .unit l) : c.filter a.leavesOpen = [l] := by
  unfold inspect at h
  split at h
  case isTrue => cases h
  case isFalse =>
    split at h
    case h_1 | h_3 => cases h
    case h_2 l' hone =>
      cases h
      exact hone

/-- A unit clause that is quiet under more values has got its literal there. -/
theorem value?_eq_of_unit (hwithin : a.Within b) (hunit : c.inspect a = .unit l)
    (hquiet : Quiet b c) : b.value? l.subject = some l.positive := by
  have hstands := stands_inspect a c
  have hstands' := stands_inspect b c
  rw [hunit] at hstands
  cases hstands with
  | unit hl hopen hfalse =>
      rcases hquiet with h | h
      · -- The clause is satisfied, and all its literals but one are false.
        rw [h] at hstands'
        cases hstands' with
        | @satisfied l' hl' htrue =>
            rcases eq_or_ne l' l with rfl | hne
            · exact Assignment.makesTrue_iff.mp htrue
            · exact absurd htrue ((hfalse l' hl' hne).mono hwithin).not_makesTrue
      · -- At most one literal is open, which is not enough for an undetermined clause.
        have hsub := filter_leavesOpen_sublist hwithin c
        rw [filter_leavesOpen_of_unit hunit, List.sublist_singleton] at hsub
        unfold inspect at h
        rcases hsub with hnone | hone
        · rw [hnone] at h
          split at h <;> cases h
        · rw [hone] at h
          split at h <;> cases h

/-- A derivation stays within every larger assignment under which all clauses are quiet. -/
theorem Propagates.within_of_quiet (h : Propagates cs a a') (hwithin : a.Within b)
    (hquiet : ∀ c ∈ cs, Quiet b c) : a'.Within b := by
  induction h with
  | refl a => exact hwithin
  | unit hc hunit _ ih => exact ih (hwithin.assign (value?_eq_of_unit hwithin hunit (hquiet _ hc)))

/-- Where all clauses are quiet under a larger assignment, none is falsified on the way. -/
theorem Conflicts.not_quiet (h : Conflicts cs a) (hwithin : a.Within b) :
    ¬ ∀ c ∈ cs, Quiet b c := by
  intro hquiet
  obtain ⟨a', c, hpropagates, hc, hfalsified⟩ := h
  have hfalse := inspect_falsified_mono (hpropagates.within_of_quiet hwithin hquiet) hfalsified
  rcases hquiet c hc with h | h <;> cases hfalse.symm.trans h

/-- A quiet clause is not falsified. -/
theorem Quiet.exists_not_makesFalse (h : Quiet a c) : ∃ l ∈ c, ¬ a.MakesFalse l := by
  by_contra hnone
  push Not at hnone
  have hfalse := inspect_eq_falsified hnone
  rcases h with h | h <;> cases hfalse.symm.trans h

/-- A quiet clause without repetitions does not have all literals false but one that is open. -/
theorem Quiet.exists_other (h : Quiet a c) (hnodup : c.Nodup) (hl : l ∈ c)
    (hopen : a.leavesOpen l = true) : ∃ l' ∈ c, l' ≠ l ∧ ¬ a.MakesFalse l' := by
  by_contra hnone
  push Not at hnone
  have htrue : c.any a.makesTrue = false := by
    refine List.any_eq_false.mpr fun l' hl' ↦ ?_
    rcases eq_or_ne l' l with rfl | hne
    · rw [Assignment.makesTrue_iff, Assignment.leavesOpen_iff.mp hopen]
      exact nofun
    · exact (hnone l' hl' hne).not_makesTrue
  have hone : c.filter a.leavesOpen = [l] := by
    have hsame : c.filter a.leavesOpen = c.filter (· == l) := by
      refine List.filter_congr fun l' hl' ↦ ?_
      rcases eq_or_ne l' l with rfl | hne
      · rw [hopen, beq_self_eq_true]
      · rw [(hnone l' hl' hne).2, beq_eq_false_iff_ne.mpr hne]
    rw [hsame, List.filter_beq, List.count_eq_one_of_mem hnodup hl, List.replicate_one]
  have hunit : c.inspect a = .unit l := by
    rw [inspect, htrue, hone, if_neg Bool.false_ne_true]
  rcases h with h | h <;> cases hunit.symm.trans h

/-! ## Clauses in another order -/

section Orders

omit [DecidableEq α]

/-- The clauses are the same up to their order and the order of the literals in each. -/
def Reordered (cs cs' : List (Clause α)) : Prop :=
  ∃ between : List (Clause α), cs.Perm between ∧ List.Forall₂ List.Perm between cs'

/-- What is reordered can be put back in order. -/
theorem Reordered.symm (h : Reordered cs cs') : Reordered cs' cs := by
  obtain ⟨between, hperm, hclauses⟩ := h
  obtain ⟨back, hback, hperm'⟩ := List.perm_comp_forall₂ hperm hclauses
  exact ⟨back, hperm'.symm, (hback.imp fun _ _ hd ↦ hd.symm).flip⟩

/-- Each clause is there in some order of its literals. -/
theorem Reordered.exists_perm (h : Reordered cs cs') (hc : c ∈ cs) : ∃ c' ∈ cs', c.Perm c' := by
  obtain ⟨between, hperm, hclauses⟩ := h
  have hmem := hperm.mem_iff.mp hc
  clear hperm hc
  induction hclauses with
  | nil => cases hmem
  | @cons d d' ds ds' hd _ ih =>
      rcases List.mem_cons.mp hmem with rfl | hmem
      · exact ⟨d', List.mem_cons_self, hd⟩
      · obtain ⟨c', hc', hcc'⟩ := ih hmem
        exact ⟨c', List.mem_cons_of_mem _ hc', hcc'⟩

end Orders

/-- The order of the literals makes no difference to the standing of a clause. -/
theorem inspect_perm (h : c.Perm c') (a : Assignment α) : c.inspect a = c'.inspect a := by
  have htrue : c.any a.makesTrue = c'.any a.makesTrue := by
    rw [Bool.eq_iff_iff, List.any_eq_true, List.any_eq_true]
    exact exists_congr fun l ↦ and_congr_left fun _ ↦ h.mem_iff
  have hopen := h.filter a.leavesOpen
  unfold inspect
  rw [htrue]
  refine if_congr Iff.rfl rfl ?_
  generalize c.filter a.leavesOpen = ls at hopen ⊢
  generalize c'.filter a.leavesOpen = ls' at hopen ⊢
  match ls with
  | [] => rw [List.nil_perm.mp hopen]
  | [l] => rw [List.singleton_perm.mp hopen]
  | l :: k :: rest =>
      match ls', hopen.length_eq with
      | _ :: _ :: _, _ => rfl

/-- Clauses that are quiet are so in any order. -/
theorem Reordered.quiet (h : Reordered cs cs') (hquiet : ∀ c ∈ cs, Quiet a c) :
    ∀ c' ∈ cs', Quiet a c' := by
  intro c' hc'
  obtain ⟨c, hc, hperm⟩ := h.symm.exists_perm hc'
  rw [Quiet, inspect_perm hperm]
  exact hquiet c hc

/-! ## Propagation -/

/-- What propagation in one order arrives at contains what it arrives at in another order, and where
it arrives at something there is no falsified clause in another order. -/
theorem Reordered.propagate_within (h : Reordered cs cs') (hb : propagate cs a = some b) :
    ∃ b', propagate cs' a = some b' ∧ b'.Within b := by
  obtain ⟨hpropagates, hquiet⟩ := propagates_of_propagate hb
  have hwithin : a.Within b := fun x value hx ↦ hpropagates.value?_eq_some hx
  cases hb' : propagate cs' a with
  | none => exact absurd (h.quiet hquiet) ((conflicts_of_propagate hb').not_quiet hwithin)
  | some b' =>
      exact ⟨b', rfl, (propagates_of_propagate hb').1.within_of_quiet hwithin (h.quiet hquiet)⟩

/-- Propagation has the same outcome in every order. -/
theorem Reordered.propagate_alike (h : Reordered cs cs') (a : Assignment α) :
    Option.Rel Assignment.Alike (propagate cs a) (propagate cs' a) := by
  cases hb : propagate cs a with
  | some b =>
      obtain ⟨b', hb', hwithin⟩ := h.propagate_within hb
      obtain ⟨b'', hb'', hwithin'⟩ := h.symm.propagate_within hb'
      cases hb.symm.trans hb''
      rw [hb']
      exact .some (hwithin'.antisymm hwithin)
  | none =>
      cases hb' : propagate cs' a with
      | none => exact .none
      | some b' =>
          obtain ⟨b, hb'', _⟩ := h.symm.propagate_within hb'
          cases hb.symm.trans hb''

/-- The second assignment adds to the first one what the clauses force, and they force nothing
more. -/
structure Closure (cs : List (Clause α)) (a a' : Assignment α) : Prop where
  /-- No value is taken back or changed. -/
  keeps : ∀ x value, a.value? x = some value → a'.value? x = some value
  /-- Every value that is added is the one in all models that extend the first assignment. -/
  forced : ∀ x value, a'.value? x = some value → a.value? x = none →
    ∀ truth, a.Extends truth → (∀ c ∈ cs, c.Holds truth) → truth x = value
  /-- In every clause some literal is not false. -/
  notFalsified : ∀ c ∈ cs, ∃ l ∈ c, ¬ a'.MakesFalse l
  /-- Beside every open literal of a clause there is another one that is not false. -/
  notUnit : ∀ c ∈ cs, ∀ l ∈ c, a'.leavesOpen l = true → ∃ l' ∈ c, l' ≠ l ∧ ¬ a'.MakesFalse l'

/-- For clauses without repeated literals and every partial assignment: sweeps over the clauses come
to an end, and in one way, which is as computed. If a clause is falsified, no model of the clauses
extends the assignment. If not, the sweeps end at a closure of the assignment. In any other order of
the clauses and of their literals the outcome is the same, with the same values. -/
theorem propagate_closure (cs : List (Clause α)) (a : Assignment α)
    (hclauses : ∀ c ∈ cs, c.Nodup) :
    (∀ result, Saturates cs a result ↔ propagate cs a = result) ∧
    (propagate cs a = none → ∀ truth, a.Extends truth → ¬ ∀ c ∈ cs, c.Holds truth) ∧
    (∀ a', propagate cs a = some a' → Closure cs a a') ∧
    (∀ cs', Reordered cs cs' →
      Option.Rel Assignment.Alike (propagate cs a) (propagate cs' a)) := by
  refine ⟨fun result ↦ saturates_iff, fun hnone truth hextends ↦ ?_, fun a' hsome ↦ ?_,
    fun cs' hreordered ↦ hreordered.propagate_alike a⟩
  · exact (conflicts_of_propagate hnone).not_model hextends
  · obtain ⟨hpropagates, hquiet⟩ := propagates_of_propagate hsome
    exact
      { keeps := fun x value hx ↦ hpropagates.value?_eq_some hx
        forced := fun x value hx _ truth hextends hmodel ↦
          (hpropagates.extends_iff hmodel).mp hextends x value hx
        notFalsified := fun c hc ↦ (hquiet c hc).exists_not_makesFalse
        notUnit := fun c hc l hl hopen ↦ (hquiet c hc).exists_other (hclauses c hc) hl hopen }

/-- A chain of forced literals, a clause that they leave alone and a tautology. -/
def chainClauses : List (Clause Nat) :=
  [[⟨2, false⟩, ⟨3, true⟩], [⟨4, true⟩, ⟨5, true⟩], [⟨1, false⟩, ⟨2, true⟩],
    [⟨6, true⟩, ⟨6, false⟩], [⟨0, false⟩, ⟨1, true⟩]]

/-- Where the chain is swept from its end, it takes a sweep for each link, and in the order of the
links one sweep is enough: the values are the same. Where the last link is denied, a clause is
falsified in both orders. -/
theorem chainClauses_closed :
    let links : List (Clause Nat) :=
      [[⟨1, true⟩, ⟨0, false⟩], [⟨2, true⟩, ⟨1, false⟩], [⟨3, true⟩, ⟨2, false⟩],
        [⟨5, true⟩, ⟨4, true⟩], [⟨6, false⟩, ⟨6, true⟩]]
    (∀ c ∈ chainClauses, c.Nodup) ∧ Reordered chainClauses links ∧
      propagate chainClauses [(0, true)] = some [(3, true), (2, true), (1, true), (0, true)] ∧
      Closure chainClauses [(0, true)] [(3, true), (2, true), (1, true), (0, true)] ∧
      Option.Rel Assignment.Alike (propagate chainClauses [(0, true)])
        (propagate links [(0, true)]) ∧
      propagate chainClauses [(0, true), (3, false)] = none ∧
      propagate links [(0, true), (3, false)] = none := by
  intro links
  have hclauses : ∀ c ∈ chainClauses, c.Nodup := by decide
  have hreordered : Reordered chainClauses links := by
    refine ⟨[[⟨0, false⟩, ⟨1, true⟩], [⟨1, false⟩, ⟨2, true⟩], [⟨2, false⟩, ⟨3, true⟩],
      [⟨4, true⟩, ⟨5, true⟩], [⟨6, true⟩, ⟨6, false⟩]], by decide, ?_⟩
    simp only [links, List.forall₂_cons]
    decide
  have hvalues : propagate chainClauses [(0, true)] =
      some [(3, true), (2, true), (1, true), (0, true)] := by decide
  obtain ⟨_, _, hclosure, hsame⟩ := propagate_closure chainClauses [(0, true)] hclauses
  obtain ⟨_, _, _, hsame'⟩ := propagate_closure chainClauses [(0, true), (3, false)] hclauses
  have hnone : propagate chainClauses [(0, true), (3, false)] = none := by decide
  have hnone' := hsame' links hreordered
  rw [hnone] at hnone'
  refine ⟨hclauses, hreordered, hvalues, hclosure _ hvalues, hsame links hreordered, hnone, ?_⟩
  cases hnone' with
  | none => rfl

end Clause

end Diagnosis
