import Diagnosis.Proofs.Formula.Conjuncts
import Diagnosis.Proofs.Satisfiability.Decisions
import Diagnosis.Proofs.Satisfiability.Thresholds
import Mathlib.Data.Finset.Card

/-!
# Runs of the search

`propagate` and `solve` are given in advance how many sweeps to make and which subjects to go
through. `Saturates` and `Searches` say what they do without that: sweeps follow each other as long
as they force something, and every decision is about the first open subject in all of the clauses.
Such a run comes to an end in exactly one way, the one that is computed (`saturates_iff`,
`searches_iff`), and it does so without a limit on the decisions too (`exists_unlimited`). What a
run decides is right, and `2 ^ n - 1` decisions are enough for `n` subjects (`solve_decides`).
-/

namespace Diagnosis

/-- The first element with a property is the same without repetitions. -/
theorem find?_eraseDups {α : Type} [DecidableEq α] (p : α → Bool) (xs : List α) :
    xs.eraseDups.find? p = xs.find? p := by
  induction hn : xs.length using Nat.strongRecOn generalizing xs with
  | _ n ih =>
      cases xs with
      | nil => rfl
      | cons x xs =>
          have hshorter : (xs.filter fun y => !y == x).length < n := by
            rw [← hn]
            exact Nat.lt_succ_of_le (List.length_filter_le _ _)
          rw [List.eraseDups_cons, List.find?_cons, List.find?_cons, ih _ hshorter _ rfl,
            List.find?_filter]
          cases hx : p x with
          | true => rfl
          | false =>
              -- What is taken out equals the first element, which has not the property.
              have hsame (y : α) : decide ((!y == x) = true ∧ p y = true) = p y := by
                by_cases hyx : y = x
                · simp [hyx, hx]
                · simp [hyx]
              simp only [hsame]

namespace Clause

variable {α : Type} [DecidableEq α] {a a' : Assignment α} {x : α} {xs : List α}
  {cs : List (Clause α)} {branchable : α → Bool} {n : Nat}

/-! ## Propagation -/

/-- Propagation from an assignment on and its result. Sweeps follow each other as long as they force
something. -/
inductive Saturates (cs : List (Clause α)) : Assignment α → Option (Assignment α) → Prop where
  /-- A sweep comes to a falsified clause. -/
  | falsified {a : Assignment α} (hsweep : sweep cs a false = none) : Saturates cs a none
  /-- A sweep forces nothing. -/
  | closed {a a' : Assignment α} (hsweep : sweep cs a false = some (a', false)) :
      Saturates cs a (some a')
  /-- A sweep forces something, and another one follows. -/
  | again {a a' : Assignment α} {result : Option (Assignment α)}
      (hsweep : sweep cs a false = some (a', true)) (rest : Saturates cs a' result) :
      Saturates cs a result

/-- Propagation has one result. -/
theorem Saturates.unique {result result' : Option (Assignment α)} (h : Saturates cs a result)
    (h' : Saturates cs a result') : result = result' := by
  induction h with
  | falsified hsweep => cases h' with
    | falsified => rfl
    | closed hsweep' | again hsweep' => cases hsweep.symm.trans hsweep'
  | closed hsweep => cases h' with
    | closed hsweep' =>
        cases hsweep.symm.trans hsweep'
        rfl
    | falsified hsweep' | again hsweep' => cases hsweep.symm.trans hsweep'
  | again hsweep _ ih => cases h' with
    | again hsweep' rest' =>
        cases hsweep.symm.trans hsweep'
        exact ih rest'
    | falsified hsweep' | closed hsweep' => cases hsweep.symm.trans hsweep'

/-- More sweeps than there are open literals are never used up. -/
theorem saturates_sweeps (h : (openLiterals cs a).length < n) :
    Saturates cs a (sweeps cs n a) := by
  induction n generalizing a with
  | zero => exact absurd h (Nat.not_lt_zero _)
  | succ n ih =>
      rw [sweeps]
      split
      case h_1 hsweep => exact .falsified hsweep
      case h_2 a' hsweep =>
        have hforces := (propagates_of_sweep (List.Subset.refl cs) hsweep).2.1 rfl
        have hfewer := hforces.resolve_left Bool.false_ne_true
        exact .again hsweep (ih (by omega))
      case h_3 a' hsweep => exact .closed hsweep

/-- Propagation comes to an end with the result that is computed. -/
theorem saturates_iff {result : Option (Assignment α)} :
    Saturates cs a result ↔ propagate cs a = result := by
  have hrun : Saturates cs a (propagate cs a) :=
    saturates_sweeps (Nat.lt_succ_of_le (length_openLiterals_le cs a))
  exact ⟨fun h ↦ hrun.unique h, fun h ↦ h ▸ hrun⟩

/-! ## Search -/

/-- The first subject in clause order that is open, if the search may branch on it. -/
def branching (cs : List (Clause α)) (branchable : α → Bool) (a : Assignment α) : Option α :=
  ((cs.flatMap fun c => c.map Literal.subject).find? fun x => (a.value? x).isNone).filter
    branchable

/-- The search below an assignment, with so many decisions counted before it, and its outcome. The
decisions that it counts have to be allowed. -/
inductive Searches (cs : List (Clause α)) (branchable : α → Bool) (allowed : Nat → Prop) :
    Assignment α → Nat → SearchOutcome → Prop where
  /-- Propagation comes to a falsified clause. -/
  | refuted {a : Assignment α} {n : Nat} (hstop : Saturates cs a none) :
      Searches cs branchable allowed a n (.decided false n)
  /-- Nothing is left to branch on. -/
  | found {a a' : Assignment α} {n : Nat} (hclosed : Saturates cs a (some a'))
      (hnone : branching cs branchable a' = none) :
      Searches cs branchable allowed a n (.decided true n)
  /-- One more decision is not allowed. -/
  | stopped {a a' : Assignment α} {x : α} {n : Nat} (hclosed : Saturates cs a (some a'))
      (hbranching : branching cs branchable a' = some x) (hspent : ¬ allowed (n + 1)) :
      Searches cs branchable allowed a n .exhausted
  /-- The search where the subject is true ends the whole one: it finds a model or is stopped. -/
  | first {a a' : Assignment α} {x : α} {n : Nat} {outcome : SearchOutcome}
      (hclosed : Saturates cs a (some a')) (hbranching : branching cs branchable a' = some x)
      (hallowed : allowed (n + 1))
      (hfirst : Searches cs branchable allowed (a'.assign x true) (n + 1) outcome)
      (hends : ∀ k, outcome ≠ .decided false k) :
      Searches cs branchable allowed a n outcome
  /-- The subject cannot be true and is tried as false. The count goes on. -/
  | second {a a' : Assignment α} {x : α} {n k : Nat} {outcome : SearchOutcome}
      (hclosed : Saturates cs a (some a')) (hbranching : branching cs branchable a' = some x)
      (hallowed : allowed (n + 1))
      (hfirst : Searches cs branchable allowed (a'.assign x true) (n + 1) (.decided false k))
      (hsecond : Searches cs branchable allowed (a'.assign x false) k outcome) :
      Searches cs branchable allowed a n outcome

/-- Any number of decisions is allowed. -/
def Unlimited (_ : Nat) : Prop := True

/-- No more decisions are allowed than the limit. -/
def UpTo (limit : Int) (decisions : Nat) : Prop := decisions ≤ limit

namespace Searches

variable {allowed allowed' : Nat → Prop} {outcome outcome' : SearchOutcome}

/-- Where propagation comes to a falsified clause, the search ends there. -/
theorem of_refuted (h : Searches cs branchable allowed a n outcome) (hstop : Saturates cs a none) :
    outcome = .decided false n := by
  cases h with
  | refuted => rfl
  | found hclosed | stopped hclosed | first hclosed | second hclosed => cases hstop.unique hclosed

/-- Where nothing is left to branch on, the search ends. -/
theorem of_found (h : Searches cs branchable allowed a n outcome)
    (hclosed : Saturates cs a (some a')) (hnone : branching cs branchable a' = none) :
    outcome = .decided true n := by
  cases h with
  | refuted hstop => cases hclosed.unique hstop
  | found => rfl
  | stopped hclosed' hbranching | first hclosed' hbranching | second hclosed' hbranching =>
      cases hclosed.unique hclosed'
      cases hnone.symm.trans hbranching

/-- Where there is a subject to branch on, the search is stopped, or the outcome is that of one of
the halves. -/
theorem of_branching (h : Searches cs branchable allowed a n outcome)
    (hclosed : Saturates cs a (some a')) (hbranching : branching cs branchable a' = some x) :
    ¬ allowed (n + 1) ∧ outcome = .exhausted ∨
    allowed (n + 1) ∧ ∃ first, Searches cs branchable allowed (a'.assign x true) (n + 1) first ∧
      ((∀ k, first ≠ .decided false k) ∧ outcome = first ∨
        ∃ k, first = .decided false k ∧
          Searches cs branchable allowed (a'.assign x false) k outcome) := by
  cases h with
  | refuted hstop => cases hclosed.unique hstop
  | found hclosed' hnone =>
      cases hclosed.unique hclosed'
      cases hnone.symm.trans hbranching
  | stopped _ _ hspent => exact .inl ⟨hspent, rfl⟩
  | first hclosed' hbranching' hallowed hfirst hends =>
      cases hclosed.unique hclosed'
      cases hbranching.symm.trans hbranching'
      exact .inr ⟨hallowed, _, hfirst, .inl ⟨hends, rfl⟩⟩
  | second hclosed' hbranching' hallowed hfirst hsecond =>
      cases hclosed.unique hclosed'
      cases hbranching.symm.trans hbranching'
      exact .inr ⟨hallowed, _, hfirst, .inr ⟨_, rfl, hsecond⟩⟩

/-- A search has one outcome. -/
theorem unique (h : Searches cs branchable allowed a n outcome)
    (h' : Searches cs branchable allowed a n outcome') : outcome = outcome' := by
  induction h generalizing outcome' with
  | refuted hstop => exact (h'.of_refuted hstop).symm
  | found hclosed hnone => exact (h'.of_found hclosed hnone).symm
  | stopped hclosed hbranching hspent =>
      rcases h'.of_branching hclosed hbranching with ⟨_, rfl⟩ | ⟨hallowed, _⟩
      · rfl
      · exact absurd hallowed hspent
  | first hclosed hbranching hallowed _ hends ih =>
      rcases h'.of_branching hclosed hbranching with ⟨hspent, _⟩ | ⟨_, first', hfirst', hrest⟩
      · exact absurd hallowed hspent
      cases ih hfirst'
      rcases hrest with ⟨_, rfl⟩ | ⟨k, hk, _⟩
      · rfl
      · exact absurd hk (hends k)
  | second hclosed hbranching hallowed _ _ ihfirst ihsecond =>
      rcases h'.of_branching hclosed hbranching with ⟨hspent, _⟩ | ⟨_, first', hfirst', hrest⟩
      · exact absurd hallowed hspent
      cases ihfirst hfirst'
      rcases hrest with ⟨hends, _⟩ | ⟨k, hk, hsecond'⟩
      · exact absurd rfl (hends _)
      · -- Both first halves have counted the same decisions.
        cases hk
        exact ihsecond hsecond'

/-- A search that is not stopped runs in the same way where more decisions are allowed. -/
theorem mono (h : Searches cs branchable allowed a n outcome) (hmore : ∀ k, allowed k → allowed' k)
    (hsettled : outcome ≠ .exhausted) : Searches cs branchable allowed' a n outcome := by
  induction h with
  | refuted hstop => exact .refuted hstop
  | found hclosed hnone => exact .found hclosed hnone
  | stopped => exact absurd rfl hsettled
  | first hclosed hbranching hallowed _ hends ih =>
      exact .first hclosed hbranching (hmore _ hallowed) (ih hsettled) hends
  | second hclosed hbranching hallowed _ _ ihfirst ihsecond =>
      exact .second hclosed hbranching (hmore _ hallowed) (ihfirst (by simp)) (ihsecond hsettled)

/-- The decisions of a search are counted on. -/
theorem start_le {satisfiable : Bool} {decisions : Nat} :
    Searches cs branchable allowed a n (.decided satisfiable decisions) → n ≤ decisions := by
  generalize houtcome : SearchOutcome.decided satisfiable decisions = outcome
  intro h
  induction h generalizing satisfiable decisions with
  | refuted | found =>
      cases houtcome
      exact Nat.le_refl _
  | stopped => cases houtcome
  | first _ _ _ _ _ ih => exact Nat.le_of_succ_le (ih houtcome)
  | second _ _ _ _ _ ihfirst ihsecond =>
      exact Nat.le_of_succ_le (Nat.le_trans (ihfirst rfl) (ihsecond houtcome))

/-- A search makes no decisions if and only if propagation leaves nothing to branch on. -/
theorem decisions_eq_zero_iff {satisfiable : Bool} {decisions : Nat}
    (h : Searches cs branchable allowed a 0 (.decided satisfiable decisions)) :
    decisions = 0 ↔ ∀ a', Saturates cs a (some a') → branching cs branchable a' = none := by
  cases h with
  | refuted hstop => exact iff_of_true rfl fun a' hclosed ↦ by cases hstop.unique hclosed
  | found hclosed hnone =>
      refine iff_of_true rfl fun a' hclosed' ↦ ?_
      cases hclosed.unique hclosed'
      exact hnone
  | first hclosed hbranching _ hfirst =>
      have hle := hfirst.start_le
      refine iff_of_false (by omega) fun hnone ↦ ?_
      cases (hnone _ hclosed).symm.trans hbranching
  | second hclosed hbranching _ hfirst hsecond =>
      have hle := hfirst.start_le
      have hle' := hsecond.start_le
      refine iff_of_false (by omega) fun hnone ↦ ?_
      cases (hnone _ hclosed).symm.trans hbranching

/-- What follows a decision is the search of the first half and, if it finds no model, that of the
second one. -/
theorem branch {first : SearchOutcome} {second : Nat → SearchOutcome}
    (hclosed : Saturates cs a (some a')) (hbranching : branching cs branchable a' = some x)
    (hallowed : allowed (n + 1))
    (hsecond : ∀ k, Searches cs branchable allowed (a'.assign x false) k (second k)) :
    Searches cs branchable allowed (a'.assign x true) (n + 1) first →
      Searches cs branchable allowed a n
        (match first with
          | .decided false k => second k
          | outcome => outcome) := by
  intro hfirst
  cases first with
  | exhausted => exact .first hclosed hbranching hallowed hfirst (by simp)
  | decided satisfiable k =>
      cases satisfiable with
      | true => exact .first hclosed hbranching hallowed hfirst (by simp)
      | false => exact .second hclosed hbranching hallowed hfirst (hsecond k)

end Searches

/-! ## The search through the list of subjects -/

/-- Where the subjects before some place of the list are assigned, the search branches on the next
open one. -/
theorem branching_eq (branchable : α → Bool) {past : List α} (hsubjects : subjects cs = past ++ xs)
    (hpast : ∀ y ∈ past, (a.value? y).isSome = true) :
    branching cs branchable a = (xs.find? fun x ↦ (a.value? x).isNone).filter branchable := by
  have hnone : past.find? (fun x ↦ (a.value? x).isNone) = none := by
    rw [List.find?_eq_none]
    intro y hy
    simpa [← Option.isSome_iff_ne_none] using hpast y hy
  rw [branching, ← find?_eraseDups, ← subjects, hsubjects, List.find?_append, hnone,
    Option.none_or]

/-- A search that propagates first runs if the search from there does. -/
theorem descend_searches {limit : Int} (h : ∀ a', propagate cs a = some a' →
      Searches cs branchable (UpTo limit) a n (explore cs limit branchable xs a' n)) :
    Searches cs branchable (UpTo limit) a n (descend cs limit branchable xs a n) := by
  unfold descend
  split
  case h_1 hstop => exact .refuted (saturates_iff.mpr hstop)
  case h_2 a' hpropagate => exact h a' hpropagate

/-- Going on in the list of subjects is the search, as those before are assigned. -/
theorem explore_searches {limit : Int} {past : List α} (hsubjects : subjects cs = past ++ xs)
    (hpast : ∀ y ∈ past, (a'.value? y).isSome = true) (hclosed : Saturates cs a (some a')) :
    Searches cs branchable (UpTo limit) a n (explore cs limit branchable xs a' n) := by
  induction xs generalizing past a a' n with
  | nil => exact .found hclosed (branching_eq branchable hsubjects hpast)
  | cons x xs ih =>
      have hnext : subjects cs = (past ++ [x]) ++ xs := by simp [hsubjects]
      have hbranching := branching_eq branchable hsubjects hpast
      cases hvalue : a'.value? x with
      | some value =>
          have hsome : (a'.value? x).isSome = true := by rw [hvalue, Option.isSome_some]
          rw [explore, if_pos hsome]
          refine ih hnext (fun y hy ↦ ?_) hclosed
          rcases List.mem_append.mp hy with hy | hy
          · exact hpast y hy
          · exact List.mem_singleton.mp hy ▸ hsome
      | none =>
          rw [List.find?_cons_of_pos (by rw [hvalue, Option.isNone_none])] at hbranching
          cases hx : branchable x with
          | false =>
              rw [explore, hvalue, hx, Option.isSome_none, if_neg Bool.false_ne_true,
                Bool.not_false, if_pos rfl]
              exact .found hclosed (by simp [hbranching, hx])
          | true =>
              have hbranch : branching cs branchable a' = some x := by simp [hbranching, hx]
              have hdescend (value : Bool) (k : Nat) :
                  Searches cs branchable (UpTo limit) (a'.assign x value) k
                    (descend cs limit branchable xs (a'.assign x value) k) := by
                refine descend_searches fun a'' hpropagate ↦
                  ih hnext (fun y hy ↦ ?_) (saturates_iff.mpr hpropagate)
                refine (propagates_of_propagate hpropagate).1.isSome_value? ?_
                rcases List.mem_append.mp hy with hy | hy
                · exact .inr (hpast y hy)
                · exact .inl (List.mem_singleton.mp hy)
              rw [explore_cons hvalue hx]
              split
              case isTrue hspent => exact .stopped hclosed hbranch (by rw [UpTo]; omega)
              case isFalse hroom =>
                exact .branch hclosed hbranch (by rw [UpTo]; omega) (hdescend false)
                  (hdescend true (n + 1))

/-- What is computed for clauses is the outcome of a run. -/
theorem searches_solve (cs : List (Clause α)) (limit : Int) (branchable : α → Bool) :
    Searches cs branchable (UpTo limit) [] 0 (solve cs limit branchable) := by
  show Searches cs branchable (UpTo limit) [] 0 (descend cs limit branchable (subjects cs) [] 0)
  exact descend_searches fun a hpropagate ↦
    explore_searches (List.nil_append _).symm (by simp) (saturates_iff.mpr hpropagate)

/-- The search comes to an end with the outcome that is computed. -/
theorem searches_iff {limit : Int} {outcome : SearchOutcome} :
    Searches cs branchable (UpTo limit) [] 0 outcome ↔ solve cs limit branchable = outcome :=
  ⟨fun h ↦ (searches_solve cs limit branchable).unique h,
    fun h ↦ h ▸ searches_solve cs limit branchable⟩

/-- Without a limit the search comes to an end too, with the answer and after the decisions that
every limit allowing for them leads to. -/
theorem exists_unlimited (cs : List (Clause α)) (branchable : α → Bool) :
    ∃ decisions satisfiable,
      (∀ outcome, Searches cs branchable Unlimited [] 0 outcome ↔
        outcome = .decided satisfiable decisions) ∧
      Settles (fun limit ↦ solve cs limit branchable) 0 decisions satisfiable := by
  obtain ⟨decisions, satisfiable, hsettles⟩ := exists_solve_settles cs branchable
  have hsolve : solve cs decisions branchable = .decided satisfiable decisions := by
    rw [hsettles.outcome decisions, if_neg fun h ↦ Int.lt_irrefl _ h.2]
  have hrun : Searches cs branchable Unlimited [] 0 (.decided satisfiable decisions) :=
    (searches_iff.mpr hsolve).mono (fun _ _ ↦ trivial) (by simp)
  exact ⟨decisions, satisfiable, fun outcome ↦ ⟨fun h ↦ h.unique hrun, fun h ↦ h ▸ hrun⟩, hsettles⟩

/-! ## What is decided -/

/-- There are no more subjects than atoms that the clauses are about. -/
theorem length_subjects_le_card {atoms : Finset α}
    (hatoms : ∀ c ∈ cs, ∀ l ∈ c, l.subject ∈ atoms) : (subjects cs).length ≤ atoms.card := by
  have hnodup : (subjects cs).Nodup := nodup_eraseDups _
  rw [← List.toFinset_card_of_nodup hnodup]
  refine Finset.card_le_card fun x hx ↦ ?_
  obtain ⟨c, hc, l, hl, rfl⟩ := mem_subjects.mp (List.mem_toFinset.mp hx)
  exact hatoms c hc l hl

/-- The number of decisions that clauses over `n` atoms take is less than `2 ^ n`. -/
theorem exists_solve_settles_lt (branchable : α → Bool) {atoms : Finset α}
    (hatoms : ∀ c ∈ cs, ∀ l ∈ c, l.subject ∈ atoms) :
    ∃ decisions satisfiable,
      Settles (fun limit ↦ solve cs limit branchable) 0 decisions satisfiable ∧
      decisions < 2 ^ atoms.card := by
  have hcard : 2 ^ (subjects cs).length ≤ 2 ^ atoms.card :=
    Nat.pow_le_pow_right Nat.two_pos (length_subjects_le_card hatoms)
  -- Under a limit that is certainly enough, the decisions are counted to the end.
  have henough : (solve cs (2 ^ (subjects cs).length - 1) branchable).Within (2 ^ atoms.card) :=
    (solve_within (Int.le_refl _)).mono hcard
  obtain ⟨decisions, satisfiable, hsettles⟩ := exists_solve_settles cs branchable
  rw [hsettles.outcome] at henough
  refine ⟨decisions, satisfiable, hsettles, ?_⟩
  split at henough
  case isTrue => exact henough.elim
  case isFalse => exact henough

/-- For clauses over some atoms, with their literals in any order and also if some are empty,
tautological or repeated, and for every limit: the search comes to an end in one way, which is as
computed. If it answers yes, some assignment makes all of the clauses true, and if it answers no,
none does. With `n` atoms it needs less than `2 ^ n` decisions for that, and it is never stopped
where the limit allows for `2 ^ n - 1`. -/
theorem solve_decides (branchable : α → Bool) (limit : Int) {atoms : Finset α}
    (hatoms : ∀ c ∈ cs, ∀ l ∈ c, l.subject ∈ atoms)
    (hbranchable : ∀ x ∈ atoms, branchable x = true) :
    let outcome := solve cs limit branchable
    (∀ reached, Searches cs branchable (UpTo limit) [] 0 reached ↔ outcome = reached) ∧
    (∀ decisions, outcome = .decided true decisions → Satisfiable cs) ∧
    (∀ decisions, outcome = .decided false decisions → ¬ Satisfiable cs) ∧
    (∀ satisfiable decisions, outcome = .decided satisfiable decisions →
      decisions < 2 ^ atoms.card) ∧
    ((2 : Int) ^ atoms.card - 1 ≤ limit → outcome ≠ .exhausted) := by
  intro outcome
  have hright : outcome.Right cs [] :=
    solve_right fun c hc l hl ↦ hbranchable _ (hatoms c hc l hl)
  obtain ⟨needed, answer, hsettles, hneeded⟩ := exists_solve_settles_lt branchable hatoms
  have houtcome : outcome = _ := hsettles.outcome limit
  refine ⟨fun reached ↦ searches_iff, fun decisions h ↦ ?_, fun decisions h ↦ ?_,
    fun satisfiable decisions h ↦ ?_, fun hlimit h ↦ ?_⟩
  · rw [h] at hright
    exact extendable_nil.mp hright
  · rw [h] at hright
    exact fun hsat ↦ hright (extendable_nil.mpr hsat)
  · rw [houtcome] at h
    split at h
    case isTrue => cases h
    case isFalse =>
      cases h
      exact hneeded
  · rw [houtcome] at h
    split at h
    case isTrue hspent =>
      have hbound : (needed : Int) < 2 ^ atoms.card := by exact_mod_cast hneeded
      omega
    case isFalse => cases h

/-- Every clause on two subjects, a tautology on a third one and a clause that is there twice. -/
def crossingClauses : List (Clause Nat) :=
  [[⟨0, true⟩, ⟨1, true⟩], [⟨0, true⟩, ⟨1, false⟩], [⟨2, true⟩, ⟨2, false⟩],
    [⟨0, false⟩, ⟨1, true⟩], [⟨0, false⟩, ⟨1, false⟩], [⟨0, true⟩, ⟨1, true⟩]]

/-- Seven decisions are enough for three atoms. These clauses need one of them, and none is not
enough. -/
theorem crossingClauses_refuted :
    let outcome (limit : Int) := solve crossingClauses limit
    (∀ c ∈ crossingClauses, ∀ l ∈ c, l.subject ∈ ({0, 1, 2} : Finset Nat)) ∧
      (2 : Int) ^ ({0, 1, 2} : Finset Nat).card - 1 = 7 ∧ outcome 7 ≠ .exhausted ∧
      outcome 7 = .decided false 1 ∧ ¬ Satisfiable crossingClauses ∧ outcome 0 = .exhausted ∧
      Searches crossingClauses (fun _ ↦ true) (UpTo 0) [] 0 .exhausted := by
  intro outcome
  have hatoms : ∀ c ∈ crossingClauses, ∀ l ∈ c, l.subject ∈ ({0, 1, 2} : Finset Nat) := by decide
  obtain ⟨_, _, hno, _, hlimit⟩ :=
    solve_decides (fun _ ↦ true) 7 hatoms fun _ _ ↦ rfl
  obtain ⟨hruns, _⟩ := solve_decides (fun _ ↦ true) 0 hatoms fun _ _ ↦ rfl
  have hrefuted : outcome 7 = .decided false 1 := by decide
  have hstopped : outcome 0 = .exhausted := by decide
  exact ⟨hatoms, by decide, hlimit (by decide), hrefuted, hno 1 hrefuted, hstopped,
    (hruns .exhausted).mpr hstopped⟩

end Clause

end Diagnosis
