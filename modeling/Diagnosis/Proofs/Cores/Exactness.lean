import Diagnosis.Proofs.Cores.Effort
import Mathlib.Data.Set.Card

/-!
# The budget of cores is exact

A definite solver never gives up. With as many questions as a search can come to ask, such a solver
leaves only the budget of cores to end the search early, and a sound one then does so at a node
that hits every core found and still leaves conflicting premises. A minimal core among them is
missing, so the search stops exactly when there are more minimal cores than it may report
(`Runs.cores_exact`).
-/

namespace Diagnosis.Cores

variable {W : Type*} {holds : W → Nat → Prop} {σ : Type}

/-- The oracle never gives up, whatever state it is in. -/
def Oracle.Definite (size : Nat) (oracle : Oracle σ) : Prop :=
  ∀ positions state, positions.Sublist (List.range size) →
    ∀ reason, (oracle positions state).1 ≠ .unknown reason

namespace Frame

variable {frame : Frame} {members : List Nat}

/-- Conflicting tracked premises contain a minimal core. -/
theorem Conflicting.exists_minimalCore (hordered : frame.Ordered)
    (htracked : members.Sublist frame.tracked) (hconflict : frame.Conflicting holds members) :
    ∃ core, frame.MinimalCore holds core ∧ core ⊆ members := by
  induction hlength : members.length using Nat.strong_induction_on generalizing members with
  | _ n ih =>
      by_cases hneeded : ∀ i ∈ members, frame.Needed holds members i
      case pos =>
        exact ⟨members, .of_needed hordered htracked hconflict hneeded, List.Subset.refl members⟩
      case neg =>
        -- A member that is not needed is dropped.
        push Not at hneeded
        obtain ⟨i, hi, hspare⟩ := hneeded
        have hshorter : (members.filter (· != i)).length < n := by
          rw [← hlength]
          exact List.length_filter_lt_length_iff_exists.mpr ⟨i, hi, by simp⟩
        obtain ⟨core, hcore, hsub⟩ := ih _ hshorter (List.filter_sublist.trans htracked)
          (not_not.mp hspare) rfl
        exact ⟨core, hcore, List.Subset.trans hsub (List.filter_subset_self _)⟩

variable (holds) in
/-- The minimal cores. -/
def minimalCores (frame : Frame) : Set (List Nat) :=
  {core | frame.MinimalCore holds core}

/-- There are finitely many minimal cores. -/
theorem minimalCores_finite (frame : Frame) : (frame.minimalCores holds).Finite :=
  (List.finite_toSet frame.tracked.sublists).subset fun _ hcore ↦
    List.mem_sublists.mpr hcore.tracked

/-- Distinct minimal cores that miss none are all of them. -/
theorem ncard_minimalCores {cores : List (List Nat)} (hnodup : cores.Nodup)
    (hcores : ∀ core, core ∈ cores ↔ frame.MinimalCore holds core) :
    (frame.minimalCores holds).ncard = cores.length := by
  have hset : frame.minimalCores holds = cores.toFinset := by
    ext core
    rw [Finset.mem_coe, List.mem_toFinset, hcores core]
    rfl
  rw [hset, Set.ncard_coe_finset, List.toFinset_card_of_nodup hnodup]

/-- Distinct minimal cores that miss one are fewer than there are. -/
theorem length_lt_ncard {cores : List (List Nat)} (hnodup : cores.Nodup)
    (hcores : ∀ core ∈ cores, frame.MinimalCore holds core) {missing : List Nat}
    (hmissing : frame.MinimalCore holds missing) (hnot : missing ∉ cores) :
    cores.length < (frame.minimalCores holds).ncard := by
  rw [← List.toFinset_card_of_nodup hnodup, ← Set.ncard_coe_finset]
  refine Set.ncard_lt_ncard ?_ (minimalCores_finite frame)
  refine Set.ssubset_iff_exists.mpr ⟨fun core hcore ↦ ?_, missing, hmissing, ?_⟩
  · exact hcores core (List.mem_toFinset.mp hcore)
  · rwa [Finset.mem_coe, List.mem_toFinset]

end Frame

namespace Search

variable {s : Search σ} {start : σ} {attempt : Attempt}

/-! ## Unknown answers -/

/-- A definite solver answers every question that is not refused. -/
theorem spent_of_ask_unknown (hdefinite : s.oracle.Definite s.frame.size) {members : List Nat}
    {reason : String} {p p' : Progress σ} (h : s.ask members p = (.unknown reason, p')) :
    s.Spent p ∧ p' = p := by
  unfold ask at h
  split at h
  case isTrue hspent => exact ⟨hspent, (Prod.mk.inj h).2.symm⟩
  case isFalse hroom =>
    have hverdict := hdefinite _ p.solver (s.frame.withBackground_sublist members)
    cases hanswer : (s.oracle (s.frame.withBackground members) p.solver).1 with
    | unknown reason' => exact absurd hanswer (hverdict reason')
    | sat => simp [hanswer, restrict] at h
    | unsat core => cases core <;> simp [hanswer, restrict] at h

/-- No question was refused, or none is left. -/
def Whole (s : Search σ) (p : Progress σ) : Prop :=
  p.complete = true ∨ s.Spent p

/-- A question after which none is left may be refused. -/
theorem Whole.ask {members : List Nat} {answer : Answer} {p p' : Progress σ}
    (h : s.ask members p = (answer, p')) (hp : s.Whole p) : s.Whole p' := by
  by_cases hspent : s.Spent p
  case pos =>
    rw [ask_of_spent hspent] at h
    exact (Prod.mk.inj h).2 ▸ hp
  case neg => exact .inl (ask_complete h ▸ hp.resolve_right hspent)

/-- With a definite solver an unknown answer means that no question is left. -/
theorem Whole.unknown (hdefinite : s.oracle.Definite s.frame.size) {members : List Nat}
    {reason : String} {p p' : Progress σ} (h : s.ask members p = (.unknown reason, p'))
    (_hp : s.Whole p) : s.Whole { p' with complete := false } := by
  obtain ⟨hspent, rfl⟩ := spent_of_ask_unknown hdefinite h
  exact .inr hspent

/-- A node at which a walk stops with questions left shows that a minimal core is missing. -/
theorem Visits.exists_missing (hsound : s.oracle.Sound holds s.frame.size)
    (hdefinite : s.oracle.Definite s.frame.size) (hordered : s.frame.Ordered) {path : Path}
    {tree tree' : Tree σ} (h : Visits s path tree (.stops tree'))
    (hroom : ¬ s.Spent tree'.progress) :
    s.limits.refutations ≤ tree'.cores.length ∧
      ∃ missing, s.frame.MinimalCore holds missing ∧ missing ∉ tree'.cores := by
  cases h with
  | gaveUp hnew hask =>
      obtain ⟨hspent, rfl⟩ := spent_of_ask_unknown hdefinite hask
      exact absurd hspent hroom
  | @spent core progress hnew hask hlimit =>
      obtain ⟨hcore, hconflict⟩ := ask_right hsound hask
      obtain ⟨missing, hmissing, hsub⟩ :=
        hconflict.exists_minimalCore hordered (hcore.trans List.filter_sublist)
      refine ⟨hlimit, missing, hmissing, fun hmem ↦ hnew missing hmem fun i hi hpath ↦ ?_⟩
      exact (Frame.mem_without.mp (hcore.subset (hsub hi))).2 hpath

/-! ## Counting the cores -/

/-- With enough questions some are left. -/
theorem Runs.questions_lt (h : Runs s start attempt) (hordered : s.frame.Ordered)
    (hchecks : (((1 + s.frame.tracked.length) * (1 + 2 ^ s.frame.tracked.length) : Nat) : Int) ≤
      s.limits.checks) : (attempt.questions.length : Int) < s.limits.checks := by
  have hquestions := h.length_questions_le hordered
  have hmore : (1 + s.frame.tracked.length) * 2 ^ s.frame.tracked.length <
      (1 + s.frame.tracked.length) * (1 + 2 ^ s.frame.tracked.length) :=
    Nat.mul_lt_mul_of_pos_left (by omega) (by omega)
  omega

/-- With a sound solver that never gives up and enough questions, a search over conflicting premises
reports all minimal cores or, if these are more than its budget, as many of them as the budget
allows, and it is complete if and only if they are not more. A budget of less than one counts as
one. -/
theorem Runs.cores_exact (h : Runs s start attempt) (hsound : s.oracle.Sound holds s.frame.size)
    (hdefinite : s.oracle.Definite s.frame.size) (hordered : s.frame.Ordered)
    (hconflict : s.frame.Conflicting holds s.frame.tracked)
    (hchecks : (((1 + s.frame.tracked.length) * (1 + 2 ^ s.frame.tracked.length) : Nat) : Int) ≤
      s.limits.checks) :
    attempt.status = .proved ∧
      (attempt.cores.length : Int) =
        min ((s.frame.minimalCores holds).ncard : Int) (max 1 s.limits.refutations) ∧
      (∀ core ∈ attempt.cores, s.frame.MinimalCore holds core) ∧
      (attempt.complete = true ↔
        ((s.frame.minimalCores holds).ncard : Int) ≤ max 1 s.limits.refutations) := by
  have hwithin := h.cores_within
  have hnodup := h.cores_nodup
  have hmem := h.mem_cores_iff hsound hordered
  have hsome := h.cores_ne_nil_iff
  have hroom := h.questions_lt hordered hchecks
  cases h with
  | satisfiable hask => exact absurd hconflict (ask_right hsound hask)
  | gaveUp hask =>
      obtain ⟨hspent, rfl⟩ := spent_of_ask_unknown hdefinite hask
      exact absurd hspent (Int.not_le.mpr hroom)
  | @refuted core first p p' finished tree hask hshrink hwalk =>
      rw [List.length_reverse] at hroom
      have hroom' : ¬ s.Spent tree.progress := Int.not_le.mpr hroom
      have hcomplete : tree.progress.complete = true :=
        (refuted_preserves Whole.ask (Whole.unknown hdefinite) hask hshrink hwalk
          (.inl rfl)).resolve_right hroom'
      have hlisted := listed_first hask hshrink
      have hfirst := sound_first hsound hordered hask hshrink
      have htree := walk_preserves (Visits.sound hsound hordered) _ hfirst
      have hwalks := walks_walk hordered hlisted
      rw [hwalk] at htree hwalks
      have hminimal := htree.minimal hcomplete
      have hone : 0 < tree.cores.length := List.length_pos_of_ne_nil (hsome.mpr rfl)
      rw [hcomplete, Bool.true_and] at hmem ⊢
      cases finished with
      | true =>
          -- The walk came to its end and has found them all.
          have hcount := Frame.ncard_minimalCores hnodup (hmem rfl rfl)
          rw [hcount]
          exact ⟨rfl, (min_eq_left hwithin).symm, hminimal, iff_of_true rfl hwithin⟩
      | false =>
          obtain ⟨path, tree', hstop⟩ := hwalks.exists_stop
          obtain ⟨hlimit, missing, hmissing, hnot⟩ :=
            hstop.exists_missing hsound hdefinite hordered hroom'
          have hmore :=
            Int.ofNat_lt.mpr (Frame.length_lt_ncard hnodup hminimal hmissing hnot)
          have hreached : max 1 s.limits.refutations = tree.cores.length :=
            le_antisymm (max_le (Int.ofNat_le.mpr hone) hlimit) hwithin
          rw [hreached]
          exact ⟨rfl, (min_eq_right hmore.le).symm, hminimal,
            iff_of_false Bool.false_ne_true hmore.not_ge⟩

end Search

end Diagnosis.Cores
