import Diagnosis.Proofs.Cores.Enumeration

/-!
# What an attempt tells

`Runs` lists the three ways in which a search can end, and what an attempt says is read off them.
Whatever the solver answers, the cores are distinct sets of tracked premises, and a proof has at
least one (`Runs.listed`, `Runs.cores_ne_nil_iff`). With a sound solver the status and every core
are right (`Runs.consistent`, `Runs.conflicting`), and the cores of a complete proof are exactly
the minimal ones (`Runs.mem_cores_iff`). How a search ends is settled by the first verdict, on all
premises (`Runs.status_eq`).
-/

namespace Diagnosis.Cores

/-- How a search ends that gets this verdict on all premises. -/
def Verdict.status : Verdict → Status
  | .sat => .notProved
  | .unsat _ => .proved
  | .unknown _ => .unknown

/-- A right verdict tells whether the premises at the positions are consistent. -/
theorem Verdict.Right.of_status {W : Type*} {holds : W → Nat → Prop} {positions : List Nat}
    {verdict : Verdict} (h : verdict.Right holds positions) :
    (verdict.status = .notProved → Consistent holds positions) ∧
      (verdict.status = .proved → ¬ Consistent holds positions) := by
  cases verdict with
  | sat => exact ⟨fun _ ↦ h, nofun⟩
  | unknown reason => exact ⟨nofun, nofun⟩
  | unsat core =>
      refine ⟨nofun, fun _ ↦ ?_⟩
      cases core with
      | none => exact h
      | some core => exact fun hconsistent ↦ h.2 (hconsistent.mono h.1)

/-- How a search ends that gets this answer about all tracked premises. -/
def Answer.status : Answer → Status
  | .sat => .notProved
  | .unsat _ => .proved
  | .unknown _ => .unknown

/-- All tracked premises together with the background are all premises. -/
theorem Frame.withBackground_tracked (frame : Frame) :
    frame.withBackground frame.tracked = List.range frame.size := by
  rw [withBackground, List.filter_eq_self]
  intro i _
  exact Bool.or_not_self _

namespace Search

variable {W : Type*} {holds : W → Nat → Prop} {σ : Type} {s : Search σ} {start : σ}
  {attempt : Attempt}

/-- The first question is about all premises, and cutting a core down does not change whether there
is one. -/
theorem status_ask_first (s : Search σ) (start : σ) :
    (s.ask s.frame.tracked { solver := start }).1.status =
      if s.limits.checks ≤ 0 then .unknown
      else (s.oracle (List.range s.frame.size) start).1.status := by
  unfold ask
  split
  case isTrue hnone => exact (if_pos hnone).symm
  case isFalse hsome =>
    refine Eq.trans ?_ (if_neg hsome).symm
    simp only [Frame.withBackground_tracked]
    cases (s.oracle (List.range s.frame.size) start).1 with
    | sat | unknown => rfl
    | unsat core => cases core <;> rfl

/-- The attempts that are possible. -/
inductive Runs (s : Search σ) (start : σ) : Attempt → Prop where
  /-- All premises together are satisfiable. -/
  | satisfiable {p : Progress σ} (hask : s.ask s.frame.tracked { solver := start } = (.sat, p)) :
      Runs s start { status := .notProved, questions := p.log.reverse }
  /-- The solver gives up on all premises. -/
  | gaveUp {reason : String} {p : Progress σ}
      (hask : s.ask s.frame.tracked { solver := start } = (.unknown reason, p)) :
      Runs s start
        { status := .unknown, reason, complete := false, questions := p.log.reverse }
  /-- A first core is found and shrunk, and the tree is walked from there. -/
  | refuted {core first : List Nat} {p p' : Progress σ} {finished : Bool} {tree : Tree σ}
      (hask : s.ask s.frame.tracked { solver := start } = (.unsat core, p))
      (hshrink : s.shrink core p = (first, p'))
      (hwalk : s.walk { cores := [first], progress := p' } = (finished, tree)) :
      Runs s start
        { status := .proved, cores := tree.cores, closed := tree.closed
          complete := tree.progress.complete && finished
          questions := tree.progress.log.reverse }

/-- Every run ends in one of these ways. -/
theorem runs_run (s : Search σ) (start : σ) : Runs s start (s.run start).1 := by
  unfold run
  split
  case h_1 p hask => exact .satisfiable hask
  case h_2 reason p hask => exact .gaveUp hask
  case h_3 core p hask => exact .refuted hask rfl rfl

/-- The walk starts from a tree that lists the first core. -/
theorem listed_first {core first : List Nat} {p p' p'' : Progress σ}
    (hask : s.ask s.frame.tracked p = (.unsat core, p'))
    (hshrink : s.shrink core p' = (first, p'')) :
    Tree.Listed s.frame { cores := [first], progress := p'' } := by
  have hfirst := shrink_sublist (s := s) core p'
  rw [hshrink] at hfirst
  refine ⟨fun core' hcore' ↦ ?_, List.pairwise_singleton _ _⟩
  rw [List.mem_singleton.mp hcore']
  exact hfirst.trans (ask_core_sublist hask)

/-- With a sound solver the walk starts from a sound tree. -/
theorem sound_first (hsound : s.oracle.Sound holds s.frame.size) (hordered : s.frame.Ordered)
    {core first : List Nat} {p p' p'' : Progress σ}
    (hask : s.ask s.frame.tracked p = (.unsat core, p'))
    (hshrink : s.shrink core p' = (first, p'')) :
    Tree.Sound holds s.frame { cores := [first], progress := p'' } := by
  obtain ⟨hcore, hconflict⟩ := ask_right hsound hask
  have hfirst := shrink_conflicting hsound p' hconflict
  have hminimal := shrink_minimal hsound hordered (p := p') hcore hconflict
  rw [hshrink] at hfirst hminimal
  refine ⟨fun core' hcore' ↦ ?_, fun hc core' hcore' ↦ ?_, ?_⟩
  · exact List.mem_singleton.mp hcore' ▸ hfirst
  · exact List.mem_singleton.mp hcore' ▸ hminimal hc
  · simp

namespace Runs

/-- The cores are tracked premises, and none contains an earlier one. -/
theorem listed (h : Runs s start attempt) :
    (∀ core ∈ attempt.cores, core.Sublist s.frame.tracked) ∧
      attempt.cores.Pairwise fun earlier later => ¬ earlier ⊆ later := by
  cases h with
  | satisfiable | gaveUp => exact ⟨by simp, List.Pairwise.nil⟩
  | refuted hask hshrink hwalk =>
      have hlisted := walk_preserves Visits.listed _ (listed_first hask hshrink)
      rw [hwalk] at hlisted
      exact ⟨hlisted.tracked, hlisted.distinct⟩

/-- Every core is listed once. -/
theorem cores_nodup (h : Runs s start attempt) : attempt.cores.Nodup := by
  refine h.listed.2.imp fun hnot heq ↦ hnot ?_
  rw [heq]
  exact List.Subset.refl _

/-- A proof has a core, and nothing else has. -/
theorem cores_ne_nil_iff (h : Runs s start attempt) :
    attempt.cores ≠ [] ↔ attempt.status = .proved := by
  cases h with
  | satisfiable | gaveUp => simp
  | @refuted core first p p' finished tree hask hshrink hwalk =>
      have hfirst : first ∈ tree.cores :=
        (walk_keeps_cores hwalk).subset (List.mem_singleton_self first)
      exact iff_of_true (List.ne_nil_of_mem hfirst) rfl

/-- Premises that are not refuted are satisfiable. -/
theorem consistent (h : Runs s start attempt) (hsound : s.oracle.Sound holds s.frame.size)
    (hstatus : attempt.status = .notProved) : ¬ s.frame.Conflicting holds s.frame.tracked := by
  cases h with
  | satisfiable hask => exact ask_right hsound hask
  | gaveUp | refuted => cases hstatus

/-- Every core conflicts. -/
theorem conflicting (h : Runs s start attempt) (hsound : s.oracle.Sound holds s.frame.size)
    (hordered : s.frame.Ordered) : ∀ core ∈ attempt.cores, s.frame.Conflicting holds core := by
  cases h with
  | satisfiable | gaveUp => simp
  | refuted hask hshrink hwalk =>
      have htree := walk_preserves (Visits.sound hsound hordered) _
        (sound_first hsound hordered hask hshrink)
      rw [hwalk] at htree
      exact htree.conflicting

/-- Premises that are refuted conflict. -/
theorem conflicting_tracked (h : Runs s start attempt)
    (hsound : s.oracle.Sound holds s.frame.size) (hordered : s.frame.Ordered)
    (hstatus : attempt.status = .proved) : s.frame.Conflicting holds s.frame.tracked := by
  obtain ⟨core, hcore⟩ := List.exists_mem_of_ne_nil _ (h.cores_ne_nil_iff.mpr hstatus)
  exact (h.conflicting hsound hordered core hcore).mono (h.listed.1 core hcore).subset

/-- The cores of a complete proof are exactly the minimal ones. -/
theorem mem_cores_iff (h : Runs s start attempt) (hsound : s.oracle.Sound holds s.frame.size)
    (hordered : s.frame.Ordered) (hstatus : attempt.status = .proved)
    (hcomplete : attempt.complete = true) (core : List Nat) :
    core ∈ attempt.cores ↔ s.frame.MinimalCore holds core := by
  cases h with
  | satisfiable | gaveUp => cases hstatus
  | @refuted core' first p p' finished tree hask hshrink hwalk =>
      have hlisted := listed_first hask hshrink
      have hfirst := sound_first hsound hordered hask hshrink
      have htree := walk_preserves (Visits.sound hsound hordered) _ hfirst
      rw [hwalk] at htree
      obtain ⟨hprogress, rfl⟩ := Bool.and_eq_true_iff.mp hcomplete
      exact ⟨htree.minimal hprogress core,
        fun hcore ↦ mem_cores_of_walk hsound hordered hcore hwalk hlisted hfirst⟩

/-- The first verdict settles how the search ends, if there is a question to ask at all. -/
theorem status_eq (h : Runs s start attempt) :
    attempt.status = if s.limits.checks ≤ 0 then .unknown
      else (s.oracle (List.range s.frame.size) start).1.status := by
  rw [← status_ask_first]
  cases h with
  | satisfiable hask | gaveUp hask | refuted hask => rw [hask, Answer.status]

end Runs

end Search

end Diagnosis.Cores
