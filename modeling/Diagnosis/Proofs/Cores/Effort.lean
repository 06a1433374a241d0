import Diagnosis.Proofs.Cores.Budgets
import Diagnosis.Proofs.Cores.Levels
import Mathlib.Data.Nat.Choose.Sum

/-!
# The effort of a search

Whatever the solver answers, a search asks no more questions than its budget allows, and no more
than `(1 + t) * 2 ^ t` for `t` tracked premises (`Runs.length_questions_le`): a path is visited at
most once, a visit asks one question itself and at most `t` while it shrinks a core, and the first
path is visited without a question.
-/

namespace Diagnosis.Cores

variable {σ : Type} {s : Search σ} {start : σ} {attempt : Attempt}

namespace Search

/-! ## What the questions keep -/

section Preserved

variable {I : Progress σ → Prop}
  (hask : ∀ {members p answer p'}, s.ask members p = (answer, p') → I p → I p')
  (hunknown : ∀ {members p reason p'}, s.ask members p = (.unknown reason, p') → I p →
    I { p' with complete := false })

include hask hunknown

/-- What every question keeps, shrinking keeps. -/
theorem dropEach_preserves (candidates members : List Nat) (p : Progress σ) (hI : I p) :
    I (s.dropEach candidates members p).2 := by
  fun_induction s.dropEach candidates members p with
  | case1 members p => exact hI
  | case2 i rest members p hi core p' hanswer ih => exact ih (hask hanswer hI)
  | case3 i rest members p hi p' hanswer ih => exact ih (hask hanswer hI)
  | case4 i rest members p hi reason p' hanswer ih => exact ih (hunknown hanswer hI)
  | case5 i rest members p hi ih => exact ih hI

/-- What every question keeps, shrinking a core keeps. -/
theorem shrink_preserves {core least : List Nat} {p p' : Progress σ}
    (hshrink : s.shrink core p = (least, p')) (hI : I p) : I p' := by
  have hleast := dropEach_preserves hask hunknown core core p hI
  rwa [← shrink, hshrink] at hleast

/-- What every question keeps, a visit keeps. -/
theorem Visits.preserves {path : Path} {tree : Tree σ} {visit : Visit σ}
    (h : Visits s path tree visit) (hI : I tree.progress) : I visit.tree.progress := by
  cases h with
  | pruned | reused => exact hI
  | satisfied hnew hanswer | gaveUp hnew hanswer | spent hnew hanswer => exact hask hanswer hI
  | found hnew hanswer hlimit hshrink =>
      exact shrink_preserves hask hunknown hshrink (hask hanswer hI)

/-- What every question keeps, a walk from the first core keeps. -/
theorem refuted_preserves {core first : List Nat} {p p' p'' : Progress σ} {finished : Bool}
    {tree : Tree σ} (hanswer : s.ask s.frame.tracked p = (.unsat core, p'))
    (hshrink : s.shrink core p' = (first, p''))
    (hwalk : s.walk { cores := [first], progress := p'' } = (finished, tree)) (hI : I p) :
    I tree.progress := by
  have hfirst := shrink_preserves hask hunknown hshrink (hask hanswer hI)
  have hfinal := walk_preserves (I := fun tree ↦ I tree.progress)
    (fun hvisit ↦ hvisit.preserves hask hunknown) { cores := [first], progress := p'' } hfirst
  rwa [hwalk] at hfinal

/-- What every question keeps, a search keeps. -/
theorem Runs.exists_progress (h : Runs s start attempt) (hI : I { solver := start }) :
    ∃ p, I p ∧ attempt.questions = p.log.reverse := by
  cases h with
  | satisfiable hanswer | gaveUp hanswer => exact ⟨_, hask hanswer hI, rfl⟩
  | refuted hanswer hshrink hwalk =>
      exact ⟨_, refuted_preserves hask hunknown hanswer hshrink hwalk hI, rfl⟩

end Preserved

/-! ## Budgets are kept -/

/-- No more questions are asked than the budget allows. -/
theorem Runs.questions_within (h : Runs s start attempt) :
    (attempt.questions.length : Int) ≤ max 0 s.limits.checks := by
  have hask {members : List Nat} {p p' : Progress σ} {answer : Answer}
      (hanswer : s.ask members p = (answer, p'))
      (hp : (p.log.length : Int) ≤ max 0 s.limits.checks) :
      (p'.log.length : Int) ≤ max 0 s.limits.checks := by
    unfold ask at hanswer
    split at hanswer
    case isTrue => exact (Prod.mk.inj hanswer).2 ▸ hp
    case isFalse hroom =>
      cases hanswer
      rw [List.length_cons]
      omega
  obtain ⟨p, hp, hquestions⟩ := h.exists_progress hask hask (by simp)
  rwa [hquestions, List.length_reverse]

/-- A visit keeps the number of cores within the budget. -/
theorem Visits.cores_within {path : Path} {tree : Tree σ} {visit : Visit σ}
    (h : Visits s path tree visit)
    (htree : (tree.cores.length : Int) ≤ max 1 s.limits.refutations) :
    (visit.tree.cores.length : Int) ≤ max 1 s.limits.refutations := by
  cases h with
  | pruned | reused | satisfied | gaveUp | spent => exact htree
  | found hnew hask hlimit hshrink =>
      change ((tree.cores ++ _).length : Int) ≤ _
      rw [List.length_append, List.length_singleton]
      omega

/-- The first core is found whatever the budget, and others only as far as it allows. -/
theorem Runs.cores_within (h : Runs s start attempt) :
    (attempt.cores.length : Int) ≤ max 1 s.limits.refutations := by
  cases h with
  | satisfiable | gaveUp => exact Int.le_trans Int.one_nonneg (Int.le_max_left ..)
  | @refuted core first p p' finished tree hask hshrink hwalk =>
      have hfinal := walk_preserves (s := s)
        (I := fun tree ↦ (tree.cores.length : Int) ≤ max 1 s.limits.refutations)
        Visits.cores_within { cores := [first], progress := p' } (Int.le_max_left ..)
      rwa [hwalk] at hfinal

/-! ## Questions per node -/

/-- A question counts once. -/
theorem length_log_ask {members : List Nat} {p p' : Progress σ} {answer : Answer}
    (h : s.ask members p = (answer, p')) : p'.log.length ≤ p.log.length + 1 := by
  unfold ask at h
  split at h
  case isTrue =>
    cases h
    exact Nat.le_succ _
  case isFalse =>
    cases h
    exact Nat.le_refl _

/-- Shrinking asks at most one question for each candidate. -/
theorem length_log_dropEach (candidates members : List Nat) (p : Progress σ) :
    (s.dropEach candidates members p).2.log.length ≤ p.log.length + candidates.length := by
  fun_induction s.dropEach candidates members p with
  | case1 members p => exact Nat.le_refl _
  | case2 i rest members p hi core p' hask ih =>
      have hone := length_log_ask hask
      rw [List.length_cons]
      omega
  | case3 i rest members p hi p' hask ih =>
      have hone := length_log_ask hask
      rw [List.length_cons]
      omega
  | case4 i rest members p hi reason p' hask ih =>
      have hone := length_log_ask hask
      rw [List.length_cons]
      dsimp only at ih
      omega
  | case5 i rest members p hi ih =>
      rw [List.length_cons]
      omega

/-- Shrinking asks at most one question for each member of the core. -/
theorem length_log_shrink {core least : List Nat} {p p' : Progress σ}
    (h : s.shrink core p = (least, p')) : p'.log.length ≤ p.log.length + core.length := by
  have hlog := length_log_dropEach (s := s) core core p
  rwa [← shrink, h] at hlog

/-- A visit asks one question of its own and at most one for each tracked premise. -/
theorem Visits.length_log {path : Path} {tree : Tree σ} {visit : Visit σ}
    (h : Visits s path tree visit) :
    visit.tree.progress.log.length ≤
      tree.progress.log.length + (1 + s.frame.tracked.length) := by
  cases h with
  | pruned | reused => exact Nat.le_add_right _ _
  | satisfied hnew hask | gaveUp hnew hask | spent hnew hask =>
      have hone := length_log_ask hask
      dsimp only [Visit.tree]
      omega
  | found hnew hask hlimit hshrink =>
      have hone := length_log_ask hask
      have hshrunk := length_log_shrink hshrink
      have hcore := ((ask_core_sublist hask).trans List.filter_sublist).length_le
      dsimp only [Visit.tree]
      omega

/-- The questions of a level. -/
theorem length_log_visitLevel (level next : List Path) (tree : Tree σ) :
    (s.visitLevel level next tree).2.progress.log.length ≤
      tree.progress.log.length + level.length * (1 + s.frame.tracked.length) := by
  induction level generalizing next tree with
  | nil => exact Nat.le_add_right _ _
  | cons path level ih =>
      have hvisits : Visits s path tree (s.visit path tree) := visits_of_visit rfl
      rw [List.length_cons, Nat.succ_mul, visitLevel]
      generalize s.visit path tree = visit at hvisits ⊢
      have hnode := hvisits.length_log
      cases visit with
      | closes tree' =>
          have hrest := ih next tree'
          dsimp only [Visit.tree] at hnode ⊢
          omega
      | expands core tree' =>
          have hrest := ih (addChildren path core next) tree'
          dsimp only [Visit.tree] at hnode ⊢
          omega
      | stops tree' =>
          dsimp only [Visit.tree] at hnode ⊢
          omega

/-! ## Questions of the walk -/

/-- From level `k` on, a walk visits each set of at least `k` tracked premises at most once. -/
theorem length_log_walkLevels (hordered : s.frame.Ordered) {n k : Nat} {level : List Path}
    {tree : Tree σ} (hlevel : Level s.frame k level) (hlisted : tree.Listed s.frame) :
    (s.walkLevels n level tree).2.progress.log.length ≤ tree.progress.log.length +
      (∑ j ∈ Finset.range n, s.frame.tracked.length.choose (k + j)) *
        (1 + s.frame.tracked.length) := by
  induction n generalizing k level tree with
  | zero => cases level <;> exact Nat.le_add_right _ _
  | succ n ih =>
      cases level with
      | nil => exact Nat.le_add_right _ _
      | cons path level =>
          have hvisited := length_log_visitLevel (s := s) (path :: level) [] tree
          have hpaths := Nat.mul_le_mul_right (1 + s.frame.tracked.length) hlevel.length_le
          have hlisted' := visitLevel_preserves Visits.listed (path :: level) [] tree hlisted
          rw [Finset.sum_range_succ', Nat.add_mul, walkLevels]
          simp only [Nat.add_zero, ← Nat.add_assoc]
          split
          case h_1 next tree' hvisit =>
            rw [hvisit] at hvisited hlisted'
            have hrest := ih (visitLevel_level hordered hlevel (.nil _ _) hlisted hvisit) hlisted'
            simp only [Nat.add_right_comm k 1] at hrest
            dsimp only at hvisited
            omega
          case h_2 tree' hvisit =>
            rw [hvisit] at hvisited
            dsimp only at hvisited ⊢
            omega

/-- The first node is expanded by a core that is known already. -/
theorem visit_root {tree : Tree σ} {first : List Nat} (hfirst : first ∈ tree.cores)
    (hclosed : tree.closed = []) : ∃ core, s.visit [] tree = .expands core tree := by
  have hvisits : Visits s [] tree (s.visit [] tree) := visits_of_visit rfl
  generalize s.visit [] tree = visit at hvisits ⊢
  cases hvisits with
  | pruned hmem => simp [hclosed] at hmem
  | reused hcore havoids => exact ⟨_, rfl⟩
  | satisfied hnew | gaveUp hnew | spent hnew | found hnew =>
      exact absurd (List.disjoint_nil_right _) (hnew first hfirst)

/-- The questions of a walk that starts with a core. -/
theorem length_log_walk (hordered : s.frame.Ordered) {tree : Tree σ} {first : List Nat}
    (hfirst : first ∈ tree.cores) (hclosed : tree.closed = []) (hlisted : tree.Listed s.frame) :
    (s.walk tree).2.progress.log.length ≤ tree.progress.log.length +
      (2 ^ s.frame.tracked.length - 1) * (1 + s.frame.tracked.length) := by
  obtain ⟨core, hroot⟩ := visit_root (s := s) hfirst hclosed
  have hlevel : s.visitLevel [[]] [] tree = (some (addChildren [] core []), tree) := by
    rw [visitLevel, hroot]
    rfl
  have hwalk : s.walk tree = s.walkLevels s.frame.tracked.length (addChildren [] core []) tree := by
    rw [walk, walkLevels, hlevel]
  have hsum : ∑ j ∈ Finset.range s.frame.tracked.length, s.frame.tracked.length.choose (1 + j) =
      2 ^ s.frame.tracked.length - 1 := by
    rw [← Nat.sum_range_choose, Finset.sum_range_succ', Nat.choose_zero_right, Nat.add_sub_cancel]
    simp only [Nat.add_comm]
  rw [hwalk, ← hsum]
  exact length_log_walkLevels hordered
    (visitLevel_level hordered (.root _) (.nil _ _) hlisted hlevel) hlisted

/-- A search asks at most `(1 + t) * 2 ^ t` questions about `t` tracked premises. -/
theorem Runs.length_questions_le (h : Runs s start attempt) (hordered : s.frame.Ordered) :
    attempt.questions.length ≤ (1 + s.frame.tracked.length) * 2 ^ s.frame.tracked.length := by
  have hpaths : 2 ^ s.frame.tracked.length = 2 ^ s.frame.tracked.length - 1 + 1 :=
    (Nat.sub_add_cancel (Nat.two_pow_pos _)).symm
  rw [hpaths, Nat.mul_comm, Nat.succ_mul]
  cases h with
  | satisfiable hask | gaveUp hask =>
      have hone := length_log_ask hask
      rw [List.length_reverse]
      dsimp only [List.length_nil] at hone
      omega
  | @refuted core first p p' finished tree hask hshrink hwalk =>
      have hone := length_log_ask hask
      have hshrunk := length_log_shrink hshrink
      have hcore := (ask_core_sublist hask).length_le
      have hlisted := listed_first hask hshrink
      have hwalked := length_log_walk hordered (List.mem_singleton_self first) rfl hlisted
      rw [hwalk] at hwalked
      rw [List.length_reverse]
      dsimp only [List.length_nil] at hone hwalked
      omega

end Search

end Diagnosis.Cores
