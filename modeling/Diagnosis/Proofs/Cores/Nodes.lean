import Diagnosis.Proofs.Cores.Budgets
import Diagnosis.Proofs.Cores.HittingSets
import Mathlib.Logic.Relation

/-!
# The walk from node to node

The walk over the tree visits one node after the other. Between two visits it knows what is left of
a level, what has been gathered of the next one, and the tree found so far. A step visits the first
node of the level or, where none is left, turns to the next level. The levels that are walked are
these steps one after the other (`exists_end_of_walks`), so that the states that can be reached by
steps are those that the walk goes through.

At each of them there is a `Stage` (`AtStage.reaches`). So the paths that close are minimal hitting
sets, each of them closes once (`Runs.closed_minimal`), and a complete search has closed all of them
(`Runs.mem_closed_iff`). A node at which the solver is asked, and answers that what the path leaves
is satisfiable, is a minimal hitting set that was not closed before (`Runs.closes_of_sat`).
-/

namespace Diagnosis.Cores

/-- A walk between two visits: the paths of a level that are left, those that are gathered for the
next one, and the tree. -/
structure Walk (σ : Type) where
  level : List Path
  next : List Path
  tree : Tree σ

/-- The walk before the first visit, which is at the path that gives up nothing. -/
def Walk.root {σ : Type} (tree : Tree σ) : Walk σ where
  level := [[]]
  next := []
  tree

/-- What a closed path leaves was asked about and found satisfiable. -/
def Tree.Asked (frame : Frame) (tree : Tree σ) : Prop :=
  ∀ path ∈ tree.closed,
    (frame.withBackground (frame.without path), Verdict.sat) ∈ tree.progress.log

namespace Search

variable {W : Type*} {holds : W → Nat → Prop} {σ : Type} {s : Search σ} {walk after last : Walk σ}
  {path : Path} {level next : List Path} {tree tree' : Tree σ}

/-- One step of the walk: the first node of the level is visited, and its children are gathered. At
the end of a level the walk turns to the next one. There is no step where a node stops the walk or
no path is left. -/
def walkStep (s : Search σ) : Walk σ → Option (Walk σ)
  | { level := path :: level, next, tree } =>
    match s.visit path tree with
    | .closes tree => some { level, next, tree }
    | .expands core tree => some { level, next := addChildren path core next, tree }
    | .stops _ => none
  | { level := [], next := path :: next, tree } => some { level := path :: next, next := [], tree }
  | { level := [], next := [], tree := _ } => none

/-- The walk comes from one state to another by any number of steps. -/
def Reaches (s : Search σ) : Walk σ → Walk σ → Prop :=
  Relation.ReflTransGen fun walk after => s.walkStep walk = some after

/-- The walk goes one way only, so that it passes through every state on the way to its end. -/
theorem Reaches.to_end (h : s.Reaches walk after) (hlast : s.Reaches walk last)
    (hend : s.walkStep last = none) : s.Reaches after last := by
  have hunique : Relator.RightUnique fun walk after => s.walkStep walk = some after :=
    fun _ _ _ hstep hstep' ↦ Option.some.inj (hstep.symm.trans hstep')
  rcases Relation.ReflTransGen.total_of_right_unique hunique h hlast with hon | hback
  · exact hon
  · -- Nothing comes after the end.
    rcases hback.cases_head with rfl | ⟨_, hstep, _⟩
    · exact .refl
    · cases hend.symm.trans hstep

/-! ## The levels in steps -/

/-- Visiting a level to its end is a sequence of steps. -/
theorem reaches_of_visitLevel {next' : List Path}
    (h : s.visitLevel level next tree = (some next', tree')) :
    s.Reaches { level, next, tree } { level := [], next := next', tree := tree' } := by
  induction level generalizing next tree with
  | nil =>
      cases h
      exact .refl
  | cons path level ih =>
      rw [visitLevel] at h
      split at h
      case h_1 tree₁ hvisit => exact (ih h).head (by rw [walkStep, hvisit])
      case h_2 core tree₁ hvisit => exact (ih h).head (by rw [walkStep, hvisit])
      case h_3 => cases h

/-- If a node of a level stops the walk, the steps end there, with the same closed paths. -/
theorem exists_end_of_visitLevel (h : s.visitLevel level next tree = (none, tree')) :
    ∃ last, s.Reaches { level, next, tree } last ∧ s.walkStep last = none ∧
      last.tree.closed = tree'.closed := by
  induction level generalizing next tree with
  | nil => cases h
  | cons path level ih =>
      rw [visitLevel] at h
      split at h
      case h_1 tree₁ hvisit =>
        obtain ⟨last, hlast, hend⟩ := ih h
        exact ⟨last, hlast.head (by rw [walkStep, hvisit]), hend⟩
      case h_2 core tree₁ hvisit =>
        obtain ⟨last, hlast, hend⟩ := ih h
        exact ⟨last, hlast.head (by rw [walkStep, hvisit]), hend⟩
      case h_3 tree₁ hvisit =>
        cases h
        refine ⟨_, .refl, by rw [walkStep, hvisit], ?_⟩
        exact (visits_of_visit hvisit).closed_of_stops.symm

/-- A level that is gathered is visited next. -/
theorem reaches_next (next : List Path) (tree : Tree σ) :
    s.Reaches { level := [], next, tree } { level := next, next := [], tree } := by
  cases next with
  | nil => exact .refl
  | cons path next => exact .single rfl

/-- A walk over the levels is a sequence of steps to a state without a next one. If the walk comes
to its end, no path is left there. -/
theorem exists_end_of_walks {finished : Bool} {final : Tree σ}
    (h : Walks s level tree finished final) :
    ∃ last, s.Reaches { level, next := [], tree } last ∧ s.walkStep last = none ∧
      last.tree.closed = final.closed ∧ (finished = true → last.level = [] ∧ last.next = []) := by
  induction h with
  | ends => exact ⟨_, .refl, rfl, rfl, fun _ ↦ ⟨rfl, rfl⟩⟩
  | stops hlevel =>
      obtain ⟨last, hlast, hend, hclosed⟩ := exists_end_of_visitLevel hlevel
      exact ⟨last, hlast, hend, hclosed, fun hfinished ↦ absurd hfinished Bool.false_ne_true⟩
  | descends hlevel _ ih =>
      obtain ⟨last, hlast, hend⟩ := ih
      exact ⟨last, ((reaches_of_visitLevel hlevel).trans (reaches_next _ _)).trans hlast, hend⟩

/-! ## What the steps keep -/

/-- What can be a step of the walk. -/
inductive WalkSteps (s : Search σ) : Walk σ → Walk σ → Prop where
  /-- The first path closes. -/
  | closes {path : Path} {level next : List Path} {tree tree' : Tree σ}
      (hvisit : s.visit path tree = .closes tree') :
      WalkSteps s { level := path :: level, next, tree } { level, next, tree := tree' }
  /-- The first node is expanded. -/
  | expands {path : Path} {core : List Nat} {level next : List Path} {tree tree' : Tree σ}
      (hvisit : s.visit path tree = .expands core tree') :
      WalkSteps s { level := path :: level, next, tree }
        { level, next := addChildren path core next, tree := tree' }
  /-- The walk turns to the next level. -/
  | turns {next : List Path} {tree : Tree σ} :
      WalkSteps s { level := [], next, tree } { level := next, next := [], tree }

/-- Every step is one of these. -/
theorem walkSteps_of_walkStep (hstep : s.walkStep walk = some after) : WalkSteps s walk after := by
  unfold walkStep at hstep
  split at hstep
  case h_1 path level next tree =>
    split at hstep
    case h_1 tree' hvisit =>
      cases hstep
      exact .closes hvisit
    case h_2 core tree' hvisit =>
      cases hstep
      exact .expands hvisit
    case h_3 => cases hstep
  case h_2 =>
    cases hstep
    exact .turns
  case h_3 => cases hstep

/-- A visit adds closed paths at the end. -/
theorem Visits.keeps_closed {visit : Visit σ} (h : Visits s path tree visit) :
    tree.closed <+: visit.tree.closed := by
  cases h with
  | satisfied => exact List.prefix_append _ _
  | _ => exact List.prefix_rfl

/-- A path that is closed stays closed. -/
theorem closed_of_reaches (h : s.Reaches walk after) : walk.tree.closed <+: after.tree.closed := by
  induction h with
  | refl => exact List.prefix_rfl
  | tail _ hstep ih =>
      refine ih.trans ?_
      cases walkSteps_of_walkStep hstep with
      | closes hvisit | expands hvisit => exact (visits_of_visit hvisit).keeps_closed
      | turns => exact List.prefix_rfl

/-- The stage that the walk is at, on some level. -/
def AtStage (holds : W → Nat → Prop) (frame : Frame) (walk : Walk σ) : Prop :=
  ∃ k, Stage holds frame k walk.level walk.next walk.tree

section Sound

variable (hsound : s.oracle.Sound holds s.frame.size) (hordered : s.frame.Ordered)

include hsound hordered

/-- A walk from a first core starts at a stage: the path that gives up nothing is below every
hitting set. -/
theorem atStage_root {core : List Nat} {p p' : Progress σ}
    (hask : s.ask s.frame.tracked p = (.unsat core, p')) :
    AtStage holds s.frame (.root (s.firstTree core p')) :=
  ⟨0,
    { left := .root _
      gathered := .nil _ _
      listed := listed_first hask rfl
      sound := sound_first hsound hordered hask rfl
      exact := ⟨List.nodup_nil, fun _ hclosed ↦ absurd hclosed List.not_mem_nil⟩
      covers := fun hit _ ↦ .inr ⟨[], List.mem_cons_self, List.nil_subset hit⟩ }⟩

/-- A step leads from stage to stage. -/
theorem AtStage.step (h : AtStage holds s.frame walk) (hstep : s.walkStep walk = some after) :
    AtStage holds s.frame after := by
  obtain ⟨k, hstage⟩ := h
  cases walkSteps_of_walkStep hstep with
  | closes hvisit => exact ⟨k, hstage.closes hsound hordered hvisit⟩
  | expands hvisit => exact ⟨k, hstage.expands hsound hordered hvisit⟩
  | turns => exact ⟨k + 1, hstage.turns⟩

/-- There is a stage at every state that the walk comes to. -/
theorem AtStage.reaches (h : AtStage holds s.frame walk) (hreaches : s.Reaches walk after) :
    AtStage holds s.frame after := by
  induction hreaches with
  | refl => exact h
  | tail _ hstep ih => exact ih.step hsound hordered hstep

end Sound

/-- A node is visited by a question if no closed path lies within its path and every core has a
member on it. Where the answer is that the rest is satisfiable, the path closes. -/
theorem visit_of_sat {p : Progress σ} (hopen : ∀ closed ∈ tree.closed, ¬ closed ⊆ path)
    (hnew : ∀ core ∈ tree.cores, ¬ core.Disjoint path)
    (hask : s.ask (s.frame.without path) tree.progress = (.sat, p)) :
    s.visit path tree =
      .closes { tree with closed := tree.closed ++ [path], progress := p } := by
  have hvisits : Visits s path tree (s.visit path tree) := visits_of_visit rfl
  generalize s.visit path tree = visit at hvisits
  cases hvisits with
  | pruned hclosed hsub => exact absurd hsub (hopen _ hclosed)
  | reused hcore havoids => exact absurd havoids (hnew _ hcore)
  | satisfied _ hask' =>
      cases hask.symm.trans hask'
      rfl
  | gaveUp _ hask' | spent _ hask' | found _ hask' => cases hask.symm.trans hask'

/-! ## What an attempt tells -/

variable {start : σ} {attempt : Attempt}

/-- A question that is answered stays on the log. -/
theorem mem_log_ask {members : List Nat} {answer : Answer} {p p' : Progress σ}
    {entry : List Nat × Verdict} (h : s.ask members p = (answer, p')) (hentry : entry ∈ p.log) :
    entry ∈ p'.log := by
  unfold ask at h
  split at h
  case isTrue => exact (Prod.mk.inj h).2 ▸ hentry
  case isFalse =>
    cases h
    exact List.mem_cons_of_mem _ hentry

/-- Premises that are satisfiable were asked about, and the verdict is on the log. -/
theorem mem_log_of_sat {members : List Nat} {p p' : Progress σ}
    (h : s.ask members p = (.sat, p')) :
    (s.frame.withBackground members, Verdict.sat) ∈ p'.log := by
  unfold ask at h
  split at h
  case isTrue => cases h
  case isFalse =>
    obtain ⟨hanswer, rfl⟩ := Prod.mk.inj h
    cases hverdict : (s.oracle (s.frame.withBackground members) p.solver).1 with
    | sat => exact List.mem_cons_self
    | unknown reason => simp [hverdict, restrict] at hanswer
    | unsat core => cases core <;> simp [hverdict, restrict] at hanswer

/-- A visit closes a path only if what it leaves was asked about and found satisfiable. -/
theorem Visits.asked {path : Path} {tree : Tree σ} {visit : Visit σ}
    (h : Visits s path tree visit) (htree : tree.Asked s.frame) : visit.tree.Asked s.frame := by
  have hold (closed : Path) (hclosed : closed ∈ tree.closed) :=
    h.preserves mem_log_ask mem_log_ask (htree closed hclosed)
  cases h with
  | pruned | reused | gaveUp | spent | found => exact hold
  | satisfied hnew hask =>
      intro closed hclosed
      rcases List.mem_append.mp hclosed with hbefore | hlast
      · exact hold closed hbefore
      · rw [List.mem_singleton.mp hlast]
        exact mem_log_of_sat hask

namespace Runs

variable {core : List Nat} {p : Progress σ}

/-- The walk of a search goes from the first core to an end, where the paths are closed that the
attempt tells of. No path is left there if the attempt is complete. -/
theorem exists_end (h : Runs s start attempt) (hordered : s.frame.Ordered)
    (hask : s.ask s.frame.tracked { solver := start } = (.unsat core, p)) :
    ∃ last, s.Reaches (.root (s.firstTree core p)) last ∧ s.walkStep last = none ∧
      last.tree.closed = attempt.closed ∧
      (attempt.complete = true → last.level = [] ∧ last.next = []) := by
  cases h with
  | satisfiable hask' | gaveUp hask' => cases hask.symm.trans hask'
  | @refuted _ first _ p' finished tree hask' hshrink hwalk =>
      cases hask.symm.trans hask'
      have hfirst : s.firstTree core p = { cores := [first], progress := p' } := by
        rw [firstTree, hshrink]
      have hwalks := walks_walk hordered (listed_first hask hshrink)
      rw [hwalk] at hwalks
      obtain ⟨last, hlast, hend, hclosed, hfinished⟩ := exists_end_of_walks hwalks
      exact ⟨last, hfirst ▸ hlast, hend, hclosed,
        fun hcomplete ↦ hfinished (Bool.and_eq_true_iff.mp hcomplete).2⟩

/-- The paths that close are minimal hitting sets, each of them once, also in a search that is cut
short. -/
theorem closed_minimal (h : Runs s start attempt) (hsound : s.oracle.Sound holds s.frame.size)
    (hordered : s.frame.Ordered) :
    attempt.closed.Nodup ∧ ∀ path ∈ attempt.closed, s.frame.MinimalHit holds path := by
  cases h with
  | satisfiable | gaveUp => exact ⟨List.nodup_nil, by simp⟩
  | refuted hask hshrink hwalk =>
      obtain ⟨last, hlast, -, hclosed, -⟩ := (refuted hask hshrink hwalk).exists_end hordered hask
      obtain ⟨_, hstage⟩ := (atStage_root hsound hordered hask).reaches hsound hordered hlast
      exact hclosed ▸ ⟨hstage.exact.nodup, hstage.exact.minimal⟩

/-- What a closed path leaves was asked about and found satisfiable. -/
theorem closed_asked (h : Runs s start attempt) : ∀ path ∈ attempt.closed,
    (s.frame.withBackground (s.frame.without path), Verdict.sat) ∈ attempt.questions := by
  cases h with
  | satisfiable | gaveUp => simp
  | @refuted core first p p' finished tree hask hshrink hwalk =>
      have hfirst : Tree.Asked s.frame { cores := [first], progress := p' } :=
        fun path hpath ↦ absurd hpath List.not_mem_nil
      have hfinal := walk_preserves Visits.asked _ hfirst
      rw [hwalk] at hfinal
      exact fun path hpath ↦ List.mem_reverse.mpr (hfinal path hpath)

/-- In a complete search over conflicting premises the paths that close are exactly the minimal
hitting sets. -/
theorem mem_closed_iff (h : Runs s start attempt) (hsound : s.oracle.Sound holds s.frame.size)
    (hordered : s.frame.Ordered) (hconflict : s.frame.Conflicting holds s.frame.tracked)
    (hcomplete : attempt.complete = true) (path : Path) :
    path ∈ attempt.closed ↔ s.frame.MinimalHit holds path := by
  refine ⟨(h.closed_minimal hsound hordered).2 path, fun hhit ↦ ?_⟩
  cases h with
  | satisfiable hask => exact absurd hconflict (ask_right hsound hask)
  | gaveUp => cases hcomplete
  | refuted hask hshrink hwalk =>
      obtain ⟨last, hlast, -, hclosed, hfinished⟩ :=
        (refuted hask hshrink hwalk).exists_end hordered hask
      obtain ⟨_, hstage⟩ := (atStage_root hsound hordered hask).reaches hsound hordered hlast
      obtain ⟨hlevel, hnext⟩ := hfinished hcomplete
      have hcovered := hstage.covers path hhit
      rw [hlevel, hnext, hclosed] at hcovered
      exact hcovered.resolve_right (by simp)

/-- A node that the walk comes to, and at which the solver is asked and answers that what the path
leaves is satisfiable, is a minimal hitting set that was not closed before, and is closed. -/
theorem closes_of_sat (h : Runs s start attempt) (hsound : s.oracle.Sound holds s.frame.size)
    (hordered : s.frame.Ordered)
    (hask : s.ask s.frame.tracked { solver := start } = (.unsat core, p)) {p' : Progress σ}
    (hreaches : s.Reaches (.root (s.firstTree core p)) { level := path :: level, next, tree })
    (hopen : ∀ closed ∈ tree.closed, ¬ closed ⊆ path)
    (hnew : ∀ core ∈ tree.cores, ¬ core.Disjoint path)
    (hsat : s.ask (s.frame.without path) tree.progress = (.sat, p')) :
    s.frame.MinimalHit holds path ∧ path ∉ tree.closed ∧ path ∈ attempt.closed := by
  obtain ⟨_, hstage⟩ := (atStage_root hsound hordered hask).reaches hsound hordered hreaches
  have hhits := (Frame.hits_iff hordered).mpr (ask_right hsound hsat)
  refine ⟨hstage.minimalHit hordered hopen hhits,
    fun hclosed ↦ hopen path hclosed (List.Subset.refl path), ?_⟩
  obtain ⟨last, hlast, hend, hclosed, -⟩ := h.exists_end hordered hask
  have hstep : s.walkStep { level := path :: level, next, tree } = some
      { level, next, tree := { tree with closed := tree.closed ++ [path], progress := p' } } := by
    rw [walkStep, visit_of_sat hopen hnew hsat]
  have hvisited : s.Reaches _ _ := hreaches.tail hstep
  have hkept := closed_of_reaches (hvisited.to_end hlast hend)
  rw [← hclosed]
  exact hkept.subset (List.mem_append_right _ (List.mem_singleton_self path))

end Runs

end Search

end Diagnosis.Cores
