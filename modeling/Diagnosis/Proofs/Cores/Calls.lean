import Diagnosis.Cores.Attempt

/-!
# The calls of the solver

A search tells which questions it asked. These are the calls of its solver: a solver that writes
down its calls has written down the same ones, in order, and the search does not notice
(`Search.run_recorded`).
-/

namespace Diagnosis.Cores

variable {σ : Type} {s : Search σ}

/-! ## Solvers that write down their calls -/

/-- The solver that writes down its calls, and otherwise answers as before. -/
def Oracle.recorded (oracle : Oracle σ) : Oracle (σ × List (List Nat × Verdict)) :=
  fun positions state =>
    let (verdict, solver) := oracle positions state.1
    (verdict, (solver, state.2 ++ [(positions, verdict)]))

/-- The progress of a search whose solver wrote down its calls. -/
def Progress.recorded (p : Progress σ) : Progress (σ × List (List Nat × Verdict)) where
  solver := (p.solver, p.log.reverse)
  log := p.log
  complete := p.complete

/-- What a walk has found while the solver wrote down its calls. -/
def Tree.recorded (tree : Tree σ) : Tree (σ × List (List Nat × Verdict)) where
  cores := tree.cores
  closed := tree.closed
  progress := tree.progress.recorded

/-- A visit during which the solver wrote down its calls. -/
def Visit.recorded : Visit σ → Visit (σ × List (List Nat × Verdict))
  | closes tree => .closes tree.recorded
  | expands core tree => .expands core tree.recorded
  | stops tree => .stops tree.recorded

namespace Search

/-- The search with a solver that writes down its calls. -/
def recorded (s : Search σ) : Search (σ × List (List Nat × Verdict)) where
  frame := s.frame
  limits := s.limits
  oracle := s.oracle.recorded

@[simp] theorem recorded_frame : s.recorded.frame = s.frame := rfl

@[simp] theorem recorded_limits : s.recorded.limits = s.limits := rfl

/-! ## The search does not notice -/

/-- A question is one call, and a question that is refused is none. -/
theorem ask_recorded (members : List Nat) (p : Progress σ) :
    s.recorded.ask members p.recorded = ((s.ask members p).1, (s.ask members p).2.recorded) := by
  unfold ask
  change (if s.limits.checks ≤ p.log.length then _ else _) = _
  split
  case isTrue => rfl
  case isFalse => simp [recorded, Progress.recorded, Oracle.recorded]

/-- Shrinking does not notice the record. -/
theorem dropEach_recorded (candidates members : List Nat) (p : Progress σ) :
    s.recorded.dropEach candidates members p.recorded =
      ((s.dropEach candidates members p).1, (s.dropEach candidates members p).2.recorded) := by
  induction candidates generalizing members p with
  | nil => rfl
  | cons i rest ih =>
      rw [dropEach, dropEach]
      split
      case isFalse => exact ih members p
      case isTrue =>
        rw [ask_recorded]
        cases s.ask (members.filter (· != i)) p with
        | mk answer p' =>
            cases answer with
            | sat => exact ih members p'
            | unsat core => exact ih core p'
            | unknown reason => exact ih members { p' with complete := false }

/-- A visit does not notice the record. -/
theorem visit_recorded (path : Path) (tree : Tree σ) :
    s.recorded.visit path tree.recorded = (s.visit path tree).recorded := by
  simp only [visit, Tree.recorded, recorded_frame, recorded_limits, ask_recorded]
  split
  case isTrue => rfl
  case isFalse =>
    cases tree.cores.find? fun core => core.all fun i => !path.contains i with
    | some core => rfl
    | none =>
        cases s.ask (s.frame.tracked.filter fun i => !path.contains i) tree.progress with
        | mk answer progress =>
            cases answer with
            | sat | unknown => rfl
            | unsat core =>
                simp only [shrink, dropEach_recorded]
                split <;> rfl

/-- The visits of a level do not notice the record. -/
theorem visitLevel_recorded (level next : List Path) (tree : Tree σ) :
    s.recorded.visitLevel level next tree.recorded =
      ((s.visitLevel level next tree).1, (s.visitLevel level next tree).2.recorded) := by
  induction level generalizing next tree with
  | nil => rfl
  | cons path level ih =>
      rw [visitLevel, visitLevel, visit_recorded]
      cases s.visit path tree with
      | closes tree' => exact ih next tree'
      | expands core tree' => exact ih (addChildren path core next) tree'
      | stops tree' => rfl

/-- The walk does not notice the record. -/
theorem walkLevels_recorded (n : Nat) (level : List Path) (tree : Tree σ) :
    s.recorded.walkLevels n level tree.recorded =
      ((s.walkLevels n level tree).1, (s.walkLevels n level tree).2.recorded) := by
  induction n generalizing level tree with
  | zero => cases level <;> rfl
  | succ n ih =>
      cases level with
      | nil => rfl
      | cons path level =>
          rw [walkLevels, walkLevels, visitLevel_recorded]
          cases s.visitLevel (path :: level) [] tree with
          | mk result tree' =>
              cases result with
              | none => rfl
              | some next => exact ih next tree'

/-- The calls that the solver writes down are the questions that the search tells of, in order, and
the search tells the same as without the record. -/
theorem run_recorded (s : Search σ) (start : σ) :
    s.recorded.run (start, []) =
      ((s.run start).1, ((s.run start).2, (s.run start).1.questions)) := by
  have hfirst : s.recorded.ask s.frame.tracked { solver := (start, []) } =
      ((s.ask s.frame.tracked { solver := start }).1,
        (s.ask s.frame.tracked { solver := start }).2.recorded) :=
    ask_recorded s.frame.tracked { solver := start }
  unfold run
  rw [recorded_frame, hfirst]
  cases s.ask s.frame.tracked { solver := start } with
  | mk answer p =>
      cases answer with
      | sat | unknown => rfl
      | unsat core =>
          have hwalk := walkLevels_recorded (s := s) (s.frame.tracked.length + 1) [[]]
            { cores := [(s.shrink core p).1], progress := (s.shrink core p).2 }
          simp only [shrink, dropEach_recorded, walk, recorded_frame]
          simp only [Tree.recorded, shrink] at hwalk
          rw [hwalk]
          rfl

end Search

end Diagnosis.Cores
