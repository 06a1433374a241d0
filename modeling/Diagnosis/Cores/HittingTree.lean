import Diagnosis.Cores.Shrink

/-!
# The hitting-set tree

All minimal cores are found in a tree. A node is a path: the set of tracked premises that it gives
up. If what is left is satisfiable the path closes; otherwise some core avoids the path, and the
node has a child for every member of the core, which gives up that member as well. The tree is
walked level by level, a path of `n` premises being on level `n`.

A path that contains a closed one closes too. A core found before is reused where it avoids the
path, and a set of premises is visited once, however it arises.
-/

namespace Diagnosis.Cores

/-- A set of premises given up, in ascending order. -/
abbrev Path := List Nat

/-- The ascending list with one more member. -/
def insertAscending (i : Nat) : List Nat → List Nat
  | [] => [i]
  | j :: rest => if i < j then i :: j :: rest else if i = j then j :: rest
    else j :: insertAscending i rest

/-- What the walk has found: the cores and the paths that closed as satisfiable, both in order of
discovery, and the progress of the search. -/
structure Tree (σ : Type) where
  cores : List (List Nat)
  closed : List Path := []
  progress : Progress σ

/-- What a visit makes of a node. -/
inductive Visit (σ : Type) where
  /-- The path closes. -/
  | closes (tree : Tree σ)
  /-- The node has a child for every member of the core. -/
  | expands (core : List Nat) (tree : Tree σ)
  /-- A budget is spent or the solver gave up. -/
  | stops (tree : Tree σ)

namespace Search

variable {σ : Type}

/-- Visits one node. The budget of cores is looked at when there is one more to report. -/
def visit (s : Search σ) (path : Path) (tree : Tree σ) : Visit σ :=
  if tree.closed.any fun closed => closed.all path.contains then .closes tree
  else match tree.cores.find? fun core => core.all fun i => !path.contains i with
    | some core => .expands core tree
    | none =>
      match s.ask (s.frame.tracked.filter fun i => !path.contains i) tree.progress with
      | (.sat, progress) => .closes { tree with closed := tree.closed ++ [path], progress }
      | (.unknown _, progress) => .stops { tree with progress }
      | (.unsat core, progress) =>
        if s.limits.refutations ≤ tree.cores.length then .stops { tree with progress }
        else
          let (core, progress) := s.shrink core progress
          .expands core { tree with cores := tree.cores ++ [core], progress }

/-- The paths of the next level with the children of one more node, each path once. -/
def addChildren (path : Path) (core : List Nat) (next : List Path) : List Path :=
  core.foldl (fun next i =>
    let child := insertAscending i path
    if next.contains child then next else next ++ [child]) next

/-- Visits the nodes of a level in order and gathers the next level, unless the walk stops. -/
def visitLevel (s : Search σ) : (level next : List Path) → Tree σ → Option (List Path) × Tree σ
  | [], next, tree => (some next, tree)
  | path :: level, next, tree =>
    match s.visit path tree with
    | .closes tree => s.visitLevel level next tree
    | .expands core tree => s.visitLevel level (addChildren path core next) tree
    | .stops tree => (none, tree)

/-- Walks at most the given number of levels. Says whether the walk came to its end. -/
def walkLevels (s : Search σ) : Nat → (level : List Path) → Tree σ → Bool × Tree σ
  | _, [], tree => (true, tree)
  | 0, _ :: _, tree => (false, tree)
  | n + 1, path :: level, tree =>
    match s.visitLevel (path :: level) [] tree with
    | (some next, tree) => s.walkLevels n next tree
    | (none, tree) => (false, tree)

/-- Walks the whole tree. A path holds tracked premises only, so no level is deeper than their
number. -/
def walk (s : Search σ) (tree : Tree σ) : Bool × Tree σ :=
  s.walkLevels (s.frame.tracked.length + 1) [[]] tree

end Search

end Diagnosis.Cores
