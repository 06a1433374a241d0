import Diagnosis.Proofs.Cores.Nodes
import Diagnosis.Proofs.Prover.Budgets

/-!
# The minimal diagnoses that a proof comes by

A diagnosis of unsatisfiable premises is a set of tracked premises to give up. It has a member in
every minimal set that is unsatisfiable with the background. The search for refutations looks at
such sets too, and where it finds that the other premises are satisfiable, the set is a minimal
diagnosis that it has not come by before. A complete proof has come by every one of them exactly
once (`closed_diagnoses`).
-/

namespace Diagnosis

variable {W : Type*} {models : W → Formula → Prop} {σ : Type} {premises : List Formula}
  {tracked : List Nat} {oracle : Cores.Oracle σ}

variable (models premises tracked) in
/-- The set has a member in every minimal set of tracked premises with an unsatisfiable
certificate. -/
def HitsTracked (path : List Nat) : Prop :=
  ∀ core ∈ minimalTracked models premises tracked, ¬ core.Disjoint path

variable (models premises tracked) in
/-- The minimal sets of tracked premises that hit every minimal set with an unsatisfiable
certificate. -/
def minimalDiagnoses : Set (List Nat) :=
  {path | path.Sublist tracked ∧ HitsTracked models premises tracked path ∧
    ∀ part : List Nat, part.Sublist tracked → HitsTracked models premises tracked part →
      part ⊆ path → part = path}

/-- These sets are the minimal hitting sets. -/
theorem minimalHit_iff {path : List Nat} :
    Cores.Frame.MinimalHit (premiseHolds models premises) { size := premises.length, tracked }
        path ↔ path ∈ minimalDiagnoses models premises tracked := by
  have hhits (path : List Nat) :
      Cores.Frame.Hits (premiseHolds models premises) { size := premises.length, tracked } path ↔
        HitsTracked models premises tracked path := by
    rw [HitsTracked, minimalTracked_eq]
    rfl
  simp only [minimalDiagnoses, ← hhits]
  exact ⟨fun h ↦ ⟨h.tracked, h.hits, h.minimal⟩, fun h ↦ ⟨h.1, h.2.1, h.2.2⟩⟩

variable (limits : Cores.Limits) (start : σ)

/-- With a solver whose definite answers are right, the paths that close in a search over
unsatisfiable premises are minimal diagnoses, each of them once, and the solver has said that what
they leave is satisfiable. They are closed on the walk from the first core: wherever the walk comes
to a node at which the solver is asked, and the solver says that what the path leaves is
satisfiable, the path is a minimal diagnosis that has not been closed before, and it is one of them.
In a complete search they are all of the minimal diagnoses. -/
theorem closed_diagnoses (htracked : tracked.Sublist (List.range premises.length))
    (hsound : oracle.Sound (premiseHolds models premises) premises.length)
    (hunsat : ¬ SatisfiableIn models premises) :
    let proof := searchProof premises tracked limits oracle start
    let search : Cores.Search σ := { frame := { size := premises.length, tracked }, limits, oracle }
    let closed := proof.attempt.closed
    closed.Nodup ∧
    (∀ path ∈ closed, path ∈ minimalDiagnoses models premises tracked) ∧
    (∀ path ∈ closed, (proof.frame.withBackground (tracked.filter fun i => !path.contains i),
      Cores.Verdict.sat) ∈ proof.attempt.questions) ∧
    (∀ first p, search.ask tracked { solver := start } = (.unsat first, p) →
      let root := Cores.Walk.root (search.firstTree first p)
      (∃ last, search.Reaches root last ∧ search.walkStep last = none ∧
        last.tree.closed = closed) ∧
      ∀ path level next tree p',
        search.Reaches root { level := path :: level, next, tree } →
        (∀ earlier ∈ tree.closed, ¬ earlier ⊆ path) →
        (∀ core ∈ tree.cores, ¬ core.Disjoint path) →
        search.ask (tracked.filter fun i => !path.contains i) tree.progress = (.sat, p') →
        path ∈ minimalDiagnoses models premises tracked ∧ path ∉ tree.closed ∧ path ∈ closed) ∧
    (proof.attempt.complete = true →
      ∀ path, path ∈ closed ↔ path ∈ minimalDiagnoses models premises tracked) := by
  intro proof search closed
  have hruns : search.Runs start proof.attempt := runs_searchProof ..
  have hordered : search.frame.Ordered := htracked
  have hconflict := (conflicting_tracked_iff models premises tracked).mpr hunsat
  obtain ⟨hnodup, hminimal⟩ := hruns.closed_minimal hsound hordered
  refine ⟨hnodup, fun path hpath ↦ minimalHit_iff.mp (hminimal path hpath), hruns.closed_asked,
    fun first p hask ↦ ⟨?_, fun path level next tree p' hreaches hopen hnew hsat ↦ ?_⟩,
    fun hcomplete path ↦ ?_⟩
  · obtain ⟨last, hlast, hend, hclosed, -⟩ := hruns.exists_end hordered hask
    exact ⟨last, hlast, hend, hclosed⟩
  · obtain ⟨hhit, hfresh, hclosed⟩ :=
      hruns.closes_of_sat hsound hordered hask hreaches hopen hnew hsat
    exact ⟨minimalHit_iff.mp hhit, hfresh, hclosed⟩
  · rw [← minimalHit_iff]
    exact hruns.mem_closed_iff hsound hordered hconflict hcomplete path

/-- The tree before the walk over these premises: the first core was the whole, and two of its
members are left after three more questions. -/
def clashingTree : Cores.Tree Unit where
  cores := [[1, 2]]
  progress :=
    { solver := ()
      log := [([1], .sat), ([2], .sat), ([1, 2], .unsat (some [1, 2])),
        ([0, 1, 2], .unsat (some [0, 1, 2]))] }

/-- To give up the premise that denies the other two is a minimal diagnosis, and so is to give up
these two. There is no other one. The first one is closed at the second node that the walk comes
to. -/
theorem clashing_diagnoses :
    let limits : Cores.Limits := { checks := 100, refutations := 10 }
    let proof := searchProof clashingPremises [0, 1, 2] limits clashOracle ()
    let search : Cores.Search Unit :=
      { frame := { size := clashingPremises.length, tracked := [0, 1, 2] }, limits,
        oracle := clashOracle }
    proof.attempt.complete = true ∧ ¬ SatisfiableIn trueUnder clashingPremises ∧
      (∃ core p p', search.ask [0, 1, 2] { solver := () } = (.unsat core, p) ∧
        search.Reaches (.root (search.firstTree core p))
          { level := [[1], [2]], next := [], tree := clashingTree } ∧
        search.ask [0, 2] clashingTree.progress = (.sat, p') ∧ [1] ∈ proof.attempt.closed) ∧
      ∀ path, path ∈ [[1], [0, 2]] ↔
        path ∈ minimalDiagnoses trueUnder clashingPremises [0, 1, 2] := by
  intro limits proof search
  have htracked : [0, 1, 2].Sublist (List.range clashingPremises.length) := by decide
  have hunsat := not_satisfiableIn_clashingPremises
  obtain ⟨_, _, _, hnodes, hall⟩ := closed_diagnoses limits () htracked clashOracle_sound hunsat
  have hcomplete : proof.attempt.complete = true := by decide
  have hclosed : proof.attempt.closed = [[1], [0, 2]] := by decide
  have hdiagnoses := hall hcomplete
  rw [hclosed] at hdiagnoses
  let p : Cores.Progress Unit := { solver := (), log := [([0, 1, 2], .unsat (some [0, 1, 2]))] }
  have hask : search.ask [0, 1, 2] { solver := () } = (.unsat [0, 1, 2], p) := rfl
  have hfirst : search.firstTree [0, 1, 2] p = clashingTree := rfl
  have hsat : search.ask [0, 2] clashingTree.progress =
      (.sat, { solver := (), log := ([0, 2], .sat) :: clashingTree.progress.log }) := rfl
  -- The first node is expanded by the only core, and the walk turns to its children.
  have hexpanded : search.Reaches (.root clashingTree)
      { level := [], next := [[1], [2]], tree := clashingTree } := .single rfl
  have hreaches : search.Reaches (.root (search.firstTree [0, 1, 2] p))
      { level := [[1], [2]], next := [], tree := clashingTree } := by
    rw [hfirst]
    exact hexpanded.tail rfl
  obtain ⟨-, -, hnode⟩ := (hnodes [0, 1, 2] p hask).2 [1] [[2]] [] clashingTree _ hreaches
    (fun _ hearlier ↦ absurd hearlier List.not_mem_nil) (by simp [clashingTree]) hsat
  exact ⟨hcomplete, hunsat, ⟨_, _, _, hask, hreaches, hsat, hnode⟩, hdiagnoses⟩

end Diagnosis
