import Diagnosis.Proofs.Cores.Calls
import Diagnosis.Proofs.Cores.Scan
import Diagnosis.Proofs.Prover.Certificates

/-!
# Proofs under budgets

What the budgets of a proof do to it. Smaller budgets only cut it short (`budgets_truncate`). It
keeps to them whatever the solver answers, and without them it would come to an end too
(`budgets_kept`). With enough questions and a solver that is right and never gives up, the budget
of refutations is exact: a proof is incomplete only if a refutation is missing
(`refutations_exact`).
-/

namespace Diagnosis

variable {W : Type*} {models : W → Formula → Prop} {σ : Type} {premises : List Formula}
  {tracked : List Nat} {limits : Cores.Limits} {oracle : Cores.Oracle σ}

/-! ## Smaller budgets -/

/-- Under larger budgets a proof is the same, or it was incomplete and its cores are extended. -/
theorem searchProof_under (premises : List Formula) (tracked : List Nat) (oracle : Cores.Oracle σ)
    (start : σ) {small large : Cores.Limits} (hle : small ≤ large) :
    searchProof premises tracked small oracle start =
        searchProof premises tracked large oracle start ∨
      (searchProof premises tracked small oracle start).attempt.complete = false ∧
        Cores.Truncates (searchProof premises tracked small oracle start).attempt.cores
          (searchProof premises tracked large oracle start).attempt.cores := by
  let search : Cores.Search σ :=
    { frame := { size := premises.length, tracked }, limits := small, oracle }
  exact (search.run_under hle start).imp_left (congrArg (Proof.mk premises search.frame))

/-- Smaller budgets find the same cores in the same order, whatever the solver answers: fewer of
them, and the last one perhaps not shrunk as far. A proof that is complete under the smaller
budgets is the same under the larger ones, with its status, refutations and questions. -/
theorem budgets_truncate (premises : List Formula) (tracked : List Nat) (oracle : Cores.Oracle σ)
    (start : σ) {small large : Cores.Limits} (hle : small ≤ large) :
    let proof := searchProof premises tracked small oracle start
    let further := searchProof premises tracked large oracle start
    let cores := proof.attempt.cores
    let more := further.attempt.cores
    cores.length ≤ more.length ∧
    (∀ i, i + 1 < cores.length → more[i]? = cores[i]?) ∧
    (∀ core, cores.getLast? = some core →
      ∃ least, more[cores.length - 1]? = some least ∧ least ⊆ core) ∧
    (proof.attempt.complete = true → proof = further) := by
  intro proof further cores more
  have hunder := searchProof_under premises tracked oracle start hle
  have htruncates : Cores.Truncates cores more := by
    rcases hunder with heq | ⟨_, htruncates⟩
    · have hcores : cores = more := congrArg (fun proof ↦ proof.attempt.cores) heq
      exact .stopped (hcores ▸ List.prefix_rfl)
    · exact htruncates
  refine ⟨htruncates.length_le, fun i hi ↦ htruncates.getElem?_eq hi,
    fun core hlast ↦ htruncates.exists_last hlast, fun hcomplete ↦ ?_⟩
  refine hunder.resolve_right fun hcut ↦ Bool.false_ne_true ?_
  exact hcut.1.symm.trans hcomplete

/-- With one question the first core is all that the solver named, and with twenty the proof is
complete. -/
theorem clashing_truncated :
    let proof (checks : Int) (refutations : Int) :=
      searchProof clashingPremises [0, 1, 2] { checks, refutations } clashOracle ()
    (proof 1 1).attempt.cores = [[0, 1, 2]] ∧
      (∃ least, (proof 100 10).attempt.cores[0]? = some least ∧ least ⊆ [0, 1, 2]) ∧
      (proof 20 2).attempt.complete = true ∧ proof 20 2 = proof 100 10 := by
  obtain ⟨_, _, hlast, _⟩ := budgets_truncate clashingPremises [0, 1, 2] clashOracle ()
    (⟨by decide, by decide⟩ : Cores.Limits.mk 1 1 ≤ Cores.Limits.mk 100 10)
  obtain ⟨_, _, _, hsame⟩ := budgets_truncate clashingPremises [0, 1, 2] clashOracle ()
    (⟨by decide, by decide⟩ : Cores.Limits.mk 20 2 ≤ Cores.Limits.mk 100 10)
  exact ⟨by decide, hlast [0, 1, 2] (by decide), by decide, hsame (by decide)⟩

/-! ## Budgets are kept -/

section Kept

variable (limits oracle) (start : σ)

/-- What a search keeps to, whatever the solver answers and however its answers depend on its
state: the walk from the first core would come to its end without a bound on its levels, shrinking
any core is a scan that comes to a state without a next one, the questions the search tells of are
the calls of the solver, and their number is within the budget and within a bound of its own. The
cores are tracked premises and none of them contains an earlier one. A proof has at least one and no
more than its budget, which counts as one where it is less. -/
theorem budgets_kept (htracked : tracked.Sublist (List.range premises.length)) :
    let proof := searchProof premises tracked limits oracle start
    let search : Cores.Search σ :=
      { frame := { size := premises.length, tracked }, limits, oracle }
    let cores := proof.attempt.cores
    (∀ core p, search.ask tracked { solver := start } = (.unsat core, p) →
      search.Walks [[]] (search.firstTree core p) (search.walk (search.firstTree core p)).1
        (search.walk (search.firstTree core p)).2) ∧
    (∀ core p, core.Sublist tracked → ∃ last,
      search.Scans { members := core, passed := 0, progress := p } last ∧
        search.scanStep last = none ∧ (last.members, last.progress) = search.shrink core p) ∧
    (∃ final calls, search.recorded.run (start, []) = (proof.attempt, final, calls) ∧
      proof.attempt.checks = calls.length) ∧
    (proof.attempt.checks : Int) ≤ max 0 limits.checks ∧
    proof.attempt.checks ≤ (1 + tracked.length) * (1 + 2 ^ tracked.length) ∧
    (∀ core ∈ cores, core.Sublist tracked) ∧
    (cores.Pairwise fun earlier later => ¬ earlier ⊆ later) ∧
    (proof.attempt.status = .proved → 1 ≤ proof.refutations.length ∧
      (proof.refutations.length : Int) ≤ max 1 limits.refutations) := by
  intro proof search cores
  have hordered : search.frame.Ordered := htracked
  have hruns : search.Runs start proof.attempt := runs_searchProof ..
  have hrefutations : proof.refutations.length = cores.length := by
    rw [refutations_searchProof, List.length_map]
  refine ⟨fun core p hask ↦ ?_, fun core p hcore ↦ ?_, ⟨_, _, search.run_recorded start, rfl⟩,
    hruns.questions_within, ?_, hruns.listed.1, hruns.listed.2, fun hproved ↦ ?_⟩
  · exact Cores.Search.walks_walk hordered (Cores.Search.listed_first hask rfl)
  · exact Cores.Search.scans_shrink (hordered.pairwise.sublist hcore) p
  · have hquestions := hruns.length_questions_le hordered
    refine Nat.le_trans hquestions (Nat.mul_le_mul_left _ ?_)
    exact Nat.le_add_left _ _
  · rw [hrefutations]
    exact ⟨List.length_pos_of_ne_nil (hruns.cores_ne_nil_iff.mpr hproved), hruns.cores_within⟩

/-- A solver that does not look at the question: it refutes everything, but not the second time it
is asked, and the fifth time it gives up. -/
def fickleOracle : Cores.Oracle Nat := fun _ asked =>
  (if asked = 1 then .sat else if asked = 4 then .unknown "no more" else .unsat (some [0, 2]),
    asked + 1)

/-- With this solver a search uses up both budgets, and its cores are both wrong. -/
theorem fickle_kept :
    let limits : Cores.Limits := { checks := 6, refutations := 2 }
    let proof := searchProof clashingPremises [0, 1, 2] limits fickleOracle 0
    let search : Cores.Search Nat :=
      { frame := { size := clashingPremises.length, tracked := [0, 1, 2] }, limits,
        oracle := fickleOracle }
    [0, 1, 2].Sublist (List.range clashingPremises.length) ∧
      proof.attempt.status = .proved ∧ proof.attempt.cores = [[0], [2]] ∧
      proof.attempt.checks = 6 ∧ (proof.attempt.checks : Int) ≤ max 0 limits.checks ∧
      (∃ final calls, search.recorded.run (0, []) = (proof.attempt, final, calls) ∧
        proof.attempt.checks = calls.length) ∧
      proof.refutations.length = 2 ∧
      (proof.refutations.length : Int) ≤ max 1 limits.refutations := by
  have htracked : [0, 1, 2].Sublist (List.range clashingPremises.length) := by decide
  obtain ⟨_, _, hcalls, hchecks, _, _, _, hproved⟩ :=
    budgets_kept { checks := 6, refutations := 2 } fickleOracle 0 htracked
  exact ⟨htracked, by decide, by decide, by decide, hchecks, hcalls, by decide,
    (hproved (by decide)).2⟩

end Kept

/-! ## The budget of refutations -/

section Exact

variable (models premises tracked) in
/-- The minimal sets of tracked premises with an unsatisfiable certificate. -/
def minimalTracked : Set (List Nat) :=
  {core | core.Sublist tracked ∧ (certificate premises tracked core).Contradictory models ∧
    ∀ part : List Nat, part.Sublist tracked →
      (certificate premises tracked part).Contradictory models → part ⊆ core → part = core}

/-- These sets are the minimal cores. -/
theorem minimalTracked_eq :
    minimalTracked models premises tracked =
      Cores.Frame.minimalCores (premiseHolds models premises)
        { size := premises.length, tracked } :=
  Set.ext fun core ↦ (minimalCore_iff_certificate models premises tracked core).symm

/-- There are finitely many of them. -/
theorem minimalTracked_finite : (minimalTracked models premises tracked).Finite :=
  minimalTracked_eq ▸ Cores.Frame.minimalCores_finite _

variable (limits) (start : σ)

/-- With a solver that is right and never gives up, and with as many questions as a search can come
to ask: a proof from unsatisfiable premises has a refutation for every minimal set or, if these are
more than the budget of refutations, for as many of them as the budget allows, and it is complete if
and only if they are not more. A budget of less than one counts as one. -/
theorem refutations_exact (htracked : tracked.Sublist (List.range premises.length))
    (hsound : oracle.Sound (premiseHolds models premises) premises.length)
    (hdefinite : oracle.Definite premises.length) (hunsat : ¬ SatisfiableIn models premises)
    (hchecks : (((1 + tracked.length) * (1 + 2 ^ tracked.length) : Nat) : Int) ≤ limits.checks) :
    let proof := searchProof premises tracked limits oracle start
    let count := (minimalTracked models premises tracked).ncard
    proof.attempt.status = .proved ∧
    proof.refutations = proof.attempt.cores.map (certificate premises tracked) ∧
    (proof.refutations.length : Int) = min (count : Int) (max 1 limits.refutations) ∧
    proof.attempt.cores.Nodup ∧
    (∀ core ∈ proof.attempt.cores, core ∈ minimalTracked models premises tracked) ∧
    (proof.attempt.complete = true ↔ (count : Int) ≤ max 1 limits.refutations) := by
  intro proof count
  have hruns := runs_searchProof premises tracked limits oracle start
  have hconflict := (conflicting_tracked_iff models premises tracked).mpr hunsat
  obtain ⟨hstatus, hlength, hminimal, hcomplete⟩ :=
    hruns.cores_exact hsound hdefinite htracked hconflict hchecks
  have hrefutations := refutations_searchProof premises tracked limits oracle start
  have hcount : count = (Cores.Frame.minimalCores (premiseHolds models premises)
      { size := premises.length, tracked }).ncard := congrArg Set.ncard minimalTracked_eq
  refine ⟨hstatus, hrefutations, ?_, hruns.cores_nodup, fun core hcore ↦ ?_, ?_⟩
  · rw [hrefutations, List.length_map, hcount]
    exact hlength
  · exact minimalTracked_eq ▸ hminimal core hcore
  · rw [hcount]
    exact hcomplete

/-- The solver that knows which premises clash never gives up. -/
theorem clashOracle_definite : clashOracle.Definite clashingPremises.length := by
  intro positions state _ reason
  unfold clashOracle
  split <;> simp

/-- These premises are unsatisfiable. -/
theorem not_satisfiableIn_clashingPremises : ¬ SatisfiableIn trueUnder clashingPremises := by
  rintro ⟨truth, htruth⟩
  have hp := htruth (.atom "p" []) (by simp [clashingPremises])
  exact htruth (.neg (.atom "p" [])) (by simp [clashingPremises]) hp

/-- Two minimal sets clash: a budget of one refutation is reported to fall short, and a budget of
two is not. -/
theorem clashing_exact :
    let proof (refutations : Int) :=
      searchProof clashingPremises [0, 1, 2] { checks := 36, refutations } clashOracle ()
    let count := (minimalTracked trueUnder clashingPremises [0, 1, 2]).ncard
    ¬ SatisfiableIn trueUnder clashingPremises ∧ count = 2 ∧
      (proof 1).refutations.length = 1 ∧ (proof 1).attempt.complete = false ∧
      ¬ (count : Int) ≤ max 1 1 ∧
      (proof 2).refutations.length = 2 ∧ (proof 2).attempt.complete = true ∧
      (count : Int) ≤ max 1 2 := by
  intro proof count
  have htracked : [0, 1, 2].Sublist (List.range clashingPremises.length) := by decide
  have hunsat := not_satisfiableIn_clashingPremises
  obtain ⟨_, _, _, _, _, hfew⟩ := refutations_exact { checks := 36, refutations := 1 } ()
    htracked clashOracle_sound clashOracle_definite hunsat (by decide)
  obtain ⟨_, _, hlength, _, _, henough⟩ := refutations_exact { checks := 36, refutations := 2 } ()
    htracked clashOracle_sound clashOracle_definite hunsat (by decide)
  have hcut : (proof 1).attempt.complete = false := by decide
  have hwhole : (proof 2).attempt.complete = true := by decide
  have htwo : (proof 2).refutations.length = 2 := by decide
  have hle : (count : Int) ≤ max 1 2 := henough.mp hwhole
  have hcount : (2 : Int) = count := by
    rw [← min_eq_left hle, ← hlength]
    exact congrArg Nat.cast htwo.symm
  refine ⟨hunsat, by omega, by decide, hcut, fun hone ↦ ?_, htwo, hwhole, hle⟩
  exact Bool.false_ne_true (hcut.symm.trans (hfew.mpr hone))

end Exact

end Diagnosis
