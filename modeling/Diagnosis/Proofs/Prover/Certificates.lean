import Diagnosis.Formula.Semantics
import Diagnosis.Proofs.Cores.Attempt
import Diagnosis.Prover.Refutation

/-!
# Certificates

A search over premises is a proof, and its refutations are certificates: the background with a set
of tracked premises. What they are worth is stated for every notion of truth, every choice of
tracked premises, all budgets, and every solver whose definite answers are right: the status and
each certificate are right, and a complete proof has exactly the certificates of the minimal sets.
-/

namespace Diagnosis

variable {W : Type*} (models : W → Formula → Prop)

/-- Some world makes all of the formulas true. -/
def SatisfiableIn (fs : List Formula) : Prop :=
  ∃ w, ∀ f ∈ fs, models w f

/-- Truth under an assignment to atoms. -/
def trueUnder (truth : Atom → Prop) (f : Formula) : Prop :=
  f.HoldsIn [] truth

variable {models} in
/-- A part of satisfiable formulas is satisfiable. -/
theorem SatisfiableIn.mono {fewer more : List Formula} (h : SatisfiableIn models more)
    (hsub : fewer ⊆ more) : SatisfiableIn models fewer := by
  obtain ⟨w, hw⟩ := h
  exact ⟨w, fun f hf ↦ hw f (hsub hf)⟩

/-- The premise at a position is true in a world. -/
def premiseHolds (premises : List Formula) (w : W) (i : Nat) : Prop :=
  ∀ f ∈ premises[i]?, models w f

/-- Positions are consistent if the premises at them are satisfiable. -/
theorem consistent_premiseHolds_iff {premises : List Formula} {positions : List Nat} :
    Cores.Consistent (premiseHolds models premises) positions ↔
      SatisfiableIn models (positions.filterMap fun i => premises[i]?) := by
  constructor
  · rintro ⟨w, hw⟩
    refine ⟨w, fun f hf ↦ ?_⟩
    obtain ⟨i, hi, hfi⟩ := List.mem_filterMap.mp hf
    exact hw i hi f hfi
  · rintro ⟨w, hw⟩
    exact ⟨w, fun i hi f hf ↦ hw f (List.mem_filterMap.mpr ⟨i, hi, hf⟩)⟩

/-- The background together with the tracked premises at `members`, in ascending order. -/
def certificate (premises : List Formula) (tracked members : List Nat) : Refutation where
  premises := ((List.range premises.length).filter fun i =>
    i ∈ members ∨ i ∉ tracked).filterMap fun i => premises[i]?

/-- No world makes all premises of the refutation true. -/
def Refutation.Contradictory (r : Refutation) : Prop :=
  ¬ SatisfiableIn models r.premises

/-- The proof that a search over premises amounts to. -/
def searchProof {σ : Type} (premises : List Formula) (tracked : List Nat) (limits : Cores.Limits)
    (oracle : Cores.Oracle σ) (start : σ) : Proof :=
  let frame : Cores.Frame := { size := premises.length, tracked }
  let search : Cores.Search σ := { frame, limits, oracle }
  { premises, frame, attempt := (search.run start).1 }

section Search

variable {σ : Type} (premises : List Formula) (tracked : List Nat) (limits : Cores.Limits)
  (oracle : Cores.Oracle σ) (start : σ)

/-- A formula belongs to a certificate if it stands at a position in the set or in the
background. -/
theorem mem_certificate {members : List Nat} {f : Formula} :
    f ∈ (certificate premises tracked members).premises ↔
      ∃ i, premises[i]? = some f ∧ (i ∈ members ∨ i ∉ tracked) := by
  rw [certificate, List.mem_filterMap]
  refine exists_congr fun i ↦ ?_
  rw [List.mem_filter, List.mem_range, decide_eq_true_eq]
  refine ⟨fun ⟨⟨_, hmember⟩, hf⟩ ↦ ⟨hf, hmember⟩, fun ⟨hf, hmember⟩ ↦ ⟨⟨?_, hmember⟩, hf⟩⟩
  exact (List.getElem?_eq_some_iff.mp hf).1

/-- A certificate has premises only. -/
theorem certificate_subset (members : List Nat) :
    (certificate premises tracked members).premises ⊆ premises := by
  intro f hf
  obtain ⟨i, hi, _⟩ := (mem_certificate premises tracked).mp hf
  exact List.mem_of_getElem? hi

/-- The certificate of a set has the premises that a question about the set asks for. -/
theorem certificate_eq (members : List Nat) :
    certificate premises tracked members =
      { premises := (Cores.Frame.withBackground { size := premises.length, tracked }
          members).filterMap fun i => premises[i]? } := by
  simp [certificate, Cores.Frame.withBackground]

/-- The refutations of a proof are the certificates of its cores. -/
theorem refutations_searchProof :
    (searchProof premises tracked limits oracle start).refutations =
      (searchProof premises tracked limits oracle start).attempt.cores.map
        (certificate premises tracked) := by
  rw [Proof.refutations, Proof.positions, List.map_map]
  apply List.map_congr_left
  intro core _
  exact (certificate_eq premises tracked core).symm

/-- Tracked premises conflict if their certificate is unsatisfiable. -/
theorem conflicting_iff_certificate (members : List Nat) :
    Cores.Frame.Conflicting (premiseHolds models premises) { size := premises.length, tracked }
        members ↔
      (certificate premises tracked members).Contradictory models := by
  rw [Cores.Frame.Conflicting, Refutation.Contradictory, consistent_premiseHolds_iff,
    certificate_eq]

/-- A minimal core is a minimal set of tracked premises with an unsatisfiable certificate. -/
theorem minimalCore_iff_certificate (core : List Nat) :
    Cores.Frame.MinimalCore (premiseHolds models premises) { size := premises.length, tracked }
        core ↔
      core.Sublist tracked ∧ (certificate premises tracked core).Contradictory models ∧
        ∀ part : List Nat, part.Sublist tracked →
          (certificate premises tracked part).Contradictory models → part ⊆ core →
            part = core := by
  simp only [← conflicting_iff_certificate]
  exact ⟨fun h ↦ ⟨h.tracked, h.conflicting, h.minimal⟩, fun h ↦ ⟨h.1, h.2.1, h.2.2⟩⟩

/-- The certificate of all tracked premises says what the premises say. -/
theorem satisfiableIn_certificate_tracked :
    SatisfiableIn models (certificate premises tracked tracked).premises ↔
      SatisfiableIn models premises := by
  refine exists_congr fun w ↦ forall_congr' fun f ↦ ?_
  rw [mem_certificate, List.mem_iff_getElem?]
  simp only [em, and_true]

/-- All tracked premises conflict if the premises are unsatisfiable. -/
theorem conflicting_tracked_iff :
    Cores.Frame.Conflicting (premiseHolds models premises) { size := premises.length, tracked }
        tracked ↔ ¬ SatisfiableIn models premises := by
  rw [conflicting_iff_certificate, Refutation.Contradictory, satisfiableIn_certificate_tracked]

/-- The way in which the search of a proof ended. -/
theorem runs_searchProof :
    Cores.Search.Runs { frame := { size := premises.length, tracked }, limits, oracle } start
      (searchProof premises tracked limits oracle start).attempt :=
  Cores.Search.runs_run _ start

/-! ## A small search -/

/-- The premises p, not p, and p again. -/
def clashingPremises : List Formula :=
  [.atom "p" [], .neg (.atom "p" []), .atom "p" []]

/-- The solver that knows which of these premises clash. It names everything it was asked about
as the core. -/
def clashOracle : Cores.Oracle Unit := fun positions state =>
  (if positions.contains 1 && (positions.contains 0 || positions.contains 2)
    then .unsat (some positions) else .sat, state)

/-- The verdicts of this solver are right. -/
theorem clashOracle_sound :
    clashOracle.Sound (premiseHolds trueUnder clashingPremises) clashingPremises.length := by
  intro positions state hpositions
  have hbound : ∀ i ∈ positions, i = 0 ∨ i = 1 ∨ i = 2 := by
    intro i hi
    have hlt := List.mem_range.mp (hpositions.subset hi)
    simp only [clashingPremises, List.length_cons, List.length_nil] at hlt
    omega
  unfold clashOracle
  split
  case isTrue hclash =>
    refine ⟨List.Subset.refl _, fun ⟨truth, htruth⟩ ↦ ?_⟩
    simp only [Bool.and_eq_true, Bool.or_eq_true, List.contains_iff_mem] at hclash
    have hdenied := htruth 1 hclash.1 _ rfl
    rcases hclash.2 with hmem | hmem
    · exact hdenied (htruth 0 hmem _ rfl)
    · exact hdenied (htruth 2 hmem _ rfl)
  case isFalse hclash =>
    -- Only the second premise denies p, so p is true where that premise is not asked about.
    refine ⟨fun _ ↦ 1 ∉ positions, fun i hi f hf ↦ ?_⟩
    simp only [Bool.and_eq_true, Bool.or_eq_true, List.contains_iff_mem] at hclash
    rcases hbound i hi with rfl | rfl | rfl
    · cases hf
      exact fun hmem ↦ hclash ⟨hmem, .inl hi⟩
    · cases hf
      exact fun hnot ↦ hnot hi
    · cases hf
      exact fun hmem ↦ hclash ⟨hmem, .inr hi⟩

/-! ## What certificates are worth -/

variable {models premises tracked oracle}

/-- For every notion of truth, all budgets and every solver whose definite answers are right: a
search that proves nothing has satisfiable premises, and one that proves has unsatisfiable ones.
Its refutations are certificates of sets of tracked premises, and each of them is unsatisfiable,
also when a budget or an unknown answer cut the search short. When the search is complete, these
sets are the minimal ones with unsatisfiable certificates, each of them once, whatever cores the
solver named. -/
theorem search_refutations (htracked : tracked.Sublist (List.range premises.length))
    (hsound : oracle.Sound (premiseHolds models premises) premises.length) :
    let proof := searchProof premises tracked limits oracle start
    let cores := proof.attempt.cores
    (proof.attempt.status = .notProved → SatisfiableIn models premises) ∧
    (proof.attempt.status = .proved → ¬ SatisfiableIn models premises) ∧
    proof.refutations = cores.map (certificate premises tracked) ∧
    (∀ core ∈ cores, core.Sublist tracked ∧
      (certificate premises tracked core).Contradictory models) ∧
    (proof.attempt.status = .proved → proof.attempt.complete = true →
      cores.Nodup ∧ ∀ core, core ∈ cores ↔
        core.Sublist tracked ∧ (certificate premises tracked core).Contradictory models ∧
          ∀ part : List Nat, part.Sublist tracked →
            (certificate premises tracked part).Contradictory models → part ⊆ core →
              part = core) := by
  intro proof cores
  have hruns := runs_searchProof premises tracked limits oracle start
  have hcores : ∀ core ∈ cores, core.Sublist tracked ∧
      (certificate premises tracked core).Contradictory models := fun core hcore ↦
    ⟨hruns.listed.1 core hcore,
      (conflicting_iff_certificate models premises tracked core).mp
        (hruns.conflicting hsound htracked core hcore)⟩
  refine ⟨fun hstatus ↦ ?_, fun hstatus hsat ↦ ?_, refutations_searchProof .., hcores,
    fun hstatus hcomplete ↦ ⟨hruns.cores_nodup, fun core ↦ ?_⟩⟩
  · have hconsistent := hruns.consistent hsound hstatus
    rw [conflicting_iff_certificate, Refutation.Contradictory, not_not] at hconsistent
    exact (satisfiableIn_certificate_tracked models premises tracked).mp hconsistent
  · obtain ⟨core, hcore⟩ := List.exists_mem_of_ne_nil _ (hruns.cores_ne_nil_iff.mpr hstatus)
    apply (hcores core hcore).2
    apply hsat.mono
    intro f hf
    obtain ⟨i, hi, _⟩ := (mem_certificate premises tracked).mp hf
    exact List.mem_of_getElem? hi
  · rw [hruns.mem_cores_iff hsound htracked hstatus hcomplete, minimalCore_iff_certificate]

/-- Two minimal sets are found although the solver never names a minimal core. -/
theorem clashing_refutations :
    let proof := searchProof clashingPremises [0, 1, 2] { checks := 100, refutations := 10 }
      clashOracle ()
    proof.attempt.status = .proved ∧ proof.attempt.complete = true ∧
      ¬ SatisfiableIn trueUnder clashingPremises ∧
      ∀ core, core ∈ [[1, 2], [0, 1]] ↔
        core.Sublist [0, 1, 2] ∧
          (certificate clashingPremises [0, 1, 2] core).Contradictory trueUnder ∧
            ∀ part : List Nat, part.Sublist [0, 1, 2] →
              (certificate clashingPremises [0, 1, 2] part).Contradictory trueUnder →
                part ⊆ core → part = core := by
  have htracked : [0, 1, 2].Sublist (List.range clashingPremises.length) := by decide
  obtain ⟨_, hproved, _, _, hminimal⟩ := search_refutations
    { checks := 100, refutations := 10 } () htracked clashOracle_sound
  exact ⟨by decide, by decide, hproved (by decide), (hminimal (by decide) (by decide)).2⟩

end Search

end Diagnosis
