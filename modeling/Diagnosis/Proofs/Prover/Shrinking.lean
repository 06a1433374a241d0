import Diagnosis.Proofs.Cores.Scan
import Diagnosis.Proofs.Prover.Budgets

/-!
# Minimal certificates in one scan

Shrinking an unsatisfiable set of tracked premises gives a part of it whose certificate is minimal,
with at most one question for each member of the set, whatever unsatisfiable parts the solver names
on the way (`shrinking_once`).
-/

namespace Diagnosis

section Shrinking

variable {W : Type*} {models : W → Formula → Prop} {σ : Type} {premises : List Formula}
  {tracked core : List Nat} {limits : Cores.Limits} {oracle : Cores.Oracle σ}
  {p : Cores.Progress σ}

/-- A member is needed if the certificate without it is satisfiable. -/
theorem needed_iff_certificate {members : List Nat} {i : Nat} :
    Cores.Frame.Needed (premiseHolds models premises) { size := premises.length, tracked }
        members i ↔
      SatisfiableIn models (certificate premises tracked (members.filter (· != i))).premises := by
  rw [Cores.Frame.Needed, conflicting_iff_certificate, Refutation.Contradictory, not_not]

/-- For every notion of truth, all premises and backgrounds, and every solver that is right, never
gives up and names any unsatisfiable part of what it is asked about, or none: if the budget allows
for a question about each member of an unsatisfiable set of tracked premises, then what is left
after shrinking is a part of the set, unsatisfiable, and satisfiable without any one member, no more
questions than that have been asked, and nothing has become incomplete. Shrinking is one scan, from
no members passed to a state without a next one. In every state that the scan comes to, the members
are unsatisfiable and those that it has passed are needed. -/
theorem shrinking_once (htracked : tracked.Sublist (List.range premises.length))
    (hsound : oracle.Sound (premiseHolds models premises) premises.length)
    (hdefinite : oracle.Definite premises.length) (hcore : core.Sublist tracked)
    (hunsat : (certificate premises tracked core).Contradictory models)
    (hchecks : ((p.log.length + core.length : Nat) : Int) ≤ limits.checks) :
    let search : Cores.Search σ := { frame := { size := premises.length, tracked }, limits, oracle }
    let start : Cores.Scan σ := { members := core, passed := 0, progress := p }
    let least := (search.shrink core p).1
    let after := (search.shrink core p).2
    least.Sublist core ∧ (certificate premises tracked least).Contradictory models ∧
    (∀ i ∈ least,
      SatisfiableIn models (certificate premises tracked (least.filter (· != i))).premises) ∧
    after.log.length ≤ p.log.length + core.length ∧ after.complete = p.complete ∧
    (∃ last, search.Scans start last ∧ search.scanStep last = none ∧
      (last.members, last.progress) = (least, after)) ∧
    ∀ scan, search.Scans start scan →
      scan.members.Sublist core ∧ (certificate premises tracked scan.members).Contradictory models ∧
      ∀ i ∈ scan.members.take scan.passed,
        SatisfiableIn models
          (certificate premises tracked (scan.members.filter (· != i))).premises := by
  intro search start least after
  have hascending : core.Pairwise (· < ·) := List.pairwise_lt_range.sublist (hcore.trans htracked)
  have hconflict : search.frame.Conflicting (premiseHolds models premises) core :=
    (conflicting_iff_certificate models premises tracked core).mpr hunsat
  have hkept (scan : Cores.Scan σ) (hscans : search.Scans start scan) :
      Cores.Search.ScanSound (premiseHolds models premises) search core p scan :=
    .scans hascending hsound hdefinite hconflict hchecks hscans
  obtain ⟨last, hlast, hend, hshrink⟩ := Cores.Search.scans_shrink (s := search) hascending p
  have hmembers : last.members = least := congrArg Prod.fst hshrink
  have hprogress : last.progress = after := congrArg Prod.snd hshrink
  have hfinal := hkept last hlast
  have hneeded := hfinal.needed
  rw [Cores.Search.take_passed_of_end hend] at hneeded
  have hquestions := hfinal.questions
  refine ⟨?_, ?_, fun i hi ↦ ?_, ?_, ?_, ⟨last, hlast, hend, hshrink⟩, fun scan hscans ↦ ?_⟩
  · exact hmembers ▸ hfinal.within
  · exact (conflicting_iff_certificate models premises tracked least).mp
      (hmembers ▸ hfinal.conflicting)
  · exact needed_iff_certificate.mp (hmembers ▸ hneeded i (hmembers ▸ hi))
  · exact hprogress ▸ Nat.le_of_add_right_le hquestions
  · exact hprogress ▸ hfinal.complete
  · have hscan := hkept scan hscans
    exact ⟨hscan.within,
      (conflicting_iff_certificate models premises tracked scan.members).mp hscan.conflicting,
      fun i hi ↦ needed_iff_certificate.mp (hscan.needed i hi)⟩

/-- The first trial succeeds, and the scan starts again at the first member of the core named, which
is needed, as is the last one. Three questions are enough for three premises. -/
theorem clashing_shrunk :
    let search : Cores.Search Unit :=
      { frame := { size := clashingPremises.length, tracked := [0, 1, 2] }
        limits := { checks := 3, refutations := 1 }, oracle := clashOracle }
    (certificate clashingPremises [0, 1, 2] [0, 1, 2]).Contradictory trueUnder ∧
      (search.shrink [0, 1, 2] { solver := () }).1 = [1, 2] ∧
      (certificate clashingPremises [0, 1, 2] [1, 2]).Contradictory trueUnder ∧
      (∀ i ∈ [1, 2], SatisfiableIn trueUnder
        (certificate clashingPremises [0, 1, 2] ([1, 2].filter (· != i))).premises) ∧
      (search.shrink [0, 1, 2] { solver := () }).2.log.length = 3 := by
  intro search
  have htracked : [0, 1, 2].Sublist (List.range clashingPremises.length) := by decide
  have hunsat : (certificate clashingPremises [0, 1, 2] [0, 1, 2]).Contradictory trueUnder :=
    fun hsat ↦ not_satisfiableIn_clashingPremises
      ((satisfiableIn_certificate_tracked trueUnder clashingPremises [0, 1, 2]).mp hsat)
  have hleast : (search.shrink [0, 1, 2] { solver := () }).1 = [1, 2] := by decide
  have hchecks : ((0 + [0, 1, 2].length : Nat) : Int) ≤ search.limits.checks := by decide
  obtain ⟨_, hcontradictory, hneeded, _⟩ := shrinking_once (p := { solver := () }) htracked
    clashOracle_sound clashOracle_definite (List.Sublist.refl _) hunsat hchecks
  exact ⟨hunsat, hleast, hleast ▸ hcontradictory, hleast ▸ hneeded, by decide⟩

end Shrinking

end Diagnosis
